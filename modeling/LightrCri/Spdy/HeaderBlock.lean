import LightrCri.Spdy.Headers

/-!
# Header blocks as a code

`deserialize_headers` with its cursor, and what it accepts: exactly the buffers that begin with the
block of the list it returns (`deserialize_eq_some`).
-/

namespace LightrCri.Spdy

open Foundations LightrCri.Stream

/-! ## The cursor -/

/-- `usize::checked_add`. -/
def checkedAdd (a b : Nat) : Option Nat := if a + b < 2 ^ 64 then some (a + b) else none

/-- `buf.get(start..stop)`. -/
def slice (buf : Bytes) (start stop : Nat) : Option Bytes :=
  if start ≤ stop ∧ stop ≤ buf.length then some ((buf.drop start).take (stop - start)) else none

/-- `read_bytes`: the bytes and the new position. -/
def readBytesAt (buf : Bytes) (pos len : Nat) : Option (Bytes × Nat) :=
  (checkedAdd pos len).bind fun stop => (slice buf pos stop).map fun bytes => (bytes, stop)

/-- `read_u32`. -/
def readU32At (buf : Bytes) (pos : Nat) : Option (Nat × Nat) :=
  (readBytesAt buf pos 4).map fun (bytes, pos) => (ofBE bytes, pos)

def readLengthPrefixedAt (buf : Bytes) (pos : Nat) : Option (Bytes × Nat) :=
  (readU32At buf pos).bind fun (len, pos) => readBytesAt buf pos len

def readPairAt (buf : Bytes) (pos : Nat) : Option ((String × String) × Nat) := do
  let (name, pos) ← readLengthPrefixedAt buf pos
  let (value, pos) ← readLengthPrefixedAt buf pos
  return ((← fromUtf8 name, ← fromUtf8 value), pos)

def readPairsAt (buf : Bytes) : Nat → Nat → Option Headers
  | 0, _ => some []
  | n + 1, pos => (readPairAt buf pos).bind fun (p, pos) => (readPairsAt buf n pos).map (p :: ·)

/-- `deserialize_headers`. -/
def deserializeHeadersAt (buf : Bytes) : Option Headers :=
  (readU32At buf 0).bind fun (count, pos) =>
    if MAX_PAIRS < count then none else readPairsAt buf count pos

section

variable {buf : Bytes} {pos : Nat}

/-- A reader of the rest of the buffer, and one that keeps a position in it. -/
def Follows {α : Type} (buf : Bytes) (pos : Nat) (rest : Option (α × Bytes))
    (cursor : Option (α × Nat)) : Prop :=
  (rest = none ∧ cursor = none) ∨
    ∃ a stop, pos ≤ stop ∧ stop ≤ buf.length ∧ rest = some (a, buf.drop stop) ∧ cursor = some (a, stop)

theorem follows_readBytes (hbuf : buf.length < 2 ^ 64) (hpos : pos ≤ buf.length) (len : Nat) :
    Follows buf pos (readBytes (buf.drop pos) len) (readBytesAt buf pos len) := by
  unfold readBytes readBytesAt checkedAdd slice
  rw [List.length_drop]
  by_cases hlen : len ≤ buf.length - pos
  · right
    refine ⟨(buf.drop pos).take len, pos + len, by omega, by omega, ?_, ?_⟩
    · rw [if_pos hlen, List.drop_drop]
    · rw [if_pos (by omega), Option.bind_some, if_pos (by omega), Nat.add_sub_cancel_left]
      rfl
  · left
    refine ⟨if_neg hlen, ?_⟩
    split
    · rw [Option.bind_some, if_neg (by omega)]
      rfl
    · rfl

/-- One reader after the other. -/
theorem Follows.bind {α β : Type} {rest : Option (α × Bytes)} {cursor : Option (α × Nat)}
    {f : α → Bytes → Option (β × Bytes)} {g : α → Nat → Option (β × Nat)}
    (h : Follows buf pos rest cursor)
    (next : ∀ a stop, stop ≤ buf.length → Follows buf stop (f a (buf.drop stop)) (g a stop)) :
    Follows buf pos (rest.bind fun x => f x.1 x.2) (cursor.bind fun x => g x.1 x.2) := by
  obtain ⟨rfl, rfl⟩ | ⟨a, stop, hle, hstop, rfl, rfl⟩ := h
  · exact .inl ⟨rfl, rfl⟩
  · obtain ⟨hrest, hcursor⟩ | ⟨b, stop', hle', hstop', hrest, hcursor⟩ := next a stop hstop
    · exact .inl ⟨hrest, hcursor⟩
    · exact .inr ⟨b, stop', hle.trans hle', hstop', hrest, hcursor⟩

theorem Follows.value {α β : Type} {rest : Option (α × Bytes)} {cursor : Option (α × Nat)}
    {f : α → Bytes → Option β} {g : α → Nat → Option β} (h : Follows buf pos rest cursor)
    (next : ∀ a stop, stop ≤ buf.length → f a (buf.drop stop) = g a stop) :
    (rest.bind fun x => f x.1 x.2) = cursor.bind fun x => g x.1 x.2 := by
  obtain ⟨rfl, rfl⟩ | ⟨a, stop, -, hstop, rfl, rfl⟩ := h
  · rfl
  · exact next a stop hstop

theorem follows_readU32 (hbuf : buf.length < 2 ^ 64) (hpos : pos ≤ buf.length) :
    Follows buf pos (readU32 (buf.drop pos)) (readU32At buf pos) := by
  have h := follows_readBytes hbuf hpos 4
  unfold readU32At
  obtain ⟨hrest, hcursor⟩ | ⟨a, stop, hle, hstop, hrest, hcursor⟩ := h
  · left
    rw [hcursor]
    unfold readBytes at hrest
    exact ⟨by
      unfold readU32
      split at hrest
      · cases hrest
      · exact if_neg ‹_›, rfl⟩
  · right
    refine ⟨ofBE a, stop, hle, hstop, ?_, by rw [hcursor]; rfl⟩
    unfold readBytes at hrest
    unfold readU32
    split at hrest
    · obtain ⟨rfl, hdrop⟩ := Prod.mk.inj (Option.some.inj hrest)
      rw [if_pos ‹_›, hdrop]
    · cases hrest

theorem follows_readLengthPrefixed (hbuf : buf.length < 2 ^ 64) (hpos : pos ≤ buf.length) :
    Follows buf pos (readLengthPrefixed (buf.drop pos)) (readLengthPrefixedAt buf pos) :=
  (follows_readU32 hbuf hpos).bind (f := fun len rest => readBytes rest len)
    (g := fun len pos => readBytesAt buf pos len) fun len _ hstop => follows_readBytes hbuf hstop len

theorem follows_readPair (hbuf : buf.length < 2 ^ 64) (hpos : pos ≤ buf.length) :
    Follows buf pos (readPair (buf.drop pos)) (readPairAt buf pos) := by
  refine (follows_readLengthPrefixed hbuf hpos).bind
    (f := fun name rest => (readLengthPrefixed rest).bind fun x => do
      return ((← fromUtf8 name, ← fromUtf8 x.1), x.2))
    (g := fun name pos => (readLengthPrefixedAt buf pos).bind fun x => do
      return ((← fromUtf8 name, ← fromUtf8 x.1), x.2)) fun name stop hstop => ?_
  refine (follows_readLengthPrefixed hbuf hstop).bind
    (f := fun value rest => do return ((← fromUtf8 name, ← fromUtf8 value), rest))
    (g := fun value pos => do return ((← fromUtf8 name, ← fromUtf8 value), pos))
    fun value stop' hstop' => ?_
  cases hname : fromUtf8 name with
  | none => exact .inl ⟨rfl, rfl⟩
  | some name' =>
    cases hvalue : fromUtf8 value with
    | none => exact .inl ⟨rfl, rfl⟩
    | some value' => exact .inr ⟨(name', value'), stop', Nat.le_refl _, hstop', rfl, rfl⟩

theorem readPairs_eq (hbuf : buf.length < 2 ^ 64) (n : Nat) (hpos : pos ≤ buf.length) :
    readPairs n (buf.drop pos) = readPairsAt buf n pos := by
  induction n generalizing pos with
  | zero => rfl
  | succ n ih =>
    refine (follows_readPair hbuf hpos).value (f := fun p rest => (readPairs n rest).map (p :: ·))
      (g := fun p pos => (readPairsAt buf n pos).map (p :: ·)) fun p stop hstop => ?_
    rw [ih hstop]

/-- The cursor stays in the buffer: no addition overflows, and no range is left out. -/
theorem deserializeHeaders_eq (hbuf : buf.length < 2 ^ 64) :
    deserializeHeaders buf = deserializeHeadersAt buf := by
  refine (follows_readU32 hbuf (Nat.zero_le _)).value
    (f := fun count rest => if MAX_PAIRS < count then none else readPairs count rest)
    (g := fun count pos => if MAX_PAIRS < count then none else readPairsAt buf count pos)
    fun count stop hstop => ?_
  rw [readPairs_eq hbuf count hstop]

end

/-! ## What is accepted -/

/-- The lengths of a pair fit their fields. -/
def FitsPair (p : String × String) : Prop :=
  (utf8 p.1).length < 2 ^ 32 ∧ (utf8 p.2).length < 2 ^ 32

/-- The list has a header block that is accepted. -/
def Encodable (headers : Headers) : Prop :=
  headers.length ≤ MAX_PAIRS ∧ ∀ p ∈ headers, FitsPair p

theorem fromUtf8_eq_some {bytes : Bytes} {s : String} : fromUtf8 bytes = some s ↔ bytes = utf8 s := by
  constructor
  · intro h
    unfold fromUtf8 String.fromUTF8? at h
    split at h
    · obtain rfl := Option.some.inj h
      rfl
    · cases h
  · rintro rfl
    exact fromUtf8_utf8 s

theorem readU32_eq_some {buf rest : Bytes} {n : Nat} :
    readU32 buf = some (n, rest) ↔ buf = toBE 4 n ++ rest ∧ n < 2 ^ 32 := by
  constructor
  · intro h
    unfold readU32 at h
    split at h
    · obtain ⟨rfl, rfl⟩ := Prod.mk.inj (Option.some.inj h)
      have hlen : (buf.take 4).length = 4 := by
        rw [List.length_take]
        omega
      have hbe := toBE_ofBE (buf.take 4)
      have hlt := ofBE_lt (buf.take 4)
      rw [hlen] at hbe hlt
      exact ⟨by rw [hbe, List.take_append_drop], by simpa using hlt⟩
    · cases h
  · rintro ⟨rfl, hn⟩
    exact readU32_append hn rest

theorem readLengthPrefixed_eq_some {buf bytes rest : Bytes} :
    readLengthPrefixed buf = some (bytes, rest) ↔
      buf = toBE 4 bytes.length ++ bytes ++ rest ∧ bytes.length < 2 ^ 32 := by
  constructor
  · intro h
    obtain ⟨⟨len, buf'⟩, hlen, hbytes⟩ := Option.bind_eq_some_iff.mp h
    obtain ⟨rfl, hlt⟩ := readU32_eq_some.mp hlen
    dsimp only at hbytes
    unfold readBytes at hbytes
    split at hbytes
    · obtain ⟨rfl, rfl⟩ := Prod.mk.inj (Option.some.inj hbytes)
      have htake : (buf'.take len).length = len := by
        rw [List.length_take]
        omega
      rw [htake, List.append_assoc, List.take_append_drop]
      exact ⟨rfl, hlt⟩
    · cases hbytes
  · rintro ⟨rfl, hlt⟩
    rw [readLengthPrefixed, List.append_assoc, readU32_append hlt, Option.bind_some]
    dsimp only
    rw [readBytes, if_pos (by rw [List.length_append]; omega), List.take_left, List.drop_left]

theorem readPair_eq_some {buf rest : Bytes} {p : String × String} :
    readPair buf = some (p, rest) ↔
      buf = lengthPrefixed p.1 ++ lengthPrefixed p.2 ++ rest ∧ FitsPair p := by
  constructor
  · intro h
    obtain ⟨⟨name, buf₁⟩, hname, h⟩ := Option.bind_eq_some_iff.mp h
    obtain ⟨⟨value, buf₂⟩, hvalue, h⟩ := Option.bind_eq_some_iff.mp h
    obtain ⟨s, hs, h⟩ := Option.bind_eq_some_iff.mp h
    obtain ⟨t, ht, h⟩ := Option.bind_eq_some_iff.mp h
    obtain ⟨rfl, rfl⟩ := Prod.mk.inj (Option.some.inj h)
    obtain ⟨rfl, hlt⟩ := readLengthPrefixed_eq_some.mp hname
    obtain ⟨rfl, hlt'⟩ := readLengthPrefixed_eq_some.mp hvalue
    rw [fromUtf8_eq_some.mp hs, fromUtf8_eq_some.mp ht] at *
    exact ⟨by simp [lengthPrefixed], hlt, hlt'⟩
  · rintro ⟨rfl, hname, hvalue⟩
    exact readPair_append hname hvalue rest

theorem readPairs_eq_some {n : Nat} {buf : Bytes} {headers : Headers} :
    readPairs n buf = some headers ↔ n = headers.length ∧ (∀ p ∈ headers, FitsPair p) ∧
      (headers.flatMap fun p => lengthPrefixed p.1 ++ lengthPrefixed p.2) <+: buf := by
  induction n generalizing buf headers with
  | zero =>
    constructor
    · rintro h
      obtain rfl := Option.some.inj h
      exact ⟨rfl, by simp, List.nil_prefix⟩
    · rintro ⟨hlen, -⟩
      obtain rfl := List.length_eq_zero_iff.mp hlen.symm
      rfl
  | succ n ih =>
    constructor
    · intro h
      obtain ⟨⟨p, rest⟩, hp, h⟩ := Option.bind_eq_some_iff.mp h
      obtain ⟨headers', hrest, rfl⟩ := Option.map_eq_some_iff.mp h
      obtain ⟨rfl, hfits⟩ := readPair_eq_some.mp hp
      obtain ⟨rfl, hall, hstarts⟩ := ih.mp hrest
      refine ⟨rfl, List.forall_mem_cons.mpr ⟨hfits, hall⟩, ?_⟩
      rw [List.flatMap_cons]
      exact (List.prefix_append_right_inj _).mpr hstarts
    · rintro ⟨hlen, hall, rest, rfl⟩
      cases headers with
      | nil => cases hlen
      | cons p headers =>
        obtain ⟨hfits, hall⟩ := List.forall_mem_cons.mp hall
        rw [List.flatMap_cons, List.append_assoc, readPairs, readPair_append hfits.1 hfits.2,
          Option.bind_some]
        dsimp only
        rw [ih.mpr ⟨Nat.succ.inj hlen, hall, rest, rfl⟩]
        rfl

/-- **What a header list is decoded from**: the buffers that begin with its block. -/
theorem deserialize_eq_some {buf : Bytes} {headers : Headers} :
    deserializeHeaders buf = some headers ↔
      Encodable headers ∧ serializeHeaders headers <+: buf := by
  constructor
  · intro h
    obtain ⟨⟨count, rest⟩, hcount, hpairs⟩ := Option.bind_eq_some_iff.mp h
    obtain ⟨rfl, hlt⟩ := readU32_eq_some.mp hcount
    dsimp only at hpairs
    split at hpairs
    · cases hpairs
    · obtain ⟨rfl, hall, hstarts⟩ := readPairs_eq_some.mp hpairs
      exact ⟨⟨by omega, hall⟩, (List.prefix_append_right_inj _).mpr hstarts⟩
  · rintro ⟨⟨hlen, hall⟩, rest, rfl⟩
    have hcount : headers.length < 2 ^ 32 := by
      unfold MAX_PAIRS at hlen
      omega
    rw [deserializeHeaders, serializeHeaders, List.append_assoc, readU32_append hcount,
      Option.bind_some]
    dsimp only
    rw [if_neg (Nat.not_lt_of_le hlen)]
    exact readPairs_eq_some.mpr ⟨rfl, hall, rest, rfl⟩

theorem get_eq_some {headers : Headers} {name value : String} :
    get headers name = some value ↔ ∃ before p after, headers = before ++ p :: after ∧
      p.2 = value ∧ eqIgnoreAsciiCase p.1 name ∧ ∀ q ∈ before, ¬ eqIgnoreAsciiCase q.1 name := by
  unfold get
  rw [Option.map_eq_some_iff]
  constructor
  · rintro ⟨p, hfind, hvalue⟩
    obtain ⟨hp, before, after, rfl, hbefore⟩ := List.find?_eq_some_iff_append.mp hfind
    exact ⟨before, p, after, rfl, hvalue, hp, fun q hq => by simpa using hbefore q hq⟩
  · rintro ⟨before, p, after, rfl, hvalue, hp, hbefore⟩
    refine ⟨p, List.find?_eq_some_iff_append.mpr ⟨hp, before, after, rfl, fun q hq => ?_⟩, hvalue⟩
    simpa using hbefore q hq

/-- **The code of header blocks**: at most 1024 pairs are read back with whatever follows them, the
cursor stays in the buffer, a list is decoded from its own block alone and a lookup finds the first
name that is equal up to case. -/
theorem header_block_codec :
    (∀ (headers : Headers) (suffix : Bytes), headers.length ≤ 1024 →
      (∀ p ∈ headers, (utf8 p.1).length < 2 ^ 32 ∧ (utf8 p.2).length < 2 ^ 32) →
      deserializeHeaders (serializeHeaders headers ++ suffix) = some headers) ∧
    (∀ buf : Bytes, buf.length < 2 ^ 64 → deserializeHeaders buf = deserializeHeadersAt buf) ∧
    (∀ (buf : Bytes) (headers : Headers), deserializeHeaders buf = some headers →
      serializeHeaders headers <+: buf ∧ ∀ bytes,
        deserializeHeaders bytes = some headers ↔ serializeHeaders headers <+: bytes) ∧
    ∀ (headers : Headers) (name value : String), get headers name = some value ↔
      ∃ before p after, headers = before ++ p :: after ∧ p.2 = value ∧
        p.1.toList.map Char.toLower = name.toList.map Char.toLower ∧
        ∀ q ∈ before, q.1.toList.map Char.toLower ≠ name.toList.map Char.toLower := by
  refine ⟨fun headers suffix hlen hfits => ?_, fun buf hbuf => deserializeHeaders_eq hbuf,
    fun buf headers h => ?_, fun headers name value => ?_⟩
  · exact deserialize_eq_some.mpr ⟨⟨hlen, hfits⟩, List.prefix_append _ _⟩
  · obtain ⟨hencodable, hstarts⟩ := deserialize_eq_some.mp h
    refine ⟨hstarts, fun bytes => ?_⟩
    rw [deserialize_eq_some, and_iff_right hencodable]
  · simpa [eqIgnoreAsciiCase] using @get_eq_some headers name value

end LightrCri.Spdy

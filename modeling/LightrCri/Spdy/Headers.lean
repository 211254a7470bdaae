import LightrCri.Stream.Channel

/-!
# SPDY/3.1 name/value header blocks

The uncompressed form of a header block: a count, and for each pair the lengths and the bytes of its
name and its value. `deserialize_serialize` is the round trip; a list of more than 1024 pairs is
refused.
-/

namespace LightrCri.Spdy

open Foundations LightrCri.Stream

abbrev Headers := List (String × String)

/-- A text behind the length of its bytes. -/
def lengthPrefixed (s : String) : Bytes := toBE 4 (utf8 s).length ++ utf8 s

def serializeHeaders (headers : Headers) : Bytes :=
  toBE 4 headers.length ++ headers.flatMap fun p => lengthPrefixed p.1 ++ lengthPrefixed p.2

/-- The number in the first four bytes, and what follows them. -/
def readU32 (buf : Bytes) : Option (Nat × Bytes) :=
  if 4 ≤ buf.length then some (ofBE (buf.take 4), buf.drop 4) else none

def readBytes (buf : Bytes) (len : Nat) : Option (Bytes × Bytes) :=
  if len ≤ buf.length then some (buf.take len, buf.drop len) else none

/-- `String::from_utf8`. -/
def fromUtf8 (bytes : Bytes) : Option String := String.fromUTF8? ⟨bytes.toArray⟩

/-- A length and as many bytes. -/
def readLengthPrefixed (buf : Bytes) : Option (Bytes × Bytes) :=
  (readU32 buf).bind fun (len, buf) => readBytes buf len

def readPair (buf : Bytes) : Option ((String × String) × Bytes) := do
  let (name, buf) ← readLengthPrefixed buf
  let (value, buf) ← readLengthPrefixed buf
  return ((← fromUtf8 name, ← fromUtf8 value), buf)

def readPairs : Nat → Bytes → Option Headers
  | 0, _ => some []
  | n + 1, buf => (readPair buf).bind fun (p, buf) => (readPairs n buf).map (p :: ·)

/-- The maximum of pairs that is accepted. -/
def MAX_PAIRS : Nat := 1024

def deserializeHeaders (buf : Bytes) : Option Headers :=
  (readU32 buf).bind fun (count, buf) => if MAX_PAIRS < count then none else readPairs count buf

/-- Case-insensitive lookup of a single-valued header. -/
def get (headers : Headers) (name : String) : Option String :=
  (headers.find? fun p => eqIgnoreAsciiCase p.1 name).map (·.2)

/-! ## The round trip -/

/-- The count and the lengths fit their fields. -/
structure FitsU32 (headers : Headers) : Prop where
  count : headers.length < 2 ^ 32
  name : ∀ p ∈ headers, (utf8 p.1).length < 2 ^ 32
  value : ∀ p ∈ headers, (utf8 p.2).length < 2 ^ 32

theorem fromUtf8_utf8 (s : String) : fromUtf8 (utf8 s) = some s := by
  unfold fromUtf8 utf8
  rw [Array.toArray_toList]
  exact dif_pos s.isValidUTF8

theorem readU32_append {n : Nat} (hn : n < 2 ^ 32) (rest : Bytes) :
    readU32 (toBE 4 n ++ rest) = some (n, rest) := by
  have hlen : (toBE 4 n).length = 4 := length_toBE 4 n
  have htake : (toBE 4 n ++ rest).take 4 = toBE 4 n := List.take_left' hlen
  have hdrop : (toBE 4 n ++ rest).drop 4 = rest := List.drop_left' hlen
  have hn' : n < 256 ^ 4 := by simpa using hn
  rw [readU32, if_pos (by rw [List.length_append]; omega), htake, hdrop, ofBE_toBE_of_lt hn']

theorem readLengthPrefixed_append {s : String} (hs : (utf8 s).length < 2 ^ 32) (rest : Bytes) :
    readLengthPrefixed (lengthPrefixed s ++ rest) = some (utf8 s, rest) := by
  rw [readLengthPrefixed, lengthPrefixed, List.append_assoc, readU32_append hs]
  show readBytes (utf8 s ++ rest) (utf8 s).length = _
  rw [readBytes, if_pos (by rw [List.length_append]; omega), List.take_left, List.drop_left]

theorem readPair_append {p : String × String} (hname : (utf8 p.1).length < 2 ^ 32)
    (hvalue : (utf8 p.2).length < 2 ^ 32) (rest : Bytes) :
    readPair (lengthPrefixed p.1 ++ lengthPrefixed p.2 ++ rest) = some (p, rest) := by
  simp only [readPair, List.append_assoc, readLengthPrefixed_append hname,
    readLengthPrefixed_append hvalue, fromUtf8_utf8, Option.bind_eq_bind, Option.bind_some]
  rfl

theorem readPairs_serialize {headers : Headers}
    (hname : ∀ p ∈ headers, (utf8 p.1).length < 2 ^ 32)
    (hvalue : ∀ p ∈ headers, (utf8 p.2).length < 2 ^ 32) :
    readPairs headers.length
      (headers.flatMap fun p => lengthPrefixed p.1 ++ lengthPrefixed p.2) = some headers := by
  induction headers with
  | nil => rfl
  | cons p headers ih =>
    have hp := @readPair_append p (hname p List.mem_cons_self) (hvalue p List.mem_cons_self)
    have ih := ih (fun q hq => hname q (List.mem_cons_of_mem _ hq))
      (fun q hq => hvalue q (List.mem_cons_of_mem _ hq))
    rw [List.length_cons, List.flatMap_cons, readPairs, hp, Option.bind_some]
    show (readPairs headers.length _).map (p :: ·) = _
    rw [ih]
    rfl

/-- **The round trip of a header block**: a list that fits is read back, unless it is too long. -/
theorem deserialize_serialize {headers : Headers} (h : FitsU32 headers) :
    deserializeHeaders (serializeHeaders headers) =
      if MAX_PAIRS < headers.length then none else some headers := by
  have hpairs := readPairs_serialize h.name h.value
  rw [deserializeHeaders, serializeHeaders, readU32_append h.count, Option.bind_some]
  dsimp only
  rw [hpairs]

end LightrCri.Spdy

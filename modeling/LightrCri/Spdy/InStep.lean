import LightrCri.Spdy.Connection
import Mathlib.Data.List.Infix

/-!
# The compression contexts

`contexts_in_step`: the decompressor of a loop stays in step with the client's compressor exactly if
the loop receives no SYN_REPLY and no HEADERS frame, and no list of more than 1024 pairs.

The engine of the examples inflates streams of stored blocks, which is what a client that does not
compress sends.
-/

namespace LightrCri.Spdy

open Foundations LightrCri.Stream

/-- **The compression contexts are in step** exactly if every header block received is that of a
SYN_STREAM with at most 1024 pairs. -/
theorem contexts_in_step {E : Inflate} {dict : Bytes} {text : Bytes → Bytes} {sent : Sent}
    (hE : Inflates E dict text (stream sent)) (hclient : Compressed text sent) (loop : Loop) :
    (∃ fuel r, readLoop E dict loop fuel (Reading.new E) (sent.map Prod.fst) = some r ∧
        InStep sent r) ↔
      ∀ x ∈ received sent, (x.1.headerBlock.isSome → x.1.isSynStream = true) ∧
        (x.1.isSynStream = true → x.2.length ≤ MAX_PAIRS) := by
  have hguard : (opened (received sent)).map guarded = opened (received sent) ↔
      ∀ x ∈ received sent, x.1.isSynStream = true → x.2.length ≤ MAX_PAIRS := by
    have hid : (opened (received sent)).map guarded = (opened (received sent)).map id ↔ _ :=
      List.map_inj_left
    rw [List.map_id] at hid
    rw [hid]
    simp only [id, guarded_eq_self, opened, List.mem_map, List.mem_filter]
    constructor
    · intro h x hx hsyn
      exact h x.2 ⟨x, ⟨hx, hsyn⟩, rfl⟩
    · rintro h _ ⟨x, ⟨hx, hsyn⟩, rfl⟩
      exact h x hx hsyn
  have hrun (hall : ∀ x ∈ received sent, x.1.headerBlock.isSome → x.1.isSynStream = true) :
      ∃ bound, ∀ fuel, bound ≤ fuel → ∃ r,
        readLoop E dict loop fuel (Reading.new E) (sent.map Prod.fst) = some r ∧
        r.inbound.filterMap Inbound.hdr = (opened (received sent)).map guarded := by
    have hpre : [] ++ blocks (received sent) <+: blocks sent :=
      (List.takeWhile_prefix _).filterMap _
    have hempty : text [] = [] := hclient.text [] (List.nil_prefix)
    exact readLoop_correct hE hclient loop hpre hall (Synced.new E dict hempty)
  constructor
  · rintro ⟨fuel, r, hr, hstep⟩
    have hfed := fed_readLoop hr
    have hall : ∀ x ∈ received sent, x.1.headerBlock.isSome → x.1.isSynStream = true := by
      rw [hstep.fed, map_fst_blocks] at hfed
      exact filterMap_filter_eq_iff.mp hfed.symm
    obtain ⟨bound, hbound⟩ := hrun hall
    obtain ⟨r', hr', hhdr⟩ := hbound (max bound fuel) (le_max_left _ _)
    have hsame := readLoop_mono (le_max_right bound fuel) hr
    obtain rfl : r = r' := Option.some.inj (hsame.symm.trans hr')
    have hlists := hguard.mp (hhdr.symm.trans hstep.hdr)
    exact fun x hx => ⟨hall x hx, hlists x hx⟩
  · intro h
    obtain ⟨bound, hbound⟩ := hrun fun x hx => (h x hx).1
    obtain ⟨r, hr, hhdr⟩ := hbound bound (le_refl _)
    refine ⟨bound, r, hr, ?_, ?_⟩
    · rw [fed_readLoop hr, map_fst_blocks]
      exact filterMap_filter_eq_iff.mpr fun x hx => (h x hx).1
    · rw [hhdr]
      exact hguard.mpr fun x hx => (h x hx).2

/-! ## Stored blocks -/

/-- The header of a zlib stream with the preset dictionary of SPDY/3.1. -/
def ZLIB_HEADER : Bytes := [0x78, 0xbb, 0xe3, 0xc6, 0xa7, 0xc2]

/-- Where an engine is in a sequence of stored blocks. -/
inductive StoredMode
  /-- In the five bytes of the head of a block. -/
  | head (got : Bytes)
  /-- So many bytes of the block are to be copied. -/
  | copy (left : Nat)
  | bad
  deriving DecidableEq

/-- Read one byte of a sequence of stored blocks, none of them the last. -/
def StoredMode.next : StoredMode → UInt8 → StoredMode × Bytes
  | .head [h, l₀, l₁, n₀], n₁ =>
    let len := l₀.toNat + 256 * l₁.toNat
    if h = 0 ∧ n₀ = ~~~l₀ ∧ n₁ = ~~~l₁ then (if len = 0 then .head [] else .copy len, [])
    else (.bad, [])
  | .head got, b => (.head (got ++ [b]), [])
  | .copy left, b => (if left ≤ 1 then .head [] else .copy (left - 1), [b])
  | .bad, _ => (.bad, [])

def StoredMode.read : StoredMode → Bytes → StoredMode × Bytes
  | m, [] => (m, [])
  | m, b :: bs =>
    let rest := (m.next b).1.read bs
    (rest.1, (m.next b).2 ++ rest.2)

structure StoredState where
  /-- The bytes of the zlib header, without the dictionary. -/
  header : Bytes
  dict : Bool
  mode : StoredMode
  /-- What was read and not yet written. -/
  pending : Bytes

def StoredState.decompress (z : StoredState) (input : Bytes) (n : Nat) :
    StoredState × Nat × Except String Bytes :=
  if z.dict then
    let pending := z.pending ++ (z.mode.read input).2
    if (z.mode.read input).1 = .bad then (z, 0, .error "invalid stored block lengths")
    else
      ({ z with mode := (z.mode.read input).1, pending := pending.drop n }, input.length,
        .ok (pending.take n))
  else
    let header := z.header ++ input
    if header.length < 6 then ({ z with header := header }, input.length, .ok [])
    else
      ({ z with header := header.take 6 }, 6 - z.header.length,
        .error (if header.take 6 = ZLIB_HEADER then "needs dictionary" else "incorrect header check"))

def StoredState.setDictionary (z : StoredState) (_ : Bytes) : Except String StoredState :=
  if z.header = ZLIB_HEADER ∧ z.dict = false then .ok { z with dict := true }
  else .error "stream error"

/-- An engine for streams of stored blocks behind a preset dictionary. -/
abbrev stored : Inflate where
  State := StoredState
  new := ⟨[], false, .head [], []⟩
  decompress := StoredState.decompress
  setDictionary := StoredState.setDictionary

/-- The text of a stream of stored blocks. -/
def storedText (fed : Bytes) : Bytes := ((StoredMode.head []).read (fed.drop 6)).2

theorem StoredMode.read_append (m : StoredMode) (a b : Bytes) :
    m.read (a ++ b) = (((m.read a).1.read b).1, (m.read a).2 ++ ((m.read a).1.read b).2) := by
  induction a generalizing m with
  | nil => rfl
  | cons c a ih =>
    rw [List.cons_append, StoredMode.read, ih, StoredMode.read]
    simp

theorem StoredMode.bad_read (bs : Bytes) : StoredMode.bad.read bs = (.bad, []) := by
  induction bs with
  | nil => rfl
  | cons b bs ih => rw [StoredMode.read, StoredMode.next, ih]; rfl

/-- What the state of the engine is, from what it has read and written. -/
structure StoredState.After (z : StoredState) (b : Bool) (fed out : Bytes) : Prop where
  dict : z.dict = b
  header : b = false → z = ⟨fed, false, .head [], []⟩ ∧ fed.length < 6 ∧ out = []
  body : b = true → ∃ body, fed = ZLIB_HEADER ++ body ∧
    (StoredMode.head []).read body = (z.mode, out ++ z.pending)

theorem stored_reached {dict : Bytes} {b : Bool} {z : stored.State} {fed out : Bytes}
    (h : Reached stored dict b z fed out) : StoredState.After z b fed out := by
  induction h with
  | new => exact ⟨rfl, fun _ => ⟨rfl, by decide, rfl⟩, fun h => by cases h⟩
  | @read b z z' fed out input wrote n r h hcall ih =>
    change StoredState.decompress z input n = _ at hcall
    unfold StoredState.decompress at hcall
    cases b with
    | false =>
      obtain ⟨rfl, hlen, rfl⟩ := ih.header rfl
      rw [if_neg (by simp)] at hcall
      dsimp only at hcall
      split at hcall
      · rename_i hshort
        obtain ⟨rfl, hrest⟩ := Prod.mk.inj hcall
        obtain ⟨rfl, hw⟩ := Prod.mk.inj hrest
        obtain rfl := Except.ok.inj hw
        rw [List.take_length]
        exact ⟨rfl, fun _ => ⟨rfl, hshort, rfl⟩, fun h => by cases h⟩
      · cases (Prod.mk.inj (Prod.mk.inj hcall).2).2
    | true =>
      obtain ⟨body, rfl, hbody⟩ := ih.body rfl
      rw [if_pos ih.dict] at hcall
      dsimp only at hcall
      split at hcall
      · cases (Prod.mk.inj (Prod.mk.inj hcall).2).2
      · obtain ⟨rfl, hrest⟩ := Prod.mk.inj hcall
        obtain ⟨rfl, hw⟩ := Prod.mk.inj hrest
        obtain rfl := Except.ok.inj hw
        rw [List.take_length, List.append_assoc]
        refine ⟨ih.dict, (fun h => by cases h), fun _ => ⟨body ++ input, rfl, ?_⟩⟩
        rw [StoredMode.read_append, hbody]
        simp [List.append_assoc]
  | @dictionary z z' z'' fed out input e n r h hcall hdict ih =>
    change StoredState.decompress z input n = _ at hcall
    change StoredState.setDictionary z' dict = _ at hdict
    obtain ⟨rfl, hlen, rfl⟩ := ih.header rfl
    unfold StoredState.decompress at hcall
    rw [if_neg (by simp)] at hcall
    dsimp only at hcall
    split at hcall
    · cases (Prod.mk.inj (Prod.mk.inj hcall).2).2
    · obtain ⟨rfl, hrest⟩ := Prod.mk.inj hcall
      obtain ⟨rfl, -⟩ := Prod.mk.inj hrest
      unfold StoredState.setDictionary at hdict
      split at hdict
      · rename_i hheader
        obtain rfl := Except.ok.inj hdict
        have htake : fed ++ input.take (6 - fed.length) = ZLIB_HEADER := by
          have hheader := hheader.1
          dsimp only at hheader
          rw [← hheader, List.take_append, List.take_of_length_le (by omega : fed.length ≤ 6)]
        refine ⟨rfl, (fun h => by cases h), fun _ => ⟨[], ?_, rfl⟩⟩
        rw [htake, List.append_nil]
      · cases hdict

/-- The engine inflates every stream of stored blocks. -/
theorem inflates_stored {dict body : Bytes}
    (hbody : ((StoredMode.head []).read body).1 ≠ .bad) :
    Inflates stored dict storedText (ZLIB_HEADER ++ body) where
  needDict z fed out input n z' r res hreached hpre hcall := by
    have hz := stored_reached hreached
    change StoredState.decompress z input n = _ at hcall
    obtain ⟨rfl, hlen, rfl⟩ := hz.header rfl
    unfold StoredState.decompress at hcall
    rw [if_neg (by simp)] at hcall
    dsimp only at hcall
    split at hcall
    · rename_i hshort
      obtain ⟨rfl, hrest⟩ := Prod.mk.inj hcall
      obtain ⟨rfl, rfl⟩ := Prod.mk.inj hrest
      refine ⟨le_refl _, Or.inl ⟨rfl, rfl, ?_⟩⟩
      rw [storedText, List.drop_eq_nil_of_le (by omega)]
      rfl
    · rename_i hlong
      have hheader : (fed ++ input).take 6 = ZLIB_HEADER := by
        obtain ⟨t, ht⟩ := hpre
        have htake := congrArg (List.take 6) ht
        rwa [List.take_append_of_le_length (by omega)] at htake
      obtain ⟨rfl, hrest⟩ := Prod.mk.inj hcall
      obtain ⟨rfl, rfl⟩ := Prod.mk.inj hrest
      rw [List.length_append] at hlong
      exact ⟨by omega, Or.inr ⟨_, _, rfl, if_pos ⟨hheader, rfl⟩⟩⟩
  progress z fed out input n z' r res hreached hpre hcall := by
    have hz := stored_reached hreached
    change StoredState.decompress z input n = _ at hcall
    obtain ⟨done, rfl, hdone⟩ := hz.body rfl
    have hread := StoredMode.read_append (.head []) done input
    rw [hdone] at hread
    have htext : storedText (ZLIB_HEADER ++ done ++ input) =
        out ++ (z.pending ++ (z.mode.read input).2) := by
      have hdrop : (ZLIB_HEADER ++ done ++ input).drop 6 = done ++ input := rfl
      rw [storedText, hdrop, hread, List.append_assoc]
    have hgood : (z.mode.read input).1 ≠ .bad := by
      intro hbad
      obtain ⟨t, ht⟩ := hpre
      rw [List.append_assoc, List.append_assoc] at ht
      rw [← List.append_cancel_left ht, ← List.append_assoc, StoredMode.read_append, hread] at hbody
      rw [hbad, StoredMode.bad_read] at hbody
      exact hbody rfl
    unfold StoredState.decompress at hcall
    rw [if_pos hz.dict] at hcall
    dsimp only at hcall
    rw [if_neg hgood] at hcall
    obtain ⟨rfl, hrest⟩ := Prod.mk.inj hcall
    obtain ⟨rfl, rfl⟩ := Prod.mk.inj hrest
    rw [htext]
    refine ⟨le_refl _, _, rfl, by simp, ?_, ?_⟩
    · exact (List.prefix_append_right_inj out).mpr (List.take_prefix _ _)
    · by_cases hfull : n ≤ (z.pending ++ (z.mode.read input).2).length
      · exact Or.inl (by rw [List.length_take]; omega)
      · exact Or.inr ⟨rfl, by rw [List.take_of_length_le (by omega)]⟩

/-! ## A client that does not compress -/

/-- A list in a stored block, with the empty stored block of a flush. -/
def storedBlock (hdr : Headers) : Bytes :=
  let bytes := serializeHeaders hdr
  let len := [UInt8.ofNat bytes.length, UInt8.ofNat (bytes.length / 256)]
  0 :: len ++ len.map (~~~ ·) ++ bytes ++ [0, 0, 0, 0xff, 0xff]

def stdoutHeaders : Headers := [("streamtype", "stdout")]

def errorHeaders : Headers := [("streamtype", "error")]

/-- Two streams are opened. -/
def openings : Sent :=
  [(.synStream 1 0 0 0 (ZLIB_HEADER ++ storedBlock errorHeaders), errorHeaders), (.ping 1, []),
    (.synStream 3 0 0 0 (storedBlock stdoutHeaders), stdoutHeaders)]

/-- A HEADERS frame, and a stream that is opened after it. -/
def headersFirst : Sent :=
  [(.headers 1 0 (ZLIB_HEADER ++ storedBlock errorHeaders), errorHeaders),
    (.synStream 3 0 0 0 (storedBlock stdoutHeaders), stdoutHeaders)]

/-- The blocks of both are the same stream. -/
theorem inflates_twoBlocks {sent : Sent} (h : blocks sent = blocks headersFirst) :
    Inflates stored [] storedText (stream sent) ∧ Compressed storedText sent := by
  have hstream : stream sent =
      ZLIB_HEADER ++ (storedBlock errorHeaders ++ storedBlock stdoutHeaders) := by
    rw [stream, h]
    rfl
  refine ⟨?_, ?_, ?_⟩
  · rw [hstream]
    exact inflates_stored (by decide +kernel)
  · rw [h]
    intro x hx
    rcases List.mem_pair.mp hx with rfl | rfl
    · exact ⟨by decide, by decide, by decide⟩
    · exact ⟨by decide, by decide, by decide⟩
  · rw [h]
    have hall : ∀ p ∈ (blocks headersFirst).inits,
        storedText (p.map Prod.fst).flatten = (p.map fun x => serializeHeaders x.2).flatten := by
      decide
    exact fun p hp => hall p (List.mem_inits _ _ |>.mpr hp)

theorem contexts_in_step_openings :
    ∃ fuel r, readLoop stored [] .runPortforward fuel (Reading.new stored)
      (openings.map Prod.fst) = some r ∧ InStep openings r := by
  obtain ⟨hE, hclient⟩ := @inflates_twoBlocks openings rfl
  apply (contexts_in_step hE hclient .runPortforward).mpr
  decide

/-- **A HEADERS frame desyncs the contexts**: no loop feeds its block, and the stream opened after
it is opened without its headers. -/
theorem headers_desync :
    Inflates stored [] storedText (stream headersFirst) ∧ Compressed storedText headersFirst ∧
      ∀ loop, (∃ fuel r, readLoop stored [] loop fuel (Reading.new stored)
          (headersFirst.map Prod.fst) = some r ∧ r.inbound = [.synStream 3 []]) ∧
        ¬∃ fuel r, readLoop stored [] loop fuel (Reading.new stored)
          (headersFirst.map Prod.fst) = some r ∧ InStep headersFirst r := by
  obtain ⟨hE, hclient⟩ := @inflates_twoBlocks headersFirst rfl
  refine ⟨hE, hclient, fun loop => ⟨?_, ?_⟩⟩
  · refine ⟨2, ?_⟩
    cases loop with
    | runExec => exact ⟨_, rfl, by decide⟩
    | runPortforward => exact ⟨_, rfl, by decide⟩
  · rintro ⟨fuel, r, hr, hstep⟩
    have hfed := fed_readLoop hr
    rw [hstep.fed] at hfed
    exact absurd hfed (by decide)

end LightrCri.Spdy

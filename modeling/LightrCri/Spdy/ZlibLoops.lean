import LightrCri.Foundations.Draining
import LightrCri.Spdy.InStep
import LightrCri.Spdy.Writer

/-!
# The loops around the zlib engines

`HeaderCompressor::compress` and `HeaderDecompressor::decompress` call the engine with the rest of
the block until the block is read and a call has not filled the buffer. The engines are parameters;
what is asked of them is `Lawful`: a call reads from the front of its input, writes at most a
buffer, and does something unless it has no input and nothing pending, and inflation fails only
once, for want of the dictionary.

* `headerCompress_drains`, `decompress_drains`: both loops end, the engine is given every byte of
  the block once and in order (`Feeds`), and what is returned is what the calls have written.
* With an engine that has nothing pending after a call that reads the last of its input and does not
  fill the buffer (`Flushes`), nothing is pending when a loop ends, so one decompressor gives back
  the blocks of one compressor (`roundTrip`). An engine that may write less than it could loses the
  rest (`dribbling_loses`).
-/

namespace LightrCri.Spdy

open Foundations Foundations.Draining LightrCri.Stream

/-! ## The engines -/

section

variable (D : Deflate) (E : Inflate) (dict : Bytes)

/-- A call of the compressor. -/
def Deflate.Step (z : D.State) (input : Bytes) (z' : D.State) (r : Nat) (wrote : Bytes) : Prop :=
  D.compress z input BUFFER = (z', r, wrote)

/-- The engine is where calls of the compressor have got it. -/
inductive Deflate.Reached : D.State → Prop
  | new : Deflate.Reached D.new
  | call {z z' : D.State} {input wrote : Bytes} {r : Nat} (h : Deflate.Reached z)
    (hcall : D.Step z input z' r wrote) : Deflate.Reached z'

/-- A call of the decompressor, that sets the dictionary if the engine fails for want of it. -/
inductive HeaderDecompressor.Step : HeaderDecompressor E → Bytes → HeaderDecompressor E → Nat →
    Bytes → Prop
  | read {b : Bool} {z z' : E.State} {input wrote : Bytes} {r : Nat}
    (hcall : E.decompress z input BUFFER = (z', r, .ok wrote)) :
    HeaderDecompressor.Step ⟨z, b⟩ input ⟨z', b⟩ r wrote
  | dictionary {z z' z'' : E.State} {input : Bytes} {r : Nat} {e : String}
    (hcall : E.decompress z input BUFFER = (z', r, .error e))
    (hdict : E.setDictionary z' dict = .ok z'') :
    HeaderDecompressor.Step ⟨z, false⟩ input ⟨z'', true⟩ r []

/-- `pending` is what the engine has to write without further input. -/
def Deflate.Lawful (pending : D.State → Nat) : Prop :=
  ∀ z input z' r wrote, D.Reached z → D.Step z input z' r wrote →
    Call pending BUFFER z input z' r wrote

/-- A call that reads the last of its input and does not fill the buffer leaves nothing pending. -/
def Deflate.Flushes (pending : D.State → Nat) : Prop :=
  ∀ z input z' wrote, D.Reached z → D.Step z input z' input.length wrote →
    wrote.length < BUFFER → pending z' = 0

/-- On a valid stream the engine fails only before the dictionary is set, and then it can be set. -/
def Inflate.Lawful (valid : Bytes → Prop) (pending : E.State → Nat) : Prop :=
  ∀ b z fed out input z' r res, Reached E dict b z fed out → valid (fed ++ input) →
    E.decompress z input BUFFER = (z', r, res) →
    (∃ wrote, res = .ok wrote ∧ Call pending BUFFER z input z' r wrote) ∨
      (b = false ∧ r ≤ input.length ∧ ∃ e z'', res = .error e ∧ E.setDictionary z' dict = .ok z'')

def Inflate.Flushes (valid : Bytes → Prop) (pending : E.State → Nat) : Prop :=
  ∀ b z fed out input z' wrote, Reached E dict b z fed out → valid (fed ++ input) →
    E.decompress z input BUFFER = (z', input.length, .ok wrote) → wrote.length < BUFFER →
    pending z' = 0

/-- The blocks are deflated to the bytes, each of them up to where nothing is pending. -/
inductive Deflated (pending : D.State → Nat) : List Bytes → D.State → Bytes → Prop
  | new : Deflated pending [] D.new []
  | block {blocks : List Bytes} {block stream out : Bytes} {z z' : D.State}
    (h : Deflated pending blocks z stream) (hfeeds : Feeds D.Step z block z' out)
    (hdone : pending z' = 0) : Deflated pending (blocks ++ [block]) z' (stream ++ out)

/-- What was deflated is a valid stream, and an engine that was fed it and has nothing pending has
written the blocks. -/
def Inverts (valid : Bytes → Prop) (pendingD : D.State → Nat) (pendingE : E.State → Nat) : Prop :=
  ∀ blocks z stream, Deflated D pendingD blocks z stream → valid stream ∧
    ∀ b y out, Reached E dict b y stream out → pendingE y = 0 → out = blocks.flatten

/-! ## Many blocks -/

/-- Successive calls of `HeaderCompressor::compress`. -/
def compressBlocks (fuel : Nat) : D.State → List Bytes → Option (D.State × List Bytes)
  | z, [] => some (z, [])
  | z, block :: blocks =>
    match headerCompress D fuel z block with
    | none => none
    | some (z', out) => (compressBlocks fuel z' blocks).map fun r => (r.1, out :: r.2)

/-- Successive calls of `HeaderDecompressor::decompress`, up to one that fails. -/
def decompressBlocks (fuel : Nat) :
    HeaderDecompressor E → List Bytes → Option (HeaderDecompressor E × Except String (List Bytes))
  | d, [] => some (d, .ok [])
  | d, block :: blocks =>
    match d.decompress E dict fuel block with
    | none => none
    | some (d', .error e) => some (d', .error e)
    | some (d', .ok out) =>
      (decompressBlocks fuel d' blocks).map fun r => (r.1, r.2.map (out :: ·))

end

theorem BUFFER_pos : 0 < BUFFER := by decide

/-! ## The loop of the compressor -/

section

variable {D : Deflate} {pending : D.State → Nat}

/-- The loop ends, and gives the engine what is left of the block. -/
theorem compressLoop_drains (hD : D.Lawful pending) {z : D.State} (hz : D.Reached z)
    (input : Bytes) :
    ∃ bound z' wrote, (∀ fuel, bound ≤ fuel → ∀ out,
        compressLoop D fuel z input out = some (z', out ++ wrote)) ∧
      Feeds D.Step z input z' wrote ∧ (D.Flushes pending → pending z' = 0) := by
  induction z, input using Call.induction pending BUFFER UInt8 with
  | call z input ih =>
    rcases hcall : D.compress z input BUFFER with ⟨z', r, wrote⟩
    have hlaw := hD _ _ _ _ _ hz hcall
    by_cases hdone : input.length ≤ r ∧ wrote.length < BUFFER
    · -- the last call
      obtain rfl : r = input.length := le_antisymm hlaw.read_le hdone.1
      refine ⟨1, z', wrote, fun fuel hfuel out => ?_, .last hcall, fun hflush =>
        hflush _ _ _ _ hz hcall hdone.2⟩
      obtain ⟨fuel, rfl⟩ : ∃ k, fuel = k + 1 := ⟨fuel - 1, by omega⟩
      rw [compressLoop, hcall]
      exact if_pos hdone
    · -- the loop never stops for want of progress
      have hactive := hlaw.active BUFFER_pos hdone
      obtain ⟨bound, z₁, wrote₁, hloop, hfeeds, hpending⟩ :=
        ih _ _ _ hlaw hactive (hz.call hcall)
      refine ⟨bound + 1, z₁, wrote ++ wrote₁, fun fuel hfuel out => ?_,
        .call hlaw.read_le hcall hfeeds, hpending⟩
      obtain ⟨fuel, rfl⟩ : ∃ k, fuel = k + 1 := ⟨fuel - 1, by omega⟩
      rw [compressLoop, hcall]
      simp only [if_neg hdone, if_neg hactive]
      rw [hloop fuel (by omega), List.append_assoc]

/-- **`compress` ends on every block**, and returns what the calls have written. -/
theorem headerCompress_drains (hD : D.Lawful pending) {z : D.State} (hz : D.Reached z)
    (block : Bytes) :
    ∃ bound z' out, (∀ fuel, bound ≤ fuel → headerCompress D fuel z block = some (z', out)) ∧
      Feeds D.Step z block z' out ∧ (D.Flushes pending → pending z' = 0) := by
  obtain ⟨bound, z', out, hloop, hfeeds, hpending⟩ := compressLoop_drains hD hz block
  exact ⟨bound, z', out, fun fuel hfuel => hloop fuel hfuel [], hfeeds, hpending⟩

theorem Deflate.Reached.feeds {z z' : D.State} {input out : Bytes} (hz : D.Reached z)
    (h : Feeds D.Step z input z' out) : D.Reached z' := by
  induction h with
  | last h => exact hz.call h
  | call _ h _ ih => exact ih (hz.call h)

end

/-! ## The loop of the decompressor -/

section

variable {E : Inflate} {dict : Bytes} {valid : Bytes → Prop} {pending : E.State → Nat}

/-- What one turn of the loop does, on a valid stream. -/
theorem decompressLoop_call (hE : E.Lawful dict valid pending) {z z' : E.State} {b : Bool}
    {fed old input wrote : Bytes} {r : Nat} (hz : Reached E dict b z fed old)
    (hvalid : valid (fed ++ input))
    (hcall : E.decompress z input BUFFER = (z', r, .ok wrote)) :
    Call pending BUFFER z input z' r wrote := by
  rcases hE _ _ _ _ _ _ _ _ hz hvalid hcall with ⟨wrote', hok, hlaw⟩ | ⟨-, -, e, -, herr, -⟩
  · obtain rfl := Except.ok.inj hok
    exact hlaw
  · cases herr

/-- The loop ends from a state, and gives the engine what is left of the block. -/
def Drains (E : Inflate) (dict : Bytes) (valid : Bytes → Prop) (pending : E.State → Nat)
    (d : HeaderDecompressor E) (input : Bytes) : Prop :=
  ∃ bound d' wrote, (∀ fuel, bound ≤ fuel → ∀ out,
      decompressLoop E dict fuel d input out = some (d', .ok (out ++ wrote))) ∧
    Feeds (HeaderDecompressor.Step E dict) d input d' wrote ∧
    (E.Flushes dict valid pending → pending d'.z = 0)

/-- A call that does not fail, and what follows it. -/
theorem Drains.of_call (hE : E.Lawful dict valid pending) {z z' : E.State} {b : Bool}
    {fed old input wrote : Bytes} {r : Nat} (hz : Reached E dict b z fed old)
    (hvalid : valid (fed ++ input)) (hcall : E.decompress z input BUFFER = (z', r, .ok wrote))
    (hnext : ¬(r = 0 ∧ wrote = []) → Drains E dict valid pending ⟨z', b⟩ (input.drop r)) :
    Drains E dict valid pending ⟨z, b⟩ input := by
  have hlaw := decompressLoop_call hE hz hvalid hcall
  by_cases hdone : input.length ≤ r ∧ wrote.length < BUFFER
  · obtain rfl : r = input.length := le_antisymm hlaw.read_le hdone.1
    refine ⟨1, ⟨z', b⟩, wrote, fun fuel hfuel out => ?_, .last (.read hcall), fun hflush =>
      hflush _ _ _ _ _ _ _ hz hvalid hcall hdone.2⟩
    obtain ⟨fuel, rfl⟩ : ∃ k, fuel = k + 1 := ⟨fuel - 1, by omega⟩
    rw [decompressLoop, hcall]
    exact if_pos hdone
  · have hactive := hlaw.active BUFFER_pos hdone
    obtain ⟨bound, d', wrote', hloop, hfeeds, hpending⟩ := hnext hactive
    refine ⟨bound + 1, d', wrote ++ wrote', fun fuel hfuel out => ?_,
      .call hlaw.read_le (.read hcall) hfeeds, hpending⟩
    obtain ⟨fuel, rfl⟩ : ∃ k, fuel = k + 1 := ⟨fuel - 1, by omega⟩
    rw [decompressLoop, hcall]
    simp only [if_neg hdone, if_neg hactive]
    rw [hloop fuel (by omega), List.append_assoc]

/-- A call that asks for the dictionary, and what follows it. -/
theorem Drains.of_dictionary {z z' z'' : E.State} {input : Bytes} {r : Nat} {e : String}
    (hr : r ≤ input.length) (hcall : E.decompress z input BUFFER = (z', r, .error e))
    (hdict : E.setDictionary z' dict = .ok z'')
    (hnext : Drains E dict valid pending ⟨z'', true⟩ (input.drop r)) :
    Drains E dict valid pending ⟨z, false⟩ input := by
  obtain ⟨bound, d', wrote, hloop, hfeeds, hpending⟩ := hnext
  refine ⟨bound + 1, d', wrote, fun fuel hfuel out => ?_,
    .call hr (.dictionary hcall hdict) hfeeds, hpending⟩
  obtain ⟨fuel, rfl⟩ : ∃ k, fuel = k + 1 := ⟨fuel - 1, by omega⟩
  rw [decompressLoop, hcall]
  simp only [Bool.false_eq_true, if_false, hdict]
  exact hloop fuel (by omega) out

/-- The loop ends, if it does once the dictionary is set. -/
theorem Drains.of_dictionary_set (hE : E.Lawful dict valid pending) {b : Bool} {z : E.State}
    {fed old input : Bytes} (hz : Reached E dict b z fed old) (hvalid : valid (fed ++ input))
    (hset : b = false → ∀ z fed old input, Reached E dict true z fed old →
      valid (fed ++ input) → Drains E dict valid pending ⟨z, true⟩ input) :
    Drains E dict valid pending ⟨z, b⟩ input := by
  induction z, input using Call.induction pending BUFFER UInt8 generalizing fed old with
  | call z input ih =>
    rcases hcall : E.decompress z input BUFFER with ⟨z', r, res⟩
    have hrest : valid (fed ++ input.take r ++ input.drop r) := by
      rwa [List.append_assoc, List.take_append_drop]
    rcases hE _ _ _ _ _ _ _ _ hz hvalid hcall with
      ⟨wrote, rfl, hlaw⟩ | ⟨rfl, hr, e, z'', rfl, hdict⟩
    · exact Drains.of_call hE hz hvalid hcall fun hactive =>
        ih _ _ _ hlaw hactive (hz.read hcall) hrest
    · exact Drains.of_dictionary hr hcall hdict
        (hset rfl _ _ _ _ (hz.dictionary hcall hdict) hrest)

theorem decompressLoop_drains (hE : E.Lawful dict valid pending) {b : Bool} {z : E.State}
    {fed old input : Bytes} (hz : Reached E dict b z fed old) (hvalid : valid (fed ++ input)) :
    Drains E dict valid pending ⟨z, b⟩ input :=
  Drains.of_dictionary_set hE hz hvalid fun _ _ _ _ _ hz hvalid =>
    Drains.of_dictionary_set hE hz hvalid fun h => Bool.noConfusion h

/-- **`decompress` ends on every block** of a valid stream without an error, and returns what the
calls have written. -/
theorem decompress_drains (hE : E.Lawful dict valid pending) {d : HeaderDecompressor E}
    {fed old : Bytes} (hd : Reached E dict d.dictInstalled d.z fed old) {block : Bytes}
    (hvalid : valid (fed ++ block)) :
    ∃ bound d' out, (∀ fuel, bound ≤ fuel →
        d.decompress E dict fuel block = some (d', .ok out)) ∧
      Feeds (HeaderDecompressor.Step E dict) d block d' out ∧
      (E.Flushes dict valid pending → pending d'.z = 0) := by
  obtain ⟨bound, d', out, hloop, hfeeds, hpending⟩ := decompressLoop_drains hE hd hvalid
  exact ⟨bound, d', out, fun fuel hfuel => hloop fuel hfuel [], hfeeds, hpending⟩

/-- The calls of the loop are calls of the engine. -/
theorem Reached.feeds {d d' : HeaderDecompressor E} {fed old input out : Bytes}
    (hd : Reached E dict d.dictInstalled d.z fed old)
    (h : Feeds (HeaderDecompressor.Step E dict) d input d' out) :
    Reached E dict d'.dictInstalled d'.z (fed ++ input) (old ++ out) := by
  refine Feeds.invariant (I := fun d => Reached E dict d.dictInstalled d.z) ?_ h hd
  intro d fed out input d' r wrote hd hstep
  cases hstep with
  | read hcall => exact hd.read hcall
  | dictionary hcall hdict =>
    rw [List.append_nil]
    exact hd.dictionary hcall hdict

end

/-! ## One compressor, one decompressor -/

section

variable {D : Deflate} {E : Inflate} {dict : Bytes} {valid : Bytes → Prop}
  {pendingD : D.State → Nat} {pendingE : E.State → Nat}

theorem Deflated.reached {blocks : List Bytes} {z : D.State} {stream : Bytes}
    (h : Deflated D pendingD blocks z stream) : D.Reached z := by
  induction h with
  | new => exact .new
  | block _ hfeeds _ ih => exact ih.feeds hfeeds

/-- A decompressor that has been fed what the compressor has written gives the blocks back. -/
theorem roundTrip (hD : D.Lawful pendingD) (hE : E.Lawful dict valid pendingE)
    (hflushD : D.Flushes pendingD) (hflushE : E.Flushes dict valid pendingE)
    (hinverts : Inverts D E dict valid pendingD pendingE) (blocks : List Bytes) {z : D.State}
    {d : HeaderDecompressor E} {old : List Bytes} {stream : Bytes}
    (hz : Deflated D pendingD old z stream)
    (hd : Reached E dict d.dictInstalled d.z stream old.flatten) :
    ∃ bound z' d' cs, ∀ fuel, bound ≤ fuel →
      compressBlocks D fuel z blocks = some (z', cs) ∧
      decompressBlocks E dict fuel d cs = some (d', .ok blocks) := by
  induction blocks generalizing z d old stream with
  | nil => exact ⟨0, z, d, [], fun _ _ => ⟨rfl, rfl⟩⟩
  | cons block blocks ih =>
    obtain ⟨n, z₁, c, hcompress, hfeedsD, hdoneD⟩ := headerCompress_drains hD hz.reached block
    have hz₁ := hz.block hfeedsD (hdoneD hflushD)
    obtain ⟨hvalid, hinverse⟩ := hinverts _ _ _ hz₁
    obtain ⟨m, d₁, out, hdecompress, hfeedsE, hdoneE⟩ := decompress_drains hE hd hvalid
    have hd₁ := hd.feeds hfeedsE
    have hout : old.flatten ++ out = (old ++ [block]).flatten :=
      hinverse _ _ _ hd₁ (hdoneE hflushE)
    obtain rfl : out = block := by
      rw [List.flatten_append, List.flatten_singleton] at hout
      exact List.append_cancel_left hout
    rw [hout] at hd₁
    obtain ⟨k, z', d', cs, hrest⟩ := ih hz₁ hd₁
    refine ⟨max n (max m k), z', d', c :: cs, fun fuel hfuel => ?_⟩
    obtain ⟨hrestD, hrestE⟩ := hrest fuel (by omega)
    rw [compressBlocks, hcompress fuel (by omega), decompressBlocks,
      hdecompress fuel (by omega)]
    dsimp only
    rw [hrestD, hrestE]
    exact ⟨rfl, rfl⟩

/-- **The loops lose nothing and end.** Both feed the engine every byte of every block, once and in
order, and return what the calls write; with engines that flush nothing is left pending, and one
decompressor gives back the blocks of one compressor. -/
theorem loops_drain (hD : D.Lawful pendingD) (hE : E.Lawful dict valid pendingE) :
    (∀ z block, D.Reached z → ∃ bound z' out,
      (∀ fuel, bound ≤ fuel → headerCompress D fuel z block = some (z', out)) ∧
      Feeds D.Step z block z' out ∧ (D.Flushes pendingD → pendingD z' = 0)) ∧
    (∀ d fed old block, Reached E dict d.dictInstalled d.z fed old → valid (fed ++ block) →
      ∃ bound d' out, (∀ fuel, bound ≤ fuel →
        d.decompress E dict fuel block = some (d', .ok out)) ∧
      Feeds (HeaderDecompressor.Step E dict) d block d' out ∧
      (E.Flushes dict valid pendingE → pendingE d'.z = 0)) ∧
    (D.Flushes pendingD → E.Flushes dict valid pendingE →
      Inverts D E dict valid pendingD pendingE → ∀ blocks, ∃ bound z d cs, ∀ fuel, bound ≤ fuel →
        compressBlocks D fuel D.new blocks = some (z, cs) ∧
        decompressBlocks E dict fuel (HeaderDecompressor.new E) cs = some (d, .ok blocks)) :=
  ⟨fun _ block hz => headerCompress_drains hD hz block,
    fun _ _ _ _ hd hvalid => decompress_drains hE hd hvalid,
    fun hflushD hflushE hinverts blocks =>
      roundTrip hD hE hflushD hflushE hinverts blocks .new Reached.new⟩

end

/-! ## An engine that stores -/

/-- The stored block of a chunk. -/
def storedChunk (chunk : Bytes) : Bytes :=
  let len := [UInt8.ofNat chunk.length, UInt8.ofNat (chunk.length / 256)]
  0 :: len ++ len.map (~~~ ·) ++ chunk

/-- The empty stored block that ends a flush. -/
def FLUSH_MARKER : Bytes := [0, 0, 0, 0xff, 0xff]

/-- An engine that stores its input. Its state is what it has not written. -/
abbrev storing : Deflate where
  State := Bytes
  new := ZLIB_HEADER
  compress z input n :=
    let chunk := input.take 65535
    let z := if chunk = [] then z
      else z ++ storedChunk chunk ++ (if chunk = input then FLUSH_MARKER else [])
    (z.drop n, chunk.length, z.take n)

theorem StoredMode.copy_read {left : Nat} (bs : Bytes) (hlen : bs.length = left)
    (hpos : 0 < left) : (StoredMode.copy left).read bs = (.head [], bs) := by
  induction bs generalizing left with
  | nil =>
    simp only [List.length_nil] at hlen
    omega
  | cons b bs ih =>
    simp only [List.length_cons] at hlen
    rw [StoredMode.read, StoredMode.next]
    by_cases hlast : left ≤ 1
    · obtain rfl : bs = [] := List.length_eq_zero_iff.mp (by omega)
      simp only [if_pos hlast]
      rfl
    · simp only [if_neg hlast]
      rw [ih (by omega) (by omega)]
      rfl

theorem StoredMode.read_storedChunk {chunk : Bytes} (hne : chunk ≠ [])
    (hlen : chunk.length ≤ 65535) :
    (StoredMode.head []).read (storedChunk chunk) = (.head [], chunk) := by
  have hpos : 0 < chunk.length := List.length_pos_of_ne_nil hne
  have hsize : (UInt8.ofNat chunk.length).toNat + 256 * (UInt8.ofNat (chunk.length / 256)).toNat
      = chunk.length := by
    simp only [UInt8.toNat_ofNat']
    omega
  have hcopy := StoredMode.copy_read chunk rfl hpos
  simp only [storedChunk, List.map_cons, List.map_nil, List.cons_append, List.nil_append,
    StoredMode.read, StoredMode.next, and_self, if_true, hsize, if_neg hpos.ne', hcopy]

theorem FLUSH_MARKER_read : (StoredMode.head []).read FLUSH_MARKER = (.head [], []) := by
  decide

/-- What a call adds to what is to be written. -/
theorem storing_step {z z' : Bytes} {input wrote : Bytes} {r : Nat}
    (h : storing.Step z input z' r wrote) :
    r = (input.take 65535).length ∧ ∃ new, wrote = (z ++ new).take BUFFER ∧
      z' = (z ++ new).drop BUFFER ∧
      (StoredMode.head []).read new = (.head [], input.take r) ∧ (input = [] → new = []) := by
  obtain ⟨rfl, hrest⟩ := Prod.mk.inj h
  obtain ⟨rfl, rfl⟩ := Prod.mk.inj hrest
  refine ⟨rfl, ?_⟩
  have htake : input.take (input.take 65535).length = input.take 65535 := by
    rw [List.length_take]
    exact List.take_eq_take_min.symm
  rw [htake]
  by_cases hnil : input.take 65535 = []
  · exact ⟨[], by simp [hnil], by simp [hnil], by rw [hnil]; rfl, fun _ => rfl⟩
  · refine ⟨storedChunk (input.take 65535) ++
      (if input.take 65535 = input then FLUSH_MARKER else []), by simp [hnil], by simp [hnil], ?_,
      fun hinput => absurd (by rw [hinput]; rfl) hnil⟩
    rw [StoredMode.read_append, StoredMode.read_storedChunk hnil (List.length_take_le _ _)]
    by_cases hall : input.take 65535 = input
    · rw [if_pos hall, FLUSH_MARKER_read, List.append_nil]
    · rw [if_neg hall, StoredMode.read, List.append_nil]

theorem storing_lawful : storing.Lawful List.length := by
  intro z input z' r wrote _ h
  obtain ⟨rfl, new, rfl, rfl, -, hnew⟩ := storing_step h
  have hempty (hr : (input.take 65535).length = 0) : input = [] := by
    rw [List.length_take] at hr
    exact List.length_eq_zero_iff.mp (by omega)
  refine ⟨by simp, by simp, fun hr => ?_, fun hr hwrote => ?_⟩
  · rw [hnew (hempty hr), List.append_nil, List.length_take, List.length_drop]
    omega
  · have hlen := congrArg List.length hwrote
    rw [hnew (hempty hr), List.append_nil, List.length_take, List.length_nil] at hlen
    exact ⟨hempty hr, by unfold BUFFER at hlen; omega⟩

theorem storing_flushes : storing.Flushes List.length := by
  intro z input z' wrote _ h hwrote
  obtain ⟨-, new, rfl, rfl, -, -⟩ := storing_step h
  rw [List.length_take] at hwrote
  rw [List.length_drop]
  omega

/-- A stream of stored blocks, or the front of one. -/
def StoredStream (stream : Bytes) : Prop :=
  ∃ body, ((StoredMode.head []).read body).1 ≠ .bad ∧ stream <+: ZLIB_HEADER ++ body

theorem StoredState.After.text {z : StoredState} {b : Bool} {fed out : Bytes}
    (h : StoredState.After z b fed out) : storedText fed = out ++ z.pending := by
  cases b with
  | false =>
    obtain ⟨rfl, hlen, rfl⟩ := h.header rfl
    rw [storedText, List.drop_eq_nil_of_le (by omega)]
    rfl
  | true =>
    obtain ⟨body, rfl, hbody⟩ := h.body rfl
    have hdrop : (ZLIB_HEADER ++ body).drop 6 = body := rfl
    rw [storedText, hdrop, hbody]

/-- A call that does not fail writes what it can. -/
theorem stored_call {dict : Bytes} {b : Bool} {z z' : stored.State} {fed out input wrote : Bytes}
    {r : Nat} (hz : Reached stored dict b z fed out) (hvalid : StoredStream (fed ++ input))
    (hcall : stored.decompress z input BUFFER = (z', r, .ok wrote)) :
    r ≤ input.length ∧ wrote.length ≤ BUFFER ∧
      (wrote.length = BUFFER ∨ r = input.length ∧ z'.pending = []) := by
  obtain ⟨body, hbody, hpre⟩ := hvalid
  have hinflates : Inflates stored dict storedText (ZLIB_HEADER ++ body) := inflates_stored hbody
  have htext := (stored_reached (hz.read hcall)).text
  have hflushed (hall : out ++ wrote = storedText (fed ++ input)) (hr : r = input.length) :
      z'.pending = [] := by
    rw [hr, List.take_length, ← hall] at htext
    exact List.append_right_eq_self.mp htext.symm
  cases b with
  | false =>
    obtain ⟨hr, ⟨hok, hall, hnone⟩ | ⟨e, z'', herr, -⟩⟩ :=
      hinflates.needDict _ _ _ _ _ _ _ _ hz hpre hcall
    · obtain rfl := Except.ok.inj hok
      refine ⟨hr, Nat.zero_le _, Or.inr ⟨hall, hflushed ?_ hall⟩⟩
      rw [hnone, ((stored_reached hz).header rfl).2.2]
      rfl
    · cases herr
  | true =>
    obtain ⟨hr, wrote', hok, hlen, -, hstop⟩ :=
      hinflates.progress _ _ _ _ _ _ _ _ hz hpre hcall
    obtain rfl := Except.ok.inj hok
    exact ⟨hr, hlen, hstop.imp_right fun h => ⟨h.1, hflushed h.2 h.1⟩⟩

theorem stored_lawful {dict : Bytes} :
    stored.Lawful dict StoredStream (fun z => z.pending.length) := by
  intro b z fed out input z' r res hz hvalid hcall
  cases res with
  | ok wrote =>
    refine Or.inl ⟨wrote, rfl, ?_⟩
    obtain ⟨hr, hlen, hstop⟩ := stored_call hz hvalid hcall
    have hbefore := (stored_reached hz).text
    have hafter := (stored_reached (hz.read hcall)).text
    have hdrains (h : r = 0) : z'.pending.length + wrote.length = z.pending.length := by
      rw [h, List.take_zero, List.append_nil, hbefore] at hafter
      have hlengths := congrArg List.length hafter
      simp only [List.length_append] at hlengths
      omega
    refine ⟨hr, hlen, fun h => (hdrains h).le, fun h hwrote => ?_⟩
    subst hwrote
    rcases hstop with hfull | ⟨hall, hpending⟩
    · cases hfull
    · have hrest := hdrains h
      rw [hpending] at hrest
      exact ⟨List.length_eq_zero_iff.mp (by omega), hrest.symm⟩
  | error e =>
    obtain ⟨body, hbody, hpre⟩ := hvalid
    have hinflates : Inflates stored dict storedText (ZLIB_HEADER ++ body) := inflates_stored hbody
    cases b with
    | false =>
      obtain ⟨hr, ⟨hok, -, -⟩ | ⟨e, z'', herr, hdict⟩⟩ :=
        hinflates.needDict _ _ _ _ _ _ _ _ hz hpre hcall
      · cases hok
      · exact Or.inr ⟨rfl, hr, e, z'', herr, hdict⟩
    | true =>
      obtain ⟨-, wrote, hok, -⟩ := hinflates.progress _ _ _ _ _ _ _ _ hz hpre hcall
      cases hok

theorem stored_flushes {dict : Bytes} :
    stored.Flushes dict StoredStream (fun z => z.pending.length) := by
  intro b z fed out input z' wrote hz hvalid hcall hwrote
  obtain ⟨-, -, hfull | ⟨-, hpending⟩⟩ := stored_call hz hvalid hcall
  · omega
  · exact List.length_eq_zero_iff.mpr hpending

/-- What was deflated is the header and stored blocks. -/
theorem storing_deflated {blocks : List Bytes} {z : storing.State} {stream : Bytes}
    (h : Deflated storing List.length blocks z stream) :
    (∃ body, stream ++ z = ZLIB_HEADER ++ body ∧
      (StoredMode.head []).read body = (.head [], blocks.flatten)) ∧
    (z = [] ∨ blocks = [] ∧ stream = []) := by
  induction h with
  | new => exact ⟨⟨[], rfl, rfl⟩, Or.inr ⟨rfl, rfl⟩⟩
  | @block blocks block stream out z z' _ hfeeds hdone ih =>
    refine ⟨?_, Or.inl (List.length_eq_zero_iff.mp hdone)⟩
    have hstart : ∃ body, stream ++ [] ++ z = ZLIB_HEADER ++ body ∧
        (StoredMode.head []).read body = (.head [], blocks.flatten ++ []) := by
      simpa using ih.1
    have hstep : ∀ z fed out input z' r wrote,
        (∃ body, stream ++ out ++ z = ZLIB_HEADER ++ body ∧
          (StoredMode.head []).read body = (.head [], blocks.flatten ++ fed)) →
        storing.Step z input z' r wrote →
        ∃ body, stream ++ (out ++ wrote) ++ z' = ZLIB_HEADER ++ body ∧
          (StoredMode.head []).read body = (.head [], blocks.flatten ++ (fed ++ input.take r)) := by
      rintro z fed out input z' r wrote ⟨body, hbody, hread⟩ hstep
      obtain ⟨-, new, rfl, rfl, hnew, -⟩ := storing_step hstep
      refine ⟨body ++ new, ?_, ?_⟩
      · rw [← List.append_assoc ZLIB_HEADER, ← hbody]
        simp [List.append_assoc]
      · rw [StoredMode.read_append, hread, hnew, List.append_assoc]
    obtain ⟨body, hbody, hread⟩ := Feeds.invariant (I := fun z fed out => ∃ body,
      stream ++ out ++ z = ZLIB_HEADER ++ body ∧
      (StoredMode.head []).read body = (.head [], blocks.flatten ++ fed)) hstep hfeeds hstart
    refine ⟨body, hbody, ?_⟩
    rw [hread]
    simp

/-- What was stored is read back. -/
theorem storing_stored {dict : Bytes} :
    Inverts storing stored dict StoredStream List.length (fun z => z.pending.length) := by
  intro blocks z stream h
  obtain ⟨⟨body, hbody, hread⟩, rfl | ⟨rfl, rfl⟩⟩ := storing_deflated h
  · rw [List.append_nil] at hbody
    subst hbody
    refine ⟨⟨body, by rw [hread]; exact StoredMode.noConfusion, List.prefix_rfl⟩, ?_⟩
    intro b y out hy hpending
    have htext := (stored_reached hy).text
    have hdrop : (ZLIB_HEADER ++ body).drop 6 = body := rfl
    rw [storedText, hdrop, hread, List.length_eq_zero_iff.mp hpending, List.append_nil] at htext
    exact htext.symm
  · refine ⟨⟨[], by decide, List.nil_prefix⟩, fun b y out hy _ => ?_⟩
    have htext := (stored_reached hy).text
    exact (List.append_eq_nil_iff.mp htext.symm).1

/-- Two blocks, stored by one compressor and read by one decompressor. -/
def plainBlocks : List Bytes :=
  [[0x90, 0x91, 0x92, 0x93, 0x94, 0x95, 0x96, 0x97, 0x98, 0x99, 0x9a, 0x9b, 0x9c, 0x9d, 0x9e],
    [0xa0, 0xa1, 0xa2, 0xa3, 0xa4, 0xa5, 0xa6, 0xa7, 0xa8, 0xa9, 0xaa, 0xab, 0xac, 0xad, 0xae]]

theorem loops_drain_plainBlocks :
    ∃ bound z d cs, ∀ fuel, bound ≤ fuel →
      compressBlocks storing fuel storing.new plainBlocks = some (z, cs) ∧
      decompressBlocks stored [] fuel (HeaderDecompressor.new stored) cs =
        some (d, .ok plainBlocks) := by
  have hE : stored.Lawful [] StoredStream (fun z => z.pending.length) := stored_lawful
  obtain ⟨-, -, hblocks⟩ := loops_drain storing_lawful hE
  exact hblocks storing_flushes stored_flushes storing_stored plainBlocks

/-- The bytes are those that zlib itself makes of the two blocks. -/
example : compressBlocks storing 1 storing.new plainBlocks = some ([],
    [[0x78, 0xbb, 0xe3, 0xc6, 0xa7, 0xc2, 0x00, 0x0f, 0x00, 0xf0, 0xff, 0x90, 0x91, 0x92, 0x93,
      0x94, 0x95, 0x96, 0x97, 0x98, 0x99, 0x9a, 0x9b, 0x9c, 0x9d, 0x9e, 0x00, 0x00, 0x00, 0xff,
      0xff],
    [0x00, 0x0f, 0x00, 0xf0, 0xff, 0xa0, 0xa1, 0xa2, 0xa3, 0xa4, 0xa5, 0xa6, 0xa7, 0xa8, 0xa9,
      0xaa, 0xab, 0xac, 0xad, 0xae, 0x00, 0x00, 0x00, 0xff, 0xff]]) := by
  decide +kernel

/-! ## An engine that writes less than it could -/

/-- An engine that gives its input back, a byte a call. -/
abbrev dribbling : Deflate where
  State := Bytes
  new := []
  compress z input n := ((z ++ input).drop (min n 1), input.length, (z ++ input).take (min n 1))

/-- An engine that gives its input back. -/
abbrev copying : Inflate where
  State := Bytes
  new := []
  decompress z input n := ((z ++ input).drop n, input.length, .ok ((z ++ input).take n))
  setDictionary z _ := .ok z

theorem dribbling_lawful : dribbling.Lawful List.length := by
  intro z input z' r wrote _ h
  obtain ⟨rfl, hrest⟩ := Prod.mk.inj h
  obtain ⟨rfl, rfl⟩ := Prod.mk.inj hrest
  have hroom : min BUFFER 1 = 1 := rfl
  rw [hroom]
  refine ⟨le_refl _, by simp [BUFFER], fun hr => ?_, fun hr hwrote => ?_⟩
  · rw [List.length_eq_zero_iff.mp hr, List.append_nil, List.length_take, List.length_drop]
    omega
  · have hlen := congrArg List.length hwrote
    rw [List.length_eq_zero_iff.mp hr, List.append_nil, List.length_take, List.length_nil] at hlen
    exact ⟨List.length_eq_zero_iff.mp hr, by omega⟩

theorem copying_lawful : copying.Lawful [] (fun _ => True) List.length := by
  intro b z fed out input z' r res _ _ h
  obtain ⟨rfl, hrest⟩ := Prod.mk.inj h
  obtain ⟨rfl, rfl⟩ := Prod.mk.inj hrest
  refine Or.inl ⟨_, rfl, le_refl _, by simp, fun hr => ?_, fun hr hwrote => ?_⟩
  · rw [List.length_eq_zero_iff.mp hr, List.append_nil, List.length_take, List.length_drop]
    omega
  · have hlen := congrArg List.length hwrote
    rw [List.length_eq_zero_iff.mp hr, List.append_nil, List.length_take, List.length_nil] at hlen
    exact ⟨List.length_eq_zero_iff.mp hr, by unfold BUFFER at hlen; omega⟩

theorem copying_reached {b : Bool} {y : copying.State} {fed out : Bytes}
    (h : Reached copying [] b y fed out) : out ++ y = fed := by
  induction h with
  | new => rfl
  | read _ hcall ih =>
    obtain ⟨rfl, hrest⟩ := Prod.mk.inj hcall
    obtain ⟨rfl, hwrote⟩ := Prod.mk.inj hrest
    obtain rfl := Except.ok.inj hwrote
    rw [List.append_assoc, List.take_append_drop, List.take_length, ← ih, List.append_assoc]
  | dictionary _ hcall _ _ => cases (Prod.mk.inj (Prod.mk.inj hcall).2).2

theorem dribbling_deflated {blocks : List Bytes} {z : dribbling.State} {stream : Bytes}
    (h : Deflated dribbling List.length blocks z stream) :
    stream ++ z = blocks.flatten ∧ z = [] := by
  induction h with
  | new => exact ⟨rfl, rfl⟩
  | @block blocks block stream out z z' _ hfeeds hdone ih =>
    refine ⟨?_, List.length_eq_zero_iff.mp hdone⟩
    have hstart : stream ++ [] ++ z = blocks.flatten ++ [] := by simpa using ih.1
    have hstep : ∀ z fed out input z' r wrote, stream ++ out ++ z = blocks.flatten ++ fed →
        dribbling.Step z input z' r wrote →
        stream ++ (out ++ wrote) ++ z' = blocks.flatten ++ (fed ++ input.take r) := by
      intro z fed out input z' r wrote hold hcall
      obtain ⟨rfl, hrest⟩ := Prod.mk.inj hcall
      obtain ⟨rfl, rfl⟩ := Prod.mk.inj hrest
      rw [List.take_length, ← List.append_assoc blocks.flatten, ← hold]
      simp [List.append_assoc]
    have hrun := Feeds.invariant (I := fun z fed out => stream ++ out ++ z = blocks.flatten ++ fed)
      hstep hfeeds hstart
    simpa using hrun

/-- **An engine may lose output to the loop**: it does something in every call, and what it writes
is inverted, but the loop stops at a short write with a byte still pending. -/
theorem dribbling_loses :
    dribbling.Lawful List.length ∧ copying.Lawful [] (fun _ => True) List.length ∧
      Inverts dribbling copying [] (fun _ => True) List.length List.length ∧
      headerCompress dribbling 1 dribbling.new [1, 2] = some ([2], [1]) ∧
      ¬∃ fuel z d cs, compressBlocks dribbling fuel dribbling.new [[1, 2]] = some (z, cs) ∧
        decompressBlocks copying [] fuel (HeaderDecompressor.new copying) cs =
          some (d, .ok [[1, 2]]) := by
  refine ⟨dribbling_lawful, copying_lawful, fun blocks z stream h => ⟨trivial, ?_⟩, rfl, ?_⟩
  · obtain ⟨hstream, rfl⟩ := dribbling_deflated h
    intro b y out hy hpending
    have hout := copying_reached hy
    rw [List.length_eq_zero_iff.mp hpending, List.append_nil] at hout
    rw [List.append_nil] at hstream
    exact hout.trans hstream
  · rintro ⟨fuel, z, d, cs, hcompress, hdecompress⟩
    cases fuel with
    | zero => cases hcompress
    | succ fuel =>
      have hshort : compressBlocks dribbling (fuel + 1) dribbling.new [[1, 2]] =
        some ([2], [[1]]) := rfl
      obtain ⟨rfl, rfl⟩ := Prod.mk.inj (Option.some.inj (hshort.symm.trans hcompress))
      have hlost : decompressBlocks copying [] (fuel + 1) (HeaderDecompressor.new copying) [[1]] =
        some (⟨[], false⟩, .ok [[1]]) := rfl
      have hresult := (Prod.mk.inj (Option.some.inj (hlost.symm.trans hdecompress))).2
      exact absurd (Except.ok.inj hresult) (by decide)

end LightrCri.Spdy

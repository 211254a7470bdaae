import LightrCri.Spdy.Headers

/-!
# Header-block decompression

`HeaderDecompressor` decompresses the header blocks of one direction of a connection, which are one
continuous zlib stream. The zlib engine is a parameter (`Inflate`); what the decompressor relies on
is `Inflates`, the documented behaviour of `inflate` on a stream: it reads until the input is empty
or the output buffer is full, it asks for the dictionary before it writes anything, and what it has
written when it stops for want of input is all that the bytes read so far determine.

`decompress_correct`: a decompressor that was fed exactly the stream so far (`Synced`) decompresses
the next block to what it adds to the text, and is synced again.
-/

namespace LightrCri.Spdy

/-! ## The decompressor -/

/-- A decompression engine: its state, and the two calls on it. A call of `decompress` with a buffer
of `n` bytes returns the number of bytes read and, if it does not fail, the bytes written. -/
structure Inflate where
  State : Type
  new : State
  decompress : State → Bytes → (n : Nat) → State × Nat × Except String Bytes
  setDictionary : State → Bytes → Except String State

variable (E : Inflate) (dict : Bytes)

/-- Per-direction header decompressor (client → server). -/
structure HeaderDecompressor where
  z : E.State
  dictInstalled : Bool

def HeaderDecompressor.new : HeaderDecompressor E := ⟨E.new, false⟩

/-- The size of the output buffer. -/
def BUFFER : Nat := 4096

/-- The loop of `decompress`, with `input` still to be read and `out` written. -/
def decompressLoop : Nat → HeaderDecompressor E → Bytes → Bytes →
    Option (HeaderDecompressor E × Except String Bytes)
  | 0, _, _, _ => none
  | fuel + 1, d, input, out =>
    match E.decompress d.z input BUFFER with
    | (z, read, .error e) =>
      if d.dictInstalled then some (⟨z, true⟩, .error ("spdy header decompress: " ++ e))
      else
        match E.setDictionary z dict with
        | .error e => some (⟨z, false⟩, .error ("set spdy dict: " ++ e))
        | .ok z => decompressLoop fuel ⟨z, true⟩ (input.drop read) out
    | (z, read, .ok wrote) =>
      if input.length ≤ read ∧ wrote.length < BUFFER then
        some (⟨z, d.dictInstalled⟩, .ok (out ++ wrote))
      else if read = 0 ∧ wrote = [] then some (⟨z, d.dictInstalled⟩, .ok (out ++ wrote))
      else decompressLoop fuel ⟨z, d.dictInstalled⟩ (input.drop read) (out ++ wrote)

/-- Decompress one header block. -/
def HeaderDecompressor.decompress (fuel : Nat) (d : HeaderDecompressor E) (input : Bytes) :
    Option (HeaderDecompressor E × Except String Bytes) :=
  decompressLoop E dict fuel d input []

/-! ## The engine -/

/-- The engine has got to the state, with or without the dictionary, by reading `fed` and writing
`out`. -/
inductive Reached : Bool → E.State → Bytes → Bytes → Prop
  | new : Reached false E.new [] []
  | read {b z z' fed out input wrote} {n r : Nat} (h : Reached b z fed out)
    (hcall : E.decompress z input n = (z', r, .ok wrote)) :
    Reached b z' (fed ++ input.take r) (out ++ wrote)
  | dictionary {z z' z'' fed out input e} {n r : Nat} (h : Reached false z fed out)
    (hcall : E.decompress z input n = (z', r, .error e))
    (hdict : E.setDictionary z' dict = .ok z'') : Reached true z'' (fed ++ input.take r) out

/-- The engine inflates the stream: `text` says what the first bytes of the stream determine of the
text. -/
structure Inflates (text : Bytes → Bytes) (stream : Bytes) : Prop where
  /-- Before the dictionary is set nothing is written; the engine reads all, or it fails because it
  needs the dictionary. -/
  needDict : ∀ z fed out input n z' r res, Reached E dict false z fed out →
    fed ++ input <+: stream → E.decompress z input n = (z', r, res) →
    r ≤ input.length ∧
      ((res = .ok [] ∧ r = input.length ∧ text (fed ++ input) = []) ∨
        ∃ e z'', res = .error e ∧ E.setDictionary z' dict = .ok z'')
  /-- Then it decompresses as much as possible, and stops when the input is empty or the output
  buffer full. -/
  progress : ∀ z fed out input n z' r res, Reached E dict true z fed out →
    fed ++ input <+: stream → E.decompress z input n = (z', r, res) →
    r ≤ input.length ∧ ∃ wrote, res = .ok wrote ∧ wrote.length ≤ n ∧
      out ++ wrote <+: text (fed ++ input) ∧
      (wrote.length = n ∨ r = input.length ∧ out ++ wrote = text (fed ++ input))

/-! ## The law -/

/-- The decompressor was fed exactly `fed`, and has written all that it determines. -/
structure Synced (text : Bytes → Bytes) (d : HeaderDecompressor E) (fed : Bytes) : Prop where
  reached : Reached E dict d.dictInstalled d.z fed (text fed)
  nothing : d.dictInstalled = false → text fed = []

theorem Synced.new {text : Bytes → Bytes} (h : text [] = []) :
    Synced E dict text (HeaderDecompressor.new E) [] where
  reached := by
    rw [h]
    exact Reached.new
  nothing _ := h

variable {E dict}

theorem decompressLoop_succ {fuel : Nat} {d : HeaderDecompressor E} {input out : Bytes}
    {x : HeaderDecompressor E × Except String Bytes}
    (h : decompressLoop E dict fuel d input out = some x) :
    decompressLoop E dict (fuel + 1) d input out = some x := by
  induction fuel generalizing d input out with
  | zero => cases h
  | succ fuel ih =>
    rw [decompressLoop] at h ⊢
    split at h
    · split_ifs at h ⊢ with hdict
      · exact h
      · split at h
        · exact h
        · exact ih h
    · split_ifs at h ⊢ with hdone hstuck
      · exact h
      · exact h
      · exact ih h

/-- More fuel does not change the result. -/
theorem HeaderDecompressor.decompress_mono {fuel fuel' : Nat} (hle : fuel ≤ fuel')
    {d : HeaderDecompressor E} {input : Bytes} {x : HeaderDecompressor E × Except String Bytes}
    (h : d.decompress E dict fuel input = some x) : d.decompress E dict fuel' input = some x := by
  induction hle with
  | refl => exact h
  | step _ ih => exact decompressLoop_succ ih

section

variable {text : Bytes → Bytes} {stream : Bytes}

/-- The loop once the dictionary is set. Every round but the last fills the buffer, so what is left
of the text bounds the number of rounds. -/
theorem decompressLoop_inflates (hE : Inflates E dict text stream) (fuel : Nat) {z : E.State}
    {fed input old out : Bytes} (hreached : Reached E dict true z fed (old ++ out))
    (hpre : fed ++ input <+: stream)
    (hfuel : (text (fed ++ input)).length < (old ++ out).length + fuel) :
    ∃ z' out', decompressLoop E dict fuel ⟨z, true⟩ input out = some (⟨z', true⟩, .ok out') ∧
      old ++ out' = text (fed ++ input) ∧
      Reached E dict true z' (fed ++ input) (text (fed ++ input)) := by
  induction fuel generalizing z fed input out with
  | zero =>
    rcases hcall : E.decompress z input BUFFER with ⟨z', r, res⟩
    obtain ⟨-, wrote, -, -, hprefix, -⟩ := hE.progress _ _ _ _ _ _ _ _ hreached hpre hcall
    have hlen := hprefix.length_le
    simp only [List.length_append] at hlen hfuel
    omega
  | succ fuel ih =>
    rcases hcall : E.decompress z input BUFFER with ⟨z', r, res⟩
    obtain ⟨hr, wrote, rfl, hbuffer, hprefix, hstop⟩ :=
      hE.progress _ _ _ _ _ _ _ _ hreached hpre hcall
    have hnext := Reached.read hreached hcall
    rw [decompressLoop, hcall]
    by_cases hfull : wrote.length = BUFFER
    · -- the buffer is full: another round
      have hne : ¬(input.length ≤ r ∧ wrote.length < BUFFER) := fun h => by omega
      have hne' : ¬(r = 0 ∧ wrote = []) := fun h => by
        rw [h.2] at hfull
        cases hfull
      have hsplit : fed ++ input.take r ++ input.drop r = fed ++ input := by
        rw [List.append_assoc, List.take_append_drop]
      rw [List.append_assoc] at hnext
      have hround := ih hnext (by rw [hsplit]; exact hpre) (by
        rw [hsplit]
        simp only [List.length_append] at hfuel ⊢
        unfold BUFFER at hfull
        omega)
      rw [hsplit] at hround
      simp only [if_neg hne, if_neg hne']
      exact hround
    · obtain ⟨rfl, hall⟩ := hstop.resolve_left hfull
      have hdone : input.length ≤ input.length ∧ wrote.length < BUFFER := ⟨le_refl _, by omega⟩
      rw [List.take_length, hall] at hnext
      exact ⟨z', out ++ wrote, if_pos hdone, by rw [← List.append_assoc, hall], hnext⟩

/-- **A synced decompressor decompresses the next block**, and is synced again. -/
theorem decompress_correct (hE : Inflates E dict text stream) {d : HeaderDecompressor E}
    {fed block : Bytes} (hd : Synced E dict text d fed) (hpre : fed ++ block <+: stream) :
    ∃ bound, ∀ fuel, bound ≤ fuel → ∃ d' out,
      d.decompress E dict fuel block = some (d', .ok out) ∧ text fed ++ out = text (fed ++ block) ∧
      Synced E dict text d' (fed ++ block) := by
  obtain ⟨z, b⟩ := d
  cases b with
  | true =>
    refine ⟨(text (fed ++ block)).length + 1, fun fuel hfuel => ?_⟩
    have hreached : Reached E dict true z fed (text fed ++ []) := by
      rw [List.append_nil]
      exact hd.reached
    obtain ⟨z', out, hloop, htext, hnext⟩ :=
      decompressLoop_inflates hE fuel hreached hpre (by omega)
    exact ⟨⟨z', true⟩, out, hloop, htext, hnext, fun h => by cases h⟩
  | false =>
    have hold : text fed = [] := hd.nothing rfl
    have hreached : Reached E dict false z fed (text fed) := hd.reached
    refine ⟨(text (fed ++ block)).length + 2, fun fuel hfuel => ?_⟩
    obtain ⟨fuel, rfl⟩ : ∃ k, fuel = k + 1 := ⟨fuel - 1, by omega⟩
    rcases hcall : E.decompress z block BUFFER with ⟨z', r, res⟩
    obtain ⟨hr, ⟨rfl, rfl, hnone⟩ | ⟨e, z'', rfl, hdict⟩⟩ :=
      hE.needDict _ _ _ _ _ _ _ _ hreached hpre hcall
    · -- the engine waits for the rest of the header
      have hnext := Reached.read hreached hcall
      rw [List.take_length, List.append_nil, hold] at hnext
      refine ⟨⟨z', false⟩, [], ?_, by rw [hold, hnone, List.append_nil], ?_, fun _ => hnone⟩
      · rw [HeaderDecompressor.decompress, decompressLoop, hcall]
        exact if_pos ⟨le_refl _, by decide⟩
      · rw [hnone]
        exact hnext
    · have hnext := Reached.dictionary hreached hcall hdict
      have hsplit : fed ++ block.take r ++ block.drop r = fed ++ block := by
        rw [List.append_assoc, List.take_append_drop]
      rw [← List.append_nil (text fed)] at hnext
      obtain ⟨z₃, out, hloop, htext, hfinal⟩ :=
        decompressLoop_inflates hE fuel hnext (by rw [hsplit]; exact hpre) (by
          rw [hsplit]
          omega)
      rw [hsplit] at htext hfinal
      refine ⟨⟨z₃, true⟩, out, ?_, htext, hfinal, fun h => by cases h⟩
      rw [HeaderDecompressor.decompress, decompressLoop, hcall]
      simp only [Bool.false_eq_true, if_false, hdict]
      exact hloop

end

end LightrCri.Spdy

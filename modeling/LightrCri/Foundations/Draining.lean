import Mathlib.Data.List.Basic

/-!
# Draining an engine

An engine is called with an input and room for so much output, reads something from the front of the
input and writes something. `Call` says what one call may do: it reads and writes no more than there
is, a call that reads nothing only writes what was pending, and only an engine without input and
without pending output does nothing.

A loop that calls the engine with the rest of the input until nothing happens ends: `Call.induction`
is the induction on what is left of the input and, where a call reads nothing, on what is pending.
`Feeds` are the calls of such a loop, up to the one that reads the last of the input.
-/

namespace LightrCri.Foundations.Draining

variable {σ α β : Type*}

/-- A call of an engine in the state `z`, with room for `n` elements, that reads `r` and writes
`wrote`. `pending` is how much the engine could still write without further input. -/
structure Call (pending : σ → ℕ) (n : ℕ) (z : σ) (input : List α) (z' : σ) (r : ℕ)
    (wrote : List β) : Prop where
  read_le : r ≤ input.length
  wrote_le : wrote.length ≤ n
  drains : r = 0 → pending z' + wrote.length ≤ pending z
  progress : r = 0 → wrote = [] → input = [] ∧ pending z = 0

namespace Call

variable {pending : σ → ℕ} {n r : ℕ} {z z' : σ} {input : List α} {wrote : List β}

/-- A call after which there is input left, or that fills the room, does something. -/
theorem active (h : Call pending n z input z' r wrote) (hn : 0 < n)
    (hgoes : ¬(input.length ≤ r ∧ wrote.length < n)) : ¬(r = 0 ∧ wrote = []) := by
  rintro ⟨rfl, rfl⟩
  obtain ⟨rfl, -⟩ := h.progress rfl rfl
  exact hgoes ⟨Nat.le_refl _, hn⟩

/-- A call that does something leaves less to read, or less to write. -/
theorem lt (h : Call pending n z input z' r wrote) (hactive : ¬(r = 0 ∧ wrote = [])) :
    Prod.Lex (· < ·) (· < ·) ((input.drop r).length, pending z') (input.length, pending z) := by
  have hread := h.read_le
  by_cases hr : r = 0
  · subst hr
    have hwrote : 0 < wrote.length := List.length_pos_of_ne_nil fun hnil => hactive ⟨rfl, hnil⟩
    have hdrains := h.drains rfl
    rw [List.drop_zero]
    exact Prod.Lex.right _ (by omega)
  · apply Prod.Lex.left
    rw [List.length_drop]
    omega

/-- What holds of a state and an input if it holds after every call that does something, holds. -/
theorem induction (pending : σ → ℕ) (n : ℕ) (β : Type*) {motive : σ → List α → Prop}
    (call : ∀ z input, (∀ z' r (wrote : List β), Call pending n z input z' r wrote →
      ¬(r = 0 ∧ wrote = []) → motive z' (input.drop r)) → motive z input)
    (z : σ) (input : List α) : motive z input := by
  refine call z input fun z' r wrote hcall hactive => ?_
  have hlt := hcall.lt hactive
  exact induction pending n β call z' (input.drop r)
termination_by (input.length, pending z)
decreasing_by exact hlt

end Call

/-! ## The calls of a loop -/

/-- Calls, each with what the one before has left of the input, that read all of it and write the
output. -/
inductive Feeds (step : σ → List α → σ → ℕ → List β → Prop) : σ → List α → σ → List β → Prop
  | last {z input z' wrote} (h : step z input z' input.length wrote) : Feeds step z input z' wrote
  | call {z input z' r wrote z'' out} (hr : r ≤ input.length) (h : step z input z' r wrote)
    (rest : Feeds step z' (input.drop r) z'' out) : Feeds step z input z'' (wrote ++ out)

variable {step : σ → List α → σ → ℕ → List β → Prop}

/-- What every call keeps of the state, of what was read and of what was written, the calls keep. -/
theorem Feeds.invariant {I : σ → List α → List β → Prop}
    (hstep : ∀ z fed out input z' r wrote, I z fed out → step z input z' r wrote →
      I z' (fed ++ input.take r) (out ++ wrote))
    {z z' : σ} {input : List α} {wrote : List β} (h : Feeds step z input z' wrote)
    {fed : List α} {out : List β} (hI : I z fed out) : I z' (fed ++ input) (out ++ wrote) := by
  induction h generalizing fed out with
  | last h =>
    have hlast := hstep _ _ _ _ _ _ _ hI h
    rwa [List.take_length] at hlast
  | call _ h _ ih =>
    have hrest := ih (hstep _ _ _ _ _ _ _ hI h)
    rwa [List.append_assoc, List.take_append_drop, List.append_assoc] at hrest

end LightrCri.Foundations.Draining

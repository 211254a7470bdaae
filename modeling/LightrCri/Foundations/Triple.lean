import Mathlib.Logic.Basic

/-!
# Triples for programs with a state and errors

A program reads and writes a state and returns a value or fails. `Triple P x Q E` says what holds
after a run of `x` from a state of `P`: `Q` when it returns, `E` when it fails. The state a program
fails in is not undone, so `E` is a postcondition like `Q`; a sequence fails where its first part
fails or where its second does (`Triple.bind`).
-/

namespace LightrCri.Foundations

variable {σ ε α β : Type}

/-- A program over the state `σ` that returns an `α` or fails with an `ε`. -/
abbrev Prog (σ ε α : Type) := ExceptT ε (StateM σ) α

/-- The result of a run from the state `s`, and the state it leaves. -/
def Prog.exec (x : Prog σ ε α) (s : σ) : Except ε α × σ := x s

theorem Prog.exec_bind_ok {x : Prog σ ε α} {f : α → Prog σ ε β} {s s' : σ} {a : α}
    (h : x.exec s = (.ok a, s')) : (x >>= f).exec s = (f a).exec s' := by
  simp only [Prog.exec] at h
  simp only [Prog.exec, bind, ExceptT.bind, ExceptT.mk, StateT.bind, ExceptT.bindCont, h]

/-- A sequence fails where its first part fails. -/
theorem Prog.exec_bind_error {x : Prog σ ε α} {f : α → Prog σ ε β} {s s' : σ} {e : ε}
    (h : x.exec s = (.error e, s')) : (x >>= f).exec s = (.error e, s') := by
  simp only [Prog.exec] at h
  simp only [Prog.exec, bind, ExceptT.bind, ExceptT.mk, StateT.bind, ExceptT.bindCont, h]
  rfl

/-- From a state of `P` the program returns in one of `Q` or fails in one of `E`. -/
def Triple (P : σ → Prop) (x : Prog σ ε α) (Q : α → σ → Prop) (E : σ → Prop) : Prop :=
  ∀ s, P s → match x.exec s with
    | (.ok a, s') => Q a s'
    | (.error _, s') => E s'

namespace Triple

variable {P P' E E' : σ → Prop} {Q Q' : α → σ → Prop} {x : Prog σ ε α}

theorem ok (h : Triple P x Q E) {s s' : σ} {a : α} (hs : P s) (hx : x.exec s = (.ok a, s')) :
    Q a s' := by
  have hrun := h s hs
  rwa [hx] at hrun

theorem error (h : Triple P x Q E) {s s' : σ} {e : ε} (hs : P s)
    (hx : x.exec s = (.error e, s')) : E s' := by
  have hrun := h s hs
  rwa [hx] at hrun

/-- The two ways a run can end. -/
theorem of_cases (h : ∀ s, P s → (∀ a s', x.exec s = (.ok a, s') → Q a s') ∧
    ∀ e s', x.exec s = (.error e, s') → E s') : Triple P x Q E := by
  intro s hs
  obtain ⟨hok, herror⟩ := h s hs
  rcases hx : x.exec s with ⟨e | a, s'⟩
  · exact herror e s' hx
  · exact hok a s' hx

/-- What the precondition says that does not depend on the state. -/
theorem of_fact {A : Prop} (h : A → Triple P x Q E) : Triple (fun s => A ∧ P s) x Q E :=
  fun s hs => h hs.1 s hs.2

/-- The state in the end, where it does not matter how the run ends. -/
theorem final {R : σ → Prop} (h : Triple P x (fun _ => R) R) {s : σ} (hs : P s) : R (x.exec s).2 := by
  rcases hx : x.exec s with ⟨e | a, s'⟩
  · exact h.error hs hx
  · exact h.ok hs hx

/-- **Consequence.** -/
theorem weaken (h : Triple P x Q E) (hP : ∀ s, P' s → P s) (hQ : ∀ a s, Q a s → Q' a s)
    (hE : ∀ s, E s → E' s) : Triple P' x Q' E' := by
  refine of_cases fun s hs => ⟨fun a s' hx => ?_, fun e s' hx => ?_⟩
  · exact hQ a s' (h.ok (hP s hs) hx)
  · exact hE s' (h.error (hP s hs) hx)

theorem post (h : Triple P x Q E) (hQ : ∀ a s, Q a s → Q' a s) : Triple P x Q' E :=
  h.weaken (fun _ hs => hs) hQ fun _ hs => hs

theorem pre (h : Triple P x Q E) (hP : ∀ s, P' s → P s) : Triple P' x Q E :=
  h.weaken hP (fun _ _ hs => hs) fun _ hs => hs

theorem fails (h : Triple P x Q E) (hE : ∀ s, E s → E' s) : Triple P x Q E' :=
  h.weaken (fun _ hs => hs) (fun _ _ hs => hs) hE

protected theorem pure {a : α} (h : ∀ s, P s → Q a s) : Triple P (pure a : Prog σ ε α) Q E := h

protected theorem throw {e : ε} (h : ∀ s, P s → E s) : Triple P (throw e : Prog σ ε α) Q E := h

/-- **Sequence.** -/
protected theorem bind {R : α → σ → Prop} {Q : β → σ → Prop} {f : α → Prog σ ε β}
    (hx : Triple P x R E) (hf : ∀ a, Triple (R a) (f a) Q E) : Triple P (x >>= f) Q E := by
  refine of_cases fun s hs => ?_
  rcases hx' : x.exec s with ⟨e | a, s'⟩
  · rw [Prog.exec_bind_error hx']
    refine ⟨fun b t h => ?_, fun e' t h => ?_⟩
    · cases h
    · cases h
      exact hx.error hs hx'
  · rw [Prog.exec_bind_ok hx']
    have hs' := hx.ok hs hx'
    exact ⟨fun b t h => (hf a).ok hs' h, fun e t h => (hf a).error hs' h⟩

/-- A sequence whose first part returns nothing. -/
theorem seq {R : σ → Prop} {x : Prog σ ε Unit} {Q : β → σ → Prop} {y : Prog σ ε β}
    (hx : Triple P x (fun _ => R) E) (hy : Triple R y Q E) : Triple P (x >>= fun _ => y) Q E :=
  hx.bind fun _ => hy

protected theorem modify {f : σ → σ} {Q : Unit → σ → Prop} (h : ∀ s, P s → Q () (f s)) :
    Triple P (modify f : Prog σ ε Unit) Q E := h

/-- What a program reads first is a fact about the state it starts in. -/
theorem get_bind {Q : β → σ → Prop} {f : σ → Prog σ ε β}
    (h : ∀ s, P s → Triple (fun t => t = s) (f s) Q E) :
    Triple P ((get : Prog σ ε σ) >>= f) Q E := by
  refine Triple.bind (R := fun a s => P s ∧ a = s) (fun s hs => ⟨hs, rfl⟩) fun a => ?_
  rintro s ⟨hs, rfl⟩
  exact h a hs a rfl

end Triple

end LightrCri.Foundations

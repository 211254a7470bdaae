import Mathlib.Data.List.Basic

/-!
# Namespaces

The namespaces of one kind, in the order in which they were made, and what each shows. A task leaves
its namespace for a copy of it (`Spaces.unshare`). What is written in a namespace is seen in it and
in those of its group of peers (`Spaces.write`), which a copy joins and which a namespace can leave
(`Spaces.isolate`).

* `getElem?_unshare`: the namespaces that were there are as they were.
* `getElem?_write_alone`: what is written in a namespace without peers is seen in it only.
* `Apart`: tasks that share no namespace but the first one; a task that makes one of its own leaves
  them so (`Apart.step`).
-/

namespace LightrCri.Foundations

variable {α : Type*}

/-- A namespace: what it shows, and the group in which this is shared. -/
structure Space (α : Type*) where
  shows : α
  peers : Option ℕ := none
  deriving DecidableEq, Repr

abbrev Spaces (α : Type*) := List (Space α)

namespace Spaces

/-- A copy of the namespace `n` is made, which belongs to the same group. -/
def unshare (ss : Spaces α) (n : ℕ) : Spaces α := ss ++ ss[n]?.toList

/-- The namespace `n` leaves its group. -/
def isolate (ss : Spaces α) (n : ℕ) : Spaces α := ss.modify n fun s => { s with peers := none }

/-- `a` is written in the namespace `n`. -/
def write (ss : Spaces α) (n : ℕ) (a : α) : Spaces α :=
  let group := ss[n]?.bind Space.peers
  ss.mapIdx fun m s => if m = n ∨ group.isSome ∧ s.peers = group then { s with shows := a } else s

variable {ss : Spaces α} {n m : ℕ} {s : Space α}

theorem lt_length (h : ss[n]? = some s) : n < ss.length := (List.getElem?_eq_some_iff.mp h).1

theorem length_unshare (h : n < ss.length) : (ss.unshare n).length = ss.length + 1 := by
  rw [unshare, List.length_append, List.getElem?_eq_getElem h]
  rfl

theorem length_le_unshare : ss.length ≤ (ss.unshare n).length := by
  rw [unshare, List.length_append]
  exact Nat.le_add_right _ _

@[simp] theorem length_isolate : (ss.isolate n).length = ss.length := List.length_modify _ _ _

@[simp] theorem length_write (a : α) : (ss.write n a).length = ss.length := List.length_mapIdx

/-- A namespace that is there does not see that another is made. -/
theorem getElem?_unshare (h : ss[m]? = some s) : (ss.unshare n)[m]? = some s := by
  rw [unshare, List.getElem?_append_left (lt_length h), h]

/-- The copy. -/
theorem getElem?_unshare_new (h : ss[n]? = some s) : (ss.unshare n)[ss.length]? = some s := by
  rw [unshare, List.getElem?_append_right (Nat.le_refl _), Nat.sub_self, h]
  rfl

theorem getElem?_isolate (h : ss[n]? = some s) :
    (ss.isolate n)[n]? = some { s with peers := none } := by
  rw [isolate, List.getElem?_modify_eq, h]
  rfl

theorem getElem?_isolate_ne (h : m ≠ n) : (ss.isolate n)[m]? = ss[m]? := by
  simp [isolate, Ne.symm h]

theorem getElem?_write (h : ss[n]? = some s) (a : α) :
    (ss.write n a)[n]? = some { s with shows := a } := by
  rw [write, List.getElem?_mapIdx, h]
  simp

/-- What is written in a namespace without peers is seen in it only. -/
theorem getElem?_write_alone (h : ss[n]? = some s) (halone : s.peers = none) (a : α) (hne : m ≠ n) :
    (ss.write n a)[m]? = ss[m]? := by
  have hgroup : ss[n]?.bind Space.peers = none := by rw [h, Option.bind_some, halone]
  rw [write, List.getElem?_mapIdx, hgroup]
  cases ss[m]? with
  | none => rfl
  | some s => simp [hne]

end Spaces

/-- No two of the tasks `C` are in one namespace, except in the one with the number 0. -/
def Apart (C : ℕ → Prop) (u : ℕ → ℕ) : Prop :=
  ∀ q q', C q → C q' → q ≠ q' → u q = u q' → u q = 0

/-- The task `i` stays in its namespace or makes the namespace `len`, and new tasks are in the
namespace 0. -/
theorem Apart.step {C C' : ℕ → Prop} {u u' : ℕ → ℕ} {len : ℕ} (h : Apart C u) (i : ℕ)
    (hlen : ∀ q, u q < len) (hown : C i → u' i = u i ∨ u' i = len)
    (hothers : ∀ q, C q → q ≠ i → u' q = u q) (hnew : ∀ q, C' q → C q ∨ u' q = 0) :
    Apart C' u' := by
  have hself : ∀ q, C i → C q → q ≠ i → u' q = u' i → u' q = 0 := by
    intro q hi hq hne heq
    rw [hothers q hq hne] at heq ⊢
    rcases hown hi with hi' | hi'
    · exact h q i hq hi hne (heq.trans hi')
    · exact absurd (heq.trans hi') (Nat.ne_of_lt (hlen q))
  intro q q' hq hq' hne heq
  rcases hnew q hq with hq | hzero
  · rcases hnew q' hq' with hq' | hzero'
    · by_cases hi : q = i
      · subst hi
        rw [heq]
        exact hself q' hq hq' (Ne.symm hne) heq.symm
      · by_cases hi' : q' = i
        · subst hi'
          exact hself q hq' hq hi heq
        · rw [hothers q hq hi] at heq ⊢
          exact h q q' hq hq' hne (heq.trans (hothers q' hq' hi'))
    · rw [heq, hzero']
  · exact hzero

end LightrCri.Foundations

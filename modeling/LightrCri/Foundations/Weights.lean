import LightrCri.Foundations.Pool
import Mathlib.Algebra.BigOperators.Group.List.Basic
import Mathlib.Algebra.GroupWithZero.Nat

/-!
# Weights of the tasks of a pool

Every frame has a weight, and a task that of its stack. A step that pushes and starts less than the
frame it executes makes the pool lighter (`Pool.Advance.weight_lt`), so a pool whose every step does
so comes to an end, whatever the interleaving.
-/

namespace LightrCri.Foundations

variable {σ τ φ ρ ω : Type*}

/-- The weight of a stack. -/
def weigh (wt : φ → ℕ) (fs : List φ) : ℕ := (fs.map wt).sum

/-- The weight of the frames that an outcome pushes and starts. -/
def Outcome.weight (wt : φ → ℕ) : Outcome τ φ ρ → ℕ
  | .next fs => weigh wt fs
  | .fork _ child => weigh wt child
  | .halt _ => 0

namespace Pool

/-- The weight of all tasks. -/
def weight (wt : φ → ℕ) (p : Pool σ τ φ ρ) : ℕ := (p.tasks.map fun t => weigh wt t.frames).sum

end Pool

section

variable {wt wt' : φ → ℕ}

@[simp] theorem weigh_nil : weigh wt [] = 0 := rfl

@[simp] theorem weigh_cons (f : φ) (fs : List φ) : weigh wt (f :: fs) = wt f + weigh wt fs := by
  simp [weigh]

@[simp] theorem weigh_append (fs fs' : List φ) :
    weigh wt (fs ++ fs') = weigh wt fs + weigh wt fs' := by
  simp [weigh]

@[simp] theorem Outcome.weight_next (fs : List φ) :
    (Outcome.next fs : Outcome τ φ ρ).weight wt = weigh wt fs := rfl

@[simp] theorem Outcome.weight_fork (tag : τ) (child : List φ) :
    (Outcome.fork tag child : Outcome τ φ ρ).weight wt = weigh wt child := rfl

@[simp] theorem Outcome.weight_halt (r : ρ) :
    (Outcome.halt r : Outcome τ φ ρ).weight wt = 0 := rfl

theorem weigh_pos_iff {fs : List φ} : 0 < weigh wt fs ↔ ∃ f ∈ fs, 0 < wt f := by
  rw [weigh, List.sum_pos_iff_exists_pos_nat]
  simp

theorem weigh_le_weigh (h : ∀ f, wt f ≤ wt' f) (fs : List φ) : weigh wt fs ≤ weigh wt' fs := by
  induction fs with
  | nil => exact Nat.le_refl _
  | cons f fs ih =>
    rw [weigh_cons, weigh_cons]
    exact Nat.add_le_add (h f) ih

/-- The sum with one summand replaced. -/
theorem sum_map_set {α : Type*} {g : α → ℕ} {l : List α} {i : ℕ} {a b : α} (h : l[i]? = some a) :
    ((l.set i b).map g).sum + g a = (l.map g).sum + g b := by
  induction l generalizing i with
  | nil => simp at h
  | cons x l ih =>
    cases i with
    | zero =>
      obtain rfl : x = a := by simpa using h
      simp only [List.set_cons_zero, List.map_cons, List.sum_cons]
      omega
    | succ i =>
      have hi := ih (by simpa using h)
      simp only [List.set_cons_succ, List.map_cons, List.sum_cons]
      omega

namespace Pool

variable {exec : ℕ → ℕ → ω → φ → σ → Option (σ × Outcome τ φ ρ)} {p p' : Pool σ τ φ ρ} {i : ℕ}
  {o : ω} {t : Task τ φ ρ} {f : φ} {k : List φ} {out : Outcome τ φ ρ}

/-- A pool is not without weight exactly if one of its frames is not. -/
theorem weight_pos_iff : 0 < p.weight wt ↔ ∃ t ∈ p.tasks, ∃ f ∈ t.frames, 0 < wt f := by
  rw [weight, List.sum_pos_iff_exists_pos_nat]
  simp [weigh_pos_iff]

@[simp] theorem weight_start (p : Pool σ τ φ ρ) (tag : τ) (fs : List φ) :
    (p.start tag fs).weight wt = p.weight wt + weigh wt fs := by
  simp [weight, start]

theorem weight_le_weight (h : ∀ f, wt f ≤ wt' f) : p.weight wt ≤ p.weight wt' := by
  unfold weight
  induction p.tasks with
  | nil => exact Nat.le_refl _
  | cons t ts ih =>
    rw [List.map_cons, List.sum_cons, List.map_cons, List.sum_cons]
    exact Nat.add_le_add (weigh_le_weigh h t.frames) ih

/-- Tasks that get lighter stacks make the pool lighter. -/
theorem weight_map_le {g : Task τ φ ρ → Task τ φ ρ}
    (h : ∀ t, weigh wt (g t).frames ≤ weigh wt t.frames) (x : σ) (ts : List (Task τ φ ρ)) :
    weight wt ⟨x, ts.map g⟩ ≤ weight wt ⟨x, ts⟩ := by
  unfold weight
  induction ts with
  | nil => exact Nat.le_refl _
  | cons t ts ih =>
    rw [List.map_cons, List.map_cons, List.sum_cons, List.map_cons, List.sum_cons]
    exact Nat.add_le_add (h t) ih

namespace Advance

/-- **The weight after a step.** -/
theorem weight_add_le (wt : φ → ℕ) (h : Advance exec p i o p' t f k out) :
    p'.weight wt + wt f ≤ p.weight wt + out.weight wt := by
  have hset := sum_map_set (g := fun t : Task τ φ ρ => weigh wt t.frames) (b := t.resume k out)
    h.task
  unfold weight
  rw [h.tasks, List.map_append, List.sum_append]
  simp only [h.frames, weigh_cons] at hset
  cases out with
  | next fs =>
    simp only [Task.resume_next, weigh_append, Outcome.children_next, List.map_nil, List.sum_nil,
      Outcome.weight_next] at hset ⊢
    omega
  | fork tag child =>
    simp only [Task.resume_fork, Outcome.children_fork, List.map_cons, List.map_nil, List.sum_cons,
      List.sum_nil, Outcome.weight_fork] at hset ⊢
    omega
  | halt r =>
    simp only [Task.resume_halt, weigh_nil, Outcome.children_halt, List.map_nil, List.sum_nil,
      Outcome.weight_halt] at hset ⊢
    omega

/-- **A step that makes the pool lighter.** -/
theorem weight_lt (h : Advance exec p i o p' t f k out) (hlt : out.weight wt < wt f) :
    p'.weight wt < p.weight wt := by
  have hle := h.weight_add_le wt
  omega

end Advance

end Pool

end

end LightrCri.Foundations

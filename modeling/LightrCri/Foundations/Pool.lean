import LightrCri.Foundations.Runs

/-!
# Pools of tasks over a shared state

An interleaving machine in the style of an abstract machine with a continuation stack. A task is
a stack of frames; a frame is one atomic action of the program and the frames below it are what
remains to be done. Executing the frame on top of a task (`Pool.advance`) changes the shared
state and either replaces the frame by others, or starts a new task, or ends the task.

The rules are `advance_eq_some`, which inverts a step, `Advance.cases`, which says what the tasks
are after it, and the invariant rule `Advance.forall_tasks`: a property of tasks holds of every task
after a step if the step gives it to its own task and to those it starts and leaves it to the
others.
-/

namespace LightrCri.Foundations

/-- What executing a frame does to the task it is on top of. -/
inductive Outcome (τ φ ρ : Type*)
  /-- The frame is replaced by `fs`. -/
  | next (fs : List φ)
  /-- The frame is done and a task with the stack `child` is started. -/
  | fork (tag : τ) (child : List φ)
  /-- The task ends with `r`, whatever remained on its stack. -/
  | halt (r : ρ)
  deriving DecidableEq

/-- A task: the stack of frames to execute, and the result once it has ended. -/
structure Task (τ φ ρ : Type*) where
  tag : τ
  frames : List φ
  result : Option ρ
  deriving DecidableEq

/-- Tasks over a shared state. Tasks are never removed, so a task keeps its index. -/
structure Pool (σ τ φ ρ : Type*) where
  shared : σ
  tasks : List (Task τ φ ρ)

variable {σ τ φ ρ ω : Type*}

/-- The task after its top frame had the outcome, with `k` below that frame. -/
def Task.resume (t : Task τ φ ρ) (k : List φ) : Outcome τ φ ρ → Task τ φ ρ
  | .next fs => { t with frames := fs ++ k }
  | .fork _ _ => { t with frames := k }
  | .halt r => { t with frames := [], result := some r }

/-- The tasks an outcome starts. -/
def Outcome.children : Outcome τ φ ρ → List (Task τ φ ρ)
  | .fork tag child => [⟨tag, child, none⟩]
  | _ => []

/-- The frames an outcome pushes. -/
def Outcome.pushed : Outcome τ φ ρ → List φ
  | .next fs => fs
  | _ => []

@[simp] theorem Task.resume_tag (t : Task τ φ ρ) (k : List φ) (out : Outcome τ φ ρ) :
    (t.resume k out).tag = t.tag := by
  cases out <;> rfl

@[simp] theorem Task.resume_next (t : Task τ φ ρ) (k fs : List φ) :
    (t.resume k (.next fs)).frames = fs ++ k := rfl

@[simp] theorem Task.resume_fork (t : Task τ φ ρ) (k child : List φ) (tag : τ) :
    (t.resume k (.fork tag child)).frames = k := rfl

@[simp] theorem Task.resume_halt (t : Task τ φ ρ) (k : List φ) (r : ρ) :
    (t.resume k (.halt r)).frames = [] := rfl

@[simp] theorem Outcome.children_next (fs : List φ) :
    (Outcome.next fs : Outcome τ φ ρ).children = [] := rfl

@[simp] theorem Outcome.children_halt (r : ρ) :
    (Outcome.halt r : Outcome τ φ ρ).children = [] := rfl

@[simp] theorem Outcome.children_fork (tag : τ) (child : List φ) :
    (Outcome.fork tag child : Outcome τ φ ρ).children = [⟨tag, child, none⟩] := rfl

/-- A frame of the task after a step was below the executed one or is pushed. -/
theorem Task.mem_resume {t : Task τ φ ρ} {k : List φ} {out : Outcome τ φ ρ} {f : φ}
    (h : f ∈ (t.resume k out).frames) : f ∈ out.pushed ∨ f ∈ k := by
  cases out with
  | next fs => exact List.mem_append.mp h
  | fork tag child => exact Or.inr h
  | halt r => simp at h

/-- The stack after a step: what is pushed over what was below, or nothing. -/
theorem Task.frames_resume (t : Task τ φ ρ) (k : List φ) (out : Outcome τ φ ρ) :
    (t.resume k out).frames = out.pushed ++ k ∨ (t.resume k out).frames = [] := by
  cases out with
  | next fs => exact Or.inl rfl
  | fork tag child => exact Or.inl rfl
  | halt r => exact Or.inr rfl

namespace Pool

variable (exec : ℕ → ℕ → ω → φ → σ → Option (σ × Outcome τ φ ρ))

/-- Task `i` executes its top frame. `exec` is given the index of the task, the index that a task
started now would get, and the oracle `o` that resolves the nondeterminism of the frame. -/
def advance (p : Pool σ τ φ ρ) (i : ℕ) (o : ω) : Option (Pool σ τ φ ρ) :=
  match p.tasks[i]? with
  | none => none
  | some t =>
    match t.frames with
    | [] => none
    | f :: k =>
      (exec i p.tasks.length o f p.shared).map fun r =>
        ⟨r.1, p.tasks.set i (t.resume k r.2) ++ r.2.children⟩

/-- A task with the given stack is started. -/
def start (p : Pool σ τ φ ρ) (tag : τ) (fs : List φ) : Pool σ τ φ ρ :=
  { p with tasks := p.tasks ++ [⟨tag, fs, none⟩] }

/-- The stack of task `i`, empty if there is no such task. -/
def stack (p : Pool σ τ φ ρ) (i : ℕ) : List φ := p.tasks[i]?.elim [] Task.frames

/-- The frame that task `i` executes next. -/
def top (p : Pool σ τ φ ρ) (i : ℕ) : Option φ := (p.stack i).head?

/-- Every task has ended. -/
def Idle (p : Pool σ τ φ ρ) : Prop := ∀ t ∈ p.tasks, t.frames = []

@[simp] theorem start_shared (p : Pool σ τ φ ρ) (tag : τ) (fs : List φ) :
    (p.start tag fs).shared = p.shared := rfl

theorem mem_tasks_start {p : Pool σ τ φ ρ} {tag : τ} {fs : List φ} {u : Task τ φ ρ} :
    u ∈ (p.start tag fs).tasks ↔ u ∈ p.tasks ∨ u = ⟨tag, fs, none⟩ := by
  simp [start]

variable {exec}

/-- What a step of a task consists of. -/
structure Advance (exec : ℕ → ℕ → ω → φ → σ → Option (σ × Outcome τ φ ρ)) (p : Pool σ τ φ ρ)
    (i : ℕ) (o : ω) (p' : Pool σ τ φ ρ) (t : Task τ φ ρ) (f : φ) (k : List φ)
    (out : Outcome τ φ ρ) : Prop where
  task : p.tasks[i]? = some t
  frames : t.frames = f :: k
  exec : exec i p.tasks.length o f p.shared = some (p'.shared, out)
  tasks : p'.tasks = p.tasks.set i (t.resume k out) ++ out.children

theorem advance_eq_some {p p' : Pool σ τ φ ρ} {i : ℕ} {o : ω} (h : p.advance exec i o = some p') :
    ∃ t f k out, Advance exec p i o p' t f k out := by
  unfold advance at h
  split at h
  · simp at h
  · rename_i t ht
    split at h
    · simp at h
    · rename_i f k hf
      obtain ⟨⟨s', out⟩, hexec, rfl⟩ := Option.map_eq_some_iff.mp h
      exact ⟨t, f, k, out, ht, hf, hexec, rfl⟩

namespace Advance

variable {p p' : Pool σ τ φ ρ} {i : ℕ} {o : ω} {t : Task τ φ ρ} {f : φ} {k : List φ}
  {out : Outcome τ φ ρ}

theorem lt_length (h : Advance exec p i o p' t f k out) : i < p.tasks.length :=
  (List.getElem?_eq_some_iff.mp h.task).1

theorem mem (h : Advance exec p i o p' t f k out) : t ∈ p.tasks := List.mem_of_getElem? h.task

theorem stack_eq (h : Advance exec p i o p' t f k out) : p.stack i = f :: k := by
  rw [stack, h.task, Option.elim_some, h.frames]

theorem top_eq (h : Advance exec p i o p' t f k out) : p.top i = some f := by
  rw [top, h.stack_eq, List.head?_cons]

/-- The task that made the step, after it. -/
theorem getElem?_self (h : Advance exec p i o p' t f k out) :
    p'.tasks[i]? = some (t.resume k out) := by
  have hi := h.lt_length
  rw [h.tasks, List.getElem?_append_left (by simpa using hi), List.getElem?_set_self hi]

/-- The other tasks are as they were. -/
theorem getElem?_of_ne (h : Advance exec p i o p' t f k out) {j : ℕ} (hj : j ≠ i)
    (hlt : j < p.tasks.length) : p'.tasks[j]? = p.tasks[j]? := by
  rw [h.tasks, List.getElem?_append_left (by simpa using hlt), List.getElem?_set_ne hj.symm]

theorem getElem?_of_some (h : Advance exec p i o p' t f k out) {j : ℕ} (hj : j ≠ i)
    {u : Task τ φ ρ} (hu : p.tasks[j]? = some u) : p'.tasks[j]? = some u := by
  rw [h.getElem?_of_ne hj (List.getElem?_eq_some_iff.mp hu).1, hu]

/-- A task after the step is the one that made it, an old one or a new one. -/
theorem cases (h : Advance exec p i o p' t f k out) {j : ℕ} {u : Task τ φ ρ}
    (hu : p'.tasks[j]? = some u) :
    (j = i ∧ u = t.resume k out) ∨ (j ≠ i ∧ p.tasks[j]? = some u) ∨
      (j = p.tasks.length ∧ u ∈ out.children) := by
  by_cases hj : j = i
  · subst hj
    rw [h.getElem?_self] at hu
    exact Or.inl ⟨rfl, (Option.some.inj hu).symm⟩
  · by_cases hlt : j < p.tasks.length
    · rw [h.getElem?_of_ne hj hlt] at hu
      exact Or.inr (Or.inl ⟨hj, hu⟩)
    · rw [h.tasks, List.getElem?_append_right (by simpa using hlt)] at hu
      have hlen : out.children.length ≤ 1 := by cases out <;> simp
      have hidx := (List.getElem?_eq_some_iff.mp hu).1
      rw [List.length_set] at hidx
      exact Or.inr (Or.inr ⟨by omega, List.mem_of_getElem? hu⟩)

theorem mem_cases (h : Advance exec p i o p' t f k out) {u : Task τ φ ρ} (hu : u ∈ p'.tasks) :
    u = t.resume k out ∨ u ∈ p.tasks ∨ u ∈ out.children := by
  obtain ⟨j, hj⟩ := List.getElem?_of_mem hu
  rcases h.cases hj with ⟨-, h⟩ | ⟨-, h⟩ | ⟨-, h⟩
  · exact Or.inl h
  · exact Or.inr (Or.inl (List.mem_of_getElem? h))
  · exact Or.inr (Or.inr h)

/-- Counting the tasks with a property that neither the task that made the step nor a new one
has. -/
theorem countP_tasks (h : Advance exec p i o p' t f k out) {q : Task τ φ ρ → Bool}
    (hq : q t = false) (hc : ∀ u ∈ out.children, q u = false) :
    p'.tasks.countP q = p.tasks.countP q + if q (t.resume k out) then 1 else 0 := by
  have hi := h.lt_length
  have ht : p.tasks[i] = t := (List.getElem?_eq_some_iff.mp h.task).2
  have hchildren : out.children.countP q = 0 :=
    List.countP_eq_zero.mpr fun u hu => by simp [hc u hu]
  rw [h.tasks, List.countP_append, hchildren, List.countP_set hi, ht, hq]
  simp

/-- **The invariant rule for stacks.** -/
theorem forall_tasks (h : Advance exec p i o p' t f k out) {J J' : Task τ φ ρ → Prop}
    (hJ : ∀ u ∈ p.tasks, J u) (own : J t → J' (t.resume k out))
    (other : ∀ u, J u → J' u) (child : J t → ∀ u ∈ out.children, J' u) :
    ∀ u ∈ p'.tasks, J' u := by
  intro u hu
  rcases h.mem_cases hu with rfl | hu | hu
  · exact own (hJ t h.mem)
  · exact other u (hJ u hu)
  · exact child (hJ t h.mem) u hu

end Advance

end Pool

end LightrCri.Foundations

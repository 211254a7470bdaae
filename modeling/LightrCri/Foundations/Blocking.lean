import Mathlib.Data.List.Nodup

/-!
# A bounded pool of threads for blocking jobs

Jobs are queued and started in order, at most `size` at a time. A job that has started runs until it
is done; only one that is still queued can be cancelled. The rules say which jobs the pool has after
each operation.
-/

namespace LightrCri.Foundations

structure BlockingPool (J : Type*) where
  size : Nat
  queue : List J
  running : List J
  bound : running.length ≤ size
  nodup : (queue ++ running).Nodup

namespace BlockingPool

variable {J : Type*}

/-- The jobs there are. -/
def jobs (p : BlockingPool J) : List J := p.queue ++ p.running

def empty (size : Nat) : BlockingPool J := ⟨size, [], [], Nat.zero_le _, List.nodup_nil⟩

variable [DecidableEq J]

def spawn (p : BlockingPool J) (j : J) : Option (BlockingPool J) :=
  if h : j ∉ p.jobs then
    some
      { p with
        queue := p.queue ++ [j]
        nodup := by
          rw [List.append_assoc]
          exact List.nodup_middle.mpr (List.nodup_cons.mpr ⟨h, p.nodup⟩) }
  else none

/-- A thread takes the first job of the queue. -/
def start (p : BlockingPool J) : Option (BlockingPool J) :=
  match hq : p.queue with
  | [] => none
  | j :: queue =>
    if h : p.running.length < p.size then
      some
        { p with
          queue := queue
          running := j :: p.running
          bound := h
          nodup := by
            have hnodup := p.nodup
            rw [hq, List.cons_append] at hnodup
            exact List.nodup_middle.mpr hnodup }
    else none

/-- A running job is done. -/
def finish (p : BlockingPool J) (j : J) : Option (BlockingPool J) :=
  if j ∈ p.running then
    some
      { p with
        running := p.running.erase j
        bound := Nat.le_trans List.length_erase_le p.bound
        nodup := p.nodup.sublist (List.erase_sublist.append_left _) }
  else none

/-- Cancelling has an effect on a queued job only. -/
def abort (p : BlockingPool J) (j : J) : BlockingPool J :=
  { p with
    queue := p.queue.erase j
    nodup := p.nodup.sublist (List.erase_sublist.append_right _) }

variable {p p' : BlockingPool J} {j : J}

theorem mem_spawn (h : p.spawn j = some p') (i : J) : i ∈ p'.jobs ↔ i ∈ p.jobs ∨ i = j := by
  unfold spawn at h
  split at h
  · obtain rfl := Option.some.inj h
    simp only [jobs, List.mem_append, List.mem_singleton]
    exact or_right_comm
  · cases h

omit [DecidableEq J] in
theorem mem_start (h : p.start = some p') (i : J) : i ∈ p'.jobs ↔ i ∈ p.jobs := by
  unfold start at h
  split at h
  · cases h
  · rename_i j queue hq
    split at h
    · obtain rfl := Option.some.inj h
      simp only [jobs, hq, List.mem_append, List.mem_cons]
      tauto
    · cases h

theorem mem_of_finish (h : p.finish j = some p') : j ∈ p.jobs := by
  unfold finish at h
  split at h
  · rename_i hj
    exact List.mem_append_right _ hj
  · cases h

theorem mem_finish (h : p.finish j = some p') (i : J) : i ∈ p'.jobs ↔ i ∈ p.jobs ∧ i ≠ j := by
  unfold finish at h
  split at h
  · rename_i hj
    obtain rfl := Option.some.inj h
    have hdisj := List.disjoint_of_nodup_append p.nodup
    have hnodup := (List.nodup_append.mp p.nodup).2.1
    simp only [jobs, List.mem_append, hnodup.mem_erase_iff]
    constructor
    · rintro (hq | ⟨hne, hr⟩)
      · exact ⟨.inl hq, fun heq => hdisj hq (heq ▸ hj)⟩
      · exact ⟨.inr hr, hne⟩
    · rintro ⟨hq | hr, hne⟩
      · exact .inl hq
      · exact .inr ⟨hne, hr⟩
  · cases h

/-- A job is still there after it was cancelled just when it had started. -/
theorem mem_abort (i : J) : i ∈ (p.abort j).jobs ↔ i ∈ p.jobs ∧ (i = j → i ∈ p.running) := by
  have hnodup := (List.nodup_append.mp p.nodup).1
  simp only [abort, jobs, List.mem_append, hnodup.mem_erase_iff]
  constructor
  · rintro (⟨hne, hq⟩ | hr)
    · exact ⟨.inl hq, fun heq => absurd heq hne⟩
    · exact ⟨.inr hr, fun _ => hr⟩
  · rintro ⟨hq | hr, himp⟩
    · by_cases heq : i = j
      · exact .inr (himp heq)
      · exact .inl ⟨heq, hq⟩
    · exact .inr hr

end BlockingPool

end LightrCri.Foundations

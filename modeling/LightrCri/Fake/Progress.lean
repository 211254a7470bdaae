import LightrCri.Fake.ExitCodes
import LightrCri.Foundations.Weights

/-!
# Calls return

Once the deadlines of the waits have passed, the tasks come to an end from every reachable state,
whatever the interleaving and whatever file operations and spawns fail: their steps are bounded, and
where none of them can take another, every call has returned, the lock is free, and the reapers that
are left wait for processes that have not ended (`calls_return`).

The bound is a weight of the frames (`Frame.weight`). The removal of a sandbox stops every container
that it finds, so its weight grows with the containers there can be (`roomOf`), which no step of a
task raises. Nobody waits in vain for the cache lock: its holder has only its file and the release
to go, and both are always possible (`Attended`).
-/

namespace LightrCri.Fake

open Backend Foundations

/-! ## The lock -/

/-- The duties of a task that holds the cache lock. -/
def Duty.holds : Duty → Bool
  | .persists _ true => true
  | .releases => true
  | _ => false

section Change

variable {self : Nat} {o : Oracle} {f : Frame} {w w' : World} {d d' : Duty}

/-- Who holds the lock after a step of `self` held it before, or is `self`. -/
theorem Change.lock_cases (h : Change self o f w w' d d') {j : Nat} (hj : w'.lock = some j) :
    w.lock = some j ∨ j = self ∧ d'.holds := by
  cases h with
  | quiet _ _ _ hl | write _ _ _ _ _ _ _ hl | abandon _ _ _ _ _ _ _ hl | rename _ _ _ _ _ _ _ _ hl
  | store _ _ _ _ _ _ _ hl | unlink _ _ _ _ hl | keep _ _ _ _ _ hl | issue _ _ _ _ hl
  | update _ _ _ _ _ hl | insert _ _ _ _ _ hl | drop _ _ _ _ _ hl => exact .inl (hl.symm.trans hj)
  | land r _ _ _ _ hl => exact .inr ⟨Option.some.inj (hj.symm.trans hl), rfl⟩
  | release _ _ hl => cases hl.symm.trans hj

/-- A holder keeps the lock or frees it. -/
theorem Change.holds (h : Change self o f w w' d d') (hd : d.holds) :
    d'.holds ∨ w'.lock = none := by
  cases h with
  | quiet | write => exact .inl hd
  | abandon _ r kind =>
    rcases kind with ⟨l, rfl⟩ | rfl
    · cases l with
      | true => exact .inl rfl
      | false => cases hd
    · cases hd
  | rename p m r strict l =>
    cases l with
    | true => exact .inl rfl
    | false => cases hd
  | release _ _ hl => exact .inr hl
  | store | unlink | keep | update | land | insert | drop | issue => cases hd

/-- **A holder can always go on.** -/
theorem Stack.holds_enabled {fs : List Frame} (h : Stack d fs) (hd : d.holds) (self n : Nat)
    (o : Oracle) (w : World) : ∃ f k, fs = f :: k ∧ (exec self n o f w).isSome := by
  cases h with
  | landWrite r k | landRename p m r k | unlock k => exact ⟨_, _, rfl, rfl⟩
  | plain | write | rename | removeIo | unlink | issueWrite | issueRename | insert => cases hd

end Change

/-- Every task has its duty, and the lock, if it is held, a task that holds it. -/
structure Attended (s : State) : Prop where
  keyed : s.shared.cache.Keyed
  duties : ∀ t ∈ s.tasks, ∃ d, Stack d t.frames
  holder : ∀ j, s.shared.lock = some j →
    ∃ t d, s.tasks[j]? = some t ∧ Stack d t.frames ∧ d.holds

section Attended

variable {s s' : State} {l : Label}

theorem Attended.advance (h : Attended s) {i : Nat} {o : Oracle} {t : Thread} {f : Frame}
    {k : List Frame} {out : Out} (hadv : Pool.Advance exec s i o s' t f k out) : Attended s' := by
  obtain ⟨d, hd⟩ := h.duties t hadv.mem
  obtain ⟨d', hd', hch⟩ := hd.step hadv.frames h.keyed hadv.exec
  refine ⟨hch.keyed h.keyed, fun u hu => ?_, fun j hj => ?_⟩
  · rcases hadv.mem_cases hu with rfl | hu | hu
    · exact ⟨d', hd'⟩
    · exact h.duties u hu
    · obtain ⟨id, q, -, rfl⟩ := children_reaper hadv hu
      exact ⟨.none, .plain _ (by simp [Frame.plain])⟩
  · rcases hch.lock_cases hj with hlock | ⟨rfl, hholds⟩
    · obtain ⟨u, e, hu, he, hholds⟩ := h.holder j hlock
      by_cases hji : j = i
      · subst hji
        obtain rfl := Option.some.inj (hu.symm.trans hadv.task)
        obtain rfl := he.unique hd
        rcases hch.holds hholds with hholds' | hfree
        · exact ⟨_, d', hadv.getElem?_self, hd', hholds'⟩
        · cases hfree.symm.trans hj
      · exact ⟨u, e, hadv.getElem?_of_some hji hu, he, hholds⟩
    · exact ⟨_, d', hadv.getElem?_self, hd', hholds⟩

theorem Attended.step (h : Attended s) (hstep : step s l = some s') : Attended s' := by
  cases l with
  | invoke c =>
    obtain rfl := Option.some.inj hstep
    refine ⟨h.keyed, fun u hu => ?_, fun j hj => ?_⟩
    · rcases Pool.mem_tasks_start.mp hu with hu | rfl
      · exact h.duties u hu
      · exact ⟨.none, .plain _ fun f hf => (plain_callFrames c f hf).1⟩
    · obtain ⟨u, e, hu, he⟩ := h.holder j hj
      refine ⟨u, e, ?_, he⟩
      exact (List.getElem?_append_left (List.getElem?_eq_some_iff.mp hu).1).trans hu
  | step i o =>
    obtain ⟨t, f, k, out, hadv⟩ := Pool.advance_eq_some hstep
    exact h.advance hadv
  | exit q st =>
    obtain ⟨p, -, rfl⟩ := step_exit hstep
    exact ⟨h.keyed, h.duties, h.holder⟩
  | foreign pid =>
    obtain ⟨-, -, rfl⟩ := step_foreign hstep
    exact ⟨h.keyed, h.duties, h.holder⟩
  | restart rs =>
    obtain rfl := Option.some.inj hstep
    exact ⟨keyed_restart rs s.shared, by simp, fun j hj => by cases hj⟩

end Attended

/-! ## Answers -/

/-- The frames that end a call with its answer, at once or after the frames that they push. -/
def Frame.answers : Frame → Bool
  | .ret _ => true
  | .fail _ => true
  | .crit (.createContainer _ _) => true
  | .sys (.newContainer _ _) => true
  | .sys (.runSandbox _) => true
  | .sys (.pullImage _) => true
  | _ => false

/-- The frames of a stack end with one that answers. -/
def Answering (fs : List Frame) : Prop := ∃ f, fs.getLast? = some f ∧ f.answers

/-- A call that has not answered will, and waits for no process. -/
def Answers (t : Thread) : Prop :=
  t.tag.isCall → (t.frames = [] ∧ t.result.isSome ∨ Answering t.frames) ∧
    ∀ id q, .sys (.wait id q) ∉ t.frames

section Answers

variable {self n : Nat} {o : Oracle} {f : Frame} {k fs : List Frame} {w w' : World} {out : Out}
  {t : Thread}

theorem Answering.append (fs : List Frame) (h : Answering k) : Answering (fs ++ k) := by
  obtain ⟨g, hg, hans⟩ := h
  exact ⟨g, by rw [List.getLast?_append, hg, Option.some_or], hans⟩

theorem Answering.tail (h : Answering (f :: k)) : f.answers ∧ k = [] ∨ Answering k := by
  obtain ⟨g, hg, hans⟩ := h
  cases k with
  | nil =>
    obtain rfl := Option.some.inj hg
    exact .inl ⟨hans, rfl⟩
  | cons f' k => exact .inr ⟨g, (List.getLast?_cons_cons).symm.trans hg, hans⟩

/-- A frame that answers ends its task or pushes one that does. -/
theorem exec_answers (hf : f.answers) (hex : exec self n o f w = some (w', out)) :
    (∃ r, out = .halt r) ∨ ∃ fs, out = .next fs ∧ Answering fs := by
  cases f with
  | crit c =>
    cases c with
    | createContainer sb cfg =>
      obtain ⟨-, hex⟩ := exec_crit_eq_some.mp hex
      simp only [Crit.exec] at hex
      repeat' split at hex
      all_goals obtain ⟨-, rfl⟩ := Prod.mk.inj hex
      · exact .inl ⟨_, rfl⟩
      · exact .inr ⟨_, rfl, _, rfl, rfl⟩
      · exact .inl ⟨_, rfl⟩
    | _ => cases hf
  | sys s =>
    cases s with
    | runSandbox cfg | newContainer sb cfg | pullImage ref =>
      simp only [exec_sys, Sys.exec] at hex
      repeat' split at hex
      all_goals
        obtain ⟨-, rfl⟩ := Prod.mk.inj (Option.some.inj hex)
        first
          | exact .inl ⟨_, rfl⟩
          | exact .inr ⟨_, rfl, _, rfl, rfl⟩
    | _ => cases hf
  | ret v | fail e =>
    obtain ⟨-, rfl⟩ := Prod.mk.inj (Option.some.inj hex)
    exact .inl ⟨_, rfl⟩
  | file g | unlock => cases hf

/-- **A call on its way to its answer stays so.** -/
theorem Answers.resume (h : Answers t) (hf : t.frames = f :: k)
    (hex : exec self n o f w = some (w', out)) : Answers (t.resume k out) := by
  intro hcall
  rw [Task.resume_tag] at hcall
  obtain ⟨hans, hwait⟩ := h hcall
  constructor
  · have hans : Answering (f :: k) := by
      rcases hans with ⟨hnil, -⟩ | hans
      · cases hf.symm.trans hnil
      · exact hf ▸ hans
    rcases hans.tail with ⟨hf', rfl⟩ | hk
    · rcases exec_answers hf' hex with ⟨r, rfl⟩ | ⟨fs, rfl, hfs⟩
      · exact .inl ⟨rfl, rfl⟩
      · exact .inr (by rwa [Task.resume_next, List.append_nil])
    · cases out with
      | next fs => exact .inr (hk.append fs)
      | fork tag child => exact .inr hk
      | halt r => exact .inl ⟨rfl, rfl⟩
  · intro id q hmem
    rcases Task.mem_resume hmem with hmem | hmem
    · exact exec_pushes_wait hex hmem
    · exact hwait id q (hf ▸ List.mem_cons_of_mem _ hmem)

theorem Call.answers (c : Call) : Answers ⟨.call c, c.frames, none⟩ := by
  intro _
  cases c <;> exact ⟨.inr ⟨_, rfl, rfl⟩, by simp [Call.frames]⟩

theorem answers_step {s s' : State} {l : Label} (h : ∀ t ∈ s.tasks, Answers t)
    (hstep : step s l = some s') : ∀ t ∈ s'.tasks, Answers t := by
  cases l with
  | invoke c =>
    obtain rfl := Option.some.inj hstep
    intro t ht
    rcases Pool.mem_tasks_start.mp ht with ht | rfl
    · exact h t ht
    · exact c.answers
  | step i o =>
    obtain ⟨t, f, k, out, hadv⟩ := Pool.advance_eq_some hstep
    refine hadv.forall_tasks h (fun ht => ht.resume hadv.frames hadv.exec) (fun _ hu => hu)
      fun _ u hu => ?_
    obtain ⟨id, q, -, rfl⟩ := children_reaper hadv hu
    exact fun hcall => by cases hcall
  | exit q st =>
    obtain ⟨p, -, rfl⟩ := step_exit hstep
    exact h
  | foreign pid =>
    obtain ⟨-, -, rfl⟩ := step_foreign hstep
    exact h
  | restart rs =>
    obtain rfl := Option.some.inj hstep
    intro t ht
    cases ht

end Answers

/-! ## Room for containers -/

/-- How many containers a frame may yet put into the cache. -/
def Frame.creates : Frame → Nat
  | .crit (.createContainer _ _) => 1
  | .sys (.newContainer _ _) => 1
  | .crit (.insertContainer _) => 1
  | _ => 0

/-- How many containers there are or may yet be, without a further call. -/
def roomOf (s : State) : Nat := s.shared.cache.containers.size + s.weight Frame.creates

section Room

variable {self n : Nat} {o : Oracle} {f : Frame} {w w' : World} {out : Out} {d d' : Duty}

/-- An outcome is what it pushes, unless it starts a reaper. -/
theorem exec_weight (wt : Frame → Nat) (hex : exec self n o f w = some (w', out)) :
    out.weight wt = weigh wt out.pushed ∨
      ∃ id q, f = .sys (.spawnReaper id q) ∧ out.weight wt = wt (.sys (.wait id q)) := by
  cases out with
  | next fs => exact .inl rfl
  | fork tag child =>
    obtain ⟨id, q, rfl, -, rfl⟩ := exec_fork hex
    exact .inr ⟨id, q, rfl, by simp⟩
  | halt r => exact .inl rfl

theorem size_put_le (c : Cache) (r : DiskRecord) :
    (c.put r).containers.size ≤ c.containers.size + 1 := by
  cases r with
  | container r => exact Std.ExtTreeMap.size_insert_le
  | sandbox r | image r => exact Nat.le_succ _

theorem size_put_of_replaces {c : Cache} {r : DiskRecord} (h : Replaces c r) :
    (c.put r).containers.size = c.containers.size := by
  obtain ⟨old, hold, -⟩ := h
  cases r with
  | container r =>
    obtain ⟨r₀, hr₀, -⟩ := Option.map_eq_some_iff.mp hold
    have hmem : r.id ∈ c.containers := Std.ExtTreeMap.isSome_getElem?_iff_mem.mp (by rw [hr₀]; rfl)
    exact Std.ExtTreeMap.size_insert.trans (if_pos hmem)
  | sandbox r | image r => rfl

theorem size_erase_le (c : Cache) (ob : Obj) :
    (c.erase ob).containers.size ≤ c.containers.size := by
  cases ob with
  | container id => exact Std.ExtTreeMap.size_erase_le
  | sandbox id | image id => exact Nat.le_refl _

/-- Only an insertion adds a container. -/
theorem Change.size_le (h : Change self o f w w' d d') :
    w'.cache.containers.size ≤ w.cache.containers.size ∨
      (∃ r, f = .crit (.insertContainer r)) ∧
        w'.cache.containers.size ≤ w.cache.containers.size + 1 := by
  cases h with
  | quiet _ hc | write _ _ _ _ _ hc | abandon _ _ _ _ _ hc | rename _ _ _ _ _ _ hc
  | store _ _ _ _ _ hc | unlink _ _ hc | keep _ _ _ hc | release hc | issue _ _ hc =>
    exact .inl (Nat.le_of_eq (by rw [hc]))
  | update r _ hp hc | land r _ hp hc =>
    rw [hc]
    exact .inl (Nat.le_of_eq (size_put_of_replaces hp))
  | insert r _ hf hc =>
    rw [hc]
    cases r with
    | container r => exact .inr ⟨⟨r, hf⟩, size_put_le w.cache (.container r)⟩
    | sandbox r | image r => exact .inl (Nat.le_refl _)
  | drop ob _ _ hc =>
    rw [hc]
    exact .inl (size_erase_le w.cache ob)

theorem weigh_cascade {wt : Frame → Nat} {a b : Nat}
    (hstop : ∀ c, wt (.crit (.stopContainer c 0)) = a)
    (hremove : ∀ c, wt (.crit (.removeContainer c)) = b) (ids : List ContainerId) :
    weigh wt (cascade ids) = ids.length * (a + b) := by
  induction ids with
  | nil => simp [cascade]
  | cons c ids ih =>
    have hcons : cascade (c :: ids) =
        .crit (.stopContainer c 0) :: .crit (.removeContainer c) :: cascade ids := rfl
    rw [hcons, weigh_cons, weigh_cons, hstop, hremove, ih, List.length_cons, Nat.succ_mul]
    omega

/-- A step leads to no more containers than its frame. -/
theorem exec_creates (hex : exec self n o f w = some (w', out)) :
    out.weight Frame.creates ≤ f.creates := by
  rcases exec_weight Frame.creates hex with hout | ⟨id, q, rfl, hout⟩ <;> rw [hout]
  · rcases exec_pushes hex with hnil | hpushes
    · rw [hnil]
      exact Nat.zero_le _
    · generalize out.pushed = fs at hpushes
      cases hpushes with
      | collectContainers id ids =>
        rw [weigh_append, weigh_cascade (fun _ => rfl) (fun _ => rfl)]
        simp [Frame.creates]
      | _ => simp [Frame.creates]
  · exact Nat.zero_le _

/-- **A step of a task makes no room.** -/
theorem Attended.roomOf_le {s s' : State} {i : Nat} {t : Thread} {k : List Frame}
    (h : Attended s) (hadv : Pool.Advance exec s i o s' t f k out) : roomOf s' ≤ roomOf s := by
  obtain ⟨d, hd⟩ := h.duties t hadv.mem
  obtain ⟨d', -, hch⟩ := hd.step hadv.frames h.keyed hadv.exec
  have hweight := hadv.weight_add_le Frame.creates
  have hcreates := exec_creates hadv.exec
  unfold roomOf
  rcases hch.size_le with hsize | ⟨⟨r, rfl⟩, hsize⟩
  · omega
  · obtain ⟨-, hins⟩ := exec_crit_eq_some.mp hadv.exec
    obtain ⟨-, rfl⟩ := Prod.mk.inj hins
    have hone : Frame.creates (.crit (.insertContainer r)) = 1 := rfl
    simp only [Outcome.weight_next, weigh_nil, hone] at hweight
    omega

end Room

/-! ## Weights -/

/-- The weight of a frame where there are at most `n` containers: more than all that it pushes. -/
def Frame.weight (n : Nat) : Frame → Nat
  | .ret _ | .fail _ | .unlock => 1
  | .file f =>
    match f with
    | .write _ _ => 2
    | .rename _ _ _ _ | .unlink _ => 1
  | .sys s =>
    match s with
    | .dupPipes | .insertIo _ _ | .removeIo _ | .kill _ _ => 1
    | .runSandbox _ | .newContainer _ _ | .pullImage _ => 5
    | .wait _ _ => 6
    | .spawnReaper _ _ => 7
    | .spawn _ _ => 13
    | .prepare _ _ _ => 17
  | .crit c =>
    match c with
    | .insertSandbox _ | .insertContainer _ | .insertImage _ | .waitKilled _ => 1
    | .deleteSandbox _ | .dropImage _ => 2
    | .stopSandbox _ | .startIntent _ | .spawnFailed _ _ | .persistPid _ _ | .waitGrace _ _
    | .recordStopped _ _ | .dropContainer _ | .checkImageInUse _ _ => 3
    | .findImage _ | .reap _ _ _ => 4
    | .stopContainer _ _ => 5
    | .createContainer _ _ => 6
    | .removeContainer _ => 9
    | .fetchSandbox _ _ => 18
    | .startContainer _ => 19
    | .collectContainers _ => n * 14 + 3

theorem Frame.weight_mono {m n : Nat} (h : m ≤ n) (f : Frame) : f.weight m ≤ f.weight n := by
  cases f with
  | crit c =>
    cases c with
    | collectContainers id => exact Nat.add_le_add_right (Nat.mul_le_mul_right 14 h) 3
    | _ => exact Nat.le_refl _
  | _ => exact Nat.le_refl _

section Weights

variable {self n m : Nat} {o : Oracle} {f : Frame} {w w' : World} {out : Out}

theorem Frame.weight_pos (m : Nat) (f : Frame) : 0 < f.weight m := by
  cases f with
  | crit c => cases c <;> simp [Frame.weight]
  | file g => cases g <;> simp [Frame.weight]
  | sys s => cases s <;> simp [Frame.weight]
  | unlock | ret v | fail e => exact Nat.one_pos

/-- A wait whose deadline has passed does not go on. -/
theorem exec_waitGrace {id : ContainerId} {pid : Nat} (ho : o.timeout)
    (hex : exec self n o (.crit (.waitGrace id pid)) w = some (w', out)) :
    .crit (.waitGrace id pid) ∉ out.pushed := by
  obtain ⟨-, hex⟩ := exec_crit_eq_some.mp hex
  simp only [Crit.exec, ho, if_true] at hex
  repeat' split at hex
  all_goals
    obtain ⟨-, rfl⟩ := Prod.mk.inj hex
    simp [Outcome.pushed]

theorem exec_waitKilled {id : ContainerId} (ho : o.timeout)
    (hex : exec self n o (.crit (.waitKilled id)) w = some (w', out)) : out.pushed = [] := by
  obtain ⟨-, hex⟩ := exec_crit_eq_some.mp hex
  simp only [Crit.exec, ho, reduceCtorEq, and_false, if_false] at hex
  split at hex <;>
    obtain ⟨-, rfl⟩ := Prod.mk.inj hex <;> rfl

/-- The removal of a sandbox stops no more containers than there are. -/
theorem exec_collectContainers {id : SandboxId}
    (hex : exec self n o (.crit (.collectContainers id)) w = some (w', out)) :
    out.pushed = [] ∨ ∃ ids : List ContainerId, ids.length ≤ w.cache.containers.size ∧
      out.pushed = cascade ids ++ [Frame.crit (.deleteSandbox id)] := by
  obtain ⟨-, hex⟩ := exec_crit_eq_some.mp hex
  simp only [Crit.exec] at hex
  split at hex <;> obtain ⟨-, rfl⟩ := Prod.mk.inj hex
  · exact .inl rfl
  · refine .inr ⟨w.cache.containersOf id, ?_, rfl⟩
    rw [Cache.containersOf, List.length_map, ← Std.ExtTreeMap.length_toList]
    exact List.length_filter_le _ _

/-- **Every frame weighs more than it pushes.** -/
theorem exec_weight_lt (ho : o.timeout) (hm : w.cache.containers.size ≤ m)
    (hex : exec self n o f w = some (w', out)) : out.weight (Frame.weight m) < f.weight m := by
  rcases exec_weight (Frame.weight m) hex with hout | ⟨id, q, rfl, hout⟩ <;> rw [hout]
  · rcases exec_pushes hex with hnil | hpushes
    · rw [hnil]
      exact f.weight_pos m
    · generalize hfs : out.pushed = fs at hpushes
      cases hpushes with
      | collectContainers id ids =>
        rcases exec_collectContainers hex with hnil | ⟨ids', hlen, hids⟩
        · rw [← hfs, hnil]
          exact Frame.weight_pos m _
        · rw [← hfs, hids, weigh_append,
            weigh_cascade (a := 5) (b := 9) (fun _ => rfl) fun _ => rfl]
          have hle : ids'.length * 14 ≤ m * 14 := 
            Nat.mul_le_mul_right 14 (Nat.le_trans hlen hm)
          simp only [weigh_cons, weigh_nil, Frame.weight]
          omega
      | waitGrace id pid =>
        exact absurd (hfs ▸ List.mem_cons_self) (exec_waitGrace ho hex)
      | waitKilled id => cases (exec_waitKilled ho hex).symm.trans hfs
      | _ => simp [Frame.weight]
  · exact Nat.lt_succ_self 6

end Weights

/-! ## Coming to rest -/

/-- The steps of tasks whose deadlines have passed. -/
def works : Label → Prop
  | .step _ o => o.timeout
  | _ => False

/-- Every call has returned, and every reaper has ended or waits for a process that has not. -/
structure Returned (s : State) : Prop where
  free : s.shared.lock = none
  calls : ∀ t ∈ s.tasks, t.tag.isCall → t.frames = [] ∧ t.result.isSome
  reapers : ∀ t ∈ s.tasks, ∀ id q, t.tag = .reaper id q →
    t.frames = [] ∨ t.frames = [.sys (.wait id q)] ∧
      ∀ p st, s.shared.procs[q]? = some p → p.state ≠ .zombie st

/-- What the tasks are like whatever happened. -/
structure Going (s : State) : Prop where
  attended : Attended s
  reapers : Reapers s
  answers : ∀ t ∈ s.tasks, Answers t

section Rest

variable {s s' : State} {l : Label}

theorem Going.step (h : Going s) (hstep : step s l = some s') : Going s' :=
  ⟨h.attended.step hstep, h.reapers.step hstep, answers_step h.answers hstep⟩

theorem going_run {listener : Nat} {blake3 : String → String} {ls : List Label}
    (hrun : run step (init listener blake3) ls = some s) : Going s := by
  refine invariant_run (P := fun _ _ => True) (fun _ _ _ h _ hs => h.step hs) ?_
    (Along.trivial _ ls) hrun
  refine ⟨⟨fun ob r h => ?_, by simp [init], by simp [init]⟩, by simp [init, Reapers],
    by simp [init]⟩
  simp [init] at h

/-- The deadlines have passed and nothing can be spawned. -/
def due : Oracle := { timeout := true, spawn := .error "" }

/-- Where the lock is free, only a wait for a process has to wait. -/
theorem exec_due (self n : Nat) {w : World} (hfree : w.lock = none) (f : Frame) :
    (exec self n due f w).isSome ∨ ∃ id q, f = .sys (.wait id q) ∧
      ∀ p st, w.procs[q]? = some p → p.state ≠ .zombie st := by
  cases f with
  | crit c => exact .inl (by simp [exec, hfree])
  | sys s =>
    cases s with
    | wait id q =>
      by_cases hz : ∃ p st, w.procs[q]? = some p ∧ p.state = .zombie st
      · obtain ⟨p, st, hp, hst⟩ := hz
        exact .inl (by simp [exec_sys, Sys.exec, hp, hst])
      · exact .inr ⟨id, q, rfl, fun p st hp hst => hz ⟨p, st, hp, hst⟩⟩
    | spawn id io => exact .inl rfl
    | _ =>
      simp only [exec_sys, Sys.exec]
      left
      repeat' split
      all_goals rfl
  | file g | unlock | ret v | fail e => exact .inl rfl

/-- **Nothing to do means that every call has returned.** -/
theorem Going.returned (h : Going s) (hquiet : ∀ l, works l → Fake.step s l = none) :
    Returned s := by
  have hstuck : ∀ {i : Nat} {t : Thread} {f k}, s.tasks[i]? = some t → t.frames = f :: k →
      exec i s.tasks.length due f s.shared = none := by
    intro i t f k ht hf
    have hnone := hquiet (.step i due) rfl
    simpa only [Fake.step, Pool.advance, ht, hf, Option.map_eq_none_iff] using hnone
  have hfree : s.shared.lock = none := by
    cases hlock : s.shared.lock with
    | none => rfl
    | some j =>
      obtain ⟨t, d, ht, hst, hd⟩ := h.attended.holder j hlock
      obtain ⟨f, k, hf, hsome⟩ := hst.holds_enabled hd j s.tasks.length due s.shared
      rw [hstuck ht hf] at hsome
      cases hsome
  have hwaits : ∀ t ∈ s.tasks, ∀ f k, t.frames = f :: k → ∃ id q, f = .sys (.wait id q) ∧
      ∀ p st, s.shared.procs[q]? = some p → p.state ≠ .zombie st := by
    intro t ht f k hf
    obtain ⟨i, hi⟩ := List.getElem?_of_mem ht
    rcases exec_due i s.tasks.length hfree f with hsome | hwait
    · rw [hstuck hi hf] at hsome
      cases hsome
    · exact hwait
  refine ⟨hfree, fun t ht hcall => ?_, fun t ht id q htag => ?_⟩
  · obtain ⟨hans, hnowait⟩ := h.answers t ht hcall
    rcases hans with hdone | ⟨f, hf, -⟩
    · exact hdone
    · cases hfs : t.frames with
      | nil => simp [hfs] at hf
      | cons g k =>
        obtain ⟨id, q, rfl, -⟩ := hwaits t ht g k hfs
        exact absurd (hfs ▸ List.mem_cons_self) (hnowait id q)
  · obtain ⟨b, hb⟩ := h.reapers t ht id q htag
    cases hfs : t.frames with
    | nil => exact .inl rfl
    | cons g k =>
      obtain ⟨id', q', rfl, hz⟩ := hwaits t ht g k hfs
      rw [hfs] at hb
      cases hb with
      | wait => exact .inr ⟨rfl, hz⟩

end Rest

/-- **Calls return**, from every reachable state: whatever the interleaving and whatever fails, once
the deadlines have passed the tasks take boundedly many steps, and where none of them can take
another, every call has returned. -/
theorem calls_return {listener : Nat} {blake3 : String → String} {ls : List Label} {s : State}
    (hrun : run step (init listener blake3) ls = some s) : Settles step works s Returned := by
  refine settles_of_variant (I := Going) (fun s => s.weight (Frame.weight (roomOf s))) ?_
    (fun _ h hquiet => h.returned hquiet) (going_run hrun)
  intro s l s' h hl hstep
  refine ⟨h.step hstep, ?_⟩
  cases l with
  | step i o =>
    obtain ⟨t, f, k, out, hadv⟩ := Pool.advance_eq_some hstep
    have hroom := h.attended.roomOf_le hadv
    have hlt := exec_weight_lt (m := roomOf s) hl (Nat.le_add_right _ _) hadv.exec
    exact Nat.lt_of_le_of_lt (Pool.weight_le_weight (Frame.weight_mono hroom))
      (hadv.weight_lt hlt)
  | invoke c | exit q st | foreign pid | restart rs => cases hl

/-- The removal of a sandbox with a container has just been called. -/
def removingRun : List Label := podRun ++ [Label.invoke (.removeSandbox podSandbox)]

/-- The removal comes to its end. -/
theorem calls_return_removingRun : ∃ s, run step (init 1 id) removingRun = some s ∧
    ¬ Returned s ∧ Reaches step works s Returned := by
  have hrun : run step (init 1 id) removingRun =
      some (podState.start (.call (.removeSandbox podSandbox)) _) :=
    run_append_eq_some.mpr ⟨podState, run_podRun, rfl⟩
  refine ⟨_, hrun, fun h => ?_, ?_⟩
  · have hdone := (h.calls _ (Pool.mem_tasks_start.mpr (.inr rfl)) rfl).1
    cases hdone
  · obtain ⟨ls, s', hls, hrun', -, hreturned⟩ := (calls_return hrun).exists_quiet
    exact ⟨ls, s', hls, hrun', hreturned⟩

end LightrCri.Fake

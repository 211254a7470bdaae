import LightrCri.Fake.Origin
import LightrCri.Fake.Refinement

/-!
# The exit codes of containers

The record of a container that has exited has a cause (`ExitCause`): a process that was spawned for
this container has ended with the status that the code and the reason are made of, or the backend
has marked the record itself, with a reason of its own for each mark. It holds over every run, with
any interleaving, failing file operations, kills and reopens, of every record that is cached, stored
or about to be written (`exit_code_explained`). A start that loses a race may still clear the
reason, never the code.
-/

namespace LightrCri.Fake

open Backend Foundations Lifecycle

/-- What makes an exit code and a reason of the container. -/
inductive ExitCause (ended : Nat → Option WaitStatus) (w : World) (id : ContainerId) :
    Int → String → Prop
  /-- A process of the container has ended. -/
  | process (q st) (owns : Owns w id q) (died : ended q = some st) :
    ExitCause ended w id (terminal (.ok st)).1 (terminal (.ok st)).2
  | spawnFailed : ExitCause ended w id (-1) "spawn-failed"
  /-- Stopped without a process. -/
  | stopped (grace : Int) :
    ExitCause ended w id (if 0 < grace then 128 + 15 else 128 + 9) "stopped"
  | lostExit : ExitCause ended w id (-1) "lost-exit-reaped-elsewhere"
  | lostStart : ExitCause ended w id (-1) "lost-start-window"

/-- The exit code of the record has a cause, which gives its reason too, unless a start has cleared
it. -/
def Explained (ended : Nat → Option WaitStatus) (w : World) (r : ContainerRecord) : Prop :=
  r.state = .exited → ∃ reason, ExitCause ended w r.id r.exitCode reason ∧
    (r.reason = reason ∨ r.reason = "")

/-- What a frame knows of the processes of its container. -/
def Frame.informed (ended : Nat → Option WaitStatus) (w : World) : Frame → Prop
  | .sys (.spawnReaper id q) | .sys (.wait id q) => Owns w id q
  | .crit (.reap id _ st) => ∃ q st', Owns w id q ∧ ended q = some st' ∧ st = .ok st'
  | _ => True

/-- The processes that have ended are remembered. -/
def deathsSoFar (ended : Nat → Option WaitStatus) (_ : State) (_ : Label) (s' : State) :
    Nat → Option WaitStatus :=
  deaths ended s'.shared

section Grows

variable {ended ended' : Nat → Option WaitStatus} {w w' : World} {r : ContainerRecord}

theorem ExitCause.grows {id : ContainerId} {code : Int} {reason : String} (ha : Aged w w')
    (hkeep : ∀ q st, ended q = some st → ended' q = some st)
    (h : ExitCause ended w id code reason) : ExitCause ended' w' id code reason := by
  cases h with
  | process q st owns died => exact .process q st (ha.owns owns) (hkeep q st died)
  | spawnFailed => exact .spawnFailed
  | stopped grace => exact .stopped grace
  | lostExit => exact .lostExit
  | lostStart => exact .lostStart

theorem Explained.grows (ha : Aged w w') (hkeep : ∀ q st, ended q = some st → ended' q = some st)
    (h : Explained ended w r) : Explained ended' w' r := by
  intro hexited
  obtain ⟨reason, hcause, hreason⟩ := h hexited
  exact ⟨reason, hcause.grows ha hkeep, hreason⟩

theorem Frame.informed.grows {f : Frame} (ha : Aged w w')
    (hkeep : ∀ q st, ended q = some st → ended' q = some st) (h : f.informed ended w) :
    f.informed ended' w' := by
  cases f with
  | sys s =>
    cases s with
    | spawnReaper id q | wait id q => exact ha.owns h
    | _ => exact True.intro
  | crit c =>
    cases c with
    | reap id finished st =>
      obtain ⟨q, st', howns, hended, hst⟩ := h
      exact ⟨q, st', ha.owns howns, hkeep q st' hended, hst⟩
    | _ => exact True.intro
  | _ => exact True.intro

end Grows

/-! ## The steps -/

/-- The kill of the listener leaves the processes with their owners. -/
theorem restart_aged (rs : Restart) (w : World) : Aged w (w.restart rs) := by
  intro q p hp
  refine ⟨p.orphan, ?_, rfl, ?_⟩
  · change (w.procs.map Proc.orphan)[q]? = some p.orphan
    rw [List.getElem?_map, hp, Option.map_some]
  · cases hst : p.state with
    | zombie st => exact .inr (.inr (by simp [Proc.orphan, hst]))
    | alive | gone => exact .inl (by simp [Proc.orphan, hst])

theorem any_step_aged {s s' : State} {l : Label} (hstep : step s l = some s') :
    Aged s.shared s'.shared := by
  cases l with
  | restart rs =>
    obtain rfl := Option.some.inj hstep
    exact restart_aged rs s.shared
  | _ => exact step_aged rfl hstep

section Exec

variable {ended : Nat → Option WaitStatus} {self n : Nat} {o : Oracle} {f g : Frame}
  {w w' : World} {out : Out}

/-- A wait goes on with the status of its process. -/
theorem exec_wait {id : ContainerId} {q : Nat}
    (hex : exec self n o (.sys (.wait id q)) w = some (w', out)) :
    ∃ p st, w.procs[q]? = some p ∧ p.state = .zombie st ∧
      out = .next [.sys (.removeIo id), .crit (.reap id o.clock (.ok st))] := by
  simp only [exec_sys, Sys.exec] at hex
  split at hex
  · cases hex
  · rename_i p hp
    split at hex
    · rename_i st hst
      obtain ⟨-, rfl⟩ := Prod.mk.inj (Option.some.inj hex)
      exact ⟨p, st, hp, hst, rfl⟩
    · cases hex

/-- Only a wait pushes a reaping. -/
theorem exec_reaps {id : ContainerId} {finished : Int} {st : Except String WaitStatus}
    (hex : exec self n o f w = some (w', out)) (hg : .crit (.reap id finished st) ∈ out.pushed) :
    ∃ q, f = .sys (.wait id q) := by
  rcases exec_pushes hex with h | h
  · rw [h] at hg
    cases hg
  · generalize out.pushed = fs at h hg
    cases h with
    | collectContainers =>
      have hnot := forall_mem_collect (P := fun g => g ≠ .crit (.reap id finished st)) (by simp)
        (by simp) (by simp) _ hg
      exact absurd rfl hnot
    | wait id' q t st' =>
      obtain ⟨rfl, -, -⟩ : id = id' ∧ finished = t ∧ st = st' := by simpa using hg
      exact ⟨q, rfl⟩
    | _ => simp at hg

theorem exec_pushes_wait {id : ContainerId} {q : Nat} (hex : exec self n o f w = some (w', out))
    (hg : .sys (.wait id q) ∈ out.pushed) : False := by
  rcases exec_pushes hex with h | h
  · rw [h] at hg
    cases hg
  · generalize out.pushed = fs at h hg
    cases h with
    | collectContainers =>
      have hnot := forall_mem_collect (P := fun g => g ≠ .sys (.wait id q)) (by simp) (by simp)
        (by simp) _ hg
      exact absurd rfl hnot
    | _ => simp at hg

/-- **What a step pushes is informed.** -/
theorem exec_informed (hd : Deaths ended w) (hf : f.informed ended w)
    (hex : exec self n o f w = some (w', out)) (hg : g ∈ out.pushed) :
    g.informed (deaths ended w') w' := by
  have ha := exec_aged hex
  obtain ⟨-, hkeep⟩ := hd.step ha
  cases g with
  | sys s =>
    cases s with
    | spawnReaper id q => exact exec_spawns hex hg
    | wait id q => exact (exec_pushes_wait hex hg).elim
    | _ => exact True.intro
  | crit c =>
    cases c with
    | reap id finished st =>
      obtain ⟨q, rfl⟩ := exec_reaps hex hg
      obtain ⟨p, st', hp, hst, rfl⟩ := exec_wait hex
      obtain ⟨-, rfl⟩ : finished = o.clock ∧ st = .ok st' := by simpa [Outcome.pushed] using hg
      exact ⟨q, st', ha.owns hf, hkeep q st' (hd.zombie q p st' hp hst), rfl⟩
    | _ => exact True.intro
  | _ => exact True.intro

/-- **A record that a step makes is explained.** -/
theorem Makes.explained {r : ContainerRecord} (hk : w.cache.Keyed) (hf : f.informed ended w)
    (hold : ∀ (id : ContainerId) r₀, w.cache.containers[id]? = some r₀ → Explained ended w r₀)
    (h : Makes o w f (.container r)) : Explained ended w r := by
  generalize hd : DiskRecord.container r = d at h
  cases h with
  | born _ _ new =>
    subst hd
    cases f with
    | sys s =>
      cases s with
      | newContainer sb cfg =>
        obtain rfl := DiskRecord.container.inj (Option.some.inj new)
        intro hexited
        cases hexited
      | runSandbox cfg =>
        obtain ⟨net, -, hno⟩ := Option.map_eq_some_iff.mp new
        cases hno
      | pullImage ref =>
        simp only [Frame.born] at new
        split at new <;> cases new
      | _ => cases new
    | _ => cases new
  | stopSandbox => cases hd
  | startIntent id r₀ cached =>
    obtain rfl := DiskRecord.container.inj hd
    intro hexited
    cases hexited
  | spawnFailed id e r₀ cached =>
    obtain rfl := DiskRecord.container.inj hd
    exact fun _ => ⟨_, .spawnFailed, .inl rfl⟩
  | persistPid id pid r₀ cached =>
    obtain rfl := DiskRecord.container.inj hd
    intro hexited
    obtain ⟨reason, hcause, -⟩ := hold id r₀ cached hexited
    exact ⟨reason, hcause, .inr rfl⟩
  | recordStopped id grace r₀ cached =>
    obtain rfl := DiskRecord.container.inj hd
    exact fun _ => ⟨_, .stopped grace, .inl rfl⟩
  | reap id finished st r₀ cached =>
    obtain rfl := DiskRecord.container.inj hd
    obtain ⟨q, st', howns, hended, rfl⟩ := hf
    have hid : r₀.id = id := Obj.container.inj (hk _ _ (Cache.get_container_eq_some cached))
    exact fun _ => ⟨_, .process q st' (hid ▸ howns) hended, .inl rfl⟩

end Exec

theorem recover_explained {ended : Nat → Option WaitStatus} {w : World} {r : ContainerRecord}
    (alive : Nat → Bool) (now : Int) (h : Explained ended w r) :
    Explained ended w (recover alive now r) := by
  unfold recover
  split_ifs with hrunning
  · exact fun _ => ⟨_, .lostExit, .inl rfl⟩
  · exact fun _ => ⟨_, .lostStart, .inl rfl⟩
  · exact h
  · exact h

/-! ## The invariant -/

/-- What the tasks know of the processes, and the causes of the exits. -/
structure ExitsKnown (ended : Nat → Option WaitStatus) (s : State) : Prop where
  deaths : Deaths ended s.shared
  keyed : s.shared.cache.Keyed
  informed : ∀ t ∈ s.tasks, ∀ f ∈ t.frames, f.informed ended s.shared
  explained : ∀ r, Known s (.container r) → Explained ended s.shared r

section Step

variable {ended : Nat → Option WaitStatus} {s s' : State} {l : Label}

theorem ExitsKnown.tasks_step (h : ExitsKnown ended s) (hstep : step s l = some s') :
    ∀ t ∈ s'.tasks, ∀ f ∈ t.frames, f.informed (Lifecycle.deaths ended s'.shared) s'.shared := by
  have ha := any_step_aged hstep
  obtain ⟨-, hkeep⟩ := h.deaths.step ha
  have hold : ∀ t ∈ s.tasks, ∀ f ∈ t.frames,
      f.informed (Lifecycle.deaths ended s'.shared) s'.shared := fun t ht f hf =>
    (h.informed t ht f hf).grows ha hkeep
  cases l with
  | invoke c =>
    obtain rfl := Option.some.inj hstep
    intro t ht f hf
    rcases Pool.mem_tasks_start.mp ht with ht | rfl
    · exact hold t ht f hf
    · cases c <;> simp only [Call.frames, List.mem_cons, List.not_mem_nil, or_false] at hf
      all_goals rcases hf with rfl | rfl | rfl <;> exact True.intro
  | step i o =>
    obtain ⟨t, f, k, out, hadv⟩ := Pool.advance_eq_some hstep
    have hf : f ∈ t.frames := by
      rw [hadv.frames]
      exact List.mem_cons_self
    intro u hu g hg
    rcases hadv.mem_cases hu with rfl | hu | hu
    · rcases Task.mem_resume hg with hg | hg
      · exact exec_informed h.deaths (h.informed t hadv.mem f hf) hadv.exec hg
      · refine hold t hadv.mem g ?_
        rw [hadv.frames]
        exact List.mem_cons_of_mem _ hg
    · exact hold u hu g hg
    · obtain ⟨id, q, rfl, rfl⟩ := children_reaper hadv hu
      obtain rfl := List.mem_singleton.mp hg
      exact ha.owns (h.informed t hadv.mem _ hf)
  | exit q st =>
    obtain ⟨p, -, rfl⟩ := step_exit hstep
    exact hold
  | foreign pid =>
    obtain ⟨-, -, rfl⟩ := step_foreign hstep
    exact hold
  | restart rs =>
    obtain rfl := Option.some.inj hstep
    intro t ht
    cases ht

/-- **The step of the invariant.** -/
theorem ExitsKnown.step (h : ExitsKnown ended s) (hl : ReadsDisk s l)
    (hstep : Fake.step s l = some s') : ExitsKnown (deathsSoFar ended s l s') s' := by
  have ha := any_step_aged hstep
  obtain ⟨hdeaths, hkeep⟩ := h.deaths.step ha
  refine ⟨hdeaths, keyed_step h.keyed hstep, h.tasks_step hstep, fun r hr => ?_⟩
  suffices hbefore : Explained ended s.shared r from hbefore.grows ha hkeep
  rcases known_step hl hstep hr with hr | ⟨i, o, f, rfl, htop, hm⟩ | ⟨rs, r₀, rfl, hr₀, heq⟩
  · exact h.explained r hr
  · obtain ⟨t, g, k, out, hadv⟩ := Pool.advance_eq_some hstep
    obtain rfl := Option.some.inj (hadv.top_eq.symm.trans htop)
    have hf : g ∈ t.frames := by
      rw [hadv.frames]
      exact List.mem_cons_self
    refine hm.explained h.keyed (h.informed t hadv.mem g hf) fun id r₀ cached => ?_
    exact h.explained r₀ (.cached _ (Cache.get_container_eq_some cached))
  · obtain rfl := DiskRecord.container.inj heq
    exact recover_explained _ _ (h.explained r₀ hr₀)

theorem exitsKnown_run {listener : Nat} {blake3 : String → String} {ls : List Label}
    (hreads : Along Fake.step ReadsDisk (init listener blake3) ls)
    (hrun : run (withHistory Fake.step deathsSoFar) (fun _ => none, init listener blake3) ls =
      some (ended, s)) : ExitsKnown ended s := by
  refine invariant_run (I := fun p : (Nat → Option WaitStatus) × State => ExitsKnown p.1 p.2)
    ?_ ?_ (hreads.withHistory _) hrun
  · rintro p l p' hp hl hstep
    obtain ⟨hs, hh⟩ := withHistory_eq_some.mp hstep
    exact hh ▸ hp.step hl hs
  · refine ⟨⟨by simp [init], by simp⟩, fun ob r h => ?_, fun t ht => ?_, fun r hr => ?_⟩
    · simp [init] at h
    · cases ht
    · exact absurd hr (not_known_init listener blake3)

end Step

/-- **Exit codes are explained**, over every run: a record of a container that has exited, wherever
the backend keeps it, shows the end of a process that was spawned for this container, or one of the
marks of the backend; and so does the status of the container. -/
theorem exit_code_explained {listener : Nat} {blake3 : String → String} {ls : List Label}
    {ended : Nat → Option WaitStatus} {s : State}
    (hreads : Along step ReadsDisk (init listener blake3) ls)
    (hrun : run (withHistory step deathsSoFar) (fun _ => none, init listener blake3) ls =
      some (ended, s)) :
    (∀ r, Known s (.container r) → r.state = .exited → ∃ reason,
      ExitCause ended s.shared r.id r.exitCode reason ∧ (r.reason = reason ∨ r.reason = "")) ∧
      ∀ id st, containerStatus s.shared.cache id = .ok st → st.state = .exited → ∃ reason,
        ExitCause ended s.shared id st.exitCode reason := by
  have h := exitsKnown_run hreads hrun
  refine ⟨h.explained, fun id st hst hexited => ?_⟩
  obtain ⟨r, hr⟩ : ∃ r, s.shared.cache.containers[id]? = some r := by
    cases hr : s.shared.cache.containers[id]? with
    | some r => exact ⟨r, rfl⟩
    | none => simp [containerStatus, hr] at hst
  have hid : r.id = id := Obj.container.inj (h.keyed _ _ (Cache.get_container_eq_some hr))
  simp only [containerStatus, hr, Except.ok.injEq] at hst
  subst hst
  obtain ⟨reason, hcause, -⟩ :=
    h.explained r (.cached _ (Cache.get_container_eq_some hr)) hexited
  exact ⟨reason, hid ▸ hcause⟩

/-- A container whose process has ended with status 3. -/
def endedRun : List Label :=
  startedRun ++ Label.exit 0 (.exited 3) :: steps 3 6

theorem exit_code_explained_endedRun : ∃ ended s st reason,
    run (withHistory step deathsSoFar) (fun _ => none, init 1 id) endedRun = some (ended, s) ∧
      containerStatus s.shared.cache podContainer = .ok st ∧ st.exitCode = 3 ∧
        ExitCause ended s.shared podContainer 3 reason := by
  have hrun : (run (withHistory step deathsSoFar) (fun _ => none, init 1 id) endedRun).any fun p =>
      (containerStatus p.2.shared.cache podContainer).toOption.any fun st =>
        st.state = .exited ∧ st.exitCode = 3 := by decide
  obtain ⟨⟨ended, s⟩, hs, hend⟩ := (Option.any_eq_true _ _).mp hrun
  obtain ⟨st, hst, hend⟩ := (Option.any_eq_true _ _).mp hend
  obtain ⟨hexited, hcode⟩ := of_decide_eq_true hend
  have hok : containerStatus s.shared.cache podContainer = .ok st := toOption_eq_some hst
  obtain ⟨reason, hcause⟩ := (exit_code_explained (by decide) hs).2 _ _ hok hexited
  exact ⟨ended, s, st, reason, hs, hok, hcode, hcode ▸ hcause⟩

end LightrCri.Fake

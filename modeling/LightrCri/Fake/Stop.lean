import LightrCri.Fake.Launch
import LightrCri.Fake.Ledger
import LightrCri.Fake.Status

/-!
# Stop

`stop_container` of a container with a process signals the process and waits for its reaper, which
alone records the exit. A listener that has reopened the state root has no reaper for a container
it found alive, so stop kills the process, waits in vain, and returns Ok with the record still
Running (`stopped_still_running`). When a reaper of this listener watches the process at the time
stop reads the record, the record is not Running once stop has returned Ok (`stop_stops`), as long
as reapers are in time and no start intent of the container is written meanwhile.
-/

namespace LightrCri.Fake

open Backend Foundations

/-! ## Conditions -/

/-- The frame leads a reaper of the container to its critical section, or is that section. -/
def Frame.reaps (id : ContainerId) : Frame → Bool
  | .sys (.wait id' _) => id' = id
  | .crit (.reap id' _ _) => id' = id
  | _ => false

/-- The task is the reaper of a process of the container that `P` holds for, and has yet to record
the exit. -/
def Watcher (id : ContainerId) (P : Nat → Bool) (t : Thread) : Bool :=
  match t.tag with
  | .reaper id' q => id' = id && t.frames.any (Frame.reaps id) && P q
  | _ => false

/-- The process `q` has the number `pid`. -/
def World.hasPid (w : World) (pid q : Nat) : Bool := w.procs[q]?.any fun p => p.pid = pid

/-- The process `q` has ended. -/
def World.hasEnded (w : World) (q : Nat) : Bool := w.procs[q]?.any fun p => p.state ≠ .alive

/-- Task `i` enters `stop_container` with a Running record that has a process only when a reaper
watches the process. -/
def watched (id : ContainerId) (i : Nat) (s : State) : Label → Bool
  | .step j _ =>
    match s.top j with
    | some (.crit (.stopContainer id' _)) =>
      j ≠ i || id' ≠ id || s.shared.cache.containers[id]?.all fun r =>
        r.state ≠ .running || r.pid = 0 || s.tasks.any (Watcher id (s.shared.hasPid r.pid))
    | _ => true
  | _ => true

/-- The wait for a killed process runs out only when no reaper of an ended process of the
container is on its way. -/
def reapersInTime (id : ContainerId) (s : State) : Label → Bool
  | .step j o =>
    match s.top j with
    | some (.crit (.waitKilled id')) =>
      id' ≠ id || !o.timeout || !s.tasks.any (Watcher id s.shared.hasEnded)
    | _ => true
  | _ => true

/-- No start intent of the container is written. -/
def noIntent (id : ContainerId) (s : State) : Label → Bool
  | .step j _ =>
    match s.top j with
    | some (.crit (.startIntent id')) => id' ≠ id
    | _ => true
  | _ => true

/-! ## Watchers -/

section Watchers

variable {id : ContainerId} {P : Nat → Bool} {s s' : State} {i : Nat} {t : Thread} {o : Oracle}
  {f : Frame} {k : List Frame} {out : Out}

theorem watcher_eq_true {t : Thread} :
    Watcher id P t ↔ ∃ q, t.tag = .reaper id q ∧ t.frames.any (Frame.reaps id) ∧ P q := by
  unfold Watcher
  split
  · rename_i id' q htag
    rw [htag]
    constructor
    · intro h
      simp only [Bool.and_eq_true, decide_eq_true_eq] at h
      exact ⟨q, by rw [h.1.1], h.1.2, h.2⟩
    · rintro ⟨q', hq, hf, hP⟩
      obtain ⟨rfl, rfl⟩ := Tag.reaper.inj hq
      simp only [Bool.and_eq_true, decide_eq_true_eq]
      exact ⟨⟨trivial, hf⟩, hP⟩
  · rename_i htag
    constructor
    · intro h
      cases h
    · rintro ⟨q, hq, -⟩
      exact absurd hq (htag id q)

/-- A reaper still has to record the exit after its step, or the container is not Running. -/
theorem ReaperTask.pending {q self n : Nat} {b : Bool} {w w' : World}
    (h : ReaperTask id q b t.frames) (hp : t.frames.any (Frame.reaps id)) (hf : t.frames = f :: k)
    (hex : exec self n o f w = some (w', out)) :
    (t.resume k out).frames.any (Frame.reaps id) ∨ w'.isRunning id = false := by
  rw [hf] at h hp
  cases h with
  | wait =>
    simp only [exec_sys, Sys.exec] at hex
    split at hex
    · simp at hex
    · split at hex
      · obtain ⟨-, rfl⟩ := Prod.mk.inj (Option.some.inj hex)
        exact Or.inl (by simp [Frame.reaps])
      · simp at hex
  | removeIo t' st =>
    obtain ⟨-, rfl⟩ := Prod.mk.inj (Option.some.inj hex)
    exact Or.inl (by simp [Frame.reaps])
  | reap t' st =>
    right
    obtain ⟨-, hex⟩ := exec_crit_eq_some.mp hex
    simp only [Crit.exec] at hex
    rw [World.isRunning_eq_false]
    intro r' hr'
    split at hex
    · rename_i hr
      obtain ⟨rfl, -⟩ := Prod.mk.inj hex
      rw [hr] at hr'
      cases hr'
    · rename_i r hr
      split at hex
      · obtain ⟨rfl, -⟩ := Prod.mk.inj hex
        simp only [World.setContainer, containers_setContainer, if_true,
          Option.some.injEq] at hr'
        simp [← hr', ContainerRecord.toExited]
      · rename_i hrun
        obtain ⟨rfl, -⟩ := Prod.mk.inj hex
        obtain rfl := Option.some.inj (hr.symm.trans hr')
        exact hrun
  | write | rename | unlock => simp [Frame.reaps] at hp

/-- **A watcher stays** until the container is not Running. -/
theorem watcher_advance {Q : Nat → Bool} (hreap : Reapers s)
    (hadv : Pool.Advance exec s i o s' t f k out) (hPQ : ∀ q, P q → Q q)
    (h : s.tasks.any (Watcher id P)) :
    s'.tasks.any (Watcher id Q) ∨ s'.shared.isRunning id = false := by
  obtain ⟨u, hu, hw⟩ := List.any_eq_true.mp h
  obtain ⟨q, htag, hp, hP⟩ := watcher_eq_true.mp hw
  obtain ⟨j, hj⟩ := List.getElem?_of_mem hu
  by_cases hji : j = i
  · subst hji
    obtain rfl : t = u := Option.some.inj (hadv.task.symm.trans hj)
    obtain ⟨b, hb⟩ := hreap t hu id q htag
    refine (hb.pending hp hadv.frames hadv.exec).imp_left fun hp' => ?_
    refine List.any_eq_true.mpr ⟨_, List.mem_of_getElem? hadv.getElem?_self, ?_⟩
    exact watcher_eq_true.mpr ⟨q, by rw [Task.resume_tag, htag], hp', hPQ q hP⟩
  · left
    refine List.any_eq_true.mpr ⟨u, List.mem_of_getElem? (hadv.getElem?_of_some hji hj), ?_⟩
    exact watcher_eq_true.mpr ⟨q, htag, hp, hPQ q hP⟩

end Watchers

theorem ProcsKept.hasPid {w w' : World} {pid q : Nat} (h : ProcsKept w w')
    (hq : w.hasPid pid q) : w'.hasPid pid q := by
  obtain ⟨p, hp, hpid⟩ := (Option.any_eq_true _ _).mp hq
  obtain ⟨p', hp', hpid', -, -⟩ := h q p hp
  exact (Option.any_eq_true _ _).mpr
    ⟨p', hp', decide_eq_true (hpid'.trans (of_decide_eq_true hpid))⟩

theorem ProcsKept.hasEnded {w w' : World} {q : Nat} (h : ProcsKept w w') (hq : w.hasEnded q) :
    w'.hasEnded q := by
  obtain ⟨p, hp, hstate⟩ := (Option.any_eq_true _ _).mp hq
  obtain ⟨p', hp', -, -, himp⟩ := h q p hp
  exact (Option.any_eq_true _ _).mpr
    ⟨p', hp', decide_eq_true fun ha => of_decide_eq_true hstate (himp ha)⟩

/-- SIGKILL ends the process of that number. -/
theorem hasEnded_kill {w : World} {pid q : Nat} (h : w.hasPid pid q) :
    (w.kill pid SIGKILL).hasEnded q := by
  obtain ⟨p', hp', hpid⟩ := (Option.any_eq_true _ _).mp ((procsKept_kill w pid SIGKILL).hasPid h)
  exact (Option.any_eq_true _ _).mpr
    ⟨p', hp', decide_eq_true (kill_ends hp' (of_decide_eq_true hpid))⟩

/-! ## The stages of a stop -/

/-- What a `stop_container` has established so far. -/
inductive StopPhase
  /-- It has not read the record, or it has read one without a process. -/
  | reading
  /-- It has read the process number `pid`. -/
  | signalling (pid : Nat)
  /-- It has sent SIGKILL. -/
  | killed
  /-- It has seen, or made, the record not Running. -/
  | settled

/-- The stacks of a `stop_container`, with the result once it has ended. -/
inductive StopTask (id : ContainerId) : StopPhase → List Frame → Option Result → Prop
  | read (grace) : StopTask id .reading [.crit (.stopContainer id grace), .ret .unit] none
  | record (grace) : StopTask id .reading [.crit (.recordStopped id grace), .ret .unit] none
  | term (pid) : StopTask id (.signalling pid)
      [.sys (.kill pid SIGTERM), .crit (.waitGrace id pid), .ret .unit] none
  | grace (pid) : StopTask id (.signalling pid) [.crit (.waitGrace id pid), .ret .unit] none
  | kill (pid) : StopTask id (.signalling pid)
      [.sys (.kill pid SIGKILL), .crit (.waitKilled id), .ret .unit] none
  | wait : StopTask id .killed [.crit (.waitKilled id), .ret .unit] none
  | write (r) : StopTask id .settled [.file (.write r true), .ret .unit] none
  | rename (p n r) : StopTask id .settled [.file (.rename p n r true), .ret .unit] none
  | ret : StopTask id .settled [.ret .unit] none
  | done (res) : StopTask id .settled [] (some res)

/-- What a step of the stop knows of the record and does to the processes. -/
inductive StopStep (id : ContainerId) (o : Oracle) (f : Frame) (w w' : World) :
    StopPhase → StopPhase → Prop
  | quiet (ph) (cache : w'.cache = w.cache) (procs : ProcsKept w w') : StopStep id o f w w' ph ph
  | signal (r) (grace) (frame : f = .crit (.stopContainer id grace))
    (present : w.cache.containers[id]? = some r) (running : r.state = .running)
    (pos : 0 < r.pid) (same : w' = w) : StopStep id o f w w' .reading (.signalling r.pid)
  | kill (pid) (killed : w' = w.kill pid SIGKILL) : StopStep id o f w w' (.signalling pid) .killed
  | settle (ph) (settled : w'.isRunning id = false) : StopStep id o f w w' ph .settled
  | giveUp (frame : f = .crit (.waitKilled id)) (late : o.timeout) (same : w' = w) :
    StopStep id o f w w' .killed .settled

theorem isRunning_of_ne {w : World} {id : ContainerId} {r : ContainerRecord}
    (hr : w.cache.containers[id]? = some r) (hrun : ¬ r.state = .running) :
    w.isRunning id = false := by
  simp [World.isRunning, hr, hrun]

theorem isRunning_of_none {w : World} {id : ContainerId}
    (hr : w.cache.containers[id]? = none) : w.isRunning id = false := by
  simp [World.isRunning, hr]

/-- **The steps of a stop.** -/
theorem StopTask.step {id : ContainerId} {ph : StopPhase} {t : Thread} {f : Frame}
    {k : List Frame} {self n : Nat} {o : Oracle} {w w' : World} {out : Out}
    (h : StopTask id ph t.frames t.result) (hf : t.frames = f :: k)
    (hex : exec self n o f w = some (w', out)) :
    ∃ ph', StopTask id ph' (t.resume k out).frames (t.resume k out).result ∧
      StopStep id o f w w' ph ph' := by
  rw [hf] at h
  generalize hres : t.result = res at h
  cases h with
  | read grace =>
    obtain ⟨-, hex⟩ := exec_crit_eq_some.mp hex
    simp only [Crit.exec] at hex
    split at hex
    · rename_i hr
      obtain ⟨rfl, rfl⟩ := Prod.mk.inj hex
      simp only [Task.resume, hres]
      exact ⟨_, .ret, .settle _ (isRunning_of_none hr)⟩
    · rename_i r hr
      split at hex
      · rename_i hrun
        split at hex
        · rename_i hpos
          split at hex <;> obtain ⟨rfl, rfl⟩ := Prod.mk.inj hex <;> simp only [Task.resume, hres]
          · exact ⟨_, .term r.pid, .signal r grace rfl hr hrun hpos rfl⟩
          · exact ⟨_, .kill r.pid, .signal r grace rfl hr hrun hpos rfl⟩
        · obtain ⟨rfl, rfl⟩ := Prod.mk.inj hex
          simp only [Task.resume, hres]
          exact ⟨_, .record grace, .quiet _ rfl (.refl _)⟩
      · rename_i hrun
        obtain ⟨rfl, rfl⟩ := Prod.mk.inj hex
        simp only [Task.resume, hres]
        exact ⟨_, .ret, .settle _ (isRunning_of_ne hr hrun)⟩
  | record grace =>
    obtain ⟨-, hex⟩ := exec_crit_eq_some.mp hex
    simp only [Crit.exec] at hex
    split at hex
    · rename_i hr
      obtain ⟨rfl, rfl⟩ := Prod.mk.inj hex
      simp only [Task.resume, hres]
      exact ⟨_, .ret, .settle _ (isRunning_of_none hr)⟩
    · rename_i r hr
      split at hex
      · obtain ⟨rfl, rfl⟩ := Prod.mk.inj hex
        simp only [Task.resume, hres]
        refine ⟨_, .write _, .settle _ ?_⟩
        simp [World.isRunning, World.setContainer, containers_setContainer,
          ContainerRecord.toExited]
      · rename_i hrun
        obtain ⟨rfl, rfl⟩ := Prod.mk.inj hex
        simp only [Task.resume, hres]
        exact ⟨_, .ret, .settle _ (isRunning_of_ne hr hrun)⟩
  | term pid =>
    obtain ⟨rfl, rfl⟩ := Prod.mk.inj (Option.some.inj hex)
    simp only [Task.resume, hres]
    exact ⟨_, .grace pid, .quiet _ rfl (procsKept_kill w pid SIGTERM)⟩
  | grace pid =>
    obtain ⟨-, hex⟩ := exec_crit_eq_some.mp hex
    simp only [Crit.exec] at hex
    split at hex
    · rename_i hr
      obtain ⟨rfl, rfl⟩ := Prod.mk.inj hex
      simp only [Task.resume, hres]
      exact ⟨_, .ret, .settle _ (isRunning_of_none hr)⟩
    · rename_i r hr
      split at hex
      · split at hex <;> obtain ⟨rfl, rfl⟩ := Prod.mk.inj hex <;> simp only [Task.resume, hres]
        · exact ⟨_, .kill pid, .quiet _ rfl (.refl _)⟩
        · exact ⟨_, .grace pid, .quiet _ rfl (.refl _)⟩
      · rename_i hrun
        obtain ⟨rfl, rfl⟩ := Prod.mk.inj hex
        simp only [Task.resume, hres]
        exact ⟨_, .ret, .settle _ (isRunning_of_ne hr hrun)⟩
  | kill pid =>
    obtain ⟨rfl, rfl⟩ := Prod.mk.inj (Option.some.inj hex)
    simp only [Task.resume, hres]
    exact ⟨_, .wait, .kill pid rfl⟩
  | wait =>
    obtain ⟨-, hex⟩ := exec_crit_eq_some.mp hex
    simp only [Crit.exec] at hex
    split at hex
    · rename_i hr
      obtain ⟨rfl, rfl⟩ := Prod.mk.inj hex
      simp only [Task.resume, hres]
      exact ⟨_, .ret, .settle _ (isRunning_of_none hr)⟩
    · rename_i r hr
      split at hex
      · obtain ⟨rfl, rfl⟩ := Prod.mk.inj hex
        simp only [Task.resume, hres]
        exact ⟨_, .wait, .quiet _ rfl (.refl _)⟩
      · rename_i hcond
        obtain ⟨rfl, rfl⟩ := Prod.mk.inj hex
        simp only [Task.resume, hres]
        by_cases hrun : r.state = .running
        · have hlate : o.timeout = true := by simpa [hrun] using hcond
          exact ⟨_, .ret, .giveUp rfl hlate rfl⟩
        · exact ⟨_, .ret, .settle _ (isRunning_of_ne hr hrun)⟩
  | write r =>
    obtain ⟨hc, hp⟩ := FileOp.exec_cache_procs o w (.write r true)
    obtain ⟨rfl, rfl⟩ := exec_file_eq_some.mp hex
    rcases FileOp.exec_write_cases o w r true with ⟨-, he⟩ | ⟨-, -, e, he⟩ <;> rw [he]
    · simp only [Task.resume, hres]
      exact ⟨_, .rename _ _ _, .quiet _ hc (.of_eq hp)⟩
    · exact ⟨_, .done _, .quiet _ hc (.of_eq hp)⟩
  | rename p m r =>
    obtain ⟨hc, hp⟩ := FileOp.exec_cache_procs o w (.rename p m r true)
    obtain ⟨rfl, rfl⟩ := exec_file_eq_some.mp hex
    rcases FileOp.exec_rename_cases o w p m r true with ⟨-, he⟩ | ⟨-, -, e, he⟩ <;> rw [he]
    · simp only [Task.resume, hres]
      exact ⟨_, .ret, .quiet _ hc (.of_eq hp)⟩
    · exact ⟨_, .done _, .quiet _ hc (.of_eq hp)⟩
  | ret =>
    obtain ⟨rfl, rfl⟩ := Prod.mk.inj (Option.some.inj hex)
    exact ⟨_, .done _, .quiet _ rfl (.refl _)⟩

/-! ## The invariant -/

/-- Every container that is going to be inserted is Created. -/
def Newborn (s : State) : Prop := ∀ t ∈ s.tasks, ∀ f ∈ t.frames, f.newborn

theorem callFrames_newborn (c : Call) : ∀ f ∈ c.frames, f.newborn := by
  cases c <;> simp [Call.frames, Frame.newborn]

theorem Newborn.step {s s' : State} {l : Label} (h : Newborn s) (hstep : step s l = some s') :
    Newborn s' := by
  cases l with
  | invoke c =>
    obtain rfl := Option.some.inj hstep
    intro t ht
    rcases Pool.mem_tasks_start.mp ht with ht | rfl
    · exact h t ht
    · exact callFrames_newborn c
  | step i o =>
    obtain ⟨t, f, k, out, hadv⟩ := Pool.advance_eq_some hstep
    refine hadv.forall_tasks h (fun ht g hg => ?_) (fun _ hu => hu) fun _ u hu g hg => ?_
    · rcases Task.mem_resume hg with hg | hg
      · exact exec_newborn hadv.exec g hg
      · exact ht g (by simp [hadv.frames, hg])
    · obtain ⟨_, _, -, rfl⟩ := children_reaper hadv hu
      obtain rfl := List.mem_singleton.mp hg
      exact True.intro
  | exit q st =>
    obtain ⟨p, -, rfl⟩ := step_exit hstep
    exact h
  | foreign pid =>
    obtain ⟨-, -, rfl⟩ := step_foreign hstep
    exact h
  | restart rs =>
    obtain rfl := Option.some.inj hstep
    intro t ht
    simp at ht

/-- What holds of the container when its stop is in the phase. -/
def Holds (id : ContainerId) (s : State) : StopPhase → Prop
  | .reading => True
  | .signalling pid =>
    s.tasks.any (Watcher id (s.shared.hasPid pid)) ∨ s.shared.isRunning id = false
  | .killed => s.tasks.any (Watcher id s.shared.hasEnded) ∨ s.shared.isRunning id = false
  | .settled => s.shared.isRunning id = false

/-- The stop that is task `i`. -/
structure Stopping (id : ContainerId) (i : Nat) (s : State) : Prop where
  task : ∃ t ph, s.tasks[i]? = some t ∧ StopTask id ph t.frames t.result ∧ Holds id s ph
  reapers : Reapers s
  newborn : Newborn s

section Steps

variable {id : ContainerId} {s s' : State} {i j : Nat} {t : Thread} {ph : StopPhase}
  {o : Oracle} {f : Frame} {k : List Frame} {out : Out}

/-- A step of any task keeps what the phase says. -/
theorem Holds.advance (h : Holds id s ph) (hreap : Reapers s)
    (hadv : Pool.Advance exec s j o s' t f k out)
    (hrun : s.shared.isRunning id = false → s'.shared.isRunning id = false) :
    Holds id s' ph := by
  have hkept := (exec_procs hadv.exec).1
  cases ph with
  | reading => exact True.intro
  | signalling pid =>
    rcases h with h | h
    · exact watcher_advance hreap hadv (fun _ => hkept.hasPid) h
    · exact Or.inr (hrun h)
  | killed =>
    rcases h with h | h
    · exact watcher_advance hreap hadv (fun _ => hkept.hasEnded) h
    · exact Or.inr (hrun h)
  | settled => exact hrun h

/-- A step of the stop. -/
theorem Holds.own {ph' : StopPhase} (h : Holds id s ph) (hreap : Reapers s)
    (hadv : Pool.Advance exec s i o s' t f k out)
    (hstep : StopStep id o f s.shared s'.shared ph ph') (hwatch : watched id i s (.step i o))
    (htime : reapersInTime id s (.step i o))
    (hrun : s.shared.isRunning id = false → s'.shared.isRunning id = false) :
    Holds id s' ph' := by
  cases hstep with
  | quiet => exact h.advance hreap hadv hrun
  | signal r grace frame present running pos same =>
    have hw : s.tasks.any (Watcher id (s.shared.hasPid r.pid)) := by
      have hne : r.pid ≠ 0 := by omega
      simpa [watched, hadv.top_eq, frame, present, running, hne] using hwatch
    exact watcher_advance hreap hadv (fun _ hq => by rw [same]; exact hq) hw
  | kill pid killed =>
    rcases h with h | h
    · exact watcher_advance hreap hadv (fun _ hq => by rw [killed]; exact hasEnded_kill hq) h
    · exact Or.inr (hrun h)
  | settle _ settled => exact settled
  | giveUp frame late same =>
    rcases h with h | h
    · exfalso
      simp only [reapersInTime, hadv.top_eq, frame, late, h] at htime
      simp at htime
    · exact hrun h

theorem Stopping.advance (h : Stopping id i s) (hwatch : watched id i s (.step j o))
    (htime : reapersInTime id s (.step j o)) (hno : noIntent id s (.step j o))
    (hadv : Pool.Advance exec s j o s' t f k out) (hstep : step s (.step j o) = some s') :
    Stopping id i s' := by
  have hrun : s.shared.isRunning id = false → s'.shared.isRunning id = false := by
    refine exec_isRunning hadv.exec (h.newborn t hadv.mem f (by simp [hadv.frames])) ?_
    rintro rfl
    simp [noIntent, hadv.top_eq] at hno
  refine ⟨?_, h.reapers.step hstep, h.newborn.step hstep⟩
  · obtain ⟨u, ph, hu, hstage, hholds⟩ := h.task
    by_cases hji : j = i
    · subst hji
      obtain rfl : t = u := Option.some.inj (hadv.task.symm.trans hu)
      obtain ⟨ph', hstage', hstop⟩ := hstage.step hadv.frames hadv.exec
      exact ⟨_, ph', hadv.getElem?_self, hstage',
        hholds.own h.reapers hadv hstop hwatch htime hrun⟩
    · exact ⟨u, ph, hadv.getElem?_of_some (Ne.symm hji) hu, hstage,
        hholds.advance h.reapers hadv hrun⟩

/-- More tasks and the same or ended processes keep what the phase says. -/
theorem Holds.mono {ph : StopPhase} (h : Holds id s ph) (hcache : s'.shared.cache = s.shared.cache)
    (hprocs : ProcsKept s.shared s'.shared) (htasks : ∀ t ∈ s.tasks, t ∈ s'.tasks) :
    Holds id s' ph := by
  have hrun : s'.shared.isRunning id = s.shared.isRunning id := by
    simp only [World.isRunning, hcache]
  have hany : ∀ {P Q : Nat → Bool}, (∀ q, P q → Q q) → s.tasks.any (Watcher id P) →
      s'.tasks.any (Watcher id Q) := by
    intro P Q hPQ hw
    obtain ⟨t, ht, hw⟩ := List.any_eq_true.mp hw
    obtain ⟨q, htag, hp, hP⟩ := watcher_eq_true.mp hw
    exact List.any_eq_true.mpr ⟨t, htasks t ht, watcher_eq_true.mpr ⟨q, htag, hp, hPQ q hP⟩⟩
  cases ph with
  | reading => exact True.intro
  | signalling pid => exact h.imp (hany fun _ => hprocs.hasPid) hrun.trans
  | killed => exact h.imp (hany fun _ => hprocs.hasEnded) hrun.trans
  | settled => exact hrun.trans h

end Steps

theorem Stopping.step {id : ContainerId} {i : Nat} {s s' : State} {l : Label}
    (h : Stopping id i s) (hl : noRestart l) (hwatch : watched id i s l)
    (htime : reapersInTime id s l) (hno : noIntent id s l) (hstep : step s l = some s') :
    Stopping id i s' := by
  have hreapers := h.reapers.step hstep
  have hnewborn := h.newborn.step hstep
  obtain ⟨u, ph, hu, hstage, hholds⟩ := h.task
  cases l with
  | invoke c =>
    obtain rfl := Option.some.inj hstep
    refine ⟨⟨u, ph, ?_, hstage, hholds.mono rfl (.refl _) fun t ht =>
      Pool.mem_tasks_start.mpr (Or.inl ht)⟩, hreapers, hnewborn⟩
    rw [Pool.start, List.getElem?_append_left (List.getElem?_eq_some_iff.mp hu).1, hu]
  | step j o =>
    obtain ⟨t, f, k, out, hadv⟩ := Pool.advance_eq_some hstep
    exact h.advance hwatch htime hno hadv hstep
  | exit q st =>
    obtain ⟨p, hp, rfl⟩ := step_exit hstep
    obtain ⟨hpid, howner, hstate⟩ := p.exit_kept st
    exact ⟨⟨u, ph, hu, hstage,
      hholds.mono rfl (procsKept_set hp hpid howner hstate) fun t ht => ht⟩, hreapers, hnewborn⟩
  | foreign pid =>
    obtain ⟨-, -, rfl⟩ := step_foreign hstep
    exact ⟨⟨u, ph, hu, hstage, hholds.mono rfl (procsKept_append _ _) fun t ht => ht⟩, hreapers,
      hnewborn⟩
  | restart rs => cases hl

theorem newborn_run {listener : Nat} {blake3 : String → String} {ls : List Label} {s : State}
    (hrun : run step (init listener blake3) ls = some s) : Newborn s := by
  refine invariant_run (P := fun _ _ => True) (fun s l s' h _ hs => h.step hs) ?_ ?_ hrun
  · intro t ht
    simp [init] at ht
  · exact Along.trivial _ _

/-- The result of task `i`, when it has ended. -/
def State.result (s : State) (i : Nat) : Option Result := s.tasks[i]?.bind Task.result

/-- **Stop really stops.** Take any run from an empty state root, with any number of reopens, and
then a `stop_container`, with whatever else runs at the same time. Reapers are in time, no start
intent of the container is written from then on, and a reaper of this listener watches the process
when stop reads a Running record that has one. If stop has returned Ok, the container is not
Running. -/
theorem stop_stops {listener : Nat} {blake3 : String → String} {id : ContainerId} {grace : Int}
    {ls₀ ls : List Label} {s₀ s : State} (hrun₀ : run step (init listener blake3) ls₀ = some s₀)
    (hls : ∀ l ∈ ls, noRestart l)
    (htime : Along step (fun s l => reapersInTime id s l) s₀ (.invoke (.stopContainer id grace) :: ls))
    (hno : Along step (fun s l => noIntent id s l) s₀ (.invoke (.stopContainer id grace) :: ls))
    (hwatch : Along step (fun s l => watched id s₀.tasks.length s l) s₀
      (.invoke (.stopContainer id grace) :: ls))
    (hrun : run step s₀ (.invoke (.stopContainer id grace) :: ls) = some s)
    (hret : State.result s s₀.tasks.length = some (.ok .unit)) (st : ContainerStatus)
    (hst : containerStatus s.shared.cache id = .ok st) : st.state ≠ .running := by
  obtain ⟨s₁, hinvoke, hrun₁⟩ := run_cons_eq_some.mp hrun
  have hstop₁ : Stopping id s₀.tasks.length s₁ := by
    refine ⟨?_, (reapers_run hrun₀).step hinvoke, (newborn_run hrun₀).step hinvoke⟩
    obtain rfl := Option.some.inj hinvoke
    exact ⟨_, .reading, by rw [Pool.start, List.getElem?_concat_length], .read grace, True.intro⟩
  have hstop : Stopping id s₀.tasks.length s := by
    refine invariant_run (I := Stopping id s₀.tasks.length) ?_ hstop₁
      ((((htime.2 s₁ hinvoke).and (hno.2 s₁ hinvoke)).and (hwatch.2 s₁ hinvoke)).and_labels hls)
      hrun₁
    rintro s l s' h ⟨hl, ⟨ht, hn⟩, hw⟩ hstep
    exact h.step hl hw ht hn hstep
  obtain ⟨t, ph, ht, hstage, hholds⟩ := hstop.task
  rw [State.result, ht, Option.bind_some] at hret
  have hsettled : ph = .settled := by
    rw [hret] at hstage
    generalize t.frames = fs at hstage
    cases hstage
    rfl
  rw [hsettled, Holds, World.isRunning_eq_false] at hholds
  have hstate := containerStatus_state s.shared.cache id
  rw [hst, Except.toOption, Option.map_some] at hstate
  obtain ⟨r, hr, hrs⟩ := Option.map_eq_some_iff.mp hstate.symm
  exact hrs ▸ hholds r hr

/-! ## Two runs -/

/-- A container is started. -/
def startedRun : List Label := podRun ++ Label.invoke (.startContainer podContainer) :: steps 2 14

/-- The listener is killed and the state root opened again, as the container runs. -/
def reopening : Restart where
  pid := 2
  listing sub := ((run step (init 1 id) startedRun).elim ∅ fun s => s.shared.disk sub).toList

def reopenedRun : List Label := startedRun ++ [Label.restart reopening]

/-- The stop of `id` by a listener alone, which waits for the killed process until the deadline. -/
def loneStop : List Label := steps 0 2 ++ Label.step 0 { timeout := true } :: steps 0 1

/-- **Still Running.** After a reopen, stop kills the process and returns Ok; the container is
Running. -/
theorem stopped_still_running :
    ¬ ∀ (listener : Nat) (blake3 : String → String) (id : ContainerId) (grace : Int)
      (ls₀ ls : List Label) (s₀ s : State), Along step ReadsDisk (init listener blake3) ls₀ →
      run step (init listener blake3) ls₀ = some s₀ → (∀ l ∈ ls, noRestart l) →
      Along step (fun s l => reapersInTime id s l) s₀ (.invoke (.stopContainer id grace) :: ls) →
      Along step (fun s l => noIntent id s l) s₀ (.invoke (.stopContainer id grace) :: ls) →
      run step s₀ (.invoke (.stopContainer id grace) :: ls) = some s →
      State.result s s₀.tasks.length = some (.ok .unit) →
      ∀ st, containerStatus s.shared.cache id = .ok st → st.state ≠ .running := by
  intro h
  have hrun : (run step (init 1 id) reopenedRun).any fun s₀ =>
      Along step (fun s l => reapersInTime podContainer s l) s₀
          (.invoke (.stopContainer podContainer 0) :: loneStop) ∧
        Along step (fun s l => noIntent podContainer s l) s₀
          (.invoke (.stopContainer podContainer 0) :: loneStop) ∧
        (run step s₀ (.invoke (.stopContainer podContainer 0) :: loneStop)).any fun s =>
          State.result s s₀.tasks.length = some (.ok .unit) ∧
            (containerStatus s.shared.cache podContainer).toOption.any
              fun st => st.state = .running := by decide
  obtain ⟨s₀, hs₀, hend⟩ := (Option.any_eq_true _ _).mp hrun
  obtain ⟨htime, hno, hany⟩ := of_decide_eq_true hend
  obtain ⟨s, hs, hend⟩ := (Option.any_eq_true _ _).mp hany
  obtain ⟨hret, hstatus⟩ := of_decide_eq_true hend
  obtain ⟨st, hst, hrunning⟩ := (Option.any_eq_true _ _).mp hstatus
  have hst' : containerStatus s.shared.cache podContainer = .ok st := by
    revert hst
    cases containerStatus s.shared.cache podContainer with
    | ok x =>
      intro hx
      exact congrArg Except.ok (Option.some.inj hx)
    | error e =>
      intro hx
      cases hx
  exact h 1 id podContainer 0 reopenedRun loneStop s₀ s (by decide) hs₀ (by decide) htime hno hs
    hret st hst' (of_decide_eq_true hrunning)

/-- A stop in the listener that started the container: the reaper runs while the stop waits. -/
def watchedStop : List Label :=
  steps 4 2 ++ steps 3 6 ++ steps 4 2

theorem stop_stops_watchedStop : ∃ s₀ s, run step (init 1 id) startedRun = some s₀ ∧
    run step s₀ (.invoke (.stopContainer podContainer 0) :: watchedStop) = some s ∧
    ∃ st, containerStatus s.shared.cache podContainer = .ok st ∧ st.state ≠ .running := by
  have hrun : (run step (init 1 id) startedRun).any fun s₀ => s₀.tasks.length = 4 ∧
      Along step (fun s l => reapersInTime podContainer s l) s₀
          (.invoke (.stopContainer podContainer 0) :: watchedStop) ∧
        Along step (fun s l => noIntent podContainer s l) s₀
          (.invoke (.stopContainer podContainer 0) :: watchedStop) ∧
        Along step (fun s l => watched podContainer s₀.tasks.length s l) s₀
          (.invoke (.stopContainer podContainer 0) :: watchedStop) ∧
        (run step s₀ (.invoke (.stopContainer podContainer 0) :: watchedStop)).any fun s =>
          State.result s s₀.tasks.length = some (.ok .unit) ∧
            (containerStatus s.shared.cache podContainer).toBool := by decide
  obtain ⟨s₀, hs₀, hend⟩ := (Option.any_eq_true _ _).mp hrun
  obtain ⟨-, htime, hno, hwatch, hany⟩ := of_decide_eq_true hend
  obtain ⟨s, hs, hend⟩ := (Option.any_eq_true _ _).mp hany
  obtain ⟨hret, hstatus⟩ := of_decide_eq_true hend
  refine ⟨s₀, s, hs₀, hs, ?_⟩
  cases hst : containerStatus s.shared.cache podContainer with
  | ok st =>
    exact ⟨st, rfl, stop_stops hs₀ (by decide) htime hno hwatch hs hret st hst⟩
  | error e =>
    rw [hst] at hstatus
    cases hstatus

end LightrCri.Fake

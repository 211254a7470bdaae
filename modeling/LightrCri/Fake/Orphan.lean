import LightrCri.Fake.Launch
import LightrCri.Fake.Ledger

/-!
# Processes and their records

One `start_container` of a container, with stops and removals of it at any time. Between the start
intent (Running, pid 0) and the write of the pid, a stop finds no process to signal and records
Exited, and a removal drops the record; the process then runs on with no record that leads to it
(`orphan_process`). It is left behind only in these ways: when the intent no longer stands at the
spawn, when the record is declared stopped or dropped while the process is alive, and when the
pipes of the process cannot be duplicated. Otherwise every live process of the container has a
Running record with its pid once all calls have returned (`no_orphan`).
-/

namespace LightrCri.Fake

open Backend Foundations

/-! ## Conditions -/

/-- The container is started by one call only. -/
def onlyStart (id : ContainerId) (s : State) : Label → Bool
  | .invoke (.startContainer id') =>
    id' ≠ id || s.tasks.all fun t =>
      match t.tag with
      | .call (.startContainer id'') => id'' ≠ id
      | _ => true
  | _ => true

/-- A process of the container is alive. -/
def World.live (w : World) (id : ContainerId) : Bool :=
  w.procs.any fun p => p.owner = some id ∧ p.state = .alive

/-- If the step spawns a process of the container, the start intent still stands; if it declares
the container stopped, or drops it, while the record is Running, then no process of it is alive;
and pipes are duplicated. -/
def keepsTrack (id : ContainerId) (s : State) : Label → Bool
  | .step i o =>
    match s.top i with
    | some (.sys (.spawn id' _)) => id' ≠ id || !o.spawn.toBool || s.shared.isRunning id
    | some (.crit (.recordStopped id' _)) =>
      id' ≠ id || !s.shared.isRunning id || !s.shared.live id
    | some (.crit (.dropContainer id')) =>
      id' ≠ id || !s.shared.isRunning id || !s.shared.live id
    | some (.sys .dupPipes) => o.fault.isNone
    | _ => true
  | _ => true

/-- Every live process of the container has a Running record with its pid. -/
def Reached (w : World) (id : ContainerId) : Prop :=
  ∀ p ∈ w.procs, p.owner = some id → p.state = .alive →
    ∃ r, w.cache.containers[id]? = some r ∧ r.state = .running ∧ r.pid = p.pid

/-! ## The invariant -/

/-- The start `t` of the container, in phase `ph`, its process and its reapers. -/
structure Sole (id : ContainerId) (s : State) (i : Nat) (t : Thread) (ph : StartPhase) : Prop where
  task : s.tasks[i]? = some t
  tag : t.tag = .call (.startContainer id)
  stage : StartTask id ph t.frames t.result
  others : ∀ (j : Nat) (u : Thread), s.tasks[j]? = some u → j ≠ i → Apart id u ∨
    ∃ q pid late b, ph = .launched q pid late ∧ ReaperTask id q b u.frames ∧
      (b = true → s.shared.Ended q)
  /-- The container has no process but that of the start. -/
  procs : ∀ (q : Nat) (p : Proc), s.shared.procs[q]? = some p → p.owner = some id →
    ∃ late, ph = .launched q p.pid late
  /-- While the process is alive its record is Running, with its pid once that is written. -/
  record : ∀ (q : Nat) (p : Proc), s.shared.procs[q]? = some p → p.owner = some id →
    p.state = .alive → ∃ r, s.shared.cache.containers[id]? = some r ∧ r.state = .running ∧
      (ph = .launched q p.pid false → r.pid = p.pid)

/-- At most one start of the container, whatever else runs. -/
inductive Tracked (id : ContainerId) (s : State) : Prop
  | unstarted (tasks : ∀ t ∈ s.tasks, Apart id t)
    (procs : ∀ (q : Nat) (p : Proc), s.shared.procs[q]? = some p → p.owner ≠ some id)
  | started (i : Nat) (t : Thread) (ph : StartPhase) (sole : Sole id s i t ph)

/-! ## Steps of the other tasks -/

section Other

variable {id : ContainerId} {self n : Nat} {o : Oracle} {f : Frame} {w w' : World} {out : Out}

/-- A process of the container after a step of another task was there before. -/
theorem exec_procs_back (hex : exec self n o f w = some (w', out)) (hf : f.starts id = false)
    {q : Nat} {p' : Proc} (hp' : w'.procs[q]? = some p') (ho : p'.owner = some id) :
    ∃ p, w.procs[q]? = some p ∧ p.pid = p'.pid ∧ p.owner = some id ∧
      (p'.state = .alive → p.state = .alive) := by
  obtain ⟨hkept, hlen⟩ := exec_procs hex
  have hlt' := (List.getElem?_eq_some_iff.mp hp').1
  have hlt : q < w.procs.length := by
    rcases hlen with hlen | ⟨id', io, pid, rfl, -, -, hprocs⟩
    · omega
    · by_contra hge
      have hq : q = w.procs.length := by
        rw [hprocs, List.length_append, List.length_singleton] at hlt'
        omega
      rw [hprocs, hq, List.getElem?_concat_length] at hp'
      obtain rfl := Option.some.inj hp'
      obtain rfl := Option.some.inj ho
      simp [Frame.starts] at hf
  obtain ⟨p, hp⟩ : ∃ p, w.procs[q]? = some p := ⟨_, List.getElem?_eq_getElem hlt⟩
  obtain ⟨x, hx, hpid, howner, hstate⟩ := hkept q p hp
  obtain rfl := Option.some.inj (hx.symm.trans hp')
  exact ⟨p, hp, hpid.symm, howner.symm.trans ho, hstate⟩

/-- A step of another task leaves the Running record of a live process alone. -/
theorem exec_record_kept {s s' : State} {i : Nat} {t : Thread} {k : List Frame} (h : Sound s)
    (hkeep : keepsTrack id s (.step i o)) (hadv : Pool.Advance exec s i o s' t f k out)
    (hf : f.starts id = false) (hlive : s.shared.live id) {r : ContainerRecord}
    (hr : s.shared.cache.containers[id]? = some r) (hrun : r.state = .running) :
    s'.shared.cache.containers[id]? = some r := by
  have hrunning : s.shared.isRunning id := by
    simp [World.isRunning, hr, hrun]
  cases exec_record id hadv.exec with
  | same record => rw [record, hr]
  | intent _ _ frame | spawnFailed _ _ _ frame | persistPid _ _ frame | reaped _ _ _ _ frame =>
    simp [frame, Frame.starts] at hf
  | stopped _ _ _ frame | dropped frame =>
    simp [keepsTrack, hadv.top_eq, frame, hrunning, hlive] at hkeep
  | inserted x frame key =>
    -- the record of a new container would be its first one
    obtain ⟨d, hd⟩ := h.duties t hadv.mem
    rw [hadv.frames, frame] at hd
    have hduty : d = .issues (.container x) true := hd.dutyOf_eq.symm
    subst hduty
    have hnone := (h.fresh i t (.container x) true hadv.task
      (by rw [hadv.frames, frame]; exact hd) rfl).1
    rw [DiskRecord.obj_container, key, Cache.get_container_eq_some hr] at hnone
    cases hnone

theorem live_of_mem {w : World} {q : Nat} {p : Proc} (hp : w.procs[q]? = some p)
    (ho : p.owner = some id) (ha : p.state = .alive) : w.live id := by
  rw [World.live, List.any_eq_true]
  exact ⟨p, List.mem_of_getElem? hp, by simp [ho, ha]⟩

end Other

/-! ## Steps -/

section Steps

variable {id : ContainerId} {s s' : State} {i j : Nat} {t u : Thread} {ph : StartPhase}
  {o : Oracle} {f : Frame} {k : List Frame} {out : Out}

/-- A step of a task that has nothing to do with the start. -/
theorem Sole.apart (hs : Sole id s i t ph) (h : Sound s) (hkeep : keepsTrack id s (.step j o))
    (hadv : Pool.Advance exec s j o s' u f k out) (hj : j ≠ i) (hu : Apart id u) :
    Sole id s' i t ph := by
  have hf : f.starts id = false := hu f (by simp [hadv.frames])
  refine ⟨hadv.getElem?_of_some hj.symm hs.task, hs.tag, hs.stage, ?_, ?_, ?_⟩
  · intro m v hv hm
    rcases hadv.cases hv with ⟨rfl, rfl⟩ | ⟨-, hv⟩ | ⟨-, hv⟩
    · exact Or.inl (hu.resume hadv.frames hadv.exec)
    · rcases hs.others m v hv hm with hap | ⟨q, pid, late, b, hph, hreap, hdead⟩
      · exact Or.inl hap
      · exact Or.inr ⟨q, pid, late, b, hph, hreap,
          fun hb => (exec_procs hadv.exec).1.ended (hdead hb)⟩
    · obtain ⟨cid, q, rfl, rfl⟩ := children_reaper hadv hv
      refine Or.inl fun g hg => ?_
      obtain rfl := List.mem_singleton.mp hg
      exact hf
  · intro q p hp ho
    obtain ⟨p₀, hp₀, hpid, ho₀, -⟩ := exec_procs_back hadv.exec hf hp ho
    exact hpid ▸ hs.procs q p₀ hp₀ ho₀
  · intro q p hp ho ha
    obtain ⟨p₀, hp₀, hpid, ho₀, ha₀⟩ := exec_procs_back hadv.exec hf hp ho
    obtain ⟨r, hr, hrun, hrpid⟩ := hs.record q p₀ hp₀ ho₀ (ha₀ ha)
    exact ⟨r, exec_record_kept h hkeep hadv hf (live_of_mem hp₀ ho₀ (ha₀ ha)) hr hrun, hrun,
      hpid ▸ hrpid⟩

/-- A step of a reaper of the start's process. -/
theorem Sole.reaper (hs : Sole id s i t ph) (hadv : Pool.Advance exec s j o s' u f k out)
    (hj : j ≠ i) {q pid : Nat} {late b : Bool} (hph : ph = .launched q pid late)
    (hu : ReaperTask id q b u.frames) (hdead : b = true → s.shared.Ended q) :
    Sole id s' i t ph := by
  obtain ⟨b', hu', hstep⟩ := hu.step hadv.frames hadv.exec
  have hkept := (exec_procs hadv.exec).1
  have hdead' : b' = true → s'.shared.Ended q := by
    intro hb'
    cases hstep with
    | quiet => exact hkept.ended (hdead hb')
    | wait p st hp _ _ hprocs =>
      have hlt := (List.getElem?_eq_some_iff.mp hp).1
      exact ⟨_, by rw [hprocs, List.getElem?_set_self hlt], by simp⟩
    | reap => exact hkept.ended (hdead rfl)
  have hback : ∀ (q' : Nat) (p' : Proc), s'.shared.procs[q']? = some p' → ∃ p : Proc,
      s.shared.procs[q']? = some p ∧ p.pid = p'.pid ∧ p.owner = p'.owner ∧
        (p'.state = .alive → p.state = .alive) := by
    intro q' p' hp'
    have hlen : s'.shared.procs.length = s.shared.procs.length := by
      cases hstep with
      | quiet _ _ hprocs | reap _ _ _ _ _ _ _ hprocs => rw [hprocs]
      | wait _ _ _ _ _ hprocs => rw [hprocs, List.length_set]
    have hlt : q' < s.shared.procs.length := hlen ▸ (List.getElem?_eq_some_iff.mp hp').1
    obtain ⟨x, hx, hpid, howner, hstate⟩ := hkept q' _ (List.getElem?_eq_getElem hlt)
    obtain rfl := Option.some.inj (hx.symm.trans hp')
    exact ⟨_, List.getElem?_eq_getElem hlt, hpid.symm, howner.symm, hstate⟩
  refine ⟨hadv.getElem?_of_some hj.symm hs.task, hs.tag, hs.stage, ?_, ?_, ?_⟩
  · intro m v hv hm
    rcases hadv.cases hv with ⟨rfl, rfl⟩ | ⟨-, hv⟩ | ⟨-, hv⟩
    · exact Or.inr ⟨q, pid, late, b', hph, hu', hdead'⟩
    · exact (hs.others m v hv hm).imp_right fun ⟨q, pid, late, b, hph, hreap, hdead⟩ =>
        ⟨q, pid, late, b, hph, hreap, fun hb => hkept.ended (hdead hb)⟩
    · obtain ⟨cid, q', hf, -⟩ := children_reaper hadv hv
      rw [hadv.frames, hf] at hu
      cases hu
  · intro q' p' hp' ho
    obtain ⟨p, hp, hpid, howner, -⟩ := hback q' p' hp'
    exact hpid ▸ hs.procs q' p hp (howner.trans ho)
  · intro q' p' hp' ho ha
    obtain ⟨p, hp, hpid, howner, hstate⟩ := hback q' p' hp'
    obtain ⟨r, hr, hrun, hrpid⟩ := hs.record q' p hp (howner.trans ho) (hstate ha)
    cases hstep with
    | quiet _ hc | wait _ _ _ _ hc => exact ⟨r, hc ▸ hr, hrun, hpid ▸ hrpid⟩
    | reap =>
      -- the process of the reaper is the only one of the container, and has been waited for
      exfalso
      obtain ⟨late', hph'⟩ := hs.procs q' p hp (howner.trans ho)
      obtain rfl : q = q' := (StartPhase.launched.inj (hph.symm.trans hph')).1
      obtain ⟨x, hx, hend⟩ := hdead rfl
      obtain rfl := Option.some.inj (hx.symm.trans hp)
      exact hend (hstate ha)

/-- A step of the start. -/
theorem Sole.own (hs : Sole id s i t ph) (hkeep : keepsTrack id s (.step i o))
    (hadv : Pool.Advance exec s i o s' t f k out) :
    ∃ ph', Sole id s' i (t.resume k out) ph' := by
  obtain ⟨ph', hst, hstep⟩ := hs.stage.step hadv.frames hadv.exec
  have hkept := (exec_procs hadv.exec).1
  have hchild : ∀ v ∈ out.children, ∃ q pid, ph = .launched q pid false ∧
      ph' = .launched q pid false ∧ ReaperTask id q false v.frames := by
    intro v hv
    obtain ⟨cid, q, hf, rfl⟩ := children_reaper hadv hv
    have hstage := hs.stage
    rw [hadv.frames, hf] at hstage
    generalize t.result = res at hstage
    cases hstage with
    | spawnReaper _ pid =>
      cases hstep with
      | quiet => exact ⟨q, pid, rfl, rfl, .wait⟩
  refine ⟨ph', hadv.getElem?_self, by rw [Task.resume_tag, hs.tag], hst, ?_, ?_, ?_⟩
  · intro m v hv hm
    rcases hadv.cases hv with ⟨rfl, -⟩ | ⟨-, hv⟩ | ⟨-, hv⟩
    · exact absurd rfl hm
    · refine (hs.others m v hv hm).imp_right fun ⟨q, pid, late, b, hph, hreap, hdead⟩ => ?_
      obtain ⟨late', hph'⟩ : ∃ late', ph' = .launched q pid late' := by
        subst hph
        cases hstep with
        | quiet | persistPid | lost => exact ⟨_, rfl⟩
      exact ⟨q, pid, late', b, hph', hreap, fun hb => hkept.ended (hdead hb)⟩
    · obtain ⟨q, pid, -, hph', hreap⟩ := hchild v hv
      exact Or.inr ⟨q, pid, false, false, hph', hreap, fun hb => by cases hb⟩
  · intro q p hp ho
    cases hstep with
    | quiet _ _ hprocs => exact hs.procs q p (hprocs ▸ hp) ho
    | intent _ _ _ _ _ hprocs | giveUp _ hprocs | spawnFailed _ _ _ _ _ _ hprocs =>
      obtain ⟨late, h⟩ := hs.procs q p (hprocs ▸ hp) ho
      cases h
    | spawn io pid _ _ _ _ _ hprocs =>
      rw [hprocs, List.getElem?_append] at hp
      split at hp
      · obtain ⟨late, h⟩ := hs.procs q p hp ho
        cases h
      · rename_i hge
        have hlt := (List.getElem?_eq_some_iff.mp hp).1
        rw [List.length_singleton] at hlt
        obtain rfl : q = s.shared.procs.length := by omega
        rw [Nat.sub_self] at hp
        obtain rfl := Option.some.inj hp
        exact ⟨true, rfl⟩
    | persistPid q' pid _ _ _ _ hprocs | lost q' pid _ _ hprocs =>
      obtain ⟨late, h⟩ := hs.procs q p (hprocs ▸ hp) ho
      obtain ⟨rfl, rfl, -⟩ := StartPhase.launched.inj h
      exact ⟨_, rfl⟩
  · intro q p hp ho ha
    cases hstep with
    | quiet _ hc hprocs =>
      rw [hc]
      exact hs.record q p (hprocs ▸ hp) ho ha
    | intent _ _ _ _ _ hprocs | giveUp _ hprocs | spawnFailed _ _ _ _ _ _ hprocs =>
      obtain ⟨late, h⟩ := hs.procs q p (hprocs ▸ hp) ho
      cases h
    | spawn io pid hf hres _ _ hc _ =>
      have hrunning : s.shared.isRunning id := by
        simpa [keepsTrack, hadv.top_eq, hf, hres, Except.toBool] using hkeep
      obtain ⟨r, hr, hrun⟩ := (Option.any_eq_true _ _).mp hrunning
      exact ⟨r, hc ▸ hr, of_decide_eq_true hrun, fun h => by cases h⟩
    | persistPid q' pid r _ hr hc hprocs =>
      obtain ⟨r', hr', hrun, -⟩ := hs.record q p (hprocs ▸ hp) ho ha
      obtain rfl := Option.some.inj (hr.symm.trans hr')
      refine ⟨r.withPid pid, by rw [hc, containers_setContainer, if_pos rfl], hrun, fun h => ?_⟩
      exact (StartPhase.launched.inj h).2.1
    | lost q' pid hf hc hprocs =>
      obtain ⟨r, hr, -⟩ := hs.record q p (hprocs ▸ hp) ho ha
      rcases hf with ⟨hf, hfault⟩ | ⟨-, hnone⟩
      · simp [keepsTrack, hadv.top_eq, hf] at hkeep
        simp [hkeep] at hfault
      · rw [hnone] at hr
        cases hr

theorem Tracked.advance (h : Tracked id s) (hsound : Sound s) (hkeep : keepsTrack id s (.step i o))
    (hadv : Pool.Advance exec s i o s' t f k out) : Tracked id s' := by
  cases h with
  | unstarted tasks procs =>
    have hf : f.starts id = false := tasks t hadv.mem f (by simp [hadv.frames])
    refine .unstarted (fun u hu => ?_) fun q p hp ho => ?_
    · rcases hadv.mem_cases hu with rfl | hu | hu
      · exact (tasks t hadv.mem).resume hadv.frames hadv.exec
      · exact tasks u hu
      · obtain ⟨cid, q, rfl, rfl⟩ := children_reaper hadv hu
        intro g hg
        obtain rfl := List.mem_singleton.mp hg
        exact hf
    · obtain ⟨p₀, hp₀, -, ho₀, -⟩ := exec_procs_back hadv.exec hf hp ho
      exact procs q p₀ hp₀ ho₀
  | started j u ph hs =>
    by_cases hij : i = j
    · subst hij
      obtain rfl : u = t := Option.some.inj (hs.task.symm.trans hadv.task)
      obtain ⟨ph', h'⟩ := hs.own hkeep hadv
      exact .started i _ ph' h'
    · rcases hs.others i t hadv.task hij with hap | ⟨q, pid, late, b, hph, hreap, hdead⟩
      · exact .started j u ph (hs.apart hsound hkeep hadv hij hap)
      · exact .started j u ph (hs.reaper hadv hij hph hreap hdead)

end Steps

theorem Tracked.invoke {id : ContainerId} {s : State} {c : Call} (h : Tracked id s)
    (honly : onlyStart id s (.invoke c)) : Tracked id (s.start (.call c) c.frames) := by
  have hget : ∀ (j : Nat) (u : Thread), (s.start (.call c) c.frames).tasks[j]? = some u →
      s.tasks[j]? = some u ∨ j = s.tasks.length ∧ u = ⟨.call c, c.frames, none⟩ := by
    intro j u hu
    rw [Pool.start, List.getElem?_append] at hu
    split at hu
    · exact Or.inl hu
    · have hlt := (List.getElem?_eq_some_iff.mp hu).1
      rw [List.length_singleton] at hlt
      exact Or.inr ⟨by omega, List.mem_singleton.mp (List.mem_of_getElem? hu)⟩
  cases h with
  | unstarted tasks procs =>
    by_cases hc : c = .startContainer id
    · subst hc
      refine .started s.tasks.length ⟨_, _, none⟩ .checking ⟨?_, rfl, .check, ?_, ?_, ?_⟩
      · rw [Pool.start, List.getElem?_concat_length]
        rfl
      · intro j u hu hj
        rcases hget j u hu with hu | ⟨hj', -⟩
        · exact Or.inl (tasks u (List.mem_of_getElem? hu))
        · exact absurd hj' hj
      · intro q p hp ho
        exact absurd ho (procs q p hp)
      · intro q p hp ho
        exact absurd ho (procs q p hp)
    · refine .unstarted (fun u hu => ?_) procs
      rcases Pool.mem_tasks_start.mp hu with hu | rfl
      · exact tasks u hu
      · exact callFrames_starts hc
  | started i t ph hs =>
    have hc : c ≠ .startContainer id := by
      rintro rfl
      simp only [onlyStart, ne_eq, not_true_eq_false, decide_false, Bool.false_or,
        List.all_eq_true] at honly
      have := honly t (List.mem_of_getElem? hs.task)
      simp [hs.tag] at this
    refine .started i t ph { hs with task := ?_, others := ?_ }
    · rw [Pool.start, List.getElem?_append_left (List.getElem?_eq_some_iff.mp hs.task).1, hs.task]
    · intro j u hu hj
      rcases hget j u hu with hu | ⟨-, rfl⟩
      · exact hs.others j u hu hj
      · exact Or.inl (callFrames_starts hc)

/-- The processes change and nothing else does. -/
theorem Tracked.of_procs {id : ContainerId} {s : State} {procs : List Proc} (h : Tracked id s)
    (hkept : ProcsKept s.shared { s.shared with procs := procs })
    (hback : ∀ (q : Nat) (p' : Proc), procs[q]? = some p' → p'.owner = some id →
      (s.shared.procs[q]?).isSome) :
    Tracked id { s with shared := { s.shared with procs := procs } } := by
  have hback' : ∀ (q : Nat) (p' : Proc), procs[q]? = some p' → p'.owner = some id → ∃ p : Proc,
      s.shared.procs[q]? = some p ∧ p.pid = p'.pid ∧ p.owner = some id ∧
        (p'.state = .alive → p.state = .alive) := by
    intro q p' hp' ho
    obtain ⟨p, hp⟩ := Option.isSome_iff_exists.mp (hback q p' hp' ho)
    obtain ⟨x, hx, hpid, howner, hstate⟩ := hkept q p hp
    obtain rfl := Option.some.inj (hx.symm.trans hp')
    exact ⟨p, hp, hpid.symm, howner.symm.trans ho, hstate⟩
  cases h with
  | unstarted tasks procs =>
    refine .unstarted tasks fun q p' hp' ho => ?_
    obtain ⟨p, hp, -, ho', -⟩ := hback' q p' hp' ho
    exact procs q p hp ho'
  | started i t ph hs =>
    refine .started i t ph { hs with others := ?_, procs := ?_, record := ?_ }
    · intro j u hu hj
      exact (hs.others j u hu hj).imp_right fun ⟨q, pid, late, b, hph, hreap, hdead⟩ =>
        ⟨q, pid, late, b, hph, hreap, fun hb => hkept.ended (hdead hb)⟩
    · intro q p' hp' ho
      obtain ⟨p, hp, hpid, ho', -⟩ := hback' q p' hp' ho
      exact hpid ▸ hs.procs q p hp ho'
    · intro q p' hp' ho ha
      obtain ⟨p, hp, hpid, ho', hstate⟩ := hback' q p' hp' ho
      obtain ⟨r, hr, hrun, hrpid⟩ := hs.record q p hp ho' (hstate ha)
      exact ⟨r, hr, hrun, hpid ▸ hrpid⟩

/-- **A step keeps track of the process.** -/
theorem Tracked.step {id : ContainerId} {s s' : State} {l : Label} (h : Tracked id s)
    (hsound : Sound s) (hl : noRestart l) (honly : onlyStart id s l) (hkeep : keepsTrack id s l)
    (hstep : step s l = some s') : Tracked id s' := by
  cases l with
  | invoke c =>
    obtain rfl := Option.some.inj hstep
    exact h.invoke honly
  | step i o =>
    obtain ⟨t, f, k, out, hadv⟩ := Pool.advance_eq_some hstep
    exact h.advance hsound hkeep hadv
  | exit q st =>
    obtain ⟨p, hp, rfl⟩ := step_exit hstep
    obtain ⟨hpid, howner, hstate⟩ := p.exit_kept st
    refine h.of_procs (procsKept_set hp hpid howner hstate) fun q' p' hp' _ => ?_
    have hlt := (List.getElem?_eq_some_iff.mp hp').1
    rw [List.length_set] at hlt
    rw [List.getElem?_eq_getElem hlt]
    rfl
  | foreign pid =>
    obtain ⟨-, -, rfl⟩ := step_foreign hstep
    refine h.of_procs (procsKept_append _ _) fun q' p' hp' ho => ?_
    rw [List.getElem?_append] at hp'
    split at hp'
    · rw [hp']
      rfl
    · have := List.mem_singleton.mp (List.mem_of_getElem? hp')
      rw [this] at ho
      cases ho
  | restart rs => cases hl

/-- A start that has returned has written the pid, if it has spawned a process. -/
theorem StartTask.ended_late {id : ContainerId} {q pid : Nat} {late : Bool} {res : Option Result}
    (h : StartTask id (.launched q pid late) [] res) : late = false := by
  cases h <;> rfl

/-- **No orphan.** Take any run of calls and reapers with at most one start of a container, in
which the start intent stands when the process is spawned, the Running record is not declared
stopped or dropped while the process is alive, and pipes are duplicated. Once all calls have
returned, every live process of the container has a Running record with its pid. -/
theorem no_orphan {listener : Nat} {blake3 : String → String} {id : ContainerId}
    {ls : List Label} {s : State} (hls : ∀ l ∈ ls, noRestart l)
    (honly : Along step (fun s l => onlyStart id s l) (init listener blake3) ls)
    (hkeep : Along step (fun s l => keepsTrack id s l) (init listener blake3) ls)
    (hrun : run step (init listener blake3) ls = some s) (hcalls : NoCall s) :
    Reached s.shared id := by
  have hinv : Sound s ∧ Tracked id s := by
    refine invariant_run (I := fun s => Sound s ∧ Tracked id s) ?_
      ⟨Sound.init listener blake3, ?_⟩ ((honly.and hkeep).and_labels hls) hrun
    · rintro s l s' ⟨h, ht⟩ ⟨hl, ho, hk⟩ hstep
      exact ⟨h.step hl hstep, ht.step h hl ho hk hstep⟩
    · exact .unstarted (by simp [init]) (by simp [init])
  intro p hp ho ha
  obtain ⟨q, hq⟩ := List.getElem?_of_mem hp
  cases hinv.2 with
  | unstarted _ procs => exact absurd ho (procs q p hq)
  | started i t ph hs =>
    have hended : t.frames = [] :=
      hcalls t (List.mem_of_getElem? hs.task) (by rw [hs.tag]; rfl)
    obtain ⟨late, hph⟩ := hs.procs q p hq ho
    obtain ⟨r, hr, hrunning, hpid⟩ := hs.record q p hq ho ha
    have hlate : late = false := by
      have hstage := hs.stage
      rw [hended, hph] at hstage
      exact hstage.ended_late
    exact ⟨r, hr, hrunning, hpid (hlate ▸ hph)⟩

/-! ## Two runs -/

/-- A start is between its intent and its spawn; the container is stopped; the start goes on. -/
def stoppedInWindow : List Label :=
  podRun ++ Label.invoke (.startContainer podContainer) :: steps 2 6 ++
    .invoke (.stopContainer podContainer 0) :: steps 3 5 ++ steps 2 8

/-- **An orphan.** Start and stop return Ok; the process is alive and its record is Exited. -/
theorem orphan_process :
    ¬ ∀ (listener : Nat) (blake3 : String → String) (id : ContainerId) (ls : List Label)
      (s : State), (∀ l ∈ ls, noRestart l) →
      Along step (fun s l => onlyStart id s l) (init listener blake3) ls →
      run step (init listener blake3) ls = some s → NoCall s → Reached s.shared id := by
  intro h
  have hrun : (run step (init 1 id) stoppedInWindow).any fun s =>
      NoCall s ∧ s.shared.procs = [⟨100, some podContainer, true, .alive⟩] ∧
        (s.shared.cache.containers[podContainer]?.map (·.state)) = some .exited := by decide
  obtain ⟨s, hs, hend⟩ := (Option.any_eq_true _ _).mp hrun
  obtain ⟨hcalls, hprocs, hstate⟩ := of_decide_eq_true hend
  obtain ⟨r, hr, hrunning, -⟩ :=
    h 1 id podContainer stoppedInWindow s (by decide) (by decide) hs hcalls
      ⟨100, some podContainer, true, .alive⟩ (by rw [hprocs]; simp) rfl rfl
  rw [hr, Option.map_some, hrunning] at hstate
  cases hstate

/-- A container is started; a stop that comes before the start intent finds nothing to do. -/
def trackedRun : List Label :=
  podRun ++ Label.invoke (.startContainer podContainer) :: steps 2 1 ++
    .invoke (.stopContainer podContainer 0) :: steps 3 2 ++ steps 2 13

theorem no_orphan_trackedRun : ∃ s, run step (init 1 id) trackedRun = some s ∧
    s.shared.live podContainer ∧ Reached s.shared podContainer := by
  have hrun : (run step (init 1 id) trackedRun).any fun s =>
      NoCall s ∧ s.shared.live podContainer := by decide
  obtain ⟨s, hs, hend⟩ := (Option.any_eq_true _ _).mp hrun
  obtain ⟨hcalls, hlive⟩ := of_decide_eq_true hend
  exact ⟨s, hs, hlive, no_orphan (by decide) (by decide) (by decide) hs hcalls⟩

end LightrCri.Fake

import LightrCri.Fake.Referential
import LightrCri.Fake.Serial
import LightrCri.Fake.Stop
import LightrCri.Foundations.Values

/-!
# Stopped sandboxes

StopPodSandbox is to end the processes of a sandbox and to reclaim its network. `stop_sandbox` only
records NotReady, and `start_container` does not look at the state of the sandbox: a container runs
on through the stop of its sandbox, and one created before the stop can be started after it
(`stopped_sandbox_runs`). A history variable holds the sandboxes with a network, which `run_sandbox`
gives and only `remove_sandbox` takes.

When `stop_sandbox` is called for sandboxes without a Running container or a network alone, and no
container is started in a sandbox that has been stopped, a stopped sandbox stays without both
(`stopped_sandbox`).
-/

namespace LightrCri.Fake

open Backend Foundations

/-! ## The network -/

/-- Whether `cni_setup` leaves something behind: it succeeds, or fails half-way. -/
def Oracle.attaches (o : Oracle) : Bool :=
  match o.cni with
  | none => false
  | some (.ok _) => true
  | some (.error _) => o.leavesTmp

/-- The sandboxes that have a CNI attachment and a network namespace. `cni_teardown` comes just
before the deletion of the sandbox, and is tried for a recorded namespace; `fault` is what it fails
with. -/
def network (att : List SandboxId) (s : State) (l : Label) (_ : State) : List SandboxId :=
  match l with
  | .step i o =>
    match s.top i with
    | some (.sys (.runSandbox cfg)) =>
      if cfg.hostNetwork = false ∧ o.attaches then
        ⟨newId "sb-" o.clock s.shared.counter⟩ :: att
      else att
    | some (.crit (.deleteSandbox id)) =>
      if (s.shared.cache.sandboxes[id]?.any fun r => r.netnsPath.isSome) ∧ o.fault = none then
        att.filter fun id' => id' ≠ id
      else att
    | _ => att
  | _ => att

/-! ## Conditions -/

/-- A container of the sandbox is Running. -/
def World.occupied (w : World) (sb : SandboxId) : Bool :=
  w.cache.containers.values.any fun r => r.sandbox = sb ∧ r.state = .running

/-- The sandbox that a call of `stop_sandbox` stops. -/
def Tag.stops : Tag → Option SandboxId
  | .call (.stopSandbox id) => some id
  | _ => none

/-- `stop_sandbox` has been called for the sandbox. -/
def State.stopCalled (s : State) (sb : SandboxId) : Bool :=
  s.tasks.any fun t => t.tag.stops = some sb

/-- `stop_sandbox` has returned Ok for the sandbox. -/
def State.stopReturned (s : State) (sb : SandboxId) : Bool :=
  s.tasks.any fun t => t.tag.stops = some sb ∧ t.result.any Except.isOk

/-- `stop_sandbox` finds the sandbox without a Running container and without a network; a sandbox
that gets a network has not been stopped before; and a container that is started is in no stopped
sandbox. -/
def stopsIdle (att : List SandboxId) (s : State) : Label → Bool
  | .step i o =>
    match s.top i with
    | some (.crit (.stopSandbox sb)) =>
      s.tasks[i]?.all (fun t => t.tag.stops = none) || !s.shared.occupied sb && !att.contains sb
    | some (.sys (.runSandbox cfg)) =>
      cfg.hostNetwork || !o.attaches ||
        !State.stopCalled s ⟨newId "sb-" o.clock s.shared.counter⟩
    | some (.crit (.startContainer id)) =>
      s.shared.cache.containers[id]?.all fun r =>
        r.state ≠ .created || !State.stopReturned s r.sandbox
    | _ => true
  | _ => true

theorem World.occupied_eq_false {w : World} {sb : SandboxId} :
    w.occupied sb = false ↔ ∀ (id : ContainerId) (r : ContainerRecord),
      w.cache.containers[id]? = some r → r.sandbox = sb → r.state ≠ .running := by
  rw [World.occupied, List.any_eq_false]
  constructor
  · intro h id r hr hsb hrun
    exact h r (mem_values.mpr ⟨id, hr⟩) (by simp [hsb, hrun])
  · intro h r hr hrun
    obtain ⟨id, hid⟩ := mem_values.mp hr
    obtain ⟨hsb, hrun⟩ := of_decide_eq_true hrun
    exact h id r hid hsb hrun

/-! ## The invariant -/

/-- The sandbox has no Running container, none that is being started, and no network. -/
structure Quiet (att : List SandboxId) (s : State) (sb : SandboxId) : Prop where
  idle : ∀ (id : ContainerId) (r : ContainerRecord), s.shared.cache.containers[id]? = some r →
    r.sandbox = sb → r.state ≠ .running
  unstarted : ∀ u ∈ s.tasks, ∀ id, u.frames.any (Frame.launches id) → ∀ r : ContainerRecord,
    s.shared.cache.containers[id]? = some r → r.sandbox ≠ sb
  free : sb ∉ att

/-- How far the call `t` of `stop_sandbox` has come. -/
inductive StopStage (att : List SandboxId) (s : State) (sb : SandboxId) (t : Thread) : Prop
  | called (frames : t.frames = [.crit (.stopSandbox sb), .ret .unit]) (result : t.result = none)
  | failed (frames : t.frames = []) (result : ∃ e, t.result = some (.error e))
  | quiet (frames : (∃ fs, t.frames = fs ++ [Frame.ret .unit]) ∨
      t.frames = [] ∧ ∃ v, t.result = some (.ok v)) (quiet : Quiet att s sb)

/-- Every sandbox that `stop_sandbox` has returned Ok for is quiet. -/
structure Stopped (att : List SandboxId) (s : State) : Prop where
  serial : Serial s
  newborn : ∀ t ∈ s.tasks, ∀ f ∈ t.frames, f.newborn
  stages : ∀ t ∈ s.tasks, ∀ sb, t.tag.stops = some sb → StopStage att s sb t

/-! ## Steps -/

section Steps

variable {att att' : List SandboxId} {s s' : State} {i : Nat} {t : Thread} {o : Oracle} {f : Frame}
  {k : List Frame} {out : Out} {sb : SandboxId} {id : ContainerId}

theorem Tag.eq_of_stops {tag : Tag} (h : tag.stops = some sb) : tag = .call (.stopSandbox sb) := by
  cases tag with
  | call c =>
    cases c <;> cases h
    rfl
  | reaper => cases h

/-- A frame of a start is one of a call. -/
theorem Serial.isCall_of_launches (h : Serial s) (ht : t ∈ s.tasks)
    (hl : t.frames.any (Frame.launches id)) : t.tag.isCall := by
  cases htag : t.tag with
  | call c => rfl
  | reaper id' q =>
    obtain ⟨b, hb⟩ := h.reapers t ht id' q htag
    generalize t.frames = fs at hb hl
    cases hb <;> simp [Frame.launches] at hl

/-- A step of one call leaves no other one with frames of a start. -/
theorem Serial.launches_self (h : Serial s) (hadv : Pool.Advance exec s i o s' t f k out)
    (hcall : t.tag.isCall) {u : Thread} (hu : u ∈ s'.tasks)
    (hl : u.frames.any (Frame.launches id)) : u = t.resume k out := by
  obtain ⟨j, hj⟩ := List.getElem?_of_mem hu
  rcases hadv.cases hj with ⟨-, rfl⟩ | ⟨hne, hj⟩ | ⟨-, hu⟩
  · rfl
  · have hucall := h.isCall_of_launches (List.mem_of_getElem? hj) hl
    rw [h.frames_nil hadv hcall hne hj hucall] at hl
    cases hl
  · obtain ⟨_, _, -, rfl⟩ := children_reaper hadv hu
    simp [Frame.launches] at hl

/-- A container after a step was there before, in the same sandbox, or is inserted by it. -/
theorem Serial.container_back (h : Serial s) (hadv : Pool.Advance exec s i o s' t f k out)
    {r' : ContainerRecord} (hr' : s'.shared.cache.containers[id]? = some r') :
    (∃ r, s.shared.cache.containers[id]? = some r ∧ r.sandbox = r'.sandbox) ∨
      f = .crit (.insertContainer r') := by
  obtain ⟨d, hd⟩ := h.sound.duties t hadv.mem
  obtain ⟨d', -, hch⟩ := hd.step hadv.frames h.sound.keyed hadv.exec
  rcases hch.container (Cache.get_container_eq_some hr') with ⟨r, hr, hsb⟩ | hf
  · exact .inl ⟨r, by simpa [Cache.get] using hr, hsb⟩
  · exact .inr hf

/-- The call that inserts a container starts none. -/
theorem Serial.insert_not_launches (h : Serial s) (hadv : Pool.Advance exec s i o s' t f k out)
    {r : ContainerRecord} (hf : f = .crit (.insertContainer r)) {u : Thread} (hu : u ∈ s'.tasks) :
    u.frames.any (Frame.launches id) = false := by
  have hcall : t.tag.isCall := by
    cases htag : t.tag with
    | call c => rfl
    | reaper id' q =>
      obtain ⟨b, hb⟩ := h.reapers t hadv.mem id' q htag
      rw [hadv.frames, hf] at hb
      cases hb
  by_contra hl
  rw [Bool.not_eq_false] at hl
  obtain rfl := h.launches_self hadv hcall hu hl
  obtain ⟨g, hg, hgl⟩ := List.any_eq_true.mp hl
  rcases Task.mem_resume hg with hg | hg
  · rcases exec_launches hadv.exec g hg hgl with hfl | ⟨hfs, -⟩
    · rw [hf] at hfl
      cases hfl
    · cases hf.symm.trans hfs
  · have hmem : g ∈ t.frames := by simp [hadv.frames, hg]
    obtain ⟨-, ph, hst⟩ := h.start_of_starts hadv.mem hcall hmem (Frame.starts_of_launches hgl)
    rw [hadv.frames, hf] at hst
    generalize t.result = res at hst
    cases hst

/-- **A quiet sandbox stays quiet**, as long as none of its containers is started and it gets no
network. -/
theorem Quiet.advance (hq : Quiet att s sb) (h : Stopped att s)
    (hadv : Pool.Advance exec s i o s' t f k out)
    (hstart : ∀ (id : ContainerId) (r : ContainerRecord), f = .crit (.startContainer id) →
      s.shared.cache.containers[id]? = some r → r.state = .created → r.sandbox ≠ sb)
    (hfree : sb ∉ att') : Quiet att' s' sb := by
  refine ⟨fun id r' hr' hsb hrun => ?_, fun u hu id hl r' hr' hsb => ?_, hfree⟩
  · cases exec_record id hadv.exec with
    | same record => exact hq.idle id r' (record ▸ hr') hsb hrun
    | intent r t₀ frame old new =>
      obtain rfl := Option.some.inj (new.symm.trans hr')
      refine hq.unstarted t hadv.mem id (List.any_eq_true.mpr ⟨f, ?_, ?_⟩) r old hsb
      · rw [hadv.frames]
        exact List.mem_cons_self
      · simp [frame, Frame.launches]
    | spawnFailed _ r _ _ _ new exited =>
      obtain rfl := Option.some.inj (new.symm.trans hr')
      rw [exited] at hrun
      cases hrun
    | stopped _ r _ _ _ _ new exited | reaped _ r _ _ _ _ _ new exited =>
      obtain rfl := Option.some.inj (new.symm.trans hr')
      rw [exited] at hrun
      cases hrun
    | persistPid r _ _ old new =>
      obtain rfl := Option.some.inj (new.symm.trans hr')
      exact hq.idle id r old hsb hrun
    | dropped _ new =>
      rw [new] at hr'
      cases hr'
    | inserted r frame _ new =>
      obtain rfl := Option.some.inj (new.symm.trans hr')
      have hborn := h.newborn t hadv.mem f (by simp [hadv.frames])
      rw [frame, Frame.newborn, hrun] at hborn
      cases hborn
  · rcases h.serial.container_back hadv hr' with ⟨r, hr, hsame⟩ | hf
    · rcases hadv.mem_cases hu with rfl | hu | hu
      · obtain ⟨g, hg, hgl⟩ := List.any_eq_true.mp hl
        have hold : ∀ g ∈ t.frames, g.launches id → r.sandbox ≠ sb := fun g hg hgl =>
          hq.unstarted t hadv.mem id (List.any_eq_true.mpr ⟨g, hg, hgl⟩) r hr
        rcases Task.mem_resume hg with hg | hg
        · rcases exec_launches hadv.exec g hg hgl with hfl | ⟨hfs, r₀, hr₀, hcreated⟩
          · exact hold f (by simp [hadv.frames]) hfl (hsame.trans hsb)
          · obtain rfl := Option.some.inj (hr.symm.trans hr₀)
            exact hstart id r hfs hr hcreated (hsame.trans hsb)
        · exact hold g (by simp [hadv.frames, hg]) hgl (hsame.trans hsb)
      · exact hq.unstarted u hu id hl r hr (hsame.trans hsb)
      · obtain ⟨_, _, -, rfl⟩ := children_reaper hadv hu
        simp [Frame.launches] at hl
    · rw [h.serial.insert_not_launches hadv hf hu] at hl
      cases hl

/-- What a step of `stop_sandbox` in its critical section does. -/
theorem exec_stopSandbox {self n : Nat} {w w' : World}
    (hex : exec self n o (.crit (.stopSandbox sb)) w = some (w', out)) :
    w'.cache.containers = w.cache.containers ∧ ∃ fs, out = .next fs := by
  obtain ⟨-, hex⟩ := exec_crit_eq_some.mp hex
  simp only [Crit.exec] at hex
  repeat' split at hex
  all_goals
    obtain ⟨rfl, rfl⟩ := Prod.mk.inj hex
    exact ⟨rfl, _, rfl⟩

/-- A sandbox that has been stopped gets no network. -/
theorem network_free (hl : stopsIdle att s (.step i o)) (hcalled : s.stopCalled sb)
    (hfree : sb ∉ att) : sb ∉ network att s (.step i o) s' := by
  simp only [network]
  cases htop : s.top i with
  | none => exact hfree
  | some f =>
    cases f with
    | crit c =>
      cases c with
      | deleteSandbox id =>
        dsimp only
        split
        · exact fun hmem => hfree (List.mem_filter.mp hmem).1
        · exact hfree
      | _ => exact hfree
    | sys x =>
      cases x with
      | runSandbox cfg =>
        dsimp only
        split
        · rename_i hatt
          rintro (_ | ⟨_, hmem⟩)
          · simp [stopsIdle, htop, hatt.1, hatt.2, hcalled] at hl
          · exact hfree hmem
        · exact hfree
      | _ => exact hfree
    | _ => exact hfree

/-- **A stop leaves its sandbox quiet**, if it finds it without a Running container and a network.
-/
theorem Quiet.of_stop (h : Stopped att s) (hadv : Pool.Advance exec s i o s' t f k out)
    (htag : t.tag = .call (.stopSandbox sb)) (hf : f = .crit (.stopSandbox sb)) (hk : k = [.ret .unit])
    (hidle : s.shared.occupied sb = false) (hfree : sb ∉ att') : Quiet att' s' sb := by
  have hex := hadv.exec
  rw [hf] at hex
  obtain ⟨hcontainers, fs, rfl⟩ := exec_stopSandbox hex
  refine ⟨fun id r hr => ?_, fun u hu id hl => ?_, hfree⟩
  · rw [hcontainers] at hr
    exact World.occupied_eq_false.mp hidle id r hr
  · exfalso
    obtain rfl := h.serial.launches_self hadv (by rw [htag]; rfl) hu hl
    obtain ⟨g, hg, hgl⟩ := List.any_eq_true.mp hl
    rcases Task.mem_resume hg with hg | hg
    · rcases exec_launches hadv.exec g hg hgl with hfl | ⟨hfs, -⟩
      · rw [hf] at hfl
        cases hfl
      · cases hf.symm.trans hfs
    · rw [hk] at hg
      obtain rfl := List.mem_singleton.mp hg
      cases hgl

/-- A step of the stop itself. -/
theorem StopStage.own (hst : StopStage att s sb t) (h : Stopped att s)
    (hadv : Pool.Advance exec s i o s' t f k out) (htag : t.tag = .call (.stopSandbox sb))
    (hl : stopsIdle att s (.step i o)) :
    StopStage (network att s (.step i o) s') s' sb (t.resume k out) := by
  have hcalled : s.stopCalled sb := List.any_eq_true.mpr ⟨t, hadv.mem, by rw [htag]; simp [Tag.stops]⟩
  cases hst with
  | called frames result =>
    rw [hadv.frames] at frames
    obtain ⟨hf, hk⟩ := List.cons.inj frames
    have hidle : s.shared.occupied sb = false ∧ sb ∉ att := by
      simpa [stopsIdle, hadv.top_eq, hf, hadv.task, htag, Tag.stops] using hl
    have hq := Quiet.of_stop h hadv htag hf hk hidle.1
      (network_free hl hcalled hidle.2 : sb ∉ network att s (.step i o) s')
    have hex := hadv.exec
    rw [hf] at hex
    obtain ⟨-, fs, rfl⟩ := exec_stopSandbox hex
    exact .quiet (.inl ⟨fs, by rw [Task.resume_next, hk]⟩) hq
  | failed frames =>
    rw [hadv.frames] at frames
    cases frames
  | quiet frames quiet =>
    have hq : Quiet (network att s (.step i o) s') s' sb := by
      refine quiet.advance h hadv (fun id r hf => ?_) (network_free hl hcalled quiet.free)
      have hapart := h.serial.apart t hadv.mem (by rw [htag]; rfl) id (by rw [htag]; simp) f
        (by simp [hadv.frames])
      rw [hf] at hapart
      simp [Frame.starts] at hapart
    rw [hadv.frames] at frames
    obtain ⟨fs, hfs⟩ := frames.resolve_right fun hnil => List.cons_ne_nil _ _ hnil.1
    cases out with
    | next gs =>
      cases fs with
      | nil =>
        have hex := hadv.exec
        rw [(List.cons.inj hfs).1, exec_ret] at hex
        cases (Prod.mk.inj (Option.some.inj hex)).2
      | cons g fs =>
        obtain ⟨-, rfl⟩ := List.cons.inj hfs
        exact .quiet (.inl ⟨gs ++ fs, (List.append_assoc gs fs _).symm⟩) hq
    | fork tag child =>
      obtain ⟨id, q, rfl, -⟩ := exec_fork hadv.exec
      have hstart := (h.serial.spawner hadv rfl).1
      rw [htag] at hstart
      cases hstart
    | halt r =>
      cases r with
      | error e => exact .failed rfl ⟨e, rfl⟩
      | ok v => exact .quiet (.inr ⟨rfl, v, rfl⟩) hq

/-- A step of another task. -/
theorem StopStage.other {u : Thread} {j : Nat} (hst : StopStage att s sb u) (h : Stopped att s)
    (hadv : Pool.Advance exec s i o s' t f k out) (hj : j ≠ i) (hu : s.tasks[j]? = some u)
    (htag : u.tag = .call (.stopSandbox sb)) (hl : stopsIdle att s (.step i o)) :
    StopStage (network att s (.step i o) s') s' sb u := by
  have hmem := List.mem_of_getElem? hu
  cases hst with
  | called frames result => exact .called frames result
  | failed frames result => exact .failed frames result
  | quiet frames quiet =>
    refine .quiet frames (quiet.advance h hadv (fun id r hf hr hcreated hsb => ?_)
      (network_free hl (List.any_eq_true.mpr ⟨u, hmem, by rw [htag]; simp [Tag.stops]⟩) quiet.free))
    rcases frames with ⟨fs, hfs⟩ | ⟨-, v, hv⟩
    · -- the stop would be a second call at work
      have hcall : t.tag.isCall := by
        cases htag' : t.tag with
        | call c => rfl
        | reaper id' q =>
          obtain ⟨b, hb⟩ := h.serial.reapers t hadv.mem id' q htag'
          rw [hadv.frames, hf] at hb
          cases hb
      have hnil := h.serial.frames_nil hadv hcall hj hu (by rw [htag]; rfl)
      simp [hnil] at hfs
    · have hreturned : s.stopReturned sb :=
        List.any_eq_true.mpr ⟨u, hmem, by simp [htag, Tag.stops, hv, Except.isOk, Except.toBool]⟩
      simp [stopsIdle, hadv.top_eq, hf, hr, hcreated, hsb, hreturned] at hl

theorem Stopped.advance (h : Stopped att s) (hl : stopsIdle att s (.step i o))
    (hadv : Pool.Advance exec s i o s' t f k out) (hstep : step s (.step i o) = some s') :
    Stopped (network att s (.step i o) s') s' := by
  refine ⟨h.serial.advance hadv hstep, ?_, fun u hu sb hsb => ?_⟩
  · refine hadv.forall_tasks h.newborn (fun ht g hg => ?_) (fun _ hu => hu) fun _ u hu => ?_
    · rcases Task.mem_resume hg with hg | hg
      · exact exec_newborn hadv.exec g hg
      · exact ht g (by simp [hadv.frames, hg])
    · obtain ⟨_, _, -, rfl⟩ := children_reaper hadv hu
      simp [Frame.newborn]
  · have htag := Tag.eq_of_stops hsb
    obtain ⟨j, hj⟩ := List.getElem?_of_mem hu
    rcases hadv.cases hj with ⟨-, rfl⟩ | ⟨hne, hj⟩ | ⟨-, hu⟩
    · rw [Task.resume_tag] at htag hsb
      exact (h.stages t hadv.mem sb hsb).own h hadv htag hl
    · exact (h.stages u (List.mem_of_getElem? hj) sb hsb).other h hadv hne hj htag hl
    · obtain ⟨_, _, -, rfl⟩ := children_reaper hadv hu
      cases hsb

end Steps

/-- A call begins. -/
theorem Stopped.invoke {att : List SandboxId} {s : State} {c : Call} (h : Stopped att s)
    (hno : NoCall s) : Stopped att (s.start (.call c) c.frames) := by
  refine ⟨h.serial.invoke hno, fun t ht => ?_, fun t ht sb hsb => ?_⟩
  · rcases Pool.mem_tasks_start.mp ht with ht | rfl
    · exact h.newborn t ht
    · cases c <;> simp [Call.frames, Frame.newborn]
  · rcases Pool.mem_tasks_start.mp ht with ht | rfl
    · cases h.stages t ht sb hsb with
      | called frames result => exact .called frames result
      | failed frames result => exact .failed frames result
      | quiet frames quiet =>
        refine .quiet frames { quiet with unstarted := fun u hu id hl r hr => ?_ }
        rcases Pool.mem_tasks_start.mp hu with hu | rfl
        · exact quiet.unstarted u hu id hl r hr
        · obtain ⟨g, hg, hgl⟩ := List.any_eq_true.mp hl
          rw [(callFrames_fresh c id g hg).1] at hgl
          cases hgl
    · have htag := Tag.eq_of_stops hsb
      cases htag
      exact .called rfl rfl

/-- The processes change and nothing else does. -/
theorem Stopped.of_procs {att : List SandboxId} {s : State} {procs : List Proc} (h : Stopped att s) :
    Stopped att { s with shared := { s.shared with procs := procs } } := by
  refine ⟨{ h.serial with sound := { h.serial.sound with } }, h.newborn, fun t ht sb hsb => ?_⟩
  cases h.stages t ht sb hsb with
  | called frames result => exact .called frames result
  | failed frames result => exact .failed frames result
  | quiet frames quiet => exact .quiet frames { quiet with }

theorem Stopped.step {att : List SandboxId} {s s' : State} {l : Label} (h : Stopped att s)
    (hnr : noRestart l) (hserial : serialized s l) (hl : stopsIdle att s l)
    (hstep : step s l = some s') : Stopped (network att s l s') s' := by
  cases l with
  | invoke c =>
    obtain rfl := Option.some.inj hstep
    exact h.invoke (of_decide_eq_true hserial)
  | step i o =>
    obtain ⟨t, f, k, out, hadv⟩ := Pool.advance_eq_some hstep
    exact h.advance hl hadv hstep
  | exit q st =>
    obtain ⟨p, -, rfl⟩ := step_exit hstep
    exact h.of_procs
  | foreign pid =>
    obtain ⟨-, -, rfl⟩ := step_foreign hstep
    exact h.of_procs
  | restart rs => cases hnr

/-- **A stopped sandbox runs nothing** and has no network, in every state after `stop_sandbox` has
returned Ok, in the runs of calls one after the other in which every `stop_sandbox` finds its
sandbox without a Running container and without a network, no container of a stopped sandbox is
started, and no new sandbox with a network has the id of one that was stopped. -/
theorem stopped_sandbox {listener : Nat} {blake3 : String → String} {ls : List Label}
    {att : List SandboxId} {s : State} (hls : ∀ l ∈ ls, noRestart l)
    (hserial : Along step (fun s l => serialized s l) (init listener blake3) ls)
    (hidle : Along (withHistory step network) (fun p l => stopsIdle p.1 p.2 l)
      ([], init listener blake3) ls)
    (hrun : run (withHistory step network) ([], init listener blake3) ls = some (att, s))
    {sb : SandboxId} (hret : s.stopReturned sb) :
    s.shared.occupied sb = false ∧ sb ∉ att := by
  have hinv : Stopped att s := by
    refine invariant_run (I := fun p : List SandboxId × State => Stopped p.1 p.2) ?_
      ⟨Serial.init listener blake3, by simp [init], by simp [init]⟩
      (((hserial.withHistory []).and hidle).and_labels hls) hrun
    rintro ⟨att, s⟩ l ⟨att', s'⟩ h ⟨hnr, hs, hi⟩ hstep
    obtain ⟨hstep, hatt⟩ := withHistory_eq_some.mp hstep
    exact hatt ▸ h.step hnr hs hi hstep
  obtain ⟨t, ht, hreturned⟩ := List.any_eq_true.mp hret
  obtain ⟨hsb, hok⟩ := of_decide_eq_true hreturned
  cases hinv.stages t ht sb hsb with
  | called frames result => simp [result] at hok
  | failed frames result =>
    obtain ⟨e, he⟩ := result
    simp [he, Except.isOk, Except.toBool] at hok
  | quiet frames quiet => exact ⟨World.occupied_eq_false.mpr quiet.idle, quiet.free⟩

/-! ## Two runs -/

/-- A sandbox is stopped as its container runs. -/
def stoppedRunning : List Label := startedRun ++ Label.invoke (.stopSandbox podSandbox) :: steps 4 4

/-- **A stopped sandbox runs on**: `stop_sandbox` returns Ok, and the container is Running. -/
theorem stopped_sandbox_runs :
    ¬ ∀ (listener : Nat) (blake3 : String → String) (ls : List Label) (att : List SandboxId)
      (s : State) (sb : SandboxId), (∀ l ∈ ls, noRestart l) →
      Along step (fun s l => serialized s l) (init listener blake3) ls →
      run (withHistory step network) ([], init listener blake3) ls = some (att, s) →
      s.stopReturned sb → s.shared.occupied sb = false ∧ sb ∉ att := by
  intro h
  have hrun : (run (withHistory step network) ([], init 1 id) stoppedRunning).any fun p =>
      p.2.stopReturned podSandbox ∧ p.2.shared.occupied podSandbox := by decide
  obtain ⟨⟨att, s⟩, hs, hend⟩ := (Option.any_eq_true _ _).mp hrun
  obtain ⟨hret, hoccupied⟩ := of_decide_eq_true hend
  have hfalse := (h 1 id stoppedRunning att s podSandbox (by decide) (by decide) hs hret).1
  rw [hoccupied] at hfalse
  cases hfalse

/-- A sandbox is stopped before its container is started. -/
def stoppedIdle : List Label := podRun ++ Label.invoke (.stopSandbox podSandbox) :: steps 2 4

theorem stopped_sandbox_stoppedIdle : ∃ att s,
    run (withHistory step network) ([], init 1 id) stoppedIdle = some (att, s) ∧
      s.stopReturned podSandbox ∧ s.shared.occupied podSandbox = false ∧ podSandbox ∉ att := by
  have hrun : (run (withHistory step network) ([], init 1 id) stoppedIdle).any fun p =>
      p.2.stopReturned podSandbox := by decide
  obtain ⟨⟨att, s⟩, hs, hret⟩ := (Option.any_eq_true _ _).mp hrun
  exact ⟨att, s, hs, hret, stopped_sandbox (by decide) (by decide) (by decide) hs hret⟩

end LightrCri.Fake

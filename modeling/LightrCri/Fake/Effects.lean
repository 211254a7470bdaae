import LightrCri.Fake.Execution

/-!
# What one step does to one container

The effect of any frame, of any task, on the cached record of one container (`exec_record`) and on
the processes (`exec_procs`), what it pushes on its stack (`exec_pushes`), and which frames belong
to a start of the container or to its reaper (`Frame.starts`): no other frame leads to one of them
(`exec_starts`).
-/

namespace LightrCri.Fake

open Backend Foundations

variable {self n : Nat} {o : Oracle} {f : Frame} {w w' : World} {out : Out}

/-! ## Processes -/

/-- The processes of `w` are there in `w'`, with the same number and owner, and those that have
ended stay so. -/
def ProcsKept (w w' : World) : Prop :=
  ∀ (q : Nat) (p : Proc), w.procs[q]? = some p → ∃ p' : Proc, w'.procs[q]? = some p' ∧ p'.pid = p.pid ∧
    p'.owner = p.owner ∧ (p'.state = .alive → p.state = .alive)

theorem ProcsKept.refl (w : World) : ProcsKept w w := fun _ p hp => ⟨p, hp, rfl, rfl, id⟩

theorem ProcsKept.of_eq (h : w'.procs = w.procs) : ProcsKept w w' := fun _ p hp =>
  ⟨p, h ▸ hp, rfl, rfl, id⟩

/-- The process `q` has ended. -/
def World.Ended (w : World) (q : Nat) : Prop :=
  ∃ p : Proc, w.procs[q]? = some p ∧ p.state ≠ .alive

theorem ProcsKept.ended {q : Nat} (h : ProcsKept w w') (hq : w.Ended q) : w'.Ended q := by
  obtain ⟨p, hp, hstate⟩ := hq
  obtain ⟨p', hp', -, -, himp⟩ := h q p hp
  exact ⟨p', hp', fun ha => hstate (himp ha)⟩

theorem Proc.exit_kept (p : Proc) (st : WaitStatus) :
    (p.exit st).pid = p.pid ∧ (p.exit st).owner = p.owner ∧ (p.exit st).state ≠ .alive := by
  unfold Proc.exit
  split
  · refine ⟨rfl, rfl, ?_⟩
    show (if p.child then ProcState.zombie st else .gone) ≠ .alive
    split <;> simp
  · rename_i h
    exact ⟨rfl, rfl, h⟩

theorem procsKept_set {q : Nat} {p p' : Proc} (hp : w.procs[q]? = some p) (hpid : p'.pid = p.pid)
    (howner : p'.owner = p.owner) (hstate : p'.state ≠ .alive) :
    ProcsKept w { w with procs := w.procs.set q p' } := by
  intro q' x hx
  by_cases hq : q = q'
  · subst hq
    obtain rfl : p = x := Option.some.inj (hp.symm.trans hx)
    have hlt := (List.getElem?_eq_some_iff.mp hp).1
    exact ⟨p', List.getElem?_set_self hlt, hpid, howner, fun h => absurd h hstate⟩
  · exact ⟨x, by rw [List.getElem?_set_ne hq, hx], rfl, rfl, id⟩

theorem procsKept_append (w : World) (p : Proc) :
    ProcsKept w { w with procs := w.procs ++ [p] } := by
  intro q x hx
  have hlt := (List.getElem?_eq_some_iff.mp hx).1
  exact ⟨x, by rw [List.getElem?_append_left hlt, hx], rfl, rfl, id⟩

theorem procsKept_kill (w : World) (pid sig : Nat) : ProcsKept w (w.kill pid sig) := by
  intro q p hp
  simp only [World.kill, List.getElem?_map, hp, Option.map_some]
  split
  · obtain ⟨hpid, howner, hstate⟩ := p.exit_kept (.signaled SIGKILL)
    exact ⟨_, rfl, hpid, howner, fun h => absurd h hstate⟩
  · exact ⟨p, rfl, rfl, rfl, id⟩

/-- SIGKILL ends the process of that number. -/
theorem kill_ends {pid q : Nat} {p : Proc} (hp : (w.kill pid SIGKILL).procs[q]? = some p)
    (hpid : p.pid = pid) : p.state ≠ .alive := by
  simp only [World.kill, List.getElem?_map, Option.map_eq_some_iff, and_true] at hp
  obtain ⟨x, -, rfl⟩ := hp
  by_cases hx : x.pid = pid
  · rw [if_pos hx]
    exact (x.exit_kept _).2.2
  · rw [if_neg hx] at hpid
    exact absurd hpid hx

theorem Crit.exec_procs (self : Nat) (o : Oracle) (w : World) (c : Crit) :
    (c.exec self o w).1.procs = w.procs := by
  cases c <;> simp only [Crit.exec] <;> (repeat' split) <;> rfl

/-- **What a step does to the processes.** -/
theorem exec_procs (hex : exec self n o f w = some (w', out)) :
    ProcsKept w w' ∧
      (w'.procs.length = w.procs.length ∨
        ∃ id io pid, f = .sys (.spawn id io) ∧ 0 < pid ∧ w.pidAlive pid = false ∧
          w'.procs = w.procs ++ [⟨pid, some id, true, .alive⟩]) := by
  cases f with
  | crit c =>
    obtain ⟨-, hex⟩ := exec_crit_eq_some.mp hex
    have h : w'.procs = w.procs := by simpa only [hex] using c.exec_procs self o w
    exact ⟨.of_eq h, Or.inl (by rw [h])⟩
  | file g =>
    obtain ⟨rfl, -⟩ := exec_file_eq_some.mp hex
    have h := (FileOp.exec_cache_procs o w g).2
    exact ⟨.of_eq h, Or.inl (by rw [h])⟩
  | sys s =>
    cases s with
    | spawn id io =>
      simp only [exec_sys, Sys.exec] at hex
      split at hex
      · obtain ⟨rfl, -⟩ := Prod.mk.inj (Option.some.inj hex)
        exact ⟨.refl w, Or.inl rfl⟩
      · rename_i pid hpid
        split at hex
        · rename_i hfree
          obtain ⟨rfl, -⟩ := Prod.mk.inj (Option.some.inj hex)
          exact ⟨procsKept_append w _, Or.inr ⟨id, io, pid, rfl, hfree.1, hfree.2, rfl⟩⟩
        · simp at hex
    | kill pid sig =>
      obtain ⟨rfl, -⟩ := Prod.mk.inj (Option.some.inj hex)
      exact ⟨procsKept_kill w pid sig, Or.inl (by simp [World.kill])⟩
    | wait id q =>
      simp only [exec_sys, Sys.exec] at hex
      split at hex
      · simp at hex
      · rename_i p hp
        split at hex
        · obtain ⟨rfl, -⟩ := Prod.mk.inj (Option.some.inj hex)
          exact ⟨procsKept_set hp rfl rfl (by simp), Or.inl (by simp)⟩
        · simp at hex
    | _ =>
      have h : w'.procs = w.procs := by
        simp only [exec_sys, Sys.exec] at hex
        repeat' split at hex
        all_goals
          obtain ⟨rfl, -⟩ := Prod.mk.inj (Option.some.inj hex)
          rfl
      exact ⟨.of_eq h, Or.inl (by rw [h])⟩
  | unlock | ret v | fail e =>
    obtain ⟨rfl, -⟩ := Prod.mk.inj (Option.some.inj hex)
    exact ⟨.of_eq rfl, Or.inl rfl⟩

/-! ## Records -/

/-- The record with the start intent. -/
def ContainerRecord.starting (r : ContainerRecord) (startedAt : Int) : ContainerRecord :=
  { r with state := .running, startedAtNanos := startedAt, pid := 0, reason := "starting" }

/-- The record with the number of its process. -/
def ContainerRecord.withPid (r : ContainerRecord) (pid : Nat) : ContainerRecord :=
  { r with pid := pid, reason := "" }

theorem containers_setContainer (c : Cache) (id id' : ContainerId) (r : ContainerRecord) :
    (c.setContainer id r).containers[id']? = if id' = id then some r else c.containers[id']? := by
  rw [Cache.setContainer, Std.ExtTreeMap.getElem?_insert]
  by_cases h : id' = id
  · simp [h]
  · simp [h, Ne.symm h]

theorem containers_eraseContainer (c : Cache) (id id' : ContainerId) :
    (c.eraseContainer id).containers[id']? = if id' = id then none else c.containers[id']? := by
  rw [Cache.eraseContainer, Std.ExtTreeMap.getElem?_erase]
  by_cases h : id' = id
  · simp [h]
  · simp [h, Ne.symm h]

/-- What a step with the frame `f` does to the cached record of the container `id`. -/
inductive RecordStep (id : ContainerId) (f : Frame) (w w' : World) : Prop
  | same (record : w'.cache.containers[id]? = w.cache.containers[id]?)
  | intent (r) (t : Int) (frame : f = .crit (.startIntent id))
    (old : w.cache.containers[id]? = some r)
    (new : w'.cache.containers[id]? = some (r.starting t))
  | spawnFailed (r r') (e : String) (frame : f = .crit (.spawnFailed id e))
    (old : w.cache.containers[id]? = some r) (new : w'.cache.containers[id]? = some r')
    (exited : r'.state = .exited)
  | persistPid (r) (pid : Nat) (frame : f = .crit (.persistPid id pid))
    (old : w.cache.containers[id]? = some r)
    (new : w'.cache.containers[id]? = some (r.withPid pid))
  | stopped (r r') (grace : Int) (frame : f = .crit (.recordStopped id grace))
    (old : w.cache.containers[id]? = some r) (running : r.state = .running)
    (new : w'.cache.containers[id]? = some r') (exited : r'.state = .exited)
  | reaped (r r') (t : Int) (st) (frame : f = .crit (.reap id t st))
    (old : w.cache.containers[id]? = some r) (running : r.state = .running)
    (new : w'.cache.containers[id]? = some r') (exited : r'.state = .exited)
  | dropped (frame : f = .crit (.dropContainer id)) (new : w'.cache.containers[id]? = none)
  | inserted (r) (frame : f = .crit (.insertContainer r)) (key : r.id = id)
    (new : w'.cache.containers[id]? = some r)

/-- A step that sets the record of some container. -/
theorem RecordStep.of_set {id id' : ContainerId} {w w' : World} {r' : ContainerRecord}
    (hc : w'.cache = w.cache.setContainer id' r')
    (h : id = id' → w'.cache.containers[id]? = some r' → RecordStep id f w w') :
    RecordStep id f w w' := by
  by_cases hid : id = id'
  · refine h hid ?_
    rw [hc, containers_setContainer, if_pos hid]
  · exact .same (by rw [hc, containers_setContainer, if_neg hid])

theorem Crit.exec_record (self : Nat) (o : Oracle) (w : World) (c : Crit) (id : ContainerId) :
    RecordStep id (.crit c) w (c.exec self o w).1 := by
  cases c with
  | insertContainer r =>
    refine .of_set rfl fun hid hnew => ?_
    exact .inserted r rfl hid.symm hnew
  | startIntent id' =>
    simp only [Crit.exec]
    split
    · exact .same rfl
    · rename_i r hr
      refine .of_set rfl fun hid hnew => ?_
      subst hid
      exact .intent r o.clock rfl hr hnew
  | spawnFailed id' e =>
    simp only [Crit.exec]
    split
    · exact .same rfl
    · rename_i r hr
      refine .of_set rfl fun hid hnew => ?_
      subst hid
      exact .spawnFailed r _ e rfl hr hnew rfl
  | persistPid id' pid =>
    simp only [Crit.exec]
    split
    · exact .same rfl
    · rename_i r hr
      refine .of_set rfl fun hid hnew => ?_
      subst hid
      exact .persistPid r pid rfl hr hnew
  | recordStopped id' grace =>
    simp only [Crit.exec]
    split
    · exact .same rfl
    · rename_i r hr
      split
      · rename_i hrun
        refine .of_set rfl fun hid hnew => ?_
        subst hid
        exact .stopped r _ grace rfl hr hrun hnew rfl
      · exact .same rfl
  | reap id' t st =>
    simp only [Crit.exec]
    split
    · exact .same rfl
    · rename_i r hr
      split
      · rename_i hrun
        refine .of_set rfl fun hid hnew => ?_
        subst hid
        exact .reaped r _ t st rfl hr hrun hnew rfl
      · exact .same rfl
  | dropContainer id' =>
    by_cases hid : id = id'
    · subst hid
      exact .dropped rfl (by simp [Crit.exec, containers_eraseContainer])
    · exact .same (by simp [Crit.exec, containers_eraseContainer, hid])
  | _ =>
    simp only [Crit.exec]
    repeat' split
    all_goals exact .same rfl

/-- **What a step does to a record.** -/
theorem exec_record (id : ContainerId) (hex : exec self n o f w = some (w', out)) :
    RecordStep id f w w' := by
  cases f with
  | crit c =>
    obtain ⟨-, hex⟩ := exec_crit_eq_some.mp hex
    simpa only [hex] using c.exec_record self o w id
  | file g =>
    obtain ⟨rfl, -⟩ := exec_file_eq_some.mp hex
    exact .same (by rw [(FileOp.exec_cache_procs o w g).1])
  | sys s =>
    have h : w'.cache = w.cache := by
      cases s <;> simp only [exec_sys, Sys.exec] at hex <;> (repeat' split at hex)
      all_goals first
        | (obtain ⟨rfl, -⟩ := Prod.mk.inj (Option.some.inj hex)
           rfl)
        | cases hex
    exact .same (by rw [h])
  | unlock | ret v | fail e =>
    obtain ⟨rfl, -⟩ := Prod.mk.inj (Option.some.inj hex)
    exact .same rfl

/-- The cached record of the container is Running. -/
def World.isRunning (w : World) (id : ContainerId) : Bool :=
  w.cache.containers[id]?.any fun r => r.state = .running

theorem World.isRunning_eq_true {w : World} {id : ContainerId} :
    w.isRunning id ↔ ∃ r, w.cache.containers[id]? = some r ∧ r.state = .running := by
  simp [World.isRunning, Option.any_eq_true]

theorem World.isRunning_eq_false {w : World} {id : ContainerId} :
    w.isRunning id = false ↔
      ∀ r, w.cache.containers[id]? = some r → r.state ≠ .running := by
  simp [World.isRunning, Option.any_eq_false]

/-! ## Pushed frames -/

/-- What a frame that leads to others pushes. -/
inductive Pushes (w : World) : Frame → List Frame → Prop
  | stopSandbox (id r) : Pushes w (.crit (.stopSandbox id)) [.file (.write (.sandbox r) true)]
  | collectContainers (id ids) :
    Pushes w (.crit (.collectContainers id)) (cascade ids ++ [Frame.crit (.deleteSandbox id)])
  | deleteSandbox (id) : Pushes w (.crit (.deleteSandbox id)) [.file (.unlink (.sandbox id))]
  | createContainer (sb cfg) :
    Pushes w (.crit (.createContainer sb cfg)) [.sys (.newContainer sb cfg)]
  | startContainer (id) (r : ContainerRecord) (present : w.cache.containers[id]? = some r)
    (created : r.state = .created) :
    Pushes w (.crit (.startContainer id)) [.crit (.fetchSandbox id r)]
  | fetchSandbox (id r info) : Pushes w (.crit (.fetchSandbox id r)) [.sys (.prepare id r info)]
  | prepare (id r info io) :
    Pushes w (.sys (.prepare id r info)) [.crit (.startIntent id), .sys (.spawn id io)]
  | startIntent (id r t) (present : w.cache.containers[id]? = some r) :
    Pushes w (.crit (.startIntent id)) [.file (.write (.container (r.starting t)) true)]
  | noSpawn (id io e e') : Pushes w (.sys (.spawn id io)) [.crit (.spawnFailed id e), .fail e']
  | spawnTty (id io pid) : Pushes w (.sys (.spawn id io))
      [.sys (.insertIo id io), .crit (.persistPid id pid), .sys (.spawnReaper id w.procs.length)]
  | spawnPipes (id io pid) : Pushes w (.sys (.spawn id io))
      [.sys .dupPipes, .sys (.insertIo id io), .crit (.persistPid id pid),
        .sys (.spawnReaper id w.procs.length)]
  | spawnFailed (id e) (old r : ContainerRecord) (present : w.cache.containers[id]? = some old)
    (same : r.id = old.id) (exited : r.state = .exited) :
    Pushes w (.crit (.spawnFailed id e)) [.file (.write (.container r) false)]
  | persistPid (id pid r) (present : w.cache.containers[id]? = some r) :
    Pushes w (.crit (.persistPid id pid)) [.file (.write (.container (r.withPid pid)) true)]
  | terminate (id grace pid) : Pushes w (.crit (.stopContainer id grace))
      [.sys (.kill pid SIGTERM), .crit (.waitGrace id pid)]
  | kill (id grace pid) : Pushes w (.crit (.stopContainer id grace))
      [.sys (.kill pid SIGKILL), .crit (.waitKilled id)]
  | unbacked (id grace) :
    Pushes w (.crit (.stopContainer id grace)) [.crit (.recordStopped id grace)]
  | graceOver (id pid) :
    Pushes w (.crit (.waitGrace id pid)) [.sys (.kill pid SIGKILL), .crit (.waitKilled id)]
  | waitGrace (id pid) : Pushes w (.crit (.waitGrace id pid)) [.crit (.waitGrace id pid)]
  | waitKilled (id) : Pushes w (.crit (.waitKilled id)) [.crit (.waitKilled id)]
  | recordStopped (id grace) (r : ContainerRecord) (exited : r.state = .exited)
    (running : w.isRunning id) :
    Pushes w (.crit (.recordStopped id grace)) [.file (.write (.container r) true)]
  | stopFirst (id) : Pushes w (.crit (.removeContainer id))
      [.crit (.stopContainer id 0), .crit (.dropContainer id)]
  | removeContainer (id) : Pushes w (.crit (.removeContainer id)) [.crit (.dropContainer id)]
  | dropContainer (id) : Pushes w (.crit (.dropContainer id))
      [.sys (.removeIo id), .file (.unlink (.container id))]
  | findImage (ref imgId) :
    Pushes w (.crit (.findImage ref)) [.crit (.checkImageInUse ref imgId)]
  | checkImageInUse (ref imgId) :
    Pushes w (.crit (.checkImageInUse ref imgId)) [.crit (.dropImage imgId)]
  | dropImage (imgId) : Pushes w (.crit (.dropImage imgId)) [.file (.unlink (.image imgId))]
  | wait (id q t st) : Pushes w (.sys (.wait id q)) [.sys (.removeIo id), .crit (.reap id t st)]
  | reap (id t st) (r : ContainerRecord) (code : Int) (reason : String)
    (present : w.cache.containers[id]? = some r) (running : r.state = .running) :
    Pushes w (.crit (.reap id t st))
      [.file (.write (.container (r.toExited t code reason)) false), .unlock]
  | write (r strict p n) :
    Pushes w (.file (.write r strict)) [.file (.rename p n r strict)]
  | runSandbox (cfg r v) : Pushes w (.sys (.runSandbox cfg))
      [.file (.write (.sandbox r) true), .crit (.insertSandbox r), .ret v]
  | newContainer (sb cfg) (r : ContainerRecord) (v) (created : r.state = .created) :
    Pushes w (.sys (.newContainer sb cfg))
      [.file (.write (.container r) true), .crit (.insertContainer r), .ret v]
  | pullImage (ref r v) : Pushes w (.sys (.pullImage ref))
      [.file (.write (.image r) true), .crit (.insertImage r), .ret v]

theorem Crit.exec_pushes {c : Crit} (hex : c.exec self o w = (w', out)) :
    out.pushed = [] ∨ Pushes w (.crit c) out.pushed := by
  cases c with
  | recordStopped id grace =>
    simp only [Crit.exec] at hex
    split at hex
    · obtain ⟨-, rfl⟩ := Prod.mk.inj hex
      exact Or.inl rfl
    · rename_i r hr
      split at hex
      · rename_i hrun
        obtain ⟨-, rfl⟩ := Prod.mk.inj hex
        refine Or.inr (.recordStopped id grace _ rfl ?_)
        exact World.isRunning_eq_true.mpr ⟨r, hr, hrun⟩
      · obtain ⟨-, rfl⟩ := Prod.mk.inj hex
        exact Or.inl rfl
  | _ =>
    simp only [Crit.exec] at hex
    repeat' split at hex
    all_goals
      obtain ⟨-, rfl⟩ := Prod.mk.inj hex
      first
        | exact Or.inl rfl
        | (refine Or.inr ?_
           constructor <;> first | assumption | rfl)

/-- **What a step pushes.** -/
theorem exec_pushes (hex : exec self n o f w = some (w', out)) :
    out.pushed = [] ∨ Pushes w f out.pushed := by
  cases f with
  | crit c => exact Crit.exec_pushes (exec_crit_eq_some.mp hex).2
  | file g =>
    obtain ⟨-, rfl⟩ := exec_file_eq_some.mp hex
    cases g with
    | write r strict =>
      rcases FileOp.exec_write_cases o w r strict with ⟨-, he⟩ | ⟨-, -, e, he⟩ <;> rw [he]
      · exact Or.inr (.write r strict _ _)
      · exact Or.inl (pushed_ioError strict e)
    | rename p m r strict =>
      rcases FileOp.exec_rename_cases o w p m r strict with ⟨-, he⟩ | ⟨-, -, e, he⟩ <;> rw [he]
      · exact Or.inl rfl
      · exact Or.inl (pushed_ioError strict e)
    | unlink ob =>
      simp only [FileOp.exec]
      split <;> exact Or.inl rfl
  | sys s =>
    cases s with
    | spawn id io =>
      simp only [exec_sys, Sys.exec] at hex
      split at hex
      · obtain ⟨-, rfl⟩ := Prod.mk.inj (Option.some.inj hex)
        exact Or.inr (.noSpawn id io _ _)
      · split at hex
        · obtain ⟨-, rfl⟩ := Prod.mk.inj (Option.some.inj hex)
          right
          split
          · exact .spawnTty id io _
          · exact .spawnPipes id io _
        · simp at hex
    | _ =>
      simp only [exec_sys, Sys.exec] at hex
      repeat' split at hex
      all_goals first
        | (obtain ⟨-, rfl⟩ := Prod.mk.inj (Option.some.inj hex)
           first
             | exact Or.inl rfl
             | (refine Or.inr ?_
                constructor <;> rfl))
        | cases hex
  | unlock | ret v | fail e =>
    obtain ⟨-, rfl⟩ := Prod.mk.inj (Option.some.inj hex)
    exact Or.inl rfl

theorem forall_mem_collect {P : Frame → Prop} {ids : List ContainerId} {id : SandboxId}
    (hstop : ∀ c, P (.crit (.stopContainer c 0))) (hremove : ∀ c, P (.crit (.removeContainer c)))
    (hdelete : P (.crit (.deleteSandbox id))) :
    ∀ g ∈ cascade ids ++ [Frame.crit (.deleteSandbox id)], P g := by
  intro g hg
  simp only [List.mem_append, cascade, List.mem_flatMap, List.mem_cons, List.not_mem_nil,
    or_false] at hg
  rcases hg with ⟨c, -, rfl | rfl⟩ | rfl
  · exact hstop c
  · exact hremove c
  · exact hdelete

/-- The frame inserts no container but a Created one. -/
def Frame.newborn : Frame → Prop
  | .crit (.insertContainer r) => r.state = .created
  | _ => True

theorem exec_newborn (hex : exec self n o f w = some (w', out)) :
    ∀ g ∈ out.pushed, g.newborn := by
  rcases exec_pushes hex with h | h
  · simp [h]
  · generalize out.pushed = fs at h
    cases h with
    | collectContainers => exact forall_mem_collect (fun _ => trivial) (fun _ => trivial) trivial
    | _ => simp_all [Frame.newborn]

/-- **Only a start intent makes a record Running.** -/
theorem exec_isRunning {id : ContainerId} (hex : exec self n o f w = some (w', out))
    (hborn : f.newborn) (hintent : f ≠ .crit (.startIntent id)) (h : w.isRunning id = false) :
    w'.isRunning id = false := by
  rw [World.isRunning_eq_false] at h ⊢
  intro r' hr'
  cases exec_record id hex with
  | same record => exact h r' (record ▸ hr')
  | intent _ _ frame => exact absurd frame hintent
  | spawnFailed _ r _ _ _ new exited =>
    obtain rfl := Option.some.inj (new.symm.trans hr')
    simp [exited]
  | stopped _ r _ _ _ _ new exited | reaped _ r _ _ _ _ _ new exited =>
    obtain rfl := Option.some.inj (new.symm.trans hr')
    simp [exited]
  | persistPid r _ _ old new =>
    obtain rfl := Option.some.inj (new.symm.trans hr')
    exact h r old
  | dropped _ new =>
    rw [new] at hr'
    cases hr'
  | inserted r frame _ new =>
    obtain rfl := Option.some.inj (new.symm.trans hr')
    rw [frame, Frame.newborn] at hborn
    simp [hborn]

/-! ## The frames of a start -/

/-- The frame belongs to a start of the container or to a reaper of one. -/
def Frame.starts (id : ContainerId) : Frame → Bool
  | .crit (.startContainer id') => id' = id
  | .crit (.fetchSandbox id' _) => id' = id
  | .crit (.startIntent id') => id' = id
  | .crit (.spawnFailed id' _) => id' = id
  | .crit (.persistPid id' _) => id' = id
  | .crit (.reap id' _ _) => id' = id
  | .sys (.prepare id' _ _) => id' = id
  | .sys (.spawn id' _) => id' = id
  | .sys (.spawnReaper id' _) => id' = id
  | .sys (.wait id' _) => id' = id
  | _ => false

/-- **Only a frame of a start leads to another one.** -/
theorem exec_starts {id : ContainerId} (hex : exec self n o f w = some (w', out)) :
    ∀ g ∈ out.pushed, g.starts id → f.starts id := by
  rcases exec_pushes hex with h | h
  · simp [h]
  · generalize out.pushed = fs at h
    cases h with
    | collectContainers =>
      exact forall_mem_collect (by simp [Frame.starts]) (by simp [Frame.starts])
        (by simp [Frame.starts])
    | _ => simp [Frame.starts]

/-- The frames of the task have nothing to do with a start of the container. -/
def Apart (id : ContainerId) (t : Thread) : Prop := ∀ f ∈ t.frames, f.starts id = false

theorem Apart.resume {id : ContainerId} {t : Thread} {k : List Frame} (h : Apart id t)
    (hf : t.frames = f :: k) (hex : exec self n o f w = some (w', out)) :
    Apart id (t.resume k out) := by
  intro g hg
  rcases Task.mem_resume hg with hg | hg
  · have hpushed : g.starts id → f.starts id := exec_starts hex g hg
    rw [h f (by simp [hf])] at hpushed
    simpa using hpushed
  · exact h g (by simp [hf, hg])

theorem callFrames_starts {c : Call} {id : ContainerId} (h : c ≠ .startContainer id) :
    ∀ f ∈ c.frames, f.starts id = false := by
  cases c with
  | startContainer id' =>
    have hne : id' ≠ id := fun he => h (by rw [he])
    simp [Call.frames, Frame.starts, hne]
  | _ => simp [Call.frames, Frame.starts]

end LightrCri.Fake

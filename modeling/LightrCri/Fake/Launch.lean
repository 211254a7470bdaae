import LightrCri.Fake.Effects
import LightrCri.Fake.Duty

/-!
# The stages of a start and of a reaper

What the stack of a `start_container` call can look like (`StartTask`), and what one step of the
call does (`StartTask.step`): each is an entry of `StartStep`, which names the record and process
effects of the steps that have one. The same for the detached reaper (`ReaperTask`,
`ReaperStep`). The claims about starting rest on these two inversions and never unfold `exec`.
-/

namespace LightrCri.Fake

open Backend Foundations

/-- How far a `start_container` call has come. -/
inductive StartPhase
  /-- Up to the write of the Running intent into the cache, or refused before it. -/
  | checking
  /-- The intent is in the cache and the process is not spawned. -/
  | launching
  /-- No process will be spawned any more. -/
  | failed
  /-- The process `q`, of number `pid`, is spawned; `pending` until the number is in the cache
  or the call has lost the record. -/
  | launched (q pid : Nat) (pending : Bool)

/-- The stacks and results of a `start_container(id)` call, by phase. -/
inductive StartTask (id : ContainerId) : StartPhase → List Frame → Option Result → Prop
  | check : StartTask id .checking [.crit (.startContainer id), .ret .unit] none
  | fetch (r) : StartTask id .checking [.crit (.fetchSandbox id r), .ret .unit] none
  | prepare (r info) : StartTask id .checking [.sys (.prepare id r info), .ret .unit] none
  | intent (io) :
    StartTask id .checking [.crit (.startIntent id), .sys (.spawn id io), .ret .unit] none
  | refused (e) : StartTask id .checking [] (some (.error e))
  | write (r io) :
    StartTask id .launching [.file (.write r true), .sys (.spawn id io), .ret .unit] none
  | rename (p n r io) :
    StartTask id .launching [.file (.rename p n r true), .sys (.spawn id io), .ret .unit] none
  | spawn (io) : StartTask id .launching [.sys (.spawn id io), .ret .unit] none
  | spawnFailed (e e') :
    StartTask id .failed [.crit (.spawnFailed id e), .fail e', .ret .unit] none
  | failedWrite (r e') : StartTask id .failed [.file (.write r false), .fail e', .ret .unit] none
  | failedRename (p n r e') :
    StartTask id .failed [.file (.rename p n r false), .fail e', .ret .unit] none
  | fail (e') : StartTask id .failed [.fail e', .ret .unit] none
  | failed (e) : StartTask id .failed [] (some (.error e))
  | dupPipes (q pid io) :
    StartTask id (.launched q pid true) [.sys .dupPipes, .sys (.insertIo id io),
      .crit (.persistPid id pid), .sys (.spawnReaper id q), .ret .unit] none
  | insertIo (q pid io) :
    StartTask id (.launched q pid true) [.sys (.insertIo id io), .crit (.persistPid id pid),
      .sys (.spawnReaper id q), .ret .unit] none
  | persistPid (q pid) :
    StartTask id (.launched q pid true)
      [.crit (.persistPid id pid), .sys (.spawnReaper id q), .ret .unit] none
  | pidWrite (q pid r) :
    StartTask id (.launched q pid false)
      [.file (.write r true), .sys (.spawnReaper id q), .ret .unit] none
  | pidRename (q pid p n r) :
    StartTask id (.launched q pid false)
      [.file (.rename p n r true), .sys (.spawnReaper id q), .ret .unit] none
  | spawnReaper (q pid) :
    StartTask id (.launched q pid false) [.sys (.spawnReaper id q), .ret .unit] none
  | ret (q pid) : StartTask id (.launched q pid false) [.ret .unit] none
  | ok (q pid) : StartTask id (.launched q pid false) [] (some (.ok .unit))
  | lost (q pid e) : StartTask id (.launched q pid false) [] (some (.error e))

/-- What a step of a `start_container(id)` call with the frame `f` does to the cache and the
processes. -/
inductive StartStep (id : ContainerId) (o : Oracle) (f : Frame) (w w' : World) :
    StartPhase → StartPhase → Prop
  | quiet (ph) (cache : w'.cache = w.cache) (procs : w'.procs = w.procs) :
    StartStep id o f w w' ph ph
  | intent (r) (t : Int) (frame : f = .crit (.startIntent id))
    (present : w.cache.containers[id]? = some r)
    (cache : w'.cache = w.cache.setContainer id (r.starting t)) (procs : w'.procs = w.procs) :
    StartStep id o f w w' .checking .launching
  | giveUp (cache : w'.cache = w.cache) (procs : w'.procs = w.procs) :
    StartStep id o f w w' .launching .failed
  | spawnFailed (r) (t : Int) (e : String) (frame : f = .crit (.spawnFailed id e))
    (present : w.cache.containers[id]? = some r)
    (cache : w'.cache =
      w.cache.setContainer id { r.toExited t (-1) "spawn-failed" with message := e })
    (procs : w'.procs = w.procs) : StartStep id o f w w' .failed .failed
  | spawn (io pid) (frame : f = .sys (.spawn id io)) (result : o.spawn = .ok pid)
    (pos : 0 < pid) (free : w.pidAlive pid = false) (cache : w'.cache = w.cache)
    (procs : w'.procs = w.procs ++ [⟨pid, some id, true, .alive⟩]) :
    StartStep id o f w w' .launching (.launched w.procs.length pid true)
  | persistPid (q pid r) (frame : f = .crit (.persistPid id pid))
    (present : w.cache.containers[id]? = some r)
    (cache : w'.cache = w.cache.setContainer id (r.withPid pid)) (procs : w'.procs = w.procs) :
    StartStep id o f w w' (.launched q pid true) (.launched q pid false)
  | lost (q pid) (frame : f = .sys .dupPipes ∧ o.fault.isSome ∨
      f = .crit (.persistPid id pid) ∧ w.cache.containers[id]? = none)
    (cache : w'.cache = w.cache) (procs : w'.procs = w.procs) :
    StartStep id o f w w' (.launched q pid true) (.launched q pid false)

/-- **The steps of a start.** -/
theorem StartTask.step {id : ContainerId} {ph : StartPhase} {t : Thread} {f : Frame}
    {k : List Frame} {self n : Nat} {o : Oracle} {w w' : World} {out : Out}
    (h : StartTask id ph t.frames t.result) (hf : t.frames = f :: k)
    (hex : exec self n o f w = some (w', out)) :
    ∃ ph', StartTask id ph' (t.resume k out).frames (t.resume k out).result ∧
      StartStep id o f w w' ph ph' := by
  rw [hf] at h
  generalize hres : t.result = res at h
  cases h with
  | check =>
    obtain ⟨-, hex⟩ := exec_crit_eq_some.mp hex
    simp only [Crit.exec] at hex
    split at hex
    · obtain ⟨rfl, rfl⟩ := Prod.mk.inj hex
      exact ⟨_, .refused _, .quiet _ rfl rfl⟩
    · split at hex <;> obtain ⟨rfl, rfl⟩ := Prod.mk.inj hex
      · simp only [Task.resume, hres]
        exact ⟨_, .fetch _, .quiet _ rfl rfl⟩
      · exact ⟨_, .refused _, .quiet _ rfl rfl⟩
  | fetch r =>
    obtain ⟨-, hex⟩ := exec_crit_eq_some.mp hex
    simp only [Crit.exec] at hex
    obtain ⟨rfl, rfl⟩ := Prod.mk.inj hex
    simp only [Task.resume, hres]
    exact ⟨_, .prepare _ _, .quiet _ rfl rfl⟩
  | prepare r info =>
    simp only [exec_sys, Sys.exec] at hex
    split at hex <;> split at hex <;> obtain ⟨rfl, rfl⟩ := Prod.mk.inj (Option.some.inj hex)
    all_goals first
      | exact ⟨_, .refused _, .quiet _ rfl rfl⟩
      | (simp only [Task.resume, hres]; exact ⟨_, .intent _, .quiet _ rfl rfl⟩)
  | intent io =>
    obtain ⟨-, hex⟩ := exec_crit_eq_some.mp hex
    simp only [Crit.exec] at hex
    split at hex
    · obtain ⟨rfl, rfl⟩ := Prod.mk.inj hex
      exact ⟨_, .refused _, .quiet _ rfl rfl⟩
    · rename_i r hr
      obtain ⟨rfl, rfl⟩ := Prod.mk.inj hex
      simp only [Task.resume, hres]
      exact ⟨_, .write _ _, .intent r o.clock rfl hr rfl rfl⟩
  | write r io =>
    obtain ⟨hc, hp⟩ := FileOp.exec_cache_procs o w (.write r true)
    obtain ⟨rfl, rfl⟩ := exec_file_eq_some.mp hex
    rcases FileOp.exec_write_cases o w r true with ⟨-, he⟩ | ⟨-, -, e, he⟩ <;> rw [he]
    · simp only [Task.resume, hres]
      exact ⟨_, .rename _ _ _ _, .quiet _ hc hp⟩
    · exact ⟨_, .failed _, .giveUp hc hp⟩
  | rename p m r io =>
    obtain ⟨hc, hp⟩ := FileOp.exec_cache_procs o w (.rename p m r true)
    obtain ⟨rfl, rfl⟩ := exec_file_eq_some.mp hex
    rcases FileOp.exec_rename_cases o w p m r true with ⟨-, he⟩ | ⟨-, -, e, he⟩ <;> rw [he]
    · simp only [Task.resume, hres]
      exact ⟨_, .spawn _, .quiet _ hc hp⟩
    · exact ⟨_, .failed _, .giveUp hc hp⟩
  | spawn io =>
    simp only [exec_sys, Sys.exec] at hex
    split at hex
    · obtain ⟨rfl, rfl⟩ := Prod.mk.inj (Option.some.inj hex)
      simp only [Task.resume, hres]
      exact ⟨_, .spawnFailed _ _, .giveUp rfl rfl⟩
    · rename_i pid hpid
      split at hex
      · rename_i hfree
        obtain ⟨rfl, rfl⟩ := Prod.mk.inj (Option.some.inj hex)
        refine ⟨_, ?_, .spawn io pid rfl hpid hfree.1 hfree.2 rfl rfl⟩
        simp only [Task.resume, hres]
        split
        · exact .insertIo _ _ _
        · exact .dupPipes _ _ _
      · simp at hex
  | spawnFailed e e' =>
    obtain ⟨-, hex⟩ := exec_crit_eq_some.mp hex
    simp only [Crit.exec] at hex
    split at hex
    · obtain ⟨rfl, rfl⟩ := Prod.mk.inj hex
      simp only [Task.resume, hres]
      exact ⟨_, .fail _, .quiet _ rfl rfl⟩
    · rename_i r hr
      obtain ⟨rfl, rfl⟩ := Prod.mk.inj hex
      simp only [Task.resume, hres]
      exact ⟨_, .failedWrite _ _, .spawnFailed r o.clock e rfl hr rfl rfl⟩
  | failedWrite r e' =>
    obtain ⟨hc, hp⟩ := FileOp.exec_cache_procs o w (.write r false)
    obtain ⟨rfl, rfl⟩ := exec_file_eq_some.mp hex
    rcases FileOp.exec_write_cases o w r false with ⟨-, he⟩ | ⟨-, -, e, he⟩ <;> rw [he] <;>
      simp only [Task.resume, ioError, hres]
    · exact ⟨_, .failedRename _ _ _ _, .quiet _ hc hp⟩
    · exact ⟨_, .fail _, .quiet _ hc hp⟩
  | failedRename p m r e' =>
    obtain ⟨hc, hp⟩ := FileOp.exec_cache_procs o w (.rename p m r false)
    obtain ⟨rfl, rfl⟩ := exec_file_eq_some.mp hex
    rcases FileOp.exec_rename_cases o w p m r false with ⟨-, he⟩ | ⟨-, -, e, he⟩ <;> rw [he] <;>
      simp only [Task.resume, ioError, hres]
    · exact ⟨_, .fail _, .quiet _ hc hp⟩
    · exact ⟨_, .fail _, .quiet _ hc hp⟩
  | fail e' =>
    obtain ⟨rfl, rfl⟩ := Prod.mk.inj (Option.some.inj hex)
    exact ⟨_, .failed _, .quiet _ rfl rfl⟩
  | dupPipes q pid io =>
    simp only [exec_sys, Sys.exec] at hex
    split at hex <;> obtain ⟨rfl, rfl⟩ := Prod.mk.inj (Option.some.inj hex)
    · simp only [Task.resume, hres]
      exact ⟨_, .insertIo _ _ _, .quiet _ rfl rfl⟩
    · rename_i e he
      exact ⟨_, .lost q pid _, .lost q pid (.inl ⟨rfl, by rw [he]; rfl⟩) rfl rfl⟩
  | insertIo q pid io =>
    obtain ⟨rfl, rfl⟩ := Prod.mk.inj (Option.some.inj hex)
    simp only [Task.resume, hres]
    exact ⟨_, .persistPid _ _, .quiet _ rfl rfl⟩
  | persistPid q pid =>
    obtain ⟨-, hex⟩ := exec_crit_eq_some.mp hex
    simp only [Crit.exec] at hex
    split at hex
    · obtain ⟨rfl, rfl⟩ := Prod.mk.inj hex
      exact ⟨_, .lost q pid _, .lost q pid (.inr ⟨rfl, ‹_›⟩) rfl rfl⟩
    · rename_i r hr
      obtain ⟨rfl, rfl⟩ := Prod.mk.inj hex
      simp only [Task.resume, hres]
      exact ⟨_, .pidWrite _ _ _, .persistPid q pid r rfl hr rfl rfl⟩
  | pidWrite q pid r =>
    obtain ⟨hc, hp⟩ := FileOp.exec_cache_procs o w (.write r true)
    obtain ⟨rfl, rfl⟩ := exec_file_eq_some.mp hex
    rcases FileOp.exec_write_cases o w r true with ⟨-, he⟩ | ⟨-, -, e, he⟩ <;> rw [he]
    · simp only [Task.resume, hres]
      exact ⟨_, .pidRename _ pid _ _ _, .quiet _ hc hp⟩
    · exact ⟨_, .lost q pid _, .quiet _ hc hp⟩
  | pidRename q pid p m r =>
    obtain ⟨hc, hp⟩ := FileOp.exec_cache_procs o w (.rename p m r true)
    obtain ⟨rfl, rfl⟩ := exec_file_eq_some.mp hex
    rcases FileOp.exec_rename_cases o w p m r true with ⟨-, he⟩ | ⟨-, -, e, he⟩ <;> rw [he]
    · simp only [Task.resume, hres]
      exact ⟨_, .spawnReaper _ pid, .quiet _ hc hp⟩
    · exact ⟨_, .lost q pid _, .quiet _ hc hp⟩
  | spawnReaper q pid =>
    obtain ⟨rfl, rfl⟩ := Prod.mk.inj (Option.some.inj hex)
    simp only [Task.resume, hres]
    exact ⟨_, .ret q pid, .quiet _ rfl rfl⟩
  | ret q pid =>
    obtain ⟨rfl, rfl⟩ := Prod.mk.inj (Option.some.inj hex)
    exact ⟨_, .ok q pid, .quiet _ rfl rfl⟩

/-! ## Reapers -/

/-- The stacks of the reaper of the process `q`, spawned for `id`; `waited` once the process has
been waited for. -/
inductive ReaperTask (id : ContainerId) (q : Nat) : Bool → List Frame → Prop
  | wait : ReaperTask id q false [.sys (.wait id q)]
  | removeIo (t st) :
    ReaperTask id q true [.sys (.removeIo id), .crit (.reap id t st)]
  | reap (t st) : ReaperTask id q true [.crit (.reap id t st)]
  | write (r) : ReaperTask id q true [.file (.write (.container r) false), .unlock]
  | rename (p n r) : ReaperTask id q true [.file (.rename p n (.container r) false), .unlock]
  | unlock : ReaperTask id q true [.unlock]
  | done : ReaperTask id q true []

/-- What a step of the reaper of `q` does to the cache and the processes. -/
inductive ReaperStep (id : ContainerId) (q : Nat) (w w' : World) : Bool → Bool → Prop
  | quiet (b) (cache : w'.cache = w.cache) (procs : w'.procs = w.procs) :
    ReaperStep id q w w' b b
  | wait (p st) (proc : w.procs[q]? = some p) (zombie : p.state = .zombie st)
    (cache : w'.cache = w.cache) (procs : w'.procs = w.procs.set q { p with state := .gone }) :
    ReaperStep id q w w' false true
  | reap (r) (t code : Int) (reason : String) (present : w.cache.containers[id]? = some r)
    (running : r.state = .running)
    (cache : w'.cache = w.cache.setContainer id (r.toExited t code reason))
    (procs : w'.procs = w.procs) : ReaperStep id q w w' true true

/-- **The steps of a reaper.** -/
theorem ReaperTask.step {id : ContainerId} {q : Nat} {b : Bool} {t : Thread} {f : Frame}
    {k : List Frame} {self n : Nat} {o : Oracle} {w w' : World} {out : Out}
    (h : ReaperTask id q b t.frames) (hf : t.frames = f :: k)
    (hex : exec self n o f w = some (w', out)) :
    ∃ b', ReaperTask id q b' (t.resume k out).frames ∧ ReaperStep id q w w' b b' := by
  rw [hf] at h
  cases h with
  | wait =>
    simp only [exec_sys, Sys.exec] at hex
    split at hex
    · simp at hex
    · rename_i p hp
      split at hex
      · rename_i st hst
        obtain ⟨rfl, rfl⟩ := Prod.mk.inj (Option.some.inj hex)
        exact ⟨_, .removeIo _ _, .wait p st hp hst rfl rfl⟩
      · simp at hex
  | removeIo t st =>
    obtain ⟨rfl, rfl⟩ := Prod.mk.inj (Option.some.inj hex)
    exact ⟨_, .reap _ _, .quiet _ rfl rfl⟩
  | reap t st =>
    obtain ⟨-, hex⟩ := exec_crit_eq_some.mp hex
    simp only [Crit.exec] at hex
    split at hex
    · obtain ⟨rfl, rfl⟩ := Prod.mk.inj hex
      exact ⟨_, .done, .quiet _ rfl rfl⟩
    · rename_i r hr
      split at hex
      · rename_i hrun
        obtain ⟨rfl, rfl⟩ := Prod.mk.inj hex
        exact ⟨_, .write _, .reap r t _ _ hr hrun rfl rfl⟩
      · obtain ⟨rfl, rfl⟩ := Prod.mk.inj hex
        exact ⟨_, .done, .quiet _ rfl rfl⟩
  | write r =>
    obtain ⟨hc, hp⟩ := FileOp.exec_cache_procs o w (.write (.container r) false)
    obtain ⟨rfl, rfl⟩ := exec_file_eq_some.mp hex
    rcases FileOp.exec_write_cases o w (.container r) false with ⟨-, he⟩ | ⟨-, -, e, he⟩ <;> rw [he]
    · exact ⟨_, .rename _ _ _, .quiet _ hc hp⟩
    · exact ⟨_, .unlock, .quiet _ hc hp⟩
  | rename p m r =>
    obtain ⟨hc, hp⟩ := FileOp.exec_cache_procs o w (.rename p m (.container r) false)
    obtain ⟨rfl, rfl⟩ := exec_file_eq_some.mp hex
    rcases FileOp.exec_rename_cases o w p m (.container r) false with ⟨-, he⟩ | ⟨-, -, e, he⟩ <;>
      rw [he]
    · exact ⟨_, .unlock, .quiet _ hc hp⟩
    · exact ⟨_, .unlock, .quiet _ hc hp⟩
  | unlock =>
    obtain ⟨rfl, rfl⟩ := Prod.mk.inj (Option.some.inj hex)
    exact ⟨_, .done, .quiet _ rfl rfl⟩

/-- A reaper owes nothing unless it holds the lock. -/
theorem ReaperTask.dutyOf {id : ContainerId} {q : Nat} {b : Bool} {fs : List Frame}
    (h : ReaperTask id q b fs) :
    dutyOf fs = .none ∨ dutyOf fs = .releases ∨ ∃ r, dutyOf fs = .persists r true := by
  cases h with
  | wait | removeIo | reap | done => exact Or.inl rfl
  | unlock => exact Or.inr (Or.inl rfl)
  | write r | rename p n r => exact Or.inr (Or.inr ⟨.container r, rfl⟩)

/-- Every reaper is at one of its stages. -/
def Reapers (s : State) : Prop :=
  ∀ t ∈ s.tasks, ∀ id q, t.tag = .reaper id q → ∃ b, ReaperTask id q b t.frames

theorem Reapers.step {s s' : State} {l : Label} (h : Reapers s) (hstep : step s l = some s') :
    Reapers s' := by
  cases l with
  | invoke c =>
    obtain rfl := Option.some.inj hstep
    intro u hu id q htag
    rcases Pool.mem_tasks_start.mp hu with hu | rfl
    · exact h u hu id q htag
    · cases htag
  | step i o =>
    obtain ⟨t, f, k, out, hadv⟩ := Pool.advance_eq_some hstep
    refine hadv.forall_tasks h (fun ht id q htag => ?_) (fun _ hu => hu) fun _ u hu id q htag => ?_
    · obtain ⟨b, hb⟩ := ht id q ((Task.resume_tag t k out).symm.trans htag)
      obtain ⟨b', hb', -⟩ := hb.step hadv.frames hadv.exec
      exact ⟨b', hb'⟩
    · obtain ⟨id', q', -, rfl⟩ := children_reaper hadv hu
      cases htag
      exact ⟨false, .wait⟩
  | exit q st =>
    obtain ⟨p, -, rfl⟩ := step_exit hstep
    exact h
  | foreign pid =>
    obtain ⟨-, -, rfl⟩ := step_foreign hstep
    exact h
  | restart rs =>
    obtain rfl := Option.some.inj hstep
    intro t ht
    simp at ht

/-- In every reachable state every reaper is at one of its stages. -/
theorem reapers_run {listener : Nat} {blake3 : String → String} {ls : List Label} {s : State}
    (hrun : run step (init listener blake3) ls = some s) : Reapers s := by
  refine invariant_run (P := fun _ _ => True) (fun s l s' h _ hs => h.step hs) ?_ ?_ hrun
  · intro t ht
    simp [init] at ht
  · exact Along.trivial _ _

end LightrCri.Fake

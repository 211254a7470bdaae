import LightrCri.Fake.Leftover
import LightrCri.Fake.Lifecycle

/-!
# The backend refines its lifecycle

Take calls one after the other whose file operations succeed. Their graces are below 2^31 seconds,
preparing a start succeeds, and a wait after SIGKILL ends because the exit of the process is
recorded, not because its five seconds are over (`calm`). Process exits and steps of the reapers are
anywhere in between. Then the backend answers as the reference machine does, and between two calls
it shows the state of the machine (`lifecycle_refines`). In the middle of a call it does so too, but
for what the call is about (`reads_refine`).

The call at work is at a `Tail`: what of its stack is still to be executed, the window of the
cache, and the answer it will give once that is settled. `Tail.step` is its next step, which is
none of the machine or the answer; a reaper that records an exit makes the step `Event.exit`.
-/

namespace LightrCri.Fake.Lifecycle

open Backend Foundations

/-! ## Runs -/

/-- The step is of a sandbox or container call, with a grace below 2^31 seconds; preparing a start
and duplicating its pipes succeed, and a wait after SIGKILL does not run out before a reaper has
recorded the exit. -/
def calm (s : State) : Label → Bool
  | .invoke (.pullImage _) | .invoke (.removeImage _) => false
  | .invoke (.stopContainer _ grace) => grace < 2147483648
  | .step i o =>
    match s.top i with
    | some (.sys (.prepare _ _ _)) => o.prepareError.isNone
    | some (.sys .dupPipes) => o.fault.isNone
    | some (.crit (.waitKilled _)) => !o.timeout
    | _ => true
  | _ => true

/-- A step of serialized calls that the contract speaks of. -/
def contract (s : State) (l : Label) : Prop := orderly s l ∧ calm s l

instance (s : State) (l : Label) : Decidable (contract s l) :=
  inferInstanceAs (Decidable (_ ∧ _))

/-- What the step of a call gets from outside. -/
def Outside.learn (x : Outside) (w : World) (o : Oracle) : Frame → Outside
  | .sys (.runSandbox cfg) =>
    { x with
      newId := Fake.newId "sb-" o.clock w.counter
      network := cfg.hostNetwork || o.cni.all Except.isOk }
  | .sys (.newContainer _ _) => { x with newId := Fake.newId "ct-" o.clock w.counter }
  | .sys (.spawn _ _) => { x with spawned := o.spawn.isOk }
  | _ => x

/-- What is remembered of a run. -/
structure History where
  /-- What the call at work has got from outside. -/
  outside : Outside := {}
  /-- The calls that have returned, in this order. -/
  log : List (Call × Outside × Answer) := []
  /-- How each process has ended. -/
  ended : Nat → Option WaitStatus := fun _ => none

/-- The call that task `i` is, with its result once it has returned. -/
def returned (s : State) (i : Nat) : Option (Call × Result) :=
  match s.tasks[i]? with
  | some ⟨.call c, _, some r⟩ => some (c, r)
  | _ => none

/-- How the processes have ended, after a step that leads to `w`. -/
def deaths (ended : Nat → Option WaitStatus) (w : World) (q : Nat) : Option WaitStatus :=
  match w.procs[q]?.map Proc.state with
  | some (.zombie st) => some st
  | _ => ended q

def observe (h : History) (s : State) (l : Label) (s' : State) : History :=
  let ended := deaths h.ended s'.shared
  match l with
  | .invoke _ => ⟨{}, h.log, ended⟩
  | .step i o =>
    let x := (s.top i).elim h.outside (h.outside.learn s.shared o)
    ⟨x, h.log ++ (returned s' i).toList.map fun r => (r.1, x, .of r.2), ended⟩
  | _ => ⟨h.outside, h.log, ended⟩

/-! ## How processes end -/

/-- The process `q` is one of the container. -/
def Owns (w : World) (id : ContainerId) (q : Nat) : Prop :=
  ∃ p, w.procs[q]? = some p ∧ p.owner = some id

/-- The processes stay, with their owners, and a status does not change until it is waited for. -/
def Aged (w w' : World) : Prop :=
  ∀ (q : Nat) (p : Proc), w.procs[q]? = some p → ∃ p', w'.procs[q]? = some p' ∧
    p'.owner = p.owner ∧ (p'.state = p.state ∨ p.state = .alive ∨ p'.state = .gone)

/-- The statuses remembered are those of the zombies and of the processes waited for. -/
structure Deaths (ended : Nat → Option WaitStatus) (w : World) : Prop where
  zombie : ∀ q p st, w.procs[q]? = some p → p.state = .zombie st → ended q = some st
  kept : ∀ q st, ended q = some st →
    ∃ p, w.procs[q]? = some p ∧ (p.state = .zombie st ∨ p.state = .gone)

section Deaths

variable {w w' : World} {ended : Nat → Option WaitStatus}

theorem Aged.of_eq (h : w'.procs = w.procs) : Aged w w' :=
  fun _ p hp => ⟨p, h ▸ hp, rfl, .inl rfl⟩

theorem Aged.owns {id : ContainerId} {q : Nat} (h : Aged w w') (ho : Owns w id q) :
    Owns w' id q := by
  obtain ⟨p, hp, howner⟩ := ho
  obtain ⟨p', hp', hsame, -⟩ := h q p hp
  exact ⟨p', hp', hsame.trans howner⟩

theorem aged_set {q : Nat} {p : Proc} (p' : Proc) {ps : List Proc} (hps : w.procs = ps)
    (hp : ps[q]? = some p) (howner : p'.owner = p.owner)
    (hstate : p'.state = p.state ∨ p.state = .alive ∨ p'.state = .gone)
    (hw : w'.procs = ps.set q p') : Aged w w' := by
  intro q' x hx
  by_cases hq : q = q'
  · subst hq
    obtain rfl : p = x := Option.some.inj (hp.symm.trans (hps ▸ hx))
    have hlt := (List.getElem?_eq_some_iff.mp hp).1
    exact ⟨p', by rw [hw, List.getElem?_set_self hlt], howner, hstate⟩
  · exact ⟨x, by rw [hw, List.getElem?_set_ne hq, ← hps, hx], rfl, .inl rfl⟩

theorem aged_append {p : Proc} (hw : w'.procs = w.procs ++ [p]) : Aged w w' := by
  intro q x hx
  have hlt := (List.getElem?_eq_some_iff.mp hx).1
  exact ⟨x, by rw [hw, List.getElem?_append_left hlt, hx], rfl, .inl rfl⟩

theorem exit_aged (p : Proc) (st : WaitStatus) : (p.exit st).owner = p.owner ∧
    ((p.exit st).state = p.state ∨ p.state = .alive ∨ (p.exit st).state = .gone) := by
  by_cases h : p.state = .alive
  · exact ⟨(p.exit_kept st).2.1, .inr (.inl h)⟩
  · rw [Proc.exit, if_neg h]
    exact ⟨rfl, .inl rfl⟩

theorem exec_aged {self n : Nat} {o : Oracle} {f : Frame} {out : Out}
    (hex : exec self n o f w = some (w', out)) : Aged w w' := by
  cases f with
  | crit c =>
    obtain ⟨-, hex⟩ := exec_crit_eq_some.mp hex
    exact .of_eq (by simpa only [hex] using c.exec_procs self o w)
  | file g =>
    obtain ⟨rfl, -⟩ := exec_file_eq_some.mp hex
    exact .of_eq (FileOp.exec_cache_procs o w g).2
  | sys s =>
    cases s with
    | kill pid sig =>
      obtain ⟨rfl, -⟩ := Prod.mk.inj (Option.some.inj hex)
      intro q p hp
      simp only [World.kill, List.getElem?_map, hp, Option.map_some]
      split
      · exact ⟨_, rfl, exit_aged p _⟩
      · exact ⟨p, rfl, rfl, .inl rfl⟩
    | wait id q =>
      simp only [exec_sys, Sys.exec] at hex
      split at hex
      · cases hex
      · rename_i p hp
        split at hex
        · obtain ⟨rfl, -⟩ := Prod.mk.inj (Option.some.inj hex)
          exact aged_set { p with state := .gone } rfl hp rfl (.inr (.inr rfl)) rfl
        · cases hex
    | _ =>
      simp only [exec_sys, Sys.exec] at hex
      repeat' split at hex
      all_goals first
        | (obtain ⟨rfl, -⟩ := Prod.mk.inj (Option.some.inj hex)
           first
             | exact .of_eq rfl
             | exact aged_append rfl)
        | cases hex
  | unlock | ret v | fail e =>
    obtain ⟨rfl, -⟩ := Prod.mk.inj (Option.some.inj hex)
    exact .of_eq rfl

/-- What has been remembered stays, and every zombie is remembered. -/
theorem Deaths.step (h : Deaths ended w) (ha : Aged w w') : Deaths (deaths ended w') w' ∧
    ∀ q st, ended q = some st → deaths ended w' q = some st := by
  have hold : ∀ q st, ended q = some st → ∃ p, w'.procs[q]? = some p ∧
      (p.state = .zombie st ∨ p.state = .gone) := by
    intro q st hq
    obtain ⟨p, hp, hstate⟩ := h.kept q st hq
    obtain ⟨p', hp', -, hage⟩ := ha q p hp
    refine ⟨p', hp', ?_⟩
    rcases hage with hs | hs | hs
    · rwa [hs]
    · rw [hs] at hstate
      simp at hstate
    · exact .inr hs
  have hkeep : ∀ q st, ended q = some st → deaths ended w' q = some st := by
    intro q st hq
    obtain ⟨p, hp, hs | hs⟩ := hold q st hq <;> simp [deaths, hp, hs, hq]
  refine ⟨⟨fun q p st hp hs => by simp [deaths, hp, hs], fun q st hq => ?_⟩, hkeep⟩
  cases hp : w'.procs[q]? with
  | none =>
    simp only [deaths, hp, Option.map_none] at hq
    obtain ⟨p, hp', -⟩ := hold q st hq
    rw [hp] at hp'
    cases hp'
  | some p =>
    refine ⟨p, rfl, ?_⟩
    simp only [deaths, hp, Option.map_some] at hq
    split at hq
    · rename_i st' hs
      obtain rfl := Option.some.inj hq
      exact .inl (Option.some.inj hs)
    · obtain ⟨p', hp', hs⟩ := hold q st hq
      obtain rfl := Option.some.inj (hp.symm.trans hp')
      exact hs

end Deaths

theorem step_aged {s s' : State} {l : Label} (hl : noRestart l) (hstep : step s l = some s') :
    Aged s.shared s'.shared := by
  cases l with
  | invoke c =>
    obtain rfl := Option.some.inj hstep
    exact .of_eq rfl
  | step i o =>
    obtain ⟨t, f, k, out, hadv⟩ := Pool.advance_eq_some hstep
    exact exec_aged hadv.exec
  | exit q st =>
    obtain ⟨p, hp, rfl⟩ := step_exit hstep
    exact aged_set (p.exit st) rfl hp (exit_aged p st).1 (exit_aged p st).2 rfl
  | foreign pid =>
    obtain ⟨-, -, rfl⟩ := step_foreign hstep
    exact aged_append rfl
  | restart rs => cases hl

/-! ## The call at work -/

/-- The frame leaves the cache alone, and so does what it is followed by. -/
def steady : Frame → Bool
  | .file _ => true
  | .sys (.kill _ _) | .sys (.removeIo _) | .sys .dupPipes | .sys (.insertIo _ _) => true
  | _ => false

/-- The frame is one of a stop of the container. -/
def stopping (id : ContainerId) : Frame → Bool
  | .crit (.stopContainer id' _) | .crit (.waitGrace id' _) | .crit (.waitKilled id') => id' = id
  | _ => false

/-- The frames of a stop. -/
inductive Quiet : Frame → Prop
  | steady (f) (h : steady f) : Quiet f
  | stopping (id f) (h : stopping id f) : Quiet f

/-- The frames of the removal of containers. -/
inductive Tearing : Frame → Prop
  | quiet (f) (h : Quiet f) : Tearing f
  | removeContainer (id) : Tearing (.crit (.removeContainer id))
  | dropContainer (id) : Tearing (.crit (.dropContainer id))

def Ready (c : Cache) (id : SandboxId) : Prop :=
  ∃ r, c.sandboxes[id]? = some r ∧ r.state = .ready

def Created (c : Cache) (id : ContainerId) : Prop :=
  ∃ r, c.containers[id]? = some r ∧ r.state = .created

/-- The record has the start intent, and no number of a process. -/
def Intended (c : Cache) (id : ContainerId) : Prop :=
  ∃ r, c.containers[id]? = some r ∧ r.state = .running ∧ r.pid = 0

/-- What remains of a call, with the window it has opened and the answer that is settled. -/
inductive Tail (c : Cache) (x : Outside) : Call → Window → Option Answer → List Frame → Prop
  | runSandbox (cfg) : Tail c x (.runSandbox cfg) .none none [.sys (.runSandbox cfg)]
  | insertSandbox (r) (ready : r.state = .ready) (network : x.network) (made : x.newId = r.id.val) :
    Tail c x (.runSandbox r.config) .none none [.crit (.insertSandbox r), .ret (.sandbox r.id)]
  | stopSandbox (id) : Tail c x (.stopSandbox id) .none none [.crit (.stopSandbox id), .ret .unit]
  | removeSandbox (id) : Tail c x (.removeSandbox id) .none none
      [.crit (.stopSandbox id), .crit (.collectContainers id), .ret .unit]
  | collect (id) : Tail c x (.removeSandbox id) (.removing id) none
      [.crit (.collectContainers id), .ret .unit]
  | tearing (id q) (tearing : ∀ f ∈ q, Tearing f) : Tail c x (.removeSandbox id) (.removing id) none
      (q ++ [Frame.crit (.deleteSandbox id), .ret .unit])
  | createContainer (sb cfg) : Tail c x (.createContainer sb cfg) .none none
      [.crit (.createContainer sb cfg)]
  | newContainer (sb cfg) (ready : Ready c sb) : Tail c x (.createContainer sb cfg) .none none
      [.sys (.newContainer sb cfg)]
  | insertContainer (r) (ready : Ready c r.sandbox) (created : r.state = .created)
    (exitCode : r.exitCode = 0) (made : x.newId = r.id.val) :
    Tail c x (.createContainer r.sandbox r.config) .none none
      [.crit (.insertContainer r), .ret (.container r.id)]
  | startContainer (id) : Tail c x (.startContainer id) .none none
      [.crit (.startContainer id), .ret .unit]
  | fetchSandbox (id r) (created : Created c id) : Tail c x (.startContainer id) .none none
      [.crit (.fetchSandbox id r), .ret .unit]
  | prepare (id r info) (created : Created c id) : Tail c x (.startContainer id) .none none
      [.sys (.prepare id r info), .ret .unit]
  | startIntent (id io) (created : Created c id) : Tail c x (.startContainer id) .none none
      [.crit (.startIntent id), .sys (.spawn id io), .ret .unit]
  | spawn (id io) (intended : Intended c id) :
    Tail c x (.startContainer id) (.starting id false) none [.sys (.spawn id io), .ret .unit]
  | spawnFailed (id e e') (intended : Intended c id) (failed : x.spawned = false)
    (kind : ErrorKind.of e' = .internal) :
    Tail c x (.startContainer id) (.starting id false) none
      [.crit (.spawnFailed id e), .fail e', .ret .unit]
  | persistPid (id pid n) (intended : Intended c id) (pos : 0 < pid) :
    Tail c x (.startContainer id) (.starting id true) (some (.ok .unit))
      [.crit (.persistPid id pid), .sys (.spawnReaper id n), .ret .unit]
  | spawnReaper (id n) : Tail c x (.startContainer id) .none (some (.ok .unit))
      [.sys (.spawnReaper id n), .ret .unit]
  | stopContainer (id grace q) (quiet : ∀ f ∈ q, Quiet f)
    (watching : ∀ r, c.containers[id]? = some r → r.state = .running → ∃ f ∈ q, stopping id f) :
    Tail c x (.stopContainer id grace) .none none (q ++ [Frame.ret .unit])
  | removeContainer (id) : Tail c x (.removeContainer id) .none none
      [.crit (.removeContainer id), .ret .unit]
  | dropContainer (id q) (quiet : ∀ f ∈ q, Quiet f) : Tail c x (.removeContainer id) .none none
      (q ++ [Frame.crit (.dropContainer id), .ret .unit])

/-- What remains of a call that has only to return. -/
inductive Answered : Option Answer → List Frame → Prop
  | ret (v) : Answered (some (.ok v)) [.ret v]
  | fail (e k) : Answered (some (.error (.of e))) (.fail e :: k)

/-- The stack of a call: steady frames, and what remains. -/
inductive Stage (c : Cache) (x : Outside) (call : Call) :
    Window → Option Answer → List Frame → Prop
  | tail (win a q tail) (steady : ∀ f ∈ q, steady f) (h : Tail c x call win a tail) :
    Stage c x call win a (q ++ tail)
  | answered (a q tail) (steady : ∀ f ∈ q, steady f) (h : Answered a tail) :
    Stage c x call .none a (q ++ tail)

/-- A step of the call is none of the machine, or the answer. -/
inductive Moves (m : Reference) (call : Call) (x x' : Outside) :
    Option Answer → Reference → Option Answer → Prop
  | stay (a) (same : a = none ∨ x' = x) : Moves m call x x' a m a
  | answer (m' a) (answers : m.call x' call = some (m', a)) : Moves m call x x' none m' (some a)

/-- The task of a call after a step. -/
inductive After (c : Cache) (x : Outside) (call : Call) (win : Window) (a : Option Answer)
    (t : Thread) : Prop
  | working (result : t.result = none) (stage : Stage c x call win a t.frames)
  | ended (r) (frames : t.frames = []) (result : t.result = some r) (window : win = .none)
    (answer : a = some (.of r))

/-- What a step of the call comes to. -/
inductive Next (call : Call) (x x' : Outside) (c' : Cache) (m : Reference) (a : Option Answer)
    (t : Thread) : Prop
  | intro (win' a' m') (moves : Moves m call x x' a m' a') (agrees : Agrees win' m' c')
    (after : After c' x' call win' a' t) : Next call x x' c' m a t

/-- What a step of a call may rely on. -/
structure Allowed (call : Call) (o : Oracle) (f : Frame) (w : World) : Prop where
  file : ∀ g, f = .file g → ∃ fs, (g.exec o w).2 = .next fs
  prepare : ∀ id r info, f = .sys (.prepare id r info) → o.prepareError = none
  dupPipes : f = .sys .dupPipes → o.fault = none
  killed : ∀ id, f = .crit (.waitKilled id) → o.timeout = false
  newSandbox : ∀ r, f = .crit (.insertSandbox r) → w.cache.sandboxes[r.id]? = none
  newContainer : ∀ r, f = .crit (.insertContainer r) → w.cache.containers[r.id]? = none
  /-- A container is in a sandbox of the cache. -/
  housed : ∀ sb, w.cache.sandboxes[sb]? = none →
    ∀ (id : ContainerId) (r : ContainerRecord), w.cache.containers[id]? = some r → r.sandbox ≠ sb
  emptied : ∀ sb, f = .crit (.deleteSandbox sb) →
    ∀ (id : ContainerId) (r : ContainerRecord), w.cache.containers[id]? = some r → r.sandbox ≠ sb
  torn : ∀ sb id r, call = .removeSandbox sb → f = .crit (.dropContainer id) →
    w.cache.containers[id]? = some r → r.sandbox = sb

section Steps

variable {w w' : World} {self n : Nat} {o : Oracle} {f : Frame} {k : List Frame} {out : Out}
  {t : Thread} {call : Call} {win : Window} {a : Option Answer} {x : Outside} {m : Reference}

theorem exec_steady (hf : steady f) (ha : Allowed call o f w)
    (hex : exec self n o f w = some (w', out)) : w'.cache = w.cache ∧ x.learn w o f = x ∧
      ∃ fs, out = .next fs ∧ ∀ g ∈ fs, steady g := by
  cases f with
  | file g =>
    obtain ⟨rfl, rfl⟩ := exec_file_eq_some.mp hex
    obtain ⟨fs, hfs⟩ := ha.file g rfl
    refine ⟨(FileOp.exec_cache_procs o w g).1, rfl, fs, hfs, fun h hh => ?_⟩
    obtain ⟨g', rfl⟩ := FileOp.pushed_file (show h ∈ (g.exec o w).2.pushed by rw [hfs]; exact hh)
    rfl
  | sys s =>
    cases s with
    | kill pid sig | removeIo id | insertIo id io =>
      obtain ⟨rfl, rfl⟩ := Prod.mk.inj (Option.some.inj hex)
      exact ⟨rfl, rfl, [], rfl, by simp⟩
    | dupPipes =>
      simp only [exec_sys, Sys.exec, ha.dupPipes rfl] at hex
      obtain ⟨rfl, rfl⟩ := Prod.mk.inj (Option.some.inj hex)
      exact ⟨rfl, rfl, [], rfl, by simp⟩
    | _ => cases hf
  | _ => cases hf

/-- A stop goes on, and only while its container is Running. -/
structure Waits (id : ContainerId) (w w' : World) (fs : List Frame) : Prop where
  cache : w'.cache = w.cache
  quiet : ∀ g ∈ fs, Quiet g
  watching : ∀ r, w.cache.containers[id]? = some r → r.state = .running → ∃ g ∈ fs, stopping id g

theorem Waits.done {id : ContainerId}
    (h : ∀ r, w.cache.containers[id]? = some r → r.state ≠ .running) : Waits id w w [] :=
  ⟨rfl, by simp, fun r hr hrun => absurd hrun (h r hr)⟩

theorem Waits.wait {id : ContainerId} {g : Frame} (h : stopping id g) : Waits id w w [g] := by
  refine ⟨rfl, fun g' hg' => ?_, fun _ _ _ => ⟨g, by simp, h⟩⟩
  obtain rfl := List.mem_singleton.mp hg'
  exact .stopping id g' h

theorem Waits.kill {id : ContainerId} {g : Frame} (pid sig : Nat) (h : stopping id g) :
    Waits id w w [.sys (.kill pid sig), g] := by
  refine ⟨rfl, fun g' hg' => ?_, fun _ _ _ => ⟨g, by simp, h⟩⟩
  rcases List.mem_cons.mp hg' with rfl | hg'
  · exact .steady _ rfl
  · obtain rfl := List.mem_singleton.mp hg'
    exact .stopping id g' h

theorem learn_stopping {id : ContainerId} (hf : stopping id f) : x.learn w o f = x := by
  cases f with
  | sys s => cases s <;> cases hf
  | _ => rfl

/-- A stop waits for the exit. -/
theorem exec_stopping {id : ContainerId} (hf : stopping id f) (ha : Allowed call o f w)
    (hpid : ∀ r, w.cache.containers[id]? = some r → r.state = .running → 0 < r.pid)
    (hex : exec self n o f w = some (w', out)) : ∃ fs, out = .next fs ∧ Waits id w w' fs := by
  have hnone : w.cache.containers[id]? = none →
      ∀ r, w.cache.containers[id]? = some r → r.state ≠ .running := by
    intro hn r hr
    rw [hn] at hr
    cases hr
  have hsome : ∀ r, w.cache.containers[id]? = some r → r.state ≠ .running →
      ∀ r', w.cache.containers[id]? = some r' → r'.state ≠ .running := by
    intro r hr hne r' hr'
    obtain rfl := Option.some.inj (hr.symm.trans hr')
    exact hne
  cases f with
  | crit c =>
    obtain ⟨-, hex⟩ := exec_crit_eq_some.mp hex
    cases c with
    | stopContainer id' grace =>
      obtain rfl : id' = id := of_decide_eq_true hf
      simp only [Crit.exec] at hex
      split at hex
      · obtain ⟨rfl, rfl⟩ := Prod.mk.inj hex
        exact ⟨_, rfl, .done (hnone ‹_›)⟩
      · rename_i r hr
        split at hex
        · rw [if_pos (hpid r hr ‹_›)] at hex
          split at hex <;> obtain ⟨rfl, rfl⟩ := Prod.mk.inj hex <;>
            exact ⟨_, rfl, .kill _ _ (by simp [stopping])⟩
        · obtain ⟨rfl, rfl⟩ := Prod.mk.inj hex
          exact ⟨_, rfl, .done (hsome r hr ‹_›)⟩
    | waitGrace id' pid =>
      obtain rfl : id' = id := of_decide_eq_true hf
      simp only [Crit.exec] at hex
      split at hex
      · obtain ⟨rfl, rfl⟩ := Prod.mk.inj hex
        exact ⟨_, rfl, .done (hnone ‹_›)⟩
      · rename_i r hr
        split at hex
        · split at hex <;> obtain ⟨rfl, rfl⟩ := Prod.mk.inj hex
          · exact ⟨_, rfl, .kill _ _ (by simp [stopping])⟩
          · exact ⟨_, rfl, .wait (by simp [stopping])⟩
        · obtain ⟨rfl, rfl⟩ := Prod.mk.inj hex
          exact ⟨_, rfl, .done (hsome r hr ‹_›)⟩
    | waitKilled id' =>
      obtain rfl : id' = id := of_decide_eq_true hf
      simp only [Crit.exec, ha.killed id' rfl, and_true] at hex
      split at hex
      · obtain ⟨rfl, rfl⟩ := Prod.mk.inj hex
        exact ⟨_, rfl, .done (hnone ‹_›)⟩
      · rename_i r hr
        split at hex <;> obtain ⟨rfl, rfl⟩ := Prod.mk.inj hex
        · exact ⟨_, rfl, .wait (by simp [stopping])⟩
        · exact ⟨_, rfl, .done (hsome r hr ‹_›)⟩
    | _ => cases hf
  | _ => cases hf

/-- A quiet frame, whatever it belongs to. -/
theorem exec_quiet (hf : Quiet f) (ha : Allowed call o f w)
    (hpid : ∀ (id : ContainerId) (r : ContainerRecord), w.cache.containers[id]? = some r →
      r.state = .running → 0 < r.pid)
    (hex : exec self n o f w = some (w', out)) : w'.cache = w.cache ∧ x.learn w o f = x ∧
      ∃ fs, out = .next fs ∧ (∀ g ∈ fs, Quiet g) ∧ ∀ id, stopping id f →
        ∀ r, w.cache.containers[id]? = some r → r.state = .running → ∃ g ∈ fs, stopping id g := by
  cases hf with
  | steady _ h =>
    obtain ⟨hc, hx, fs, rfl, hfs⟩ := exec_steady (x := x) h ha hex
    refine ⟨hc, hx, fs, rfl, fun g hg => .steady g (hfs g hg), fun id hs => ?_⟩
    cases f with
    | crit c => cases h
    | sys s => cases s <;> cases hs
    | _ => cases hs
  | stopping id _ h =>
    obtain ⟨fs, rfl, hw⟩ := exec_stopping h ha (hpid id) hex
    refine ⟨hw.cache, learn_stopping h, fs, rfl, hw.quiet, fun id' hs => ?_⟩
    obtain rfl : id = id' := by
      cases f with
      | crit c =>
        cases c <;>
          first | exact (of_decide_eq_true h).symm.trans (of_decide_eq_true hs) | cases h
      | _ => cases h
    exact hw.watching

section Next

variable {x' : Outside} {c' : Cache} {m' : Reference} {ans : Answer} {fs : List Frame}

/-- The call goes on. -/
theorem Next.goes_on (q : List Frame) {tail : List Frame} (hm : Agrees win m c')
    (hx : a = none ∨ x' = x) (hres : t.result = none) (hq : ∀ f ∈ q, steady f)
    (htail : Tail c' x' call win a tail) (hfs : t.frames = q ++ tail) :
    Next call x x' c' m a t :=
  .intro win a m (.stay a hx) hm (.working hres (hfs ▸ .tail win a q tail hq htail))

/-- The answer is settled. -/
theorem Next.settles (q : List Frame) (m' : Reference) {tail : List Frame}
    (hm : Agrees .none m' c')
    (hcall : m.call x' call = some (m', ans)) (hres : t.result = none) (hq : ∀ f ∈ q, steady f)
    (htail : Answered (some ans) tail) (hfs : t.frames = q ++ tail) :
    Next call x x' c' m none t :=
  .intro .none _ m' (.answer m' ans hcall) hm
    (.working hres (hfs ▸ .answered _ q tail hq htail))

/-- The call returns. -/
theorem Next.returns {r : Result} (hm : Agrees .none m' c')
    (hcall : m.call x' call = some (m', .of r)) (hfs : t.frames = []) (hres : t.result = some r) :
    Next call x x' c' m none t :=
  .intro .none _ m' (.answer m' _ hcall) hm (.ended r hfs hres rfl rfl)

end Next

/-! ### Sandboxes -/

theorem runSandbox_step {cfg : SandboxConfig}
    (h : Tail w.cache x (.runSandbox cfg) win a (f :: k)) (hm : Agrees win m w.cache)
    (ha : Allowed (.runSandbox cfg) o f w) (hres : t.result = none)
    (hex : exec self n o f w = some (w', out)) :
    Next (.runSandbox cfg) x (x.learn w o f) w'.cache m a (t.resume k out) := by
  generalize hfs : f :: k = fs at h
  cases h with
  | runSandbox cfg =>
    obtain ⟨rfl, rfl⟩ := List.cons.inj hfs
    simp only [exec_sys, Sys.exec] at hex
    split at hex
    · rename_i e he
      obtain ⟨rfl, rfl⟩ := Prod.mk.inj (Option.some.inj hex)
      have hnet : (cfg.hostNetwork || o.cni.all Except.isOk) = false := by
        revert he
        cases cfg.hostNetwork <;> rcases o.cni with _ | _ | _ <;> simp [Except.isOk, Except.toBool]
      exact .returns hm
        (by simp [Reference.call, Outside.learn, hnet, Answer.of, ErrorKind.of]) rfl rfl
    · rename_i ip ns he
      obtain ⟨rfl, rfl⟩ := Prod.mk.inj (Option.some.inj hex)
      have hnet : (cfg.hostNetwork || o.cni.all Except.isOk) = true := by
        revert he
        cases cfg.hostNetwork <;> rcases o.cni with _ | _ | _ <;> simp [Except.isOk, Except.toBool]
      let r : SandboxRecord := ⟨⟨newId "sb-" o.clock w.counter⟩, cfg, .ready, o.stamp, ip, ns⟩
      exact .goes_on [.file (.write (.sandbox r) true)] hm (.inl rfl) hres (by simp [steady])
        (.insertSandbox r rfl hnet rfl) rfl
  | insertSandbox r ready network made =>
    obtain ⟨rfl, rfl⟩ := List.cons.inj hfs
    obtain ⟨rfl, rfl⟩ := Prod.mk.inj (exec_crit_eq_some.mp hex).2
    have hid : (⟨x.newId⟩ : SandboxId) = r.id := by rw [made]
    have hold := hm.sandbox r.id
    rw [ha.newSandbox r rfl] at hold
    have hnew := hold.none_iff
    refine .settles [] (m.setSandbox r.id ⟨r.config, .ready⟩) ?_ ?_ hres (by simp) (.ret _) rfl
    · refine hm.at_sandbox r.id ⟨rfl, rfl⟩ (fun id' hne => ?_) ?_
      · simp [sandboxes_setSandbox, hne]
      · simp only [sandboxes_setSandbox, Reference.sandboxes_setSandbox, if_true]
        exact .present _ _ rfl (.inl ready)
    · simp [Reference.call, Outside.learn, network, hid, hnew]

/-- What the critical section of a stop does to the cache. -/
theorem stopSandbox_agrees {id : SandboxId} (hm : Agrees .none m w.cache)
    (hex : exec self n o (.crit (.stopSandbox id)) w = some (w', out)) :
    ∃ fs m', out = .next fs ∧ (∀ g ∈ fs, steady g) ∧
      m.call x (.stopSandbox id) = some (m', .ok .unit) ∧ Agrees .none m' w'.cache ∧
      Agrees (.removing id) m w'.cache := by
  obtain ⟨-, hex⟩ := exec_crit_eq_some.mp hex
  have hold := hm.sandbox id
  simp only [Crit.exec] at hex
  cases hr : w.cache.sandboxes[id]? with
  | none =>
    rw [hr] at hold hex
    obtain ⟨rfl, rfl⟩ := Prod.mk.inj hex
    refine ⟨_, m, rfl, by simp, ?_, hm, hm.widen⟩
    simp [Reference.call, hold.none_iff]
  | some r =>
    rw [hr] at hold hex
    obtain ⟨b, hb, hconfig, hstate⟩ := hold.of_some
    have hcall : m.call x (.stopSandbox id) =
        some (m.setSandbox id { b with state := .notReady }, .ok .unit) := by
      simp [Reference.call, hb]
    dsimp only at hex
    split at hex <;> obtain ⟨rfl, rfl⟩ := Prod.mk.inj hex
    · refine ⟨_, _, rfl, by simp, hcall, ?_, hm.widen⟩
      refine hm.at_sandbox id ⟨rfl, rfl⟩ (fun id' hne => by simp [hne]) ?_
      rw [hr, Reference.sandboxes_setSandbox, if_pos rfl]
      exact .present _ _ hconfig (.inl ‹r.state = _›)
    · refine ⟨_, _, rfl, by simp [steady], hcall, ?_, ?_⟩
      · refine hm.at_sandbox id ⟨rfl, rfl⟩ (fun id' hne => ?_) ?_
        · simp [sandboxes_setSandbox, hne]
        · simp only [sandboxes_setSandbox, Reference.sandboxes_setSandbox, if_true]
          exact .present _ _ hconfig (.inl rfl)
      · refine (hm.widen : Agrees (.removing id) m _).at_sandbox id ⟨rfl, rfl⟩
          (fun id' hne => ?_) ?_
        · simp [sandboxes_setSandbox, hne]
        · rw [sandboxes_setSandbox, if_pos rfl, hb]
          exact .present _ _ hconfig (.inr rfl)

theorem stopSandbox_step {id : SandboxId}
    (h : Tail w.cache x (.stopSandbox id) win a (f :: k)) (hm : Agrees win m w.cache)
    (hres : t.result = none) (hex : exec self n o f w = some (w', out)) :
    Next (.stopSandbox id) x (x.learn w o f) w'.cache m a (t.resume k out) := by
  cases h with
  | stopSandbox id =>
    obtain ⟨fs, m', rfl, hsteady, hcall, hm', -⟩ := stopSandbox_agrees (x := x) hm hex
    exact .settles fs _ hm' hcall hres hsteady (.ret _) rfl

/-- Outside a start every Running record has a process. -/
theorem Agrees.backed (hm : Agrees win m w.cache) (hwin : ∀ id b, win ≠ .starting id b)
    (id : ContainerId) (r : ContainerRecord) (hr : w.cache.containers[id]? = some r)
    (hrun : r.state = .running) : 0 < r.pid := by
  have hold := hm.container id
  rw [hr] at hold
  obtain ⟨_, _, _, hbacked⟩ := hold.of_some (hwin id false)
  exact (hbacked hrun).resolve_right (hwin id true)

/-- A step of the removal of containers. -/
theorem exec_tearing {sb : SandboxId} (hf : Tearing f) (hm : Agrees (.removing sb) m w.cache)
    (ha : Allowed (.removeSandbox sb) o f w) (hex : exec self n o f w = some (w', out)) :
    Agrees (.removing sb) m w'.cache ∧ ∃ fs, out = .next fs ∧ ∀ g ∈ fs, Tearing g := by
  cases hf with
  | quiet _ hq =>
    obtain ⟨hc, -, fs, rfl, hfs, -⟩ := exec_quiet (x := {}) hq ha (hm.backed (by simp)) hex
    exact ⟨hc ▸ hm, fs, rfl, fun g hg => .quiet g (hfs g hg)⟩
  | removeContainer id =>
    obtain ⟨-, hex⟩ := exec_crit_eq_some.mp hex
    simp only [Crit.exec] at hex
    split at hex
    · obtain ⟨rfl, rfl⟩ := Prod.mk.inj hex
      exact ⟨hm, _, rfl, by simp⟩
    · split at hex <;> obtain ⟨rfl, rfl⟩ := Prod.mk.inj hex
      · refine ⟨hm, _, rfl, fun g hg => ?_⟩
        simp only [List.mem_cons, List.not_mem_nil, or_false] at hg
        rcases hg with rfl | rfl
        · exact .quiet _ (.stopping id _ (by simp [stopping]))
        · exact .dropContainer id
      · refine ⟨hm, _, rfl, fun g hg => ?_⟩
        obtain rfl := List.mem_singleton.mp hg
        exact .dropContainer id
  | dropContainer id =>
    obtain ⟨rfl, rfl⟩ := Prod.mk.inj (exec_crit_eq_some.mp hex).2
    refine ⟨?_, _, rfl, fun g hg => ?_⟩
    · refine hm.at_container id ⟨rfl, rfl⟩ (fun id' hne => ?_) ?_
      · simp [containers_eraseContainer, hne]
      · rw [containers_eraseContainer, if_pos rfl]
        have hold := hm.container id
        cases hr : w.cache.containers[id]? with
        | none => rwa [hr] at hold
        | some r =>
          rw [hr] at hold
          obtain ⟨b, hb, shows, -⟩ := hold.of_some (by simp)
          rw [hb]
          exact .removed b (by rw [← shows.sandbox, ha.torn sb id r rfl rfl hr])
    · simp only [List.mem_cons, List.not_mem_nil, or_false] at hg
      rcases hg with rfl | rfl <;> exact .quiet _ (.steady _ rfl)

theorem removeSandbox_step {id : SandboxId}
    (h : Tail w.cache x (.removeSandbox id) win a (f :: k)) (hm : Agrees win m w.cache)
    (ha : Allowed (.removeSandbox id) o f w) (hres : t.result = none)
    (hex : exec self n o f w = some (w', out)) :
    Next (.removeSandbox id) x (x.learn w o f) w'.cache m a (t.resume k out) := by
  generalize hfs : f :: k = fs at h
  cases h with
  | removeSandbox id =>
    obtain ⟨rfl, rfl⟩ := List.cons.inj hfs
    obtain ⟨fs, m', rfl, hsteady, -, -, hm'⟩ := stopSandbox_agrees (x := x) hm hex
    exact .goes_on fs hm' (.inl rfl) hres hsteady (.collect id) rfl
  | collect id =>
    obtain ⟨rfl, rfl⟩ := List.cons.inj hfs
    replace hex := (exec_crit_eq_some.mp hex).2
    simp only [Crit.exec] at hex
    split at hex <;> obtain ⟨rfl, rfl⟩ := Prod.mk.inj hex
    · rename_i hnone
      refine .settles [] (m.removeSandbox id) ?_ rfl hres (by simp) (.ret _) rfl
      refine hm.removed (.inr rfl) (ha.housed id hnone) rfl fun id' => ?_
      split
      · rename_i he
        rw [he, hnone]
      · rfl
    · refine .goes_on [] hm (.inl rfl) hres (by simp)
        (.tearing id (cascade (w.cache.containersOf id)) fun g hg => ?_) (List.append_assoc _ _ _)
      obtain ⟨cid, -, hg⟩ := List.mem_flatMap.mp hg
      simp only [List.mem_cons, List.not_mem_nil, or_false] at hg
      rcases hg with rfl | rfl
      · exact .quiet _ (.stopping cid _ (by simp [stopping]))
      · exact .removeContainer cid
  | tearing id q tearing =>
    cases q with
    | nil =>
      obtain ⟨rfl, rfl⟩ := List.cons.inj hfs
      replace hex := (exec_crit_eq_some.mp hex).2
      simp only [Crit.exec] at hex
      split at hex <;> obtain ⟨rfl, rfl⟩ := Prod.mk.inj hex
      · rename_i hnone
        refine .settles [] (m.removeSandbox id) ?_ rfl hres (by simp) (.ret _) rfl
        refine hm.removed (.inr rfl) (ha.emptied id rfl) rfl fun id' => ?_
        split
        · rename_i he
          rw [he, hnone]
        · rfl
      · refine .settles [_] (m.removeSandbox id) ?_ rfl hres ?_ (.ret _) rfl
        · exact hm.removed (.inr rfl) (ha.emptied id rfl) rfl
            fun id' => sandboxes_eraseSandbox _ _ _
        · simp [steady]
    | cons g q =>
      obtain ⟨rfl, rfl⟩ := List.cons.inj hfs
      obtain ⟨hm', fs, rfl, hfs⟩ := exec_tearing (tearing _ List.mem_cons_self) hm ha hex
      refine .goes_on [] hm' (.inl rfl) hres (by simp) (.tearing id (fs ++ q) ?_)
        (List.append_assoc _ _ _).symm
      exact List.forall_mem_append.mpr ⟨hfs, fun g hg => tearing g (List.mem_cons_of_mem _ hg)⟩

/-! ### Containers -/

theorem createContainer_step {sb : SandboxId} {cfg : ContainerConfig}
    (h : Tail w.cache x (.createContainer sb cfg) win a (f :: k)) (hm : Agrees win m w.cache)
    (ha : Allowed (.createContainer sb cfg) o f w) (hres : t.result = none)
    (hex : exec self n o f w = some (w', out)) :
    Next (.createContainer sb cfg) x (x.learn w o f) w'.cache m a (t.resume k out) := by
  have hready : Ready w.cache sb → ∃ b, m.sandboxes[sb]? = some b ∧
      (win = .none → b.state = .ready) := by
    rintro ⟨r, hr, hstate⟩
    have hold := hm.sandbox sb
    rw [hr] at hold
    obtain ⟨b, hb, -, hb'⟩ := hold.of_some
    exact ⟨b, hb, fun hw => (hb'.resolve_right (by simp [hw])) ▸ hstate⟩
  generalize hfs : f :: k = fs at h
  cases h with
  | createContainer sb cfg =>
    obtain ⟨rfl, rfl⟩ := List.cons.inj hfs
    replace hex := (exec_crit_eq_some.mp hex).2
    have hold := hm.sandbox sb
    simp only [Crit.exec] at hex
    split at hex
    · rename_i hnone
      obtain ⟨rfl, rfl⟩ := Prod.mk.inj hex
      rw [hnone] at hold
      exact .returns hm (by simp [Reference.call, hold.none_iff, Answer.of, ErrorKind.of]) rfl rfl
    · rename_i r hr
      rw [hr] at hold
      obtain ⟨b, hb, -, hstate⟩ := hold.of_some
      have hsame : r.state = b.state := hstate.resolve_right (by simp)
      split at hex <;> obtain ⟨rfl, rfl⟩ := Prod.mk.inj hex
      · exact .goes_on [] hm (.inl rfl) hres (by simp) (.newContainer sb cfg ⟨r, hr, ‹_›⟩) rfl
      · have hnot : ¬ b.state = .ready := hsame ▸ ‹_›
        exact .returns hm (by simp [Reference.call, hb, hnot, Answer.of, ErrorKind.of]) rfl rfl
  | newContainer sb cfg ready =>
    obtain ⟨rfl, rfl⟩ := List.cons.inj hfs
    obtain ⟨rfl, rfl⟩ := Prod.mk.inj (Option.some.inj hex)
    let r : ContainerRecord :=
      ⟨⟨newId "ct-" o.clock w.counter⟩, sb, cfg, .created, o.stamp, 0, 0, 0, "", "", 0⟩
    exact .goes_on [.file (.write (.container r) true)] hm (.inl rfl) hres (by simp [steady])
      (.insertContainer r ready rfl rfl rfl) rfl
  | insertContainer r ready created exitCode made =>
    obtain ⟨rfl, rfl⟩ := List.cons.inj hfs
    obtain ⟨rfl, rfl⟩ := Prod.mk.inj (exec_crit_eq_some.mp hex).2
    have hid : (⟨x.newId⟩ : ContainerId) = r.id := by rw [made]
    have hold := hm.container r.id
    rw [ha.newContainer r rfl] at hold
    have hnew := hold.of_none (by simp)
    obtain ⟨b, hb, hstate⟩ := hready ready
    refine .settles [] (m.setContainer r.id ⟨r.sandbox, r.config, .created⟩) ?_ ?_ hres
      (by simp) (.ret _) rfl
    · refine hm.at_container r.id ⟨rfl, rfl⟩ (fun id' hne => ?_) ?_
      · simp [World.setContainer, containers_setContainer, hne]
      · simp only [World.setContainer, containers_setContainer, Reference.containers_setContainer,
          if_true]
        exact .present _ _ ⟨rfl, rfl, created, exitCode⟩ fun hrun => by simp [created] at hrun
    · simp [Reference.call, Outside.learn, hb, hstate rfl, hid, hnew]

/-- A container that is Created is so in the machine. -/
theorem Created.reference {id : ContainerId} (h : Created w.cache id)
    (hm : Agrees .none m w.cache) : ∃ r b, w.cache.containers[id]? = some r ∧
      m.containers[id]? = some b ∧ Shows .created r b ∧ b.phase = .created := by
  obtain ⟨r, hr, hstate⟩ := h
  have hold := hm.container id
  rw [hr] at hold
  obtain ⟨b, hb, shows, -⟩ := hold.of_some (by simp)
  have hphase : b.phase = .created := by
    have hs := shows.state
    rw [hstate] at hs
    cases hp : b.phase <;> rw [hp] at hs <;> first | rfl | cases hs
  exact ⟨r, b, hr, hb, hphase ▸ shows, hphase⟩

/-- A container with a start intent is Created in the machine until it has a process. -/
theorem Intended.reference {id : ContainerId} (h : Intended w.cache id)
    (hm : Agrees (.starting id false) m w.cache) : ∃ r b, w.cache.containers[id]? = some r ∧
      m.containers[id]? = some b ∧ Shows .running r b ∧ b.phase = .created := by
  obtain ⟨r, hr, hstate, hpid⟩ := h
  have hold := hm.container id
  rw [hr] at hold
  generalize hy : m.containers[id]? = y at hold
  cases hold with
  | present _ b _ backed => simp [hpid] at backed; exact absurd hstate backed
  | starting _ b _ shows created => exact ⟨r, b, hr, rfl, shows, created⟩

/-- The check of a start. -/
theorem start_step {id : ContainerId} (hm : Agrees .none m w.cache) (hres : t.result = none)
    (hex : exec self n o (.crit (.startContainer id)) w = some (w', out)) :
    Next (.startContainer id) x x w'.cache m none (t.resume [.ret .unit] out) := by
  replace hex := (exec_crit_eq_some.mp hex).2
  have hold := hm.container id
  simp only [Crit.exec] at hex
  split at hex
  · rename_i hnone
    obtain ⟨rfl, rfl⟩ := Prod.mk.inj hex
    rw [hnone] at hold
    exact .returns hm
      (by simp [Reference.call, hold.of_none (by simp), Answer.of, ErrorKind.of]) rfl rfl
  · rename_i r hr
    split at hex <;> obtain ⟨rfl, rfl⟩ := Prod.mk.inj hex
    · exact .goes_on [] hm (.inl rfl) hres (by simp) (.fetchSandbox id r ⟨r, hr, ‹_›⟩) rfl
    · rw [hr] at hold
      obtain ⟨b, hb, shows, -⟩ := hold.of_some (by simp)
      have hnot : ¬ b.phase = .created := by
        intro hp
        have hs := shows.state
        rw [hp] at hs
        exact ‹¬ r.state = .created› hs
      exact .returns hm (by simp [Reference.call, hb, hnot, Answer.of, ErrorKind.of]) rfl rfl

/-- The process of a start comes up, or does not. -/
theorem spawn_step {id : ContainerId} {io : ContainerIo} (intended : Intended w.cache id)
    (hm : Agrees (.starting id false) m w.cache) (hres : t.result = none)
    (hex : exec self n o (.sys (.spawn id io)) w = some (w', out)) :
    Next (.startContainer id) x { x with spawned := o.spawn.isOk } w'.cache m none
      (t.resume [.ret .unit] out) := by
  simp only [exec_sys, Sys.exec] at hex
  split at hex
  · rename_i e he
    obtain ⟨rfl, rfl⟩ := Prod.mk.inj (Option.some.inj hex)
    exact .goes_on [] hm (.inl rfl) hres (by simp) (.spawnFailed id e
      (.internal ("spawn container " ++ id.val ++ ": " ++ e)) intended (by rw [he]; rfl) rfl) rfl
  · rename_i pid hpid
    split at hex
    · rename_i hfree
      obtain ⟨rfl, rfl⟩ := Prod.mk.inj (Option.some.inj hex)
      obtain ⟨r, b, hr, hb, shows, hphase⟩ := intended.reference hm
      have hagrees : Agrees (.starting id true) (m.setContainer id { b with phase := .running })
          w.cache := by
        refine hm.of_starting ⟨rfl, rfl⟩ (fun id' hne => by simp [hne]) ?_
        rw [hr, Reference.containers_setContainer, if_pos rfl]
        exact .present _ _ ⟨shows.sandbox, shows.config, shows.state, shows.exitCode⟩
          fun _ => .inr rfl
      have hcall : m.call { x with spawned := o.spawn.isOk } (.startContainer id) =
          some (m.setContainer id { b with phase := .running }, .ok .unit) := by
        simp [Reference.call, hb, hphase, hpid, Except.isOk, Except.toBool]
      refine .intro _ _ _ (.answer _ _ hcall) hagrees (.working hres ?_)
      have htail := Tail.persistPid (x := { x with spawned := o.spawn.isOk }) id pid w.procs.length
        intended hfree.1
      split
      · exact .tail _ _ [.sys (.insertIo id io)] _ (by simp [steady]) htail
      · exact .tail _ _ [.sys .dupPipes, .sys (.insertIo id io)] _ (by simp [steady]) htail
    · cases hex

theorem startContainer_step {id : ContainerId}
    (h : Tail w.cache x (.startContainer id) win a (f :: k)) (hm : Agrees win m w.cache)
    (ha : Allowed (.startContainer id) o f w) (hres : t.result = none)
    (hex : exec self n o f w = some (w', out)) :
    Next (.startContainer id) x (x.learn w o f) w'.cache m a (t.resume k out) := by
  cases h with
  | startContainer id => exact start_step hm hres hex
  | fetchSandbox id r created =>
    obtain ⟨rfl, rfl⟩ := Prod.mk.inj (exec_crit_eq_some.mp hex).2
    exact .goes_on [] hm (.inl rfl) hres (by simp) (.prepare id r _ created) rfl
  | prepare id r info created =>
    simp only [exec_sys, Sys.exec, ha.prepare id r info rfl] at hex
    split at hex <;> obtain ⟨rfl, rfl⟩ := Prod.mk.inj (Option.some.inj hex) <;>
      exact .goes_on [] hm (.inl rfl) hres (by simp) (.startIntent id _ created) rfl
  | startIntent id io created =>
    replace hex := (exec_crit_eq_some.mp hex).2
    obtain ⟨r, b, hr, hb, shows, hphase⟩ := created.reference hm
    simp only [Crit.exec, hr] at hex
    obtain ⟨rfl, rfl⟩ := Prod.mk.inj hex
    refine .goes_on [_] ?_ (.inl rfl) hres ?_ (.spawn id io ?_) rfl
    · refine (hm.widen : Agrees (.starting id false) m _).at_container id ⟨rfl, rfl⟩
        (fun id' hne => ?_) ?_
      · simp [World.setContainer, containers_setContainer, hne]
      · rw [World.setContainer, containers_setContainer, if_pos rfl, hb]
        exact .starting _ _ rfl ⟨shows.sandbox, shows.config, rfl, shows.exitCode⟩ hphase
    · simp [steady]
    · exact ⟨_, by rw [World.setContainer, containers_setContainer, if_pos rfl], rfl, rfl⟩
  | spawn id io intended => exact spawn_step intended hm hres hex
  | spawnFailed id e e' intended failed kind =>
    replace hex := (exec_crit_eq_some.mp hex).2
    obtain ⟨r, b, hr, hb, shows, hphase⟩ := intended.reference hm
    simp only [Crit.exec, hr] at hex
    obtain ⟨rfl, rfl⟩ := Prod.mk.inj hex
    refine .settles [_] (m.setContainer id { b with phase := .exited (-1) }) ?_ ?_ hres ?_
      (.fail e' _) rfl
    · refine hm.of_starting ⟨rfl, rfl⟩ (fun id' hne => ?_) ?_
      · simp [World.setContainer, containers_setContainer, hne]
      · rw [World.setContainer, containers_setContainer, if_pos rfl,
          Reference.containers_setContainer, if_pos rfl]
        refine .present _ _ ⟨shows.sandbox, shows.config, rfl, rfl⟩ fun hrun => ?_
        simp [ContainerRecord.toExited] at hrun
    · simp [Reference.call, Outside.learn, hb, hphase, failed, kind]
    · simp [steady]
  | persistPid id pid n intended pos =>
    replace hex := (exec_crit_eq_some.mp hex).2
    obtain ⟨r, hr, hrun, -⟩ := intended
    simp only [Crit.exec, hr] at hex
    obtain ⟨rfl, rfl⟩ := Prod.mk.inj hex
    refine .goes_on [_] ?_ (.inr rfl) hres ?_ (.spawnReaper id n) rfl
    · refine hm.of_starting ⟨rfl, rfl⟩ (fun id' hne => ?_) ?_
      · simp [World.setContainer, containers_setContainer, hne]
      · have hold := hm.container id
        rw [hr] at hold
        obtain ⟨b, hb, shows, -⟩ := hold.of_some (by simp)
        rw [World.setContainer, containers_setContainer, if_pos rfl, hb]
        exact .present _ _ ⟨shows.sandbox, shows.config, shows.state, shows.exitCode⟩
          fun _ => .inl pos
    · simp [steady]
  | spawnReaper id n =>
    obtain ⟨rfl, rfl⟩ := Prod.mk.inj (Option.some.inj hex)
    exact .intro _ _ m (.stay _ (.inr rfl)) hm
      (.working hres (.answered _ [] _ (by simp) (.ret .unit)))

theorem stopContainer_step {id : ContainerId} {grace : Int}
    (h : Tail w.cache x (.stopContainer id grace) win a (f :: k)) (hm : Agrees win m w.cache)
    (ha : Allowed (.stopContainer id grace) o f w) (hres : t.result = none)
    (hex : exec self n o f w = some (w', out)) :
    Next (.stopContainer id grace) x (x.learn w o f) w'.cache m a (t.resume k out) := by
  generalize hfs : f :: k = fs at h
  cases h with
  | stopContainer id grace q quiet watching =>
    cases q with
    | nil =>
      obtain ⟨rfl, rfl⟩ := List.cons.inj hfs
      obtain ⟨rfl, rfl⟩ := Prod.mk.inj (Option.some.inj hex)
      have hold := hm.container id
      refine .returns hm ?_ rfl rfl
      cases hr : w.cache.containers[id]? with
      | none =>
        rw [hr] at hold
        simp [Reference.call, hold.of_none (by simp), Answer.of]
      | some r =>
        rw [hr] at hold
        obtain ⟨b, hb, shows, -⟩ := hold.of_some (by simp)
        have hnot : ¬ b.phase = .running := by
          intro hp
          have hs := shows.state
          rw [hp] at hs
          obtain ⟨g, hg, -⟩ := watching r hr hs
          cases hg
        simp [Reference.call, hb, hnot, Answer.of]
    | cons g q =>
      obtain ⟨rfl, rfl⟩ := List.cons.inj hfs
      obtain ⟨hc, -, fs, rfl, hquiet, hwatch⟩ :=
        exec_quiet (x := x) (quiet _ List.mem_cons_self) ha (hm.backed (by simp)) hex
      refine .goes_on [] (hc ▸ hm) (.inl rfl) hres (by simp)
        (.stopContainer id grace (fs ++ q) ?_ ?_) (List.append_assoc _ _ _).symm
      · exact List.forall_mem_append.mpr ⟨hquiet, fun g hg => quiet g (List.mem_cons_of_mem _ hg)⟩
      · rw [hc]
        intro r hr hrun
        obtain ⟨g, hg, hstop⟩ := watching r hr hrun
        rcases List.mem_cons.mp hg with rfl | hg
        · obtain ⟨g', hg', hstop'⟩ := hwatch id hstop r hr hrun
          exact ⟨g', List.mem_append_left _ hg', hstop'⟩
        · exact ⟨g, List.mem_append_right _ hg, hstop⟩

theorem removeContainer_step {id : ContainerId}
    (h : Tail w.cache x (.removeContainer id) win a (f :: k)) (hm : Agrees win m w.cache)
    (ha : Allowed (.removeContainer id) o f w) (hres : t.result = none)
    (hex : exec self n o f w = some (w', out)) :
    Next (.removeContainer id) x (x.learn w o f) w'.cache m a (t.resume k out) := by
  have hgone : ∀ c' : Cache, c'.sandboxes = w.cache.sandboxes →
      (∀ id' : ContainerId,
        c'.containers[id']? = if id' = id then none else w.cache.containers[id']?) →
      win = .none → Agrees .none (m.removeContainer id) c' := by
    rintro c' hsb hct rfl
    refine hm.at_container id ⟨hsb, rfl⟩ (fun id' hne => ?_) ?_
    · simp [hct, hne]
    · rw [hct, if_pos rfl, Reference.containers_removeContainer, if_pos rfl]
      exact .absent
  generalize hfs : f :: k = fs at h
  cases h with
  | removeContainer id =>
    obtain ⟨rfl, rfl⟩ := List.cons.inj hfs
    replace hex := (exec_crit_eq_some.mp hex).2
    simp only [Crit.exec] at hex
    split at hex
    · rename_i hnone
      obtain ⟨rfl, rfl⟩ := Prod.mk.inj hex
      refine .settles [] (m.removeContainer id) (hgone _ rfl (fun id' => ?_) rfl) rfl hres
        (by simp) (.ret _) rfl
      split
      · rename_i he
        rw [he, hnone]
      · rfl
    · split at hex <;> obtain ⟨rfl, rfl⟩ := Prod.mk.inj hex
      · refine .goes_on [] hm (.inl rfl) hres (by simp)
          (.dropContainer id [.crit (.stopContainer id 0)] fun g hg => ?_) rfl
        obtain rfl := List.mem_singleton.mp hg
        exact .stopping id _ (by simp [stopping])
      · exact .goes_on [] hm (.inl rfl) hres (by simp) (.dropContainer id [] (by simp)) rfl
  | dropContainer id q quiet =>
    cases q with
    | nil =>
      obtain ⟨rfl, rfl⟩ := List.cons.inj hfs
      obtain ⟨rfl, rfl⟩ := Prod.mk.inj (exec_crit_eq_some.mp hex).2
      exact .settles [_, _] _ (hgone _ rfl (fun id' => containers_eraseContainer _ _ _) rfl) rfl
        hres (by simp [steady]) (.ret _) rfl
    | cons g q =>
      obtain ⟨rfl, rfl⟩ := List.cons.inj hfs
      obtain ⟨hc, -, fs, rfl, hquiet, -⟩ :=
        exec_quiet (x := x) (quiet _ List.mem_cons_self) ha (hm.backed (by simp)) hex
      refine .goes_on [] (hc ▸ hm) (.inl rfl) hres (by simp) (.dropContainer id (fs ++ q) ?_)
        (List.append_assoc _ _ _).symm
      exact List.forall_mem_append.mpr ⟨hquiet, fun g hg => quiet g (List.mem_cons_of_mem _ hg)⟩

/-- **The step of a call.** -/
theorem Stage.step {fs : List Frame} (h : Stage w.cache x call win a fs) (hfs : fs = f :: k)
    (hm : Agrees win m w.cache) (ha : Allowed call o f w) (hres : t.result = none)
    (hex : exec self n o f w = some (w', out)) :
    Next call x (x.learn w o f) w'.cache m a (t.resume k out) := by
  have hsteady : ∀ q tail : List Frame, f :: k = q ++ tail → q ≠ [] → (∀ g ∈ q, steady g) →
      w'.cache = w.cache ∧ x.learn w o f = x ∧ ∃ q', (∀ g ∈ q', steady g) ∧
        (t.resume k out).frames = q' ++ tail ∧ (t.resume k out).result = none := by
    intro q tail hq hne hsteady
    obtain ⟨g, q, rfl⟩ := List.exists_cons_of_ne_nil hne
    obtain ⟨rfl, rfl⟩ := List.cons.inj hq
    obtain ⟨hc, hx, fs, rfl, hfs⟩ := exec_steady (x := x) (hsteady _ List.mem_cons_self) ha hex
    refine ⟨hc, hx, fs ++ q, ?_, (List.append_assoc _ _ _).symm, hres⟩
    exact List.forall_mem_append.mpr ⟨hfs, fun g hg => hsteady g (List.mem_cons_of_mem _ hg)⟩
  cases h with
  | tail win a q tail steady h =>
    by_cases hq : q = []
    · subst hq
      rw [List.nil_append] at hfs
      subst hfs
      cases call with
      | runSandbox cfg => exact runSandbox_step h hm ha hres hex
      | stopSandbox id => exact stopSandbox_step h hm hres hex
      | removeSandbox id => exact removeSandbox_step h hm ha hres hex
      | createContainer sb cfg => exact createContainer_step h hm ha hres hex
      | startContainer id => exact startContainer_step h hm ha hres hex
      | stopContainer id grace => exact stopContainer_step h hm ha hres hex
      | removeContainer id => exact removeContainer_step h hm ha hres hex
      | pullImage ref | removeImage ref => cases h
    · obtain ⟨hc, hx, q', hq', hframes, hres'⟩ := hsteady q tail hfs.symm hq steady
      exact .intro _ _ m (.stay _ (.inr hx)) (hc ▸ hm)
        (.working hres' (hframes ▸ .tail _ _ q' tail hq' (hc ▸ hx.symm ▸ h)))
  | answered a q tail steady h =>
    by_cases hq : q = []
    · subst hq
      rw [List.nil_append] at hfs
      subst hfs
      cases h with
      | ret v | fail e k =>
        obtain ⟨rfl, rfl⟩ := Prod.mk.inj (Option.some.inj hex)
        exact .intro _ _ m (.stay _ (.inr rfl)) hm (.ended _ rfl rfl rfl rfl)
    · obtain ⟨hc, hx, q', hq', hframes, hres'⟩ := hsteady q tail hfs.symm hq steady
      exact .intro _ _ m (.stay _ (.inr hx)) (hc ▸ hm)
        (.working hres' (hframes ▸ .answered _ q' tail hq' h))

end Steps

/-! ## The reapers -/

/-- A reaper records the exit of a container. -/
theorem Agrees.reap {win : Window} {m : Reference} {c : Cache} {id : ContainerId}
    {r : ContainerRecord} (hm : Agrees win m c) (hwin : ∀ b, win ≠ .starting id b)
    (hr : c.containers[id]? = some r) (hrun : r.state = .running) (finished : Int)
    (st : WaitStatus) (reason : String) : ∃ m', m.step (.exit id st) = some m' ∧
      Agrees win m' (c.setContainer id (r.toExited finished (exitCode st) reason)) := by
  have hold := hm.container id
  rw [hr] at hold
  obtain ⟨b, hb, shows, -⟩ := hold.of_some (hwin false)
  have hphase : b.phase = .running := by
    have hs := shows.state
    rw [hrun] at hs
    cases hp : b.phase <;> rw [hp] at hs <;> first | rfl | cases hs
  refine ⟨m.setContainer id { b with phase := .exited (exitCode st) }, ?_, ?_⟩
  · simp [Reference.step, hb, hphase]
  · refine hm.at_container id ⟨rfl, rfl⟩ (fun id' hne => ?_) ?_
    · simp [containers_setContainer, hne]
    · rw [containers_setContainer, if_pos rfl, Reference.containers_setContainer, if_pos rfl]
      refine .present _ _ ⟨shows.sandbox, shows.config, rfl, rfl⟩ fun h => ?_
      simp [ContainerRecord.toExited] at h

section Reaped

variable {c : Cache} {x : Outside} {call : Call} {win : Window} {a : Option Answer}
  {fs : List Frame} {id : ContainerId} {r r' : ContainerRecord}

/-- A start that has a window open is still to come to its end. -/
theorem Tail.launches {b : Bool} (h : Tail c x call (.starting id b) a fs) :
    ∃ f ∈ fs, f.launches id := by
  cases h <;> simp [Frame.launches]

/-- The call at work does not depend on a container whose exit is recorded. -/
theorem Tail.reaped (h : Tail c x call win a fs) (hr : c.containers[id]? = some r)
    (hrun : r.state = .running) (hr' : r'.state = .exited)
    (hfree : ∀ f ∈ fs, f.launches id = false) : Tail (c.setContainer id r') x call win a fs := by
  have hother : ∀ id', id' ≠ id → (c.setContainer id r').containers[id']? = c.containers[id']? :=
    fun id' hne => by rw [containers_setContainer, if_neg hne]
  have hcreated : ∀ id', Created c id' → Created (c.setContainer id r') id' := by
    rintro id' ⟨r₀, hr₀, hstate⟩
    refine ⟨r₀, ?_, hstate⟩
    rw [hother id', hr₀]
    rintro rfl
    obtain rfl := Option.some.inj (hr.symm.trans hr₀)
    rw [hrun] at hstate
    cases hstate
  have hintended : ∀ id' f, f ∈ fs → f.launches id' → Intended c id' →
      Intended (c.setContainer id r') id' := by
    rintro id' f hf hl ⟨r₀, hr₀, hstate⟩
    refine ⟨r₀, ?_, hstate⟩
    rw [hother id', hr₀]
    rintro rfl
    rw [hfree f hf] at hl
    cases hl
  cases h with
  | runSandbox => exact .runSandbox _
  | insertSandbox r ready network made => exact .insertSandbox r ready network made
  | stopSandbox => exact .stopSandbox _
  | removeSandbox => exact .removeSandbox _
  | collect => exact .collect _
  | tearing id q tearing => exact .tearing id q tearing
  | createContainer => exact .createContainer _ _
  | newContainer sb cfg ready => exact .newContainer sb cfg ready
  | insertContainer r ready created exitCode made =>
    exact .insertContainer r ready created exitCode made
  | startContainer => exact .startContainer _
  | fetchSandbox id r created => exact .fetchSandbox id r (hcreated id created)
  | prepare id r info created => exact .prepare id r info (hcreated id created)
  | startIntent id io created => exact .startIntent id io (hcreated id created)
  | spawn id' io intended =>
    exact .spawn id' io (hintended id' _ List.mem_cons_self (by simp [Frame.launches]) intended)
  | spawnFailed id' e e' intended failed kind =>
    refine .spawnFailed id' e e' ?_ failed kind
    exact hintended id' _ List.mem_cons_self (by simp [Frame.launches]) intended
  | persistPid id' pid n intended pos =>
    refine .persistPid id' pid n ?_ pos
    exact hintended id' _ List.mem_cons_self (by simp [Frame.launches]) intended
  | spawnReaper => exact .spawnReaper _ _
  | stopContainer id' grace q quiet watching =>
    refine .stopContainer id' grace q quiet fun r₀ hr₀ hrun₀ => ?_
    by_cases hne : id' = id
    · rw [containers_setContainer, if_pos hne] at hr₀
      obtain rfl := Option.some.inj hr₀
      rw [hr'] at hrun₀
      cases hrun₀
    · rw [hother id' hne] at hr₀
      exact watching r₀ hr₀ hrun₀
  | removeContainer => exact .removeContainer _
  | dropContainer id q quiet => exact .dropContainer id q quiet

theorem Stage.reaped (h : Stage c x call win a fs) (hr : c.containers[id]? = some r)
    (hrun : r.state = .running) (hr' : r'.state = .exited)
    (hfree : ∀ f ∈ fs, f.launches id = false) : Stage (c.setContainer id r') x call win a fs := by
  cases h with
  | tail win a q tail steady h =>
    exact .tail win a q tail steady
      (h.reaped hr hrun hr' fun f hf => hfree f (List.mem_append_right _ hf))
  | answered a q tail steady h => exact .answered a q tail steady h

theorem Stage.not_starting (h : Stage c x call win a fs) (hfree : ∀ f ∈ fs, f.launches id = false)
    (b : Bool) : win ≠ .starting id b := by
  rintro rfl
  cases h with
  | tail _ _ q tail steady h =>
    obtain ⟨f, hf, hl⟩ := h.launches
    rw [hfree f (List.mem_append_right _ hf)] at hl
    cases hl

theorem Stage.ne_nil (h : Stage c x call win a fs) : fs ≠ [] := by
  rintro he
  cases h with
  | tail win a q tail steady h =>
    obtain ⟨-, rfl⟩ := List.append_eq_nil_iff.mp he
    generalize hnil : ([] : List Frame) = fs at h
    cases h <;> simp at hnil
  | answered a q tail steady h =>
    obtain ⟨-, rfl⟩ := List.append_eq_nil_iff.mp he
    cases h

/-- A start opens a window at its own container, a removal at its own sandbox. -/
theorem Tail.window (h : Tail c x call win a fs) :
    (∀ id b, win = .starting id b → call = .startContainer id) ∧
      ∀ id, win = .removing id → call = .removeSandbox id := by
  cases h <;> simp

theorem Stage.window (h : Stage c x call win a fs) :
    (∀ id b, win = .starting id b → call = .startContainer id) ∧
      ∀ id, win = .removing id → call = .removeSandbox id := by
  cases h with
  | tail win a q tail steady h => exact h.window
  | answered a q tail steady h => simp

end Reaped

/-- What the tasks know of the processes. -/
structure Reaping (ended : Nat → Option WaitStatus) (s : State) : Prop where
  deaths : Deaths ended s.shared
  /-- A reaper records how its process has ended. -/
  reapers : ∀ t ∈ s.tasks, ∀ id q, t.tag = .reaper id q → Owns s.shared id q ∧
    ∀ finished st, .crit (.reap id finished st) ∈ t.frames →
      ∃ st', st = .ok st' ∧ ended q = some st'
  spawners : ∀ t ∈ s.tasks, ∀ id q, .sys (.spawnReaper id q) ∈ t.frames → Owns s.shared id q

section Steps

variable {s s' : State} {i : Nat} {t : Thread} {o : Oracle} {f : Frame} {k : List Frame}
  {out : Out} {ended : Nat → Option WaitStatus}

/-- A step of the reaper of `q`. -/
theorem reap_mem {w w' : World} {self n : Nat} {id : ContainerId} {q : Nat} {b : Bool}
    (hb : ReaperTask id q b t.frames) (hf : t.frames = f :: k)
    (hex : exec self n o f w = some (w', out)) {finished : Int} {st : Except String WaitStatus}
    (hmem : .crit (.reap id finished st) ∈ (t.resume k out).frames) :
    .crit (.reap id finished st) ∈ t.frames ∨
      ∃ p st', w.procs[q]? = some p ∧ p.state = .zombie st' ∧ st = .ok st' := by
  rcases Task.mem_resume hmem with hp | hk
  · right
    rw [hf] at hb
    rcases hb.frame with rfl | rfl | ⟨_, _, rfl⟩ | rfl | ⟨g, rfl⟩
    · simp only [exec_sys, Sys.exec] at hex
      split at hex
      · cases hex
      · rename_i p hproc
        split at hex
        · rename_i st' hst
          obtain ⟨-, rfl⟩ := Prod.mk.inj (Option.some.inj hex)
          have he : finished = o.clock ∧ st = .ok st' := by simpa [Outcome.pushed] using hp
          exact ⟨p, st', hproc, hst, he.2⟩
        · cases hex
    · obtain ⟨-, rfl⟩ := Prod.mk.inj (Option.some.inj hex)
      simp [Outcome.pushed] at hp
    · replace hex := (exec_crit_eq_some.mp hex).2
      simp only [Crit.exec] at hex
      repeat' split at hex
      all_goals
        obtain ⟨-, rfl⟩ := Prod.mk.inj hex
        simp [Outcome.pushed] at hp
    · obtain ⟨-, rfl⟩ := Prod.mk.inj (Option.some.inj hex)
      simp [Outcome.pushed] at hp
    · obtain ⟨-, rfl⟩ := exec_file_eq_some.mp hex
      obtain ⟨g', he⟩ := FileOp.pushed_file hp
      cases he
  · exact .inl (hf ▸ List.mem_cons_of_mem _ hk)

/-- A start spawns the reaper of the process it has spawned. -/
theorem exec_spawns {w w' : World} {self n : Nat} {id : ContainerId} {q : Nat}
    (hex : exec self n o f w = some (w', out)) (hmem : .sys (.spawnReaper id q) ∈ out.pushed) :
    Owns w' id q := by
  obtain ⟨io, rfl⟩ : ∃ io, f = .sys (.spawn id io) :=
    exec_spawnsReaper hex _ hmem (by simp [Frame.spawnsReaper])
  simp only [exec_sys, Sys.exec] at hex
  split at hex
  · obtain ⟨rfl, rfl⟩ := Prod.mk.inj (Option.some.inj hex)
    simp [Outcome.pushed] at hmem
  · rename_i pid _
    split at hex
    · obtain ⟨rfl, rfl⟩ := Prod.mk.inj (Option.some.inj hex)
      have hq : q = w.procs.length := by
        simp only [Outcome.pushed] at hmem
        split at hmem <;> simpa using hmem
      exact ⟨⟨pid, some id, true, .alive⟩, by rw [hq]; simp, rfl⟩
    · cases hex

theorem Reaping.advance (h : Reaping ended s) (hreap : Reapers s)
    (hadv : Pool.Advance exec s i o s' t f k out) :
    Reaping (Lifecycle.deaths ended s'.shared) s' := by
  have ha := exec_aged hadv.exec
  obtain ⟨hdeaths, hkeep⟩ := h.deaths.step ha
  refine ⟨hdeaths, fun u hu id q htag => ?_, fun u hu id q hmem => ?_⟩
  · rcases hadv.mem_cases hu with rfl | hu | hu
    · rw [Task.resume_tag] at htag
      obtain ⟨hown, hframes⟩ := h.reapers t hadv.mem id q htag
      refine ⟨ha.owns hown, fun finished st hmem => ?_⟩
      obtain ⟨b, hb⟩ := hreap t hadv.mem id q htag
      rcases reap_mem hb hadv.frames hadv.exec hmem with hold | ⟨p, st', hp, hst, rfl⟩
      · obtain ⟨st', rfl, hended⟩ := hframes finished st hold
        exact ⟨st', rfl, hkeep q st' hended⟩
      · exact ⟨st', rfl, hkeep q st' (h.deaths.zombie q p st' hp hst)⟩
    · obtain ⟨hown, hframes⟩ := h.reapers u hu id q htag
      refine ⟨ha.owns hown, fun finished st hmem => ?_⟩
      obtain ⟨st', rfl, hended⟩ := hframes finished st hmem
      exact ⟨st', rfl, hkeep q st' hended⟩
    · obtain ⟨id', q', rfl, rfl⟩ := children_reaper hadv hu
      obtain ⟨rfl, rfl⟩ := Tag.reaper.inj htag
      refine ⟨ha.owns (h.spawners t hadv.mem id' q' (by simp [hadv.frames])), ?_⟩
      simp
  · rcases hadv.mem_cases hu with rfl | hu | hu
    · rcases Task.mem_resume hmem with hp | hk
      · exact exec_spawns hadv.exec hp
      · exact ha.owns (h.spawners t hadv.mem id q (by simp [hadv.frames, hk]))
    · exact ha.owns (h.spawners u hu id q hmem)
    · obtain ⟨_, _, -, rfl⟩ := children_reaper hadv hu
      simp at hmem

end Steps

/-! ## The refinement -/

section Refines

variable {s s' : State} {i : Nat} {t : Thread} {o : Oracle} {f : Frame} {k : List Frame}
  {out : Out} {h : History} {evs : List Event} {m : Reference} {l : Label}

/-- An operation on a record file succeeds. -/
theorem file_next (hok : opsSucceed s (.step i o)) (hadv : Pool.Advance exec s i o s' t f k out)
    {g : FileOp} (hf : f = .file g) : ∃ fs, (g.exec o s.shared).2 = .next fs := by
  cases g with
  | write r strict =>
    have hfault : o.fault = none := by simpa [opsSucceed, hadv.top_eq, hf] using hok
    simp only [FileOp.exec, hfault]
    exact ⟨_, rfl⟩
  | rename p n r strict =>
    obtain ⟨hfault, hread⟩ : o.fault = none ∧
        (s.shared.disk.read r.obj.subdir (tmpName p n)).isSome := by
      simpa [opsSucceed, hadv.top_eq, hf] using hok
    obtain ⟨x, hx⟩ := Option.isSome_iff_exists.mp hread
    exact ⟨[], by simp [FileOp.exec, hfault, Disk.rename, hx]⟩
  | unlink ob =>
    have hfault : o.fault = none := by simpa [opsSucceed, hadv.top_eq, hf] using hok
    exact ⟨[], by simp only [FileOp.exec, hfault]⟩

/-- What a call relies on holds in orderly runs. -/
theorem allowed_of_orderly (hs : Orderly s) (hl : contract s (.step i o))
    (hadv : Pool.Advance exec s i o s' t f k out) {call : Call} (htag : t.tag = .call call) :
    Allowed call o f s.shared := by
  obtain ⟨⟨-, -, hok⟩, hcalm⟩ := hl
  have hsound := hs.kept.serial.sound
  have hfresh : ∀ r : DiskRecord, f = .crit r.insert → r.obj.minted →
      s.shared.cache.get r.obj = none := by
    intro r hf hm
    obtain ⟨d, hd⟩ := hsound.duties t hadv.mem
    have hduty : d = .issues r true := by
      rw [hadv.frames, hf] at hd
      rw [← hd.dutyOf_eq]
      simp [dutyOf]
    exact (hsound.fresh i t r true hadv.task (hduty ▸ hd) hm).1
  constructor
  case file => exact fun g hf => file_next hok hadv hf
  case prepare =>
    intro id r info hf
    simpa [calm, hadv.top_eq, hf] using hcalm
  case dupPipes =>
    intro hf
    simpa [calm, hadv.top_eq, hf] using hcalm
  case killed =>
    intro id hf
    simpa [calm, hadv.top_eq, hf] using hcalm
  case newSandbox =>
    intro r hf
    simpa [Cache.get] using hfresh (.sandbox r) hf rfl
  case newContainer =>
    intro r hf
    simpa [Cache.get] using hfresh (.container r) hf rfl
  case housed =>
    rintro _ hnone id r hr rfl
    have hsome := hs.housed.parents id r hr
    simp [Cache.get, hnone] at hsome
  case emptied =>
    rintro sb rfl
    exact hs.removals.no_members hadv
  case torn =>
    rintro sb id r rfl rfl hr
    have hstaged := hs.removals.staged t hadv.mem sb htag
    rw [hadv.frames] at hstaged
    cases hstaged.head with
    | tears _ _ htears =>
      cases htears with
      | dropContainer _ mine => exact mine r hr

/-- Where the call at work is, when there is one. -/
inductive AtWork (h : History) (s : State) (m : Reference) :
    List (Call × Outside × Answer) → Prop
  | idle (no : NoCall s) (agrees : Agrees .none m s.shared.cache) : AtWork h s m h.log
  | working (i : Nat) (t : Thread) (call win a) (task : s.tasks[i]? = some t)
    (tag : t.tag = .call call) (result : t.result = none)
    (stage : Stage s.shared.cache h.outside call win a t.frames)
    (agrees : Agrees win m s.shared.cache) :
    AtWork h s m (h.log ++ (a.map fun a => (call, h.outside, a)).toList)

/-- The machine has taken the steps `evs`, and is where the backend is. -/
structure Matches (h : History) (s : State) (evs : List Event) (m : Reference) : Prop where
  run : Foundations.run Reference.step .empty evs = some m
  exits : ∀ id st, .exit id st ∈ evs → ∃ q, Owns s.shared id q ∧ h.ended q = some st
  at_work : AtWork h s m (evs.filterMap Event.call?)

theorem Matches.init (listener : Nat) (blake3 : String → String) :
    Matches {} (init listener blake3) [] .empty :=
  ⟨rfl, by simp, .idle (by simp [NoCall, Fake.init]) .empty⟩

/-- A step that is none of the machine, nor of the call at work. -/
theorem Matches.mono {h' : History} (hm : Matches h s evs m) (ha : Aged s.shared s'.shared)
    (hended : ∀ q st, h.ended q = some st → h'.ended q = some st)
    (hwork : AtWork h s m (evs.filterMap Event.call?) →
      AtWork h' s' m (evs.filterMap Event.call?)) : Matches h' s' evs m := by
  refine ⟨hm.run, fun id st hmem => ?_, hwork hm.at_work⟩
  obtain ⟨q, hq, hst⟩ := hm.exits id st hmem
  exact ⟨q, ha.owns hq, hended q st hst⟩

/-- A call begins. -/
theorem AtWork.invoke {calls : List (Call × Outside × Answer)} {c : Call}
    {ended : Nat → Option WaitStatus} (hw : AtWork h s m calls) (hno : NoCall s)
    (hc : calm s (.invoke c)) :
    AtWork ⟨{}, h.log, ended⟩ (s.start (.call c) c.frames) m calls := by
  have hidle : Agrees .none m s.shared.cache ∧ calls = h.log := by
    cases hw with
    | idle _ agrees => exact ⟨agrees, rfl⟩
    | working i t call win a task tag result stage agrees =>
      exact absurd (hno t (List.mem_of_getElem? task) (by rw [tag]; rfl)) stage.ne_nil
  have hnew : (s.start (.call c) c.frames).tasks[s.tasks.length]? =
      some ⟨.call c, c.frames, none⟩ := by simp [Pool.start]
  have hstage : Stage s.shared.cache {} c .none none c.frames := by
    have htail : ∀ tail, Tail s.shared.cache {} c .none none tail →
        Stage s.shared.cache {} c .none none tail := fun tail => .tail _ _ [] tail (by simp)
    cases c with
    | runSandbox cfg => exact htail _ (.runSandbox cfg)
    | stopSandbox id => exact htail _ (.stopSandbox id)
    | removeSandbox id => exact htail _ (.removeSandbox id)
    | createContainer sb cfg => exact htail _ (.createContainer sb cfg)
    | startContainer id => exact htail _ (.startContainer id)
    | stopContainer id grace =>
      refine htail _ (.stopContainer id grace [.crit (.stopContainer id grace)] (fun f hf => ?_)
        fun _ _ _ => ⟨_, List.mem_cons_self, by simp [stopping]⟩)
      obtain rfl := List.mem_singleton.mp hf
      exact .stopping id _ (by simp [stopping])
    | removeContainer id => exact htail _ (.removeContainer id)
    | pullImage ref | removeImage ref => cases hc
  have hwork :=
    AtWork.working (h := ⟨{}, h.log, ended⟩) _ _ c .none none hnew rfl rfl hstage hidle.1
  rw [hidle.2]
  simpa using hwork

/-- A process changes and nothing else does. -/
theorem AtWork.of_shared {calls : List (Call × Outside × Answer)} {h' : History}
    (hw : AtWork h s m calls) (htasks : s'.tasks = s.tasks)
    (hcache : s'.shared.cache = s.shared.cache) (hout : h'.outside = h.outside)
    (hlog : h'.log = h.log) : AtWork h' s' m calls := by
  cases hw with
  | idle no agrees =>
    rw [← hlog]
    refine .idle (fun t ht => no t (htasks ▸ ht)) (hcache ▸ agrees)
  | working i t call win a task tag result stage agrees =>
    rw [← hlog, ← hout]
    refine .working i t call win a (htasks ▸ task) tag result ?_ (hcache ▸ agrees)
    rw [hcache, hout]
    exact stage

/-! ### Steps of tasks -/

/-- Between two calls there is none after a step of a task that is no call, or has returned. -/
theorem noCall_advance (hser : Serial s) (hadv : Pool.Advance exec s i o s' t f k out)
    (hself : t.tag.isCall → (t.resume k out).frames = []) (hother : NoCall s ∨ t.tag.isCall) :
    NoCall s' := by
  intro u hu hcall
  obtain ⟨j, hj⟩ := List.getElem?_of_mem hu
  rcases hadv.cases hj with ⟨-, rfl⟩ | ⟨hne, hj⟩ | ⟨-, hu⟩
  · rw [Task.resume_tag] at hcall
    exact hself hcall
  · rcases hother with hno | ht
    · exact hno u (List.mem_of_getElem? hj) hcall
    · exact hser.frames_nil hadv ht hne hj hcall
  · obtain ⟨_, _, -, rfl⟩ := children_reaper hadv hu
    cases hcall

theorem observe_step (hadv : Pool.Advance exec s i o s' t f k out) :
    observe h s (.step i o) s' = ⟨h.outside.learn s.shared o f,
      h.log ++ (returned s' i).toList.map fun r => (r.1, h.outside.learn s.shared o f, .of r.2),
      deaths h.ended s'.shared⟩ := by
  simp [observe, hadv.top_eq]

theorem returned_step (hadv : Pool.Advance exec s i o s' t f k out) {call : Call}
    (htag : t.tag = .call call) :
    returned s' i = (t.resume k out).result.map fun r => (call, r) := by
  have hself := hadv.getElem?_self
  have htag' : (t.resume k out).tag = .call call := by rw [Task.resume_tag, htag]
  generalize t.resume k out = u at hself htag'
  obtain ⟨tag, frames, result⟩ := u
  cases htag'
  cases result <;> simp [returned, hself]

/-- The call at work makes a step. -/
theorem AtWork.call {calls : List (Call × Outside × Answer)} {call : Call}
    (hw : AtWork h s m calls) (hs : Orderly s) (hl : contract s (.step i o))
    (hadv : Pool.Advance exec s i o s' t f k out) (htag : t.tag = .call call) :
    ∃ es m', run Reference.step m es = some m' ∧ (∀ id st, .exit id st ∉ es) ∧
      AtWork (observe h s (.step i o) s') s' m' (calls ++ es.filterMap Event.call?) := by
  have hcall : t.tag.isCall := by rw [htag]; rfl
  have hself := hadv.getElem?_self
  rw [observe_step hadv, returned_step hadv htag]
  cases hw with
  | idle no agrees =>
    have hnil := no t hadv.mem hcall
    rw [hadv.frames] at hnil
    cases hnil
  | working j u call' win a task tag result stage agrees =>
    obtain rfl : j = i := by
      by_contra hne
      exact stage.ne_nil (hs.kept.serial.frames_nil hadv hcall hne task (by rw [tag]; rfl))
    obtain rfl : u = t := Option.some.inj (task.symm.trans hadv.task)
    obtain rfl : call' = call := Tag.call.inj (tag.symm.trans htag)
    have hno : (u.resume k out).frames = [] → NoCall s' := fun hnil =>
      noCall_advance hs.kept.serial hadv (fun _ => hnil) (.inr hcall)
    obtain ⟨win', a', m', moves, agrees', after⟩ :=
      stage.step hadv.frames agrees (allowed_of_orderly hs hl hadv htag) result hadv.exec
    have htag' : (u.resume k out).tag = .call call' := by rw [Task.resume_tag, htag]
    cases moves with
    | stay _ same =>
      refine ⟨[], m, rfl, by simp, ?_⟩
      have hpending : (a.map fun a => (call', h.outside, a)) =
          a.map fun a => (call', h.outside.learn s.shared o f, a) := by
        rcases same with rfl | hx
        · rfl
        · rw [hx]
      rw [List.filterMap_nil, List.append_nil, hpending]
      cases after with
      | working result' stage' =>
        have hwork := AtWork.working (h := ⟨h.outside.learn s.shared o f, h.log,
          deaths h.ended s'.shared⟩) j _ call' win' a hself htag' result' stage' agrees'
        simpa [result'] using hwork
      | ended r frames result' window answer =>
        subst window
        have hidle := AtWork.idle (h := ⟨h.outside.learn s.shared o f,
          h.log ++ [(call', h.outside.learn s.shared o f, .of r)], deaths h.ended s'.shared⟩)
          (hno frames) agrees'
        simpa [result', answer] using hidle
    | answer _ ans answers =>
      refine ⟨[.call call' (h.outside.learn s.shared o f) ans], m', ?_, by simp, ?_⟩
      · simp [run, Reference.step, answers]
      cases after with
      | working result' stage' =>
        have hwork := AtWork.working (h := ⟨h.outside.learn s.shared o f, h.log,
          deaths h.ended s'.shared⟩) j _ call' win' _ hself htag' result' stage' agrees'
        simpa [result', Event.call?] using hwork
      | ended r frames result' window answer =>
        subst window
        obtain rfl := Option.some.inj answer
        have hidle := AtWork.idle (h := ⟨h.outside.learn s.shared o f,
          h.log ++ [(call', h.outside.learn s.shared o f, .of r)], deaths h.ended s'.shared⟩)
          (hno frames) agrees'
        simpa [result', Event.call?] using hidle

/-- What a step of a reaper does to the cache. -/
theorem exec_reaper_cache {w w' : World} {self n : Nat} {id : ContainerId} {q : Nat} {b : Bool}
    (hb : ReaperTask id q b (f :: k)) (hex : exec self n o f w = some (w', out)) :
    w'.cache = w.cache ∨ ∃ finished st r, f = .crit (.reap id finished st) ∧
      w.cache.containers[id]? = some r ∧ r.state = .running ∧
      w'.cache = w.cache.setContainer id
        (r.toExited finished (terminal st).1 (terminal st).2) := by
  rcases hb.frame with rfl | rfl | ⟨finished, st, rfl⟩ | rfl | ⟨g, rfl⟩
  · simp only [exec_sys, Sys.exec] at hex
    repeat' split at hex
    all_goals first
      | (obtain ⟨rfl, -⟩ := Prod.mk.inj (Option.some.inj hex)
         exact .inl rfl)
      | cases hex
  · obtain ⟨rfl, -⟩ := Prod.mk.inj (Option.some.inj hex)
    exact .inl rfl
  · replace hex := (exec_crit_eq_some.mp hex).2
    simp only [Crit.exec] at hex
    split at hex
    · obtain ⟨rfl, -⟩ := Prod.mk.inj hex
      exact .inl rfl
    · rename_i r hr
      split at hex <;> obtain ⟨rfl, -⟩ := Prod.mk.inj hex
      · exact .inr ⟨finished, st, r, rfl, hr, ‹_›, rfl⟩
      · exact .inl rfl
  · obtain ⟨rfl, -⟩ := Prod.mk.inj (Option.some.inj hex)
    exact .inl rfl
  · obtain ⟨rfl, -⟩ := exec_file_eq_some.mp hex
    exact .inl (FileOp.exec_cache_procs o w g).1

/-- A reaper makes a step. -/
theorem AtWork.reaper {calls : List (Call × Outside × Answer)} {id : ContainerId} {q : Nat}
    (hw : AtWork h s m calls) (hs : Orderly s) (hr : Reaping h.ended s)
    (hadv : Pool.Advance exec s i o s' t f k out) (htag : t.tag = .reaper id q) :
    ∃ es m', run Reference.step m es = some m' ∧
      (∀ id' st, .exit id' st ∈ es → Owns s.shared id' q ∧ h.ended q = some st) ∧
      AtWork (observe h s (.step i o) s') s' m' (calls ++ es.filterMap Event.call?) := by
  have hser := hs.kept.serial
  obtain ⟨b, hb⟩ := hser.reapers t hadv.mem id q htag
  rw [hadv.frames] at hb
  have hreturned : returned s' i = none := by
    have hself := hadv.getElem?_self
    have htag' : (t.resume k out).tag = .reaper id q := by rw [Task.resume_tag, htag]
    generalize t.resume k out = u at hself htag'
    obtain ⟨tag, frames, result⟩ := u
    cases htag'
    simp [returned, hself]
  have hlearn : h.outside.learn s.shared o f = h.outside := by
    rcases hb.frame with rfl | rfl | ⟨_, _, rfl⟩ | rfl | ⟨_, rfl⟩ <;> rfl
  rw [observe_step hadv, hreturned, hlearn, Option.toList_none, List.map_nil, List.append_nil]
  have hno : NoCall s → NoCall s' := fun hno =>
    noCall_advance hser hadv (fun hcall => by rw [htag] at hcall; cases hcall) (.inl hno)
  rcases exec_reaper_cache hb hadv.exec with hc | ⟨finished, st, r, rfl, hget, hrun, hc⟩
  · refine ⟨[], m, rfl, by simp, ?_⟩
    rw [List.filterMap_nil, List.append_nil]
    cases hw with
    | idle no agrees => exact .idle (hno no) (hc ▸ agrees)
    | working j u call win a task tag result stage agrees =>
      have hne : j ≠ i := by
        rintro rfl
        obtain rfl := Option.some.inj (task.symm.trans hadv.task)
        rw [tag] at htag
        cases htag
      exact .working j u call win a (hadv.getElem?_of_some hne task) tag result (hc ▸ stage)
        (hc ▸ agrees)
  · obtain ⟨hown, hknown⟩ := hr.reapers t hadv.mem id q htag
    obtain ⟨st, rfl, hended⟩ := hknown finished st (by simp [hadv.frames])
    rw [terminal_ok] at hc
    have hexits : ∀ id' st', .exit id' st' ∈ [Event.exit id st] →
        Owns s.shared id' q ∧ h.ended q = some st' := by
      intro id' st' hmem
      obtain ⟨rfl, rfl⟩ := Event.exit.inj (List.mem_singleton.mp hmem)
      exact ⟨hown, hended⟩
    cases hw with
    | idle no agrees =>
      obtain ⟨m', hstep, hagrees⟩ := agrees.reap (by simp) hget hrun finished st
        (terminal (.ok st)).2
      refine ⟨[.exit id st], m', by simp [run, hstep], hexits, ?_⟩
      rw [List.filterMap_cons_none rfl, List.filterMap_nil, List.append_nil]
      exact .idle (hno no) (hc ▸ hagrees)
    | working j u call win a task tag result stage agrees =>
      have hne : j ≠ i := by
        rintro rfl
        obtain rfl := Option.some.inj (task.symm.trans hadv.task)
        rw [tag] at htag
        cases htag
      have hmem := List.mem_of_getElem? task
      have hfree : ∀ g ∈ u.frames, g.launches id = false := by
        intro g hg
        by_contra hl
        refine (hser.window u hmem (by rw [tag]; rfl) id ?_).2 t hadv.mem q htag
        exact List.any_eq_true.mpr ⟨g, hg, by simpa using hl⟩
      obtain ⟨m', hstep, hagrees⟩ := agrees.reap (stage.not_starting hfree) hget hrun finished st
        (terminal (.ok st)).2
      refine ⟨[.exit id st], m', by simp [run, hstep], hexits, ?_⟩
      rw [List.filterMap_cons_none rfl, List.filterMap_nil, List.append_nil]
      refine .working j u call win a (hadv.getElem?_of_some hne task) tag result ?_ (hc ▸ hagrees)
      rw [hc]
      exact stage.reaped hget hrun rfl hfree

/-- **The simulation.** A step of the backend is none of the machine, or one. -/
theorem matches_step (hm : Matches h s evs m) (hs : Orderly s) (hr : Reaping h.ended s)
    (hl : contract s l) (hstep : step s l = some s') :
    ∃ es m', Matches (observe h s l s') s' (evs ++ es) m' := by
  have haged := step_aged hl.1.1 hstep
  have hkeep := (hr.deaths.step haged).2
  have hstay : Matches (observe h s l s') s' evs m →
      ∃ es m', Matches (observe h s l s') s' (evs ++ es) m' :=
    fun hm' => ⟨[], m, by rwa [List.append_nil]⟩
  cases l with
  | invoke c =>
    obtain rfl := Option.some.inj hstep
    exact hstay (hm.mono haged hkeep fun hw => hw.invoke (of_decide_eq_true hl.1.2.1) hl.2)
  | exit q st =>
    obtain ⟨p, -, rfl⟩ := step_exit hstep
    exact hstay (hm.mono haged hkeep fun hw => hw.of_shared rfl rfl rfl rfl)
  | foreign pid =>
    obtain ⟨-, -, rfl⟩ := step_foreign hstep
    exact hstay (hm.mono haged hkeep fun hw => hw.of_shared rfl rfl rfl rfl)
  | restart rs => cases hl.1.1
  | step i o =>
    obtain ⟨t, f, k, out, hadv⟩ := Pool.advance_eq_some hstep
    have hgrow : ∀ es m', run Reference.step m es = some m' →
        (∀ id st, .exit id st ∈ es → ∃ q, Owns s.shared id q ∧ h.ended q = some st) →
        AtWork (observe h s (.step i o) s') s' m'
          (evs.filterMap Event.call? ++ es.filterMap Event.call?) →
        ∃ es m', Matches (observe h s (.step i o) s') s' (evs ++ es) m' := by
      intro es m' hes hexits hwork
      refine ⟨es, m', run_append_eq_some.mpr ⟨m, hm.run, hes⟩, fun id st hmem => ?_, ?_⟩
      · obtain ⟨q, hq, hst⟩ : ∃ q, Owns s.shared id q ∧ h.ended q = some st := by
          rcases List.mem_append.mp hmem with hmem | hmem
          · exact hm.exits id st hmem
          · exact hexits id st hmem
        exact ⟨q, haged.owns hq, hkeep q st hst⟩
      · rw [List.filterMap_append]
        exact hwork
    cases htag : t.tag with
    | call c =>
      obtain ⟨es, m', hes, hexits, hwork⟩ := hm.at_work.call hs hl hadv htag
      exact hgrow es m' hes (fun id st hmem => absurd hmem (hexits id st)) hwork
    | reaper id q =>
      obtain ⟨es, m', hes, hexits, hwork⟩ := hm.at_work.reaper hs hr hadv htag
      exact hgrow es m' hes (fun id' st hmem => ⟨q, hexits id' st hmem⟩) hwork

theorem reaping_step (hr : Reaping h.ended s) (hs : Orderly s) (hl : contract s l)
    (hstep : step s l = some s') : Reaping (observe h s l s').ended s' := by
  have haged := step_aged hl.1.1 hstep
  obtain ⟨hdeaths, hkeep⟩ := hr.deaths.step haged
  have hold : s'.tasks = s.tasks → Reaping (deaths h.ended s'.shared) s' := by
    intro htasks
    refine ⟨hdeaths, fun t ht id q htag => ?_, fun t ht id q hmem => ?_⟩
    · obtain ⟨hown, hframes⟩ := hr.reapers t (htasks ▸ ht) id q htag
      refine ⟨haged.owns hown, fun finished st hmem => ?_⟩
      obtain ⟨st', rfl, hended⟩ := hframes finished st hmem
      exact ⟨st', rfl, hkeep q st' hended⟩
    · exact haged.owns (hr.spawners t (htasks ▸ ht) id q hmem)
  cases l with
  | invoke c =>
    obtain rfl := Option.some.inj hstep
    refine ⟨hdeaths, fun t ht id q htag => ?_, fun t ht id q hmem => ?_⟩
    · rcases Pool.mem_tasks_start.mp ht with ht | rfl
      · obtain ⟨hown, hframes⟩ := hr.reapers t ht id q htag
        refine ⟨hown, fun finished st hmem => ?_⟩
        obtain ⟨st', rfl, hended⟩ := hframes finished st hmem
        exact ⟨st', rfl, hkeep q st' hended⟩
      · cases htag
    · rcases Pool.mem_tasks_start.mp ht with ht | rfl
      · exact hr.spawners t ht id q hmem
      · cases c <;> simp [Call.frames] at hmem
  | exit q st =>
    obtain ⟨p, -, rfl⟩ := step_exit hstep
    exact hold rfl
  | foreign pid =>
    obtain ⟨-, -, rfl⟩ := step_foreign hstep
    exact hold rfl
  | restart rs => cases hl.1.1
  | step i o =>
    obtain ⟨t, f, k, out, hadv⟩ := Pool.advance_eq_some hstep
    exact hr.advance hs.kept.serial.reapers hadv

/-- What the steps of the simulation rely on, and keep. -/
structure Simulates (p : History × State) (evs : List Event) : Prop where
  orderly : Orderly p.2
  reaping : Reaping p.1.ended p.2
  matched : ∃ m, Matches p.1 p.2 evs m

theorem simulates_init (listener : Nat) (blake3 : String → String) :
    Simulates ({}, init listener blake3) [] :=
  ⟨orderly_init listener blake3,
    ⟨⟨by simp [Fake.init], by simp⟩, by simp [Fake.init], by simp [Fake.init]⟩,
    _, .init listener blake3⟩

theorem Simulates.step {p p' : History × State} (hp : Simulates p evs) {l : Label}
    (hl : contract p.2 l) (hstep : withHistory Fake.step observe p l = some p') :
    ∃ es, Simulates p' (evs ++ es) := by
  obtain ⟨h', s'⟩ := p'
  obtain ⟨hstep, hobs⟩ := withHistory_eq_some.mp hstep
  obtain rfl : h' = observe p.1 p.2 l s' := hobs
  obtain ⟨m, hm⟩ := hp.matched
  obtain ⟨es, hm⟩ := matches_step hm hp.orderly hp.reaping hl hstep
  exact ⟨es, orderly_step hp.orderly hl.1 hstep, reaping_step hp.reaping hp.orderly hl hstep, hm⟩

/-- The call is at work. -/
def Working (s : State) (c : Call) : Prop := ∃ t ∈ s.tasks, t.tag = .call c ∧ t.frames ≠ []

/-- The container is neither being started nor in a sandbox that is being removed. -/
structure Apart (s : State) (m : Reference) (id : ContainerId) : Prop where
  start : ¬ Working s (.startContainer id)
  removal : ∀ b, m.containers[id]? = some b → ¬ Working s (.removeSandbox b.sandbox)

/-- At any moment the cache shows the state of a machine that has taken the calls that have
returned, and may have taken the one at work; the window spares all but what that one is about. -/
theorem Matches.at_moment (hm : Matches h s evs m) : ∃ win last,
    Agrees win m s.shared.cache ∧ evs.filterMap Event.call? = h.log ++ Option.toList last ∧
      (∀ e ∈ last, Working s e.1) ∧ (∀ id, Apart s m id → win.Spares m id) ∧
      ∀ id, ¬ Working s (.removeSandbox id) → win ≠ .removing id := by
  have hwork := hm.at_work
  generalize evs.filterMap Event.call? = calls at hwork
  cases hwork with
  | idle no agrees =>
    exact ⟨.none, none, agrees, by simp, by simp, fun _ _ => ⟨by simp, by simp⟩, by simp⟩
  | working i t call win a task tag result stage agrees =>
    have hworking : Working s call := ⟨t, List.mem_of_getElem? task, tag, stage.ne_nil⟩
    obtain ⟨hstarting, hremoving⟩ := stage.window
    refine ⟨win, a.map fun a => (call, h.outside, a), agrees, rfl, ?_, fun id hid => ⟨?_, ?_⟩, ?_⟩
    · rintro e he
      obtain ⟨a, -, rfl⟩ := Option.map_eq_some_iff.mp he
      exact hworking
    · rintro b hwin
      exact hid.start (hstarting id b hwin ▸ hworking)
    · rintro b hb hwin
      exact hid.removal b hb (hremoving b.sandbox hwin ▸ hworking)
    · rintro id hno hwin
      exact hno (hremoving id hwin ▸ hworking)

/-- What reads show. The machine has taken the steps `evs`, among them the calls that have returned,
with the answers they gave, and it may have taken the one at work, the `last`. Of all that no call
at work is about, the statuses and the lines of the lists are those of the machine. -/
structure Reads (h : History) (s : State) (evs : List Event) (m : Reference)
    (last : Option (Call × Outside × Answer)) : Prop where
  run : Foundations.run Reference.step .empty evs = some m
  calls : evs.filterMap Event.call? = h.log ++ last.toList
  working : ∀ e ∈ last, Working s e.1
  exits : ∀ id st, .exit id st ∈ evs → ∃ q, Owns s.shared id q ∧ h.ended q = some st
  sandboxStatus : ∀ id, ¬ Working s (.removeSandbox id) →
    answered statusLine (Fake.sandboxStatus s.shared.cache id) = m.sandboxStatus id
  containerStatus : ∀ id, Apart s m id →
    answered containerStatusLine (Fake.containerStatus s.shared.cache id) = m.containerStatus id
  listSandboxes : ∀ f (p : SandboxId → Bool), (∀ id, p id → ¬ Working s (.removeSandbox id)) →
    ((Fake.listSandboxes s.shared.cache f).map statusLine).filter (fun l => p l.id) =
      (m.listSandboxes f).filter fun l => p l.id
  listContainers : ∀ f (p : ContainerId → Bool), (∀ id, p id → Apart s m id) →
    ((Fake.listContainers s.shared.cache f).map containerStatusLine).filter (fun l => p l.id) =
      (m.listContainers f).filter fun l => p l.id

theorem Simulates.reads (hp : Simulates (h, s) evs) : ∃ m last, Reads h s evs m last := by
  obtain ⟨m, hm⟩ := hp.matched
  have hkeyed := hp.orderly.kept.serial.sound.keyed
  obtain ⟨win, last, hagrees, hcalls, hlast, hspares, hremoving⟩ := hm.at_moment
  exact ⟨m, last, {
    run := hm.run
    calls := hcalls
    working := hlast
    exits := hm.exits
    sandboxStatus := fun id hid => hagrees.sandboxStatus hkeyed id (hremoving id hid)
    containerStatus := fun id hid => hagrees.containerStatus hkeyed id (hspares id hid)
    listSandboxes := fun f _ hp =>
      hagrees.listSandboxes hkeyed (fun id hid => hremoving id (hp id hid)) f
    listContainers := fun f _ hp =>
      hagrees.listContainers hkeyed (fun id hid => hspares id (hp id hid)) f }⟩

end Refines

/-- **Reads refine the lifecycle at any moment.** One run of the machine goes along with the whole
run of the backend, of calls as `contract` says; and whenever a read comes, also in the middle of a
call, it shows the state the machine has reached, of all but what the call at work is about. -/
theorem reads_refine {listener : Nat} {blake3 : String → String} {ls : List Label}
    (hls : Along step contract (init listener blake3) ls) :
    ∃ trace : Nat → List Event, (∀ n, trace n <+: trace (n + 1)) ∧
      ∀ n h s, run (withHistory step observe) ({}, init listener blake3) (ls.take n) = some (h, s) →
        ∃ m last, Reads h s (trace n) m last := by
  have hstep : ∀ p l p' evs, Simulates p evs → contract p.2 l →
      withHistory step observe p l = some p' → ∃ es, Simulates p' (evs ++ es) :=
    fun _ _ _ _ hp hl => hp.step hl
  obtain ⟨trace, -, hgrow, hreads⟩ :=
    exists_trace hstep (simulates_init listener blake3) (hls.withHistory ({} : History))
  exact ⟨trace, hgrow, fun n h s hrun => (hreads n (h, s) hrun).reads⟩

/-- The container is Running by its record, its process has still to be spawned, and in the machine
it is Created. -/
def startedHalfway : List Label :=
  podRun ++ Label.invoke (.startContainer podContainer) :: steps 2 6

theorem reads_refine_startedHalfway : ∃ h s evs m last,
    run (withHistory step observe) ({}, init 1 id) startedHalfway = some (h, s) ∧
      h.log.length = 2 ∧ s.shared.procs.length = 0 ∧
      (s.shared.cache.containers[podContainer]?.map (·.state)) = some .running ∧
      Reads h s evs m last := by
  have hrun : (run (withHistory step observe) ({}, init 1 id) startedHalfway).any fun p =>
      p.1.log.length = 2 ∧ p.2.shared.procs.length = 0 ∧
        (p.2.shared.cache.containers[podContainer]?.map (·.state)) = some .running := by decide
  obtain ⟨⟨h, s⟩, hs, hend⟩ := (Option.any_eq_true _ _).mp hrun
  obtain ⟨hlog, hprocs, hstate⟩ := of_decide_eq_true hend
  have hls : Along step contract (init 1 id) startedHalfway := by decide
  obtain ⟨trace, -, hreads⟩ := reads_refine hls
  obtain ⟨m, last, hm⟩ := hreads startedHalfway.length h s (by rwa [List.take_length])
  exact ⟨h, s, _, m, last, hs, hlog, hprocs, hstate, hm⟩

end LightrCri.Fake.Lifecycle

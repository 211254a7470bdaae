import LightrCri.Fake.Duty
import LightrCri.Fake.Filters
import LightrCri.Foundations.Values

/-!
# The lifecycle of sandboxes and containers

The state law of `CriBackend` as a machine of its own: a map of sandboxes, Ready or NotReady, and a
map of containers, Created, Running or Exited with a code (`Reference`). A call is one step of it,
an answer and a new state (`Reference.call`), and a container exits in a step of its own
(`Event.exit`). What is not up to the machine, the ids that are made and whether the network and
the process come up, it is told (`Outside`).

`Agrees` says when a cache shows the state of the machine. It may be behind in one place, where a
call is at work (`Window`); of all that this place spares, the statuses and the lists are those of
the machine (`Agrees.containerStatus`, `Agrees.listContainers`).
-/

namespace LightrCri.Fake.Lifecycle

open Backend Foundations

/-! ## The machine -/

/-- Where a container is in its life. -/
inductive Phase
  | created
  | running
  | exited (code : Int)
  deriving DecidableEq, Repr

def Phase.state : Phase → ContainerState
  | .created => .created
  | .running => .running
  | .exited _ => .exited

/-- The exit code that a status shows. -/
def Phase.exitCode : Phase → Int
  | .exited code => code
  | _ => 0

structure Sandbox where
  config : SandboxConfig
  state : SandboxState
  deriving DecidableEq, Repr

structure Container where
  sandbox : SandboxId
  config : ContainerConfig
  phase : Phase
  deriving DecidableEq, Repr

/-- The kinds of `BackendError`. -/
inductive ErrorKind
  | notFound
  | alreadyExists
  | invalidArgument
  | failedPrecondition
  | inUse
  | internal
  | io
  deriving DecidableEq, Repr

def ErrorKind.of : BackendError → ErrorKind
  | .notFound _ => .notFound
  | .alreadyExists _ => .alreadyExists
  | .invalidArgument _ => .invalidArgument
  | .failedPrecondition _ => .failedPrecondition
  | .inUse _ => .inUse
  | .internal _ => .internal
  | .io _ => .io

/-- A result, up to the text of its error. -/
inductive Answer
  | ok (v : Value)
  | error (k : ErrorKind)
  deriving DecidableEq, Repr

def Answer.of : Result → Answer
  | .ok v => .ok v
  | .error e => .error (.of e)

/-- The exit code of a process: 128 and the signal for one that was killed. -/
def exitCode : WaitStatus → Int
  | .exited code => code
  | .signaled sig => 128 + sig

@[simp] theorem terminal_ok (st : WaitStatus) : (terminal (.ok st)).1 = exitCode st := by
  cases st <;> rfl

/-- What a call gets from outside the machine. -/
structure Outside where
  /-- The id that is made for a new object. -/
  newId : String := ""
  /-- Whether the network of a new sandbox could be set up. -/
  network : Bool := true
  /-- Whether the process could be spawned. -/
  spawned : Bool := true
  deriving DecidableEq, Repr

structure Reference where
  sandboxes : Std.ExtTreeMap SandboxId Sandbox
  containers : Std.ExtTreeMap ContainerId Container

namespace Reference

def empty : Reference := ⟨∅, ∅⟩

def setSandbox (m : Reference) (id : SandboxId) (b : Sandbox) : Reference :=
  { m with sandboxes := m.sandboxes.insert id b }

def setContainer (m : Reference) (id : ContainerId) (b : Container) : Reference :=
  { m with containers := m.containers.insert id b }

def removeContainer (m : Reference) (id : ContainerId) : Reference :=
  { m with containers := m.containers.erase id }

/-- A sandbox goes, and its containers with it. -/
def removeSandbox (m : Reference) (id : SandboxId) : Reference where
  sandboxes := m.sandboxes.erase id
  containers := m.containers.filter fun _ b => b.sandbox ≠ id

/-- **The answer of a call**, and the state after it. There is none when the id that is made is
taken, and `stop_container` waits for the exit of a Running container. -/
def call (m : Reference) (x : Outside) : Call → Option (Reference × Answer)
  | .runSandbox cfg =>
    if x.network then
      if m.sandboxes[(⟨x.newId⟩ : SandboxId)]?.isSome then none
      else some (m.setSandbox ⟨x.newId⟩ ⟨cfg, .ready⟩, .ok (.sandbox ⟨x.newId⟩))
    else some (m, .error .internal)
  | .stopSandbox id =>
    match m.sandboxes[id]? with
    | none => some (m, .ok .unit)
    | some b => some (m.setSandbox id { b with state := .notReady }, .ok .unit)
  | .removeSandbox id => some (m.removeSandbox id, .ok .unit)
  | .createContainer sb cfg =>
    match m.sandboxes[sb]? with
    | none => some (m, .error .notFound)
    | some b =>
      if b.state = .ready then
        if m.containers[(⟨x.newId⟩ : ContainerId)]?.isSome then none
        else some (m.setContainer ⟨x.newId⟩ ⟨sb, cfg, .created⟩, .ok (.container ⟨x.newId⟩))
      else some (m, .error .failedPrecondition)
  | .startContainer id =>
    match m.containers[id]? with
    | none => some (m, .error .notFound)
    | some b =>
      if b.phase = .created then
        if x.spawned then some (m.setContainer id { b with phase := .running }, .ok .unit)
        else some (m.setContainer id { b with phase := .exited (-1) }, .error .internal)
      else some (m, .error .failedPrecondition)
  | .stopContainer id _ =>
    match m.containers[id]? with
    | none => some (m, .ok .unit)
    | some b => if b.phase = .running then none else some (m, .ok .unit)
  | .removeContainer id => some (m.removeContainer id, .ok .unit)
  | .pullImage _ | .removeImage _ => none

end Reference

section Updates

variable (m : Reference)

@[simp] theorem Reference.sandboxes_setSandbox (id id' : SandboxId) (b : Sandbox) :
    (m.setSandbox id b).sandboxes[id']? = if id' = id then some b else m.sandboxes[id']? := by
  by_cases h : id' = id
  · simp [setSandbox, h]
  · simp [setSandbox, Std.ExtTreeMap.getElem?_insert, h, Ne.symm h]

@[simp] theorem Reference.containers_setSandbox (id : SandboxId) (b : Sandbox) :
    (m.setSandbox id b).containers = m.containers := rfl

@[simp] theorem Reference.sandboxes_setContainer (id : ContainerId) (b : Container) :
    (m.setContainer id b).sandboxes = m.sandboxes := rfl

@[simp] theorem Reference.containers_setContainer (id id' : ContainerId) (b : Container) :
    (m.setContainer id b).containers[id']? = if id' = id then some b else m.containers[id']? := by
  by_cases h : id' = id
  · simp [setContainer, h]
  · simp [setContainer, Std.ExtTreeMap.getElem?_insert, h, Ne.symm h]

@[simp] theorem Reference.sandboxes_removeContainer (id : ContainerId) :
    (m.removeContainer id).sandboxes = m.sandboxes := rfl

@[simp] theorem Reference.containers_removeContainer (id id' : ContainerId) :
    (m.removeContainer id).containers[id']? =
      if id' = id then none else m.containers[id']? := by
  by_cases h : id' = id
  · simp [removeContainer, h]
  · simp [removeContainer, Std.ExtTreeMap.getElem?_erase, h, Ne.symm h]

@[simp] theorem Reference.sandboxes_removeSandbox (id id' : SandboxId) :
    (m.removeSandbox id).sandboxes[id']? = if id' = id then none else m.sandboxes[id']? := by
  by_cases h : id' = id
  · simp [removeSandbox, h]
  · simp [removeSandbox, Std.ExtTreeMap.getElem?_erase, h, Ne.symm h]

@[simp] theorem Reference.containers_removeSandbox (id : SandboxId) (id' : ContainerId) :
    (m.removeSandbox id).containers[id']? =
      m.containers[id']?.filter fun b => b.sandbox ≠ id := by
  simp [removeSandbox]

end Updates

inductive Event
  /-- The process of a container has ended, and its reaper has recorded how. -/
  | exit (id : ContainerId) (st : WaitStatus)
  | call (c : Call) (x : Outside) (a : Answer)

def Reference.step (m : Reference) : Event → Option Reference
  | .exit id st =>
    match m.containers[id]? with
    | none => none
    | some b =>
      if b.phase = .running then some (m.setContainer id { b with phase := .exited (exitCode st) })
      else none
  | .call c x a => (m.call x c).bind fun r => if r.2 = a then some r.1 else none

/-- The call of an event, with what it got from outside and its answer. -/
def Event.call? : Event → Option (Call × Outside × Answer)
  | .exit _ _ => none
  | .call c x a => some (c, x, a)

/-! ## Statuses and lists -/

/-- A sandbox in a list. -/
structure SandboxLine where
  id : SandboxId
  config : SandboxConfig
  state : SandboxState
  deriving DecidableEq, Repr

/-- A container in a list. -/
structure ContainerLine where
  id : ContainerId
  sandbox : SandboxId
  /-- With an absolute log path. -/
  config : ContainerConfig
  state : ContainerState
  exitCode : Int
  deriving DecidableEq, Repr

def SandboxLine.matches (l : SandboxLine) (f : SandboxFilter) : Bool :=
  (f.id.all fun id => l.id = id) && (f.state.all fun state => l.state = state) &&
    selects f.labelSelector l.config.labels

def ContainerLine.matches (l : ContainerLine) (f : ContainerFilter) : Bool :=
  (f.id.all fun id => l.id = id) && (f.sandbox.all fun sb => l.sandbox = sb) &&
    (f.state.all fun state => l.state = state) && selects f.labelSelector l.config.labels

namespace Reference

variable (m : Reference)

def sandboxLine (id : SandboxId) (b : Sandbox) : SandboxLine := ⟨id, b.config, b.state⟩

def containerLine (id : ContainerId) (b : Container) : ContainerLine where
  id := id
  sandbox := b.sandbox
  config :=
    let dir := (m.sandboxes[b.sandbox]?.map fun s => s.config.logDirectory).getD ""
    if b.config.logPath ≠ "" ∧ dir ≠ "" then
      { b.config with logPath := joinPath dir b.config.logPath }
    else b.config
  state := b.phase.state
  exitCode := b.phase.exitCode

def sandboxStatus (id : SandboxId) : Except ErrorKind SandboxLine :=
  match m.sandboxes[id]? with
  | none => .error .notFound
  | some b => .ok (sandboxLine id b)

def containerStatus (id : ContainerId) : Except ErrorKind ContainerLine :=
  match m.containers[id]? with
  | none => .error .notFound
  | some b => .ok (m.containerLine id b)

def listSandboxes (f : SandboxFilter) : List SandboxLine :=
  (m.sandboxes.toList.map fun e => sandboxLine e.1 e.2).filter fun l => l.matches f

def listContainers (f : ContainerFilter) : List ContainerLine :=
  (m.containers.toList.map fun e => m.containerLine e.1 e.2).filter fun l => l.matches f

end Reference

/-! ## What a cache shows -/

/-- What `sandbox_status` answers, as far as the machine knows it. -/
def statusLine (st : SandboxStatus) : SandboxLine := ⟨st.id, st.config, st.state⟩

/-- What `container_status` answers, as far as the machine knows it. -/
def containerStatusLine (st : ContainerStatus) : ContainerLine :=
  ⟨st.id, st.sandbox, st.config, st.state, st.exitCode⟩

/-- An answer, up to the text of its error. -/
def answered {α β : Type} (line : α → β) (r : Except BackendError α) : Except ErrorKind β :=
  (r.map line).mapError ErrorKind.of

/-- The place where the cache is not the state of the machine. -/
inductive Window
  | none
  /-- The container has its start intent in the cache. Once it is `spawned` it is Running, with the
  number of its process still to come. -/
  | starting (id : ContainerId) (spawned : Bool)
  /-- The sandbox is being removed, with its containers. -/
  | removing (id : SandboxId)
  deriving DecidableEq

/-- The container is not in the window. -/
structure Window.Spares (win : Window) (m : Reference) (id : ContainerId) : Prop where
  starting : ∀ b, win ≠ .starting id b
  removing : ∀ b, m.containers[id]? = some b → win ≠ .removing b.sandbox

/-- The record shows the container, in the phase. -/
structure Shows (ph : Phase) (r : ContainerRecord) (b : Container) : Prop where
  sandbox : r.sandbox = b.sandbox
  config : r.config = b.config
  state : r.state = ph.state
  exitCode : r.exitCode = ph.exitCode

inductive SandboxAgrees (win : Window) (id : SandboxId) :
    Option SandboxRecord → Option Sandbox → Prop
  | absent : SandboxAgrees win id none none
  | present (r b) (config : r.config = b.config)
    (state : r.state = b.state ∨ win = .removing id) : SandboxAgrees win id (some r) (some b)

inductive ContainerAgrees (win : Window) (id : ContainerId) :
    Option ContainerRecord → Option Container → Prop
  | absent : ContainerAgrees win id none none
  | present (r b) (shows : Shows b.phase r b)
    (backed : r.state = .running → 0 < r.pid ∨ win = .starting id true) :
    ContainerAgrees win id (some r) (some b)
  | starting (r b) (window : win = .starting id false) (shows : Shows .running r b)
    (created : b.phase = .created) : ContainerAgrees win id (some r) (some b)
  | removed (b) (window : win = .removing b.sandbox) : ContainerAgrees win id none (some b)

/-- The cache shows the state of the machine, but for the window. -/
structure Agrees (win : Window) (m : Reference) (c : Cache) : Prop where
  sandbox : ∀ id, SandboxAgrees win id c.sandboxes[id]? m.sandboxes[id]?
  container : ∀ id, ContainerAgrees win id c.containers[id]? m.containers[id]?

section Agreement

variable {win win' : Window} {m m' : Reference} {c c' : Cache}

theorem Agrees.empty : Agrees .none .empty .empty := by
  constructor <;> intro id
  · simpa [Reference.empty, Cache.empty] using SandboxAgrees.absent
  · simpa [Reference.empty, Cache.empty] using ContainerAgrees.absent

theorem SandboxAgrees.none_iff {id : SandboxId} {y : Option Sandbox}
    (h : SandboxAgrees win id none y) : y = none := by
  cases h
  rfl

theorem SandboxAgrees.of_some {id : SandboxId} {r : SandboxRecord} {y : Option Sandbox}
    (h : SandboxAgrees win id (some r) y) :
    ∃ b, y = some b ∧ r.config = b.config ∧ (r.state = b.state ∨ win = .removing id) := by
  cases h with
  | present _ b config state => exact ⟨b, rfl, config, state⟩

theorem ContainerAgrees.of_some {id : ContainerId} {r : ContainerRecord} {y : Option Container}
    (h : ContainerAgrees win id (some r) y) (hwin : win ≠ .starting id false) :
    ∃ b, y = some b ∧ Shows b.phase r b ∧
      (r.state = .running → 0 < r.pid ∨ win = .starting id true) := by
  cases h with
  | present _ b shows backed => exact ⟨b, rfl, shows, backed⟩
  | starting _ b window => exact absurd window hwin

/-- Outside a removal an absent record is an absent container. -/
theorem ContainerAgrees.of_none {id : ContainerId} {y : Option Container}
    (h : ContainerAgrees win id none y) (hwin : ∀ sb, win ≠ .removing sb) : y = none := by
  cases h with
  | absent => rfl
  | removed b window => exact absurd window (hwin _)

/-- What agrees without a window agrees with any. -/
theorem SandboxAgrees.of_none {id : SandboxId} {x : Option SandboxRecord} {y : Option Sandbox}
    (h : SandboxAgrees .none id x y) : SandboxAgrees win id x y := by
  cases h with
  | absent => exact .absent
  | present r b config state => exact .present r b config (.inl (state.resolve_right (by simp)))

theorem ContainerAgrees.widen {id : ContainerId} {x : Option ContainerRecord}
    {y : Option Container} (h : ContainerAgrees .none id x y) : ContainerAgrees win id x y := by
  cases h with
  | absent => exact .absent
  | present r b shows backed =>
    exact .present r b shows fun hrun => .inl ((backed hrun).resolve_right (by simp))
  | starting _ _ window | removed _ window => cases window

theorem Agrees.widen (h : Agrees .none m c) : Agrees win m c :=
  ⟨fun id => (h.sandbox id).of_none, fun id => (h.container id).widen⟩

/-- A start is no window for the sandboxes, and none for the other containers. -/
theorem SandboxAgrees.of_starting {cid : ContainerId} {b : Bool} {id : SandboxId}
    {x : Option SandboxRecord} {y : Option Sandbox}
    (h : SandboxAgrees (.starting cid b) id x y) : SandboxAgrees .none id x y := by
  cases h with
  | absent => exact .absent
  | present r b config state => exact .present r b config (.inl (state.resolve_right (by simp)))

theorem ContainerAgrees.of_starting {cid id : ContainerId} {b : Bool} (hne : id ≠ cid)
    {x : Option ContainerRecord} {y : Option Container}
    (h : ContainerAgrees (.starting cid b) id x y) : ContainerAgrees .none id x y := by
  cases h with
  | absent => exact .absent
  | present r b shows backed =>
    refine .present r b shows fun hrun => .inl ((backed hrun).resolve_right fun hw => hne ?_)
    exact (Window.starting.inj hw).1.symm
  | starting _ _ window => exact absurd (Window.starting.inj window).1.symm hne
  | removed _ window => cases window

/-! ### Steps at one object -/

/-- A step at one container. -/
theorem Agrees.at_container (h : Agrees win m c) (id : ContainerId)
    (hsb : c'.sandboxes = c.sandboxes ∧ m'.sandboxes = m.sandboxes)
    (hother : ∀ id', id' ≠ id → c'.containers[id']? = c.containers[id']? ∧
      m'.containers[id']? = m.containers[id']?)
    (hid : ContainerAgrees win id c'.containers[id]? m'.containers[id]?) : Agrees win m' c' := by
  constructor
  · intro id'
    rw [hsb.1, hsb.2]
    exact h.sandbox id'
  · intro id'
    by_cases hne : id' = id
    · exact hne ▸ hid
    · rw [(hother id' hne).1, (hother id' hne).2]
      exact h.container id'

/-- A step at one sandbox. -/
theorem Agrees.at_sandbox (h : Agrees win m c) (id : SandboxId)
    (hct : c'.containers = c.containers ∧ m'.containers = m.containers)
    (hother : ∀ id', id' ≠ id → c'.sandboxes[id']? = c.sandboxes[id']? ∧
      m'.sandboxes[id']? = m.sandboxes[id']?)
    (hid : SandboxAgrees win id c'.sandboxes[id]? m'.sandboxes[id]?) : Agrees win m' c' := by
  constructor
  · intro id'
    by_cases hne : id' = id
    · exact hne ▸ hid
    · rw [(hother id' hne).1, (hother id' hne).2]
      exact h.sandbox id'
  · intro id'
    rw [hct.1, hct.2]
    exact h.container id'

/-- A step at the container that is being started, which may be the end of the start. -/
theorem Agrees.of_starting {cid : ContainerId} {b : Bool} (h : Agrees (.starting cid b) m c)
    (hsb : c'.sandboxes = c.sandboxes ∧ m'.sandboxes = m.sandboxes)
    (hother : ∀ id, id ≠ cid → c'.containers[id]? = c.containers[id]? ∧
      m'.containers[id]? = m.containers[id]?)
    (hid : ContainerAgrees win cid c'.containers[cid]? m'.containers[cid]?) : Agrees win m' c' := by
  constructor
  · intro id
    rw [hsb.1, hsb.2]
    exact (h.sandbox id).of_starting.of_none
  · intro id
    by_cases hne : id = cid
    · exact hne ▸ hid
    · rw [(hother id hne).1, (hother id hne).2]
      exact ((h.container id).of_starting hne).widen

theorem sandboxes_setSandbox (c : Cache) (id id' : SandboxId) (r : SandboxRecord) :
    (c.setSandbox id r).sandboxes[id']? = if id' = id then some r else c.sandboxes[id']? := by
  by_cases h : id' = id
  · simp [Cache.setSandbox, h]
  · simp [Cache.setSandbox, Std.ExtTreeMap.getElem?_insert, h, Ne.symm h]

theorem sandboxes_eraseSandbox (c : Cache) (id id' : SandboxId) :
    (c.eraseSandbox id).sandboxes[id']? = if id' = id then none else c.sandboxes[id']? := by
  by_cases h : id' = id
  · simp [Cache.eraseSandbox, h]
  · simp [Cache.eraseSandbox, Std.ExtTreeMap.getElem?_erase, h, Ne.symm h]

/-- A removal is over when the sandbox has no containers left and is not in the cache. -/
theorem Agrees.removed {sb : SandboxId} (h : Agrees win m c)
    (hwin : win = .none ∨ win = .removing sb)
    (hempty : ∀ (id : ContainerId) (r : ContainerRecord), c.containers[id]? = some r →
      r.sandbox ≠ sb)
    (hct : c'.containers = c.containers)
    (hsb : ∀ id, c'.sandboxes[id]? = if id = sb then none else c.sandboxes[id]?) :
    Agrees .none (m.removeSandbox sb) c' := by
  constructor
  · intro id
    rw [hsb, Reference.sandboxes_removeSandbox]
    split
    · exact .absent
    · rename_i hne
      have hold := h.sandbox id
      generalize c.sandboxes[id]? = x, m.sandboxes[id]? = y at hold
      cases hold with
      | absent => exact .absent
      | present r b config state =>
        refine .present r b config (.inl (state.resolve_right fun hw => ?_))
        rcases hwin with rfl | rfl
        · cases hw
        · exact hne (Window.removing.inj hw).symm
  · intro id
    rw [hct, Reference.containers_removeSandbox]
    have hold := h.container id
    have hne := hempty id
    generalize c.containers[id]? = x, m.containers[id]? = y at hold hne
    cases hold with
    | absent => exact .absent
    | present r b shows backed =>
      have hother : b.sandbox ≠ sb := shows.sandbox ▸ hne r rfl
      rw [Option.filter_some, if_pos (by simpa using hother)]
      refine .present r b shows fun hrun => .inl ((backed hrun).resolve_right ?_)
      rcases hwin with rfl | rfl <;> simp
    | starting r b window => rcases hwin with rfl | rfl <;> cases window
    | removed b window =>
      rcases hwin with rfl | rfl
      · cases window
      · rw [Option.filter_some, if_neg (by simp [(Window.removing.inj window).symm])]
        exact .absent

/-! ### Statuses and lists -/

theorem SandboxAgrees.line {id : SandboxId} {x : Option SandboxRecord} {y : Option Sandbox}
    (h : SandboxAgrees win id x y) (hwin : win ≠ .removing id) (hid : ∀ r, x = some r → r.id = id) :
    x.map (fun r => statusLine (sandboxRecToStatus r)) = y.map (Reference.sandboxLine id) := by
  cases h with
  | absent => rfl
  | present r b config state =>
    simp [statusLine, sandboxRecToStatus, Reference.sandboxLine, hid r rfl, config,
      state.resolve_right hwin]

theorem Agrees.logDir (h : Agrees win m c) {r : ContainerRecord} {sb : SandboxId}
    (hsb : r.sandbox = sb) :
    c.logDir r = (m.sandboxes[sb]?.map fun s => s.config.logDirectory).getD "" := by
  have hb := h.sandbox sb
  rw [Cache.logDir, hsb]
  generalize c.sandboxes[sb]? = x, m.sandboxes[sb]? = y at hb
  cases hb with
  | absent => rfl
  | present r b config => simp [config]

theorem Agrees.line (h : Agrees win m c) (id : ContainerId) (hwin : win.Spares m id)
    (hid : ∀ r, c.containers[id]? = some r → r.id = id) :
    c.containers[id]?.map (fun r => containerStatusLine (recToStatus r (c.logDir r))) =
      m.containers[id]?.map (m.containerLine id) := by
  have hb := h.container id
  have hremoving := hwin.removing
  generalize c.containers[id]? = x, m.containers[id]? = y at hb hid hremoving
  cases hb with
  | absent => rfl
  | present r b shows =>
    simp [containerStatusLine, recToStatus, Reference.containerLine, hid r rfl,
      h.logDir shows.sandbox, shows.sandbox, shows.config, shows.state, shows.exitCode]
  | starting _ _ window => exact absurd window (hwin.starting false)
  | removed b window => exact absurd window (hremoving b rfl)

/-- **The status of a sandbox is that of the machine**, but for one in the window. -/
theorem Agrees.sandboxStatus (h : Agrees win m c) (hk : c.Keyed) (id : SandboxId)
    (hwin : win ≠ .removing id) :
    answered statusLine (Fake.sandboxStatus c id) = m.sandboxStatus id := by
  have hline := (h.sandbox id).line hwin fun r hr => hk.sandbox hr
  rw [Fake.sandboxStatus, Reference.sandboxStatus]
  generalize c.sandboxes[id]? = x, m.sandboxes[id]? = y at hline
  cases x <;> cases y <;> simp_all [answered, Except.map, Except.mapError, ErrorKind.of]

/-- **The status of a container is that of the machine**, but for one in the window. -/
theorem Agrees.containerStatus (h : Agrees win m c) (hk : c.Keyed) (id : ContainerId)
    (hwin : win.Spares m id) :
    answered containerStatusLine (Fake.containerStatus c id) = m.containerStatus id := by
  have hline := h.line id hwin fun r hr => hk.container hr
  rw [Fake.containerStatus, Reference.containerStatus]
  cases hx : c.containers[id]? with
  | none =>
    rw [hx, Option.map_none, eq_comm, Option.map_eq_none_iff] at hline
    simp [hline, answered, Except.map, Except.mapError, ErrorKind.of]
  | some r =>
    rw [hx, Option.map_some, eq_comm, Option.map_eq_some_iff] at hline
    obtain ⟨b, hb, hline⟩ := hline
    simp only [hb, answered, hline, Cache.logDir]
    cases c.sandboxes[r.sandbox]? <;> rfl

/-- **The sandboxes listed are those of the machine**, but for those in the window. -/
theorem Agrees.listSandboxes (h : Agrees win m c) (hk : c.Keyed) {p : SandboxId → Bool}
    (hp : ∀ id, p id → win ≠ .removing id) (f : SandboxFilter) :
    ((Fake.listSandboxes c f).map statusLine).filter (fun l => p l.id) =
      (m.listSandboxes f).filter fun l => p l.id := by
  have hlines :
      (c.sandboxes.values.map fun r => statusLine (sandboxRecToStatus r)).filter
          (fun l => p l.id) =
        (m.sandboxes.toList.map fun e => Reference.sandboxLine e.1 e.2).filter fun l => p l.id :=
    filter_map_values_eq (fun _ _ hr => hk.sandbox hr) (fun _ _ => rfl)
      fun id hid => (h.sandbox id).line (hp id hid) fun r hr => hk.sandbox hr
  have hlist : (Fake.listSandboxes c f).map statusLine =
      (c.sandboxes.values.map fun r => statusLine (sandboxRecToStatus r)).filter
        fun l => l.matches f := by
    rw [Fake.listSandboxes, List.filter_map, List.map_map]
    rfl
  rw [hlist, Reference.listSandboxes, List.filter_comm, hlines, List.filter_comm]

/-- **The containers listed are those of the machine**, but for those in the window. -/
theorem Agrees.listContainers (h : Agrees win m c) (hk : c.Keyed) {p : ContainerId → Bool}
    (hp : ∀ id, p id → win.Spares m id) (f : ContainerFilter) :
    ((Fake.listContainers c f).map containerStatusLine).filter (fun l => p l.id) =
      (m.listContainers f).filter fun l => p l.id := by
  have hlines :
      (c.containers.values.map fun r => containerStatusLine (recToStatus r (c.logDir r))).filter
          (fun l => p l.id) =
        (m.containers.toList.map fun e => m.containerLine e.1 e.2).filter fun l => p l.id :=
    filter_map_values_eq (fun _ _ hr => hk.container hr) (fun _ _ => rfl)
      fun id hid => h.line id (hp id hid) fun r hr => hk.container hr
  have hlist : (Fake.listContainers c f).map containerStatusLine =
      (c.containers.values.map fun r => containerStatusLine (recToStatus r (c.logDir r))).filter
        fun l => l.matches f := by
    rw [Fake.listContainers, List.filter_map, List.map_map]
    congr 1
    refine List.filter_congr fun r _ => ?_
    simp only [Function.comp_apply, containerMatches, ContainerLine.matches, containerStatusLine,
      recToStatus]
    split <;> rfl
  rw [hlist, Reference.listContainers, List.filter_comm, hlines, List.filter_comm]

end Agreement

end LightrCri.Fake.Lifecycle

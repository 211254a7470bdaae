import LightrCri.Fake.Records

/-!
# Statuses

`container_status` and `sandbox_status`: one critical section each, which reads the cache. The
status of a container is its record with the reason normalised and the log path made absolute; the
state is the record's (`containerStatus_state`).
-/

namespace LightrCri.Fake

open Backend

structure ContainerStatus where
  id : ContainerId
  sandbox : SandboxId
  config : ContainerConfig
  state : ContainerState
  createdAtNanos : Int
  startedAtNanos : Int
  finishedAtNanos : Int
  exitCode : Int
  reason : String
  message : String
  deriving DecidableEq, Repr

structure SandboxStatus where
  id : SandboxId
  config : SandboxConfig
  state : SandboxState
  createdAtNanos : Int
  ip : Option String
  netnsPath : Option String
  deriving DecidableEq, Repr

/-- `Path::join`: an absolute path replaces the base. -/
def joinPath (base p : String) : String :=
  if p.startsWith "/" then p else if base.endsWith "/" then base ++ p else base ++ "/" ++ p

/-- `rec_to_status`. -/
def recToStatus (r : ContainerRecord) (sandboxLogDir : String) : ContainerStatus where
  id := r.id
  sandbox := r.sandbox
  config :=
    if r.config.logPath ≠ "" ∧ sandboxLogDir ≠ "" then
      { r.config with logPath := joinPath sandboxLogDir r.config.logPath }
    else r.config
  state := r.state
  createdAtNanos := r.createdAtNanos
  startedAtNanos := r.startedAtNanos
  finishedAtNanos := r.finishedAtNanos
  exitCode := r.exitCode
  reason :=
    if r.state = .exited then if r.exitCode = 0 then "Completed" else "Error" else r.reason
  message := if r.state = .exited ∧ r.message = "" then r.reason else r.message

/-- `sandbox_rec_to_status`. -/
def sandboxRecToStatus (r : SandboxRecord) : SandboxStatus :=
  ⟨r.id, r.config, r.state, r.createdAtNanos, r.ip, r.netnsPath⟩

def containerStatus (c : Cache) (id : ContainerId) : Except BackendError ContainerStatus :=
  match c.containers[id]? with
  | none => .error (.notFound ("container " ++ id.val))
  | some r =>
    let logDir :=
      match c.sandboxes[r.sandbox]? with
      | none => ""
      | some s => s.config.logDirectory
    .ok (recToStatus r logDir)

def sandboxStatus (c : Cache) (id : SandboxId) : Except BackendError SandboxStatus :=
  match c.sandboxes[id]? with
  | none => .error (.notFound ("sandbox " ++ id.val))
  | some r => .ok (sandboxRecToStatus r)

theorem toOption_eq_some {ε α : Type*} {x : Except ε α} {a : α} (h : x.toOption = some a) :
    x = .ok a := by
  cases x with
  | error e => cases h
  | ok a' => exact congrArg Except.ok (Option.some.inj h)

/-- **The status of a container shows the state of its record.** -/
theorem containerStatus_state (c : Cache) (id : ContainerId) :
    (containerStatus c id).toOption.map ContainerStatus.state =
      c.containers[id]?.map ContainerRecord.state := by
  cases h : c.containers[id]? with
  | none => simp [containerStatus, h, Except.toOption]
  | some r => simp [containerStatus, h, recToStatus, Except.toOption]

end LightrCri.Fake

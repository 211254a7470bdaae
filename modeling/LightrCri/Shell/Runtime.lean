import LightrCri.Fake.Machine
import LightrCri.Fake.Stats
import LightrCri.Shell.Images
import LightrCri.Shell.Filters

/-!
# The RPCs

`RuntimeShell` and `ImageShell`: what the requests become in the vocabulary of the backend, and what
its answers become in the replies. A request without its configuration is refused before the backend
is called (`Rpc.call`); an error of the backend becomes a status with its text (`mapErr`).

Of a message only the fields that the shell reads or sets are kept.
-/

namespace LightrCri.Shell

open Backend Fake

/-! ## Statuses -/

/-- The codes of a gRPC status that the shell uses. -/
inductive Code
  | invalidArgument
  | notFound
  | alreadyExists
  | resourceExhausted
  | failedPrecondition
  | internal
  deriving DecidableEq, Repr

structure Status where
  code : Code
  message : String
  deriving DecidableEq, Repr

def mapErr (e : BackendError) : Status :=
  match e with
  | .notFound _ => ⟨.notFound, e.display⟩
  | .alreadyExists _ => ⟨.alreadyExists, e.display⟩
  | .invalidArgument _ => ⟨.invalidArgument, e.display⟩
  | .failedPrecondition _ | .inUse _ => ⟨.failedPrecondition, e.display⟩
  | .internal _ | .io _ => ⟨.internal, e.display⟩

/-! ## Requests -/

structure PodSandboxMetadata where
  name : String
  uid : String := ""
  nspace : String := ""
  attempt : Nat := 0
  deriving DecidableEq, Repr

/-- `proto::DnsConfig`. -/
structure ProtoDnsConfig where
  servers : List String
  searches : List String
  options : List String
  deriving DecidableEq, Repr

/-- `proto::PortMapping`. -/
structure ProtoPortMapping where
  protocol : Int32
  containerPort : Int
  hostPort : Int
  hostIp : String
  deriving DecidableEq, Repr

structure NamespaceOption where
  network : Int32
  deriving DecidableEq, Repr

structure LinuxSandboxSecurityContext where
  namespaceOptions : Option NamespaceOption
  deriving DecidableEq, Repr

structure LinuxPodSandboxConfig where
  securityContext : Option LinuxSandboxSecurityContext
  deriving DecidableEq, Repr

structure PodSandboxConfig where
  metadata : Option PodSandboxMetadata := none
  hostname : String := ""
  logDirectory : String := ""
  dnsConfig : Option ProtoDnsConfig := none
  portMappings : List ProtoPortMapping := []
  labels : List (String × String) := []
  annotations : List (String × String) := []
  linux : Option LinuxPodSandboxConfig := none
  deriving DecidableEq, Repr

structure ContainerMetadata where
  name : String
  attempt : Nat := 0
  deriving DecidableEq, Repr

structure KeyValue where
  key : String
  value : String
  deriving DecidableEq, Repr

/-- `proto::Mount`. -/
structure ProtoMount where
  containerPath : String
  hostPath : String
  readonly : Bool
  deriving DecidableEq, Repr

/-- `proto::ContainerConfig`. -/
structure ProtoContainerConfig where
  metadata : Option ContainerMetadata := none
  image : Option String := none
  command : List String := []
  args : List String := []
  workingDir : String := ""
  envs : List KeyValue := []
  mounts : List ProtoMount := []
  labels : List (String × String) := []
  annotations : List (String × String) := []
  logPath : String := ""
  stdin : Bool := false
  tty : Bool := false
  deriving DecidableEq, Repr

def UDP : Int32 := 1
def SCTP : Int32 := 2

/-- `NamespaceMode::Node`. -/
def NODE : Int32 := 2

def decodeDns (d : Option ProtoDnsConfig) : Option DnsConfig :=
  d.map fun d => ⟨d.servers, d.searches, d.options⟩

def decodePortMapping (pm : ProtoPortMapping) : PortMapping where
  protocol := if pm.protocol = UDP then .udp else if pm.protocol = SCTP then .sctp else .tcp
  containerPort := pm.containerPort
  hostPort := pm.hostPort
  hostIp := pm.hostIp

def decodeHostNetwork (linux : Option LinuxPodSandboxConfig) : Bool :=
  ((linux.bind fun l => l.securityContext).bind fun sc => sc.namespaceOptions).any fun ns =>
    ns.network = NODE

/-- What `run_pod_sandbox` hands to the backend. -/
def sandboxConfig (config : Option PodSandboxConfig) : Except Status SandboxConfig :=
  match config with
  | none => .error ⟨.invalidArgument, "config is required"⟩
  | some podCfg =>
    match podCfg.metadata with
    | none => .error ⟨.invalidArgument, "config.metadata is required"⟩
    | some md =>
      .ok {
        name := md.name
        uid := md.uid
        nspace := md.nspace
        attempt := md.attempt
        labels := podCfg.labels
        annotations := podCfg.annotations
        logDirectory := podCfg.logDirectory
        hostname := podCfg.hostname
        hostNetwork := decodeHostNetwork podCfg.linux
        dns := decodeDns podCfg.dnsConfig
        portMappings := podCfg.portMappings.map decodePortMapping }

/-- What `create_container` hands to the backend. -/
def containerConfig (config : Option ProtoContainerConfig) : Except Status ContainerConfig :=
  match config with
  | none => .error ⟨.invalidArgument, "config is required"⟩
  | some cfg =>
    match cfg.metadata with
    | none => .error ⟨.invalidArgument, "config.metadata is required"⟩
    | some md =>
      .ok {
        name := md.name
        attempt := md.attempt
        imageRef := cfg.image.getD ""
        command := cfg.command
        args := cfg.args
        workingDir := cfg.workingDir
        envs := cfg.envs.map fun kv => (kv.key, kv.value)
        mounts := cfg.mounts.map fun m => ⟨m.containerPath, m.hostPath, m.readonly⟩
        labels := cfg.labels
        annotations := cfg.annotations
        logPath := cfg.logPath
        tty := cfg.tty
        stdin := cfg.stdin }

/-- The RPCs that may change what the backend holds, with their requests. -/
inductive Rpc
  | runPodSandbox (config : Option PodSandboxConfig)
  | stopPodSandbox (podSandboxId : String)
  | removePodSandbox (podSandboxId : String)
  | createContainer (podSandboxId : String) (config : Option ProtoContainerConfig)
  | startContainer (containerId : String)
  | stopContainer (containerId : String) (timeout : Int)
  | removeContainer (containerId : String)
  | pullImage (image : Option String)
  | removeImage (image : Option String)
  deriving DecidableEq, Repr

/-- The call that the RPC makes of the backend. -/
def Rpc.call : Rpc → Except Status Call
  | .runPodSandbox config => (sandboxConfig config).map Call.runSandbox
  | .stopPodSandbox id => .ok (.stopSandbox ⟨id⟩)
  | .removePodSandbox id => .ok (.removeSandbox ⟨id⟩)
  | .createContainer id config => (containerConfig config).map (Call.createContainer ⟨id⟩)
  | .startContainer id => .ok (.startContainer ⟨id⟩)
  | .stopContainer id timeout => .ok (.stopContainer ⟨id⟩ timeout)
  | .removeContainer id => .ok (.removeContainer ⟨id⟩)
  | .pullImage image => .ok (Shell.pullImage image)
  | .removeImage image => .ok (Shell.removeImage image)

/-! ## Replies -/

inductive Reply
  | empty
  | podSandboxId (id : String)
  | containerId (id : String)
  | imageRef (ref : String)
  deriving DecidableEq, Repr

def replyOf : Value → Reply
  | .unit => .empty
  | .sandbox id => .podSandboxId id.val
  | .container id => .containerId id.val
  | .image p => .imageRef (Shell.imageRef p)

/-- What the client of the RPC gets for the result of the call. -/
def respond (r : Result) : Except Status Reply := (r.map replyOf).mapError mapErr

structure PodSandboxStatus where
  id : String
  metadata : PodSandboxMetadata
  state : Int32
  createdAt : Int
  /-- `PodSandboxNetworkStatus.ip`. -/
  ip : String
  labels : List (String × String)
  annotations : List (String × String)
  deriving DecidableEq, Repr

/-- `proto::ContainerStatus`. -/
structure ProtoContainerStatus where
  id : String
  metadata : ContainerMetadata
  state : Int32
  createdAt : Int
  startedAt : Int
  finishedAt : Int
  exitCode : Int
  image : String
  imageRef : String
  imageId : String
  reason : String
  message : String
  labels : List (String × String)
  annotations : List (String × String)
  mounts : List ProtoMount
  logPath : String
  deriving DecidableEq, Repr

/-- `ContainerStats`: its attributes and what was measured. -/
structure ContainerStats where
  id : String
  metadata : Option ContainerMetadata
  labels : List (String × String)
  annotations : List (String × String)
  timestamp : Int
  usageCoreNanoSeconds : Nat
  workingSetBytes : Nat
  deriving DecidableEq, Repr

def buildSandboxStatus (s : SandboxStatus) : PodSandboxStatus where
  id := s.id.val
  metadata := ⟨s.config.name, s.config.uid, s.config.nspace, s.config.attempt⟩
  state := mapSandboxState s.state
  createdAt := s.createdAtNanos
  ip := s.ip.getD ""
  labels := s.config.labels
  annotations := s.config.annotations

def buildContainerStatus (cs : ContainerStatus) : ProtoContainerStatus where
  id := cs.id.val
  metadata := ⟨cs.config.name, cs.config.attempt⟩
  state := mapContainerState cs.state
  createdAt := cs.createdAtNanos
  startedAt := cs.startedAtNanos
  finishedAt := cs.finishedAtNanos
  exitCode := cs.exitCode
  image := cs.config.imageRef
  imageRef := cs.config.imageRef
  imageId := cs.config.imageRef
  reason := cs.reason
  message := cs.message
  labels := cs.config.labels
  annotations := cs.config.annotations
  mounts := cs.config.mounts.map fun m => ⟨m.containerPath, m.hostPath, m.readonly⟩
  logPath := cs.config.logPath

def buildContainerStats (rec : ContainerStatsRec) (status : Option ContainerStatus) :
    ContainerStats where
  id := rec.id.val
  metadata := status.map fun s => ⟨s.config.name, s.config.attempt⟩
  labels := status.elim [] fun s => s.config.labels
  annotations := status.elim [] fun s => s.config.annotations
  timestamp := rec.timestampNanos
  usageCoreNanoSeconds := rec.cpuUsageCoreNanos
  workingSetBytes := rec.memoryWorkingSetBytes

def podSandboxStatus (c : Cache) (id : String) : Except Status PodSandboxStatus :=
  ((Fake.sandboxStatus c ⟨id⟩).map buildSandboxStatus).mapError mapErr

def containerStatus (c : Cache) (id : String) : Except Status ProtoContainerStatus :=
  ((Fake.containerStatus c ⟨id⟩).map buildContainerStatus).mapError mapErr

/-- The second half of `container_stats`: the record has been measured before. -/
def containerStats (c : Cache) (rec : ContainerStatsRec) : ContainerStats :=
  buildContainerStats rec (Fake.containerStatus c rec.id).toOption

/-! ## What an RPC asks for -/

/-- The record is made for the configuration. -/
structure SandboxOf (config : PodSandboxConfig) (cfg : SandboxConfig) : Prop where
  metadata : config.metadata = some ⟨cfg.name, cfg.uid, cfg.nspace, cfg.attempt⟩
  labels : cfg.labels = config.labels
  annotations : cfg.annotations = config.annotations
  logDirectory : cfg.logDirectory = config.logDirectory

structure ContainerOf (config : ProtoContainerConfig) (cfg : ContainerConfig) : Prop where
  metadata : config.metadata = some ⟨cfg.name, cfg.attempt⟩
  image : cfg.imageRef = config.image.getD ""
  labels : cfg.labels = config.labels
  annotations : cfg.annotations = config.annotations
  mounts : cfg.mounts.map (fun m => ⟨m.containerPath, m.hostPath, m.readonly⟩) = config.mounts
  logPath : cfg.logPath = config.logPath

theorem sandboxConfig_ok {config : Option PodSandboxConfig} {cfg : SandboxConfig}
    (h : sandboxConfig config = .ok cfg) : ∃ podCfg, config = some podCfg ∧ SandboxOf podCfg cfg := by
  unfold sandboxConfig at h
  split at h
  · cases h
  · rename_i podCfg
    split at h
    · cases h
    · rename_i md hmd
      obtain rfl := Except.ok.inj h
      exact ⟨podCfg, rfl, hmd, rfl, rfl, rfl⟩

theorem containerConfig_ok {config : Option ProtoContainerConfig} {cfg : ContainerConfig}
    (h : containerConfig config = .ok cfg) :
    ∃ ctCfg, config = some ctCfg ∧ ContainerOf ctCfg cfg := by
  unfold containerConfig at h
  split at h
  · cases h
  · rename_i ctCfg
    split at h
    · cases h
    · rename_i md hmd
      obtain rfl := Except.ok.inj h
      refine ⟨ctCfg, rfl, hmd, rfl, rfl, rfl, ?_, rfl⟩
      simp only [List.map_map]
      exact List.map_id _

theorem map_eq_ok {ε α β : Type*} {x : Except ε α} {f : α → β} {b : β} (h : x.map f = .ok b) :
    ∃ a, x = .ok a ∧ f a = b := by
  cases x with
  | error e => cases h
  | ok a => exact ⟨a, rfl, Except.ok.inj h⟩

theorem mapError_eq_ok {ε ε' α : Type*} {x : Except ε α} {f : ε → ε'} {a : α}
    (h : x.mapError f = .ok a) : x = .ok a := by
  cases x with
  | error e => cases h
  | ok a' => exact congrArg Except.ok (Except.ok.inj h)

/-- **The request behind a call that makes a sandbox.** -/
theorem Rpc.call_runSandbox {r : Rpc} {cfg : SandboxConfig} (h : r.call = .ok (.runSandbox cfg)) :
    ∃ config, r = .runPodSandbox (some config) ∧ SandboxOf config cfg := by
  cases r with
  | runPodSandbox config =>
    obtain ⟨cfg', hcfg, heq⟩ := map_eq_ok h
    obtain rfl := Call.runSandbox.inj heq
    obtain ⟨podCfg, rfl, hof⟩ := sandboxConfig_ok hcfg
    exact ⟨podCfg, rfl, hof⟩
  | createContainer id config =>
    obtain ⟨cfg', -, heq⟩ := map_eq_ok h
    cases heq
  | _ => cases h

/-- **The request behind a call that makes a container.** -/
theorem Rpc.call_createContainer {r : Rpc} {sb : SandboxId} {cfg : ContainerConfig}
    (h : r.call = .ok (.createContainer sb cfg)) :
    ∃ config, r = .createContainer sb.val (some config) ∧ ContainerOf config cfg := by
  cases r with
  | createContainer id config =>
    obtain ⟨cfg', hcfg, heq⟩ := map_eq_ok h
    obtain ⟨rfl, rfl⟩ := Call.createContainer.inj heq
    obtain ⟨ctCfg, rfl, hof⟩ := containerConfig_ok hcfg
    exact ⟨ctCfg, rfl, hof⟩
  | runPodSandbox config =>
    obtain ⟨cfg', -, heq⟩ := map_eq_ok h
    cases heq
  | _ => cases h

end LightrCri.Shell

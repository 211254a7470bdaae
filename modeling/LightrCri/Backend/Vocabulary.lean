import Mathlib.Data.List.Basic

/-!
# The vocabulary of the seam

The types of the crate `lightr-cri-backend` that the fake backend stores and returns: ids,
configurations, states and errors. A `BTreeMap` is a `Std.ExtTreeMap`; the label and annotation
maps, which are only looked up, are association lists.
-/

namespace LightrCri.Backend

/-- The planes whose objects have ids of their own. -/
inductive Plane
  | sandbox
  | container
  deriving DecidableEq, Repr

/-- `SandboxId` and `ContainerId`: a string, ordered as strings are. -/
structure Id (p : Plane) where
  val : String
  deriving DecidableEq, Repr

abbrev SandboxId := Id .sandbox
abbrev ContainerId := Id .container

namespace Id

variable {p : Plane}

instance : Ord (Id p) := ⟨fun a b => compare a.val b.val⟩

instance : Std.TransOrd (Id p) where
  eq_swap {a b} := (Std.OrientedCmp.eq_swap : compare a.val b.val = (compare b.val a.val).swap)
  isLE_trans {a b c} (h₁ : (compare a.val b.val).isLE) (h₂ : (compare b.val c.val).isLE) :=
    (Std.TransCmp.isLE_trans h₁ h₂ : (compare a.val c.val).isLE)

instance : Std.LawfulEqOrd (Id p) where
  compare_self {a} := (Std.ReflCmp.compare_self : compare a.val a.val = .eq)
  eq_of_compare {a b} (h : compare a.val b.val = .eq) := by
    have hval : a.val = b.val := Std.LawfulEqCmp.eq_of_compare h
    cases a
    cases b
    simp_all

end Id

structure DnsConfig where
  servers : List String
  searches : List String
  options : List String
  deriving DecidableEq, Repr

inductive Protocol
  | tcp
  | udp
  | sctp
  deriving DecidableEq, Repr

structure PortMapping where
  protocol : Protocol
  containerPort : Int
  hostPort : Int
  hostIp : String
  deriving DecidableEq, Repr

structure SandboxConfig where
  name : String
  uid : String := ""
  nspace : String := ""
  attempt : Nat := 0
  labels : List (String × String) := []
  annotations : List (String × String) := []
  logDirectory : String := ""
  hostname : String := ""
  hostNetwork : Bool := false
  dns : Option DnsConfig := none
  portMappings : List PortMapping := []
  deriving DecidableEq, Repr

inductive SandboxState
  | ready
  | notReady
  deriving DecidableEq, Repr

structure Mount where
  containerPath : String
  hostPath : String
  readonly : Bool
  deriving DecidableEq, Repr

structure ContainerConfig where
  name : String
  attempt : Nat := 0
  imageRef : String
  command : List String := []
  args : List String := []
  workingDir : String := ""
  envs : List (String × String) := []
  mounts : List Mount := []
  labels : List (String × String) := []
  annotations : List (String × String) := []
  logPath : String := ""
  tty : Bool := false
  stdin : Bool := false
  deriving DecidableEq, Repr

inductive ContainerState
  | created
  | running
  | exited
  | unknown
  deriving DecidableEq, Repr

namespace ContainerState

/-- The `{:?}` form of a state, as the error texts print it. -/
def debug : ContainerState → String
  | .created => "Created"
  | .running => "Running"
  | .exited => "Exited"
  | .unknown => "Unknown"

end ContainerState

/-- `PulledImage`, the answer of `pull_image`. -/
structure PulledImage where
  refName : String
  rootHex : String
  totalSize : Nat
  deriving DecidableEq, Repr

/-- `BackendError`; an I/O error is kept as its text. -/
inductive BackendError
  | notFound (m : String)
  | alreadyExists (m : String)
  | invalidArgument (m : String)
  | failedPrecondition (m : String)
  | inUse (m : String)
  | internal (m : String)
  | io (m : String)
  deriving DecidableEq, Repr

namespace BackendError

/-- The `Display` form of an error. -/
def display : BackendError → String
  | .notFound m => "not found: " ++ m
  | .alreadyExists m => "already exists: " ++ m
  | .invalidArgument m => "invalid argument: " ++ m
  | .failedPrecondition m => "failed precondition: " ++ m
  | .inUse m => "in use: " ++ m
  | .internal m => "internal: " ++ m
  | .io m => "io: " ++ m

end BackendError

end LightrCri.Backend

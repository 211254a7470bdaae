import LightrCri.Fake.Status

/-!
# Filters and lists

`list_sandboxes` and `list_containers`: one critical section each, which goes through the records of
the cache and takes those that match the filter.
-/

namespace LightrCri.Fake

open Backend

structure SandboxFilter where
  id : Option SandboxId := none
  state : Option SandboxState := none
  labelSelector : List (String × String) := []
  deriving DecidableEq, Repr

structure ContainerFilter where
  id : Option ContainerId := none
  sandbox : Option SandboxId := none
  state : Option ContainerState := none
  labelSelector : List (String × String) := []
  deriving DecidableEq, Repr

/-- Every pair of the selector is among the labels. -/
def selects (selector labels : List (String × String)) : Bool :=
  selector.all fun kv => labels.lookup kv.1 = some kv.2

def sandboxMatches (r : SandboxRecord) (f : SandboxFilter) : Bool :=
  (f.id.all fun id => r.id = id) && (f.state.all fun state => r.state = state) &&
    selects f.labelSelector r.config.labels

def containerMatches (r : ContainerRecord) (f : ContainerFilter) : Bool :=
  (f.id.all fun id => r.id = id) && (f.sandbox.all fun sb => r.sandbox = sb) &&
    (f.state.all fun state => r.state = state) && selects f.labelSelector r.config.labels

def listSandboxes (c : Cache) (f : SandboxFilter) : List SandboxStatus :=
  (c.sandboxes.values.filter fun r => sandboxMatches r f).map sandboxRecToStatus

/-- The log directory of the sandbox of a container. -/
def Cache.logDir (c : Cache) (r : ContainerRecord) : String :=
  (c.sandboxes[r.sandbox]?.map fun s => s.config.logDirectory).getD ""

def listContainers (c : Cache) (f : ContainerFilter) : List ContainerStatus :=
  (c.containers.values.filter fun r => containerMatches r f).map fun r => recToStatus r (c.logDir r)

end LightrCri.Fake

import LightrCri.Fake.Machine
import LightrCri.Foundations.Namespaces
import LightrCri.Net.Chain
import Mathlib.Logic.Function.Basic

/-!
# The namespaces of containers

What the calls do to the namespaces of the host: a thread of the listener forks a child for a
container or for an exec, and the child leaves the host's namespaces (`install_container_pre_exec`)
or joins others (`join_container_mnt_uts`, `join_netns`) before it executes its program; network
namespaces are made and entered on threads of their own (`netns::create`, `netns::dial_in_netns`).
Every system call is a frame, and others may run between two of them; a child and a thread are tasks
like the calls.

Namespaces are numbered in the order of their making. Those of the host have the number 0.
-/

namespace LightrCri.Fake.Namespaces

open Backend Foundations Function
open LightrCri.Net (NETNS_DIR)

/-- The namespaces of a task. -/
structure Nsproxy where
  uts : ℕ := 0
  mnt : ℕ := 0
  net : ℕ := 0
  deriving DecidableEq, Repr

/-! ## Calls and frames -/

/-- The calls that execute a command in a container. -/
inductive ExecCall
  | execSync
  | openExec
  deriving DecidableEq, Repr

def ExecCall.name : ExecCall → String
  | .execSync => "exec_sync"
  | .openExec => "open_exec"

inductive Call
  /-- `start_container`, of a container of `sb`, with what it reads of the sandbox. -/
  | startContainer (id : ContainerId) (sb : SandboxId) (info : SandboxInfo)
  /-- `exec_sync` or `open_exec`, with the pid of the container and the netns of its sandbox. -/
  | exec (v : ExecCall) (id : ContainerId) (pid : ℕ) (netnsPath : Option String)
  /-- `netns::create`. -/
  | create (name : String)
  /-- `netns::teardown`. -/
  | teardown (path : String)
  /-- `netns::sweep`. -/
  | sweep
  /-- `dial` and `dial_pf`. -/
  | dial (netnsPath : Option String)
  deriving DecidableEq, Repr

/-- What a task is. -/
inductive Tag
  | call (c : Call)
  /-- The process of a container that the call `j` started. -/
  | container (j : ℕ) (id : ContainerId) (sb : SandboxId) (info : SandboxInfo)
  /-- The process that the call `j` started in a container, with the namespaces it has opened. -/
  | exec (j : ℕ) (pid : ℕ) (netnsPath : Option String) (mnt uts : ℕ)
  /-- The thread of `netns::create`. -/
  | pinner (path : String)
  /-- The thread of `dial_in_netns`. -/
  | dialer (path : String)
  /-- A process of the host. -/
  | foreign
  deriving DecidableEq, Repr

/-- What a child does after `fork`. A network namespace is none where nothing is mounted on the
file. -/
inductive Op
  | unshareUts (hostname : String)
  | sethostname (hostname : String)
  | unshareMnt (sb : SandboxId)
  | remountPrivate
  | bindResolvConf (sb : SandboxId)
  | setnsMnt (mnt uts : ℕ)
  /-- `e` is the error of `setnsMnt`. -/
  | setnsUts (uts : ℕ) (e : Option String)
  | setnsNet (net : Option ℕ)
  | execve
  deriving DecidableEq, Repr

/-- A `Command`: what its process is, what its closures do, and what is said if it cannot be
spawned. -/
structure Command where
  tag : Tag
  preExec : List Op
  failed : String
  deriving DecidableEq, Repr

inductive Frame
  | writeSandboxResolvConf (id : ContainerId) (sb : SandboxId) (info : SandboxInfo)
  | openMnt (v : ExecCall) (id : ContainerId) (pid : ℕ) (netnsPath : Option String)
  | openUts (v : ExecCall) (id : ContainerId) (pid : ℕ) (netnsPath : Option String) (mnt : ℕ)
  | openNet (failed : String) (netnsPath : Option String) (c : Command)
  | spawn (c : Command)
  /-- `spawn` returns when the child has executed its program or has failed. -/
  | spawned (failed : String)
  | op (op : Op)
  | touch (path : String)
  | createThread (path : String)
  | unshareNet (path : String)
  | mountNet (path : String)
  | created (path : String)
  | dialThread (path : String)
  | enterNetns (path : String)
  | connect
  | dialed
  | umount (path : String)
  | unlink (path : String)
  | readDir
  | sweepOne (paths : List String) (removed : ℕ)
  | unlinkSwept (path : String) (paths : List String) (removed : ℕ)
  deriving DecidableEq, Repr

def Call.frames : Call → List Frame
  | .startContainer id sb info => [.writeSandboxResolvConf id sb info]
  | .exec v id pid netnsPath => [.openMnt v id pid netnsPath]
  | .create name =>
    [.touch (Net.joinPath NETNS_DIR name), .createThread (Net.joinPath NETNS_DIR name),
      .created (Net.joinPath NETNS_DIR name)]
  | .teardown path => [.umount path, .unlink path]
  | .sweep => [.readDir]
  | .dial none => [.connect]
  | .dial (some path) => [.dialThread path, .dialed]

inductive Value
  | unit
  /-- The child `q` executes its program. -/
  | running (q : ℕ)
  | path (path : String)
  | removed (n : ℕ)
  /-- A socket of the network namespace `n`. -/
  | connected (n : ℕ)
  deriving DecidableEq, Repr

abbrev Result := Except BackendError Value

abbrev Out := Outcome Tag Frame Result

/-- What a frame gets from outside: the error of the system call, if it fails, and the number of a
new process. -/
structure Oracle where
  fault : Option String := none
  pid : ℕ := 0
  deriving DecidableEq, Repr

/-! ## The host -/

structure World where
  /-- The UTS namespaces, which show the hostname. -/
  hostnames : Spaces String
  /-- The mount namespaces, and what is mounted in them over `/etc/resolv.conf`. -/
  mounts : Spaces (Option String)
  /-- The network namespaces, and the path for which each was made. -/
  nets : List (Option String)
  ns : ℕ → Nsproxy
  /-- The processes, by pid. -/
  pids : List (ℕ × ℕ)
  /-- The files of `/run/netns`. -/
  netnsFiles : List String
  /-- What is mounted on them. -/
  pins : List (String × ℕ)
  /-- The files `resolv-{sandbox}.conf` of the state root. -/
  resolvConfs : SandboxId → Option String
  /-- The child or the thread that a call waits for. -/
  child : ℕ → Option ℕ
  /-- What the caller hears of a child or of a thread. -/
  report : ℕ → Option (Except String ℕ)

namespace World

variable (w : World)

def setNs (q : ℕ) (ns : Nsproxy) : World := { w with ns := update w.ns q ns }

/-- The process with the number `pid`. -/
def process (pid : ℕ) : Option ℕ := (w.pids.find? fun p => p.1 = pid).map Prod.snd

/-- The network namespace that is mounted on a file. -/
def pinned (path : String) : Option ℕ := (w.pins.find? fun p => p.1 = path).map Prod.snd

/-- The task `q` reports to its caller. -/
def tell (q : ℕ) (r : Except String ℕ) : World := { w with report := update w.report q (some r) }

/-- The child `q` ends. -/
def exit (q : ℕ) : World := { w with pids := w.pids.filter fun p => p.2 ≠ q }

/-- The thread `self` has started the task `q`, which is where it is. -/
def fork (self q : ℕ) : World :=
  { w.setNs q (w.ns self) with
    child := update w.child self (some q)
    report := update w.report q none }

end World

def ENOENT : String := "No such file or directory (os error 2)"

def EINVAL : String := "Invalid argument (os error 22)"

/-- A task fails. -/
def fail (self : ℕ) (w : World) (e : String) : World × Out :=
  ((w.tell self (.error e)).exit self, .halt (.error (.io e)))

/-- `install_container_pre_exec`. -/
def installContainerPreExec (hostname : String) (resolvConfSrc : Option SandboxId) : List Op :=
  (if hostname = "" then [] else [.unshareUts hostname]) ++ (resolvConfSrc.map .unshareMnt).toList

/-- A system call of a child. -/
def Op.exec (self : ℕ) (o : Oracle) (w : World) : Op → World × Out
  | .unshareUts hostname =>
    match o.fault with
    | none =>
      ({ w with hostnames := w.hostnames.unshare (w.ns self).uts }.setNs self
          { w.ns self with uts := w.hostnames.length },
        .next [.op (.sethostname hostname)])
    | some _ => (w, .next [])
  | .sethostname hostname =>
    match o.fault with
    | none => ({ w with hostnames := w.hostnames.write (w.ns self).uts hostname }, .next [])
    | some _ => (w, .next [])
  | .unshareMnt sb =>
    match o.fault with
    | none =>
      ({ w with mounts := w.mounts.unshare (w.ns self).mnt }.setNs self
          { w.ns self with mnt := w.mounts.length },
        .next [.op .remountPrivate, .op (.bindResolvConf sb)])
    | some _ => (w, .next [])
  | .remountPrivate =>
    -- nobody looks at what this `mount` returns
    match o.fault with
    | none => ({ w with mounts := w.mounts.isolate (w.ns self).mnt }, .next [])
    | some _ => (w, .next [])
  | .bindResolvConf sb =>
    -- the file that is mounted stays the one it is when another takes its name
    match o.fault, w.resolvConfs sb with
    | none, some text => ({ w with mounts := w.mounts.write (w.ns self).mnt (some text) }, .next [])
    | _, _ => (w, .next [])
  | .setnsMnt mnt uts =>
    match o.fault with
    | none => (w.setNs self { w.ns self with mnt := mnt }, .next [.op (.setnsUts uts none)])
    | some e => (w, .next [.op (.setnsUts uts (some e))])
  | .setnsUts uts e =>
    match o.fault, e with
    | none, none => (w.setNs self { w.ns self with uts := uts }, .next [])
    | none, some e => fail self (w.setNs self { w.ns self with uts := uts }) e
    | some e, _ => fail self w e
  | .setnsNet net =>
    match o.fault, net with
    | none, some n => (w.setNs self { w.ns self with net := n }, .next [])
    | none, none => fail self w EINVAL
    | some e, _ => fail self w e
  | .execve =>
    match o.fault with
    | none => (w.tell self (.ok self), .halt (.ok (.running self)))
    | some e => fail self w e

/-- `join_container_mnt_uts` without a container to join. -/
def notRunning (id : ContainerId) (what : String) : BackendError :=
  .failedPrecondition ("container " ++ id.val ++ " is not Running (" ++ what ++
    "); exec requires Running")

/-- `Command::spawn`, and waiting for it. -/
def Command.frames (c : Command) : List Frame := [.spawn c, .spawned c.failed]

/-- What the call `self` hears of the child or thread it waits for. -/
def World.heard (w : World) (self : ℕ) : Option (ℕ × Except String ℕ) :=
  (w.child self).bind fun q => (w.report q).map (Prod.mk q)

/-- Execution of a frame by the task `self`, with `next` the number of the next new task. -/
def exec (self next : ℕ) (o : Oracle) (f : Frame) (w : World) : Option (World × Out) :=
  match f with
  | .writeSandboxResolvConf id sb info =>
    let c (src : Option SandboxId) : Command :=
      ⟨.container self id sb info, installContainerPreExec info.hostname src,
        "spawn container " ++ id.val ++ ": "⟩
    match info.dns, o.fault with
    | some dns, none =>
      some ({ w with resolvConfs := update w.resolvConfs sb (some (resolvConf dns)) },
        .next [.openNet "start_container" info.netnsPath (c (some sb))])
    | _, _ => some (w, .next [.openNet "start_container" info.netnsPath (c none)])
  | .openMnt v id pid netnsPath =>
    if pid = 0 then some (w, .halt (.error (notRunning id "no live pid")))
    else
      match o.fault, w.process pid with
      | none, some q => some (w, .next [.openUts v id pid netnsPath (w.ns q).mnt])
      | _, _ => some (w, .halt (.error (notRunning id "mnt namespace unavailable")))
  | .openUts v id pid netnsPath mnt =>
    match o.fault, w.process pid with
    | none, some q =>
      some (w, .next [.openNet v.name netnsPath
        ⟨.exec self pid netnsPath mnt (w.ns q).uts, [.setnsMnt mnt (w.ns q).uts],
          v.name ++ " spawn: "⟩])
    | _, _ => some (w, .halt (.error (notRunning id "uts namespace unavailable")))
  | .openNet _ none c => some (w, .next c.frames)
  | .openNet failed (some path) c =>
    let halt (e : String) : Out :=
      .halt (.error (.internal (failed ++ " join_netns " ++ path ++ ": " ++ e)))
    match o.fault with
    | some e => some (w, halt e)
    | none =>
      if path ∈ w.netnsFiles then
        some (w, .next { c with preExec := c.preExec ++ [Op.setnsNet (w.pinned path)] }.frames)
      else some (w, halt ENOENT)
  | .spawn c =>
    match o.fault with
    | some e => some (w, .halt (.error (.internal (c.failed ++ e))))
    | none =>
      -- the kernel gives a number that no process has
      if 0 < o.pid ∧ w.process o.pid = none then
        some ({ w.fork self next with pids := (o.pid, next) :: w.pids },
          .fork c.tag ((c.preExec ++ [Op.execve]).map .op))
      else none
  | .spawned failed =>
    match w.heard self with
    | none => none
    | some (q, .ok _) => some (w, .halt (.ok (.running q)))
    | some (_, .error e) => some (w, .halt (.error (.internal (failed ++ e))))
  | .op op => some (op.exec self o w)
  | .touch path =>
    match o.fault with
    | none => some ({ w with netnsFiles := w.netnsFiles.insert path }, .next [])
    | some e => some (w, .halt (.error (.io e)))
  | .createThread path =>
    some (w.fork self next, .fork (.pinner path) [.unshareNet path, .mountNet path])
  | .unshareNet path =>
    match o.fault with
    | none =>
      some ({ w with nets := w.nets ++ [some path] }.setNs self
        { w.ns self with net := w.nets.length }, .next [])
    | some e => some (fail self w e)
  | .mountNet path =>
    match o.fault with
    | none =>
      if path ∈ w.netnsFiles then
        let n := (w.ns self).net
        some ({ w with pins := (path, n) :: w.pins }.tell self (.ok n), .halt (.ok (.path path)))
      else some (fail self w ("bind-mount netns: " ++ ENOENT))
    | some e => some (fail self w ("bind-mount netns: " ++ e))
  | .created path =>
    match w.heard self with
    | none => none
    | some (_, .ok _) => some (w, .halt (.ok (.path path)))
    | some (_, .error e) => some (w, .halt (.error (.io e)))
  | .dialThread path => some (w.fork self next, .fork (.dialer path) [.enterNetns path, .connect])
  | .enterNetns path =>
    match o.fault with
    | none =>
      if path ∈ w.netnsFiles then
        match w.pinned path with
        | some n => some (w.setNs self { w.ns self with net := n }, .next [])
        | none => some (fail self w EINVAL)
      else some (fail self w ENOENT)
    | some e => some (fail self w e)
  | .connect =>
    match o.fault with
    | none =>
      let n := (w.ns self).net
      some (w.tell self (.ok n), .halt (.ok (.connected n)))
    | some e => some (fail self w e)
  | .dialed =>
    match w.heard self with
    | none => none
    | some (_, .ok n) => some (w, .halt (.ok (.connected n)))
    | some (_, .error e) => some (w, .halt (.error (.io e)))
  | .umount path =>
    match o.fault, w.pinned path with
    | none, some _ => some ({ w with pins := w.pins.eraseP fun p => p.1 = path }, .next [])
    | none, none => some (w, .halt (.error (.io ("umount2: " ++ EINVAL))))
    | some e, _ => some (w, .halt (.error (.io ("umount2: " ++ e))))
  | .unlink path =>
    match o.fault with
    | none =>
      if path ∈ w.netnsFiles ∧ w.pinned path = none then
        some ({ w with netnsFiles := w.netnsFiles.erase path }, .halt (.ok .unit))
      else none
    | some e => some (w, .halt (.error (.io e)))
  | .readDir =>
    match o.fault with
    | none => some (w, .next [.sweepOne w.netnsFiles 0])
    | some e => some (w, .halt (.error (.io e)))
  | .sweepOne [] removed => some (w, .halt (.ok (.removed removed)))
  | .sweepOne (path :: paths) removed =>
    match o.fault with
    | none =>
      some ({ w with pins := w.pins.eraseP fun p => p.1 = path },
        .next [.unlinkSwept path paths removed])
    | some _ => some (w, .next [.sweepOne paths removed])
  | .unlinkSwept path paths removed =>
    match o.fault with
    | none =>
      if path ∈ w.netnsFiles ∧ w.pinned path = none then
        some ({ w with netnsFiles := w.netnsFiles.erase path },
          .next [.sweepOne paths (removed + 1)])
      else none
    | some _ => some (w, .next [.sweepOne paths removed])

/-! ## Runs -/

abbrev State := Pool World Tag Frame Result

/-- The task is one of the listener, not a process of its own. -/
def Tag.isThread : Tag → Bool
  | .call _ | .pinner _ | .dialer _ => true
  | _ => false

inductive Label
  /-- A call is made. -/
  | invoke (c : Call)
  /-- The task `i` executes its next frame. -/
  | step (i : ℕ) (o : Oracle)
  /-- The program that the process `i` executes ends, and the process is waited for. -/
  | exit (i : ℕ)
  /-- A process unrelated to the listener gets the number `pid`. -/
  | foreign (pid : ℕ) (ns : Nsproxy)
  /-- The listener is killed; the children that it has not heard of go on. -/
  | crash
  deriving DecidableEq, Repr

/-- The namespaces are there. -/
def Nsproxy.Exists (ns : Nsproxy) (w : World) : Prop :=
  ns.uts < w.hostnames.length ∧ ns.mnt < w.mounts.length ∧ ns.net < w.nets.length

instance (ns : Nsproxy) (w : World) : Decidable (ns.Exists w) := by
  unfold Nsproxy.Exists
  infer_instance

/-- The process `q` executes its program. -/
def World.executes (w : World) (q : ℕ) : Prop := w.report q = some (.ok q)

instance (w : World) (q : ℕ) : Decidable (w.executes q) := by
  unfold World.executes
  infer_instance

def step (s : State) : Label → Option State
  | .invoke c => some (s.start (.call c) c.frames)
  | .step i o => s.advance exec i o
  | .exit i => if s.shared.executes i then some { s with shared := s.shared.exit i } else none
  | .foreign pid ns =>
    if 0 < pid ∧ s.shared.process pid = none ∧ ns.Exists s.shared then
      let q := s.tasks.length
      some ({ s with
        shared :=
          { (s.shared.setNs q ns).tell q (.ok q) with pids := (pid, q) :: s.shared.pids } }.start
          .foreign [])
    else none
  | .crash =>
    some { s with
      tasks := s.tasks.map fun t => if t.tag.isThread then { t with frames := [] } else t }

/-- The host as the listener finds it: its name, and whether its mounts are shared. -/
structure Host where
  hostname : String
  peers : Option ℕ := some 1

def init (h : Host) : State where
  shared :=
    { hostnames := [⟨h.hostname, none⟩]
      mounts := [⟨none, h.peers⟩]
      nets := [none]
      ns := fun _ => {}
      pids := []
      netnsFiles := []
      pins := []
      resolvConfs := fun _ => none
      child := fun _ => none
      report := fun _ => none }
  tasks := []

end LightrCri.Fake.Namespaces

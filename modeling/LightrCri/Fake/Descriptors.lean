import LightrCri.Fake.Effects
import LightrCri.Foundations.Descriptors
import LightrCri.Foundations.Triple
import LightrCri.Stream.Process

/-!
# The descriptors of the listener

What `exec_sync`, `open_exec` and `start_container` do to the open descriptors of the listener, on
Linux. Every descriptor has an owner: a variable of the call, which closes it when the call returns,
an object that outlives the call, or, after `into_raw_fd`, nobody. The closures of `pre_exec` close
the descriptors of the namespaces in the copy of the table that the forked child has.

The calls follow one another. Between two of them sessions are dropped, containers are removed,
processes fork and exit, the threads that read their output come to its end, and the records are
changed by the other operations.
-/

namespace LightrCri.Fake.Descriptors

open Backend Foundations
open LightrCri.Stream (Output)

/-! ## The listener -/

/-- The variables of the three calls, and of `Command::spawn`, that own a descriptor. -/
inductive Var
  | mntFd
  | utsFd
  | nsFd
  | tmpFile
  | logFile
  | master
  | slave
  | slaveStdin
  | slaveStdout
  | masterForTee
  | stdoutFd
  | stdoutRdForTable
  | stderrRdForTable
  /-- The ends of the pipes of a child that the listener keeps. -/
  | stdin
  | stdout
  | stderr
  /-- The ends that are the child's own. -/
  | theirs
  /-- The pipe by which the child tells that `exec` has failed. -/
  | execPipe
  deriving DecidableEq, Repr

inductive Owner
  /-- Open before the first call. -/
  | before
  /-- A variable of the call in progress. -/
  | var (v : Var)
  /-- Nobody in the listener: a bare number in a `pre_exec` closure of the call `k`. -/
  | raw (k : Nat)
  /-- The session that the call `k` has returned. -/
  | session (k : Nat)
  /-- The entry of a container in the io table. -/
  | io (id : ContainerId)
  /-- The thread that reads an output of the container that the call `k` has started. -/
  | tee (x : Nat × Output)
  /-- The log file that these threads share. -/
  | log (k : Nat)
  deriving DecidableEq

def Owner.isVar : Owner → Bool
  | .var _ => true
  | _ => false

structure Server where
  fds : Table Owner
  cache : Cache
  ioTable : Std.ExtTreeMap ContainerId ContainerIo
  /-- The sessions that are not dropped yet, by the calls that returned them. -/
  sessions : List Nat
  /-- The threads that read the outputs of containers. -/
  tees : List (Nat × Output)
  /-- For each process that holds an output of a container open, that output. -/
  holders : List (Nat × Output)
  /-- The containers that `start_container` was called for. -/
  started : List ContainerId
  /-- The tables of the processes that were forked, after the `pre_exec` closures. -/
  children : List (Nat × Table Owner)
  /-- The number of calls so far. -/
  calls : Nat

/-- How waiting for a command ends. -/
inductive Wait
  | ended
  | failed (e : String)
  | timedOut

/-- What a call gets from outside: the errors of what it tries. -/
structure Oracle where
  clock : Int := 0
  /-- Of the log file and its directory. -/
  log : Option String := none
  /-- Of opening the namespaces. -/
  mnt : Option String := none
  uts : Option String := none
  net : Option String := none
  openpty : Option String := none
  /-- Of the calls of `dup`, in order. -/
  dup : Nat → Option String := fun _ => none
  /-- Of the calls of `atomic_write` on the record, in order. -/
  write : Nat → Option String := fun _ => none
  spawn : Except String Nat := .ok 100
  wait : Wait := .ended

abbrev FdProg := Prog Server BackendError

/-! ## Descriptors in a call -/

/-- A descriptor is opened and bound to `v`. -/
def acquire (v : Var) : FdProg Unit :=
  modify fun s => { s with fds := s.fds.openAs (.var v) }

/-- Opening may fail. -/
def tryAcquire (fault : Option String) (err : String → BackendError) (v : Var) : FdProg Unit :=
  match fault with
  | none => acquire v
  | some e => throw (err e)

/-- The descriptor of `v` is moved out of it. -/
def give (v : Var) (a : Owner) : FdProg Unit :=
  modify fun s => { s with fds := s.fds.move (.var v) a }

def giveAll : List Var → Owner → FdProg Unit
  | [], _ => pure ()
  | v :: vs, a => do
    give v a
    giveAll vs a

/-- `v` is dropped. -/
def release (v : Var) : FdProg Unit :=
  modify fun s => { s with fds := s.fds.closeIf (· = .var v) }

/-- `atomic_write`. With `strict`, its error ends the call. -/
def atomicWrite (fault : Option String) (strict : Bool) : FdProg Unit := do
  acquire .tmpFile
  release .tmpFile
  match fault with
  | none => pure ()
  | some e => if strict then throw (.io e) else pure ()

/-! ## Namespaces -/

/-- `join_container_mnt_uts`. -/
def joinContainerMntUts (o : Oracle) (k : Nat) (id : ContainerId) (containerPid : Nat) :
    FdProg Unit :=
  if containerPid = 0 then
    throw (.failedPrecondition ("container " ++ id.val ++
      " is not Running (no live pid); exec requires Running"))
  else do
    tryAcquire o.mnt (fun _ => .failedPrecondition ("container " ++ id.val ++
      " is not Running (mnt namespace unavailable); exec requires Running")) .mntFd
    tryAcquire o.uts (fun _ => .failedPrecondition ("container " ++ id.val ++
      " is not Running (uts namespace unavailable); exec requires Running")) .utsFd
    -- `into_raw_fd`: from here on the closure has the numbers
    give .mntFd (.raw k)
    give .utsFd (.raw k)

/-- The join of the recorded network namespace, as `join_container_netns` and the two exec calls
make it. -/
def joinNetns (o : Oracle) (k : Nat) (method : String) : Option String → FdProg Unit
  | none => pure ()
  | some path => do
    tryAcquire o.net (fun e => .internal (method ++ " join_netns " ++ path ++ ": " ++ e)) .nsFd
    give .nsFd (.raw k)

/-! ## Spawning -/

/-- The `Stdio` of a stream of a command. -/
inductive Stdio
  | inherit
  | null
  | piped
  /-- A descriptor that the command owns. -/
  | fd

/-- What `spawn` opens for a stream of which the listener keeps the end `ours`. -/
def setupIo (ours : Var) : Stdio → FdProg Unit
  | .inherit => pure ()
  | .fd => pure ()
  | .null => acquire .theirs
  | .piped => do
    acquire ours
    acquire .theirs

/-- `Command::spawn` of a command with the closures of the call `k`. -/
def spawn (o : Oracle) (k : Nat) (stdin stdout stderr : Stdio) : FdProg (Except String Nat) := do
  setupIo .stdin stdin
  setupIo .stdout stdout
  setupIo .stderr stderr
  acquire .execPipe
  acquire .execPipe
  let atFork ← get
  release .execPipe
  release .theirs
  match o.spawn with
  | .error e => do
    release .stdin
    release .stdout
    release .stderr
    pure (.error e)
  | .ok pid => do
    -- the closures close the namespaces in the copy of the child
    modify fun s => { s with children := (k, atFork.fds.closeIf (· = .raw k)) :: s.children }
    pure (.ok pid)

/-! ## `exec_sync` and `open_exec` -/

/-- The path of the network namespace that is recorded for a sandbox. -/
def netnsPath (c : Cache) (sandbox : SandboxId) : Option String :=
  c.sandboxes[sandbox]?.bind SandboxRecord.netnsPath

/-- The checks of the exec calls, and the namespaces that they join. -/
def joinNamespaces (o : Oracle) (k : Nat) (method : String) (id : ContainerId)
    (cmd : List String) : FdProg Unit := do
  let s ← get
  match s.cache.containers[id]? with
  | none => throw (.notFound ("container " ++ id.val))
  | some r =>
    if r.state ≠ .running then
      throw (.failedPrecondition ("container " ++ id.val ++ " is not Running (state=" ++
        r.state.debug ++ "); " ++ method ++ " requires Running"))
    else if cmd = [] then throw (.invalidArgument (method ++ ": empty command"))
    else do
      joinContainerMntUts o k id r.pid
      joinNetns o k method (netnsPath s.cache r.sandbox)

def execSync (o : Oracle) (k : Nat) (id : ContainerId) (cmd : List String)
    (timeoutSeconds : Int) : FdProg Unit := do
  joinNamespaces o k "exec_sync" id cmd
  match ← spawn o k .inherit .piped .piped with
  | .error e => throw (.internal ("exec_sync spawn: " ++ e))
  | .ok _ =>
    match o.wait with
    | .ended => do
      release .stdout
      release .stderr
    | .failed e =>
      throw (.internal ((if 0 < timeoutSeconds then "try_wait: " else "exec_sync wait: ") ++ e))
    | .timedOut =>
      if 0 < timeoutSeconds then throw (.internal "exec timeout")
      else do
        release .stdout
        release .stderr

/-- The `StreamSession` that the call `k` returns, with the files of `vs`. -/
def session (k : Nat) (vs : List Var) : FdProg Unit := do
  modify fun s => { s with sessions := k :: s.sessions }
  giveAll vs (.session k)

/-- `openpty`, and the slave for the three streams of the child. -/
def openTerminal (o : Oracle) : FdProg Unit := do
  tryAcquire o.openpty (fun e => .internal ("openpty: " ++ e)) .master
  acquire .slave
  tryAcquire (o.dup 0) .io .slaveStdin
  tryAcquire (o.dup 1) .io .slaveStdout

def openExec (o : Oracle) (k : Nat) (id : ContainerId) (cmd : List String) (tty stdin : Bool) :
    FdProg Unit := do
  joinNamespaces o k "open_exec" id cmd
  if tty then do
    openTerminal o
    match ← spawn o k .fd .fd .fd with
    | .error e => throw (.internal ("open_exec spawn: " ++ e))
    | .ok _ => do
      tryAcquire (o.dup 2) .io .stdoutFd
      session k [.stdoutFd, .master]
  else do
    match ← spawn o k (if stdin then .piped else .null) .piped .piped with
    | .error e => throw (.internal ("open_exec spawn: " ++ e))
    | .ok _ => session k [.stdout, .stderr, .stdin]

/-! ## `start_container` -/

/-- What `start_container` reads of the sandbox. -/
def sandboxInfo (c : Cache) (sandbox : SandboxId) : SandboxInfo :=
  match c.sandboxes[sandbox]? with
  | none => ⟨"", none, "", none⟩
  | some s => ⟨s.config.logDirectory, s.config.dns, s.config.hostname, s.netnsPath⟩

/-- `write_sandbox_resolv_conf`, if the sandbox has a `DnsConfig`; its error is not fatal. -/
def writeSandboxResolvConf : Option DnsConfig → FdProg Unit
  | none => pure ()
  | some _ => atomicWrite none false

/-- `open_cri_log`. -/
def openCriLog (o : Oracle) (logDir logPath : String) : FdProg Unit :=
  if logDir = "" ∨ logPath = "" then pure () else tryAcquire o.log .io .logFile

/-- `spawn_tee_thread`: the thread owns its reader, and the log file with the other one. -/
def spawnTeeThread (k : Nat) (out : Output) (reader : Var) : FdProg Unit := do
  modify fun s => { s with tees := (k, out) :: s.tees }
  give reader (.tee (k, out))
  give .logFile (.log k)

/-- The record of the container is changed in the cache and written to its file. -/
def update (id : ContainerId) (f : ContainerRecord → ContainerRecord) (fault : Option String)
    (strict : Bool) : FdProg Unit := do
  let s ← get
  match s.cache.containers[id]? with
  | none => if strict then throw (.notFound ("container " ++ id.val)) else pure ()
  | some r => do
    modify fun s => { s with cache := s.cache.setContainer id (f r) }
    atomicWrite fault strict

/-- The entry of the io table; one that was there is dropped. -/
def insertIo (id : ContainerId) (io : ContainerIo) (vs : List Var) : FdProg Unit := do
  modify fun s => { s with
    fds := s.fds.closeIf (· = .io id)
    ioTable := s.ioTable.insert id io }
  giveAll vs (.io id)

/-- The process holds these outputs of the call `k`. -/
def hold (xs : List (Nat × Output)) : FdProg Unit :=
  modify fun s => { s with holders := xs ++ s.holders }

/-- The spawn of the container has failed. -/
def spawnFailed (o : Oracle) (id : ContainerId) (e : String) : FdProg Unit := do
  update id (fun r => { r.toExited o.clock (-1) "spawn-failed" with message := e }) (o.write 1) false
  throw (.internal ("spawn container " ++ id.val ++ ": " ++ e))

def startContainerPipeMode (o : Oracle) (k : Nat) (id : ContainerId) (r : ContainerRecord) :
    FdProg Unit := do
  update id (·.starting o.clock) (o.write 0) true
  match ← spawn o k (if r.config.stdin then .piped else .null) .piped .piped with
  | .error e => spawnFailed o id e
  | .ok pid => do
    hold [(k, .stdout), (k, .stderr)]
    tryAcquire (o.dup 0) .io .stdoutRdForTable
    spawnTeeThread k .stdout .stdout
    tryAcquire (o.dup 1) .io .stderrRdForTable
    spawnTeeThread k .stderr .stderr
    insertIo id ⟨false, r.config.stdin⟩ [.stdoutRdForTable, .stderrRdForTable, .stdin]
    update id (·.withPid pid) (o.write 1) true

/-- `start_container` with `tty`, from the terminal on. -/
def startContainerTty (o : Oracle) (k : Nat) (id : ContainerId) (r : ContainerRecord)
    (info : SandboxInfo) : FdProg Unit := do
  openTerminal o
  joinNetns o k "start_container" info.netnsPath
  tryAcquire (o.dup 2) .io .masterForTee
  spawnTeeThread k .stdout .masterForTee
  update id (·.starting o.clock) (o.write 0) true
  match ← spawn o k .fd .fd .fd with
  | .error e => spawnFailed o id e
  | .ok pid => do
    hold [(k, .stdout)]
    insertIo id ⟨true, r.config.stdin⟩ [.master]
    update id (·.withPid pid) (o.write 1) true

def startContainer (o : Oracle) (k : Nat) (id : ContainerId) : FdProg Unit := do
  let s ← get
  match s.cache.containers[id]? with
  | none => throw (.notFound ("container " ++ id.val))
  | some r =>
    if r.state ≠ .created then
      throw (.failedPrecondition ("container " ++ id.val ++ " is in state " ++ r.state.debug ++
        ", must be Created to start"))
    else do
      let info := sandboxInfo s.cache r.sandbox
      writeSandboxResolvConf info.dns
      openCriLog o info.logDirectory r.config.logPath
      if r.config.tty then startContainerTty o k id r info
      else do
        joinNetns o k "start_container" info.netnsPath
        startContainerPipeMode o k id r

/-! ## Steps -/

inductive Call
  | execSync (id : ContainerId) (cmd : List String) (timeoutSeconds : Int)
  | openExec (id : ContainerId) (cmd : List String) (tty stdin : Bool)
  | startContainer (id : ContainerId)

def Call.prog (o : Oracle) (k : Nat) : Call → FdProg Unit
  | .execSync id cmd timeoutSeconds => Descriptors.execSync o k id cmd timeoutSeconds
  | .openExec id cmd tty stdin => Descriptors.openExec o k id cmd tty stdin
  | .startContainer id => Descriptors.startContainer o k id

/-- The containers that a call starts. -/
def Call.starts : Call → List ContainerId
  | .startContainer id => [id]
  | _ => []

inductive Label
  /-- A call, from its beginning to its return. -/
  | call (c : Call) (o : Oracle)
  | dropSession (k : Nat)
  | removeContainer (id : ContainerId)
  /-- A reaper takes the entry of its container out of the io table. -/
  | reap (id : ContainerId)
  /-- Other operations and reapers change the records; only a removal drops one of a container. -/
  | setContainer (r : ContainerRecord)
  | setSandbox (r : SandboxRecord)
  | eraseSandbox (id : SandboxId)
  /-- A process that holds the output forks. -/
  | fork (x : Nat × Output)
  /-- A process that holds the output closes it, or ends. -/
  | letGo (x : Nat × Output)
  /-- The thread that reads the output is at its end. -/
  | eof (x : Nat × Output)

namespace Server

/-- The call has returned: its variables are out of scope. -/
def return_ (s : Server) : Server :=
  { s with
    fds := s.fds.closeIf Owner.isVar
    calls := s.calls + 1 }

/-- The entry of a container is dropped from the io table. -/
def dropIo (s : Server) (id : ContainerId) : Server :=
  { s with
    fds := s.fds.closeIf (· = .io id)
    ioTable := s.ioTable.erase id }

/-- A thread ends. The last one of a container drops the log file. -/
def endTee (s : Server) (x : Nat × Output) : Server :=
  let tees := s.tees.filter (· ≠ x)
  { s with
    fds := s.fds.closeIf fun a => a = .tee x ∨ (a = .log x.1 ∧ ∀ y ∈ tees, y.1 ≠ x.1)
    tees := tees }

end Server

def step (s : Server) : Label → Option Server
  | .call c o =>
    some ((c.prog o s.calls).exec { s with started := c.starts ++ s.started }).2.return_
  | .dropSession k =>
    if k ∈ s.sessions then
      some { s with
        fds := s.fds.closeIf (· = .session k)
        sessions := s.sessions.filter (· ≠ k) }
    else none
  | .removeContainer id =>
    match s.cache.containers[id]? with
    | none => some s
    | some _ => some { s.dropIo id with cache := s.cache.eraseContainer id }
  | .reap id => some (s.dropIo id)
  | .setContainer r => some { s with cache := s.cache.setContainer r.id r }
  | .setSandbox r => some { s with cache := s.cache.setSandbox r.id r }
  | .eraseSandbox id => some { s with cache := s.cache.eraseSandbox id }
  | .fork x => if x ∈ s.holders then some { s with holders := x :: s.holders } else none
  | .letGo x => if x ∈ s.holders then some { s with holders := s.holders.erase x } else none
  | .eof x => if x ∈ s.tees ∧ x ∉ s.holders then some (s.endTee x) else none

/-- The listener before the first call, with the descriptors of `t` open. -/
def init (t : Table Unit) (cache : Cache) : Server where
  fds := t.relabel fun _ => .before
  cache := cache
  ioTable := ∅
  sessions := []
  tees := []
  holders := []
  started := []
  children := []
  calls := 0

end LightrCri.Fake.Descriptors

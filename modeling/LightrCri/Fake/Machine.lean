import LightrCri.Fake.Records
import LightrCri.Foundations.Pool

/-!
# The fake backend as a machine

`FakeBackend` and its detached reaper threads, as a pool of tasks over the listener's cache, the
state root and the process table. A frame is one atomic action of the source: a critical section
of the cache lock (`Crit`), one effect on the file system (`FileOp`), or a step that holds no lock
(`Sys`: spawning, signalling, waiting). A call of the backend is a stack of frames, in the order
of the source; the frames a call continues with are pushed by the frame that decides for them, and
`?` is `Outcome.halt`.

A reaper keeps the cache lock while it writes its file, so the lock is part of the state
(`World.lock`); every other critical section is one action. `atomic_write` has two: the temporary
file is created and written, then renamed. The clock, the results of file operations, the process
ids and the deadlines come from the `Oracle` of a step.

`Label.restart` kills the listener, at any point of any task, and opens the state root again.
-/

namespace LightrCri.Fake

open Backend Foundations

/-! ## Processes -/

def SIGTERM : Nat := 15

def SIGKILL : Nat := 9

/-- How a process ended. -/
inductive WaitStatus
  | exited (code : Int)
  | signaled (sig : Nat)
  deriving DecidableEq, Repr

/-- The exit code and reason that a reaper records for the result of `wait`. -/
def terminal : Except String WaitStatus → Int × String
  | .ok (.signaled sig) => (128 + sig, "killed-by-signal-" ++ toString sig)
  | .ok (.exited code) => (code, "")
  | .error e => (-1, "wait-error: " ++ e)

inductive ProcState
  | alive
  | zombie (st : WaitStatus)
  /-- Waited for: the process id is free again. -/
  | gone
  deriving DecidableEq, Repr

/-- A process: spawned for the container `owner`, or unrelated to the backend. -/
structure Proc where
  pid : Nat
  owner : Option ContainerId
  /-- Whether the listener that spawned it still runs; the exit of another is waited for by
  `init`. -/
  child : Bool
  state : ProcState
  deriving DecidableEq, Repr

def Proc.exit (p : Proc) (st : WaitStatus) : Proc :=
  if p.state = .alive then { p with state := if p.child then .zombie st else .gone } else p

/-! ## The listener's state -/

/-- The entry of the io table of a container: which stdio it holds. -/
structure ContainerIo where
  tty : Bool
  stdin : Bool
  deriving DecidableEq, Repr

structure World where
  cache : Cache
  disk : Disk
  /-- The files `resolv-{sandbox}.conf` directly under the state root. -/
  rootFiles : Std.ExtTreeMap String String
  ioTable : Std.ExtTreeMap ContainerId ContainerIo
  /-- Every process ever started, in order of start. -/
  procs : List Proc
  /-- The reaper that holds the cache lock while it writes its file. -/
  lock : Option Nat
  /-- `COUNTER`, from which ids are made. It does not wrap here, as it does after 2 ^ 64 ids. -/
  counter : Nat
  /-- The process id of the listener. -/
  listener : Nat
  /-- The hexadecimal BLAKE3 digest. -/
  blake3 : String → String

namespace World

/-- `kill(pid, 0) == 0`: there is a process of that number, a zombie included. -/
def pidAlive (w : World) (pid : Nat) : Bool :=
  w.procs.any fun p => p.pid = pid ∧ p.state ≠ .gone

/-- `kill(pid, sig)`. SIGKILL ends a live process; SIGTERM is left to it. -/
def kill (w : World) (pid sig : Nat) : World :=
  { w with procs := w.procs.map fun p =>
      if p.pid = pid ∧ sig = SIGKILL then p.exit (.signaled SIGKILL) else p }

end World

/-! ## Frames -/

/-- What `start_container` reads of the sandbox. -/
structure SandboxInfo where
  logDirectory : String
  dns : Option DnsConfig
  hostname : String
  netnsPath : Option String
  deriving DecidableEq, Repr

/-- The result of a call. -/
inductive Value
  | unit
  | sandbox (id : SandboxId)
  | container (id : ContainerId)
  | image (p : PulledImage)
  deriving DecidableEq, Repr

/-- The critical sections of the cache lock. -/
inductive Crit
  | insertSandbox (r : SandboxRecord)
  | stopSandbox (id : SandboxId)
  | collectContainers (id : SandboxId)
  | deleteSandbox (id : SandboxId)
  | createContainer (sandbox : SandboxId) (cfg : ContainerConfig)
  | insertContainer (r : ContainerRecord)
  | startContainer (id : ContainerId)
  | fetchSandbox (id : ContainerId) (r : ContainerRecord)
  | startIntent (id : ContainerId)
  | spawnFailed (id : ContainerId) (e : String)
  | persistPid (id : ContainerId) (pid : Nat)
  | stopContainer (id : ContainerId) (grace : Int)
  | waitGrace (id : ContainerId) (pid : Nat)
  | waitKilled (id : ContainerId)
  | recordStopped (id : ContainerId) (grace : Int)
  | removeContainer (id : ContainerId)
  | dropContainer (id : ContainerId)
  | insertImage (r : ImageDiskRecord)
  | findImage (ref : String)
  | checkImageInUse (ref imgId : String)
  | dropImage (imgId : String)
  | reap (id : ContainerId) (finishedAt : Int) (status : Except String WaitStatus)

/-- The effects on the files of records. -/
inductive FileOp
  /-- `atomic_write` up to the rename. With `strict`, an error ends the call; otherwise it is
  ignored (`let _ = …`). -/
  | write (r : DiskRecord) (strict : Bool)
  /-- The rename of `atomic_write`, of the temporary file made at the given clock reading. -/
  | rename (pid nanos : Nat) (r : DiskRecord) (strict : Bool)
  | unlink (ob : Obj)

/-- The actions outside the lock. -/
inductive Sys
  | runSandbox (cfg : SandboxConfig)
  | newContainer (sandbox : SandboxId) (cfg : ContainerConfig)
  | prepare (id : ContainerId) (r : ContainerRecord) (info : SandboxInfo)
  | spawn (id : ContainerId) (io : ContainerIo)
  | dupPipes
  | insertIo (id : ContainerId) (io : ContainerIo)
  | spawnReaper (id : ContainerId) (q : Nat)
  | kill (pid sig : Nat)
  | wait (id : ContainerId) (q : Nat)
  | removeIo (id : ContainerId)
  | pullImage (ref : String)

inductive Frame
  | crit (c : Crit)
  | file (f : FileOp)
  | sys (s : Sys)
  /-- The reaper drops its guard of the cache. -/
  | unlock
  | ret (v : Value)
  | fail (e : BackendError)

/-- The calls of `CriBackend` that change the state. -/
inductive Call
  | runSandbox (cfg : SandboxConfig)
  | stopSandbox (id : SandboxId)
  | removeSandbox (id : SandboxId)
  | createContainer (sandbox : SandboxId) (cfg : ContainerConfig)
  | startContainer (id : ContainerId)
  | stopContainer (id : ContainerId) (grace : Int)
  | removeContainer (id : ContainerId)
  | pullImage (ref : String)
  | removeImage (ref : String)
  deriving DecidableEq

inductive Tag
  | call (c : Call)
  | reaper (id : ContainerId) (q : Nat)

def Tag.isCall : Tag → Bool
  | .call _ => true
  | .reaper _ _ => false

abbrev Result := Except BackendError Value

abbrev Out := Outcome Tag Frame Result

abbrev Thread := Task Tag Frame Result

abbrev State := Pool World Tag Frame Result

/-- The stack a call starts with. -/
def Call.frames : Call → List Frame
  | .runSandbox cfg => [.sys (.runSandbox cfg)]
  | .stopSandbox id => [.crit (.stopSandbox id), .ret .unit]
  | .removeSandbox id => [.crit (.stopSandbox id), .crit (.collectContainers id), .ret .unit]
  | .createContainer sb cfg => [.crit (.createContainer sb cfg)]
  | .startContainer id => [.crit (.startContainer id), .ret .unit]
  | .stopContainer id grace => [.crit (.stopContainer id grace), .ret .unit]
  | .removeContainer id => [.crit (.removeContainer id), .ret .unit]
  | .pullImage ref => [.sys (.pullImage ref)]
  | .removeImage ref => [.crit (.findImage ref), .ret .unit]

/-- What a step may get from outside the listener. -/
structure Oracle where
  /-- The clock reading an id or a time stamp of the step is made from. -/
  clock : Int := 0
  /-- The reading for `created_at_nanos`, taken later than that for the id. -/
  stamp : Int := 0
  /-- The reading that names the temporary file of `atomic_write`. -/
  tmpNanos : Nat := 0
  /-- The error of the file operation or of `dup`, if it fails. -/
  fault : Option String := none
  /-- Whether a failed write leaves its temporary file behind. -/
  leavesTmp : Bool := false
  /-- None when CNI is not available, else the result of `cni_setup`: the IP and the netns path. -/
  cni : Option (Except String (Option String × String)) := none
  /-- The error of what `start_container` does before its intent (the log file, `openpty`, the
  namespaces), if it fails. -/
  prepareError : Option BackendError := none
  /-- The result of `Command::spawn`. -/
  spawn : Except String Nat := .ok 100
  /-- Whether the deadline of a wait has passed. -/
  timeout : Bool := false

/-! ## Execution -/

/-- `stop_container(cid, 0)?; remove_container(cid)?` for each container. -/
def cascade (ids : List ContainerId) : List Frame :=
  ids.flatMap fun cid => [.crit (.stopContainer cid 0), .crit (.removeContainer cid)]

/-- The ids of the containers of a sandbox, in the order of the map. -/
def Cache.containersOf (c : Cache) (id : SandboxId) : List ContainerId :=
  (c.containers.toList.filter fun e => e.2.sandbox = id).map fun e => e.2.id

/-- Record the terminal state of a container. -/
def ContainerRecord.toExited (r : ContainerRecord) (finishedAt code : Int) (reason : String) :
    ContainerRecord :=
  { r with state := .exited, finishedAtNanos := finishedAt, exitCode := code, reason := reason }

namespace World

/-- Update a container record and continue with writing it to its file. -/
def setContainer (w : World) (id : ContainerId) (r : ContainerRecord) : World :=
  { w with cache := w.cache.setContainer id r }

end World

/-- A critical section. `self` is the task that enters it. -/
def Crit.exec (self : Nat) (o : Oracle) (w : World) : Crit → World × Out
  | .insertSandbox r => ({ w with cache := w.cache.setSandbox r.id r }, .next [])
  | .stopSandbox id =>
    match w.cache.sandboxes[id]? with
    | none => (w, .next [])
    | some r =>
      if r.state = .notReady then (w, .next [])
      else
        let r := { r with state := .notReady }
        ({ w with cache := w.cache.setSandbox id r }, .next [.file (.write (.sandbox r) true)])
  | .collectContainers id =>
    -- CNI DEL and the netns teardown, between the cascade and the deletion, leave records alone
    match w.cache.sandboxes[id]? with
    | none => (w, .next [])
    | some _ => (w, .next (cascade (w.cache.containersOf id) ++ [Frame.crit (.deleteSandbox id)]))
  | .deleteSandbox id =>
    match w.cache.sandboxes[id]? with
    | none => (w, .next [])
    | some _ =>
      ({ w with cache := w.cache.eraseSandbox id }, .next [.file (.unlink (.sandbox id))])
  | .createContainer sb cfg =>
    match w.cache.sandboxes[sb]? with
    | none => (w, .halt (.error (.notFound ("sandbox " ++ sb.val))))
    | some r =>
      if r.state = .ready then (w, .next [.sys (.newContainer sb cfg)])
      else (w, .halt (.error (.failedPrecondition ("sandbox " ++ sb.val ++ " is not Ready"))))
  | .insertContainer r => (w.setContainer r.id r, .next [])
  | .startContainer id =>
    match w.cache.containers[id]? with
    | none => (w, .halt (.error (.notFound ("container " ++ id.val))))
    | some r =>
      if r.state = .created then (w, .next [.crit (.fetchSandbox id r)])
      else
        (w, .halt (.error (.failedPrecondition ("container " ++ id.val ++ " is in state " ++
          r.state.debug ++ ", must be Created to start"))))
  | .fetchSandbox id r =>
    let info : SandboxInfo :=
      match w.cache.sandboxes[r.sandbox]? with
      | none => ⟨"", none, "", none⟩
      | some s => ⟨s.config.logDirectory, s.config.dns, s.config.hostname, s.netnsPath⟩
    (w, .next [.sys (.prepare id r info)])
  | .startIntent id =>
    match w.cache.containers[id]? with
    | none => (w, .halt (.error (.notFound ("container " ++ id.val))))
    | some r =>
      let r := { r with
        state := .running
        startedAtNanos := o.clock
        pid := 0
        reason := "starting" }
      (w.setContainer id r, .next [.file (.write (.container r) true)])
  | .spawnFailed id e =>
    match w.cache.containers[id]? with
    | none => (w, .next [])
    | some r =>
      let r := { r.toExited o.clock (-1) "spawn-failed" with message := e }
      (w.setContainer id r, .next [.file (.write (.container r) false)])
  | .persistPid id pid =>
    match w.cache.containers[id]? with
    | none => (w, .halt (.error (.notFound ("container " ++ id.val))))
    | some r =>
      let r := { r with pid := pid, reason := "" }
      (w.setContainer id r, .next [.file (.write (.container r) true)])
  | .stopContainer id grace =>
    match w.cache.containers[id]? with
    | none => (w, .next [])
    | some r =>
      if r.state = .running then
        if 0 < r.pid then
          if 0 < grace then
            -- a grace that has no deadline panics after the signal: `termAndWait`, not here
            (w, .next [.sys (.kill r.pid SIGTERM), .crit (.waitGrace id r.pid)])
          else (w, .next [.sys (.kill r.pid SIGKILL), .crit (.waitKilled id)])
        else (w, .next [.crit (.recordStopped id grace)])
      else (w, .next [])
  | .waitGrace id pid =>
    match w.cache.containers[id]? with
    | none => (w, .next [])
    | some r =>
      if r.state = .running then
        if o.timeout then (w, .next [.sys (.kill pid SIGKILL), .crit (.waitKilled id)])
        else (w, .next [.crit (.waitGrace id pid)])
      else (w, .next [])
  | .waitKilled id =>
    match w.cache.containers[id]? with
    | none => (w, .next [])
    | some r =>
      if r.state = .running ∧ o.timeout = false then (w, .next [.crit (.waitKilled id)])
      else (w, .next [])
  | .recordStopped id grace =>
    match w.cache.containers[id]? with
    | none => (w, .next [])
    | some r =>
      if r.state = .running then
        let r := r.toExited o.clock (if 0 < grace then 128 + 15 else 128 + 9) "stopped"
        (w.setContainer id r, .next [.file (.write (.container r) true)])
      else (w, .next [])
  | .removeContainer id =>
    match w.cache.containers[id]? with
    | none => (w, .next [])
    | some r =>
      if r.state = .running then
        (w, .next [.crit (.stopContainer id 0), .crit (.dropContainer id)])
      else (w, .next [.crit (.dropContainer id)])
  | .dropContainer id =>
    ({ w with cache := w.cache.eraseContainer id },
      .next [.sys (.removeIo id), .file (.unlink (.container id))])
  | .insertImage r => ({ w with cache := w.cache.setImage r.id r }, .next [])
  | .findImage ref =>
    match w.cache.images.values.find? fun r => r.refName = ref with
    | none => (w, .next [])
    | some r => (w, .next [.crit (.checkImageInUse ref r.id)])
  | .checkImageInUse ref imgId =>
    match w.cache.containers.values.find? fun c =>
        c.config.imageRef = ref ∧ c.state ≠ .exited with
    | none => (w, .next [.crit (.dropImage imgId)])
    | some c =>
      (w, .halt (.error (.inUse ("image " ++ ref ++ " referenced by container " ++ c.id.val))))
  | .dropImage imgId =>
    ({ w with cache := w.cache.eraseImage imgId }, .next [.file (.unlink (.image imgId))])
  | .reap id finishedAt status =>
    match w.cache.containers[id]? with
    | none => (w, .next [])
    | some r =>
      if r.state = .running then
        let r := r.toExited finishedAt (terminal status).1 (terminal status).2
        ({ w.setContainer id r with lock := some self },
          .next [.file (.write (.container r) false), .unlock])
      else (w, .next [])

/-- An I/O error: `?` ends the call, `let _ =` goes on. -/
def ioError (strict : Bool) (e : String) : Out :=
  if strict then .halt (.error (.io e)) else .next []

/-- An effect on the files of records. -/
def FileOp.exec (o : Oracle) (w : World) : FileOp → World × Out
  | .write r strict =>
    match o.fault with
    | none =>
      ({ w with disk := w.disk.put r.obj.subdir (tmpName w.listener o.tmpNanos) (.whole r) },
        .next [.file (.rename w.listener o.tmpNanos r strict)])
    | some e =>
      (if o.leavesTmp then
        { w with disk := w.disk.put r.obj.subdir (tmpName w.listener o.tmpNanos) .torn } else w,
        ioError strict e)
  | .rename pid nanos r strict =>
    match o.fault, w.disk.rename r.obj.subdir (tmpName pid nanos) r.obj.file with
    | none, some d => ({ w with disk := d }, .next [])
    | none, none => (w, ioError strict "No such file or directory (os error 2)")
    | some e, _ => (w, ioError strict e)
  | .unlink ob =>
    match o.fault with
    | none => ({ w with disk := w.disk.unlink ob.subdir ob.file }, .next [])
    | some _ => (w, .next [])

/-- `char::is_ascii_whitespace`. -/
def isAsciiWhitespace (c : Char) : Bool :=
  c = ' ' ∨ c = '\t' ∨ c = '\n' ∨ c = '\r' ∨ c = Char.ofNat 12

/-- The `{:?}` form of a string of printable characters and ASCII whitespace. -/
def debugString (s : String) : String :=
  "\"" ++ String.join (s.toList.map fun c =>
    if c = '\t' then "\\t" else if c = '\n' then "\\n" else if c = '\r' then "\\r"
    else if c = Char.ofNat 12 then "\\u\x7bc\x7d" else if c = '"' then "\\\""
    else if c = '\\' then "\\\\" else String.singleton c) ++ "\""

/-- The contents of the `resolv.conf` of a sandbox. -/
def resolvConf (dns : DnsConfig) : String :=
  String.join (dns.servers.map fun s => "nameserver " ++ s ++ "\n") ++
    (if dns.searches = [] then "" else "search " ++ " ".intercalate dns.searches ++ "\n") ++
    (if dns.options = [] then "" else "options " ++ " ".intercalate dns.options ++ "\n")

/-- The image record that `pull_image` makes of a reference. -/
def imageRecord (blake3 : String → String) (ref : String) : ImageDiskRecord :=
  { id := "sha-" ++ String.ofList ((blake3 ref).toList.take 16)
    refName := ref
    size := ref.utf8ByteSize }

/-- An action outside the lock; `none` when it has to wait. -/
def Sys.exec (o : Oracle) (w : World) : Sys → Option (World × Out)
  | .runSandbox cfg =>
    let id : SandboxId := ⟨newId "sb-" o.clock w.counter⟩
    let net : Except String (Option String × Option String) :=
      if cfg.hostNetwork then .ok (none, none)
      else
        match o.cni with
        | none => .ok (none, none)
        | some (.ok (ip, ns)) => .ok (ip, some ns)
        | some (.error e) => .error e
    let w := { w with counter := w.counter + 1 }
    match net with
    | .error e =>
      some (w, .halt (.error (.internal ("CNI setup for sandbox " ++ id.val ++ ": " ++ e))))
    | .ok (ip, ns) =>
      let r : SandboxRecord := ⟨id, cfg, .ready, o.stamp, ip, ns⟩
      some (w, .next [.file (.write (.sandbox r) true), .crit (.insertSandbox r),
        .ret (.sandbox id)])
  | .newContainer sb cfg =>
    let id : ContainerId := ⟨newId "ct-" o.clock w.counter⟩
    let r : ContainerRecord := ⟨id, sb, cfg, .created, o.stamp, 0, 0, 0, "", "", 0⟩
    some ({ w with counter := w.counter + 1 },
      .next [.file (.write (.container r) true), .crit (.insertContainer r), .ret (.container id)])
  | .prepare id r info =>
    let w :=
      match info.dns, o.fault with
      | some dns, none =>
        { w with rootFiles :=
            w.rootFiles.insert ("resolv-" ++ r.sandbox.val ++ ".conf") (resolvConf dns) }
      | _, _ => w
    match o.prepareError with
    | some e => some (w, .halt (.error e))
    | none =>
      some (w, .next [.crit (.startIntent id), .sys (.spawn id ⟨r.config.tty, r.config.stdin⟩)])
  | .spawn id io =>
    match o.spawn with
    | .error e =>
      some (w, .next [.crit (.spawnFailed id e),
        .fail (.internal ("spawn container " ++ id.val ++ ": " ++ e))])
    | .ok pid =>
      -- the kernel gives a number that no process has
      if 0 < pid ∧ w.pidAlive pid = false then
        let rest : List Frame :=
          [.sys (.insertIo id io), .crit (.persistPid id pid), .sys (.spawnReaper id w.procs.length)]
        some ({ w with procs := w.procs ++ [⟨pid, some id, true, .alive⟩] },
          .next (if io.tty then rest else .sys .dupPipes :: rest))
      else none
  | .dupPipes =>
    match o.fault with
    | none => some (w, .next [])
    | some e => some (w, .halt (.error (.io e)))
  | .insertIo id io => some ({ w with ioTable := w.ioTable.insert id io }, .next [])
  | .spawnReaper id q => some (w, .fork (.reaper id q) [.sys (.wait id q)])
  | .kill pid sig => some (w.kill pid sig, .next [])
  | .wait id q =>
    match w.procs[q]? with
    | none => none
    | some p =>
      match p.state with
      | .zombie st =>
        some ({ w with procs := w.procs.set q { p with state := .gone } },
          .next [.sys (.removeIo id), .crit (.reap id o.clock (.ok st))])
      | _ => none
  | .removeIo id => some ({ w with ioTable := w.ioTable.erase id }, .next [])
  | .pullImage ref =>
    if ref = "" ∨ ref.toList.any isAsciiWhitespace then
      some (w, .halt (.error (.invalidArgument
        ("image_ref " ++ debugString ref ++ " is empty or contains whitespace"))))
    else
      let r := imageRecord w.blake3 ref
      some (w, .next [.file (.write (.image r) true), .crit (.insertImage r),
        .ret (.image ⟨ref, w.blake3 ref, r.size⟩)])

/-- Execution of a frame by the task `self`. The cache lock has to be free for a critical
section. -/
def exec (self _next : Nat) (o : Oracle) (f : Frame) (w : World) : Option (World × Out) :=
  match f with
  | .crit c => if w.lock = none then some (c.exec self o w) else none
  | .file f => some (f.exec o w)
  | .sys s => s.exec o w
  | .unlock => some ({ w with lock := none }, .next [])
  | .ret v => some (w, .halt (.ok v))
  | .fail e => some (w, .halt (.error e))

/-! ## Opening the state root -/

/-- What `open` makes of a container record it has read: a Running one without a process, or with
a dead one, has exited. -/
def recover (alive : Nat → Bool) (now : Int) (r : ContainerRecord) : ContainerRecord :=
  if r.state = .running then
    if 0 < r.pid ∧ alive r.pid = false then r.toExited now (-1) "lost-exit-reaped-elsewhere"
    else if r.pid = 0 then r.toExited now (-1) "lost-start-window"
    else r
  else r

/-- Rebuild a map from the record files of a directory listing. -/
def rebuild {κ α : Type} [Ord κ] [Std.TransOrd κ] (parse : DiskRecord → Option α) (key : α → κ)
    (entries : List (String × FileData)) : Std.ExtTreeMap κ α :=
  entries.foldl (fun m e =>
    if extension e.1 = some "json" then
      match e.2.parse.bind parse with
      | some r => m.insert (key r) r
      | none => m
    else m) ∅

def DiskRecord.sandbox? : DiskRecord → Option SandboxRecord
  | .sandbox r => some r
  | _ => none

def DiskRecord.container? : DiskRecord → Option ContainerRecord
  | .container r => some r
  | _ => none

def DiskRecord.image? : DiskRecord → Option ImageDiskRecord
  | .image r => some r
  | _ => none

/-- `atomic_write` with no other task in between. -/
def Disk.atomicWrite (d : Disk) (pid nanos : Nat) (r : DiskRecord) : Disk :=
  ((d.put r.obj.subdir (tmpName pid nanos) (.whole r)).unlink r.obj.subdir (tmpName pid nanos)).put
    r.obj.subdir r.obj.file (.whole r)

/-- What a restart gets from outside: the process id and the clock of the new listener, the
temporary files that the killed one was writing, and the order in which `read_dir` lists each
directory. -/
structure Restart where
  pid : Nat
  clock : Int := 0
  tmpNanos : Nat := 0
  torn : List (Subdir × Nat × Nat) := []
  listing : Subdir → List (String × FileData)

/-- The state root as the killed listener leaves it. -/
def Restart.crash (rs : Restart) (d : Disk) : Disk :=
  rs.torn.foldl (fun d t => d.put t.1 (tmpName t.2.1 t.2.2) .torn) d

/-- The listing is one of the directories it lists. -/
def Restart.Lists (rs : Restart) (d : Disk) : Prop :=
  ∀ sub, (rs.listing sub).Perm ((rs.crash d) sub).toList

/-- The container records of a listing. -/
def listedContainers (entries : List (String × FileData)) : List ContainerRecord :=
  entries.filterMap fun e =>
    if extension e.1 = some "json" then e.2.parse.bind DiskRecord.container? else none

/-- The records that `open` corrects are written back. -/
def Restart.corrected (rs : Restart) (alive : Nat → Bool) (d : Disk) : Disk :=
  (listedContainers (rs.listing .containers)).foldl (fun d r =>
    let r' := recover alive rs.clock r
    if r' = r then d else d.atomicWrite rs.pid rs.tmpNanos (.container r')) (rs.crash d)

/-- `FakeBackend::open`: the cache it rebuilds. -/
def Restart.cache (rs : Restart) (alive : Nat → Bool) : Cache where
  sandboxes := rebuild DiskRecord.sandbox? SandboxRecord.id (rs.listing .sandboxes)
  containers :=
    rebuild (fun r => r.container?.map (recover alive rs.clock)) ContainerRecord.id
      (rs.listing .containers)
  images := rebuild DiskRecord.image? ImageDiskRecord.id (rs.listing .images)

/-- The listener dies: its zombies are waited for by `init`, and so will be its children. -/
def Proc.orphan (p : Proc) : Proc :=
  { p with
    child := false
    state := match p.state with
      | .zombie _ => .gone
      | s => s }

/-- The listener is killed and the state root opened again. -/
def World.restart (rs : Restart) (w : World) : World :=
  let procs := w.procs.map Proc.orphan
  let alive := { w with procs := procs }.pidAlive
  { w with
    cache := rs.cache alive
    disk := rs.corrected alive w.disk
    ioTable := ∅
    procs := procs
    lock := none
    counter := 0
    listener := rs.pid }

/-! ## Steps -/

inductive Label
  /-- A client calls the backend. -/
  | invoke (c : Call)
  /-- The task `i` executes its next frame. -/
  | step (i : Nat) (o : Oracle)
  /-- The process `q` ends by itself. -/
  | exit (q : Nat) (st : WaitStatus)
  /-- A process unrelated to the backend gets the number `pid`. -/
  | foreign (pid : Nat)
  | restart (rs : Restart)

/-- One step of the listener, of the processes or of the kernel. -/
def step (s : State) : Label → Option State
  | .invoke c => some (s.start (.call c) c.frames)
  | .step i o => s.advance exec i o
  | .exit q st =>
    match s.shared.procs[q]? with
    | none => none
    | some p => some { s with shared := { s.shared with procs := s.shared.procs.set q (p.exit st) } }
  | .foreign pid =>
    if 0 < pid ∧ s.shared.pidAlive pid = false then
      some { s with
        shared := { s.shared with procs := s.shared.procs ++ [⟨pid, none, false, .alive⟩] } }
    else none
  | .restart rs => some ⟨s.shared.restart rs, []⟩

/-- The listener just after `open` on an empty state root. -/
def init (listener : Nat) (blake3 : String → String) : State where
  shared :=
    { cache := .empty
      disk := .empty
      rootFiles := ∅
      ioTable := ∅
      procs := []
      lock := none
      counter := 0
      listener := listener
      blake3 := blake3 }
  tasks := []

end LightrCri.Fake

import LightrCri.Foundations.Runs
import LightrCri.Spdy.Connection
import LightrCri.Stream.Process

/-!
# SPDY exec and attach

The state machine of `run_exec`: the read loop, the output pumps, the reaper and the completion
path, which run as tasks of their own, with the process of the session and the client. A label says
which of them takes its next step, and how its choices are resolved.

The completion path waits at two gates for the read loop, which notifies it (`role_added`) of the
streams that it has opened and of the pumps that it has registered, and it is told of the end of the
read loop and, for an attach, of a stream that the client half-closes (`client_closed`). Either
notification wakes only those who are waiting for it already.

Header blocks come decoded (`readLoop`), and the client takes what is written to it, unless it is
gone. A resize acts on the terminal only, and is left to `Spdy.Resize`.
-/

namespace LightrCri.Spdy.Exec

open Foundations LightrCri.Stream Function

/-! ## State -/

/-- What is asked for, and the session that the factory has opened. -/
structure Config where
  attach : Bool
  stdin : Bool
  tty : Bool
  session : Option StreamSession
  deriving DecidableEq, Repr

/-- The read loop. -/
inductive ReadLoop
  | reading
  /-- About to write the SYN_REPLY of a stream. -/
  | replying (id : UInt32) (role : UInt8)
  /-- About to put a stream into the maps. -/
  | inserting (id : UInt32) (role : UInt8)
  /-- About to notify `role_added` of a stream. -/
  | telling (id : UInt32) (role : UInt8)
  /-- About to spawn the pump of a stream. -/
  | spawning (id : UInt32) (role : UInt8)
  /-- About to register a pump. -/
  | pushing (o : Output)
  /-- About to notify `role_added` of a pump. -/
  | tellingPump
  /-- Writing a payload to stdin, of a DATA frame with or without FLAG_FIN. -/
  | writing (f : FileWrite) (fin : Bool)
  /-- Out of the loop, about to notify `client_closed`. -/
  | leaving
  | ended
  deriving DecidableEq, Repr

/-- The pump of an output to its stream. -/
inductive Pump
  | reading (id : UInt32)
  /-- Waiting for the writer. -/
  | sending (id : UInt32) (bytes : Bytes)
  | ended (id : UInt32)
  deriving DecidableEq, Repr

/-- A loop that waits for a condition: it asks to be notified, checks, and waits. -/
inductive Gate
  | arm
  | check (woken : Bool)
  | wait (woken : Bool)
  deriving DecidableEq, Repr

/-- The completion path. -/
inductive Main
  /-- Before `detached` is created. -/
  | arming
  /-- At the barrier, for the roles. -/
  | barrier (g : Gate)
  /-- At the gate for the pumps. -/
  | gate (g : Gate)
  | select
  /-- Awaiting the pumps, with the exit code if the reaper has brought it. -/
  | draining (exit : Option Int32)
  /-- Awaiting the reaper. -/
  | exiting
  | snapshot (exit : Int32)
  /-- About to write the ends of the streams and the verdict. -/
  | finishing (exit : Int32) (stdout stderr error : Option UInt32)
  /-- Waiting for the read loop to end. -/
  | grace
  | done
  deriving DecidableEq, Repr

/-- The future that waits for `client_closed`. -/
inductive Notified
  | absent
  | waiting
  | fired
  deriving DecidableEq, Repr

structure State where
  readLoop : ReadLoop
  /-- The role of a stream. -/
  roles : UInt32 → Option UInt8
  /-- The stream of a role. -/
  byRole : UInt8 → Option UInt32
  /-- The read loop holds the stdin of the session. -/
  stdin : Bool
  /-- The read loop holds an output of the session. -/
  raw : Output → Bool
  pumps : Output → Option Pump
  /-- `output_tasks`. -/
  tasks : List Output
  /-- The pumps that the drain has taken and awaits. -/
  drain : Option (List Output)
  main : Main
  detached : Notified
  /-- What the waiter has returned. -/
  reaper : Option (Option Int32)
  out : List Outbound
  world : World
  /-- What the client has sent and the read loop has not yet read. -/
  inbox : List Received
  /-- The client has closed its write side. -/
  eof : Bool
  /-- The client does not read any more. -/
  gone : Bool

def init (cfg : Config) (world : World) : State where
  readLoop := .reading
  roles _ := none
  byRole _ := none
  stdin := cfg.session.any StreamSession.stdin
  raw o := cfg.session.any fun session => session.has o
  pumps _ := none
  tasks := []
  drain := none
  main := if cfg.session.isSome then .arming else .grace
  detached := .absent
  reaper := none
  out := []
  world := world
  inbox := []
  eof := false
  gone := false

/-! ## The read loop -/

/-- The role of a stream: its channel, or 255. -/
def role (hdr : Headers) : UInt8 :=
  match get hdr "streamType" with
  | some "stdin" => STDIN
  | some "stdout" => STDOUT
  | some "stderr" => STDERR
  | some "error" => ERROR
  | some "resize" => RESIZE
  | _ => 0xff

/-- The output that a stream with the role carries. -/
def outputOf (role : UInt8) : Option Output :=
  if role = STDOUT then some .stdout else if role = STDERR then some .stderr else none

def Gate.notify : Gate → Gate
  | .arm => .arm
  | .check _ => .check true
  | .wait _ => .wait true

def Main.notify : Main → Main
  | .barrier g => .barrier g.notify
  | .gate g => .gate g.notify
  | m => m

def Notified.notify : Notified → Notified
  | .absent => .absent
  | .waiting => .fired
  | .fired => .fired

/-- The end of the DATA arm, for a stream with the role. -/
def halfClose (cfg : Config) (s : State) (role : Option UInt8) (fin : Bool) : State :=
  { s with
    readLoop := .reading
    stdin := if fin = true ∧ role = some STDIN then false else s.stdin
    detached := if fin = true ∧ cfg.attach = true then s.detached.notify else s.detached }

/-- The loop reads a frame. -/
def handle (cfg : Config) (s : State) : Received → State
  | .frame (.synStream id hdr) => { s with readLoop := .replying id (role hdr) }
  | .frame (.data id flags data) =>
    let fin := flags &&& FLAG_FIN != 0
    if s.roles id = some STDIN ∧ s.stdin = true then
      { s with readLoop := .writing (.start data) fin }
    else halfClose cfg s (s.roles id) fin
  | .frame (.ping id) => { s with out := s.out ++ [.ping id] }
  | .rstStream _ => { s with readLoop := .leaving }
  | .goAway => { s with readLoop := .leaving }
  | .closed => { s with readLoop := .leaving }

/-- The next step of the read loop, but for a write to stdin. -/
def readStep (cfg : Config) (s : State) : Option State :=
  match s.readLoop with
  | .reading =>
    match s.inbox with
    | f :: inbox => some (handle cfg { s with inbox := inbox } f)
    | [] => if s.eof then some { s with readLoop := .leaving } else none
  | .replying id role =>
    some { s with readLoop := .inserting id role, out := s.out ++ [.synReply id] }
  | .inserting id role =>
    some { s with
      readLoop := .telling id role
      roles := update s.roles id (some role)
      byRole := update s.byRole role (some id) }
  | .telling id role => some { s with readLoop := .spawning id role, main := s.main.notify }
  | .spawning id role =>
    match outputOf role with
    | some o =>
      if s.raw o then
        some { s with
          readLoop := .pushing o
          raw := update s.raw o false
          pumps := update s.pumps o (some (.reading id)) }
      else some { s with readLoop := .reading }
    | none => some { s with readLoop := .reading }
  | .pushing o => some { s with readLoop := .tellingPump, tasks := s.tasks ++ [o] }
  | .tellingPump => some { s with readLoop := .reading, main := s.main.notify }
  | .writing _ _ => none
  | .leaving => some { s with readLoop := .ended, detached := s.detached.notify }
  | .ended => none

/-! ## The completion path -/

/-- `expected_roles`. -/
def Config.expectedRoles (cfg : Config) : List UInt8 :=
  [ERROR, STDOUT] ++ (if cfg.stdin then [STDIN] else []) ++ if cfg.tty then [] else [STDERR]

/-- `expected_pumps`. -/
def Config.expectedPumps (cfg : Config) : Nat :=
  match cfg.session with
  | some session => session.stdout.toNat + (!cfg.tty && session.stderr).toNat
  | none => 0

/-- All the expected roles are in `by_role`. -/
def State.allRoles (cfg : Config) (s : State) : Bool :=
  cfg.expectedRoles.all fun r => (s.byRole r).isSome

/-- The expected pumps are registered. -/
def State.allPumps (cfg : Config) (s : State) : Bool := cfg.expectedPumps ≤ s.tasks.length

def Pump.id : Pump → UInt32
  | .reading id => id
  | .sending id _ => id
  | .ended id => id

def Pump.isEnded : Pump → Bool
  | .ended _ => true
  | _ => false

/-- The pump of the output has ended. -/
def State.pumpEnded (s : State) (o : Output) : Bool := (s.pumps o).any Pump.isEnded

/-- The ends of the streams that the client has opened, and the verdict. -/
def fins (exit : Int32) (stdout stderr error : Option UInt32) : List Outbound :=
  stdout.toList.map (.data · FLAG_FIN []) ++ stderr.toList.map (.data · FLAG_FIN []) ++
    error.toList.map (.data · FLAG_FIN (exitStatusJson exit))

/-- The drain awaits the pumps that are registered when it starts; then the completion path goes on
to `next`. -/
def drainStep (s : State) (next : Main) : Option State :=
  match s.drain with
  | none => some { s with drain := some s.tasks, tasks := [] }
  | some pumps => if pumps.all s.pumpEnded then some { s with main := next } else none

/-- The next step of the completion path, but for the other arms of its selects. -/
def mainStep (cfg : Config) (s : State) : Option State :=
  match s.main with
  | .arming => some { s with main := .barrier .arm, detached := .waiting }
  | .barrier .arm => some { s with main := .barrier (.check false) }
  | .barrier (.check woken) =>
    some { s with main := if s.allRoles cfg then .gate .arm else .barrier (.wait woken) }
  | .barrier (.wait woken) => if woken then some { s with main := .barrier .arm } else none
  | .gate .arm => some { s with main := .gate (.check false) }
  | .gate (.check woken) =>
    some { s with main := if s.allPumps cfg then .select else .gate (.wait woken) }
  | .gate (.wait woken) => if woken then some { s with main := .gate .arm } else none
  | .select => drainStep s (if cfg.attach then .snapshot 0 else .exiting)
  | .draining exit => drainStep s (exit.elim .exiting .snapshot)
  | .exiting => s.reaper.map fun code => { s with main := .snapshot (code.getD (-1)) }
  | .snapshot exit =>
    some { s with
      main := .finishing exit (s.byRole STDOUT) (s.byRole STDERR) (s.byRole ERROR) }
  | .finishing exit stdout stderr error =>
    some { s with main := .grace, out := s.out ++ fins exit stdout stderr error }
  | .grace => if s.readLoop = .ended then some { s with main := .done } else none
  | .done => none

/-- The arm of a select for `detached`. -/
def detachStep (cfg : Config) (s : State) : Option State :=
  if s.detached = .fired then
    match s.main with
    | .barrier _ => if cfg.attach then some { s with main := .snapshot 0 } else none
    | .gate _ => if cfg.attach then some { s with main := .snapshot 0 } else none
    | .select => some { s with main := if cfg.attach then .snapshot 0 else .draining none }
    | _ => none
  else none

/-- The arm of the completion select for the reaper, which attach has not. -/
def reapedStep (cfg : Config) (s : State) : Option State :=
  match s.main, s.reaper with
  | .select, some code =>
    if cfg.attach then none else some { s with main := .draining (some (code.getD (-1))) }
  | _, _ => none

/-- A backstop: of the barrier, of the gate, or of the wait for the read loop. -/
def timeoutStep (s : State) : Option State :=
  match s.main with
  | .barrier _ => some { s with main := .gate .arm }
  | .gate _ => some { s with main := .select }
  | .grace => some { s with main := .done }
  | _ => none

/-! ## Steps -/

inductive Label
  | client (f : Received)
  /-- The client closes its write side. -/
  | halfClose
  /-- The transport is gone. -/
  | hangUp
  | readLoop
  /-- Stdin takes `n` bytes of the payload. -/
  | accept (n : Nat)
  /-- Stdin is closed. -/
  | broken
  | flushed
  | pumpRead (o : Output) (n : Nat)
  | pumpSend (o : Output)
  | pumpFail (o : Output)
  | pumpEof (o : Output)
  /-- The waiter returns. -/
  | reap (code : Option Int32)
  | main
  | detached
  | reaped
  | timeout
  | process (a : ProcessAction)
  deriving DecidableEq, Repr

/-- The steps of `run_exec` and its tasks. -/
def Label.driver : Label → Bool
  | .client _ => false
  | .halfClose => false
  | .hangUp => false
  | .process _ => false
  | _ => true

/-- A write to stdin ends, well or not. -/
def wrote (cfg : Config) (s : State) (fin : Bool) : State := halfClose cfg s (some STDIN) fin

/-- The tasks of a connection run until `run_exec` returns. -/
def taskStep (cfg : Config) (s : State) : Label → Option State
  | .readLoop => readStep cfg s
  | .accept n =>
    match s.readLoop with
    | .writing f fin =>
      (s.world.accept f n).map fun w => { s with world := w, readLoop := .writing (f.wrote n) fin }
    | _ => none
  | .broken =>
    match s.readLoop with
    | .writing f fin =>
      if s.world.stdin.closed = true ∧ f.handed ≠ [] then some (wrote cfg s fin) else none
    | _ => none
  | .flushed =>
    match s.readLoop with
    | .writing f fin => if f.left = [] then some (wrote cfg s fin) else none
    | _ => none
  | .pumpRead o n =>
    match s.pumps o with
    | some (.reading id) =>
      if 0 < n ∧ n ≤ 8192 ∧ n ≤ (s.world.out o).buf.length then
        some { s with
          pumps := update s.pumps o (some (.sending id (s.world.taken o n)))
          world := s.world.drain o n }
      else none
    | _ => none
  | .pumpSend o =>
    match s.pumps o with
    | some (.sending id bytes) =>
      some { s with
        pumps := update s.pumps o (some (.reading id))
        out := s.out ++ [.data id 0 bytes] }
    | _ => none
  | .pumpFail o =>
    match s.pumps o with
    | some (.sending id _) =>
      if s.gone then some { s with pumps := update s.pumps o (some (.ended id)) } else none
    | _ => none
  | .pumpEof o =>
    match s.pumps o with
    | some (.reading id) =>
      if (s.world.out o).atEnd then some { s with pumps := update s.pumps o (some (.ended id)) }
      else none
    | _ => none
  | .reap code =>
    match cfg.session with
    | some session =>
      if s.reaper = none ∧ session.waiter.returns s.world.proc code then
        some { s with reaper := some code }
      else none
    | none => none
  | .main => mainStep cfg s
  | .detached => detachStep cfg s
  | .reaped => reapedStep cfg s
  | .timeout => timeoutStep s
  | _ => none

def step (cfg : Config) (s : State) : Label → Option State
  | .client f => if s.eof = false then some { s with inbox := s.inbox ++ [f] } else none
  | .halfClose => some { s with eof := true }
  | .hangUp => some { s with eof := true, gone := true }
  | .process a =>
    if cfg.session.all fun session => a.within session then
      (s.world.step a).map fun w => { s with world := w }
    else none
  | l => if s.main = .done then none else taskStep cfg s l

/-! ## What a step does -/

/-- The client or the transport ends the read loop with the frame. -/
def quits : Received → Bool
  | .frame _ => false
  | _ => true

/-- Where the completion path is when a drain ends, and where it goes. -/
inductive AfterDrain (cfg : Config) : Main → Main → Prop
  | attach (h : cfg.attach = true) : AfterDrain cfg .select (.snapshot 0)
  | exec (h : cfg.attach = false) : AfterDrain cfg .select .exiting
  | detached : AfterDrain cfg (.draining none) .exiting
  | reaped {exit : Int32} : AfterDrain cfg (.draining (some exit)) (.snapshot exit)

/-- The completion path waits at a gate or in the select. -/
def Main.waits : Main → Bool
  | .barrier _ => true
  | .gate _ => true
  | .select => true
  | _ => false

/-- The steps of the completion path that change nothing else. -/
inductive Goto (cfg : Config) (s : State) : Label → Main → Prop
  | armBarrier (hmain : s.main = .barrier .arm) : Goto cfg s .main (.barrier (.check false))
  | rolesIn {woken : Bool} (hmain : s.main = .barrier (.check woken))
    (hroles : s.allRoles cfg = true) : Goto cfg s .main (.gate .arm)
  | rolesOut {woken : Bool} (hmain : s.main = .barrier (.check woken))
    (hroles : s.allRoles cfg = false) : Goto cfg s .main (.barrier (.wait woken))
  | wakeBarrier (hmain : s.main = .barrier (.wait true)) : Goto cfg s .main (.barrier .arm)
  | armGate (hmain : s.main = .gate .arm) : Goto cfg s .main (.gate (.check false))
  | pumpsIn {woken : Bool} (hmain : s.main = .gate (.check woken))
    (hpumps : s.allPumps cfg = true) : Goto cfg s .main .select
  | pumpsOut {woken : Bool} (hmain : s.main = .gate (.check woken))
    (hpumps : s.allPumps cfg = false) : Goto cfg s .main (.gate (.wait woken))
  | wakeGate (hmain : s.main = .gate (.wait true)) : Goto cfg s .main (.gate .arm)
  | drained {pumps : List Output} {next : Main} (hnext : AfterDrain cfg s.main next)
    (hdrain : s.drain = some pumps) (hended : ∀ o ∈ pumps, s.pumpEnded o = true) :
    Goto cfg s .main next
  | exit {code : Option Int32} (hmain : s.main = .exiting) (hreaper : s.reaper = some code) :
    Goto cfg s .main (.snapshot (code.getD (-1)))
  | snapshot {exit : Int32} (hmain : s.main = .snapshot exit) :
    Goto cfg s .main
      (.finishing exit (s.byRole STDOUT) (s.byRole STDERR) (s.byRole ERROR))
  | close (hmain : s.main = .grace) (hloop : s.readLoop = .ended) : Goto cfg s .main .done
  | detachAttach (hattach : cfg.attach = true) (hfired : s.detached = .fired)
    (hmain : s.main.waits = true) : Goto cfg s .detached (.snapshot 0)
  | detachExec (hattach : cfg.attach = false) (hfired : s.detached = .fired)
    (hmain : s.main = .select) : Goto cfg s .detached (.draining none)
  | reaped {code : Option Int32} (hattach : cfg.attach = false) (hmain : s.main = .select)
    (hreaper : s.reaper = some code) : Goto cfg s .reaped (.draining (some (code.getD (-1))))
  | barrierTimeout {g : Gate} (hmain : s.main = .barrier g) : Goto cfg s .timeout (.gate .arm)
  | gateTimeout {g : Gate} (hmain : s.main = .gate g) : Goto cfg s .timeout .select
  | graceTimeout (hmain : s.main = .grace) : Goto cfg s .timeout .done

/-- The steps there are. -/
inductive Step (cfg : Config) (s : State) : Label → State → Prop
  | client {f : Received} (heof : s.eof = false) :
    Step cfg s (.client f) { s with inbox := s.inbox ++ [f] }
  | halfClose : Step cfg s .halfClose { s with eof := true }
  | hangUp : Step cfg s .hangUp { s with eof := true, gone := true }
  | process {a : ProcessAction} {w : World}
    (ha : cfg.session.all (fun session => a.within session) = true) (hw : s.world.step a = some w) :
    Step cfg s (.process a) { s with world := w }
  | opening {id : UInt32} {hdr : Headers} {inbox : List Received} (hloop : s.readLoop = .reading)
    (hinbox : s.inbox = .frame (.synStream id hdr) :: inbox) :
    Step cfg s .readLoop { s with inbox := inbox, readLoop := .replying id (role hdr) }
  | stdin {id : UInt32} {flags : UInt8} {data : Bytes} {inbox : List Received}
    (hloop : s.readLoop = .reading) (hinbox : s.inbox = .frame (.data id flags data) :: inbox)
    (hrole : s.roles id = some STDIN) (hstdin : s.stdin = true) :
    Step cfg s .readLoop
      { s with inbox := inbox, readLoop := .writing (.start data) (flags &&& FLAG_FIN != 0) }
  | data {id : UInt32} {flags : UInt8} {data : Bytes} {inbox : List Received}
    (hloop : s.readLoop = .reading) (hinbox : s.inbox = .frame (.data id flags data) :: inbox)
    (hrole : s.roles id = some STDIN → s.stdin = false) :
    Step cfg s .readLoop
      (halfClose cfg { s with inbox := inbox } (s.roles id) (flags &&& FLAG_FIN != 0))
  | ping {id : UInt32} {inbox : List Received} (hloop : s.readLoop = .reading)
    (hinbox : s.inbox = .frame (.ping id) :: inbox) :
    Step cfg s .readLoop { s with inbox := inbox, out := s.out ++ [.ping id] }
  | quit {f : Received} {inbox : List Received} (hloop : s.readLoop = .reading)
    (hinbox : s.inbox = f :: inbox) (hf : quits f = true) :
    Step cfg s .readLoop { s with inbox := inbox, readLoop := .leaving }
  | eof (hloop : s.readLoop = .reading) (hinbox : s.inbox = []) (heof : s.eof = true) :
    Step cfg s .readLoop { s with readLoop := .leaving }
  | reply {id : UInt32} {role : UInt8} (hloop : s.readLoop = .replying id role) :
    Step cfg s .readLoop
      { s with readLoop := .inserting id role, out := s.out ++ [.synReply id] }
  | insert {id : UInt32} {role : UInt8} (hloop : s.readLoop = .inserting id role) :
    Step cfg s .readLoop
      { s with
        readLoop := .telling id role
        roles := update s.roles id (some role)
        byRole := update s.byRole role (some id) }
  | tell {id : UInt32} {role : UInt8} (hloop : s.readLoop = .telling id role) :
    Step cfg s .readLoop { s with readLoop := .spawning id role, main := s.main.notify }
  | spawn {id : UInt32} {role : UInt8} {o : Output} (hloop : s.readLoop = .spawning id role)
    (ho : outputOf role = some o) (hraw : s.raw o = true) :
    Step cfg s .readLoop
      { s with
        readLoop := .pushing o
        raw := update s.raw o false
        pumps := update s.pumps o (some (.reading id)) }
  | noSpawn {id : UInt32} {role : UInt8} (hloop : s.readLoop = .spawning id role)
    (ho : ∀ o, outputOf role = some o → s.raw o = false) :
    Step cfg s .readLoop { s with readLoop := .reading }
  | push {o : Output} (hloop : s.readLoop = .pushing o) :
    Step cfg s .readLoop { s with readLoop := .tellingPump, tasks := s.tasks ++ [o] }
  | tellPump (hloop : s.readLoop = .tellingPump) :
    Step cfg s .readLoop { s with readLoop := .reading, main := s.main.notify }
  | leave (hloop : s.readLoop = .leaving) :
    Step cfg s .readLoop { s with readLoop := .ended, detached := s.detached.notify }
  | accept {f : FileWrite} {fin : Bool} {n : Nat} {w : World} (hloop : s.readLoop = .writing f fin)
    (hw : s.world.accept f n = some w) :
    Step cfg s (.accept n) { s with world := w, readLoop := .writing (f.wrote n) fin }
  | broken {f : FileWrite} {fin : Bool} (hloop : s.readLoop = .writing f fin)
    (hclosed : s.world.stdin.closed = true) (hhanded : f.handed ≠ []) :
    Step cfg s .broken (wrote cfg s fin)
  | flushed {f : FileWrite} {fin : Bool} (hloop : s.readLoop = .writing f fin)
    (hleft : f.left = []) : Step cfg s .flushed (wrote cfg s fin)
  | pumpRead {o : Output} {n : Nat} {id : UInt32} (hpump : s.pumps o = some (.reading id))
    (hn : 0 < n) (hbuf : n ≤ (s.world.out o).buf.length) :
    Step cfg s (.pumpRead o n)
      { s with
        pumps := update s.pumps o (some (.sending id (s.world.taken o n)))
        world := s.world.drain o n }
  | pumpSend {o : Output} {id : UInt32} {bytes : Bytes}
    (hpump : s.pumps o = some (.sending id bytes)) :
    Step cfg s (.pumpSend o)
      { s with
        pumps := update s.pumps o (some (.reading id))
        out := s.out ++ [.data id 0 bytes] }
  | pumpFail {o : Output} {id : UInt32} {bytes : Bytes}
    (hpump : s.pumps o = some (.sending id bytes)) (hgone : s.gone = true) :
    Step cfg s (.pumpFail o) { s with pumps := update s.pumps o (some (.ended id)) }
  | pumpEof {o : Output} {id : UInt32} (hpump : s.pumps o = some (.reading id))
    (hend : (s.world.out o).atEnd) :
    Step cfg s (.pumpEof o) { s with pumps := update s.pumps o (some (.ended id)) }
  | reap {session : StreamSession} {code : Option Int32} (hsession : cfg.session = some session)
    (hreaper : s.reaper = none) (hcode : session.waiter.returns s.world.proc code) :
    Step cfg s (.reap code) { s with reaper := some code }
  | arm (hmain : s.main = .arming) :
    Step cfg s .main { s with main := .barrier .arm, detached := .waiting }
  | take {next : Main} (hnext : AfterDrain cfg s.main next) (hdrain : s.drain = none) :
    Step cfg s .main { s with drain := some s.tasks, tasks := [] }
  | finish {exit : Int32} {stdout stderr error : Option UInt32}
    (hmain : s.main = .finishing exit stdout stderr error) :
    Step cfg s .main { s with main := .grace, out := s.out ++ fins exit stdout stderr error }
  | goto {l : Label} {m : Main} (hgoto : Goto cfg s l m) : Step cfg s l { s with main := m }

section

variable {cfg : Config} {s s' : State} {l : Label}

theorem AfterDrain.inv {m n : Main} (h : AfterDrain cfg m n) :
    (cfg.attach = true ∧ m = .select ∧ n = .snapshot 0) ∨
      (cfg.attach = false ∧ m = .select ∧ n = .exiting) ∨ (m = .draining none ∧ n = .exiting) ∨
        ∃ exit, m = .draining (some exit) ∧ n = .snapshot exit := by
  cases h with
  | attach h => exact .inl ⟨h, rfl, rfl⟩
  | exec h => exact .inr (.inl ⟨h, rfl, rfl⟩)
  | detached => exact .inr (.inr (.inl ⟨rfl, rfl⟩))
  | reaped => exact .inr (.inr (.inr ⟨_, rfl, rfl⟩))

theorem AfterDrain.target {m n : Main} (h : AfterDrain cfg m n) :
    n = .exiting ∨ ∃ exit, n = .snapshot exit := by
  cases h with
  | attach => exact .inr ⟨_, rfl⟩
  | exec => exact .inl rfl
  | detached => exact .inl rfl
  | reaped => exact .inr ⟨_, rfl⟩

theorem readStep_cases (h : readStep cfg s = some s') : Step cfg s .readLoop s' := by
  unfold readStep at h
  split at h
  · rename_i hloop
    split at h
    · rename_i f inbox hinbox
      obtain rfl := Option.some.inj h
      unfold handle
      split
      · exact .opening hloop hinbox
      · rename_i id flags data
        dsimp only
        split
        · rename_i hrole
          exact .stdin hloop hinbox hrole.1 hrole.2
        · rename_i hrole
          exact .data hloop hinbox fun h => Bool.eq_false_iff.mpr fun hs => hrole ⟨h, hs⟩
      · exact .ping hloop hinbox
      · exact .quit hloop hinbox rfl
      · exact .quit hloop hinbox rfl
      · exact .quit hloop hinbox rfl
    · rename_i hinbox
      split at h
      · rename_i heof
        obtain rfl := Option.some.inj h
        exact .eof hloop hinbox heof
      · cases h
  · rename_i hloop
    obtain rfl := Option.some.inj h
    exact .reply hloop
  · rename_i hloop
    obtain rfl := Option.some.inj h
    exact .insert hloop
  · rename_i hloop
    obtain rfl := Option.some.inj h
    exact .tell hloop
  · rename_i id role hloop
    split at h
    · rename_i o ho
      split at h
      · rename_i hraw
        obtain rfl := Option.some.inj h
        exact .spawn hloop ho hraw
      · rename_i hraw
        obtain rfl := Option.some.inj h
        refine .noSpawn hloop fun o' ho' => ?_
        obtain rfl := Option.some.inj (ho.symm.trans ho')
        exact Bool.eq_false_iff.mpr hraw
    · rename_i ho
      obtain rfl := Option.some.inj h
      exact .noSpawn hloop fun o' ho' => by cases ho.symm.trans ho'
  · rename_i hloop
    obtain rfl := Option.some.inj h
    exact .push hloop
  · rename_i hloop
    obtain rfl := Option.some.inj h
    exact .tellPump hloop
  · cases h
  · rename_i hloop
    obtain rfl := Option.some.inj h
    exact .leave hloop
  · cases h

theorem drainStep_cases {next : Main} (hnext : AfterDrain cfg s.main next)
    (h : drainStep s next = some s') : Step cfg s .main s' := by
  unfold drainStep at h
  split at h
  · rename_i hdrain
    obtain rfl := Option.some.inj h
    exact .take hnext hdrain
  · rename_i pumps hdrain
    split at h
    · rename_i hended
      obtain rfl := Option.some.inj h
      exact .goto (.drained hnext hdrain (List.all_eq_true.mp hended))
    · cases h

theorem mainStep_cases (h : mainStep cfg s = some s') : Step cfg s .main s' := by
  unfold mainStep at h
  split at h
  · rename_i hmain
    obtain rfl := Option.some.inj h
    exact .arm hmain
  · rename_i hmain
    obtain rfl := Option.some.inj h
    exact .goto (.armBarrier hmain)
  · rename_i woken hmain
    obtain rfl := Option.some.inj h
    split
    · rename_i hroles
      exact .goto (.rolesIn hmain hroles)
    · rename_i hroles
      exact .goto (.rolesOut hmain (Bool.eq_false_iff.mpr hroles))
  · rename_i woken hmain
    split at h
    · rename_i hwoken
      obtain rfl := Option.some.inj h
      rw [hwoken] at hmain
      exact .goto (.wakeBarrier hmain)
    · cases h
  · rename_i hmain
    obtain rfl := Option.some.inj h
    exact .goto (.armGate hmain)
  · rename_i woken hmain
    obtain rfl := Option.some.inj h
    split
    · rename_i hpumps
      exact .goto (.pumpsIn hmain hpumps)
    · rename_i hpumps
      exact .goto (.pumpsOut hmain (Bool.eq_false_iff.mpr hpumps))
  · rename_i woken hmain
    split at h
    · rename_i hwoken
      obtain rfl := Option.some.inj h
      rw [hwoken] at hmain
      exact .goto (.wakeGate hmain)
    · cases h
  · rename_i hmain
    refine drainStep_cases ?_ h
    rw [hmain]
    split
    · rename_i hattach
      exact .attach hattach
    · rename_i hattach
      exact .exec (Bool.eq_false_iff.mpr hattach)
  · rename_i exit hmain
    refine drainStep_cases ?_ h
    rw [hmain]
    cases exit with
    | none => exact .detached
    | some exit => exact .reaped
  · rename_i hmain
    obtain ⟨code, hreaper, rfl⟩ := Option.map_eq_some_iff.mp h
    exact .goto (.exit hmain hreaper)
  · rename_i exit hmain
    obtain rfl := Option.some.inj h
    exact .goto (.snapshot hmain)
  · rename_i hmain
    obtain rfl := Option.some.inj h
    exact .finish hmain
  · rename_i hmain
    split at h
    · rename_i hloop
      obtain rfl := Option.some.inj h
      exact .goto (.close hmain hloop)
    · cases h
  · cases h

theorem detachStep_cases (h : detachStep cfg s = some s') : Step cfg s .detached s' := by
  unfold detachStep at h
  split at h
  · rename_i hfired
    split at h
    · rename_i g hmain
      split at h
      · rename_i hattach
        obtain rfl := Option.some.inj h
        exact .goto (.detachAttach hattach hfired (by rw [hmain]; rfl))
      · cases h
    · rename_i g hmain
      split at h
      · rename_i hattach
        obtain rfl := Option.some.inj h
        exact .goto (.detachAttach hattach hfired (by rw [hmain]; rfl))
      · cases h
    · rename_i hmain
      obtain rfl := Option.some.inj h
      split
      · rename_i hattach
        exact .goto (.detachAttach hattach hfired (by rw [hmain]; rfl))
      · rename_i hattach
        exact .goto (.detachExec (Bool.eq_false_iff.mpr hattach) hfired hmain)
    · cases h
  · cases h

theorem reapedStep_cases (h : reapedStep cfg s = some s') : Step cfg s .reaped s' := by
  unfold reapedStep at h
  split at h
  · rename_i code hmain hreaper
    split at h
    · cases h
    · rename_i hattach
      obtain rfl := Option.some.inj h
      exact .goto (.reaped (Bool.eq_false_iff.mpr hattach) hmain hreaper)
  · cases h

theorem timeoutStep_cases (h : timeoutStep s = some s') : Step cfg s .timeout s' := by
  unfold timeoutStep at h
  split at h
  · rename_i hmain
    obtain rfl := Option.some.inj h
    exact .goto (.barrierTimeout hmain)
  · rename_i hmain
    obtain rfl := Option.some.inj h
    exact .goto (.gateTimeout hmain)
  · rename_i hmain
    obtain rfl := Option.some.inj h
    exact .goto (.graceTimeout hmain)
  · cases h

theorem taskStep_cases (h : taskStep cfg s l = some s') : Step cfg s l s' := by
  cases l with
  | readLoop => exact readStep_cases h
  | accept n =>
    unfold taskStep at h
    dsimp only at h
    split at h
    · rename_i hloop
      obtain ⟨w, hw, rfl⟩ := Option.map_eq_some_iff.mp h
      exact .accept hloop hw
    · cases h
  | broken =>
    unfold taskStep at h
    dsimp only at h
    split at h
    · rename_i hloop
      split at h
      · rename_i hcond
        obtain rfl := Option.some.inj h
        exact .broken hloop hcond.1 hcond.2
      · cases h
    · cases h
  | flushed =>
    unfold taskStep at h
    dsimp only at h
    split at h
    · rename_i hloop
      split at h
      · rename_i hleft
        obtain rfl := Option.some.inj h
        exact .flushed hloop hleft
      · cases h
    · cases h
  | pumpRead o n =>
    unfold taskStep at h
    dsimp only at h
    split at h
    · rename_i hpump
      split at h
      · rename_i hcond
        obtain rfl := Option.some.inj h
        exact .pumpRead hpump hcond.1 hcond.2.2
      · cases h
    · cases h
  | pumpSend o =>
    unfold taskStep at h
    dsimp only at h
    split at h
    · rename_i hpump
      obtain rfl := Option.some.inj h
      exact .pumpSend hpump
    · cases h
  | pumpFail o =>
    unfold taskStep at h
    dsimp only at h
    split at h
    · rename_i hpump
      split at h
      · rename_i hgone
        obtain rfl := Option.some.inj h
        exact .pumpFail hpump hgone
      · cases h
    · cases h
  | pumpEof o =>
    unfold taskStep at h
    dsimp only at h
    split at h
    · rename_i hpump
      split at h
      · rename_i hend
        obtain rfl := Option.some.inj h
        exact .pumpEof hpump hend
      · cases h
    · cases h
  | reap code =>
    unfold taskStep at h
    dsimp only at h
    split at h
    · rename_i hsession
      split at h
      · rename_i hcond
        obtain rfl := Option.some.inj h
        exact .reap hsession hcond.1 hcond.2
      · cases h
    · cases h
  | main => exact mainStep_cases h
  | detached => exact detachStep_cases h
  | reaped => exact reapedStep_cases h
  | timeout => exact timeoutStep_cases h
  | client => cases h
  | halfClose => cases h
  | hangUp => cases h
  | process => cases h

/-- **Every step is one of these.** -/
theorem step_cases (h : step cfg s l = some s') : Step cfg s l s' := by
  unfold step at h
  split at h
  · split at h
    · rename_i heof
      obtain rfl := Option.some.inj h
      exact .client heof
    · cases h
  · obtain rfl := Option.some.inj h
    exact .halfClose
  · obtain rfl := Option.some.inj h
    exact .hangUp
  · split at h
    · rename_i ha
      obtain ⟨w, hw, rfl⟩ := Option.map_eq_some_iff.mp h
      exact .process ha hw
    · cases h
  · split at h
    · cases h
    · exact taskStep_cases h

end

end LightrCri.Spdy.Exec

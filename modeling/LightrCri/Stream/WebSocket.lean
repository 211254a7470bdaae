import LightrCri.Foundations.Runs
import LightrCri.Stream.Process

/-!
# The WebSocket driver

The state machine of `run_session`: the select loop, the process of the session, and the client. A
label is what happens next: which arm of the loop is taken, how much a read or a write moves, what
the client or the process does. The write of a payload to stdin is awaited inside the arm that
received it, so the loop reads no output before the write has ended.

The client takes what is sent to it, so a send is one step with what leads to it; a resize acts on
the terminal only, and is not followed here.
-/

namespace LightrCri.Stream.WebSocket

open Foundations Spdy Function

/-! ## State -/

/-- What the client sends. -/
inductive Message
  | binary (data : Bytes)
  | text (data : Bytes)
  | ping
  | pong
  | close
  /-- A transport error. -/
  | error
  deriving DecidableEq, Repr

/-- What is sent to the client. -/
inductive Sent
  | frame (channel : UInt8) (payload : Bytes)
  | close
  deriving DecidableEq, Repr

inductive Pc
  | select
  /-- In `handle_inbound`, writing a payload to stdin. -/
  | writing (f : FileWrite)
  /-- Waiting for the end of the process. -/
  | waiting
  | done
  deriving DecidableEq, Repr

structure State where
  pc : Pc
  /-- `stdout_open` and `stderr_open`. -/
  isOpen : Output → Bool
  world : World
  /-- What the client has sent and the driver has not yet received. -/
  inbox : List Message
  /-- The client has closed its socket. -/
  closed : Bool
  sent : List Sent

/-- The channel of the first frame. -/
def lowest (session : StreamSession) : UInt8 := if session.stdout then STDOUT else STDERR

/-- The session was opened. -/
def init (session : StreamSession) (world : World) : State where
  pc := .select
  isOpen := session.has
  world := world
  inbox := []
  closed := false
  sent := [.frame (lowest session) []]

/-- The session could not be opened. -/
def refused (message : String) (world : World) : State where
  pc := .done
  isOpen _ := false
  world := world
  inbox := []
  closed := false
  sent := [.frame ERROR (utf8 message), .close]

/-- `run_session` once the factory has answered. -/
def start (opened : Except String StreamSession) (world : World) : State :=
  match opened with
  | .ok session => init session world
  | .error message => refused message world

/-! ## Steps -/

inductive Label
  | client (m : Message)
  /-- The client's socket is gone. -/
  | hangUp
  | recv
  | read (o : Output) (n : Nat)
  /-- An output ends: no bytes, or for a terminal an error. -/
  | eof (o : Output)
  /-- Stdin takes `n` bytes of the payload. -/
  | accept (n : Nat)
  /-- Stdin is closed. -/
  | broken
  | flushed
  /-- The waiter returns. -/
  | waited (code : Option Int32)
  | process (a : ProcessAction)
  deriving DecidableEq, Repr

/-- The steps of the driver. -/
def Label.driver : Label → Bool
  | .client _ => false
  | .hangUp => false
  | .process _ => false
  | _ => true

/-- The end of an iteration of the loop. -/
def State.next (s : State) : State :=
  { s with pc := if s.isOpen .stdout = false ∧ s.isOpen .stderr = false then .waiting else .select }

variable (session : StreamSession) (base64 : Bool)

/-- The channel and the payload of an inbound frame. -/
def decode (frame : Bytes) : Option (UInt8 × Bytes) :=
  if base64 then decodeBase64 frame else decodeBinary frame

/-- The payload that a frame brings for stdin. -/
def stdinPayload (frame : Bytes) : Option Bytes :=
  match decode base64 frame with
  | some (ch, payload) => if ch = STDIN then some payload else none
  | none => none

/-- `handle_inbound`, up to the write. -/
def handleInbound (s : State) (frame : Bytes) : State :=
  match stdinPayload base64 frame with
  | some payload =>
    if session.stdin then { s with pc := .writing (.start payload) } else s.next
  | none => s.next

/-- The arm of `socket.recv()`. -/
def recv (s : State) : Option State :=
  match s.inbox with
  | .binary data :: inbox => some (handleInbound session base64 { s with inbox := inbox } data)
  | .text data :: inbox => some (handleInbound session base64 { s with inbox := inbox } data)
  | .ping :: inbox => some { s with inbox := inbox }.next
  | .pong :: inbox => some { s with inbox := inbox }.next
  | .close :: inbox => some { s with inbox := inbox, pc := .waiting }
  | .error :: inbox => some { s with inbox := inbox, pc := .waiting }
  | [] => if s.closed then some { s with pc := .waiting } else none

/-- What is sent when the waiter has returned; an error of the waiter counts as -1. -/
def verdict (code : Option Int32) : List Sent :=
  [.frame ERROR (exitStatusJson (code.getD (-1))), .close]

def step (s : State) : Label → Option State
  | .client m =>
    if s.closed = false then
      some { s with inbox := s.inbox ++ [m], closed := m = .close ∨ m = .error }
    else none
  | .hangUp => some { s with closed := true }
  | .recv => if s.pc = .select then recv session base64 s else none
  | .read o n =>
    if s.pc = .select ∧ s.isOpen o = true ∧ 0 < n ∧ n ≤ 8192 ∧ n ≤ (s.world.out o).buf.length then
      some { s with
        world := s.world.drain o n
        sent := s.sent ++ [.frame o.channel (s.world.taken o n)] }
    else none
  | .eof o =>
    if s.pc = .select ∧ s.isOpen o = true ∧ (s.world.out o).atEnd then
      some { s with isOpen := update s.isOpen o false }.next
    else none
  | .accept n =>
    match s.pc with
    | .writing f => (s.world.accept f n).map fun w => { s with world := w, pc := .writing (f.wrote n) }
    | _ => none
  | .broken =>
    match s.pc with
    | .writing f =>
      if s.world.stdin.closed = true ∧ f.handed ≠ [] then
        -- only `write_all` is checked, and it has returned if all was handed over
        some (if f.rest = [] then s.next else { s with pc := .waiting })
      else none
    | _ => none
  | .flushed =>
    match s.pc with
    | .writing f => if f.left = [] then some s.next else none
    | _ => none
  | .waited code =>
    if s.pc = .waiting ∧ session.waiter.returns s.world.proc code then
      some { s with pc := .done, sent := s.sent ++ verdict code }
    else none
  | .process a =>
    if a.within session then (s.world.step a).map fun w => { s with world := w } else none

/-! ## What a step does -/

/-- The payload that a message brings for stdin. -/
def Message.stdin : Message → Option Bytes
  | .binary data => stdinPayload base64 data
  | .text data => stdinPayload base64 data
  | _ => none

/-- The client leaves with the message. -/
def Message.leaves : Message → Bool
  | .close => true
  | .error => true
  | _ => false

/-- The steps there are. -/
inductive Step (s : State) : Label → State → Prop
  | client (m : Message) (hopen : s.closed = false) :
    Step s (.client m) { s with inbox := s.inbox ++ [m], closed := m = .close ∨ m = .error }
  | hangUp : Step s .hangUp { s with closed := true }
  | stdin {m : Message} {inbox : List Message} {payload : Bytes} (hpc : s.pc = .select)
    (hinbox : s.inbox = m :: inbox) (hm : m.stdin base64 = some payload)
    (hstdin : session.stdin = true) :
    Step s .recv { s with inbox := inbox, pc := .writing (.start payload) }
  | skip {m : Message} {inbox : List Message} (hpc : s.pc = .select)
    (hinbox : s.inbox = m :: inbox) (hm : m.stdin base64 = none ∨ session.stdin = false)
    (hleaves : m.leaves = false) :
    Step s .recv { s with inbox := inbox }.next
  | leave {inbox : List Message} (hpc : s.pc = .select)
    (hinbox : (∃ m, s.inbox = m :: inbox ∧ m.leaves = true ∧ m.stdin base64 = none) ∨
      s.inbox = inbox ∧ inbox = [] ∧ s.closed = true) :
    Step s .recv { s with inbox := inbox, pc := .waiting }
  | read {o : Output} {n : Nat} (hpc : s.pc = .select) (ho : s.isOpen o = true) (hn : 0 < n)
    (hbuf : n ≤ (s.world.out o).buf.length) :
    Step s (.read o n)
      { s with
        world := s.world.drain o n
        sent := s.sent ++ [.frame o.channel (s.world.taken o n)] }
  | eof {o : Output} (hpc : s.pc = .select) (ho : s.isOpen o = true)
    (hend : (s.world.out o).atEnd) :
    Step s (.eof o) { s with isOpen := update s.isOpen o false }.next
  | accept {f : FileWrite} {n : Nat} {w : World} (hpc : s.pc = .writing f)
    (hw : s.world.accept f n = some w) :
    Step s (.accept n) { s with world := w, pc := .writing (f.wrote n) }
  | lost {f : FileWrite} (hpc : s.pc = .writing f) (hclosed : s.world.stdin.closed = true)
    (hhanded : f.handed ≠ []) (hrest : f.rest = []) : Step s .broken s.next
  | failed {f : FileWrite} (hpc : s.pc = .writing f) (hclosed : s.world.stdin.closed = true)
    (hhanded : f.handed ≠ []) (hrest : f.rest ≠ []) : Step s .broken { s with pc := .waiting }
  | flushed {f : FileWrite} (hpc : s.pc = .writing f) (hleft : f.left = []) :
    Step s .flushed s.next
  | waited {code : Option Int32} (hpc : s.pc = .waiting)
    (hcode : session.waiter.returns s.world.proc code) :
    Step s (.waited code) { s with pc := .done, sent := s.sent ++ verdict code }
  | process {a : ProcessAction} {w : World} (ha : a.within session = true)
    (hw : s.world.step a = some w) : Step s (.process a) { s with world := w }

variable {session base64} {s s' : State} {l : Label}

theorem handleInbound_cases {m : Message} {inbox : List Message} {frame : Bytes}
    (hpc : s.pc = .select) (hinbox : s.inbox = m :: inbox)
    (hm : m.stdin base64 = stdinPayload base64 frame) (hleaves : m.leaves = false) :
    Step session base64 s .recv (handleInbound session base64 { s with inbox := inbox } frame) := by
  unfold handleInbound
  split
  · rename_i payload hpayload
    split
    · rename_i hstdin
      exact .stdin hpc hinbox (hm.trans hpayload) hstdin
    · rename_i hstdin
      exact .skip hpc hinbox (.inr (Bool.eq_false_iff.mpr hstdin)) hleaves
  · rename_i hpayload
    exact .skip hpc hinbox (.inl (hm.trans hpayload)) hleaves

theorem recv_cases (hpc : s.pc = .select) (h : recv session base64 s = some s') :
    Step session base64 s .recv s' := by
  unfold recv at h
  split at h
  · rename_i hinbox
    obtain rfl := Option.some.inj h
    exact handleInbound_cases hpc hinbox rfl rfl
  · rename_i hinbox
    obtain rfl := Option.some.inj h
    exact handleInbound_cases hpc hinbox rfl rfl
  · rename_i hinbox
    obtain rfl := Option.some.inj h
    exact .skip hpc hinbox (.inl rfl) rfl
  · rename_i hinbox
    obtain rfl := Option.some.inj h
    exact .skip hpc hinbox (.inl rfl) rfl
  · rename_i hinbox
    obtain rfl := Option.some.inj h
    exact .leave hpc (.inl ⟨_, hinbox, rfl, rfl⟩)
  · rename_i hinbox
    obtain rfl := Option.some.inj h
    exact .leave hpc (.inl ⟨_, hinbox, rfl, rfl⟩)
  · rename_i hinbox
    split at h
    · rename_i hclosed
      obtain rfl := Option.some.inj h
      have hstep : Step session base64 s .recv _ := .leave hpc (.inr ⟨hinbox, rfl, hclosed⟩)
      rwa [← hinbox] at hstep
    · cases h

/-- **Every step is one of these.** -/
theorem step_cases (h : step session base64 s l = some s') : Step session base64 s l s' := by
  cases l with
  | client m =>
    unfold step at h
    dsimp only at h
    split at h
    · rename_i hopen
      obtain rfl := Option.some.inj h
      exact .client m hopen
    · cases h
  | hangUp =>
    obtain rfl := Option.some.inj h
    exact .hangUp
  | recv =>
    unfold step at h
    dsimp only at h
    split at h
    · rename_i hpc
      exact recv_cases hpc h
    · cases h
  | read o n =>
    unfold step at h
    dsimp only at h
    split at h
    · rename_i hcond
      obtain rfl := Option.some.inj h
      exact .read hcond.1 hcond.2.1 hcond.2.2.1 hcond.2.2.2.2
    · cases h
  | eof o =>
    unfold step at h
    dsimp only at h
    split at h
    · rename_i hcond
      obtain rfl := Option.some.inj h
      exact .eof hcond.1 hcond.2.1 hcond.2.2
    · cases h
  | accept n =>
    unfold step at h
    dsimp only at h
    split at h
    · rename_i f hpc
      obtain ⟨w, hw, rfl⟩ := Option.map_eq_some_iff.mp h
      exact .accept hpc hw
    · cases h
  | broken =>
    unfold step at h
    dsimp only at h
    split at h
    · rename_i f hpc
      split at h
      · rename_i hcond
        obtain rfl := Option.some.inj h
        by_cases hrest : f.rest = []
        · rw [if_pos hrest]
          exact .lost hpc hcond.1 hcond.2 hrest
        · rw [if_neg hrest]
          exact .failed hpc hcond.1 hcond.2 hrest
      · cases h
    · cases h
  | flushed =>
    unfold step at h
    dsimp only at h
    split at h
    · rename_i f hpc
      split at h
      · rename_i hleft
        obtain rfl := Option.some.inj h
        exact .flushed hpc hleft
      · cases h
    · cases h
  | waited code =>
    unfold step at h
    dsimp only at h
    split at h
    · rename_i hcond
      obtain rfl := Option.some.inj h
      exact .waited hcond.1 hcond.2
    · cases h
  | process a =>
    unfold step at h
    dsimp only at h
    split at h
    · rename_i ha
      obtain ⟨w, hw, rfl⟩ := Option.map_eq_some_iff.mp h
      exact .process ha hw
    · cases h

/-! ## Finishing -/

/-- The driver can finish by its own steps. -/
def Finishes (session : StreamSession) (base64 : Bool) (s : State) : Prop :=
  Reaches (step session base64) (fun l => l.driver = true) s fun s' => s'.pc = .done

end LightrCri.Stream.WebSocket

import LightrCri.Foundations.Runs
import LightrCri.Spdy.Connection
import Mathlib.Logic.Function.Basic

/-!
# SPDY port-forward

The state machine of `run_portforward`: the loop, the TCP connections it dials, and the pumps that
carry what comes from them to the client. A label is what the environment does next: the client's
next frame, the end of a dial, the progress of a write to a connection, what a connection delivers.
The loop dials and writes inline, so it reads no frame before these have ended.

A connection is named by the data stream for which it was dialed and its place among the
connections dialed for that stream. Header blocks come decoded (`readLoop`), and the client takes
what is written to it.
-/

namespace LightrCri.Spdy.Portforward

open Foundations LightrCri.Stream Function

/-! ## State -/

abbrev ConnId := UInt32 × Nat

structure Pair where
  port : UInt16
  dataStream : Option UInt32
  errorStream : Option UInt32
  /-- The connection whose write half the pair holds. -/
  tcp : Option ConnId
  deriving DecidableEq, Repr

/-- A dialed connection. -/
structure Conn where
  port : UInt16
  /-- What it has taken of what was written to it. -/
  written : Bytes
  /-- Its write half is shut down. -/
  shut : Bool
  /-- The pump of its read half runs. -/
  pump : Bool
  deriving DecidableEq, Repr

/-- Where the loop is. -/
inductive Pc
  | reading
  | dialing (id : UInt32) (key : String)
  /-- In `write_all` to a connection, with the bytes it has not yet taken. -/
  | writing (id : UInt32) (c : ConnId) (rest : Bytes) (fin : Bool)
  | done
  deriving DecidableEq, Repr

structure State where
  pc : Pc
  pairs : String → Option Pair
  dataRoute : UInt32 → Option String
  conns : UInt32 → List Conn
  out : List Outbound
  /-- The pumps were aborted. -/
  aborted : Bool

def init : State where
  pc := .reading
  pairs _ := none
  dataRoute _ := none
  conns _ := []
  out := []
  aborted := false

/-! ## Steps -/

inductive Label
  | recv (f : Received)
  /-- The dial for a stream ends. -/
  | dialed (id : UInt32) (ok : Bool)
  /-- The connection takes `n` bytes of the write for a stream. -/
  | accept (id : UInt32) (n : Nat)
  /-- The write for a stream ends, because all is taken or with an error. -/
  | flushed (id : UInt32) (ok : Bool)
  | fromTcp (c : ConnId) (bytes : Bytes)
  | eofTcp (c : ConnId)
  /-- The deadline of the drain after the loop. -/
  | deadline
  deriving DecidableEq, Repr

def headerPort (hdr : Headers) : UInt16 := ((get hdr "port").bind parseU16).getD 0

/-- The key of the pair: the request, or the port if the header is absent. -/
def reqId (hdr : Headers) : String :=
  (get hdr "requestID").getD ("port-" ++ toString (headerPort hdr).toNat)

def isError (hdr : Headers) : Bool := (get hdr "streamType").getD "" = "error"

/-- The pair of a stream that is opened. -/
def entry (pairs : String → Option Pair) (hdr : Headers) : Pair :=
  let pair := (pairs (reqId hdr)).getD ⟨headerPort hdr, none, none, none⟩
  if pair.port = 0 then { pair with port := headerPort hdr } else pair

theorem entry_tcp (pairs : String → Option Pair) (hdr : Headers) :
    (entry pairs hdr).tcp = (pairs (reqId hdr)).bind Pair.tcp := by
  unfold entry
  cases pairs (reqId hdr) <;> dsimp only [Option.getD] <;> split <;> rfl

theorem entry_errorStream (pairs : String → Option Pair) (hdr : Headers) :
    (entry pairs hdr).errorStream = (pairs (reqId hdr)).bind Pair.errorStream := by
  unfold entry
  cases pairs (reqId hdr) <;> dsimp only [Option.getD] <;> split <;> rfl

/-- The arm of SYN_STREAM, up to the dial. -/
def synStream (s : State) (id : UInt32) (hdr : Headers) : State :=
  let pair := entry s.pairs hdr
  let out := s.out ++ [.synReply id]
  if isError hdr then
    { s with
      pairs := update s.pairs (reqId hdr) (some { pair with errorStream := some id })
      out := out }
  else
    { s with
      pc := .dialing id (reqId hdr)
      pairs := update s.pairs (reqId hdr) (some { pair with dataStream := some id })
      dataRoute := update s.dataRoute id (some (reqId hdr))
      out := out }

/-- The connection to which the data of a stream is routed. -/
def route (s : State) (id : UInt32) : Option ConnId :=
  ((s.dataRoute id).bind s.pairs).bind Pair.tcp

/-- The arm of DATA, up to the write. -/
def data (s : State) (id : UInt32) (flags : UInt8) (data : Bytes) : State :=
  match route s id with
  | some c => { s with pc := .writing id c data (flags &&& FLAG_FIN != 0) }
  | none => s

/-- What is written to the client when the dial fails. -/
def refusal (id : UInt32) (errorStream : Option UInt32) : List Outbound :=
  errorStream.toList.map (.data · FLAG_FIN (utf8 "dial failed")) ++
    [.rst id RST_REFUSED_STREAM] ++ errorStream.toList.map (.rst · RST_REFUSED_STREAM)

/-- The connections after a pair's write half is dropped, which shuts it down. -/
def dropped (conns : UInt32 → List Conn) : Option ConnId → UInt32 → List Conn
  | some c => update conns c.1 ((conns c.1).modify c.2 fun k => { k with shut := true })
  | none => conns

/-- Dropping a write half ends no connection and adds none. -/
theorem length_dropped (conns : UInt32 → List Conn) (tcp : Option ConnId) (id : UInt32) :
    (dropped conns tcp id).length = (conns id).length := by
  unfold dropped
  split
  · rw [update_apply]
    split
    · rename_i heq
      rw [heq, List.length_modify]
    · rfl
  · rfl

/-- The connections after a dial: the new one comes last, and the write half that the pair held
is dropped. -/
def connected (s : State) (id : UInt32) (pair : Pair) : UInt32 → List Conn :=
  let conns := dropped s.conns pair.tcp
  update conns id (conns id ++ [⟨pair.port, [], false, true⟩])

/-- The end of the dial for the stream. The pair is there since the stream was opened. -/
def dialed (s : State) (id : UInt32) (key : String) (ok : Bool) : State :=
  match s.pairs key with
  | none => { s with pc := .reading }
  | some pair =>
    if ok then
      { s with
        pc := .reading
        pairs := update s.pairs key (some { pair with tcp := some (id, (s.conns id).length) })
        conns := connected s id pair }
    else { s with pc := .reading, out := s.out ++ refusal id pair.errorStream }

theorem dialed_pc (s : State) (id : UInt32) (key : String) (ok : Bool) :
    (dialed s id key ok).pc = .reading := by
  unfold dialed
  split
  · rfl
  · split <;> rfl

/-- A connection is changed. -/
def setConn (s : State) (c : ConnId) (f : Conn → Conn) : State :=
  { s with conns := update s.conns c.1 ((s.conns c.1).modify c.2 f) }

def getConn (s : State) (c : ConnId) : Option Conn := (s.conns c.1)[c.2]?

theorem getConn_setConn (s : State) (c c' : ConnId) (f : Conn → Conn) :
    getConn (setConn s c f) c' = if c' = c then (getConn s c).map f else getConn s c' := by
  unfold getConn setConn
  dsimp only
  rw [update_apply]
  by_cases hid : c'.1 = c.1
  · rw [if_pos hid, List.getElem?_modify]
    by_cases hidx : c.2 = c'.2
    · have hc : c' = c := Prod.ext hid hidx.symm
      simp [hc]
    · have hc : c' ≠ c := fun h => hidx (h ▸ rfl)
      simp [hidx, hc, hid]
  · have hc : c' ≠ c := fun h => hid (h ▸ rfl)
    rw [if_neg hid, if_neg hc]

/-- The write half of the connection is shut down. -/
def isShut (s : State) (c : ConnId) : Bool := (getConn s c).any Conn.shut

def step (s : State) : Label → Option State
  | .recv f =>
    if s.pc = .reading then
      match f with
      | .frame (.synStream id hdr) => some (synStream s id hdr)
      | .frame (.data id flags bytes) => some (data s id flags bytes)
      | .frame (.ping id) => some { s with out := s.out ++ [.ping id] }
      | .rstStream _ => some { s with pc := .done }
      | .goAway => some { s with pc := .done }
      | .closed => some { s with pc := .done }
    else none
  | .dialed id ok =>
    match s.pc with
    | .dialing id' key => if id = id' then some (dialed s id key ok) else none
    | _ => none
  | .accept id n =>
    match s.pc with
    | .writing id' c rest fin =>
      if id = id' ∧ 0 < n ∧ n ≤ rest.length ∧ isShut s c = false then
        some { setConn s c fun k => { k with written := k.written ++ rest.take n } with
          pc := .writing id c (rest.drop n) fin }
      else none
    | _ => none
  | .flushed id ok =>
    match s.pc with
    | .writing id' c rest fin =>
      if id = id' ∧ (ok → rest = []) then
        some { setConn s c fun k => { k with shut := k.shut || fin } with pc := .reading }
      else none
    | _ => none
  | .fromTcp c bytes =>
    if s.aborted = false ∧ (getConn s c).any Conn.pump ∧ bytes ≠ [] then
      some { s with out := s.out ++ [.data c.1 0 bytes] }
    else none
  | .eofTcp c =>
    if s.aborted = false ∧ (getConn s c).any Conn.pump then
      some { setConn s c fun k => { k with pump := false } with
        out := s.out ++ [.data c.1 FLAG_FIN []] }
    else none
  | .deadline => if s.pc = .done then some { s with aborted := true } else none

/-! ## What a step does -/

/-- The client or the transport ends the loop with the frame. -/
def ends : Received → Bool
  | .frame _ => false
  | _ => true

/-- The steps there are. -/
inductive Step (s : State) : Label → State → Prop
  | opened {id : UInt32} {hdr : Headers} (hpc : s.pc = .reading) :
    Step s (.recv (.frame (.synStream id hdr))) (synStream s id hdr)
  | data {id : UInt32} {flags : UInt8} {bytes : Bytes} (hpc : s.pc = .reading) :
    Step s (.recv (.frame (.data id flags bytes))) (data s id flags bytes)
  | ping {id : UInt32} (hpc : s.pc = .reading) :
    Step s (.recv (.frame (.ping id))) { s with out := s.out ++ [.ping id] }
  | quit {f : Received} (hpc : s.pc = .reading) (hf : ends f = true) :
    Step s (.recv f) { s with pc := .done }
  | dialed {id : UInt32} {key : String} {ok : Bool} (hpc : s.pc = .dialing id key) :
    Step s (.dialed id ok) (dialed s id key ok)
  | accept {id : UInt32} {c : ConnId} {rest : Bytes} {fin : Bool} {n : Nat}
    (hpc : s.pc = .writing id c rest fin) (hn : 0 < n ∧ n ≤ rest.length)
    (hshut : isShut s c = false) :
    Step s (.accept id n)
      { setConn s c fun k => { k with written := k.written ++ rest.take n } with
        pc := .writing id c (rest.drop n) fin }
  | flushed {id : UInt32} {c : ConnId} {rest : Bytes} {fin ok : Bool}
    (hpc : s.pc = .writing id c rest fin) (hok : ok = true → rest = []) :
    Step s (.flushed id ok)
      { setConn s c fun k => { k with shut := k.shut || fin } with pc := .reading }
  | fromTcp {c : ConnId} {bytes : Bytes} (habort : s.aborted = false)
    (hpump : (getConn s c).any Conn.pump = true) (hbytes : bytes ≠ []) :
    Step s (.fromTcp c bytes) { s with out := s.out ++ [.data c.1 0 bytes] }
  | eofTcp {c : ConnId} (habort : s.aborted = false)
    (hpump : (getConn s c).any Conn.pump = true) :
    Step s (.eofTcp c)
      { setConn s c fun k => { k with pump := false } with
        out := s.out ++ [.data c.1 FLAG_FIN []] }
  | deadline (hpc : s.pc = .done) : Step s .deadline { s with aborted := true }

theorem step_cases {s s' : State} {l : Label} (h : step s l = some s') : Step s l s' := by
  cases l with
  | recv f =>
    unfold step at h
    dsimp only at h
    split at h
    · rename_i hpc
      split at h <;> obtain rfl := Option.some.inj h
      · exact .opened hpc
      · exact .data hpc
      · exact .ping hpc
      · exact .quit hpc rfl
      · exact .quit hpc rfl
      · exact .quit hpc rfl
    · cases h
  | dialed id ok =>
    unfold step at h
    dsimp only at h
    split at h
    · rename_i id' key hpc
      split at h
      · rename_i heq
        obtain rfl := Option.some.inj h
        subst heq
        exact .dialed hpc
      · cases h
    · cases h
  | accept id n =>
    unfold step at h
    dsimp only at h
    split at h
    · rename_i id' c rest fin hpc
      split at h
      · rename_i hcond
        obtain ⟨rfl, hpos, hle, hshut⟩ := hcond
        obtain rfl := Option.some.inj h
        exact .accept hpc ⟨hpos, hle⟩ hshut
      · cases h
    · cases h
  | flushed id ok =>
    unfold step at h
    dsimp only at h
    split at h
    · rename_i id' c rest fin hpc
      split at h
      · rename_i hcond
        obtain ⟨rfl, hok⟩ := hcond
        obtain rfl := Option.some.inj h
        exact .flushed hpc hok
      · cases h
    · cases h
  | fromTcp c bytes =>
    unfold step at h
    dsimp only at h
    split at h
    · rename_i hcond
      obtain rfl := Option.some.inj h
      exact .fromTcp hcond.1 hcond.2.1 hcond.2.2
    · cases h
  | eofTcp c =>
    unfold step at h
    dsimp only at h
    split at h
    · rename_i hcond
      obtain rfl := Option.some.inj h
      exact .eofTcp hcond.1 hcond.2
    · cases h
  | deadline =>
    unfold step at h
    dsimp only at h
    split at h
    · rename_i hpc
      obtain rfl := Option.some.inj h
      exact .deadline hpc
    · cases h

end LightrCri.Spdy.Portforward

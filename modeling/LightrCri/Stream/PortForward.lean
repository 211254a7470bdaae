import LightrCri.Foundations.Runs
import LightrCri.Stream.Channel
import Mathlib.Data.List.Nodup

/-!
# Port forwarding over a WebSocket

`run_ws`: the ports of the query get two channels each, a connection is dialed with the first frame
on a data channel, and a loop passes frames to the connections and what the backends send to the
client. The order in which a hash map is iterated is that of the list that stands for it.

A port has its own channels as long as there are no more than 128 ports (`numbering_iff`): beyond
that the numbers wrap around in the byte of a channel, and no request is refused.
-/

namespace LightrCri.Stream.PortForward

open Foundations Spdy Function

/-! ## The ports of a query -/

/-- White space of Unicode, which `str::trim` takes away. -/
def isWhiteSpace (c : Char) : Bool :=
  let n := c.toNat
  9 ≤ n ∧ n ≤ 13 ∨ n = 0x20 ∨ n = 0x85 ∨ n = 0xa0 ∨ n = 0x1680 ∨ 0x2000 ≤ n ∧ n ≤ 0x200a ∨
    n = 0x2028 ∨ n = 0x2029 ∨ n = 0x202f ∨ n = 0x205f ∨ n = 0x3000

def trimText (s : String) : String :=
  String.ofList ((s.toList.dropWhile isWhiteSpace).reverse.dropWhile isWhiteSpace).reverse

/-- `str::split_once('=')`. -/
def splitOnce (s : String) : Option (String × String) :=
  let key := s.toList.takeWhile (· ≠ '=')
  match s.toList.dropWhile (· ≠ '=') with
  | [] => none
  | _ :: value => some (String.ofList key, String.ofList value)

/-- The ports that the query names. -/
def parsePorts (query : String) : List UInt16 :=
  (split '&' query).flatMap fun pair =>
    match splitOnce pair with
    | none => []
    | some (k, v) =>
      if k = "port" ∨ k = "ports" then
        (split ',' v).filterMap fun tok => parseU16 (trimText tok)
      else []

/-! ## Channels -/

/-- `(i * 2) as u8`. -/
def dataCh (i : Nat) : UInt8 := UInt8.ofNat (i * 2)

/-- `(i * 2 + 1) as u8`. -/
def errCh (i : Nat) : UInt8 := UInt8.ofNat (i * 2 + 1)

/-- `u16::to_le_bytes`. -/
def prefixOf (port : UInt16) : Bytes := [port.toUInt8, (port >>> 8).toUInt8]

structure PortConn where
  port : UInt16
  /-- The number of the connection. -/
  stream : Option Nat
  deriving DecidableEq, Repr

/-- A hash map, in the order of its iteration. -/
abbrev Conns := List (UInt8 × PortConn)

/-- `HashMap::insert`. -/
def insertConn (ch : UInt8) (conn : PortConn) : Conns → Conns
  | [] => [(ch, conn)]
  | (ch', conn') :: conns =>
    if ch' = ch then (ch, conn) :: conns else (ch', conn') :: insertConn ch conn conns

/-- The entries of the ports from the place `i` on. -/
def numberFrom (conns : Conns) : Nat → List UInt16 → Conns
  | _, [] => conns
  | i, p :: ports => numberFrom (insertConn (dataCh i) ⟨p, none⟩ conns) (i + 1) ports

/-- The frames in which the ports from the place `i` on are announced. -/
def announceFrom : Nat → List UInt16 → List Bytes
  | _, [] => []
  | i, p :: ports =>
    (dataCh i :: prefixOf p) :: (errCh i :: prefixOf p) :: announceFrom (i + 1) ports

/-! ## The loop -/

/-- A connection to a backend. -/
structure Tcp where
  channel : UInt8
  port : UInt16
  /-- What the backend has sent and the loop has not read. -/
  inbound : Bytes
  /-- The backend has finished, or reading fails. -/
  ended : Bool
  /-- What was written to the backend. -/
  delivered : Bytes
  /-- The write half is shut down. -/
  shut : Bool
  deriving DecidableEq, Repr

/-- Bytes of a frame are written to a connection. -/
structure Write where
  channel : UInt8
  port : UInt16
  bytes : Bytes
  deriving DecidableEq, Repr

structure State where
  conns : Conns
  tcp : List Tcp
  /-- The frames to the client. -/
  sent : List Bytes
  /-- The payloads received on a data channel, one behind the other. -/
  received : UInt8 → Bytes
  writes : List Write
  /-- The loop goes on. -/
  live : Bool

def lookupConn (ch : UInt8) : Conns → Option PortConn
  | [] => none
  | (ch', conn) :: conns => if ch' = ch then some conn else lookupConn ch conns

def setStream (ch : UInt8) (stream : Option Nat) (conns : Conns) : Conns :=
  conns.map fun p => if p.1 = ch then (p.1, { p.2 with stream := stream }) else p

inductive Label
  /-- A binary frame: whether a dial succeeds, and how many bytes are written before an error. -/
  | binary (frame : Bytes) (dialed : Bool) (failsAfter : Option Nat)
  /-- Another message. -/
  | other
  /-- A close frame, or the end of the socket. -/
  | close
  | recvError
  /-- `read_any` is done, with so many bytes or the end; whether the frame can be sent. -/
  | read (n : Nat) (sends : Bool)
  | backend (k : Nat) (bytes : Bytes)
  | backendEnds (k : Nat)
  deriving DecidableEq, Repr

/-- The connection of the channel, dialed if there is none. -/
def State.connect (s : State) (ch : UInt8) (conn : PortConn) (dialed : Bool) : State × Option Nat :=
  match conn.stream with
  | some k => (s, some k)
  | none =>
    if dialed then
      ({ s with
          conns := setStream ch (some s.tcp.length) s.conns
          tcp := s.tcp ++ [⟨ch, conn.port, [], false, [], false⟩] }, some s.tcp.length)
    else ({ s with sent := s.sent ++ [(ch + 1) :: utf8 "dial failed"] }, none)

def State.deliver (s : State) (ch : UInt8) (k : Nat) (c : Tcp) (bytes : Bytes) : State :=
  { s with
    tcp := s.tcp.set k { c with delivered := c.delivered ++ bytes }
    writes := s.writes ++ [⟨ch, c.port, bytes⟩] }

/-- `write_all` to a connection. -/
def State.writeAll (s : State) (ch : UInt8) (k : Nat) (payload : Bytes) (failsAfter : Option Nat) :
    State :=
  match s.tcp[k]? with
  | none => s
  | some c =>
    match failsAfter with
    | none => s.deliver ch k c payload
    | some n =>
      { s.deliver ch k c (payload.take n) with conns := setStream ch none s.conns }

/-- A payload is noted. -/
def State.receive (s : State) (ch : UInt8) (payload : Bytes) : State :=
  { s with received := update s.received ch (s.received ch ++ payload) }

/-- A payload is written to the connection of the channel. -/
def State.passOn (s : State) (ch : UInt8) (conn : PortConn) (payload : Bytes) (dialed : Bool)
    (failsAfter : Option Nat) : State :=
  match s.connect ch conn dialed with
  | (s, none) => s
  | (s, some k) => s.writeAll ch k payload failsAfter

/-- A binary frame is received. -/
def State.onBinary (s : State) (frame : Bytes) (dialed : Bool) (failsAfter : Option Nat) : State :=
  match frame with
  | [] => s
  | ch :: payload =>
    if ch % 2 = 0 then
      match lookupConn ch s.conns with
      | none => s
      | some conn => (s.receive ch payload).passOn ch conn payload dialed failsAfter
    else s

/-- The stream that `read_any` reads: the first that is connected. -/
def readAny : Conns → Option (UInt8 × Nat)
  | [] => none
  | (ch, conn) :: conns =>
    match conn.stream with
    | some k => some (ch, k)
    | none => readAny conns

def State.setTcp (s : State) (k : Nat) (f : Tcp → Tcp) : State :=
  { s with tcp := s.tcp.modify k f }

/-- The write halves of all connected streams are shut down. -/
def State.shutAll (s : State) : State :=
  { s with tcp := s.tcp.mapIdx fun k c =>
      if s.conns.any fun p => p.2.stream = some k then { c with shut := true } else c }

def step (s : State) (l : Label) : Option State :=
  match l with
  | .backend k bytes =>
    match s.tcp[k]? with
    | some c => if c.ended then none else some (s.setTcp k fun c => { c with inbound := c.inbound ++ bytes })
    | none => none
  | .backendEnds k => some (s.setTcp k fun c => { c with ended := true })
  | .binary frame dialed failsAfter =>
    if s.live then some (s.onBinary frame dialed failsAfter) else none
  | .other => if s.live then some s else none
  | .close => if s.live then some { s.shutAll with live := false } else none
  | .recvError => if s.live then some { s with live := false } else none
  | .read n sends =>
    if s.live then
      match readAny s.conns with
      | none => none
      | some (ch, k) =>
        match s.tcp[k]? with
        | none => none
        | some c =>
          if 0 < n ∧ n ≤ 8192 ∧ n ≤ c.inbound.length then
            some { s.setTcp k fun c => { c with inbound := c.inbound.drop n } with
              sent := s.sent ++ [ch :: c.inbound.take n]
              live := sends }
          else if c.inbound = [] ∧ c.ended then some { s with conns := setStream ch none s.conns }
          else none
    else none

/-- `run_ws` with the ports, as its loop begins; the map is iterated in the order of `conns`. -/
def init (ports : List UInt16) (conns : Conns) : State where
  conns := conns
  tcp := []
  sent := announceFrom 0 ports
  received _ := []
  writes := []
  -- without ports the socket is closed at once
  live := ports ≠ []

/-! ## The map -/

section

variable {ch : UInt8} {conn : PortConn} {conns : Conns} {q : UInt8 × PortConn}

theorem mem_of_lookupConn (h : lookupConn ch conns = some conn) : (ch, conn) ∈ conns := by
  induction conns with
  | nil => cases h
  | cons q conns ih =>
    obtain ⟨ch', conn'⟩ := q
    rw [lookupConn] at h
    split at h
    · rename_i heq
      rw [heq, Option.some.inj h]
      exact List.mem_cons_self
    · exact List.mem_cons_of_mem _ (ih h)

theorem exists_lookupConn (h : (ch, conn) ∈ conns) :
    ∃ conn', lookupConn ch conns = some conn' := by
  induction conns with
  | nil => exact absurd h List.not_mem_nil
  | cons q conns ih =>
    obtain ⟨ch', conn'⟩ := q
    rw [lookupConn]
    split
    · exact ⟨conn', rfl⟩
    · rename_i hne
      rcases List.mem_cons.mp h with heq | h
      · exact absurd (congrArg Prod.fst heq).symm hne
      · exact ih h

/-- An entry after a connection is entered: the port is as it was. -/
theorem mem_setStream {stream : Option Nat} (h : q ∈ setStream ch stream conns) :
    ∃ q' ∈ conns, q.1 = q'.1 ∧ q.2.port = q'.2.port ∧
      q.2.stream = if q'.1 = ch then stream else q'.2.stream := by
  obtain ⟨q', hq', rfl⟩ := List.mem_map.mp h
  refine ⟨q', hq', ?_⟩
  split
  · exact ⟨rfl, rfl, rfl⟩
  · exact ⟨rfl, rfl, rfl⟩

theorem mem_setStream_of_mem {stream : Option Nat} (h : (ch, conn) ∈ conns) (ch' : UInt8) :
    ∃ conn', (ch, conn') ∈ setStream ch' stream conns := by
  by_cases heq : ch = ch'
  · exact ⟨_, List.mem_map.mpr ⟨_, h, if_pos heq⟩⟩
  · exact ⟨_, List.mem_map.mpr ⟨_, h, if_neg heq⟩⟩

theorem mem_insertConn (h : q ∈ insertConn ch conn conns) : q = (ch, conn) ∨ q ∈ conns := by
  induction conns with
  | nil => exact .inl (List.mem_singleton.mp h)
  | cons q' conns ih =>
    rw [insertConn] at h
    split at h
    · rcases List.mem_cons.mp h with rfl | h
      · exact .inl rfl
      · exact .inr (List.mem_cons_of_mem _ h)
    · rcases List.mem_cons.mp h with rfl | h
      · exact .inr List.mem_cons_self
      · rcases ih h with rfl | h
        · exact .inl rfl
        · exact .inr (List.mem_cons_of_mem _ h)

theorem mem_insertConn_self (ch : UInt8) (conn : PortConn) (conns : Conns) :
    (ch, conn) ∈ insertConn ch conn conns := by
  induction conns with
  | nil => exact List.mem_cons_self
  | cons q conns ih =>
    rw [insertConn]
    split
    · exact List.mem_cons_self
    · exact List.mem_cons_of_mem _ ih

/-- A channel stays in the map. -/
theorem key_insertConn {ch' : UInt8} (h : ∃ conn', (ch', conn') ∈ conns) :
    ∃ conn', (ch', conn') ∈ insertConn ch conn conns := by
  induction conns with
  | nil =>
    obtain ⟨conn', h⟩ := h
    exact absurd h List.not_mem_nil
  | cons q conns ih =>
    obtain ⟨conn', h⟩ := h
    rw [insertConn]
    split
    · rename_i heq
      rcases List.mem_cons.mp h with rfl | h
      · exact ⟨conn, heq ▸ List.mem_cons_self⟩
      · exact ⟨conn', List.mem_cons_of_mem _ h⟩
    · rcases List.mem_cons.mp h with rfl | h
      · exact ⟨conn', List.mem_cons_self⟩
      · obtain ⟨conn'', h⟩ := ih ⟨conn', h⟩
        exact ⟨conn'', List.mem_cons_of_mem _ h⟩

theorem keys_setStream (ch : UInt8) (stream : Option Nat) (conns : Conns) :
    (setStream ch stream conns).map Prod.fst = conns.map Prod.fst := by
  unfold setStream
  rw [List.map_map]
  refine List.map_congr_left fun p _ => ?_
  show (if p.1 = ch then _ else _ : UInt8 × PortConn).1 = p.1
  split <;> rfl

theorem nodup_insertConn (h : (conns.map Prod.fst).Nodup) :
    ((insertConn ch conn conns).map Prod.fst).Nodup := by
  induction conns with
  | nil => exact List.nodup_singleton ch
  | cons q conns ih =>
    rw [List.map_cons, List.nodup_cons] at h
    rw [insertConn]
    split
    · rename_i heq
      rw [List.map_cons, List.nodup_cons]
      exact ⟨heq ▸ h.1, h.2⟩
    · rename_i hne
      rw [List.map_cons, List.nodup_cons]
      refine ⟨fun hmem => ?_, ih h.2⟩
      obtain ⟨p, hp, heq⟩ := List.mem_map.mp hmem
      rcases mem_insertConn hp with rfl | hp
      · exact hne heq.symm
      · exact h.1 (List.mem_map.mpr ⟨p, hp, heq⟩)

theorem nodup_numberFrom {ports : List UInt16} {i : Nat} (h : (conns.map Prod.fst).Nodup) :
    ((numberFrom conns i ports).map Prod.fst).Nodup := by
  induction ports generalizing conns i with
  | nil => exact h
  | cons p ports ih => exact ih (nodup_insertConn h)

theorem mem_numberFrom {ports : List UInt16} {i : Nat} (h : q ∈ numberFrom conns i ports) :
    q ∈ conns ∨ ∃ j p, ports[j]? = some p ∧ q = (dataCh (i + j), ⟨p, none⟩) := by
  induction ports generalizing conns i with
  | nil => exact .inl h
  | cons p ports ih =>
    rcases ih h with h | ⟨j, p', hp', rfl⟩
    · rcases mem_insertConn h with rfl | h
      · exact .inr ⟨0, p, rfl, rfl⟩
      · exact .inl h
    · exact .inr ⟨j + 1, p', hp', by rw [Nat.add_right_comm, Nat.add_assoc]⟩

theorem key_numberFrom {ports : List UInt16} {i : Nat} (h : ∃ conn, (ch, conn) ∈ conns) :
    ∃ conn, (ch, conn) ∈ numberFrom conns i ports := by
  induction ports generalizing conns i with
  | nil => exact h
  | cons p ports ih => exact ih (key_insertConn h)

/-- Every port gets an entry for its channel. -/
theorem numbered_numberFrom {ports : List UInt16} {i j : Nat} (hj : j < ports.length) :
    ∃ conn, (dataCh (i + j), conn) ∈ numberFrom conns i ports := by
  induction ports generalizing conns i j with
  | nil => cases hj
  | cons p ports ih =>
    cases j with
    | zero =>
      show ∃ conn, (dataCh i, conn) ∈ numberFrom (insertConn (dataCh i) ⟨p, none⟩ conns) (i + 1) ports
      exact key_numberFrom ⟨_, mem_insertConn_self ..⟩
    | succ j =>
      rw [← Nat.add_assoc, Nat.add_right_comm]
      exact ih (Nat.lt_of_succ_lt_succ hj)

end

/-! ## The numbers -/

theorem toNat_dataCh {i : Nat} (h : i < 128) : (dataCh i).toNat = 2 * i := by
  rw [dataCh, UInt8.toNat_ofNat']
  omega

theorem toNat_errCh {i : Nat} (h : i < 128) : (errCh i).toNat = 2 * i + 1 := by
  rw [errCh, UInt8.toNat_ofNat']
  omega

theorem dataCh_inj {i j : Nat} (hi : i < 128) (hj : j < 128) (h : dataCh i = dataCh j) : i = j := by
  have hnat := congrArg UInt8.toNat h
  rw [toNat_dataCh hi, toNat_dataCh hj] at hnat
  omega

theorem errCh_inj {i j : Nat} (hi : i < 128) (hj : j < 128) (h : errCh i = errCh j) : i = j := by
  have hnat := congrArg UInt8.toNat h
  rw [toNat_errCh hi, toNat_errCh hj] at hnat
  omega

theorem dataCh_ne_errCh (i j : Nat) : dataCh i ≠ errCh j := by
  intro h
  have hnat := congrArg UInt8.toNat h
  rw [dataCh, errCh, UInt8.toNat_ofNat', UInt8.toNat_ofNat'] at hnat
  omega

theorem even_dataCh (i : Nat) : dataCh i % 2 = 0 := by
  apply UInt8.toNat_inj.mp
  rw [UInt8.toNat_mod, dataCh, UInt8.toNat_ofNat']
  show i * 2 % 2 ^ 8 % 2 = 0
  omega

/-- The frames on a channel. -/
def framesOn (ch : UInt8) (frames : List Bytes) : List Bytes :=
  frames.filter fun f => f.head? = some ch

theorem framesOn_announceFrom {ch : UInt8} {ports : List UInt16} {i : Nat}
    (h : ∀ j, j < ports.length → dataCh (i + j) ≠ ch ∧ errCh (i + j) ≠ ch) :
    framesOn ch (announceFrom i ports) = [] := by
  induction ports generalizing i with
  | nil => rfl
  | cons p ports ih =>
    obtain ⟨hdata, herr⟩ := h 0 (Nat.succ_pos _)
    rw [announceFrom, framesOn, List.filter_cons_of_neg (by simpa using hdata),
      List.filter_cons_of_neg (by simpa using herr)]
    refine ih fun j hj => ?_
    rw [Nat.add_assoc, Nat.add_comm 1 j]
    exact h (j + 1) (Nat.succ_lt_succ hj)

/-- Each channel gets the prefix of its port, once. -/
theorem announced {ports : List UInt16} {i k : Nat} {port : UInt16} (hk : ports[k]? = some port)
    (hlen : i + ports.length ≤ 128) :
    framesOn (dataCh (i + k)) (announceFrom i ports) = [dataCh (i + k) :: prefixOf port] ∧
      framesOn (errCh (i + k)) (announceFrom i ports) = [errCh (i + k) :: prefixOf port] := by
  induction ports generalizing i k with
  | nil => cases hk
  | cons p ports ih =>
    rw [List.length_cons] at hlen
    have hne : dataCh i ≠ errCh i := dataCh_ne_errCh i i
    cases k with
    | zero =>
      obtain rfl := Option.some.inj hk
      have hrest : framesOn (dataCh i) (announceFrom (i + 1) ports) = [] ∧
          framesOn (errCh i) (announceFrom (i + 1) ports) = [] := by
        refine ⟨framesOn_announceFrom fun j hj => ⟨fun h => ?_, fun h => dataCh_ne_errCh _ _ h.symm⟩,
          framesOn_announceFrom fun j hj => ⟨dataCh_ne_errCh _ _, fun h => ?_⟩⟩
        · have := dataCh_inj (by omega) (by omega) h
          omega
        · have := errCh_inj (by omega) (by omega) h
          omega
      constructor
      · rw [announceFrom, framesOn, Nat.add_zero, List.filter_cons_of_pos (by simp),
          List.filter_cons_of_neg (by simpa using hne.symm)]
        exact congrArg _ hrest.1
      · rw [announceFrom, framesOn, Nat.add_zero, List.filter_cons_of_neg (by simpa using hne),
          List.filter_cons_of_pos (by simp)]
        exact congrArg _ hrest.2
    | succ k =>
      have hlt : k < ports.length := Nat.lt_of_succ_lt_succ (List.getElem?_eq_some_iff.mp hk).1
      obtain ⟨hdata, herr⟩ := @ih (i + 1) k hk (by omega)
      rw [show i + (k + 1) = i + 1 + k by omega]
      have hother : dataCh i ≠ dataCh (i + 1 + k) ∧ errCh i ≠ errCh (i + 1 + k) := by
        refine ⟨fun h => ?_, fun h => ?_⟩
        · have := dataCh_inj (by omega) (by omega) h
          omega
        · have := errCh_inj (by omega) (by omega) h
          omega
      constructor
      · rw [announceFrom, framesOn, List.filter_cons_of_neg (by simpa using hother.1),
          List.filter_cons_of_neg (by simpa using (dataCh_ne_errCh _ _).symm)]
        exact hdata
      · rw [announceFrom, framesOn, List.filter_cons_of_neg (by simpa using dataCh_ne_errCh _ _),
          List.filter_cons_of_neg (by simpa using hother.2)]
        exact herr

/-! ## The ports of the channels, over a run -/

/-- The place of a port that has the channel. -/
def Numbers (ports : List UInt16) (ch : UInt8) (port : UInt16) : Prop :=
  ∃ i, ch = dataCh i ∧ ports[i]? = some port

/-- The channels in use have their numbers, and the connections and writes are those of their
channels. -/
structure Inv (ports : List UInt16) (s : State) : Prop where
  nodup : (s.conns.map Prod.fst).Nodup
  entry : ∀ p ∈ s.conns, Numbers ports p.1 p.2.port
  linked : ∀ p ∈ s.conns, ∀ k, p.2.stream = some k →
    ∃ c, s.tcp[k]? = some c ∧ c.channel = p.1 ∧ c.port = p.2.port
  present : ∀ i, i < ports.length → ∃ conn, (dataCh i, conn) ∈ s.conns
  wrote : ∀ w ∈ s.writes, Numbers ports w.channel w.port
  told : announceFrom 0 ports <+: s.sent

section

variable {ports : List UInt16} {s s' : State} {ch : UInt8} {conn : PortConn}

theorem Inv.init {conns : Conns} (h : conns.Perm (numberFrom [] 0 ports)) :
    Inv ports (init ports conns) where
  nodup := (h.map Prod.fst).nodup_iff.mpr (nodup_numberFrom List.nodup_nil)
  entry p hp := by
    rcases mem_numberFrom (h.mem_iff.mp hp) with hp | ⟨j, port, hj, rfl⟩
    · exact absurd hp List.not_mem_nil
    · exact ⟨j, by rw [Nat.zero_add], hj⟩
  linked p hp k hk := by
    rcases mem_numberFrom (h.mem_iff.mp hp) with hp | ⟨j, port, hj, rfl⟩
    · exact absurd hp List.not_mem_nil
    · cases hk
  present i hi := by
    obtain ⟨conn, hconn⟩ := @numbered_numberFrom [] ports 0 i hi
    rw [Nat.zero_add] at hconn
    exact ⟨conn, h.mem_iff.mpr hconn⟩
  wrote _ hw := absurd hw List.not_mem_nil
  told := List.prefix_rfl

/-- A connection is entered or taken out. -/
theorem Inv.setStream (h : Inv ports s) {stream : Option Nat}
    (hlinked : ∀ q ∈ s.conns, q.1 = ch → ∀ k, stream = some k →
      ∃ c, s.tcp[k]? = some c ∧ c.channel = ch ∧ c.port = q.2.port) :
    Inv ports { s with conns := setStream ch stream s.conns } where
  nodup := (keys_setStream ch stream s.conns).symm ▸ h.nodup
  entry p hp := by
    obtain ⟨q, hq, hch, hport, -⟩ := mem_setStream hp
    rw [hch, hport]
    exact h.entry q hq
  linked p hp k hk := by
    obtain ⟨q, hq, hch, hport, hstream⟩ := mem_setStream hp
    rw [hch, hport]
    rw [hstream] at hk
    split at hk
    · rename_i heq
      rw [heq]
      exact hlinked q hq heq k hk
    · exact h.linked q hq k hk
  present i hi := by
    obtain ⟨conn, hconn⟩ := h.present i hi
    exact mem_setStream_of_mem hconn ch
  wrote := h.wrote
  told := h.told

/-- The connections change, and keep their channels and ports. -/
theorem Inv.setTcp (h : Inv ports s) {tcp : List Tcp}
    (hkept : ∀ (k : Nat) (c : Tcp), s.tcp[k]? = some c →
      ∃ c' : Tcp, tcp[k]? = some c' ∧ c'.channel = c.channel ∧ c'.port = c.port) :
    Inv ports { s with tcp := tcp } where
  nodup := h.nodup
  entry := h.entry
  linked p hp k hk := by
    obtain ⟨c, hc, hch, hport⟩ := h.linked p hp k hk
    obtain ⟨c', hc', hch', hport'⟩ := hkept k c hc
    exact ⟨c', hc', hch'.trans hch, hport'.trans hport⟩
  present := h.present
  wrote := h.wrote
  told := h.told

theorem Inv.modify (h : Inv ports s) (k : Nat) {f : Tcp → Tcp}
    (hf : ∀ c, (f c).channel = c.channel ∧ (f c).port = c.port) : Inv ports (s.setTcp k f) := by
  refine h.setTcp fun j c hc => ?_
  rw [List.getElem?_modify, hc]
  split
  · exact ⟨f c, rfl, hf c⟩
  · exact ⟨c, rfl, rfl, rfl⟩

theorem Inv.shutAll (h : Inv ports s) : Inv ports s.shutAll := by
  refine h.setTcp fun k c hc => ?_
  rw [List.getElem?_mapIdx, hc]
  refine ⟨_, rfl, ?_⟩
  split
  · exact ⟨rfl, rfl⟩
  · exact ⟨rfl, rfl⟩

/-- What the client is sent and the loop are no matter. -/
theorem Inv.send (h : Inv ports s) (frames : List Bytes) (received : UInt8 → Bytes) (live : Bool) :
    Inv ports { s with sent := s.sent ++ frames, received := received, live := live } where
  nodup := h.nodup
  entry := h.entry
  linked := h.linked
  present := h.present
  wrote := h.wrote
  told := h.told.trans (List.prefix_append _ _)

/-- A channel has one entry. -/
theorem Inv.entry_eq (h : Inv ports s) {p q : UInt8 × PortConn} (hp : p ∈ s.conns)
    (hq : q ∈ s.conns) (heq : p.1 = q.1) : p = q :=
  List.inj_on_of_nodup_map h.nodup hp hq heq

/-- The channel of an entry is connected. -/
theorem Inv.connect (h : Inv ports s) (hconn : (ch, conn) ∈ s.conns)
    (dialed : Bool) : Inv ports (s.connect ch conn dialed).1 ∧
      ∀ k, (s.connect ch conn dialed).2 = some k →
        ∃ c, (s.connect ch conn dialed).1.tcp[k]? = some c ∧ c.channel = ch ∧ c.port = conn.port := by
  unfold State.connect
  cases hstream : conn.stream with
  | some k =>
    refine ⟨h, fun j hj => ?_⟩
    obtain rfl := Option.some.inj hj
    exact h.linked _ hconn k hstream
  | none =>
    cases dialed with
    | false => exact ⟨h.send _ _ _, fun k hk => by cases hk⟩
    | true =>
      have hnew : (s.tcp ++ [⟨ch, conn.port, [], false, [], false⟩])[s.tcp.length]? =
          some ⟨ch, conn.port, [], false, [], false⟩ := by simp
      have hkept : Inv ports
          { s with tcp := s.tcp ++ [⟨ch, conn.port, [], false, [], false⟩] } := by
        refine h.setTcp fun k c hc => ⟨c, ?_, rfl, rfl⟩
        rw [List.getElem?_append_left (List.getElem?_eq_some_iff.mp hc).1, hc]
      refine ⟨hkept.setStream fun q hq heq k hk => ?_, fun k hk => ?_⟩
      · obtain rfl := Option.some.inj hk
        exact ⟨_, hnew, rfl, congrArg (fun p => p.2.port) (h.entry_eq hconn hq heq.symm)⟩
      · obtain rfl := Option.some.inj hk
        exact ⟨_, hnew, rfl, rfl⟩

theorem Inv.deliver (h : Inv ports s) {k : Nat} {c : Tcp} (hc : s.tcp[k]? = some c)
    (hport : Numbers ports ch c.port) (bytes : Bytes) : Inv ports (s.deliver ch k c bytes) := by
  have hlt := (List.getElem?_eq_some_iff.mp hc).1
  have hkept : Inv ports
      { s with tcp := s.tcp.set k { c with delivered := c.delivered ++ bytes } } := by
    refine h.setTcp fun j d hd => ?_
    rw [List.getElem?_set]
    split
    · rename_i heq
      subst heq
      obtain rfl := Option.some.inj (hc.symm.trans hd)
      exact ⟨_, rfl, rfl, rfl⟩
    · exact ⟨d, hd, rfl, rfl⟩
  exact { hkept with
    wrote := fun w hw => by
      rcases List.mem_append.mp hw with hw | hw
      · exact h.wrote w hw
      · rw [List.mem_singleton.mp hw]
        exact hport }

theorem Inv.writeAll (h : Inv ports s) {k : Nat}
    (hk : ∀ c, s.tcp[k]? = some c → Numbers ports ch c.port) (payload : Bytes)
    (failsAfter : Option Nat) : Inv ports (s.writeAll ch k payload failsAfter) := by
  unfold State.writeAll
  split
  · exact h
  · rename_i c hc
    split
    · exact h.deliver hc (hk c hc) payload
    · exact (h.deliver hc (hk c hc) _).setStream fun _ _ _ _ hj => by cases hj

theorem Inv.receive (h : Inv ports s) (ch : UInt8) (payload : Bytes) :
    Inv ports (s.receive ch payload) := { h with }

theorem Inv.passOn (h : Inv ports s) (hconn : (ch, conn) ∈ s.conns)
    (payload : Bytes) (dialed : Bool) (failsAfter : Option Nat) :
    Inv ports (s.passOn ch conn payload dialed failsAfter) := by
  obtain ⟨hconnect, hport⟩ := h.connect hconn dialed
  unfold State.passOn
  split
  · rename_i s₁ heq
    rw [heq] at hconnect
    exact hconnect
  · rename_i s₁ k heq
    rw [heq] at hconnect hport
    refine hconnect.writeAll (fun c hc => ?_) payload failsAfter
    obtain ⟨c', hc', -, hcport⟩ := hport k rfl
    obtain rfl := Option.some.inj (hc.symm.trans hc')
    rw [hcport]
    exact h.entry _ hconn

theorem Inv.onBinary (h : Inv ports s) (frame : Bytes) (dialed : Bool)
    (failsAfter : Option Nat) : Inv ports (s.onBinary frame dialed failsAfter) := by
  unfold State.onBinary
  split
  · exact h
  · split
    · split
      · exact h
      · rename_i hlookup
        exact (h.receive _ _).passOn (mem_of_lookupConn hlookup) _ dialed failsAfter
    · exact h

theorem Inv.step (h : Inv ports s) {l : Label}
    (hstep : step s l = some s') : Inv ports s' := by
  cases l with
  | binary frame dialed failsAfter =>
    rw [PortForward.step] at hstep
    split at hstep
    · obtain rfl := Option.some.inj hstep
      exact h.onBinary frame dialed failsAfter
    · cases hstep
  | other =>
    rw [PortForward.step] at hstep
    split at hstep
    · obtain rfl := Option.some.inj hstep
      exact h
    · cases hstep
  | close =>
    rw [PortForward.step] at hstep
    split at hstep
    · obtain rfl := Option.some.inj hstep
      exact { h.shutAll with }
    · cases hstep
  | recvError =>
    rw [PortForward.step] at hstep
    split at hstep
    · obtain rfl := Option.some.inj hstep
      exact { h with }
    · cases hstep
  | read n sends =>
    rw [PortForward.step] at hstep
    split at hstep
    · split at hstep
      · cases hstep
      · rename_i ch k hread
        split at hstep
        · cases hstep
        · rename_i c hc
          split at hstep
          · obtain rfl := Option.some.inj hstep
            exact (h.modify k (f := fun c => { c with inbound := c.inbound.drop n })
              fun _ => ⟨rfl, rfl⟩).send [ch :: c.inbound.take n] s.received sends
          · split at hstep
            · obtain rfl := Option.some.inj hstep
              exact h.setStream fun _ _ _ _ hj => by cases hj
            · cases hstep
    · cases hstep
  | backend k bytes =>
    rw [PortForward.step] at hstep
    split at hstep
    · split at hstep
      · cases hstep
      · obtain rfl := Option.some.inj hstep
        exact h.modify k fun _ => ⟨rfl, rfl⟩
    · cases hstep
  | backendEnds k =>
    rw [PortForward.step] at hstep
    obtain rfl := Option.some.inj hstep
    exact h.modify k fun _ => ⟨rfl, rfl⟩

theorem Inv.run {conns : Conns} (hconns : conns.Perm (numberFrom [] 0 ports))
    {ls : List Label}
    (hrun : Foundations.run PortForward.step (PortForward.init ports conns) ls = some s) : Inv ports s :=
  invariant_run (P := fun _ _ => True) (fun _ _ _ h _ hstep => h.step hstep) (.init hconns)
    (Along.trivial _ _) hrun

end

/-! ## The numbering of a request -/

/-- The ports have channels of their own: port `i` the channels `2i` and `2i + 1`, which are
announced with its prefix, and to which alone the data on channel `2i` goes. -/
structure Numbered (ports : List UInt16) : Prop where
  channels : ∀ i, i < ports.length → (dataCh i).toNat = 2 * i ∧ (errCh i).toNat = 2 * i + 1
  distinct : ∀ i j, i < ports.length → j < ports.length →
    (dataCh i = dataCh j → i = j) ∧ (errCh i = errCh j → i = j) ∧ dataCh i ≠ errCh j
  announced : ∀ i port, ports[i]? = some port →
    framesOn (dataCh i) (announceFrom 0 ports) = [dataCh i :: prefixOf port] ∧
      framesOn (errCh i) (announceFrom 0 ports) = [errCh i :: prefixOf port]
  routed : ∀ (conns : Conns) (ls : List Label) (s : State), conns.Perm (numberFrom [] 0 ports) →
    run step (init ports conns) ls = some s →
    announceFrom 0 ports <+: s.sent ∧
      ∀ i port, ports[i]? = some port →
        (∀ w ∈ s.writes, w.channel = dataCh i → w.port = port) ∧
        ∀ payload s', step s (.binary (dataCh i :: payload) true none) = some s' →
          s'.writes = s.writes ++ [⟨dataCh i, port, payload⟩]

/-- The request is refused: no channel is announced. -/
def Refused (ports : List UInt16) : Prop := announceFrom 0 ports = []

theorem onBinary_eq {s : State} {ch : UInt8} {conn : PortConn} {payload : Bytes} {dialed : Bool}
    {failsAfter : Option Nat} (heven : ch % 2 = 0) (hlookup : lookupConn ch s.conns = some conn) :
    s.onBinary (ch :: payload) dialed failsAfter =
      (s.receive ch payload).passOn ch conn payload dialed failsAfter := by
  unfold State.onBinary
  dsimp only
  rw [if_pos heven, hlookup]

/-- With a connection, the payload is written to the port of the entry. -/
theorem Inv.writes_passOn {ports : List UInt16} {s : State} (h : Inv ports s) {ch : UInt8} {conn : PortConn} (hconn : (ch, conn) ∈ s.conns)
    {payload : Bytes} :
    (s.passOn ch conn payload true none).writes = s.writes ++ [⟨ch, conn.port, payload⟩] := by
  obtain ⟨-, hlink⟩ := h.connect hconn true
  have hwrites : (s.connect ch conn true).1.writes = s.writes := by
    unfold State.connect
    split
    · rfl
    · rfl
  have hsome : (s.connect ch conn true).2 ≠ none := by
    unfold State.connect
    split
    · exact Option.some_ne_none _
    · exact Option.some_ne_none _
  unfold State.passOn
  split
  · rename_i s₁ heq
    rw [heq] at hsome
    exact absurd rfl hsome
  · rename_i s₁ k heq
    rw [heq] at hlink hwrites
    obtain ⟨c, hc, -, hport⟩ := hlink k rfl
    unfold State.writeAll
    rw [hc]
    show s₁.writes ++ [⟨ch, c.port, payload⟩] = _
    rw [hport]
    exact congrArg (· ++ _) hwrites

/-- A frame on the channel of a port is written to a connection to the port. -/
theorem writes_binary {ports : List UInt16} {s s' : State} (h : Inv ports s)
    (hlen : ports.length ≤ 128) {i : Nat} {port : UInt16} (hport : ports[i]? = some port)
    {payload : Bytes} (hstep : step s (.binary (dataCh i :: payload) true none) = some s') :
    s'.writes = s.writes ++ [⟨dataCh i, port, payload⟩] := by
  have hlt := (List.getElem?_eq_some_iff.mp hport).1
  obtain ⟨conn₀, hconn₀⟩ := h.present i hlt
  obtain ⟨conn, hlookup⟩ := exists_lookupConn hconn₀
  have hconn := mem_of_lookupConn hlookup
  have hportconn : conn.port = port := by
    obtain ⟨j, hj, hportj⟩ := h.entry _ hconn
    have hjlt := (List.getElem?_eq_some_iff.mp hportj).1
    obtain rfl := dataCh_inj (by omega) (by omega) hj
    exact Option.some.inj (hportj.symm.trans hport)
  rw [step] at hstep
  split at hstep
  · obtain rfl := Option.some.inj hstep
    rw [onBinary_eq (even_dataCh i) hlookup, (h.receive _ _).writes_passOn hconn, hportconn]
    rfl
  · cases hstep

theorem numbered_of_le {ports : List UInt16} (hlen : ports.length ≤ 128) : Numbered ports where
  channels i hi := ⟨toNat_dataCh (by omega), toNat_errCh (by omega)⟩
  distinct i j hi hj :=
    ⟨dataCh_inj (by omega) (by omega), errCh_inj (by omega) (by omega), dataCh_ne_errCh i j⟩
  announced i port hport := by
    have h := announced (i := 0) hport (by omega)
    rwa [Nat.zero_add] at h
  routed conns ls s hconns hrun := by
    have hinv := Inv.run hconns hrun
    refine ⟨hinv.told, fun i port hport => ⟨fun w hw hch => ?_, fun payload s' hstep =>
      writes_binary hinv hlen hport hstep⟩⟩
    obtain ⟨j, hj, hportj⟩ := hinv.wrote w hw
    have hilt := (List.getElem?_eq_some_iff.mp hport).1
    have hjlt := (List.getElem?_eq_some_iff.mp hportj).1
    obtain rfl := dataCh_inj (by omega) (by omega) (hch.symm.trans hj)
    exact Option.some.inj (hportj.symm.trans hport)

theorem not_numbered {ports : List UInt16} (hlen : 128 < ports.length) : ¬ Numbered ports := by
  intro h
  have hwrap := (h.channels 128 hlen).1
  exact absurd hwrap (by decide)

theorem not_refused {ports : List UInt16} (hlen : 128 < ports.length) : ¬ Refused ports := by
  cases ports with
  | nil => cases hlen
  | cons p ports => exact fun h => by cases h

/-- **The numbering of a request**: the ports have channels of their own, and a request with more
ports than channels is refused, exactly if there are no more than 128 ports. -/
theorem numbering_iff (query : String) :
    (if (parsePorts query).length ≤ 128 then Numbered (parsePorts query)
      else Refused (parsePorts query)) ↔ (parsePorts query).length ≤ 128 := by
  by_cases hlen : (parsePorts query).length ≤ 128
  · rw [if_pos hlen]
    exact iff_of_true (numbered_of_le hlen) hlen
  · rw [if_neg hlen]
    exact iff_of_false (not_refused (Nat.lt_of_not_le hlen)) hlen

/-! ## A request with too many ports -/

/-- A query that asks for the port 0 so many times. -/
def portsQuery (n : Nat) : String :=
  String.ofList ("ports=".toList ++ [','].intercalate (List.replicate n ['0']))

theorem mem_zeros {c : Char} {n : Nat} (h : c ∈ [','].intercalate (List.replicate n ['0'])) :
    c = ',' ∨ c = '0' := by
  induction n with
  | zero => exact absurd h List.not_mem_nil
  | succ n ih =>
    cases n with
    | zero => exact .inr (List.mem_singleton.mp h)
    | succ n =>
      rw [List.replicate_succ, List.replicate_succ, List.intercalate_cons_cons] at h
      simp only [List.append_assoc, List.mem_append, List.mem_singleton] at h
      rcases h with h | h | h
      · exact .inr h
      · exact .inl h
      · exact ih h

theorem length_parsePorts_portsQuery {n : Nat} (hn : n ≠ 0) :
    (parsePorts (portsQuery n)).length = n := by
  have hstart : ∀ c ∈ "ports=".toList, (c == '&') = false := by
    have hall : ("ports=".toList.all fun c => !(c == '&')) = true := by decide
    intro c hc
    simpa using List.all_eq_true.mp hall c hc
  have hamp : split '&' (portsQuery n) = [portsQuery n] := by
    unfold split portsQuery
    rw [String.toList_ofList, List.splitOn, List.splitOnP_eq_singleton]
    · rfl
    · intro c hc
      rcases List.mem_append.mp hc with hc | hc
      · exact hstart c hc
      · rcases mem_zeros hc with rfl | rfl <;> rfl
  have hkey : splitOnce (portsQuery n) =
      some ("ports", String.ofList ([','].intercalate (List.replicate n ['0']))) := by
    unfold splitOnce portsQuery
    rw [String.toList_ofList]
    rfl
  have hzero : parseU16 (trimText (String.ofList ['0'])) = some 0 := by decide
  have hvalue : split ',' (String.ofList ([','].intercalate (List.replicate n ['0']))) =
      List.replicate n (String.ofList ['0']) := by
    unfold split
    rw [String.toList_ofList, List.splitOn_intercalate, List.map_replicate]
    · simp
    · simp [hn]
  unfold parsePorts
  rw [hamp]
  simp only [List.flatMap_cons, hkey, List.flatMap_nil, hvalue]
  simp [hzero]

/-- **Two ports on one channel**: a query of 129 ports is not refused, and the number of the last
port wraps around. -/
theorem numbering_wraps :
    (parsePorts (portsQuery 129)).length = 129 ∧ ¬ Refused (parsePorts (portsQuery 129)) := by
  obtain ⟨n, hn⟩ : ∃ n, n = 129 := ⟨_, rfl⟩
  have hlen : (parsePorts (portsQuery n)).length = n := length_parsePorts_portsQuery (by omega)
  rw [← hn]
  exact ⟨hlen, not_refused (by omega)⟩

end LightrCri.Stream.PortForward

import LightrCri.Stream.PortForward

/-!
# The connections of a data channel

The slot of a channel is filled by a dial and emptied by a failed write and by the end of what the
backend sends; a frame that finds it empty is treated as the first one. A channel has one
connection, and what is delivered to it is a prefix of what was received, as long as no frame finds
a slot that was emptied (`delivers_of_fits`).
-/

namespace LightrCri.Stream.PortForward

open Foundations Spdy Function

/-- The channels of the connections, with what was delivered to them. -/
def State.deliveries (s : State) : List (UInt8 × Bytes) := s.tcp.map fun c => (c.channel, c.delivered)

/-- No write of a frame on the channel fails. -/
def AcceptsOn (ch : UInt8) (l : Label) : Prop :=
  ∀ payload dialed n, l ≠ .binary (ch :: payload) dialed (some n)

/-- In the state, which the labels led to, a channel has one connection, to which what was received
on it is delivered: a prefix of it, and all of it if the writes are accepted. -/
structure Delivers (s : State) (ls : List Label) : Prop where
  once : (s.tcp.map Tcp.channel).Nodup
  ordered : ∀ c ∈ s.tcp, c.delivered <+: s.received c.channel
  whole : ∀ c ∈ s.tcp, (∀ l ∈ ls, AcceptsOn c.channel l) → c.delivered = s.received c.channel

/-- A frame on a data channel that finds the slot empty: if the dial succeeds, nothing was received
on the channel before and no connection dialed, and if it fails, no bytes are due to a connection.
-/
def Fits (s : State) : Label → Prop
  | .binary (ch :: payload) dialed _ =>
    ch % 2 = 0 → ∀ conn, lookupConn ch s.conns = some conn → conn.stream = none →
      if dialed then s.received ch = [] ∧ ∀ d ∈ s.deliveries, d.1 ≠ ch
      else payload = [] ∨ ∀ d ∈ s.deliveries, d.1 = ch → d.2 ≠ s.received ch
  | _ => True

/-- The slots over a run: the connection in a slot has got all that was received. -/
structure Slots (s : State) : Prop where
  once : (s.deliveries.map Prod.fst).Nodup
  ordered : ∀ d ∈ s.deliveries, d.2 <+: s.received d.1
  connected : ∀ p ∈ s.conns, ∀ k, p.2.stream = some k →
    s.deliveries[k]? = some (p.1, s.received p.1)

section

variable {ports : List UInt16} {s s' : State} {ch : UInt8} {conn : PortConn} {payload : Bytes}

theorem Slots.init {conns : Conns} (h : conns.Perm (numberFrom [] 0 ports)) :
    Slots (init ports conns) where
  once := List.nodup_nil
  ordered _ hd := absurd hd List.not_mem_nil
  connected p hp k hk := by
    rcases mem_numberFrom (h.mem_iff.mp hp) with hp | ⟨j, port, hj, rfl⟩
    · exact absurd hp List.not_mem_nil
    · cases hk

/-- What is delivered and received does not change, and no slot is filled. -/
theorem Slots.of_eq (h : Slots s) (hdeliveries : s'.deliveries = s.deliveries)
    (hreceived : s'.received = s.received)
    (hconns : ∀ p ∈ s'.conns, ∀ k, p.2.stream = some k →
      ∃ q ∈ s.conns, q.1 = p.1 ∧ q.2.stream = some k) : Slots s' where
  once := hdeliveries ▸ h.once
  ordered := by
    rw [hdeliveries, hreceived]
    exact h.ordered
  connected p hp k hk := by
    obtain ⟨q, hq, hch, hstream⟩ := hconns p hp k hk
    rw [hdeliveries, hreceived, ← hch]
    exact h.connected q hq k hstream

theorem deliveries_setTcp {f : Tcp → Tcp}
    (hf : ∀ c, (f c).channel = c.channel ∧ (f c).delivered = c.delivered) (k : Nat) :
    (s.setTcp k f).deliveries = s.deliveries := by
  unfold State.deliveries
  apply List.ext_getElem?
  intro i
  show ((s.tcp.modify k f).map _)[i]? = _
  rw [List.getElem?_map, List.getElem?_map, List.getElem?_modify]
  cases s.tcp[i]? with
  | none => rfl
  | some c =>
    split
    · exact congrArg some (Prod.ext (hf c).1 (hf c).2)
    · rfl

theorem deliveries_shutAll : s.shutAll.deliveries = s.deliveries := by
  unfold State.deliveries
  apply List.ext_getElem?
  intro i
  show ((s.tcp.mapIdx _).map _)[i]? = _
  rw [List.getElem?_map, List.getElem?_map, List.getElem?_mapIdx]
  cases s.tcp[i]? with
  | none => rfl
  | some c =>
    apply congrArg some
    dsimp only
    split
    · rfl
    · rfl

theorem deliveries_deliver {k : Nat} {c : Tcp} (bytes : Bytes) :
    (s.deliver ch k c bytes).deliveries = s.deliveries.set k (c.channel, c.delivered ++ bytes) :=
  List.map_set

/-! ## A frame -/

/-- A payload was received on the channel and is about to be written to the connection `k`. -/
structure Writing (ch : UInt8) (k : Nat) (payload : Bytes) (s : State) : Prop where
  once : (s.deliveries.map Prod.fst).Nodup
  ordered : ∀ d ∈ s.deliveries, d.1 ≠ ch → d.2 <+: s.received d.1
  connected : ∀ p ∈ s.conns, p.1 ≠ ch → ∀ j, p.2.stream = some j →
    s.deliveries[j]? = some (p.1, s.received p.1)
  slot : ∀ p ∈ s.conns, p.1 = ch → p.2.stream = some k
  due : ∃ before, s.deliveries[k]? = some (ch, before) ∧ s.received ch = before ++ payload

theorem exists_tcp_of_deliveries {k : Nat} {d : UInt8 × Bytes} (h : s.deliveries[k]? = some d) :
    ∃ c, s.tcp[k]? = some c ∧ c.channel = d.1 ∧ c.delivered = d.2 := by
  unfold State.deliveries at h
  rw [List.getElem?_map] at h
  obtain ⟨c, hc, rfl⟩ := Option.map_eq_some_iff.mp h
  exact ⟨c, hc, rfl, rfl⟩

/-- The connections keep their channels. -/
theorem map_fst_set {l : List (UInt8 × Bytes)} {k : Nat} {before after : Bytes}
    (hk : l[k]? = some (ch, before)) : (l.set k (ch, after)).map Prod.fst = l.map Prod.fst := by
  apply List.ext_getElem?
  intro i
  rw [List.getElem?_map, List.getElem?_map, List.getElem?_set]
  split
  · rename_i heq
    subst heq
    rw [hk, if_pos (List.getElem?_eq_some_iff.mp hk).1]
    rfl
  · rfl

/-- Bytes of the payload are written: all of it, or the slot is emptied. -/
theorem Writing.slots {k : Nat} {bytes : Bytes} (h : Writing ch k payload s)
    (hbytes : bytes <+: payload) (hreceived : s'.received = s.received)
    (hdeliveries : ∀ before, s.deliveries[k]? = some (ch, before) →
      s'.deliveries = s.deliveries.set k (ch, before ++ bytes))
    (hconns : ∀ p ∈ s'.conns, ∀ j, p.2.stream = some j →
      ∃ q ∈ s.conns, q.1 = p.1 ∧ q.2.stream = some j ∧ (q.1 = ch → bytes = payload)) : Slots s' := by
  obtain ⟨before, hk, hdue⟩ := h.due
  have hset := hdeliveries before hk
  have hlt := (List.getElem?_eq_some_iff.mp hk).1
  refine ⟨?_, fun d hd => ?_, fun p hp j hj => ?_⟩
  · rw [hset, map_fst_set hk]
    exact h.once
  · rw [hset] at hd
    rw [hreceived]
    rcases List.mem_or_eq_of_mem_set hd with hd | rfl
    · by_cases hch : d.1 = ch
      · obtain rfl := List.inj_on_of_nodup_map h.once hd (List.mem_of_getElem? hk) hch
        rw [hdue]
        exact List.prefix_append _ _
      · exact h.ordered d hd hch
    · rw [hdue]
      exact (List.prefix_append_right_inj before).mpr hbytes
  · obtain ⟨q, hq, hch, hstream, hall⟩ := hconns p hp j hj
    rw [hset, hreceived, ← hch]
    by_cases heq : q.1 = ch
    · obtain rfl := Option.some.inj (hstream.symm.trans (h.slot q hq heq))
      rw [List.getElem?_set_self hlt, heq, hdue, hall heq]
    · have hother := h.connected q hq heq j hstream
      have hne : k ≠ j := by
        rintro rfl
        exact heq (congrArg Prod.fst (Option.some.inj (hother.symm.trans hk)))
      rw [List.getElem?_set_ne hne, hother]

/-- The payload is written to the connection, and the slot emptied if that fails. -/
theorem Writing.writeAll {k : Nat} (h : Writing ch k payload s) (failsAfter : Option Nat) :
    Slots (s.writeAll ch k payload failsAfter) := by
  obtain ⟨before, hk, -⟩ := h.due
  obtain ⟨c, hc, hch, hdelivered⟩ := exists_tcp_of_deliveries hk
  have hset : ∀ bytes before', s.deliveries[k]? = some (ch, before') →
      (s.deliver ch k c bytes).deliveries = s.deliveries.set k (ch, before' ++ bytes) := by
    intro bytes before' hk'
    obtain ⟨-, rfl⟩ := Prod.mk.inj (Option.some.inj (hk.symm.trans hk'))
    rw [deliveries_deliver, hch, hdelivered]
  unfold State.writeAll
  rw [hc]
  cases failsAfter with
  | none =>
    exact h.slots List.prefix_rfl rfl (hset payload) fun p hp j hj => ⟨p, hp, rfl, hj, fun _ => rfl⟩
  | some n =>
    refine h.slots (List.take_prefix n payload) rfl (hset _) fun p hp j hj => ?_
    obtain ⟨q, hq, hfst, -, hstream⟩ := mem_setStream hp
    rw [hj] at hstream
    split at hstream
    · cases hstream
    · rename_i hne
      exact ⟨q, hq, hfst.symm, hstream.symm, fun heq => absurd heq hne⟩

/-! ## The stages of a frame -/

theorem passOn_connected {k : Nat} (hstream : conn.stream = some k) (dialed : Bool)
    (failsAfter : Option Nat) :
    s.passOn ch conn payload dialed failsAfter = s.writeAll ch k payload failsAfter := by
  unfold State.passOn State.connect
  rw [hstream]

/-- The state after a dial on the channel. -/
def State.dialed (s : State) (ch : UInt8) (conn : PortConn) : State :=
  { s with
    conns := setStream ch (some s.tcp.length) s.conns
    tcp := s.tcp ++ [⟨ch, conn.port, [], false, [], false⟩] }

theorem passOn_dialed (hstream : conn.stream = none) (failsAfter : Option Nat) :
    s.passOn ch conn payload true failsAfter =
      (s.dialed ch conn).writeAll ch s.tcp.length payload failsAfter := by
  unfold State.passOn State.connect
  rw [hstream]
  rfl

theorem passOn_failed (hstream : conn.stream = none) (failsAfter : Option Nat) :
    s.passOn ch conn payload false failsAfter =
      { s with sent := s.sent ++ [(ch + 1) :: utf8 "dial failed"] } := by
  unfold State.passOn State.connect
  rw [hstream]
  rfl

@[simp] theorem deliveries_receive : (s.receive ch payload).deliveries = s.deliveries := rfl

@[simp] theorem deliveries_dialed : (s.dialed ch conn).deliveries = s.deliveries ++ [(ch, [])] :=
  List.map_append

theorem received_receive : (s.receive ch payload).received ch = s.received ch ++ payload :=
  update_self ..

theorem received_receive_of_ne {ch' : UInt8} (h : ch' ≠ ch) :
    (s.receive ch payload).received ch' = s.received ch' :=
  update_of_ne h ..

/-- A frame finds its slot filled. -/
theorem Slots.writing {k : Nat} (hinv : Inv ports s) (h : Slots s) (hconn : (ch, conn) ∈ s.conns)
    (hstream : conn.stream = some k) : Writing ch k payload (s.receive ch payload) where
  once := h.once
  ordered d hd hne := by
    rw [received_receive_of_ne hne]
    exact h.ordered d hd
  connected p hp hne j hj := by
    rw [received_receive_of_ne hne]
    exact h.connected p hp j hj
  slot p hp heq := by
    rw [hinv.entry_eq hp hconn heq]
    exact hstream
  due := ⟨s.received ch, h.connected _ hconn k hstream, received_receive⟩

/-- A dial succeeds for the first frame on a channel. -/
theorem Slots.writing_dialed (h : Slots s) (hreceived : s.received ch = [])
    (hfresh : ∀ d ∈ s.deliveries, d.1 ≠ ch) :
    Writing ch s.tcp.length payload ((s.receive ch payload).dialed ch conn) where
  once := by
    rw [deliveries_dialed, List.map_append, List.nodup_append]
    refine ⟨h.once, List.nodup_singleton ch, fun x hx y hy => ?_⟩
    obtain ⟨d, hd, rfl⟩ := List.mem_map.mp hx
    rw [List.mem_singleton.mp hy]
    exact hfresh d hd
  ordered d hd hne := by
    rw [deliveries_dialed] at hd
    rcases List.mem_append.mp hd with hd | hd
    · show d.2 <+: (s.receive ch payload).received d.1
      rw [received_receive_of_ne hne]
      exact h.ordered d hd
    · exact absurd (congrArg Prod.fst (List.mem_singleton.mp hd)) hne
  connected p hp hne j hj := by
    obtain ⟨q, hq, hch, -, hstream⟩ := mem_setStream hp
    rw [if_neg (hch ▸ hne), hj] at hstream
    have hother := h.connected q hq j hstream.symm
    rw [deliveries_dialed, deliveries_receive,
      List.getElem?_append_left (List.getElem?_eq_some_iff.mp hother).1, hother, hch]
    show some (q.1, s.received q.1) = some (q.1, (s.receive ch payload).received q.1)
    rw [received_receive_of_ne (hch ▸ hne)]
  slot p hp heq := by
    obtain ⟨q, -, hch, -, hstream⟩ := mem_setStream hp
    rw [hstream, if_pos (hch ▸ heq)]
    rfl
  due := by
    refine ⟨[], ?_, ?_⟩
    · have hlen : s.deliveries.length = s.tcp.length := List.length_map _
      rw [deliveries_dialed, deliveries_receive, ← hlen, List.getElem?_concat_length]
    · show (s.receive ch payload).received ch = [] ++ payload
      rw [received_receive, hreceived]

/-- A dial fails. -/
theorem Slots.receive (hinv : Inv ports s) (h : Slots s) (hconn : (ch, conn) ∈ s.conns)
    (hstream : conn.stream = none) : Slots (s.receive ch payload) where
  once := h.once
  ordered d hd := by
    by_cases heq : d.1 = ch
    · rw [heq, received_receive, ← heq]
      exact (h.ordered d hd).trans (List.prefix_append _ _)
    · rw [received_receive_of_ne heq]
      exact h.ordered d hd
  connected p hp k hk := by
    by_cases heq : p.1 = ch
    · rw [hinv.entry_eq hp hconn heq] at hk
      rw [hstream] at hk
      cases hk
    · rw [received_receive_of_ne heq]
      exact h.connected p hp k hk

theorem Slots.passOn (hinv : Inv ports s) (h : Slots s) (heven : ch % 2 = 0)
    (hlookup : lookupConn ch s.conns = some conn) {dialed : Bool} {failsAfter : Option Nat}
    (hfits : Fits s (.binary (ch :: payload) dialed failsAfter)) :
    Slots ((s.receive ch payload).passOn ch conn payload dialed failsAfter) := by
  have hconn := mem_of_lookupConn hlookup
  cases hstream : conn.stream with
  | some k =>
    rw [passOn_connected hstream]
    exact (h.writing hinv hconn hstream).writeAll failsAfter
  | none =>
    have hslot := hfits heven conn hlookup hstream
    cases dialed with
    | true =>
      rw [passOn_dialed hstream]
      exact (h.writing_dialed hslot.1 hslot.2).writeAll failsAfter
    | false =>
      rw [passOn_failed hstream]
      exact (h.receive hinv hconn hstream).of_eq rfl rfl fun p hp k hk => ⟨p, hp, rfl, hk⟩

/-- What a frame does: nothing, or its payload is received and passed on. -/
theorem onBinary_cases (s : State) (frame : Bytes) (dialed : Bool) (failsAfter : Option Nat) :
    s.onBinary frame dialed failsAfter = s ∨
      ∃ ch payload conn, frame = ch :: payload ∧ ch % 2 = 0 ∧ lookupConn ch s.conns = some conn ∧
        s.onBinary frame dialed failsAfter =
          (s.receive ch payload).passOn ch conn payload dialed failsAfter := by
  unfold State.onBinary
  split
  · exact .inl rfl
  · rename_i ch payload
    split
    · rename_i heven
      split
      · exact .inl rfl
      · rename_i conn hlookup
        exact .inr ⟨ch, payload, conn, rfl, heven, hlookup, rfl⟩
    · exact .inl rfl

/-- What a step that receives no frame does: nothing to the deliveries, and no slot is filled. -/
theorem step_kept {l : Label} (hstep : step s l = some s')
    (hother : ∀ frame dialed failsAfter, l ≠ .binary frame dialed failsAfter) :
    s'.deliveries = s.deliveries ∧ s'.received = s.received ∧
      ∀ p ∈ s'.conns, ∀ k, p.2.stream = some k →
        ∃ q ∈ s.conns, q.1 = p.1 ∧ q.2.stream = some k := by
  have hsame : ∀ p ∈ s.conns, ∀ k, p.2.stream = some k →
      ∃ q ∈ s.conns, q.1 = p.1 ∧ q.2.stream = some k := fun p hp k hk => ⟨p, hp, rfl, hk⟩
  cases l with
  | binary frame dialed failsAfter => exact absurd rfl (hother frame dialed failsAfter)
  | other =>
    rw [step] at hstep
    split at hstep
    · obtain rfl := Option.some.inj hstep
      exact ⟨rfl, rfl, hsame⟩
    · cases hstep
  | close =>
    rw [step] at hstep
    split at hstep
    · obtain rfl := Option.some.inj hstep
      exact ⟨deliveries_shutAll, rfl, hsame⟩
    · cases hstep
  | recvError =>
    rw [step] at hstep
    split at hstep
    · obtain rfl := Option.some.inj hstep
      exact ⟨rfl, rfl, hsame⟩
    · cases hstep
  | read n sends =>
    rw [step] at hstep
    split at hstep
    · split at hstep
      · cases hstep
      · split at hstep
        · cases hstep
        · rename_i c hc
          split at hstep
          · obtain rfl := Option.some.inj hstep
            exact ⟨@deliveries_setTcp s (fun c => { c with inbound := c.inbound.drop n })
              (fun _ => ⟨rfl, rfl⟩) _, rfl, hsame⟩
          · split at hstep
            · obtain rfl := Option.some.inj hstep
              refine ⟨rfl, rfl, fun p hp j hj => ?_⟩
              obtain ⟨q, hq, hfst, -, hstream⟩ := mem_setStream hp
              rw [hj] at hstream
              split at hstream
              · cases hstream
              · exact ⟨q, hq, hfst.symm, hstream.symm⟩
            · cases hstep
    · cases hstep
  | backend k bytes =>
    rw [step] at hstep
    split at hstep
    · split at hstep
      · cases hstep
      · obtain rfl := Option.some.inj hstep
        exact ⟨@deliveries_setTcp s (fun c => { c with inbound := c.inbound ++ bytes })
          (fun _ => ⟨rfl, rfl⟩) k, rfl, hsame⟩
    · cases hstep
  | backendEnds k =>
    rw [step] at hstep
    obtain rfl := Option.some.inj hstep
    exact ⟨@deliveries_setTcp s (fun c => { c with ended := true }) (fun _ => ⟨rfl, rfl⟩) k, rfl,
      hsame⟩

theorem step_binary {frame : Bytes} {dialed : Bool} {failsAfter : Option Nat}
    (hstep : step s (.binary frame dialed failsAfter) = some s') :
    s' = s.onBinary frame dialed failsAfter := by
  rw [step] at hstep
  split at hstep
  · exact (Option.some.inj hstep).symm
  · cases hstep

theorem Slots.step {l : Label} (hinv : Inv ports s) (h : Slots s) (hfits : Fits s l)
    (hstep : PortForward.step s l = some s') : Slots s' := by
  by_cases hother : ∀ frame dialed failsAfter, l ≠ .binary frame dialed failsAfter
  · obtain ⟨hdeliveries, hreceived, hconns⟩ := step_kept hstep hother
    exact h.of_eq hdeliveries hreceived hconns
  · push Not at hother
    obtain ⟨frame, dialed, failsAfter, rfl⟩ := hother
    obtain rfl := step_binary hstep
    rcases onBinary_cases s frame dialed failsAfter with heq | ⟨ch, payload, conn, rfl, heven, hlookup, heq⟩
    · rw [heq]
      exact h
    · rw [heq]
      exact h.passOn hinv heven hlookup hfits

/-! ## The writes that are accepted -/

/-- What was received on the channel is delivered to the connections dialed on it. -/
def WholeOn (ch : UInt8) (s : State) : Prop :=
  ∀ d ∈ s.deliveries, d.1 = ch → d.2 = s.received ch

theorem Slots.wholeOn {p : UInt8 × PortConn} {k : Nat} (h : Slots s) (hp : p ∈ s.conns)
    (hstream : p.2.stream = some k) : WholeOn p.1 s := by
  intro d hd hch
  obtain rfl := List.inj_on_of_nodup_map h.once hd
    (List.mem_of_getElem? (h.connected p hp k hstream)) hch
  rfl

/-- A write on another channel. -/
theorem WholeOn.writeAll {ch' : UInt8} {k : Nat} (h : WholeOn ch' s) (hne : ch ≠ ch')
    (hk : ∀ c, s.tcp[k]? = some c → c.channel = ch) (failsAfter : Option Nat) :
    WholeOn ch' (s.writeAll ch k payload failsAfter) := by
  have hdeliver : ∀ c bytes, s.tcp[k]? = some c → WholeOn ch' (s.deliver ch k c bytes) := by
    intro c bytes hc d hd hch
    rw [deliveries_deliver] at hd
    rcases List.mem_or_eq_of_mem_set hd with hd | rfl
    · exact h d hd hch
    · exact absurd ((hk c hc).symm.trans hch) hne
  unfold State.writeAll
  split
  · exact h
  · rename_i c hc
    split
    · exact hdeliver c _ hc
    · exact hdeliver c _ hc

/-- A frame on another channel. -/
theorem WholeOn.passOn_of_ne {ch' : UInt8} (hinv : Inv ports s) (h : WholeOn ch' s) (hne : ch ≠ ch')
    (hconn : (ch, conn) ∈ s.conns) (dialed : Bool) (failsAfter : Option Nat) :
    WholeOn ch' ((s.receive ch payload).passOn ch conn payload dialed failsAfter) := by
  have hreceive : WholeOn ch' (s.receive ch payload) := fun d hd hch => by
    rw [received_receive_of_ne hne.symm]
    exact h d hd hch
  cases hstream : conn.stream with
  | some k =>
    rw [passOn_connected hstream]
    refine hreceive.writeAll hne (fun c hc => ?_) failsAfter
    obtain ⟨c', hc', hch, -⟩ := hinv.linked _ hconn k hstream
    rw [Option.some.inj (hc.symm.trans hc'), hch]
  | none =>
    cases dialed with
    | true =>
      rw [passOn_dialed hstream]
      refine WholeOn.writeAll (fun d hd hch => ?_) hne (fun c hc => ?_) failsAfter
      · rw [deliveries_dialed] at hd
        rcases List.mem_append.mp hd with hd | hd
        · exact hreceive d hd hch
        · exact absurd ((congrArg Prod.fst (List.mem_singleton.mp hd)).symm.trans hch) hne
      · have hnew : ((s.receive ch payload).dialed ch conn).tcp[s.tcp.length]? =
            some ⟨ch, conn.port, [], false, [], false⟩ := List.getElem?_concat_length
        rw [← Option.some.inj (hnew.symm.trans hc)]
    | false =>
      rw [passOn_failed hstream]
      exact hreceive

/-- A frame on the channel, whose write is accepted. -/
theorem WholeOn.passOn (hinv : Inv ports s) (hslots : Slots s) (h : WholeOn ch s) (heven : ch % 2 = 0)
    (hlookup : lookupConn ch s.conns = some conn) {dialed : Bool}
    (hfits : Fits s (.binary (ch :: payload) dialed none)) :
    WholeOn ch ((s.receive ch payload).passOn ch conn payload dialed none) := by
  have hconn := mem_of_lookupConn hlookup
  have hslots' := hslots.passOn hinv heven hlookup hfits
  have hwriteAll : ∀ (t : State) (k : Nat), (t.writeAll ch k payload none).conns = t.conns := by
    intro t k
    unfold State.writeAll
    split
    · rfl
    · rfl
  cases hstream : conn.stream with
  | some k =>
    refine hslots'.wholeOn (p := (ch, conn)) ?_ hstream
    rw [passOn_connected hstream, hwriteAll]
    exact hconn
  | none =>
    have hslot := hfits heven conn hlookup hstream
    cases dialed with
    | true =>
      refine hslots'.wholeOn (p := (ch, { conn with stream := some s.tcp.length })) ?_ rfl
      rw [passOn_dialed hstream, hwriteAll]
      exact List.mem_map.mpr ⟨_, hconn, if_pos rfl⟩
    | false =>
      rw [passOn_failed hstream]
      intro d hd hch
      show d.2 = (s.receive ch payload).received ch
      rw [received_receive]
      rcases hslot with rfl | hlost
      · rw [List.append_nil]
        exact h d hd hch
      · exact absurd (h d hd hch) (hlost d hd hch)

theorem WholeOn.step {l : Label} (hinv : Inv ports s) (hslots : Slots s) (h : WholeOn ch s)
    (hfits : Fits s l) (haccepts : AcceptsOn ch l) (hstep : PortForward.step s l = some s') :
    WholeOn ch s' := by
  by_cases hother : ∀ frame dialed failsAfter, l ≠ .binary frame dialed failsAfter
  · obtain ⟨hdeliveries, hreceived, -⟩ := step_kept hstep hother
    unfold WholeOn
    rw [hdeliveries, hreceived]
    exact h
  · push Not at hother
    obtain ⟨frame, dialed, failsAfter, rfl⟩ := hother
    obtain rfl := step_binary hstep
    rcases onBinary_cases s frame dialed failsAfter with heq | ⟨ch', payload, conn, rfl, heven, hlookup, heq⟩
    · rw [heq]
      exact h
    · rw [heq]
      by_cases hne : ch' = ch
      · subst hne
        cases failsAfter with
        | some n => exact absurd rfl (haccepts payload dialed n)
        | none => exact h.passOn hinv hslots heven hlookup hfits
      · exact h.passOn_of_ne hinv hne (mem_of_lookupConn hlookup) dialed failsAfter

end

/-- **The connections of a channel**: in every run in which no frame finds a slot that was emptied,
a channel has one connection, and what was received on it is delivered in order, and all of it as
long as the writes are accepted. -/
theorem delivers_of_fits {ports : List UInt16} {conns : Conns} {ls : List Label} {s : State}
    (hconns : conns.Perm (numberFrom [] 0 ports)) (hrun : run step (init ports conns) ls = some s)
    (hfits : Along step Fits (init ports conns) ls) : Delivers s ls := by
  have hslots : Inv ports s ∧ Slots s :=
    invariant_run (I := fun s => Inv ports s ∧ Slots s)
      (fun _ _ _ h hfits hstep => ⟨h.1.step hstep, h.2.step h.1 hfits hstep⟩)
      ⟨.init hconns, .init hconns⟩ hfits hrun
  refine ⟨?_, fun c hc => ?_, fun c hc haccepts => ?_⟩
  · have hmap : s.deliveries.map Prod.fst = s.tcp.map Tcp.channel := List.map_map
    exact hmap ▸ hslots.2.once
  · exact hslots.2.ordered _ (List.mem_map_of_mem hc)
  · have hwhole : Inv ports s ∧ Slots s ∧ WholeOn c.channel s :=
      invariant_run (I := fun s => Inv ports s ∧ Slots s ∧ WholeOn c.channel s)
        (fun _ _ _ h hl hstep =>
          ⟨h.1.step hstep, h.2.1.step h.1 hl.2 hstep, h.2.2.step h.1 h.2.1 hl.2 hl.1 hstep⟩)
        ⟨.init hconns, .init hconns, fun d hd _ => absurd hd List.not_mem_nil⟩
        (hfits.and_labels haccepts) hrun
    exact hwhole.2.2 _ (List.mem_map_of_mem hc) rfl

theorem delivers_of_fits_finished : ∃ s,
    run step (init [80] (numberFrom [] 0 [80])) [.binary [0, 7] true none, .backendEnds 0] = some s ∧
      s.tcp.length = 1 ∧ Delivers s [.binary [0, 7] true none, .backendEnds 0] := by
  refine ⟨_, rfl, rfl, @delivers_of_fits [80] _ _ _ (.refl _) rfl ⟨fun _ _ _ _ => ?_, fun _ _ => ?_⟩⟩
  · exact ⟨rfl, fun d hd => absurd hd List.not_mem_nil⟩
  · exact ⟨True.intro, fun _ _ => True.intro⟩

/-! ## A backend that has finished sending -/

/-- The backend sends nothing more, and the client sends another byte. -/
def finishedRun : List Label :=
  [.binary [0, 1] true none, .backendEnds 0, .read 0 true, .binary [0, 2] true none]

/-- **A second connection of a channel** is dialed after the end of what the backend sends. -/
theorem redialed_after_end : ∃ s,
    run step (init [80] (numberFrom [] 0 [80])) finishedRun = some s ∧
      s.tcp.map Tcp.channel = [0, 0] ∧ ¬ Delivers s finishedRun := by
  obtain ⟨s, hrun, htwice⟩ : ∃ s, run step (init [80] (numberFrom [] 0 [80])) finishedRun = some s ∧
      s.tcp.map Tcp.channel = [0, 0] := ⟨_, rfl, rfl⟩
  refine ⟨s, hrun, htwice, fun hdelivers => ?_⟩
  have honce := hdelivers.once
  rw [htwice] at honce
  exact absurd honce (by decide)

end LightrCri.Stream.PortForward

import LightrCri.Spdy.Portforward

/-!
# Isolation of port-forward pairs

What one pair of a port-forward connection sees does not depend on the others. Each stream belongs
to the pair of a request (`owner`); two runs with the same labels of one pair, and the same frames
that concern the connection as a whole, lead to states that agree on it (`isolation`), provided that
the client resets no stream of another pair: a RST_STREAM of any stream ends the loop for all
(`rst_ends_all`). A dial or a write of another pair keeps the loop from reading as long as it lasts.

The proof compares a run with the one that remains when the labels of the other pairs are left out
(`Agree`).
-/

namespace LightrCri.Spdy.Portforward

open Foundations LightrCri.Stream Function

/-! ## Labels of a pair -/

/-- The stream that a label is about; none if it is about the connection. -/
def Label.stream : Label → Option UInt32
  | .recv (.frame (.synStream id _)) => some id
  | .recv (.frame (.data id _ _)) => some id
  | .recv (.frame (.ping _)) => none
  | .recv (.rstStream id) => some id
  | .recv .goAway => none
  | .recv .closed => none
  | .dialed id _ => some id
  | .accept id _ => some id
  | .flushed id _ => some id
  | .fromTcp c _ => some c.1
  | .eofTcp c => some c.1
  | .deadline => none

/-- The stream on which the loop dials or writes. -/
def Pc.stream : Pc → Option UInt32
  | .dialing id _ => some id
  | .writing id _ _ _ => some id
  | _ => none

variable (owner : UInt32 → String) (k : String)

/-- What is about the stream concerns the pair: the stream is one of its own, or none. -/
def concerns (stream : Option UInt32) : Bool := stream.all fun id => owner id = k

/-- A stream is opened under the request that it belongs to. -/
def Keyed : Label → Prop
  | .recv (.frame (.synStream id hdr)) => reqId hdr = owner id
  | _ => True

/-- No stream of another pair is reset. -/
def NoForeignRst : Label → Prop
  | .recv (.rstStream id) => owner id = k
  | _ => True

instance (l : Label) : Decidable (Keyed owner l) := by
  cases l with
  | recv f => cases f with
    | frame f => cases f <;> unfold Keyed <;> infer_instance
    | _ => exact isTrue True.intro
  | _ => exact isTrue True.intro

/-! ## What a pair sees -/

/-- The states agree on the pair: on its record, its routes and connections, and the frames to the
client on its streams. -/
structure Same (s s' : State) : Prop where
  pair : s.pairs k = s'.pairs k
  route : ∀ id, owner id = k → s.dataRoute id = s'.dataRoute id
  conns : ∀ id, owner id = k → s.conns id = s'.conns id
  out : s.out.filter (fun f => concerns owner k f.stream) =
    s'.out.filter fun f => concerns owner k f.stream
  aborted : s.aborted = s'.aborted

/-- The loop is at the same place, or it dials or writes for another pair in the first state and
reads in the second. -/
structure Agree (s s' : State) : Prop extends Same owner k s s' where
  pc : s.pc = s'.pc ∧ concerns owner k s.pc.stream ∨
    concerns owner k s.pc.stream = false ∧ s'.pc = .reading

/-- What the loop is at belongs to one pair. -/
def Pc.Owned : Pc → Prop
  | .dialing id key => key = owner id
  | .writing id c _ _ => owner c.1 = owner id
  | _ => True

/-- Everything is recorded under the pair that it belongs to. -/
structure Owned (s : State) : Prop where
  route : ∀ id key, s.dataRoute id = some key → key = owner id
  tcp : ∀ key p c, s.pairs key = some p → p.tcp = some c → owner c.1 = key
  errorStream : ∀ key p id, s.pairs key = some p → p.errorStream = some id → owner id = key
  pc : s.pc.Owned owner

/-! ## Everything stays under its pair -/

variable {owner k}

/-- The pair that a record is replaced by keeps to what it belongs to. -/
theorem Owned.update {s : State} (h : Owned owner s) (key : String) (new : Pair)
    (htcp : ∀ c, new.tcp = some c → owner c.1 = key)
    (herr : ∀ id, new.errorStream = some id → owner id = key) :
    (∀ key' p c, update s.pairs key (some new) key' = some p → p.tcp = some c → owner c.1 = key') ∧
    ∀ key' p id, update s.pairs key (some new) key' = some p → p.errorStream = some id →
      owner id = key' := by
  constructor
  · intro key' p c hp hc
    rw [update_apply] at hp
    split at hp
    · rename_i heq
      obtain rfl := Option.some.inj hp
      rw [heq]
      exact htcp c hc
    · exact h.tcp key' p c hp hc
  · intro key' p id hp hid
    rw [update_apply] at hp
    split at hp
    · rename_i heq
      obtain rfl := Option.some.inj hp
      rw [heq]
      exact herr id hid
    · exact h.errorStream key' p id hp hid

theorem Owned.entry {s : State} (h : Owned owner s) (hdr : Headers) :
    (∀ c, (entry s.pairs hdr).tcp = some c → owner c.1 = reqId hdr) ∧
      ∀ id, (entry s.pairs hdr).errorStream = some id → owner id = reqId hdr := by
  constructor
  · intro c hc
    rw [entry_tcp] at hc
    obtain ⟨p, hp, hc⟩ := Option.bind_eq_some_iff.mp hc
    exact h.tcp _ p c hp hc
  · intro id hid
    rw [entry_errorStream] at hid
    obtain ⟨p, hp, hid⟩ := Option.bind_eq_some_iff.mp hid
    exact h.errorStream _ p id hp hid

theorem Owned.synStream {s : State} (h : Owned owner s) {id : UInt32} {hdr : Headers}
    (hkey : reqId hdr = owner id) : Owned owner (synStream s id hdr) := by
  obtain ⟨htcp, herr⟩ := h.entry hdr
  unfold Portforward.synStream
  dsimp only
  split
  · have hnew := h.update (reqId hdr)
      { Portforward.entry s.pairs hdr with errorStream := some id } htcp
      fun id' hid' => by rw [← Option.some.inj hid', hkey]
    exact ⟨h.route, hnew.1, hnew.2, h.pc⟩
  · have hnew := h.update (reqId hdr)
      { Portforward.entry s.pairs hdr with dataStream := some id } htcp herr
    refine ⟨fun id' key hr => ?_, hnew.1, hnew.2, hkey⟩
    change Function.update s.dataRoute id (some (reqId hdr)) id' = some key at hr
    rw [update_apply] at hr
    split at hr
    · rename_i heq
      rw [← Option.some.inj hr, heq, hkey]
    · exact h.route id' key hr

/-- The connection to which a stream is routed belongs to its pair. -/
theorem Owned.route_conn {s : State} (h : Owned owner s) {id : UInt32} {c : ConnId}
    (hr : Portforward.route s id = some c) : owner c.1 = owner id := by
  obtain ⟨p, hp, hc⟩ := Option.bind_eq_some_iff.mp hr
  obtain ⟨key, hkey, hp⟩ := Option.bind_eq_some_iff.mp hp
  rw [h.tcp key p c hp hc, h.route id key hkey]

theorem Owned.data {s : State} (h : Owned owner s) {id : UInt32} {flags : UInt8} {bytes : Bytes} :
    Owned owner (data s id flags bytes) := by
  unfold Portforward.data
  split
  · rename_i c hr
    exact ⟨h.route, h.tcp, h.errorStream, h.route_conn hr⟩
  · exact h

theorem Owned.dialed {s : State} (h : Owned owner s) {id : UInt32} {key : String} {ok : Bool}
    (hpc : s.pc = .dialing id key) : Owned owner (dialed s id key ok) := by
  have hkey : key = owner id := by
    have := h.pc
    rwa [hpc] at this
  unfold Portforward.dialed
  split
  · exact ⟨h.route, h.tcp, h.errorStream, True.intro⟩
  · rename_i pair hp
    split
    · have hnew := h.update key
        { pair with tcp := some (id, (s.conns id).length) }
        (fun c hc => by rw [← Option.some.inj hc, hkey])
        (fun id' hid' => h.errorStream key pair id' hp hid')
      exact ⟨h.route, hnew.1, hnew.2, True.intro⟩
    · exact ⟨h.route, h.tcp, h.errorStream, True.intro⟩

/-- **Every step leaves everything under its pair.** -/
theorem Owned.step {s s' : State} {l : Label} (h : Owned owner s) (hl : Keyed owner l)
    (hstep : step s l = some s') : Owned owner s' := by
  have hsame (pc : Pc) (hpc : pc.Owned owner) (out : List Outbound) (conns aborted) :
      Owned owner ⟨pc, s.pairs, s.dataRoute, conns, out, aborted⟩ :=
    ⟨h.route, h.tcp, h.errorStream, hpc⟩
  cases l with
  | recv f =>
    unfold Portforward.step at hstep
    dsimp only at hstep
    split at hstep
    · split at hstep <;> obtain rfl := Option.some.inj hstep
      · exact h.synStream hl
      · exact h.data
      · exact hsame _ h.pc _ _ _
      · exact hsame .done True.intro _ _ _
      · exact hsame .done True.intro _ _ _
      · exact hsame .done True.intro _ _ _
    · cases hstep
  | dialed id ok =>
    unfold Portforward.step at hstep
    dsimp only at hstep
    split at hstep
    · rename_i id' key hpc
      split at hstep
      · rename_i heq
        obtain rfl := Option.some.inj hstep
        subst heq
        exact h.dialed hpc
      · cases hstep
    · cases hstep
  | accept id n =>
    unfold Portforward.step at hstep
    dsimp only at hstep
    split at hstep
    · rename_i id' c rest fin hpc
      split at hstep
      · rename_i hcond
        obtain rfl := Option.some.inj hstep
        have hc := h.pc
        rw [hpc, ← hcond.1] at hc
        exact hsame (.writing id c (rest.drop n) fin) hc _ _ _
      · cases hstep
    · cases hstep
  | flushed id ok =>
    unfold Portforward.step at hstep
    dsimp only at hstep
    split at hstep
    · split at hstep
      · obtain rfl := Option.some.inj hstep
        exact hsame .reading True.intro _ _ _
      · cases hstep
    · cases hstep
  | fromTcp c bytes =>
    unfold Portforward.step at hstep
    dsimp only at hstep
    split at hstep
    · obtain rfl := Option.some.inj hstep
      exact hsame _ h.pc _ _ _
    · cases hstep
  | eofTcp c =>
    unfold Portforward.step at hstep
    dsimp only at hstep
    split at hstep
    · obtain rfl := Option.some.inj hstep
      exact hsame _ h.pc _ _ _
    · cases hstep
  | deadline =>
    unfold Portforward.step at hstep
    dsimp only at hstep
    split at hstep
    · obtain rfl := Option.some.inj hstep
      exact hsame _ h.pc _ _ _
    · cases hstep

theorem Owned.init : Owned owner init where
  route _ _ h := by cases h
  tcp _ _ _ h := by cases h
  errorStream _ _ _ h := by cases h
  pc := True.intro

/-! ## Steps for other pairs -/

theorem Same.symm {s s' : State} (h : Same owner k s s') : Same owner k s' s :=
  ⟨h.pair.symm, fun id hid => (h.route id hid).symm, fun id hid => (h.conns id hid).symm,
    h.out.symm, h.aborted.symm⟩

theorem Same.trans {s₁ s₂ s₃ : State} (h : Same owner k s₁ s₂) (h' : Same owner k s₂ s₃) :
    Same owner k s₁ s₃ :=
  ⟨h.pair.trans h'.pair, fun id hid => (h.route id hid).trans (h'.route id hid),
    fun id hid => (h.conns id hid).trans (h'.conns id hid), h.out.trans h'.out,
    h.aborted.trans h'.aborted⟩

theorem concerns_some {id : UInt32} : concerns owner k (some id) = true ↔ owner id = k := by
  simp [concerns]

theorem concerns_some_false {id : UInt32} : concerns owner k (some id) = false ↔ owner id ≠ k := by
  simp [concerns]

/-- Frames on streams of other pairs are not seen. -/
theorem filter_append_foreign {out more : List Outbound}
    (h : ∀ f ∈ more, concerns owner k f.stream = false) :
    (out ++ more).filter (fun f => concerns owner k f.stream) =
      out.filter fun f => concerns owner k f.stream := by
  have hnil : more.filter (fun f => concerns owner k f.stream) = [] :=
    List.filter_eq_nil_iff.mpr fun f hf => by simp [h f hf]
  rw [List.filter_append, hnil, List.append_nil]

/-- A change of a connection of another pair is not seen. -/
theorem setConn_foreign {s : State} {c : ConnId} (h : owner c.1 ≠ k) (f : Conn → Conn) :
    ∀ id, owner id = k → s.conns id = (setConn s c f).conns id := by
  intro id hid
  have hne : id ≠ c.1 := fun heq => h (heq ▸ hid)
  exact (update_of_ne hne _ _).symm

theorem mem_refusal {id : UInt32} {err : Option UInt32} {f : Outbound}
    (h : f ∈ refusal id err) : f.stream = some id ∨ ∃ e, err = some e ∧ f.stream = some e := by
  cases err with
  | none =>
    have hf : f = .rst id RST_REFUSED_STREAM := by simpa [refusal] using h
    exact Or.inl (hf ▸ rfl)
  | some e =>
    have hf : f = .data e FLAG_FIN (utf8 "dial failed") ∨ f = .rst id RST_REFUSED_STREAM ∨
        f = .rst e RST_REFUSED_STREAM := by simpa [refusal] using h
    rcases hf with rfl | rfl | rfl
    · exact Or.inr ⟨e, rfl, rfl⟩
    · exact Or.inl rfl
    · exact Or.inr ⟨e, rfl, rfl⟩

theorem same_synStream {s : State} {id : UInt32} {hdr : Headers} (hkey : reqId hdr = owner id)
    (hid : owner id ≠ k) : Same owner k s (synStream s id hdr) := by
  have hne : k ≠ reqId hdr := fun heq => hid (hkey ▸ heq.symm)
  have hout : (s.out ++ [Outbound.synReply id]).filter (fun f => concerns owner k f.stream) =
      s.out.filter fun f => concerns owner k f.stream := by
    apply filter_append_foreign
    intro f hf
    rw [List.mem_singleton.mp hf]
    exact concerns_some_false.mpr hid
  unfold synStream
  dsimp only
  split
  · exact ⟨(update_of_ne hne _ _).symm, fun _ _ => rfl, fun _ _ => rfl, hout.symm, rfl⟩
  · refine ⟨(update_of_ne hne _ _).symm, fun id' hid' => ?_, fun _ _ => rfl, hout.symm, rfl⟩
    have hids : id' ≠ id := fun heq => hid (heq ▸ hid')
    exact (update_of_ne hids _ _).symm

/-- A dial for another pair adds a connection there, and drops what that pair held. -/
theorem connected_foreign {s : State} (ho : Owned owner s) {id : UInt32} {key : String}
    {pair : Pair} (hp : s.pairs key = some pair) (hkey : key = owner id) (hid : owner id ≠ k) :
    ∀ id', owner id' = k → s.conns id' = connected s id pair id' := by
  intro id' hid'
  have hids : id' ≠ id := fun heq => hid (heq ▸ hid')
  unfold connected
  rw [update_of_ne hids]
  cases hc : pair.tcp with
  | none => rfl
  | some c =>
    have hown : owner c.1 = owner id := (ho.tcp key pair c hp hc).trans hkey
    have hne : id' ≠ c.1 := fun heq => hid (hown ▸ heq ▸ hid')
    exact (update_of_ne hne _ _).symm

theorem same_dialed {s : State} (ho : Owned owner s) {id : UInt32} {key : String} {ok : Bool}
    (hkey : key = owner id) (hid : owner id ≠ k) : Same owner k s (dialed s id key ok) := by
  have hne : k ≠ key := fun heq => hid (hkey ▸ heq.symm)
  unfold dialed
  split
  · exact ⟨rfl, fun _ _ => rfl, fun _ _ => rfl, rfl, rfl⟩
  · rename_i pair hp
    split
    · exact ⟨(update_of_ne hne _ _).symm, fun _ _ => rfl, connected_foreign ho hp hkey hid,
        rfl, rfl⟩
    · refine ⟨rfl, fun _ _ => rfl, fun _ _ => rfl, (filter_append_foreign ?_).symm, rfl⟩
      intro f hf
      rcases mem_refusal hf with hf | ⟨e, he, hf⟩
      · rw [hf]
        exact concerns_some_false.mpr hid
      · rw [hf, concerns_some_false, ho.errorStream key pair e hp he, hkey]
        exact hid

/-- A loop that reads in the first state reads in the second. -/
theorem Agree.reading {s s' : State} (h : Agree owner k s s') (hpc : s.pc = .reading) :
    s'.pc = .reading := by
  rcases h.pc with ⟨heq, -⟩ | ⟨hc, -⟩
  · rw [← heq, hpc]
  · rw [hpc] at hc
    cases hc

/-- While the loop dials or writes for another pair, the second reads. -/
theorem Agree.reading_of_foreign {s s' : State} (h : Agree owner k s s')
    (hpc : concerns owner k s.pc.stream = false) : s'.pc = .reading := by
  rcases h.pc with ⟨-, hc⟩ | ⟨-, hr⟩
  · rw [hpc] at hc
    cases hc
  · exact hr

theorem concerns_reading {s : State} (h : s.pc = .reading) :
    concerns owner k s.pc.stream = true := by
  rw [h]
  rfl

/-- **A step for another pair is not seen**, if it is not a reset. -/
theorem Agree.foreign_step {s s' s₁ : State} {l : Label} (h : Agree owner k s s')
    (ho : Owned owner s) (hl : Keyed owner l) (hrst : NoForeignRst owner k l)
    (hforeign : concerns owner k l.stream = false) (hstep : step s l = some s₁) :
    Agree owner k s₁ s' := by
  cases l with
  | recv f =>
    unfold step at hstep
    dsimp only at hstep
    split at hstep
    · rename_i hpc
      have hreading := h.reading hpc
      split at hstep <;> obtain rfl := Option.some.inj hstep
      · rename_i id hdr
        have hid : owner id ≠ k := concerns_some_false.mp hforeign
        have hsame := (same_synStream hl hid).symm.trans h.toSame
        refine ⟨hsame, ?_⟩
        unfold synStream
        dsimp only
        split
        · exact Or.inl ⟨hpc.trans hreading.symm, concerns_reading hpc⟩
        · exact Or.inr ⟨hforeign, hreading⟩
      · unfold data
        split
        · exact ⟨⟨h.pair, h.route, h.conns, h.out, h.aborted⟩, Or.inr ⟨hforeign, hreading⟩⟩
        · exact h
      · cases hforeign
      · exact absurd hrst (concerns_some_false.mp hforeign)
      · cases hforeign
      · cases hforeign
    · cases hstep
  | dialed id ok =>
    have hid : owner id ≠ k := concerns_some_false.mp hforeign
    unfold step at hstep
    dsimp only at hstep
    split at hstep
    · rename_i id' key hpc
      split at hstep
      · rename_i heq
        subst heq
        obtain rfl := Option.some.inj hstep
        have hkey : key = owner id := by
          have := ho.pc
          rwa [hpc] at this
        have hreading := h.reading_of_foreign (by rw [hpc]; exact hforeign)
        have hpc' := dialed_pc s id key ok
        exact ⟨(same_dialed ho hkey hid).symm.trans h.toSame,
          Or.inl ⟨hpc'.trans hreading.symm, concerns_reading hpc'⟩⟩
      · cases hstep
    · cases hstep
  | accept id n =>
    have hid : owner id ≠ k := concerns_some_false.mp hforeign
    unfold step at hstep
    dsimp only at hstep
    split at hstep
    · rename_i id' c rest fin hpc
      split at hstep
      · rename_i hcond
        obtain ⟨rfl, -⟩ := hcond
        obtain rfl := Option.some.inj hstep
        have hc : owner c.1 = owner id := by
          have := ho.pc
          rwa [hpc] at this
        have hreading := h.reading_of_foreign (by rw [hpc]; exact hforeign)
        have hconns := setConn_foreign (s := s) (hc ▸ hid)
          fun x => { x with written := x.written ++ rest.take n }
        exact ⟨⟨h.pair, h.route, fun i hi => (hconns i hi).symm.trans (h.conns i hi), h.out,
          h.aborted⟩, Or.inr ⟨hforeign, hreading⟩⟩
      · cases hstep
    · cases hstep
  | flushed id ok =>
    have hid : owner id ≠ k := concerns_some_false.mp hforeign
    unfold step at hstep
    dsimp only at hstep
    split at hstep
    · rename_i id' c rest fin hpc
      split at hstep
      · rename_i hcond
        obtain ⟨rfl, -⟩ := hcond
        obtain rfl := Option.some.inj hstep
        have hc : owner c.1 = owner id := by
          have := ho.pc
          rwa [hpc] at this
        have hreading := h.reading_of_foreign (by rw [hpc]; exact hforeign)
        have hconns := setConn_foreign (s := s) (hc ▸ hid) fun x => { x with shut := x.shut || fin }
        exact ⟨⟨h.pair, h.route, fun i hi => (hconns i hi).symm.trans (h.conns i hi), h.out,
          h.aborted⟩, Or.inl ⟨hreading.symm, rfl⟩⟩
      · cases hstep
    · cases hstep
  | fromTcp c bytes =>
    unfold step at hstep
    dsimp only at hstep
    split at hstep
    · obtain rfl := Option.some.inj hstep
      have hout : (s.out ++ [Outbound.data c.1 0 bytes]).filter
          (fun f => concerns owner k f.stream) = _ :=
        filter_append_foreign fun f hf => by rw [List.mem_singleton.mp hf]; exact hforeign
      exact ⟨⟨h.pair, h.route, h.conns, hout.trans h.out, h.aborted⟩, h.pc⟩
    · cases hstep
  | eofTcp c =>
    have hid : owner c.1 ≠ k := concerns_some_false.mp hforeign
    unfold step at hstep
    dsimp only at hstep
    split at hstep
    · obtain rfl := Option.some.inj hstep
      have hout : (s.out ++ [Outbound.data c.1 FLAG_FIN []]).filter
          (fun f => concerns owner k f.stream) = _ :=
        filter_append_foreign fun f hf => by rw [List.mem_singleton.mp hf]; exact hforeign
      have hconns := setConn_foreign (s := s) hid fun x => { x with pump := false }
      exact ⟨⟨h.pair, h.route, fun i hi => (hconns i hi).symm.trans (h.conns i hi),
        hout.trans h.out, h.aborted⟩, h.pc⟩
    · cases hstep
  | deadline => cases hforeign

/-! ## Steps of the pair -/

/-- The loop of the second state is at the same place when that of the first is not at another
pair. -/
theorem Agree.pc_eq {s s' : State} (h : Agree owner k s s')
    (hpc : concerns owner k s.pc.stream = true) : s'.pc = s.pc := by
  rcases h.pc with ⟨heq, -⟩ | ⟨hc, -⟩
  · exact heq.symm
  · rw [hpc] at hc
    cases hc

theorem Same.append {s s' : State} (h : Same owner k s s') (more : List Outbound) :
    (s.out ++ more).filter (fun f => concerns owner k f.stream) =
      (s'.out ++ more).filter fun f => concerns owner k f.stream := by
  rw [List.filter_append, List.filter_append, h.out]

theorem Same.setConn {s s' : State} (h : Same owner k s s') {c : ConnId} (hc : owner c.1 = k)
    (f : Conn → Conn) :
    ∀ id, owner id = k → (setConn s c f).conns id = (setConn s' c f).conns id := by
  intro id hid
  unfold Portforward.setConn
  dsimp only
  rw [h.conns c.1 hc, update_apply, update_apply]
  split
  · rfl
  · exact h.conns id hid

theorem Same.getConn {s s' : State} (h : Same owner k s s') {c : ConnId} (hc : owner c.1 = k) :
    getConn s c = getConn s' c := by
  unfold Portforward.getConn
  rw [h.conns c.1 hc]

theorem Same.isShut {s s' : State} (h : Same owner k s s') {c : ConnId} (hc : owner c.1 = k) :
    isShut s c = isShut s' c := by
  unfold Portforward.isShut
  rw [h.getConn hc]

theorem Same.entry {s s' : State} (h : Same owner k s s') (hdr : Headers) (hkey : reqId hdr = k) :
    entry s.pairs hdr = entry s'.pairs hdr := by
  unfold Portforward.entry
  rw [hkey, h.pair]

theorem Same.routed {s s' : State} (h : Same owner k s s') (ho : Owned owner s) {id : UInt32}
    (hid : owner id = k) : Portforward.route s id = Portforward.route s' id := by
  unfold Portforward.route
  rw [← h.route id hid]
  cases hr : s.dataRoute id with
  | none => rfl
  | some key =>
    have hkey : key = k := (ho.route id key hr).trans hid
    rw [Option.bind_some, Option.bind_some, hkey, h.pair]

/-- The pair's stream is opened in both states. -/
theorem Agree.synStream {s s' : State} (h : Agree owner k s s') (hpc : s.pc = .reading)
    {id : UInt32} {hdr : Headers} (hkey : reqId hdr = owner id) (hid : owner id = k) :
    Agree owner k (synStream s id hdr) (synStream s' id hdr) := by
  have hpc' := h.reading hpc
  have hentry := h.entry hdr (hkey.trans hid)
  have hout := h.append [.synReply id]
  have hpair (new : Pair) : update s.pairs (reqId hdr) (some new) k =
      update s'.pairs (reqId hdr) (some new) k := by
    rw [hkey.trans hid, update_self, update_self]
  unfold Portforward.synStream
  dsimp only
  rw [hentry]
  split
  · exact ⟨⟨hpair _, h.route, h.conns, hout, h.aborted⟩,
      Or.inl ⟨hpc.trans hpc'.symm, concerns_reading hpc⟩⟩
  · refine ⟨⟨hpair _, fun id' hid' => ?_, h.conns, hout, h.aborted⟩,
      Or.inl ⟨rfl, concerns_some.mpr hid⟩⟩
    show update s.dataRoute id _ id' = update s'.dataRoute id _ id'
    rw [update_apply, update_apply]
    split
    · rfl
    · exact h.route id' hid'

theorem Agree.data {s s' : State} (h : Agree owner k s s') (ho : Owned owner s) {id : UInt32} {flags : UInt8} {bytes : Bytes} (hid : owner id = k) :
    Agree owner k (data s id flags bytes) (data s' id flags bytes) := by
  unfold Portforward.data
  rw [h.routed ho hid]
  split
  · exact ⟨⟨h.pair, h.route, h.conns, h.out, h.aborted⟩, Or.inl ⟨rfl, concerns_some.mpr hid⟩⟩
  · exact h

/-- The pair's dial adds the same connection, and drops the same write half. -/
theorem Same.connected {s s' : State} (h : Same owner k s s') (ho : Owned owner s) {id : UInt32}
    {pair : Pair} (hp : s.pairs k = some pair) (hid : owner id = k) :
    ∀ id', owner id' = k → connected s id pair id' = connected s' id pair id' := by
  have hdropped (id' : UInt32) (hid' : owner id' = k) :
      dropped s.conns pair.tcp id' = dropped s'.conns pair.tcp id' := by
    cases hc : pair.tcp with
    | none => exact h.conns id' hid'
    | some c => exact h.setConn (ho.tcp k pair c hp hc) (fun x => { x with shut := true }) id' hid'
  intro id' hid'
  unfold Portforward.connected
  rw [update_apply, update_apply, hdropped id hid]
  split
  · rfl
  · exact hdropped id' hid'

theorem Agree.dialed {s s' : State} (h : Agree owner k s s') (ho : Owned owner s) {id : UInt32}
    {key : String} {ok : Bool} (hkey : key = k) (hid : owner id = k) :
    Agree owner k (dialed s id key ok) (dialed s' id key ok) := by
  have hpc : (Portforward.dialed s id key ok).pc = (Portforward.dialed s' id key ok).pc :=
    (dialed_pc s id key ok).trans (dialed_pc s' id key ok).symm
  refine ⟨?_, Or.inl ⟨hpc, concerns_reading (dialed_pc s id key ok)⟩⟩
  subst hkey
  unfold Portforward.dialed
  rw [← h.pair]
  split
  · exact ⟨h.pair, h.route, h.conns, h.out, h.aborted⟩
  · rename_i pair hp
    split
    · refine ⟨?_, h.route, h.toSame.connected ho hp hid, h.out, h.aborted⟩
      show update s.pairs key _ key = update s'.pairs key _ key
      rw [update_self, update_self, h.conns id hid]
    · exact ⟨h.pair, h.route, h.conns, h.append _, h.aborted⟩

/-- **A step of the pair or of the connection** can be taken in both states, and leads to states
that agree. -/
theorem Agree.own_step {s s' s₁ : State} {l : Label} (h : Agree owner k s s') (ho : Owned owner s)
    (hl : Keyed owner l) (hown : concerns owner k l.stream = true) (hstep : step s l = some s₁) :
    ∃ s₁', step s' l = some s₁' ∧ Agree owner k s₁ s₁' := by
  cases l with
  | recv f =>
    unfold step at hstep ⊢
    dsimp only at hstep ⊢
    split at hstep
    · rename_i hpc
      rw [if_pos (h.reading hpc)]
      have hdone : Agree owner k { s with pc := .done } { s' with pc := .done } :=
        ⟨⟨h.pair, h.route, h.conns, h.out, h.aborted⟩, Or.inl ⟨rfl, rfl⟩⟩
      split at hstep <;> obtain rfl := Option.some.inj hstep <;> refine ⟨_, rfl, ?_⟩
      · exact h.synStream hpc hl (concerns_some.mp hown)
      · exact h.data ho (concerns_some.mp hown)
      · exact ⟨⟨h.pair, h.route, h.conns, h.append _, h.aborted⟩, h.pc⟩
      · exact hdone
      · exact hdone
      · exact hdone
    · cases hstep
  | dialed id ok =>
    have hid : owner id = k := concerns_some.mp hown
    unfold step at hstep
    dsimp only at hstep
    split at hstep
    · rename_i id' key hpc
      split at hstep
      · rename_i heq
        subst heq
        obtain rfl := Option.some.inj hstep
        have hpc' := h.pc_eq (by rw [hpc]; exact hown)
        have hkey : key = owner id := by
          have := ho.pc
          rwa [hpc] at this
        refine ⟨_, ?_, h.dialed ho (hkey.trans hid) hid⟩
        unfold step
        rw [hpc', hpc]
        exact if_pos rfl
      · cases hstep
    · cases hstep
  | accept id n =>
    have hid : owner id = k := concerns_some.mp hown
    unfold step at hstep
    dsimp only at hstep
    split at hstep
    · rename_i id' c rest fin hpc
      split at hstep
      · rename_i hcond
        obtain ⟨rfl, hpos, hle, hshut⟩ := hcond
        obtain rfl := Option.some.inj hstep
        have hc : owner c.1 = owner id := by
          have := ho.pc
          rwa [hpc] at this
        have hc := hc.trans hid
        have hpc' := h.pc_eq (by rw [hpc]; exact hown)
        refine ⟨{ Portforward.setConn s' c fun x => { x with written := x.written ++ rest.take n }
          with pc := .writing id c (rest.drop n) fin }, ?_,
          ⟨⟨h.pair, h.route, h.setConn hc _, h.out, h.aborted⟩, Or.inl ⟨rfl, hown⟩⟩⟩
        unfold step
        rw [hpc', hpc]
        exact if_pos ⟨rfl, hpos, hle, (h.isShut hc).symm.trans hshut⟩
      · cases hstep
    · cases hstep
  | flushed id ok =>
    have hid : owner id = k := concerns_some.mp hown
    unfold step at hstep
    dsimp only at hstep
    split at hstep
    · rename_i id' c rest fin hpc
      split at hstep
      · rename_i hcond
        obtain ⟨rfl, hok⟩ := hcond
        obtain rfl := Option.some.inj hstep
        have hc : owner c.1 = owner id := by
          have := ho.pc
          rwa [hpc] at this
        have hc := hc.trans hid
        have hpc' := h.pc_eq (by rw [hpc]; exact hown)
        refine ⟨{ Portforward.setConn s' c fun x => { x with shut := x.shut || fin } with
          pc := .reading }, ?_,
          ⟨⟨h.pair, h.route, h.setConn hc _, h.out, h.aborted⟩, Or.inl ⟨rfl, rfl⟩⟩⟩
        unfold step
        rw [hpc', hpc]
        exact if_pos ⟨rfl, hok⟩
      · cases hstep
    · cases hstep
  | fromTcp c bytes =>
    have hc : owner c.1 = k := concerns_some.mp hown
    unfold step at hstep ⊢
    dsimp only at hstep ⊢
    split at hstep
    · rename_i hcond
      obtain rfl := Option.some.inj hstep
      rw [h.aborted, h.getConn hc] at hcond
      exact ⟨_, if_pos hcond, ⟨⟨h.pair, h.route, h.conns, h.append _, h.aborted⟩, h.pc⟩⟩
    · cases hstep
  | eofTcp c =>
    have hc : owner c.1 = k := concerns_some.mp hown
    unfold step at hstep ⊢
    dsimp only at hstep ⊢
    split at hstep
    · rename_i hcond
      obtain rfl := Option.some.inj hstep
      rw [h.aborted, h.getConn hc] at hcond
      exact ⟨_, if_pos hcond,
        ⟨⟨h.pair, h.route, h.setConn hc _, h.append _, h.aborted⟩, h.pc⟩⟩
    · cases hstep
  | deadline =>
    unfold step at hstep ⊢
    dsimp only at hstep ⊢
    split at hstep
    · rename_i hpc
      obtain rfl := Option.some.inj hstep
      have hpc' := h.pc_eq (by rw [hpc]; rfl)
      exact ⟨_, if_pos (hpc'.trans hpc), ⟨⟨h.pair, h.route, h.conns, h.out, rfl⟩, h.pc⟩⟩
    · cases hstep

/-! ## The claim -/

variable (owner k)

/-- What the environment does for the pair and for the connection as a whole. -/
def project (ls : List Label) : List Label := ls.filter fun l => concerns owner k l.stream

variable {owner k}

/-- **The run without the other pairs**: leaving out their labels gives a run that leads to a state
that agrees. -/
theorem Agree.run {s s' s₁ : State} {ls : List Label} (h : Agree owner k s s')
    (ho : Owned owner s) (hl : ∀ l ∈ ls, Keyed owner l ∧ NoForeignRst owner k l)
    (hrun : run step s ls = some s₁) :
    ∃ s₁', run step s' (project owner k ls) = some s₁' ∧ Agree owner k s₁ s₁' := by
  induction ls generalizing s s' with
  | nil =>
    obtain rfl := Option.some.inj hrun
    exact ⟨s', rfl, h⟩
  | cons l ls ih =>
    obtain ⟨t, hstep, hrest⟩ := run_cons_eq_some.mp hrun
    have ho' := ho.step (hl l List.mem_cons_self).1 hstep
    have hls := fun x hx => hl x (List.mem_cons_of_mem l hx)
    cases hown : concerns owner k l.stream with
    | false =>
      have h' := h.foreign_step ho (hl l List.mem_cons_self).1 (hl l List.mem_cons_self).2 hown hstep
      obtain ⟨s₁', hs₁', hagree⟩ := ih h' ho' hls hrest
      exact ⟨s₁', by rw [project, List.filter_cons_of_neg (by simp [hown])]; exact hs₁', hagree⟩
    | true =>
      obtain ⟨t', ht', h'⟩ := h.own_step ho (hl l List.mem_cons_self).1 hown hstep
      obtain ⟨s₁', hs₁', hagree⟩ := ih h' ho' hls hrest
      refine ⟨s₁', ?_, hagree⟩
      have hproject : project owner k (l :: ls) = l :: project owner k ls :=
        List.filter_cons_of_pos (p := fun l : Label => concerns owner k l.stream) hown
      rw [hproject]
      exact run_cons_eq_some.mpr ⟨t', ht', hs₁'⟩

/-- What is enabled for the pair in a state is enabled in one that agrees with it. -/
theorem Agree.enabled {s s' : State} {l : Label} (h : Agree owner k s s') (ho : Owned owner s)
    (hl : Keyed owner l) (hown : concerns owner k l.stream = true) (he : (step s l).isSome) :
    (step s' l).isSome := by
  obtain ⟨s₁, hs₁⟩ := Option.isSome_iff_exists.mp he
  obtain ⟨s₁', hs₁', -⟩ := h.own_step ho hl hown hs₁
  rw [hs₁']
  rfl

theorem Agree.symm {s s' : State} (h : Agree owner k s s')
    (hpc : concerns owner k s.pc.stream = true) : Agree owner k s' s :=
  ⟨h.toSame.symm, Or.inl ⟨h.pc_eq hpc, by rw [h.pc_eq hpc]; exact hpc⟩⟩

theorem Owned.run {s s' : State} {ls : List Label} (h : Owned owner s)
    (hl : ∀ l ∈ ls, Keyed owner l) (hrun : run Portforward.step s ls = some s') :
    Owned owner s' := by
  induction ls generalizing s with
  | nil =>
    obtain rfl := Option.some.inj hrun
    exact h
  | cons l ls ih =>
    obtain ⟨t, hstep, hrest⟩ := run_cons_eq_some.mp hrun
    exact ih (h.step (hl l List.mem_cons_self) hstep)
      (fun x hx => hl x (List.mem_cons_of_mem l hx)) hrest

/-- What the isolation of a pair says of two states: they agree on the pair, the connection is still
served in both or in none, and where the loop is not at another pair the same can happen to the pair
next. -/
structure Isolated (owner : UInt32 → String) (k : String) (s₁ s₂ : State) : Prop where
  same : Same owner k s₁ s₂
  done : s₁.pc = .done ↔ s₂.pc = .done
  enabled : concerns owner k s₁.pc.stream = true → concerns owner k s₂.pc.stream = true →
    ∀ l, Keyed owner l → concerns owner k l.stream = true →
      ((step s₁ l).isSome ↔ (step s₂ l).isSome)

/-- **Isolation**: two runs with the same labels of the pair and of the connection, in which no
stream of another pair is reset, lead to states that do not differ for the pair. -/
theorem isolation {s₁ s₂ : State} {ls₁ ls₂ : List Label}
    (h₁ : run step init ls₁ = some s₁) (h₂ : run step init ls₂ = some s₂)
    (hl₁ : ∀ l ∈ ls₁, Keyed owner l ∧ NoForeignRst owner k l)
    (hl₂ : ∀ l ∈ ls₂, Keyed owner l ∧ NoForeignRst owner k l)
    (hsame : project owner k ls₁ = project owner k ls₂) : Isolated owner k s₁ s₂ := by
  have hinit : Agree owner k init init :=
    ⟨⟨rfl, fun _ _ => rfl, fun _ _ => rfl, rfl, rfl⟩, Or.inl ⟨rfl, rfl⟩⟩
  obtain ⟨t, ht, ha₁⟩ := hinit.run Owned.init hl₁ h₁
  obtain ⟨t', ht', ha₂⟩ := hinit.run Owned.init hl₂ h₂
  rw [hsame] at ht
  obtain rfl := Option.some.inj (ht.symm.trans ht')
  have ho₁ := Owned.init.run (fun l hl => (hl₁ l hl).1) h₁
  have ho₂ := Owned.init.run (fun l hl => (hl₂ l hl).1) h₂
  have hdone {s : State} (ha : Agree owner k s t) : s.pc = .done ↔ t.pc = .done := by
    rcases ha.pc with ⟨heq, -⟩ | ⟨hc, hr⟩
    · rw [heq]
    · constructor
      · intro hd
        rw [hd] at hc
        cases hc
      · intro hd
        rw [hr] at hd
        cases hd
  refine ⟨ha₁.toSame.trans ha₂.toSame.symm, (hdone ha₁).trans (hdone ha₂).symm, ?_⟩
  intro hc₁ hc₂ l hkeyed hown
  have hot : Owned owner t :=
    Owned.init.run (fun l hl => (hl₂ l (List.mem_filter.mp hl).1).1) ht'
  constructor
  · intro he
    exact (ha₂.symm hc₂).enabled hot hkeyed hown (ha₁.enabled ho₁ hkeyed hown he)
  · intro he
    exact (ha₁.symm hc₁).enabled hot hkeyed hown (ha₂.enabled ho₂ hkeyed hown he)

/-! ## Two pairs -/

/-- The headers of a data stream. -/
def dataHeaders (req : String) : Headers :=
  [("streamType", "data"), ("port", "80"), ("requestID", req)]

def twoPairs (id : UInt32) : String := if id = 1 then "0" else "1"

/-- The pair "1" is opened, and gets data from its connection. -/
def onePairRun : List Label :=
  [.recv (.frame (.synStream 3 (dataHeaders "1"))), .dialed 3 true, .fromTcp (3, 0) [7]]

/-- The pair "0" is opened too. -/
def twoPairsRun : List Label :=
  [.recv (.frame (.synStream 1 (dataHeaders "0"))), .dialed 1 true] ++ onePairRun

theorem keyed_twoPairs : ∀ l ∈ onePairRun ++ twoPairsRun ++ [Label.recv (.rstStream 1)],
    Keyed twoPairs l := by
  decide

theorem isolation_twoPairs :
    ∃ s₁ s₂, run step init onePairRun = some s₁ ∧ run step init twoPairsRun = some s₂ ∧
      Isolated twoPairs "1" s₁ s₂ :=
  ⟨_, _, rfl, rfl, @isolation twoPairs "1" _ _ onePairRun twoPairsRun rfl rfl
    (fun l hl => ⟨keyed_twoPairs l (by simp [hl]), by
      simp only [onePairRun, List.mem_cons, List.not_mem_nil, or_false] at hl
      rcases hl with rfl | rfl | rfl <;> exact True.intro⟩)
    (fun l hl => ⟨keyed_twoPairs l (by simp [hl]), by
      simp only [twoPairsRun, onePairRun, List.cons_append, List.nil_append, List.mem_cons,
        List.not_mem_nil, or_false] at hl
      rcases hl with rfl | rfl | rfl | rfl | rfl <;> exact True.intro⟩) rfl⟩

/-- **A reset of one pair ends the other**: the same run with and without a RST_STREAM for the
stream of pair "0" at its end. With it the loop has ended, and no DATA frame of pair "1" is read. -/
theorem rst_ends_all :
    ∃ s₁ s₂, run step init twoPairsRun = some s₁ ∧
      run step init (twoPairsRun ++ [Label.recv (.rstStream 1)]) = some s₂ ∧
      (∀ l ∈ twoPairsRun ++ [Label.recv (.rstStream 1)], Keyed twoPairs l) ∧
      project twoPairs "1" twoPairsRun =
        project twoPairs "1" (twoPairsRun ++ [Label.recv (.rstStream 1)]) ∧
      (step s₁ (.recv (.frame (.data 3 0 [9])))).isSome ∧
      step s₂ (.recv (.frame (.data 3 0 [9]))) = none ∧ ¬Isolated twoPairs "1" s₁ s₂ := by
  refine ⟨_, _, rfl, rfl, fun l hl => ?_, rfl, rfl, rfl, fun h => ?_⟩
  · apply keyed_twoPairs l
    rw [List.append_assoc]
    exact List.mem_append_right _ hl
  · have hdone := h.done.mpr rfl
    cases hdone

end LightrCri.Spdy.Portforward

import LightrCri.Spdy.Fin
import LightrCri.Spdy.Isolation

/-!
# What the client is told

The two loops answer the client in its order: every stream that it opens with one SYN_REPLY, every
ping with one ping, whatever the pumps, the dials and the completion path write in between. And
nothing is written on a stream before its SYN_REPLY, so that the server never speaks on a stream that the
client has not opened (`Exec.exec_answers_in_order`, `Portforward.forward_answers_in_order`).

`Introduced` is kept by the frames on streams that are known. What the tasks know of the streams is
written down in `Exec.Answering` and `Portforward.Answering`.
-/

namespace LightrCri.Spdy

open Foundations LightrCri.Stream

/-- The frame that answers one of the client. -/
def answer : Received → Option Outbound
  | .frame (.synStream id _) => some (.synReply id)
  | .frame (.ping id) => some (.ping id)
  | _ => none

/-- The frame is an answer. -/
def Outbound.answers : Outbound → Bool
  | .synReply _ => true
  | .ping _ => true
  | _ => false

@[simp] theorem answer_synStream (id : UInt32) (hdr : Headers) :
    answer (.frame (.synStream id hdr)) = some (.synReply id) := rfl

@[simp] theorem answer_ping (id : UInt32) : answer (.frame (.ping id)) = some (.ping id) := rfl

@[simp] theorem answer_data (id : UInt32) (flags : UInt8) (bytes : Bytes) :
    answer (.frame (.data id flags bytes)) = none := rfl

@[simp] theorem answers_synReply (id : UInt32) : (Outbound.synReply id).answers = true := rfl

@[simp] theorem answers_ping (id : UInt32) : (Outbound.ping id).answers = true := rfl

/-- Every frame on a stream comes after the SYN_REPLY of the stream, or is it. -/
def Introduced (out : List Outbound) : Prop :=
  ∀ pre f post, out = pre ++ f :: post → ∀ id, f.stream = some id → .synReply id ∈ pre ++ [f]

theorem Introduced.nil : Introduced [] := by
  intro pre f post h
  simp at h

/-- A frame on a stream that is known. -/
theorem Introduced.concat {out : List Outbound} {f : Outbound} (h : Introduced out)
    (hf : ∀ id, f.stream = some id → .synReply id ∈ out ++ [f]) : Introduced (out ++ [f]) := by
  intro pre g post heq id hid
  rcases List.eq_nil_or_concat post with rfl | ⟨post, g', rfl⟩
  · obtain ⟨rfl, hg⟩ := List.append_inj' heq rfl
    obtain rfl := List.singleton_inj.mp hg
    exact hf id hid
  · rw [List.concat_eq_append, ← List.cons_append, ← List.append_assoc] at heq
    obtain ⟨heq, -⟩ := List.append_inj' heq rfl
    exact h pre g post heq id hid

/-- Frames on streams that are known. -/
theorem Introduced.append {out : List Outbound} (h : Introduced out) (fs : List Outbound)
    (hfs : ∀ f ∈ fs, ∀ id, f.stream = some id → .synReply id ∈ out) : Introduced (out ++ fs) := by
  induction fs using List.reverseRecOn with
  | nil => rwa [List.append_nil]
  | append_singleton fs f ih =>
    rw [← List.append_assoc]
    refine Introduced.concat (ih fun g hg => hfs g (List.mem_append_left _ hg)) fun id hid => ?_
    have hknown := hfs f (List.mem_append_right _ (List.mem_singleton_self f)) id hid
    exact List.mem_append_left _ (List.mem_append_left _ hknown)

theorem filterMap_concat {α β : Type} (g : α → Option β) (l : List α) (a : α) :
    (l ++ [a]).filterMap g = l.filterMap g ++ (g a).toList := by
  rw [List.filterMap_append]
  cases h : g a with
  | none => simp [h]
  | some b => simp [h]

/-! ## Exec and attach -/

namespace Exec

open Function

def Label.sending : Label → Option Received
  | .client f => some f
  | _ => none

/-- What the client has sent in a run. -/
def sent (ls : List Label) : List Received := ls.filterMap Label.sending

/-- The answer that the loop is about to write. -/
def ReadLoop.due : ReadLoop → List Outbound
  | .replying id _ => [.synReply id]
  | _ => []

/-- The answers to come. -/
def State.coming (s : State) : List Outbound := s.readLoop.due ++ s.inbox.filterMap answer

/-- The stream that the loop has answered and goes on to serve. -/
def ReadLoop.replied : ReadLoop → Option UInt32
  | .inserting id _ => some id
  | .telling id _ => some id
  | .spawning id _ => some id
  | _ => none

/-- The streams that the completion path is about to end. -/
def Main.ending : Main → List UInt32
  | .finishing _ stdout stderr error => stdout.toList ++ stderr.toList ++ error.toList
  | _ => []

/-- The answers written and to come are those to the client, and the tasks know only streams that
were answered. -/
structure Answering (fs : List Received) (s : State) : Prop where
  order : s.out.filter Outbound.answers ++ s.coming = fs.filterMap answer
  introduced : Introduced s.out
  loop : ∀ id, s.readLoop.replied = some id → .synReply id ∈ s.out
  byRole : ∀ r id, s.byRole r = some id → .synReply id ∈ s.out
  pumps : ∀ o p, s.pumps o = some p → .synReply p.id ∈ s.out
  main : ∀ id ∈ s.main.ending, .synReply id ∈ s.out

section

variable {cfg : Config} {s s' : State} {l : Label} {fs : List Received}

theorem Answering.init (cfg : Config) (w : World) : Answering [] (init cfg w) where
  order := rfl
  introduced := .nil
  loop _ h := by cases h
  byRole _ _ h := by cases h
  pumps _ _ h := by cases h
  main id h := by
    unfold Exec.init at h
    dsimp only at h
    split at h <;> cases h

/-- A step of the tasks: it writes the frames `gs` on streams that are known, and what the tasks
learn of a stream comes from the loop that has answered it. -/
theorem Answering.step_of (h : Answering fs s) (gs : List Outbound) (hout : s'.out = s.out ++ gs)
    (hintroduced : Introduced (s.out ++ gs))
    (hcoming : gs.filter Outbound.answers ++ s'.coming = s.coming)
    (hloop : ∀ id, s'.readLoop.replied = some id →
      s.readLoop.replied = some id ∨ .synReply id ∈ gs)
    (hbyRole : ∀ r id, s'.byRole r = some id → s.byRole r = some id ∨ s.readLoop.replied = some id)
    (hpumps : ∀ o p, s'.pumps o = some p →
      (∃ p₀, s.pumps o = some p₀ ∧ p₀.id = p.id) ∨ s.readLoop.replied = some p.id)
    (hmain : ∀ id ∈ s'.main.ending, id ∈ s.main.ending ∨ ∃ r, s.byRole r = some id) :
    Answering fs s' where
  order := by
    rw [hout, List.filter_append, List.append_assoc, hcoming]
    exact h.order
  introduced := by
    rw [hout]
    exact hintroduced
  loop id hid := by
    rw [hout]
    rcases hloop id hid with hid | hid
    · exact List.mem_append_left _ (h.loop id hid)
    · exact List.mem_append_right _ hid
  byRole r id hid := by
    rw [hout]
    rcases hbyRole r id hid with hid | hid
    · exact List.mem_append_left _ (h.byRole r id hid)
    · exact List.mem_append_left _ (h.loop id hid)
  pumps o p hp := by
    rw [hout]
    rcases hpumps o p hp with ⟨p₀, hp₀, hid⟩ | hid
    · exact List.mem_append_left _ (hid ▸ h.pumps o p₀ hp₀)
    · exact List.mem_append_left _ (h.loop p.id hid)
  main id hid := by
    rw [hout]
    rcases hmain id hid with hid | ⟨r, hid⟩
    · exact List.mem_append_left _ (h.main id hid)
    · exact List.mem_append_left _ (h.byRole r id hid)

/-- A step of the loop that writes nothing. -/
theorem Answering.read (h : Answering fs s) (hout : s'.out = s.out)
    (hcoming : s'.coming = s.coming)
    (hloop : ∀ id, s'.readLoop.replied = some id → s.readLoop.replied = some id)
    (hbyRole : s'.byRole = s.byRole) (hpumps : s'.pumps = s.pumps)
    (hmain : s'.main.ending = s.main.ending) : Answering fs s' := by
  refine h.step_of [] (by rw [hout, List.append_nil]) (by rw [List.append_nil]; exact h.introduced)
    hcoming (fun id hid => .inl (hloop id hid)) (fun r id hid => .inl (hbyRole ▸ hid))
    (fun o p hp => .inl ⟨p, hpumps ▸ hp, rfl⟩) fun id hid => .inl (hmain ▸ hid)

theorem notify_ending (m : Main) : m.notify.ending = m.ending := by cases m <;> rfl

/-- The completion path learns of the streams that it ends when it looks them up. -/
theorem Goto.ending {m : Main} (h : Goto cfg s l m) :
    ∀ id ∈ m.ending, ∃ r, s.byRole r = some id := by
  intro id hid
  cases h with
  | snapshot hmain =>
    simp only [Main.ending, List.mem_append, Option.mem_toList] at hid
    rcases hid with (hid | hid) | hid <;> exact ⟨_, hid⟩
  | drained hnext =>
    rcases hnext.target with rfl | ⟨exit, rfl⟩ <;> cases hid
  | _ => cases hid

theorem fins_ending {exit : Int32} {stdout stderr error : Option UInt32} {f : Outbound}
    (h : f ∈ fins exit stdout stderr error) :
    f.answers = false ∧ ∃ id, f.stream = some id ∧
      id ∈ (Main.finishing exit stdout stderr error).ending := by
  simp only [Main.ending, List.mem_append, Option.mem_toList]
  rcases mem_fins h with ⟨id, hid, rfl⟩ | ⟨id, hid, rfl⟩ | ⟨id, hid, rfl⟩
  · exact ⟨rfl, id, rfl, .inl (.inl hid)⟩
  · exact ⟨rfl, id, rfl, .inl (.inr hid)⟩
  · exact ⟨rfl, id, rfl, .inr hid⟩

theorem Answering.client (h : Answering fs s) (f : Received) :
    Answering (fs ++ [f]) { s with inbox := s.inbox ++ [f] } where
  order := by
    have hcoming : State.coming { s with inbox := s.inbox ++ [f] } =
        s.coming ++ [f].filterMap answer := by
      rw [State.coming, List.filterMap_append, ← List.append_assoc]
      rfl
    rw [hcoming, List.filterMap_append, ← List.append_assoc, h.order]
  introduced := h.introduced
  loop := h.loop
  byRole := h.byRole
  pumps := h.pumps
  main := h.main

theorem answer_of_quits {f : Received} (h : quits f = true) : answer f = none := by
  cases f with
  | frame => cases h
  | _ => rfl

/-- A pump that goes on keeps its stream. -/
theorem pump_update {o : Output} {p q : Pump} (hpump : s.pumps o = some p) (hid : q.id = p.id) :
    ∀ o' p', update s.pumps o (some q) o' = some p' →
      (∃ p₀, s.pumps o' = some p₀ ∧ p₀.id = p'.id) ∨ s.readLoop.replied = some p'.id := by
  intro o' p' hp'
  rw [update_apply] at hp'
  split at hp'
  · rename_i ho
    obtain rfl := Option.some.inj hp'
    exact .inl ⟨p, ho ▸ hpump, hid.symm⟩
  · exact .inl ⟨p', hp', rfl⟩

/-- A pump goes on, and writes nothing. -/
theorem Answering.pump (h : Answering fs s) {o : Output} {p q : Pump} {w : World}
    (hpump : s.pumps o = some p) (hid : q.id = p.id) :
    Answering fs { s with pumps := update s.pumps o (some q), world := w } :=
  h.step_of [] (List.append_nil _).symm (by rw [List.append_nil]; exact h.introduced) rfl
    (fun _ => .inl) (fun _ _ => .inl) (pump_update hpump hid) fun _ => .inl

/-- **A step of the session.** -/
theorem Answering.task (h : Answering fs s) (hl : l.sending = none)
    (hstep : Exec.step cfg s l = some s') : Answering fs s' := by
  have hsame : Introduced (s.out ++ []) := by
    rw [List.append_nil]
    exact h.introduced
  cases step_cases hstep with
  | client => cases hl
  | halfClose | hangUp | process | reap | take => exact h.read rfl rfl (fun _ => id) rfl rfl rfl
  | opening hloop hinbox =>
    refine h.read rfl ?_ (fun _ hid => by cases hid) rfl rfl rfl
    simp [State.coming, hloop, hinbox, ReadLoop.due]
  | stdin hloop hinbox | data hloop hinbox =>
    refine h.read rfl ?_ (fun _ hid => by cases hid) rfl rfl rfl
    simp [State.coming, hloop, hinbox, ReadLoop.due, List.filterMap_cons, halfClose]
  | quit hloop hinbox hf =>
    refine h.read rfl ?_ (fun _ hid => by cases hid) rfl rfl rfl
    simp [State.coming, hloop, hinbox, ReadLoop.due, answer_of_quits hf]
  | ping hloop hinbox =>
    refine h.step_of [_] rfl (h.introduced.concat fun _ hid => by cases hid) ?_ (fun _ => .inl)
      (fun _ _ => .inl) (fun _ p hp => .inl ⟨p, hp, rfl⟩) fun _ => .inl
    simp [State.coming, hloop, hinbox, ReadLoop.due, List.filter_cons]
  | @reply id role hloop =>
    refine h.step_of [_] rfl (h.introduced.concat fun _ hid => ?_) ?_ (fun _ hid => ?_)
      (fun _ _ => .inl) (fun _ p hp => .inl ⟨p, hp, rfl⟩) fun _ => .inl
    · obtain rfl := Option.some.inj hid
      exact List.mem_append_right _ (List.mem_singleton_self _)
    · simp [State.coming, hloop, ReadLoop.due, List.filter_cons]
    · obtain rfl := Option.some.inj hid
      exact .inr (List.mem_singleton_self _)
  | @insert id role hloop =>
    refine h.step_of [] (List.append_nil _).symm hsame ?_
      (fun _ hid => .inl (by rw [hloop]; exact hid)) (fun r _ hid => ?_)
      (fun _ p hp => .inl ⟨p, hp, rfl⟩) fun _ => .inl
    · simp [State.coming, hloop, ReadLoop.due]
    · dsimp only at hid
      rw [update_apply] at hid
      split at hid
      · exact .inr (by rw [hloop]; exact hid)
      · exact .inl hid
  | tell hloop =>
    refine h.read rfl ?_ (fun _ hid => by rw [hloop]; exact hid) rfl rfl (notify_ending _)
    simp [State.coming, hloop, ReadLoop.due]
  | @spawn id role o hloop =>
    refine h.step_of [] (List.append_nil _).symm hsame ?_ (fun _ hid => by cases hid)
      (fun _ _ => .inl) (fun o' p hp => ?_) fun _ => .inl
    · simp [State.coming, hloop, ReadLoop.due]
    · dsimp only at hp
      rw [update_apply] at hp
      split at hp
      · obtain rfl := Option.some.inj hp
        exact .inr (by rw [hloop]; rfl)
      · exact .inl ⟨p, hp, rfl⟩
  | noSpawn hloop | push hloop | leave hloop | eof hloop =>
    refine h.read rfl ?_ (fun _ hid => by cases hid) rfl rfl rfl
    simp [State.coming, hloop, ReadLoop.due]
  | tellPump hloop =>
    refine h.read rfl ?_ (fun _ hid => by cases hid) rfl rfl (notify_ending _)
    simp [State.coming, hloop, ReadLoop.due]
  | accept hloop | broken hloop | flushed hloop =>
    refine h.read rfl ?_ (fun _ hid => by cases hid) rfl rfl rfl
    simp [State.coming, hloop, ReadLoop.due, wrote, halfClose]
  | pumpRead hpump | pumpFail hpump | pumpEof hpump => exact h.pump hpump rfl
  | pumpSend hpump =>
    refine h.step_of [_] rfl (h.introduced.concat fun _ hid => ?_) rfl (fun _ => .inl)
      (fun _ _ => .inl) (pump_update hpump rfl) fun _ => .inl
    obtain rfl := Option.some.inj hid
    exact List.mem_append_left _ (h.pumps _ _ hpump)
  | arm hmain => exact h.read rfl rfl (fun _ => id) rfl rfl (by rw [hmain]; rfl)
  | @finish exit stdout stderr error hmain =>
    refine h.step_of (fins exit stdout stderr error) rfl
      (h.introduced.append _ fun f hf id hid => ?_) ?_ (fun _ => .inl) (fun _ _ => .inl)
      (fun _ p hp => .inl ⟨p, hp, rfl⟩) fun _ hid => by cases hid
    · obtain ⟨-, id', hid', hend⟩ := fins_ending hf
      obtain rfl := Option.some.inj (hid'.symm.trans hid)
      exact h.main _ (by rw [hmain]; exact hend)
    · have hnone : (fins exit stdout stderr error).filter Outbound.answers = [] :=
        List.filter_eq_nil_iff.mpr fun f hf => by simp [(fins_ending hf).1]
      rw [hnone]
      rfl
  | goto hgoto =>
    exact h.step_of [] (List.append_nil _).symm hsame rfl (fun _ => .inl) (fun _ _ => .inl)
      (fun _ p hp => .inl ⟨p, hp, rfl⟩) fun id hid => .inr (hgoto.ending id hid)

theorem Answering.step (h : Answering fs s) (hstep : Exec.step cfg s l = some s') :
    Answering (fs ++ l.sending.toList) s' := by
  cases l with
  | client f =>
    cases step_cases hstep with
    | client => exact h.client f
    | goto hgoto => cases hgoto
  | _ =>
    show Answering (fs ++ []) s'
    rw [List.append_nil]
    exact h.task rfl hstep

theorem answering_run {w : World} {ls : List Label}
    (hrun : run (Exec.step cfg) (init cfg w) ls = some s) : Answering (sent ls) s := by
  refine invariant_run_labels (I := fun ls s => Answering (sent ls) s) (fun ls s l s' h hstep => ?_)
    (Answering.init cfg w) hrun
  rw [sent, filterMap_concat]
  exact h.step hstep

end

/-- **The client of an exec is answered in its order**, over every run: the SYN_REPLYs and pings
that are written are a prefix of the answers to what the client has sent, and all of them once the
loop has read everything; and nothing is written on a stream before its SYN_REPLY. -/
theorem exec_answers_in_order {cfg : Config} {w : World} {ls : List Label} {s : State}
    (hrun : run (step cfg) (init cfg w) ls = some s) :
    s.out.filter Outbound.answers <+: (sent ls).filterMap answer ∧
      (s.inbox = [] → s.readLoop.due = [] →
        s.out.filter Outbound.answers = (sent ls).filterMap answer) ∧
      Introduced s.out := by
  have h := answering_run hrun
  refine ⟨⟨s.coming, h.order⟩, fun hinbox hdue => ?_, h.introduced⟩
  rw [← h.order, State.coming, hinbox, hdue]
  exact (List.append_nil _).symm

/-- The factory has failed. -/
def failedConfig : Config := ⟨false, false, true, none⟩

/-- The client opens its error stream and pings. -/
def pingedRun : List Label :=
  [opening 1 "error", .client (.frame (.ping 2))] ++ List.replicate 6 Label.readLoop

theorem exec_answers_in_order_pingedRun : ∃ s,
    run (step failedConfig) (init failedConfig (.init 4 4 4)) pingedRun = some s ∧
      s.out = [.synReply 1, .ping 2] ∧
      s.out.filter Outbound.answers <+: (sent pingedRun).filterMap answer ∧
      (s.inbox = [] → s.readLoop.due = [] →
        s.out.filter Outbound.answers = (sent pingedRun).filterMap answer) ∧
      Introduced s.out :=
  ⟨_, rfl, rfl, @exec_answers_in_order failedConfig (.init 4 4 4) pingedRun _ rfl⟩

end Exec

/-! ## Port-forward -/

namespace Portforward

open Function

def Label.hears : Label → Option Received
  | .recv f => some f
  | _ => none

/-- What the loop has read in a run. -/
def heard (ls : List Label) : List Received := ls.filterMap Label.hears

/-- The answers written are those to the client, and the loop and the pumps know only streams that
were answered. -/
structure Answering (fs : List Received) (s : State) : Prop where
  order : s.out.filter Outbound.answers = fs.filterMap answer
  introduced : Introduced s.out
  pairs : ∀ key pair, s.pairs key = some pair → ∀ id, pair.errorStream = some id →
    .synReply id ∈ s.out
  dialing : ∀ id key, s.pc = .dialing id key → .synReply id ∈ s.out
  conns : ∀ id, s.conns id ≠ [] → .synReply id ∈ s.out

section

variable {s s' : State} {l : Label} {fs : List Received}

theorem Answering.init : Answering [] init where
  order := rfl
  introduced := .nil
  pairs _ _ h := by cases h
  dialing _ _ h := by cases h
  conns _ h := absurd rfl h

theorem known_of_pump (h : Answering fs s) {c : ConnId}
    (hpump : (getConn s c).any Conn.pump = true) : .synReply c.1 ∈ s.out := by
  refine h.conns c.1 fun hnil => ?_
  simp [getConn, hnil] at hpump

theorem conns_setConn (s : State) (c : ConnId) (f : Conn → Conn) (id : UInt32) :
    (setConn s c f).conns id = [] ↔ s.conns id = [] := by
  unfold setConn
  dsimp only
  rw [update_apply]
  split
  · rename_i hid
    rw [hid, ← List.length_eq_zero_iff, List.length_modify, List.length_eq_zero_iff]
  · rfl

theorem answers_of_mem_refusal {id : UInt32} {err : Option UInt32} {f : Outbound}
    (h : f ∈ refusal id err) : f.answers = false := by
  simp only [refusal, List.mem_append, List.mem_map, List.mem_singleton] at h
  rcases h with (⟨e, -, rfl⟩ | rfl) | ⟨e, -, rfl⟩ <;> rfl

/-- A step that writes the frames `gs` on streams that are known. -/
theorem Answering.step_of (h : Answering fs s) (gs : List Outbound) {fs' : List Received}
    (hout : s'.out = s.out ++ gs) (hintroduced : Introduced (s.out ++ gs))
    (horder : gs.filter Outbound.answers = fs'.filterMap answer)
    (hpairs : ∀ key pair, s'.pairs key = some pair → ∀ id, pair.errorStream = some id →
      (∃ key₀ pair₀, s.pairs key₀ = some pair₀ ∧ pair₀.errorStream = some id) ∨ .synReply id ∈ gs)
    (hdialing : ∀ id key, s'.pc = .dialing id key → s.pc = .dialing id key ∨ .synReply id ∈ gs)
    (hconns : ∀ id, s'.conns id ≠ [] → s.conns id ≠ [] ∨ ∃ key, s.pc = .dialing id key) :
    Answering (fs ++ fs') s' where
  order := by
    rw [hout, List.filter_append, List.filterMap_append, h.order, horder]
  introduced := by
    rw [hout]
    exact hintroduced
  pairs key pair hpair id hid := by
    rw [hout]
    rcases hpairs key pair hpair id hid with ⟨key₀, pair₀, hpair₀, hid₀⟩ | hmem
    · exact List.mem_append_left _ (h.pairs key₀ pair₀ hpair₀ id hid₀)
    · exact List.mem_append_right _ hmem
  dialing id key hpc := by
    rw [hout]
    rcases hdialing id key hpc with hpc | hmem
    · exact List.mem_append_left _ (h.dialing id key hpc)
    · exact List.mem_append_right _ hmem
  conns id hid := by
    rw [hout]
    rcases hconns id hid with hid | ⟨key, hpc⟩
    · exact List.mem_append_left _ (h.conns id hid)
    · exact List.mem_append_left _ (h.dialing id key hpc)

theorem Answering.opened (h : Answering fs s) (id : UInt32) (hdr : Headers) :
    Answering (fs ++ [.frame (.synStream id hdr)]) (synStream s id hdr) := by
  have hentry : ∀ e, (entry s.pairs hdr).errorStream = some e →
      ∃ key₀ pair₀, s.pairs key₀ = some pair₀ ∧ pair₀.errorStream = some e := fun e he => by
    rw [entry_errorStream] at he
    obtain ⟨pair₀, hpair₀, he⟩ := Option.bind_eq_some_iff.mp he
    exact ⟨_, pair₀, hpair₀, he⟩
  have hreply : Outbound.synReply id ∈ [Outbound.synReply id] := List.mem_singleton_self _
  refine h.step_of [.synReply id] ?_ (h.introduced.concat fun _ hid => ?_) rfl
    (fun key pair hpair e he => ?_) (fun id' key hpc => ?_) fun id' hid => ?_
  · unfold synStream
    dsimp only
    split <;> rfl
  · obtain rfl := Option.some.inj hid
    exact List.mem_append_right _ hreply
  · unfold synStream at hpair
    dsimp only at hpair
    split at hpair
    all_goals
      dsimp only at hpair
      rw [update_apply] at hpair
      split at hpair
    · obtain rfl := Option.some.inj hpair
      obtain rfl := Option.some.inj he
      exact .inr hreply
    · exact .inl ⟨key, pair, hpair, he⟩
    · obtain rfl := Option.some.inj hpair
      exact .inl (hentry e he)
    · exact .inl ⟨key, pair, hpair, he⟩
  · unfold synStream at hpc
    dsimp only at hpc
    split at hpc
    · exact .inl hpc
    · obtain ⟨rfl, -⟩ := Pc.dialing.inj hpc
      exact .inr hreply
  · unfold synStream at hid
    dsimp only at hid
    split at hid <;> exact .inl hid

theorem Answering.dialed (h : Answering fs s) {id : UInt32} {key : String}
    (hpc : s.pc = .dialing id key) (ok : Bool) :
    Answering (fs ++ []) (Portforward.dialed s id key ok) := by
  have hdone : ∀ id' key', (Portforward.dialed s id key ok).pc ≠ .dialing id' key' := by
    simp [dialed_pc]
  have hsame : Introduced (s.out ++ []) := by
    rw [List.append_nil]
    exact h.introduced
  have hpair : (s.pairs key = none ∧ Portforward.dialed s id key ok = { s with pc := .reading }) ∨
      ∃ pair, s.pairs key = some pair := by
    cases hkey : s.pairs key with
    | none => exact .inl ⟨rfl, by simp [Portforward.dialed, hkey]⟩
    | some pair => exact .inr ⟨pair, rfl⟩
  rcases hpair with ⟨-, heq⟩ | ⟨pair, hpair⟩
  · refine h.step_of [] (by rw [heq, List.append_nil]) hsame rfl (fun key' p hp e he => ?_)
      (fun id' key' hpc' => absurd hpc' (hdone id' key')) fun id' hid => ?_
    · rw [heq] at hp
      exact .inl ⟨key', p, hp, he⟩
    · rw [heq] at hid
      exact .inl hid
  cases ok with
  | true =>
    have heq : Portforward.dialed s id key true = { s with
        pc := .reading
        pairs := update s.pairs key (some { pair with tcp := some (id, (s.conns id).length) })
        conns := connected s id pair } := by
      simp [Portforward.dialed, hpair]
    refine h.step_of [] (by rw [heq, List.append_nil]) hsame rfl (fun key' p hp e he => ?_)
      (fun id' key' hpc' => absurd hpc' (hdone id' key')) fun id' hid => ?_
    · rw [heq] at hp
      dsimp only at hp
      rw [update_apply] at hp
      split at hp
      · obtain rfl := Option.some.inj hp
        exact .inl ⟨key, pair, hpair, he⟩
      · exact .inl ⟨key', p, hp, he⟩
    · rw [heq] at hid
      change update (dropped s.conns pair.tcp) id _ id' ≠ [] at hid
      rw [update_apply] at hid
      split at hid
      · rename_i hid'
        exact .inr ⟨key, hid' ▸ hpc⟩
      · refine .inl fun hnil => hid (List.length_eq_zero_iff.mp ?_)
        rw [length_dropped, hnil, List.length_nil]
  | false =>
    have heq : Portforward.dialed s id key false =
        { s with pc := .reading, out := s.out ++ refusal id pair.errorStream } := by
      simp [Portforward.dialed, hpair]
    refine h.step_of (refusal id pair.errorStream) (by rw [heq]) (h.introduced.append _ ?_)
      (List.filter_eq_nil_iff.mpr fun f hf => by simp [answers_of_mem_refusal hf])
      (fun key' p hp e he => ?_) (fun id' key' hpc' => absurd hpc' (hdone id' key'))
      fun id' hid => ?_
    · intro f hf e he
      rcases mem_refusal hf with hid | ⟨e', he', hid⟩
      · obtain rfl := Option.some.inj (hid.symm.trans he)
        exact h.dialing _ key hpc
      · obtain rfl := Option.some.inj (hid.symm.trans he)
        exact h.pairs key pair hpair _ he'
    · rw [heq] at hp
      exact .inl ⟨key', p, hp, he⟩
    · rw [heq] at hid
      exact .inl hid

/-- **A step of the forwarding.** -/
theorem Answering.step (h : Answering fs s) (hstep : Portforward.step s l = some s') :
    Answering (fs ++ l.hears.toList) s' := by
  have hsame : Introduced (s.out ++ []) := by
    rw [List.append_nil]
    exact h.introduced
  have hout : s.out = s.out ++ [] := (List.append_nil _).symm
  cases step_cases hstep with
  | opened => exact h.opened _ _
  | dialed hpc => exact h.dialed hpc _
  | @data id flags bytes hpc =>
    have hkeep : (data s id flags bytes).out = s.out ∧ (data s id flags bytes).pairs = s.pairs ∧
        (data s id flags bytes).conns = s.conns ∧
        ∀ id' key, (data s id flags bytes).pc ≠ .dialing id' key := by
      unfold data
      split <;> simp [hpc]
    obtain ⟨hout', hpairs, hconns, hdialing⟩ := hkeep
    exact h.step_of [] (by rw [hout', List.append_nil]) hsame rfl
      (fun key p hp e he => .inl ⟨key, p, hpairs ▸ hp, he⟩)
      (fun id' key hpc' => absurd hpc' (hdialing id' key)) fun id' hid => .inl (hconns ▸ hid)
  | ping hpc =>
    exact h.step_of [_] rfl (h.introduced.concat fun _ hid => by cases hid) rfl
      (fun key p hp e he => .inl ⟨key, p, hp, he⟩) (fun _ _ => .inl) fun _ => .inl
  | @quit f hpc hf =>
    refine h.step_of [] hout hsame ?_ (fun key p hp e he => .inl ⟨key, p, hp, he⟩)
      (fun _ _ hpc' => by cases hpc') fun _ => .inl
    cases f with
    | frame => cases hf
    | _ => rfl
  | accept | flushed =>
    exact h.step_of [] hout hsame rfl (fun key p hp e he => .inl ⟨key, p, hp, he⟩)
      (fun _ _ hpc' => by cases hpc') fun id' hid =>
        .inl (mt (conns_setConn s _ _ id').mpr hid)
  | fromTcp _ hpump =>
    refine h.step_of [_] rfl (h.introduced.concat fun _ hid => ?_) rfl
      (fun key p hp e he => .inl ⟨key, p, hp, he⟩) (fun _ _ => .inl) fun _ => .inl
    obtain rfl := Option.some.inj hid
    exact List.mem_append_left _ (known_of_pump h hpump)
  | eofTcp _ hpump =>
    refine h.step_of [_] rfl (h.introduced.concat fun _ hid => ?_) rfl
      (fun key p hp e he => .inl ⟨key, p, hp, he⟩) (fun _ _ => .inl) fun id' hid =>
        .inl (mt (conns_setConn s _ _ id').mpr hid)
    obtain rfl := Option.some.inj hid
    exact List.mem_append_left _ (known_of_pump h hpump)
  | deadline =>
    exact h.step_of [] hout hsame rfl (fun key p hp e he => .inl ⟨key, p, hp, he⟩)
      (fun _ _ => .inl) fun _ => .inl

end

/-- **The client of a port-forward is answered in its order**, over every run: the SYN_REPLYs and
pings that are written are the answers to what the loop has read; and nothing is written on a stream
before its SYN_REPLY. -/
theorem forward_answers_in_order {ls : List Label} {s : State} (hrun : run step init ls = some s) :
    s.out.filter Outbound.answers = (heard ls).filterMap answer ∧ Introduced s.out := by
  have h : Answering (heard ls) s := by
    refine invariant_run_labels (I := fun ls s => Answering (heard ls) s)
      (fun ls s l s' h hstep => ?_) Answering.init hrun
    rw [heard, filterMap_concat]
    exact h.step hstep
  exact ⟨h.order, h.introduced⟩

/-- A connection is dialed for a stream, and delivers; the client pings. -/
def deliveredRun : List Label :=
  [.recv (.frame (.synStream 1 [("streamType", "data"), ("port", "80")])), .dialed 1 true,
    .fromTcp (1, 0) [7], .recv (.frame (.ping 2))]

theorem forward_answers_in_order_deliveredRun : ∃ s, run step init deliveredRun = some s ∧
    s.out = [.synReply 1, .data 1 0 [7], .ping 2] ∧
    s.out.filter Outbound.answers = (heard deliveredRun).filterMap answer ∧ Introduced s.out :=
  ⟨_, rfl, rfl, @forward_answers_in_order deliveredRun _ rfl⟩

end Portforward

end LightrCri.Spdy

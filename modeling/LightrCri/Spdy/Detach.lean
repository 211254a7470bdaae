import LightrCri.Spdy.Finish

/-!
# An attach ends when the client leaves

The read loop notifies `client_closed` when the client has gone, and the completion path of an
attach, which otherwise waits for the pumps, is told by it. The notification is lost where
`detached` has not been created yet, and it does not come where the read loop waits for stdin
(`View.stalls`). Where neither happens (`Detaches`), `run_exec` ends by its own steps and backstops
after the client has left (`detach_ends`), and not otherwise (`detach_lost`).
-/

namespace LightrCri.Spdy.Exec

open Foundations LightrCri.Stream Function

variable {cfg : Config} {session : StreamSession} {s s' : State} {l : Label}

/-! ## What the read loop comes to -/

/-- What decides what the read loop makes of the frames to come. -/
structure View where
  roles : UInt32 → Option UInt8
  stdin : Bool
  /-- The bytes that the stdin of the process has room for. -/
  room : Nat
  raw : Output → Bool
  /-- The process has not closed the output. -/
  held : Output → Bool
  /-- The output has a pump that has not ended. -/
  live : Output → Bool
  /-- `detached` has been created. -/
  armed : Bool

/-- A pump waits for the process. -/
def View.waits (v : View) : Bool :=
  (v.live .stdout && v.held .stdout) || (v.live .stderr && v.held .stderr)

/-- A payload waits for stdin while a pump waits for the process. -/
def View.blocks (v : View) (n : Nat) : Bool := v.room < n && v.waits

def View.insert (v : View) (id : UInt32) (role : UInt8) : View :=
  { v with roles := update v.roles id (some role) }

def View.spawn (v : View) (role : UInt8) : View :=
  match outputOf role with
  | some o =>
    if v.raw o then { v with raw := update v.raw o false, live := update v.live o true } else v
  | none => v

/-- A payload is written to stdin, of a DATA frame with or without FLAG_FIN. -/
def View.written (v : View) (n : Nat) (fin : Bool) : View :=
  { v with room := v.room - n, stdin := v.stdin && !fin }

/-- With the frames, the read loop can come to wait for stdin while a pump waits for the process,
whatever the process has read by then; a half-close that the loop reads before that ends the attach
if `detached` has been created. -/
def View.stalls (v : View) : List Received → Bool
  | [] => false
  | .frame (.synStream id hdr) :: fs => ((v.insert id (role hdr)).spawn (role hdr)).stalls fs
  | .frame (.data id flags data) :: fs =>
    let fin := flags &&& FLAG_FIN != 0
    if v.roles id = some STDIN ∧ v.stdin = true then
      v.blocks data.length || !(fin && v.armed) && (v.written data.length fin).stalls fs
    else !(fin && v.armed) && v.stalls fs
  | .frame (.ping _) :: fs => v.stalls fs
  | _ :: _ => false

def State.view (s : State) : View where
  roles := s.roles
  stdin := s.stdin
  room := s.world.stdin.capacity - s.world.stdin.buf.length
  raw := s.raw
  held o := !(s.world.out o).closed
  live o := (s.pumps o).any fun p => !p.isEnded
  armed := s.detached != .absent

def State.stalls (s : State) : Bool :=
  match s.readLoop with
  | .replying id r => ((s.view.insert id r).spawn r).stalls s.inbox
  | .inserting id r => ((s.view.insert id r).spawn r).stalls s.inbox
  | .telling _ r => (s.view.spawn r).stalls s.inbox
  | .spawning _ r => (s.view.spawn r).stalls s.inbox
  | .writing f fin =>
    s.view.blocks f.left.length ||
      !(fin && s.view.armed) && (s.view.written f.left.length fin).stalls s.inbox
  | .leaving => false
  | .ended => false
  | _ => s.view.stalls s.inbox

/-! ## The condition -/

/-- The completion path is past its select. -/
def Main.past : Main → Bool
  | .snapshot _ => true
  | .finishing _ _ _ _ => true
  | .grace => true
  | .done => true
  | _ => false

/-- The pump of the output, if there is one, does not wait for the process. -/
def State.drains (s : State) (o : Output) : Prop :=
  ∀ p ∈ s.pumps o, p.isEnded = true ∨ (s.world.out o).closed = true

instance (o : Output) : Decidable (s.drains o) := by
  unfold State.drains
  infer_instance

/-- The completion path waits for nothing but pumps that do not wait for the process. -/
def State.settled (s : State) : Prop :=
  s.main.past = true ∨ s.detached = .fired ∨ ∃ pumps ∈ s.drain, ∀ o ∈ pumps, s.drains o

instance : Decidable s.settled :=
  letI (pumps : List Output) : Decidable (∀ o ∈ pumps, s.drains o) := List.decidableBAll _ pumps
  letI : Decidable (∃ pumps ∈ s.drain, ∀ o ∈ pumps, s.drains o) := Option.decidableExistsMem _
  letI : Decidable (s.detached = .fired ∨ ∃ pumps ∈ s.drain, ∀ o ∈ pumps, s.drains o) :=
    instDecidableOr
  instDecidableOr

/-- The read loop will not wait for stdin, or nothing depends on it. -/
def State.clear (s : State) : Prop :=
  s.stalls = false ∨ s.world.stdin.closed = true ∨ s.settled

instance : Decidable s.clear := by
  unfold State.clear
  infer_instance

/-- When the client leaves, what it has sent does not make the read loop wait for stdin; and when
the loop has ended, `detached` has been created or no pump waits for the process. -/
def Detaches (s : State) : Label → Prop
  | .client f => quits f = true → s.clear
  | .halfClose => s.clear
  | .hangUp => s.clear
  | .readLoop => s.readLoop = .leaving → s.main = .arming → ∀ o, s.drains o
  | _ => True

instance : Decidable (Detaches s l) :=
  match l with
  | .client f => inferInstanceAs (Decidable (quits f = true → s.clear))
  | .halfClose => inferInstanceAs (Decidable s.clear)
  | .hangUp => inferInstanceAs (Decidable s.clear)
  | .readLoop =>
    letI : Decidable (∀ o, s.drains o) := Output.decidableForall
    inferInstanceAs (Decidable (s.readLoop = .leaving → s.main = .arming → ∀ o, s.drains o))
  | .accept _ | .broken | .flushed | .pumpRead _ _ | .pumpSend _ | .pumpFail _ | .pumpEof _ | .reap _
  | .main | .detached | .reaped | .timeout | .process _ => instDecidableTrue

/-- The client closes its side of the transport, or ends the read loop. -/
def Label.closes : Label → Bool
  | .client f => quits f
  | .halfClose => true
  | .hangUp => true
  | _ => false

/-- The client has left. -/
def State.left (s : State) : Prop :=
  s.eof = true ∨ (∃ f ∈ s.inbox, quits f = true) ∨ s.readLoop = .leaving ∨ s.readLoop = .ended

/-! ## With less to wait for -/

/-- The second view waits for less. -/
structure View.Le (v v' : View) : Prop where
  roles : v'.roles = v.roles
  stdin : v'.stdin = v.stdin
  room : v.room ≤ v'.room
  raw : v'.raw = v.raw
  held : ∀ o, v'.held o = true → v.held o = true
  live : ∀ o, v'.live o = true → v.live o = true
  armed : v.armed = true → v'.armed = true

theorem View.Le.waits {v v' : View} (h : v.Le v') (hw : v'.waits = true) : v.waits = true := by
  unfold View.waits at hw ⊢
  simp only [Bool.or_eq_true, Bool.and_eq_true] at hw ⊢
  rcases hw with ⟨hlive, hheld⟩ | ⟨hlive, hheld⟩
  · exact .inl ⟨h.live _ hlive, h.held _ hheld⟩
  · exact .inr ⟨h.live _ hlive, h.held _ hheld⟩

theorem View.Le.insert {v v' : View} (h : v.Le v') (id : UInt32) (r : UInt8) :
    (v.insert id r).Le (v'.insert id r) :=
  ⟨by unfold View.insert; rw [h.roles], h.stdin, h.room, h.raw, h.held, h.live, h.armed⟩

theorem View.Le.spawn {v v' : View} (h : v.Le v') (r : UInt8) : (v.spawn r).Le (v'.spawn r) := by
  unfold View.spawn
  split
  · rename_i o ho
    rw [h.raw]
    split
    · refine ⟨h.roles, h.stdin, h.room, rfl, h.held, fun o' hlive => ?_, h.armed⟩
      dsimp only at hlive ⊢
      rw [update_apply] at hlive ⊢
      split at hlive
      · rename_i heq
        rw [if_pos heq]
      · rename_i hne
        rw [if_neg hne]
        exact h.live o' hlive
    · exact h
  · exact h

theorem View.Le.written {v v' : View} (h : v.Le v') (n : Nat) (fin : Bool) :
    (v.written n fin).Le (v'.written n fin) :=
  ⟨h.roles, by unfold View.written; rw [h.stdin], Nat.sub_le_sub_right h.room n, h.raw, h.held,
    h.live, h.armed⟩

theorem View.Le.blocks {v v' : View} (h : v.Le v') {n : Nat} (hb : v'.blocks n = true) :
    v.blocks n = true := by
  unfold View.blocks at hb ⊢
  rw [Bool.and_eq_true, decide_eq_true_iff] at hb ⊢
  have hroom := h.room
  exact ⟨by omega, h.waits hb.2⟩

/-- The rest of a DATA frame. -/
theorem View.Le.rest {v v' : View} (h : v.Le v') {fin b b' : Bool} (hb : b' = true → b = true)
    (hs : (!(fin && v'.armed) && b') = true) : (!(fin && v.armed) && b) = true := by
  rw [Bool.and_eq_true, Bool.not_eq_true', Bool.and_eq_false_iff] at hs ⊢
  refine ⟨hs.1.imp_right fun ha => ?_, hb hs.2⟩
  by_contra hne
  cases ha.symm.trans (h.armed (Bool.eq_true_of_not_eq_false hne))

/-- **With less to wait for**, the read loop does not come to wait where it did not before. -/
theorem View.Le.stalls {v v' : View} (h : v.Le v') {fs : List Received}
    (hs : v'.stalls fs = true) : v.stalls fs = true := by
  induction fs generalizing v v' with
  | nil => cases hs
  | cons f fs ih =>
    cases f with
    | frame f =>
      cases f with
      | synStream id hdr => exact ih ((h.insert id _).spawn _) hs
      | ping id => exact ih h hs
      | data id flags data =>
        unfold View.stalls at hs ⊢
        dsimp only at hs ⊢
        rw [h.roles, h.stdin] at hs
        split at hs
        · rename_i hcond
          rw [if_pos hcond]
          rw [Bool.or_eq_true] at hs ⊢
          exact hs.imp h.blocks (h.rest (ih (h.written _ _)))
        · rename_i hcond
          rw [if_neg hcond]
          exact h.rest (ih h) hs
    | _ => cases hs

theorem View.stalls_append {v : View} {fs : List Received} {f : Received}
    (h : quits f = true ∨ ∃ g ∈ fs, quits g = true) : v.stalls (fs ++ [f]) = v.stalls fs := by
  induction fs generalizing v with
  | nil =>
    have hf : quits f = true := h.resolve_right fun ⟨_, hg, _⟩ => by cases hg
    cases f with
    | frame => cases hf
    | _ => rfl
  | cons g fs ih =>
    cases g with
    | frame g =>
      have hrest : quits f = true ∨ ∃ g ∈ fs, quits g = true := by
        refine h.imp_right fun ⟨g', hg', hq⟩ => ?_
        rcases List.mem_cons.mp hg' with rfl | hmem
        · cases hq
        · exact ⟨g', hmem, hq⟩
      cases g with
      | synStream id hdr => exact ih hrest
      | ping id => exact ih hrest
      | data id flags data =>
        show View.stalls v (.frame (.data id flags data) :: (fs ++ [f])) = _
        unfold View.stalls
        dsimp only
        rw [ih hrest, ih hrest]
    | _ => rfl

/-- Where the read loop is, with less to wait for. -/
theorem stalls_of_le (hle : s.view.Le s'.view) (hloop : s'.readLoop = s.readLoop)
    (hinbox : s'.inbox = s.inbox) (hs : s'.stalls = true) : s.stalls = true := by
  unfold State.stalls at hs ⊢
  rw [hloop, hinbox] at hs
  revert hs
  cases s.readLoop with
  | replying => exact ((hle.insert _ _).spawn _).stalls
  | inserting => exact ((hle.insert _ _).spawn _).stalls
  | telling => exact (hle.spawn _).stalls
  | spawning => exact (hle.spawn _).stalls
  | writing f fin =>
    intro hs
    dsimp only at hs ⊢
    rw [Bool.or_eq_true] at hs ⊢
    exact hs.imp hle.blocks (hle.rest (hle.written _ _).stalls)
  | leaving => exact id
  | ended => exact id
  | _ => exact hle.stalls

/-- What the client sends after it has left changes nothing. -/
theorem stalls_of_inbox (hview : s'.view = s.view) (hloop : s'.readLoop = s.readLoop)
    (hinbox : ∀ v : View, v.stalls s'.inbox = v.stalls s.inbox) : s'.stalls = s.stalls := by
  unfold State.stalls
  rw [hloop, hview]
  cases s.readLoop with
  | writing f fin =>
    dsimp only
    rw [hinbox]
  | leaving => rfl
  | ended => rfl
  | _ => exact hinbox _

/-! ## What a step keeps -/

theorem past_notify (m : Main) : m.notify.past = m.past := by cases m <;> rfl

theorem past_step (h : s.main.past = true) (hstep : step cfg s l = some s') :
    s'.main.past = true := by
  cases step_cases hstep with
  | tell => exact (past_notify _).trans h
  | tellPump => exact (past_notify _).trans h
  | arm hmain => rw [hmain] at h; cases h
  | finish => rfl
  | goto hgoto =>
    cases hgoto with
    | snapshot => rfl
    | close => rfl
    | graceTimeout => rfl
    | exit => rfl
    | detachAttach => rfl
    | drained hnext =>
      rcases hnext.inv with ⟨-, hmain, -⟩ | ⟨-, hmain, -⟩ | ⟨hmain, -⟩ | ⟨_, hmain, -⟩ <;>
      · rw [hmain] at h
        cases h
    | armBarrier hmain => rw [hmain] at h; cases h
    | rolesIn hmain => rw [hmain] at h; cases h
    | rolesOut hmain => rw [hmain] at h; cases h
    | wakeBarrier hmain => rw [hmain] at h; cases h
    | armGate hmain => rw [hmain] at h; cases h
    | pumpsIn hmain => rw [hmain] at h; cases h
    | pumpsOut hmain => rw [hmain] at h; cases h
    | wakeGate hmain => rw [hmain] at h; cases h
    | detachExec _ _ hmain => rw [hmain] at h; cases h
    | reaped _ hmain => rw [hmain] at h; cases h
    | barrierTimeout hmain => rw [hmain] at h; cases h
    | gateTimeout hmain => rw [hmain] at h; cases h
  | _ => exact h

theorem fired_halfClose {role : Option UInt8} {fin : Bool} (h : s.detached = .fired) :
    (halfClose cfg s role fin).detached = .fired := by
  unfold halfClose
  dsimp only
  rw [h]
  split <;> rfl

theorem fired_step (h : s.detached = .fired) (harmed : s.main = .arming → s.detached = .absent)
    (hstep : step cfg s l = some s') : s'.detached = .fired := by
  cases step_cases hstep with
  | data => exact fired_halfClose (by exact h)
  | broken => exact fired_halfClose h
  | flushed => exact fired_halfClose h
  | leave =>
    dsimp only
    rw [h]
    rfl
  | arm hmain => cases (harmed hmain).symm.trans h
  | _ => exact h

/-- An output stays closed. -/
theorem closed_step {o : Output} (h : (s.world.out o).closed = true)
    (hstep : step cfg s l = some s') : (s'.world.out o).closed = true := by
  cases step_cases hstep with
  | process _ hw => exact World.closed_step h hw
  | accept _ hw =>
    obtain ⟨-, rfl⟩ := World.accept_cases hw
    exact h
  | @pumpRead o' n => exact (World.drain_closed s.world o' n o).trans h
  | _ => exact h

theorem drains_step {o : Output} (h : s.drains o)
    (hraw : s.raw o = false ∨ ∀ id r, s.readLoop ≠ .spawning id r)
    (hstep : step cfg s l = some s') : s'.drains o := by
  have hsame : s'.pumps = s.pumps → s'.drains o := by
    intro hpumps p hp
    rw [hpumps] at hp
    exact (h p hp).imp_right fun hclosed => closed_step hclosed hstep
  have hpump : ∀ o' p q, s.pumps o' = some p → (p.isEnded = true → q.isEnded = true) →
      s'.pumps = update s.pumps o' (some q) → s'.drains o := by
    intro o' p q hp hq hpumps p' hp'
    rw [hpumps, update_apply] at hp'
    split at hp'
    · rename_i heq
      obtain rfl := Option.some.inj hp'
      exact (h p (heq ▸ hp)).imp hq fun hclosed => closed_step hclosed hstep
    · exact (h p' hp').imp_right fun hclosed => closed_step hclosed hstep
  cases step_cases hstep with
  | @spawn id r o' hloop ho hraw' =>
    have hne : o ≠ o' := by
      rintro rfl
      rcases hraw with hraw | hspawn
      · cases hraw.symm.trans hraw'
      · exact hspawn id r hloop
    intro p hp
    dsimp only at hp
    rw [update_of_ne hne] at hp
    exact h p hp
  | pumpRead hp => exact hpump _ _ _ hp (fun he => by cases he) rfl
  | pumpSend hp => exact hpump _ _ _ hp (fun he => by cases he) rfl
  | pumpFail hp => exact hpump _ _ _ hp (fun _ => rfl) rfl
  | pumpEof hp => exact hpump _ _ _ hp (fun _ => rfl) rfl
  | _ => exact hsame rfl

theorem settled_step (h : s.settled) (hregistered : Registered session s)
    (harmed : s.main = .arming → s.detached = .absent) (hstep : step cfg s l = some s') :
    s'.settled := by
  rcases h with hpast | hfired | ⟨pumps, hdrain, hpumps⟩
  · exact .inl (past_step hpast hstep)
  · exact .inr (.inl (fired_step hfired harmed hstep))
  · have hsame : s'.drain = s.drain → s'.settled := by
      intro heq
      refine .inr (.inr ⟨pumps, heq ▸ hdrain, fun o ho => drains_step (hpumps o ho) (.inl ?_) hstep⟩)
      by_contra hraw
      have hnone := hregistered.raw o (Bool.eq_true_of_not_eq_false hraw)
      exact hregistered.drain pumps hdrain o ho hnone
    cases step_cases hstep with
    | take _ hnone => cases hnone.symm.trans hdrain
    | _ => exact hsame rfl

/-- The half-close of a frame that was read: it is signalled, or changes nothing that matters. -/
theorem stalls_halfClose {inbox : List Received} {role : Option UInt8} {fin : Bool} {v : View}
    (hattach : cfg.attach = true)
    (hv : State.view (halfClose cfg { s with inbox := inbox } role fin) = v)
    (hs : (!(fin && s.view.armed) && v.stalls inbox) = false) :
    (halfClose cfg { s with inbox := inbox } role fin).stalls = false ∨
      (halfClose cfg { s with inbox := inbox } role fin).settled := by
  rw [Bool.and_eq_false_iff, Bool.not_eq_false', Bool.and_eq_true] at hs
  rcases hs with ⟨rfl, harmed⟩ | hs
  · right
    refine .inr (.inl ?_)
    unfold halfClose
    dsimp only
    rw [if_pos ⟨rfl, hattach⟩]
    have hne : s.detached ≠ .absent := bne_iff_ne.mp harmed
    rcases hd : s.detached with _ | _ | _
    · exact (hne hd).elim
    · rfl
    · rfl
  · left
    show State.stalls { halfClose cfg { s with inbox := inbox } role fin with
      readLoop := .reading } = false
    unfold State.stalls
    show View.stalls (State.view (halfClose cfg { s with inbox := inbox } role fin)) inbox = false
    rw [hv]
    exact hs

theorem view_halfClose (cfg : Config) (s : State) (role : Option UInt8) (fin : Bool) :
    (halfClose cfg s role fin).view =
      { s.view with stdin := if fin = true ∧ role = some STDIN then false else s.stdin } := by
  have harmed : (halfClose cfg s role fin).view.armed = s.view.armed := by
    unfold halfClose State.view
    dsimp only
    split
    · cases s.detached <;> rfl
    · rfl
  unfold View.armed at harmed
  show View.mk _ _ _ _ _ _ _ = View.mk _ _ _ _ _ _ _
  exact congrArg _ harmed

/-- **What the read loop comes to** is not changed by its own steps, and the others make it wait for
less. -/
theorem stalls_step (h : s.stalls = false) (hattach : cfg.attach = true) (hleft : s.left)
    (hstep : step cfg s l = some s') :
    s'.stalls = false ∨ s'.world.stdin.closed = true ∨ s'.settled := by
  have hle : s.view.Le s'.view → s'.readLoop = s.readLoop → s'.inbox = s.inbox →
      s'.stalls = false := by
    intro hle hloop hinbox
    by_contra hs
    cases h.symm.trans (stalls_of_le hle hloop hinbox (Bool.eq_true_of_not_eq_false hs))
  have hlive : ∀ o p q, s.pumps o = some p → (p.isEnded = true → q.isEnded = true) → ∀ o',
      (update s.pumps o (some q) o').any (fun p => !p.isEnded) = true →
      (s.pumps o').any (fun p => !p.isEnded) = true := by
    intro o p q hp hq o' hlive
    rw [update_apply] at hlive
    split at hlive
    · rename_i heq
      rw [heq, hp]
      rw [Option.any_some, Bool.not_eq_true'] at hlive ⊢
      by_contra hne
      cases hlive.symm.trans (hq (Bool.eq_true_of_not_eq_false hne))
    · exact hlive
  unfold State.stalls at h
  cases step_cases hstep with
  | @client f heof =>
    left
    rcases hleft with heof' | hquits | hloop | hloop
    · cases heof.symm.trans heof'
    · have hsame := @stalls_of_inbox s { s with inbox := s.inbox ++ [f] } rfl rfl fun v =>
        View.stalls_append (.inr hquits)
      exact hsame.trans h
    · unfold State.stalls
      dsimp only
      rw [hloop]
    · unfold State.stalls
      dsimp only
      rw [hloop]
  | halfClose => exact .inl h
  | hangUp => exact .inl h
  | process ha hw =>
    obtain ⟨hcapacity, hbuf, -, -⟩ := World.step_stdin hw
    refine .inl (hle ⟨rfl, rfl, ?_, rfl, fun o hheld => ?_, fun _ => id, id⟩ rfl rfl)
    · unfold State.view
      dsimp only
      omega
    · have hopen := (Bool.not_eq_true' _).mp hheld
      refine (Bool.not_eq_true' _).mpr ?_
      by_contra hne
      cases hopen.symm.trans (World.closed_step (Bool.eq_true_of_not_eq_false hne) hw)
  | opening hloop hinbox =>
    rw [hloop, hinbox] at h
    exact .inl h
  | @stdin id flags data inbox hloop hinbox hrole hstdin =>
    left
    rw [hloop, hinbox] at h
    dsimp only at h
    unfold View.stalls at h
    dsimp only at h
    rw [if_pos ⟨hrole, hstdin⟩] at h
    show (s.view.blocks (FileWrite.start data).left.length || _) = false
    rw [FileWrite.left_start]
    exact h
  | @data id flags data inbox hloop hinbox hrole =>
    rw [hloop, hinbox] at h
    dsimp only at h
    unfold View.stalls at h
    dsimp only at h
    rw [if_neg fun hcond => by cases hcond.2.symm.trans (hrole hcond.1)] at h
    refine (stalls_halfClose hattach ((view_halfClose _ _ _ _).trans ?_) h).imp_right .inr
    have hstdin : (if (flags &&& FLAG_FIN != 0) = true ∧ s.roles id = some STDIN then false
        else s.stdin) = s.stdin := by
      split
      · rename_i hcond
        exact (hrole hcond.2).symm
      · rfl
    dsimp only
    rw [hstdin]
    rfl
  | ping hloop hinbox =>
    left
    rw [hloop, hinbox] at h
    unfold State.stalls
    dsimp only
    rw [hloop]
    exact h
  | quit => exact .inl rfl
  | eof => exact .inl rfl
  | reply hloop =>
    rw [hloop] at h
    exact .inl h
  | insert hloop =>
    rw [hloop] at h
    exact .inl h
  | tell hloop =>
    rw [hloop] at h
    exact .inl h
  | @spawn id r o hloop ho hraw =>
    left
    rw [hloop] at h
    dsimp only at h
    unfold View.spawn at h
    rw [ho] at h
    dsimp only at h
    have hraw' : s.view.raw o = true := hraw
    rw [if_pos hraw'] at h
    have hspawned : update s.view.live o true =
        fun o' => (update s.pumps o (some (.reading id)) o').any fun p => !p.isEnded := by
      funext o'
      rw [update_apply, update_apply]
      split <;> rfl
    rw [hspawned] at h
    exact h
  | @noSpawn id r hloop ho =>
    left
    rw [hloop] at h
    have hsame : s.view.spawn r = s.view := by
      unfold View.spawn
      split
      · rename_i o ho'
        exact if_neg fun hraw => by cases hraw.symm.trans (ho o ho')
      · rfl
    dsimp only at h
    rw [hsame] at h
    exact h
  | push hloop =>
    rw [hloop] at h
    exact .inl h
  | tellPump hloop =>
    rw [hloop] at h
    exact .inl h
  | leave => exact .inl rfl
  | @accept f fin n w hloop hw =>
    left
    obtain ⟨⟨hn, hhanded, hroom, -⟩, rfl⟩ := World.accept_cases hw
    have hleft : f.left.length = f.handed.length + f.rest.length := List.length_append
    have hlen : (s.world.stdin.buf ++ f.handed.take n).length = s.world.stdin.buf.length + n := by
      rw [List.length_append, List.length_take_of_le hhanded]
    have hview : State.view { s with
        world := { s.world with
          stdin := { s.world.stdin with buf := s.world.stdin.buf ++ f.handed.take n }
          received := update s.world.received .stdin
            (s.world.received .stdin ++ f.handed.take n) }
        readLoop := .writing (f.wrote n) fin } =
        { s.view with room := s.view.room - n } := by
      unfold State.view
      dsimp only
      rw [hlen, Nat.sub_add_eq]
    have hfits : n ≤ s.view.room := hroom
    unfold State.stalls
    dsimp only
    rw [hview, FileWrite.left_wrote f hhanded, List.length_drop]
    rw [hloop] at h
    dsimp only at h
    have hblocks : View.blocks { s.view with room := s.view.room - n } (f.left.length - n) =
        s.view.blocks f.left.length := by
      have hiff : s.view.room - n < f.left.length - n ↔ s.view.room < f.left.length := by omega
      unfold View.blocks
      rw [decide_eq_decide.mpr hiff]
      rfl
    have hwritten : View.written { s.view with room := s.view.room - n } (f.left.length - n) fin =
        s.view.written f.left.length fin := by
      have heq : s.view.room - n - (f.left.length - n) = s.view.room - f.left.length := by omega
      unfold View.written
      dsimp only
      rw [heq]
    rw [hblocks, hwritten]
    exact h
  | broken hloop hclosed => exact .inr (.inl hclosed)
  | @flushed f fin hloop hnil =>
    rw [hloop] at h
    dsimp only at h
    rw [hnil, Bool.or_eq_false_iff] at h
    refine (@stalls_halfClose cfg s s.inbox _ fin _ hattach
      ((view_halfClose _ _ _ _).trans ?_) h.2).imp_right .inr
    unfold View.written
    cases fin with
    | true =>
      dsimp only
      rw [if_pos ⟨rfl, rfl⟩, Bool.not_true, Bool.and_false]
      rfl
    | false =>
      dsimp only
      rw [if_neg fun hc => Bool.noConfusion hc.1, Bool.not_false, Bool.and_true]
      rfl
  | @pumpRead o n id hp =>
    refine .inl (hle ⟨rfl, rfl, le_rfl, rfl, fun o' hheld => ?_,
      hlive _ _ _ hp fun he => (by cases he), fun harmed => harmed⟩ rfl rfl)
    have hopen : (!((s.world.drain o n).out o').closed) = true := hheld
    rw [World.drain_closed] at hopen
    exact hopen
  | pumpSend hp =>
    exact .inl (hle ⟨rfl, rfl, le_rfl, rfl, fun _ => id,
      hlive _ _ _ hp fun he => (by cases he), id⟩ rfl rfl)
  | pumpFail hp =>
    exact .inl (hle ⟨rfl, rfl, le_rfl, rfl, fun _ => id, hlive _ _ _ hp fun _ => rfl, id⟩ rfl rfl)
  | pumpEof hp =>
    exact .inl (hle ⟨rfl, rfl, le_rfl, rfl, fun _ => id, hlive _ _ _ hp fun _ => rfl, id⟩ rfl rfl)
  | arm => exact .inl (hle ⟨rfl, rfl, le_rfl, rfl, fun _ => id, fun _ => id, fun _ => rfl⟩ rfl rfl)
  | _ => exact .inl h

/-! ## The invariant -/

structure Leaves (session : StreamSession) (s : State) : Prop where
  registered : Registered session s
  armed : s.main = .arming ↔ s.detached = .absent
  /-- An attach does not wait for its reaper. -/
  select : s.main.stage ≤ 3 ∨ s.main.past = true
  ended : s.readLoop = .ended → s.settled ∨ ∀ o, s.drains o
  clear : s.left → s.clear

theorem Leaves.init (hsession : cfg.session = some session) (w : World) :
    Leaves session (init cfg w) := by
  have hmain : (Exec.init cfg w).main = .arming := by
    unfold Exec.init
    rw [hsession]
    rfl
  refine ⟨.init hsession w, ⟨fun _ => rfl, fun _ => hmain⟩, .inl ?_, fun h => (by cases h),
    fun h => ?_⟩
  · rw [hmain]
    decide
  · rcases h with h | ⟨f, hf, -⟩ | h | h
    · cases h
    · cases hf
    · cases h
    · cases h

theorem notify_arming {m : Main} : m.notify = .arming ↔ m = .arming := by
  cases m with
  | arming => exact Iff.rfl
  | _ => exact ⟨fun h => (by cases h), fun h => by cases h⟩

theorem notify_absent {d : Notified} : d.notify = .absent ↔ d = .absent := by
  cases d with
  | absent => exact Iff.rfl
  | _ => exact ⟨fun h => (by cases h), fun h => by cases h⟩

theorem halfClose_absent {role : Option UInt8} {fin : Bool} :
    (halfClose cfg s role fin).detached = .absent ↔ s.detached = .absent := by
  unfold halfClose
  dsimp only
  split
  · exact notify_absent
  · exact Iff.rfl

theorem Goto.not_arming {m : Main} (h : Goto cfg s l m) : s.main ≠ .arming ∧ m ≠ .arming := by
  have hof : ∀ {a b : Main}, s.main = a → a ≠ .arming → b ≠ .arming →
      s.main ≠ .arming ∧ b ≠ .arming := by
    rintro a b rfl ha hb
    exact ⟨ha, hb⟩
  cases h with
  | drained hnext =>
    rcases hnext.inv with ⟨-, hmain, rfl⟩ | ⟨-, hmain, rfl⟩ | ⟨hmain, rfl⟩ | ⟨_, hmain, rfl⟩ <;>
      exact hof hmain (fun he => by cases he) fun he => by cases he
  | detachAttach _ _ hmain =>
    refine ⟨fun he => ?_, fun he => by cases he⟩
    rw [he] at hmain
    cases hmain
  | detachExec _ _ hmain => exact hof hmain (fun he => by cases he) fun he => by cases he
  | reaped _ hmain => exact hof hmain (fun he => by cases he) fun he => by cases he
  | armBarrier hmain => exact hof hmain (fun he => by cases he) fun he => by cases he
  | rolesIn hmain => exact hof hmain (fun he => by cases he) fun he => by cases he
  | rolesOut hmain => exact hof hmain (fun he => by cases he) fun he => by cases he
  | wakeBarrier hmain => exact hof hmain (fun he => by cases he) fun he => by cases he
  | armGate hmain => exact hof hmain (fun he => by cases he) fun he => by cases he
  | pumpsIn hmain => exact hof hmain (fun he => by cases he) fun he => by cases he
  | pumpsOut hmain => exact hof hmain (fun he => by cases he) fun he => by cases he
  | wakeGate hmain => exact hof hmain (fun he => by cases he) fun he => by cases he
  | exit hmain => exact hof hmain (fun he => by cases he) fun he => by cases he
  | snapshot hmain => exact hof hmain (fun he => by cases he) fun he => by cases he
  | close hmain => exact hof hmain (fun he => by cases he) fun he => by cases he
  | barrierTimeout hmain => exact hof hmain (fun he => by cases he) fun he => by cases he
  | gateTimeout hmain => exact hof hmain (fun he => by cases he) fun he => by cases he
  | graceTimeout hmain => exact hof hmain (fun he => by cases he) fun he => by cases he

theorem armed_step (h : s.main = .arming ↔ s.detached = .absent)
    (hstep : step cfg s l = some s') : s'.main = .arming ↔ s'.detached = .absent := by
  cases step_cases hstep with
  | data => exact h.trans (Iff.symm halfClose_absent)
  | broken => exact h.trans (Iff.symm halfClose_absent)
  | flushed => exact h.trans (Iff.symm halfClose_absent)
  | tell => exact notify_arming.trans h
  | tellPump => exact notify_arming.trans h
  | leave => exact h.trans notify_absent.symm
  | arm => exact ⟨fun he => (by cases he), fun he => by cases he⟩
  | finish hmain =>
    refine ⟨fun he => (by cases he), fun he => ?_⟩
    cases hmain.symm.trans (h.mpr he)
  | goto hgoto =>
    obtain ⟨hmain, hm⟩ := hgoto.not_arming
    exact ⟨fun he => (hm he).elim, fun he => (hmain (h.mpr he)).elim⟩
  | _ => exact h

theorem select_step (hattach : cfg.attach = true) (h : s.main.stage ≤ 3 ∨ s.main.past = true)
    (hstep : step cfg s l = some s') : s'.main.stage ≤ 3 ∨ s'.main.past = true := by
  cases step_cases hstep with
  | tell =>
    dsimp only
    rw [notify_stage, past_notify]
    exact h
  | tellPump =>
    dsimp only
    rw [notify_stage, past_notify]
    exact h
  | arm => exact .inl (show 1 ≤ 3 by decide)
  | finish => exact .inr rfl
  | goto hgoto =>
    cases hgoto with
    | drained hnext =>
      rcases hnext.inv with ⟨-, -, rfl⟩ | ⟨hexec, -, -⟩ | ⟨hmain, -⟩ | ⟨_, -, rfl⟩
      · exact .inr rfl
      · cases hexec.symm.trans hattach
      · rw [hmain] at h
        rcases h with h | h
        · exact absurd h (by decide)
        · cases h
      · exact .inr rfl
    | exit => exact .inr rfl
    | snapshot => exact .inr rfl
    | close => exact .inr rfl
    | graceTimeout => exact .inr rfl
    | detachAttach => exact .inr rfl
    | detachExec hexec => cases hexec.symm.trans hattach
    | reaped hexec => cases hexec.symm.trans hattach
    | armBarrier => exact .inl (show 1 ≤ 3 by decide)
    | rolesOut => exact .inl (show 1 ≤ 3 by decide)
    | wakeBarrier => exact .inl (show 1 ≤ 3 by decide)
    | rolesIn => exact .inl (show 2 ≤ 3 by decide)
    | armGate => exact .inl (show 2 ≤ 3 by decide)
    | pumpsOut => exact .inl (show 2 ≤ 3 by decide)
    | wakeGate => exact .inl (show 2 ≤ 3 by decide)
    | barrierTimeout => exact .inl (show 2 ≤ 3 by decide)
    | pumpsIn => exact .inl le_rfl
    | gateTimeout => exact .inl le_rfl
  | _ => exact h

/-- It is the client that leaves. -/
theorem closes_of_left (h : s'.left) (hstep : step cfg s l = some s') :
    s.left ∨ l.closes = true := by
  have hread : s'.eof = s.eof → (∀ f ∈ s'.inbox, f ∈ s.inbox) → s'.readLoop ≠ .leaving →
      s'.readLoop ≠ .ended → s.left ∨ l.closes = true := by
    intro heof hinbox hleaving hended
    rcases h with h | ⟨f, hf, hq⟩ | h | h
    · exact .inl (.inl (heof ▸ h))
    · exact .inl (.inr (.inl ⟨f, hinbox f hf, hq⟩))
    · exact (hleaving h).elim
    · exact (hended h).elim
  have htail : ∀ {f inbox}, s.inbox = f :: inbox → ∀ g ∈ inbox, g ∈ s.inbox := by
    intro f inbox hinbox g hg
    rw [hinbox]
    exact List.mem_cons_of_mem _ hg
  have hmove : s'.eof = s.eof → s'.inbox = s.inbox → s'.readLoop ≠ .leaving →
      s'.readLoop ≠ .ended → s.left ∨ l.closes = true := by
    intro heof hinbox
    exact hread heof fun f hf => hinbox ▸ hf
  cases step_cases hstep with
  | @client f =>
    rcases h with h | ⟨g, hg, hq⟩ | h | h
    · exact .inl (.inl h)
    · rcases List.mem_append.mp hg with hold | hnew
      · exact .inl (.inr (.inl ⟨g, hold, hq⟩))
      · obtain rfl := List.mem_singleton.mp hnew
        exact .inr hq
    · exact .inl (.inr (.inr (.inl h)))
    · exact .inl (.inr (.inr (.inr h)))
  | halfClose => exact .inr rfl
  | hangUp => exact .inr rfl
  | opening _ hinbox =>
    exact hread rfl (htail hinbox) (fun he => by cases he) fun he => by cases he
  | stdin _ hinbox =>
    exact hread rfl (htail hinbox) (fun he => by cases he) fun he => by cases he
  | data _ hinbox =>
    exact hread rfl (htail hinbox) (fun he => by cases he) fun he => by cases he
  | ping hloop hinbox =>
    exact hread rfl (htail hinbox) (fun he => by cases hloop.symm.trans he)
      fun he => by cases hloop.symm.trans he
  | @quit f inbox _ hinbox hf => exact .inl (.inr (.inl ⟨f, hinbox ▸ List.mem_cons_self, hf⟩))
  | eof _ _ heof => exact .inl (.inl heof)
  | reply => exact hmove rfl rfl (fun he => by cases he) fun he => by cases he
  | insert => exact hmove rfl rfl (fun he => by cases he) fun he => by cases he
  | tell => exact hmove rfl rfl (fun he => by cases he) fun he => by cases he
  | spawn => exact hmove rfl rfl (fun he => by cases he) fun he => by cases he
  | noSpawn => exact hmove rfl rfl (fun he => by cases he) fun he => by cases he
  | push => exact hmove rfl rfl (fun he => by cases he) fun he => by cases he
  | tellPump => exact hmove rfl rfl (fun he => by cases he) fun he => by cases he
  | leave hloop => exact .inl (.inr (.inr (.inl hloop)))
  | accept => exact hmove rfl rfl (fun he => by cases he) fun he => by cases he
  | broken => exact hmove rfl rfl (fun he => by cases he) fun he => by cases he
  | flushed => exact hmove rfl rfl (fun he => by cases he) fun he => by cases he
  | _ => exact .inl h

/-- A client that has left has left for good. -/
theorem left_step (h : s.left) (hstep : step cfg s l = some s') : s'.left := by
  -- the read loop is not out of the loop yet
  have hread : ∀ {loop}, s.readLoop = loop → loop ≠ .leaving → loop ≠ .ended → s'.eof = s.eof →
      (∀ f ∈ s.inbox, quits f = true → f ∈ s'.inbox) → s'.left := by
    intro loop hloop hleaving hended heof hinbox
    rcases h with h | ⟨f, hf, hq⟩ | h | h
    · exact .inl (heof.trans h)
    · exact .inr (.inl ⟨f, hinbox f hf hq, hq⟩)
    · exact (hleaving (hloop.symm.trans h)).elim
    · exact (hended (hloop.symm.trans h)).elim
  have htail : ∀ {f inbox}, s.inbox = f :: inbox → quits f = false →
      ∀ g ∈ s.inbox, quits g = true → g ∈ inbox := by
    intro f inbox hinbox hf g hg hq
    rw [hinbox] at hg
    rcases List.mem_cons.mp hg with rfl | hmem
    · cases hf.symm.trans hq
    · exact hmem
  have hmove : ∀ {loop}, s.readLoop = loop → loop ≠ .leaving → loop ≠ .ended → s'.eof = s.eof →
      s'.inbox = s.inbox → s'.left := by
    intro loop hloop hleaving hended heof hinbox
    exact hread hloop hleaving hended heof fun f hf _ => hinbox ▸ hf
  cases step_cases hstep with
  | client =>
    rcases h with h | ⟨f, hf, hq⟩ | h | h
    · exact .inl h
    · exact .inr (.inl ⟨f, List.mem_append_left _ hf, hq⟩)
    · exact .inr (.inr (.inl h))
    · exact .inr (.inr (.inr h))
  | halfClose => exact .inl rfl
  | hangUp => exact .inl rfl
  | opening hloop hinbox =>
    exact hread hloop (fun he => by cases he) (fun he => by cases he) rfl (htail hinbox rfl)
  | stdin hloop hinbox =>
    exact hread hloop (fun he => by cases he) (fun he => by cases he) rfl (htail hinbox rfl)
  | data hloop hinbox =>
    exact hread hloop (fun he => by cases he) (fun he => by cases he) rfl (htail hinbox rfl)
  | ping hloop hinbox =>
    exact hread hloop (fun he => by cases he) (fun he => by cases he) rfl (htail hinbox rfl)
  | quit => exact .inr (.inr (.inl rfl))
  | eof => exact .inr (.inr (.inl rfl))
  | reply hloop => exact hmove hloop (fun he => by cases he) (fun he => by cases he) rfl rfl
  | insert hloop => exact hmove hloop (fun he => by cases he) (fun he => by cases he) rfl rfl
  | tell hloop => exact hmove hloop (fun he => by cases he) (fun he => by cases he) rfl rfl
  | spawn hloop => exact hmove hloop (fun he => by cases he) (fun he => by cases he) rfl rfl
  | noSpawn hloop => exact hmove hloop (fun he => by cases he) (fun he => by cases he) rfl rfl
  | push hloop => exact hmove hloop (fun he => by cases he) (fun he => by cases he) rfl rfl
  | tellPump hloop => exact hmove hloop (fun he => by cases he) (fun he => by cases he) rfl rfl
  | leave => exact .inr (.inr (.inr rfl))
  | accept hloop => exact hmove hloop (fun he => by cases he) (fun he => by cases he) rfl rfl
  | broken hloop => exact hmove hloop (fun he => by cases he) (fun he => by cases he) rfl rfl
  | flushed hloop => exact hmove hloop (fun he => by cases he) (fun he => by cases he) rfl rfl
  | _ => exact h

theorem left_of_closes (h : l.closes = true) (hstep : step cfg s l = some s') : s'.left := by
  cases l with
  | client f =>
    cases step_cases hstep with
    | client =>
      exact .inr (.inl ⟨f, List.mem_append_right _ (List.mem_singleton.mpr rfl), h⟩)
    | goto hgoto => cases hgoto
  | halfClose =>
    cases step_cases hstep with
    | halfClose => exact .inl rfl
    | goto hgoto => cases hgoto
  | hangUp =>
    cases step_cases hstep with
    | hangUp => exact .inl rfl
    | goto hgoto => cases hgoto
  | _ => cases h

/-- The client's leaving, where it does not make the read loop wait for stdin. -/
theorem clear_closes (h : s.clear) (hl : l.closes = true) (hstep : step cfg s l = some s') :
    s'.clear := by
  cases l with
  | client f =>
    cases step_cases hstep with
    | client =>
      refine h.imp_left fun hs => ?_
      have hsame := @stalls_of_inbox s { s with inbox := s.inbox ++ [f] } rfl rfl fun v =>
        View.stalls_append (.inl hl)
      exact hsame.trans hs
    | goto hgoto => cases hgoto
  | halfClose =>
    cases step_cases hstep with
    | halfClose => exact h
    | goto hgoto => cases hgoto
  | hangUp =>
    cases step_cases hstep with
    | hangUp => exact h
    | goto hgoto => cases hgoto
  | _ => cases hl

theorem clear_step (h : s.clear) (hattach : cfg.attach = true) (hleft : s.left)
    (hregistered : Registered session s) (harmed : s.main = .arming ↔ s.detached = .absent)
    (hstep : step cfg s l = some s') : s'.clear := by
  rcases h with hstalls | hclosed | hsettled
  · exact stalls_step hstalls hattach hleft hstep
  · refine .inr (.inl ?_)
    cases step_cases hstep with
    | process _ hw => exact (World.step_stdin hw).2.2.1 hclosed
    | accept _ hw =>
      obtain ⟨-, rfl⟩ := World.accept_cases hw
      exact hclosed
    | _ => exact hclosed
  · exact .inr (.inr (settled_step hsettled hregistered harmed.mp hstep))

theorem Leaves.step (h : Leaves session s) (hattach : cfg.attach = true) (hl : Detaches s l)
    (hstep : Exec.step cfg s l = some s') : Leaves session s' := by
  have hended : s.readLoop = .ended → s'.settled ∨ ∀ o, s'.drains o := by
    intro hloop
    refine (h.ended hloop).imp (fun hs => settled_step hs h.registered h.armed.mp hstep) ?_
    intro hdrains o
    refine drains_step (hdrains o) (.inr fun id r hspawn => ?_) hstep
    cases hloop.symm.trans hspawn
  refine ⟨h.registered.step hstep, armed_step h.armed hstep, select_step hattach h.select hstep,
    ?_, fun hleft => ?_⟩
  · cases step_cases hstep with
    | leave hloop =>
      intro _
      by_cases hmain : s.main = .arming
      · refine .inr fun o => drains_step (hl hloop hmain o) (.inr fun id r hspawn => ?_) hstep
        cases hloop.symm.trans hspawn
      · left
        refine .inr (.inl ?_)
        dsimp only
        rcases hd : s.detached with _ | _ | _
        · exact (hmain (h.armed.mpr hd)).elim
        · rfl
        · rfl
    | opening => exact fun he => by cases he
    | stdin => exact fun he => by cases he
    | data => exact fun he => by cases he
    | quit => exact fun he => by cases he
    | eof => exact fun he => by cases he
    | reply => exact fun he => by cases he
    | insert => exact fun he => by cases he
    | tell => exact fun he => by cases he
    | spawn => exact fun he => by cases he
    | noSpawn => exact fun he => by cases he
    | push => exact fun he => by cases he
    | tellPump => exact fun he => by cases he
    | accept => exact fun he => by cases he
    | broken => exact fun he => by cases he
    | flushed => exact fun he => by cases he
    | _ => exact hended
  · rcases closes_of_left hleft hstep with hold | hcloses
    · exact clear_step (h.clear hold) hattach hold h.registered h.armed hstep
    · have hclear : s.clear := by
        cases l with
        | client f => exact hl hcloses
        | halfClose => exact hl
        | hangUp => exact hl
        | _ => cases hcloses
      exact clear_closes hclear hcloses hstep

/-! ## To the end -/

theorem detaches_of_driver (hmain : s.main ≠ .arming) (hl : l.driver = true) : Detaches s l := by
  cases l with
  | client => cases hl
  | halfClose => cases hl
  | hangUp => cases hl
  | readLoop => exact fun _ harming => (hmain harming).elim
  | _ => trivial

/-- A step of `run_exec` or its tasks, a backstop perhaps, brings the end nearer. -/
def Closer (cfg : Config) (s : State) : Prop :=
  ∃ l s', l.driver = true ∧ Detaches s l ∧ step cfg s l = some s' ∧ s'.rank < s.rank

theorem Nearer.closer (h : Nearer cfg s) (hmain : s.main ≠ .arming) : Closer cfg s := by
  obtain ⟨l, s', hown, hstep, hlt⟩ := h
  exact ⟨l, s', hown.1, detaches_of_driver hmain hown.1, hstep, hlt⟩

theorem timeout_closer {m : Main} (harming : s.main ≠ .arming) (hlive : s.main ≠ .done)
    (hstep : timeoutStep s = some { s with main := m }) (hlt : m.rank < s.main.rank) :
    Closer cfg s :=
  ⟨.timeout, _, rfl, detaches_of_driver harming rfl, (if_neg hlive).trans hstep, goto_rank hlt⟩

/-- Where no pump waits for the process, each has ended or is on a closed output. -/
theorem drains_of_waits (h : s.view.waits = false) (o : Output) : s.drains o := by
  intro p hp
  by_contra hne
  push Not at hne
  obtain ⟨hlive, hopen⟩ := hne
  have hview : s.view.live o = true ∧ s.view.held o = true := by
    have hp' : s.pumps o = some p := hp
    unfold State.view
    dsimp only
    rw [hp', Option.any_some, Bool.not_eq_true', Bool.not_eq_true']
    exact ⟨Bool.eq_false_iff.mpr hlive, Bool.eq_false_iff.mpr hopen⟩
  unfold View.waits at h
  rw [Bool.or_eq_false_iff] at h
  cases o with
  | stdout =>
    rw [hview.1, hview.2] at h
    cases h.1
  | stderr =>
    rw [hview.1, hview.2] at h
    cases h.2

/-- The drain comes to its end where its pumps do not wait for the process. -/
theorem Leaves.drain_nearer (h : Leaves session s) (hattach : cfg.attach = true)
    (hmain : s.main = .select) (hdrains : ∀ pumps ∈ s.drain, ∀ o ∈ pumps, s.drains o) :
    Nearer cfg s := by
  have hlive : s.main ≠ .done := by
    rw [hmain]
    exact fun he => by cases he
  by_cases hended : ∀ pumps ∈ s.drain, ∀ o ∈ pumps, s.pumpEnded o = true
  · refine Exec.drain_nearer hlive (.snapshot 0) ?_ ?_ hended
    · unfold mainStep
      rw [hmain, hattach]
      rfl
    · rw [hmain]
      exact show 3 < 6 by decide
  · push Not at hended
    obtain ⟨pumps, hdrain, o, ho, hne⟩ := hended
    obtain ⟨p, hp⟩ := Option.ne_none_iff_exists'.mp (h.registered.drain pumps hdrain o ho)
    unfold State.pumpEnded at hne
    rw [hp, Option.any_some] at hne
    have hclosed := (hdrains pumps hdrain o ho p hp).resolve_left hne
    exact pump_nearer hlive hp (Bool.eq_false_iff.mpr hne) hclosed

/-- In the completion select, the client having left. -/
theorem Leaves.select_nearer (h : Leaves session s) (hattach : cfg.attach = true) (hleft : s.left)
    (hmain : s.main = .select) : Nearer cfg s := by
  have hlive : s.main ≠ .done := by
    rw [hmain]
    exact fun he => by cases he
  by_cases hfired : s.detached = .fired
  · have hstep : taskStep cfg s .detached = some { s with main := .snapshot 0 } := by
      unfold taskStep detachStep
      dsimp only
      rw [if_pos hfired, hmain, hattach]
      rfl
    have hown : Label.own .detached := ⟨rfl, fun he => by cases he⟩
    refine ⟨.detached, _, hown, own_step hown hlive hstep, goto_rank ?_⟩
    rw [hmain]
    exact show 3 < 6 by decide
  by_cases hdrain : ∃ pumps ∈ s.drain, ∀ o ∈ pumps, s.drains o
  · obtain ⟨pumps, hdrain, hdrains⟩ := hdrain
    refine h.drain_nearer hattach hmain fun pumps' hdrain' o ho => hdrains o ?_
    obtain rfl := Option.some.inj (hdrain.symm.trans hdrain')
    exact ho
  have hunsettled : ¬ s.settled := by
    rintro (hpast | hf | hd)
    · rw [hmain] at hpast
      cases hpast
    · exact hfired hf
    · exact hdrain hd
  -- where the read loop does not go on, no pump waits for the process
  have hall : (∀ o, s.drains o) → Nearer cfg s := by
    intro hdrains
    exact h.drain_nearer hattach hmain fun pumps hd o _ => hdrains o
  by_cases hended : s.readLoop = .ended
  · exact hall ((h.ended hended).resolve_left hunsettled)
  by_cases hroom : ∀ f fin, s.readLoop = .writing f fin →
      s.world.stdin.closed = true ∨ s.world.stdin.room f.left.length
  · refine readLoop_nearer h.registered.raw hlive hroom ?_
    rintro (⟨hloop, hinbox, heof⟩ | hloop)
    · rcases hleft with heof' | ⟨f, hf, -⟩ | hloop' | hloop'
      · cases heof.symm.trans heof'
      · rw [hinbox] at hf
        cases hf
      · cases hloop.symm.trans hloop'
      · cases hloop.symm.trans hloop'
    · exact hended hloop
  · push Not at hroom
    obtain ⟨f, fin, hloop, hopen, hfull⟩ := hroom
    have hstalls := (h.clear hleft).resolve_right fun hc => hc.elim hopen hunsettled
    unfold State.stalls at hstalls
    rw [hloop] at hstalls
    dsimp only at hstalls
    have hblocks := (Bool.or_eq_false_iff.mp hstalls).1
    unfold View.blocks at hblocks
    have hlt : s.view.room < f.left.length := Nat.lt_of_not_le hfull
    rw [decide_eq_true hlt, Bool.true_and] at hblocks
    exact hall (drains_of_waits hblocks)

theorem Leaves.closer (h : Leaves session s) (hattach : cfg.attach = true) (hleft : s.left)
    (hlive : s.main ≠ .done) : Closer cfg s := by
  have hmove : ∀ {m : Main}, s.main = m → m ≠ .arming → s.main ≠ .arming := by
    rintro m rfl hm
    exact hm
  rcases hmain : s.main with
    _ | g | g | _ | exit | _ | exit | ⟨exit, out, err, error⟩ | _ | _
  · refine ⟨.main, { s with main := .barrier .arm, detached := .waiting }, rfl, trivial,
      (if_neg hlive).trans ?_, ?_⟩
    · show mainStep cfg s = _
      unfold mainStep
      rw [hmain]
    · unfold State.rank
      rw [hmain]
      show _ + 11 < _ + 13
      unfold State.pumpRank
      dsimp only
      omega
  · refine timeout_closer (hmove hmain fun he => by cases he) hlive (m := .gate .arm) ?_ ?_
    · unfold timeoutStep
      rw [hmain]
    · rw [hmain]
      cases g <;> exact Nat.lt_of_sub_pos (Nat.succ_pos _)
  · refine timeout_closer (hmove hmain fun he => by cases he) hlive (m := .select) ?_ ?_
    · unfold timeoutStep
      rw [hmain]
    · rw [hmain]
      cases g <;> exact Nat.lt_of_sub_pos (Nat.succ_pos _)
  · exact (h.select_nearer hattach hleft hmain).closer (hmove hmain fun he => by cases he)
  · have hselect := h.select
    rw [hmain] at hselect
    rcases hselect with hle | hpast
    · exact absurd hle (show ¬ 4 ≤ 3 by decide)
    · cases hpast
  · have hselect := h.select
    rw [hmain] at hselect
    rcases hselect with hle | hpast
    · exact absurd hle (show ¬ 5 ≤ 3 by decide)
    · cases hpast
  · refine (main_rank (m := .finishing exit (s.byRole STDOUT) (s.byRole STDERR) (s.byRole ERROR))
      (own_step ⟨rfl, fun he => by cases he⟩ hlive ?_) ?_).closer
      (hmove hmain fun he => by cases he)
    · show mainStep cfg s = _
      unfold mainStep
      rw [hmain]
    · rw [hmain]
      exact show 2 < 3 by decide
  · have hown : Label.own .main := ⟨rfl, fun he => by cases he⟩
    have hstep : taskStep cfg s .main =
        some { s with main := .grace, out := s.out ++ fins exit out err error } := by
      show mainStep cfg s = _
      unfold mainStep
      rw [hmain]
    refine Nearer.closer ⟨.main, _, hown, own_step hown hlive hstep, ?_⟩
      (hmove hmain fun he => by cases he)
    unfold State.rank
    rw [hmain]
    show _ + 1 < _ + 2
    unfold State.pumpRank
    dsimp only
    omega
  · refine timeout_closer (hmove hmain fun he => by cases he) hlive (m := .done) ?_ ?_
    · unfold timeoutStep
      rw [hmain]
    · rw [hmain]
      exact show 0 < 1 by decide
  · exact (hlive hmain).elim

theorem Leaves.ends (h : Leaves session s) (hattach : cfg.attach = true) (hleft : s.left) :
    Reaches (Exec.step cfg) (fun l => l.driver = true) s fun t => t.main = .done := by
  refine reaches_of_variant (I := fun t => Leaves session t ∧ t.left) State.rank
    (fun t ⟨hleaves, hleft⟩ => ?_) ⟨h, hleft⟩
  by_cases hlive : t.main = .done
  · exact .inl hlive
  · obtain ⟨l, t', hdriver, hdetaches, hstep, hlt⟩ := hleaves.closer hattach hleft hlive
    exact .inr ⟨l, t', hdriver, hstep,
      ⟨hleaves.step hattach hdetaches hstep, left_step hleft hstep⟩, hlt⟩

theorem left_run {s₀ : State} {ls : List Label} (hrun : run (step cfg) s₀ ls = some s)
    (h : s₀.left ∨ ∃ l ∈ ls, l.closes = true) : s.left := by
  induction ls generalizing s₀ with
  | nil =>
    obtain rfl := Option.some.inj hrun
    exact h.resolve_right fun ⟨_, hl, _⟩ => by cases hl
  | cons l ls ih =>
    obtain ⟨s₁, hstep, hrest⟩ := run_cons_eq_some.mp hrun
    refine ih hrest ?_
    rcases h with hleft | ⟨l', hl', hcloses⟩
    · exact .inl (left_step hleft hstep)
    · rcases List.mem_cons.mp hl' with rfl | hmem
      · exact .inl (left_of_closes hcloses hstep)
      · exact .inr ⟨l', hmem, hcloses⟩

/-- **An attach ends when the client leaves**: in every run in which the read loop does not come to
wait for stdin then, and does not end before `detached` is created, the end is in reach. -/
theorem detach_ends (cfg : Config) (hattach : cfg.attach = true) (stdin stdout stderr : Nat)
    {ls : List Label} {s : State}
    (hdetaches : Along (step cfg) Detaches (init cfg (.init stdin stdout stderr)) ls)
    (hrun : run (step cfg) (init cfg (.init stdin stdout stderr)) ls = some s)
    (hcloses : ∃ l ∈ ls, l.closes = true) :
    Reaches (step cfg) (fun l => l.driver = true) s fun t => t.main = .done := by
  cases hsession : cfg.session with
  | some session =>
    have h : Leaves session s := by
      refine invariant_run (I := Leaves session) (P := Detaches)
        (fun s l s' hleaves hl hstep => hleaves.step hattach hl hstep) (.init hsession _) hdetaches
        hrun
    exact h.ends hattach (left_run hrun (.inr hcloses))
  | none =>
    -- there is nothing to wait for but the read loop
    have hover : s.main.over = true := by
      refine invariant_run (I := fun s => s.main.over = true) (P := fun _ _ => True)
        (fun s l s' hover _ hstep => over_step hover hstep) ?_ (.trivial _ _) hrun
      unfold init
      rw [hsession]
      rfl
    cases hmain : s.main with
    | grace =>
      have hlive : s.main ≠ .done := by
        rw [hmain]
        exact fun he => by cases he
      have hstep : step cfg s .timeout = some { s with main := .done } := by
        refine (if_neg hlive).trans ?_
        show timeoutStep s = _
        unfold timeoutStep
        rw [hmain]
      exact .cons hstep rfl (.refl rfl)
    | done => exact .refl hmain
    | _ =>
      rw [hmain] at hover
      cases hover

theorem detach_ends_eof : ∃ s,
    run (step attachConfig) (init attachConfig (.init 4 4 4)) (openedRun ++ [Label.halfClose]) =
        some s ∧
      Reaches (step attachConfig) (fun l => l.driver = true) s fun t => t.main = .done := by
  have hdetaches : Along (step attachConfig) Detaches (init attachConfig (.init 4 4 4))
      (openedRun ++ [Label.halfClose]) := by
    decide +kernel
  exact ⟨_, rfl, detach_ends attachConfig rfl 4 4 4 hdetaches rfl ⟨.halfClose, by simp, rfl⟩⟩

/-! ## A detach that is lost -/

/-- The read loop has ended unheard, and a pump waits for the process. -/
structure Stranded (s : State) : Prop where
  ended : s.readLoop = .ended
  main : s.main.stage ≤ 3
  unheard : s.detached ≠ .fired
  tasks : s.drain = none → Output.stdout ∈ s.tasks
  drain : ∀ pumps ∈ s.drain, Output.stdout ∈ pumps
  pump : ∃ id, s.pumps .stdout = some (.reading id)
  silent : (s.world.out .stdout).buf = [] ∧ (s.world.out .stdout).closed = false

/-- **As long as the process does nothing**, it stays so. -/
theorem Stranded.step (h : Stranded s) (hattach : cfg.attach = true) (hl : l.driver = true)
    (hstep : Exec.step cfg s l = some s') : Stranded s' := by
  obtain ⟨id, hpump⟩ := h.pump
  have hpumps : ∀ {o p q}, s.pumps o = some p → o ≠ .stdout →
      ∃ id, update s.pumps o q .stdout = some (.reading id) := by
    intro o p q hp hne
    rw [update_of_ne (Ne.symm hne)]
    exact ⟨id, hpump⟩
  have hloop : ∀ {loop : ReadLoop}, s.readLoop = loop → loop = .ended :=
    fun heq => heq.symm.trans h.ended
  cases step_cases hstep with
  | client => cases hl
  | halfClose => cases hl
  | hangUp => cases hl
  | process => cases hl
  | opening heq => cases hloop heq
  | stdin heq => cases hloop heq
  | data heq => cases hloop heq
  | ping heq => cases hloop heq
  | quit heq => cases hloop heq
  | eof heq => cases hloop heq
  | reply heq => cases hloop heq
  | insert heq => cases hloop heq
  | tell heq => cases hloop heq
  | spawn heq => cases hloop heq
  | noSpawn heq => cases hloop heq
  | push heq => cases hloop heq
  | tellPump heq => cases hloop heq
  | leave heq => cases hloop heq
  | accept heq => cases hloop heq
  | broken heq => cases hloop heq
  | flushed heq => cases hloop heq
  | @pumpRead o n id' hp hn hbuf =>
    have hne : o ≠ .stdout := by
      rintro rfl
      rw [h.silent.1] at hbuf
      exact absurd hbuf (by simp; omega)
    refine ⟨h.ended, h.main, h.unheard, h.tasks, h.drain, hpumps hp hne, ?_⟩
    show (update s.world.out o _ .stdout).buf = [] ∧ (update s.world.out o _ .stdout).closed = false
    rw [update_of_ne (Ne.symm hne)]
    exact h.silent
  | @pumpSend o id' bytes hp =>
    have hne : o ≠ .stdout := by
      rintro rfl
      cases hpump.symm.trans hp
    exact ⟨h.ended, h.main, h.unheard, h.tasks, h.drain, hpumps hp hne, h.silent⟩
  | @pumpFail o id' bytes hp =>
    have hne : o ≠ .stdout := by
      rintro rfl
      cases hpump.symm.trans hp
    exact ⟨h.ended, h.main, h.unheard, h.tasks, h.drain, hpumps hp hne, h.silent⟩
  | @pumpEof o id' hp hend =>
    have hne : o ≠ .stdout := by
      rintro rfl
      cases h.silent.2.symm.trans hend.2
    exact ⟨h.ended, h.main, h.unheard, h.tasks, h.drain, hpumps hp hne, h.silent⟩
  | reap => exact ⟨h.ended, h.main, h.unheard, h.tasks, h.drain, h.pump, h.silent⟩
  | arm =>
    exact ⟨h.ended, show 1 ≤ 3 by decide, fun he => (by cases he), h.tasks, h.drain, h.pump,
      h.silent⟩
  | take hnext hdrain =>
    refine ⟨h.ended, h.main, h.unheard, fun he => (by cases he), fun pumps hp => ?_, h.pump,
      h.silent⟩
    obtain rfl := Option.some.inj hp
    exact h.tasks hdrain
  | finish hmain =>
    have hle := h.main
    rw [hmain] at hle
    exact absurd hle (show ¬ 7 ≤ 3 by decide)
  | @goto _ m hgoto =>
    have hstage : m.stage ≤ 3 := by
      have hmain := h.main
      cases hgoto with
      | drained hnext hdrain hended =>
        have hpumpEnded := hended _ (h.drain _ hdrain)
        unfold State.pumpEnded at hpumpEnded
        rw [hpump] at hpumpEnded
        cases hpumpEnded
      | detachAttach _ hfired => exact (h.unheard hfired).elim
      | detachExec hexec => cases hexec.symm.trans hattach
      | reaped hexec => cases hexec.symm.trans hattach
      | exit heq => rw [heq] at hmain; exact absurd hmain (show ¬ 5 ≤ 3 by decide)
      | snapshot heq => rw [heq] at hmain; exact absurd hmain (show ¬ 6 ≤ 3 by decide)
      | close heq => rw [heq] at hmain; exact absurd hmain (show ¬ 8 ≤ 3 by decide)
      | graceTimeout heq => rw [heq] at hmain; exact absurd hmain (show ¬ 8 ≤ 3 by decide)
      | armBarrier => exact show 1 ≤ 3 by decide
      | rolesOut => exact show 1 ≤ 3 by decide
      | wakeBarrier => exact show 1 ≤ 3 by decide
      | rolesIn => exact show 2 ≤ 3 by decide
      | armGate => exact show 2 ≤ 3 by decide
      | pumpsOut => exact show 2 ≤ 3 by decide
      | wakeGate => exact show 2 ≤ 3 by decide
      | barrierTimeout => exact show 2 ≤ 3 by decide
      | pumpsIn => exact le_rfl
      | gateTimeout => exact le_rfl
    exact ⟨h.ended, hstage, h.unheard, h.tasks, h.drain, h.pump, h.silent⟩

theorem Stranded.never (h : Stranded s) (hattach : cfg.attach = true) :
    ¬ Reaches (Exec.step cfg) (fun l => l.driver = true) s fun t => t.main = .done := by
  rintro ⟨ls, t, hls, hrun, hdone⟩
  have hstranded : Stranded t := by
    refine invariant_run (I := Stranded) (P := fun _ l => l.driver = true ∧ True)
      (fun s l s' hs hl hstep => hs.step hattach hl.1 hstep) h
      ((Along.trivial s ls).and_labels hls) hrun
  have hle := hstranded.main
  rw [hdone] at hle
  exact absurd hle (show ¬ 9 ≤ 3 by decide)

/-- The client opens its streams and closes, and the read loop ends before `detached` is created. -/
theorem detach_lost : ∃ ls s,
    run (step attachConfig) (init attachConfig (.init 65536 65536 65536)) ls = some s ∧
      (∃ l ∈ ls, l.closes = true) ∧ s.world.proc = .running ∧
      ¬ Reaches (step attachConfig) (fun l => l.driver = true) s fun t => t.main = .done := by
  refine ⟨[opening 1 "error", opening 3 "stdout", opening 5 "stderr", .halfClose] ++
    List.replicate 21 Label.readLoop, _, rfl, ⟨.halfClose, by simp, rfl⟩, rfl, ?_⟩
  refine Stranded.never (s := _) ⟨rfl, by decide, by decide, fun _ => by decide,
    fun _ h => (by cases h), ⟨3, rfl⟩, ⟨rfl, rfl⟩⟩ rfl

end LightrCri.Spdy.Exec

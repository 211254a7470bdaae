import LightrCri.Spdy.Complete

/-!
# An exec ends

When the process of an exec has ended and the client has opened its streams, `run_exec` and its
tasks come to the verdict by steps of their own, without a backstop: where the read loop has nothing
to do, the pumps have ended and the reaper has returned, the completion path waits for nothing
(`Inv.main_step`). With what was proved about the frames before the verdict, this is
`exec_complete`.
-/

namespace LightrCri.Spdy.Exec

open Foundations LightrCri.Stream Function

variable {cfg : Config} {session : StreamSession} {s s' : State} {l : Label} {m : Main}

/-! ## The variant -/

def ReadLoop.rank : ReadLoop → Nat
  | .reading => 2
  | .replying _ _ => 8
  | .inserting _ _ => 7
  | .telling _ _ => 6
  | .spawning _ _ => 5
  | .pushing _ => 4
  | .tellingPump => 3
  | .writing f _ => f.left.length + 3
  | .leaving => 1
  | .ended => 0

/-- What a frame makes the read loop do. -/
def weight : Received → Nat
  | .frame (.data _ _ data) => data.length + 7
  | _ => 7

def Main.rank : Main → Nat
  | .arming => 13
  | .barrier (.wait _) => 12
  | .barrier .arm => 11
  | .barrier (.check _) => 10
  | .gate (.wait _) => 9
  | .gate .arm => 8
  | .gate (.check _) => 7
  | .select => 6
  | .draining _ => 5
  | .exiting => 4
  | .snapshot _ => 3
  | .finishing _ _ _ _ => 2
  | .grace => 1
  | .done => 0

/-- What a pump has still to do, with so many bytes in its output. -/
def pumpRank (raw : Bool) (pump : Option Pump) (left : Nat) : Nat :=
  match pump with
  | some (.reading _) => 2 * left + 1
  | some (.sending _ _) => 2 * left + 2
  | some (.ended _) => 0
  | none => if raw then 2 * left + 1 else 0

def State.pumpRank (s : State) (o : Output) : Nat :=
  Exec.pumpRank (s.raw o) (s.pumps o) (s.world.out o).buf.length

/-- What is to be done before the verdict. -/
def State.rank (s : State) : Nat :=
  (s.inbox.map weight).sum + s.readLoop.rank + (s.pumpRank .stdout + s.pumpRank .stderr) +
    (if s.reaper.isNone then 1 else 0) + (if s.drain.isNone then 1 else 0) + s.main.rank

theorem notify_rank (m : Main) : m.notify.rank = m.rank := by
  rcases m with _ | g | g | _ | _ | _ | _ | _ | _ | _
  · rfl
  · cases g <;> rfl
  · cases g <;> rfl
  all_goals rfl

/-- A step of `run_exec` or one of its tasks that is not a backstop. -/
def Label.own (l : Label) : Prop := l.driver = true ∧ l ≠ .timeout

/-- One of its own steps brings the verdict nearer. -/
def Nearer (cfg : Config) (s : State) : Prop :=
  ∃ l s', l.own ∧ step cfg s l = some s' ∧ s'.rank < s.rank

theorem own_step (hl : l.own) (hlive : s.main ≠ .done) (h : taskStep cfg s l = some s') :
    step cfg s l = some s' := by
  obtain ⟨hdriver, -⟩ := hl
  cases l with
  | client => cases hdriver
  | halfClose => cases hdriver
  | hangUp => cases hdriver
  | process => cases hdriver
  | _ => exact (if_neg hlive).trans h

/-! ## The tasks go on -/

/-- The read loop has nothing to do. -/
def State.idle (s : State) : Prop :=
  s.readLoop = .reading ∧ s.inbox = [] ∧ s.eof = false ∨ s.readLoop = .ended

/-- The read loop takes a step of its own. -/
theorem readStep_isSome (hidle : ¬ s.idle) (hwriting : ∀ f fin, s.readLoop ≠ .writing f fin) :
    ∃ t, readStep cfg s = some t := by
  unfold readStep
  rcases hloop : s.readLoop with _ | ⟨id, r⟩ | ⟨id, r⟩ | ⟨id, r⟩ | ⟨id, r⟩ | o | _ | ⟨f, fin⟩ | _ | _
  · rcases hinbox : s.inbox with - | ⟨f, inbox⟩
    · cases heof : s.eof with
      | true => exact ⟨_, rfl⟩
      | false => exact (hidle (.inl ⟨hloop, hinbox, heof⟩)).elim
    · exact ⟨_, rfl⟩
  · exact ⟨_, rfl⟩
  · exact ⟨_, rfl⟩
  · exact ⟨_, rfl⟩
  · dsimp only
    split
    · split <;> exact ⟨_, rfl⟩
    · exact ⟨_, rfl⟩
  · exact ⟨_, rfl⟩
  · exact ⟨_, rfl⟩
  · exact (hwriting f fin hloop).elim
  · exact ⟨_, rfl⟩
  · exact (hidle (.inr hloop)).elim

theorem readLoop_rank (hraw : ∀ o, s.raw o = true → s.pumps o = none)
    (hstep : Step cfg s .readLoop s') : s'.rank < s.rank := by
  have hcons : ∀ {f inbox}, s.inbox = f :: inbox →
      (s.inbox.map weight).sum = weight f + (inbox.map weight).sum := by
    intro f inbox h
    rw [h, List.map_cons, List.sum_cons]
  cases hstep with
  | opening hloop hinbox =>
    have hsum := hcons hinbox
    unfold State.rank
    rw [hloop, hsum]
    show _ + 8 + _ + _ + _ + _ < 7 + _ + 2 + _ + _ + _ + _
    unfold State.pumpRank
    dsimp only
    omega
  | @stdin id flags data inbox hloop hinbox =>
    have hsum := hcons hinbox
    unfold State.rank
    rw [hloop, hsum]
    show _ + ((FileWrite.start data).left.length + 3) + _ + _ + _ + _ <
      (data.length + 7) + _ + 2 + _ + _ + _ + _
    rw [FileWrite.left_start]
    unfold State.pumpRank
    dsimp only
    omega
  | @data id flags data inbox hloop hinbox =>
    have hsum := hcons hinbox
    unfold State.rank
    rw [hloop, hsum]
    show _ + 2 + _ + _ + _ + _ < (data.length + 7) + _ + 2 + _ + _ + _ + _
    unfold State.pumpRank halfClose
    dsimp only
    omega
  | @ping id inbox hloop hinbox =>
    have hsum := hcons hinbox
    unfold State.rank
    rw [hsum]
    show _ < 7 + _ + _ + _ + _ + _ + _
    unfold State.pumpRank
    dsimp only
    omega
  | quit hloop hinbox =>
    have hsum := hcons hinbox
    unfold State.rank
    rw [hloop, hsum]
    show _ + 1 + _ + _ + _ + _ < _ + _ + 2 + _ + _ + _ + _
    unfold State.pumpRank
    dsimp only
    omega
  | eof hloop =>
    unfold State.rank
    rw [hloop]
    show _ + 1 + _ + _ + _ + _ < _ + 2 + _ + _ + _ + _
    unfold State.pumpRank
    dsimp only
    omega
  | reply hloop =>
    unfold State.rank
    rw [hloop]
    show _ + 7 + _ + _ + _ + _ < _ + 8 + _ + _ + _ + _
    unfold State.pumpRank
    dsimp only
    omega
  | insert hloop =>
    unfold State.rank
    rw [hloop]
    show _ + 6 + _ + _ + _ + _ < _ + 7 + _ + _ + _ + _
    unfold State.pumpRank
    dsimp only
    omega
  | tell hloop =>
    unfold State.rank
    rw [hloop]
    show _ + 5 + _ + _ + _ + Main.rank s.main.notify < _ + 6 + _ + _ + _ + _
    unfold State.pumpRank
    dsimp only
    rw [notify_rank]
    omega
  | @spawn id r o hloop ho hraw' =>
    have hsame : ∀ o', State.pumpRank { s with
        readLoop := .pushing o
        raw := update s.raw o false
        pumps := update s.pumps o (some (.reading id)) } o' = s.pumpRank o' := by
      intro o'
      unfold State.pumpRank
      dsimp only
      by_cases heq : o' = o
      · rw [heq, update_self, update_self, hraw o hraw', hraw']
        rfl
      · rw [update_of_ne heq, update_of_ne heq]
    unfold State.rank
    rw [hloop, hsame, hsame]
    show _ + 4 + _ + _ + _ + _ < _ + 5 + _ + _ + _ + _
    dsimp only
    omega
  | noSpawn hloop =>
    unfold State.rank
    rw [hloop]
    show _ + 2 + _ + _ + _ + _ < _ + 5 + _ + _ + _ + _
    unfold State.pumpRank
    dsimp only
    omega
  | push hloop =>
    unfold State.rank
    rw [hloop]
    show _ + 3 + _ + _ + _ + _ < _ + 4 + _ + _ + _ + _
    unfold State.pumpRank
    dsimp only
    omega
  | tellPump hloop =>
    unfold State.rank
    rw [hloop]
    show _ + 2 + _ + _ + _ + Main.rank s.main.notify < _ + 3 + _ + _ + _ + _
    unfold State.pumpRank
    dsimp only
    rw [notify_rank]
    omega
  | leave hloop =>
    unfold State.rank
    rw [hloop]
    show _ + 0 + _ + _ + _ + _ < _ + 1 + _ + _ + _ + _
    unfold State.pumpRank
    dsimp only
    omega
  | goto hgoto => cases hgoto

/-- A write to stdin goes on where stdin is closed or has room for what is left of it. -/
theorem writing_nearer (hlive : s.main ≠ .done) {f : FileWrite} {fin : Bool}
    (hloop : s.readLoop = .writing f fin)
    (hroom : s.world.stdin.closed = true ∨ s.world.stdin.room f.left.length) : Nearer cfg s := by
  have hlt : (wrote cfg s fin).rank < s.rank := by
    unfold State.rank
    rw [hloop]
    show _ + 2 + _ + _ + _ + _ < _ + (_ + 3) + _ + _ + _ + _
    unfold State.pumpRank wrote halfClose
    dsimp only
    omega
  by_cases hhanded : f.handed = []
  · have hstep : taskStep cfg s .flushed = some (wrote cfg s fin) := by
      unfold taskStep
      rw [hloop]
      exact if_pos (FileWrite.left_eq_nil.mpr hhanded)
    have hown : Label.own .flushed := ⟨rfl, fun he => by cases he⟩
    exact ⟨.flushed, _, hown, own_step hown hlive hstep, hlt⟩
  · cases hclosed : s.world.stdin.closed with
    | true =>
      have hstep : taskStep cfg s .broken = some (wrote cfg s fin) := by
        unfold taskStep
        rw [hloop]
        exact if_pos ⟨hclosed, hhanded⟩
      have hown : Label.own .broken := ⟨rfl, fun he => by cases he⟩
      exact ⟨.broken, _, hown, own_step hown hlive hstep, hlt⟩
    | false =>
      have hfits := hroom.resolve_left fun h => by cases hclosed.symm.trans h
      have hlen : 1 ≤ f.handed.length := List.length_pos_of_ne_nil hhanded
      have hleft : f.left.length = f.handed.length + f.rest.length := List.length_append
      have hone : s.world.stdin.room 1 := by
        unfold Pipe.room at hfits ⊢
        omega
      obtain ⟨w, hw⟩ : ∃ w, s.world.accept f 1 = some w :=
        ⟨_, if_pos ⟨Nat.one_pos, hlen, hone, hclosed⟩⟩
      have hstep : taskStep cfg s (.accept 1) =
          some { s with world := w, readLoop := .writing (f.wrote 1) fin } := by
        unfold taskStep
        dsimp only
        rw [hloop]
        dsimp only
        rw [hw]
        rfl
      obtain ⟨-, rfl⟩ := World.accept_cases hw
      have hown : Label.own (.accept 1) := ⟨rfl, fun he => by cases he⟩
      refine ⟨.accept 1, _, hown, own_step hown hlive hstep, ?_⟩
      unfold State.rank
      rw [hloop]
      show _ + ((f.wrote 1).left.length + 3) + _ + _ + _ + _ < _ + (_ + 3) + _ + _ + _ + _
      rw [FileWrite.left_wrote f hlen, List.length_drop]
      unfold State.pumpRank
      dsimp only
      omega

/-- A read loop that is not idle goes on, unless it waits for stdin. -/
theorem readLoop_nearer (hraw : ∀ o, s.raw o = true → s.pumps o = none) (hlive : s.main ≠ .done)
    (hroom : ∀ f fin, s.readLoop = .writing f fin →
      s.world.stdin.closed = true ∨ s.world.stdin.room f.left.length)
    (hidle : ¬ s.idle) : Nearer cfg s := by
  by_cases hwriting : ∃ f fin, s.readLoop = .writing f fin
  · obtain ⟨f, fin, hloop⟩ := hwriting
    exact writing_nearer hlive hloop (hroom f fin hloop)
  · push Not at hwriting
    obtain ⟨t, ht⟩ := @readStep_isSome cfg s hidle hwriting
    have hown : Label.own .readLoop := ⟨rfl, fun he => by cases he⟩
    have hstep := own_step hown hlive ht
    exact ⟨.readLoop, t, hown, hstep, readLoop_rank hraw (step_cases hstep)⟩

theorem pumpRank_lt (o : Output) (hlt : s'.pumpRank o < s.pumpRank o)
    (hother : ∀ o', o' ≠ o → s'.pumpRank o' = s.pumpRank o') :
    s'.pumpRank .stdout + s'.pumpRank .stderr < s.pumpRank .stdout + s.pumpRank .stderr := by
  cases o with
  | stdout =>
    have herr := hother .stderr (by decide)
    omega
  | stderr =>
    have hout := hother .stdout (by decide)
    omega

/-- A pump that has not ended goes on: with the process, its output is closed. -/
theorem pump_nearer (hlive : s.main ≠ .done) {o : Output} {p : Pump} (hpump : s.pumps o = some p)
    (hp : p.isEnded = false) (hclosed : (s.world.out o).closed = true) : Nearer cfg s := by
  have hother : ∀ (pump : Pump) (w : World) (out : List Outbound),
      (∀ o', o' ≠ o → w.out o' = s.world.out o') → ∀ o', o' ≠ o →
      State.pumpRank { s with pumps := update s.pumps o (some pump), world := w, out := out } o' =
        s.pumpRank o' := by
    intro pump w out hw o' ho'
    unfold State.pumpRank
    dsimp only
    rw [update_of_ne ho', hw o' ho']
  have hnearer : ∀ l pump w out, l.own → (∀ o', o' ≠ o → w.out o' = s.world.out o') →
      taskStep cfg s l =
        some { s with pumps := update s.pumps o (some pump), world := w, out := out } →
      Exec.pumpRank (s.raw o) (some pump) (w.out o).buf.length < s.pumpRank o → Nearer cfg s := by
    intro l pump w out hown hw hstep hlt
    refine ⟨l, _, hown, own_step hown hlive hstep, ?_⟩
    have hsum := @pumpRank_lt s
      { s with pumps := update s.pumps o (some pump), world := w, out := out } o
      (by unfold State.pumpRank at hlt ⊢; dsimp only at hlt ⊢; rw [update_self]; exact hlt)
      (hother pump w out hw)
    unfold State.rank
    dsimp only at hsum ⊢
    omega
  unfold State.pumpRank at hnearer
  rw [hpump] at hnearer
  cases p with
  | ended => cases hp
  | sending id bytes =>
    have hstep : taskStep cfg s (.pumpSend o) = some { s with
        pumps := update s.pumps o (some (.reading id))
        out := s.out ++ [.data id 0 bytes] } := by
      unfold taskStep
      dsimp only
      rw [hpump]
    refine hnearer (.pumpSend o) (.reading id) s.world _ ⟨rfl, fun he => by cases he⟩
      (fun _ _ => rfl) hstep ?_
    exact Nat.lt_succ_self _
  | reading id =>
    by_cases hbuf : (s.world.out o).buf = []
    · have hstep : taskStep cfg s (.pumpEof o) =
          some { s with pumps := update s.pumps o (some (.ended id)) } := by
        unfold taskStep
        dsimp only
        rw [hpump]
        exact if_pos ⟨hbuf, hclosed⟩
      refine hnearer (.pumpEof o) (.ended id) s.world s.out ⟨rfl, fun he => by cases he⟩
        (fun _ _ => rfl) hstep ?_
      exact Nat.succ_pos _
    · have hlen : 1 ≤ (s.world.out o).buf.length := List.length_pos_of_ne_nil hbuf
      have hstep : taskStep cfg s (.pumpRead o 1) = some { s with
          pumps := update s.pumps o (some (.sending id (s.world.taken o 1)))
          world := s.world.drain o 1 } := by
        unfold taskStep
        dsimp only
        rw [hpump]
        exact if_pos ⟨by decide, by decide, hlen⟩
      have hdrain : ((s.world.drain o 1).out o).buf.length = (s.world.out o).buf.length - 1 := by
        show (update s.world.out o _ o).buf.length = _
        rw [update_self]
        exact List.length_drop
      refine hnearer (.pumpRead o 1) (.sending id _) (s.world.drain o 1) s.out
        ⟨rfl, fun he => by cases he⟩ (fun o' ho' => update_of_ne ho' _ _) hstep ?_
      rw [hdrain]
      show 2 * (_ - 1) + 2 < 2 * _ + 1
      omega

/-- The reaper returns when the process has ended. -/
theorem reap_nearer (hsession : cfg.session = some session) (hlive : s.main ≠ .done)
    (hreaper : s.reaper = none) {c : Int32} (hproc : s.world.proc = .exited c) : Nearer cfg s := by
  obtain ⟨code, hcode⟩ := Waiter.returns_exited session.waiter c
  have hstep : taskStep cfg s (.reap code) = some { s with reaper := some code } := by
    unfold taskStep
    dsimp only
    rw [hsession]
    exact if_pos ⟨hreaper, hproc ▸ hcode⟩
  have hown : Label.own (.reap code) := ⟨rfl, fun he => by cases he⟩
  refine ⟨.reap code, _, hown, own_step hown hlive hstep, ?_⟩
  unfold State.rank
  rw [hreaper]
  show _ + 0 + _ + _ < _ + 1 + _ + _
  unfold State.pumpRank
  dsimp only
  omega

/-! ## The completion path waits for nothing -/

/-- The client has opened the stream of each expected role. -/
def Offered (cfg : Config) (s : State) : Prop :=
  ∀ r ∈ cfg.expectedRoles, s.byRole r ≠ none ∨ ∃ p ∈ s.pending, p.2 = r

theorem Offered.step (h : Offered cfg s) (hstep : Exec.step cfg s l = some s') :
    Offered cfg s' := by
  intro r hr
  cases advance hstep with
  | same hpending _ hbyRole =>
    rw [hpending, hbyRole]
    exact h r hr
  | client _ hpending _ hbyRole =>
    rw [hpending, hbyRole]
    rcases h r hr with hold | ⟨p, hp, hpr⟩
    · exact .inl hold
    · exact .inr ⟨p, List.mem_append_left _ hp, hpr⟩
  | @insert id r' hpending _ hbyRole =>
    rw [hbyRole]
    by_cases heq : r = r'
    · left
      rw [heq, update_self]
      exact fun hn => by cases hn
    · rw [update_of_ne heq]
      rcases h r hr with hold | ⟨p, hp, hpr⟩
      · exact .inl hold
      · right
        rw [hpending] at hp
        rcases List.mem_cons.mp hp with rfl | htail
        · exact (heq hpr.symm).elim
        · exact ⟨p, htail, hpr⟩

theorem goto_rank (hlt : m.rank < s.main.rank) : State.rank { s with main := m } < s.rank := by
  unfold State.rank
  unfold State.pumpRank
  dsimp only
  omega

theorem main_rank (hstep : Exec.step cfg s .main = some { s with main := m })
    (hlt : m.rank < s.main.rank) : Nearer cfg s :=
  ⟨.main, _, ⟨rfl, fun he => by cases he⟩, hstep, goto_rank hlt⟩

/-- A drain that finds the pumps ended is over. -/
theorem drain_nearer (hlive : s.main ≠ .done) (next : Main)
    (hmain : mainStep cfg s = drainStep s next) (hlt : next.rank < s.main.rank)
    (hended : ∀ pumps ∈ s.drain, ∀ o ∈ pumps, s.pumpEnded o = true) : Nearer cfg s := by
  have hown : Label.own .main := ⟨rfl, fun he => by cases he⟩
  cases hdrain : s.drain with
  | none =>
    have hstep : mainStep cfg s = some { s with drain := some s.tasks, tasks := [] } := by
      rw [hmain]
      unfold drainStep
      rw [hdrain]
    refine ⟨.main, _, hown, own_step hown hlive hstep, ?_⟩
    unfold State.rank
    rw [hdrain]
    show _ + 0 + _ < _ + 1 + _
    unfold State.pumpRank
    dsimp only
    omega
  | some pumps =>
    have hstep : mainStep cfg s = some { s with main := next } := by
      rw [hmain]
      unfold drainStep
      rw [hdrain]
      exact if_pos (List.all_eq_true.mpr (hended pumps hdrain))
    exact main_rank (own_step hown hlive hstep) hlt

/-- Where the read loop is idle, the pumps have ended and the reaper has returned, the completion
path goes on. -/
theorem Inv.main_nearer (h : Inv cfg session s) (hexec : cfg.attach = false)
    (hsession : cfg.session = some session) (htty : session.stderr = true → cfg.tty = false)
    (hover : s.main.over = false) (hoffered : Offered cfg s) (hidle : s.idle)
    (hended : ∀ o p, s.pumps o = some p → p.isEnded = true) {code : Option Int32}
    (hreaper : s.reaper = some code) : Nearer cfg s := by
  have hlive : s.main ≠ .done := by
    intro hdone
    rw [hdone] at hover
    cases hover
  have hpending : s.pending = [] := by
    unfold State.pending
    rcases hidle with ⟨hloop, hinbox, -⟩ | hloop
    · rw [hloop, hinbox]
      rfl
    · rw [hloop, (h.orderly.left (.inr hloop)).1]
      rfl
  have hbyRole : ∀ r ∈ cfg.expectedRoles, s.byRole r ≠ none := by
    intro r hr
    rcases hoffered r hr with hold | ⟨p, hp, -⟩
    · exact hold
    · rw [hpending] at hp
      cases hp
  have hroles : s.allRoles cfg = true := allRoles_iff.mpr hbyRole
  -- with its stream open, an output has its pump, and it is registered
  have hpumps : s.main.stage ≤ 2 → s.allPumps cfg = true := by
    intro hstage
    rw [h.registered.allPumps hsession htty]
    intro o ho
    have hchannel : o.channel ∈ cfg.expectedRoles := by
      cases o with
      | stdout => exact expected_stdout cfg
      | stderr => exact expected_stderr (htty ho)
    have hraw : s.raw o = false := by
      rcases h.registered.spawned o (hbyRole _ hchannel) with hraw | ⟨id, hopened⟩
      · exact hraw
      · rcases hidle with ⟨hloop, -⟩ | hloop <;>
        · rw [hloop] at hopened
          cases hopened
    have hpump := ((h.registered.has o).mp ho).resolve_left fun hr => by cases hraw.symm.trans hr
    rcases h.registered.registered o hpump with hmem | ⟨pumps, hdrain, -⟩ | hloop'
    · exact hmem
    · rw [h.staged.untaken hstage] at hdrain
      cases hdrain
    · rcases hidle with ⟨hloop, -⟩ | hloop <;> cases hloop.symm.trans hloop'
  have hdrained : ∀ pumps ∈ s.drain, ∀ o ∈ pumps, s.pumpEnded o = true := by
    intro pumps hdrain o ho
    obtain ⟨p, hp⟩ := Option.ne_none_iff_exists'.mp (h.registered.drain pumps hdrain o ho)
    unfold State.pumpEnded
    rw [hp]
    exact hended o p hp
  have hgo : ∀ m, mainStep cfg s = some { s with main := m } → m.rank < s.main.rank →
      Nearer cfg s := by
    intro m hstep
    exact main_rank (own_step ⟨rfl, fun he => by cases he⟩ hlive hstep)
  rcases hmain : s.main with
    _ | (_ | woken | woken) | (_ | woken | woken) | _ | exit | _ | exit | ⟨exit, out, err, error⟩ | _ | _
  · refine ⟨.main, { s with main := .barrier .arm, detached := .waiting },
      ⟨rfl, fun he => by cases he⟩, own_step ⟨rfl, fun he => by cases he⟩ hlive ?_, ?_⟩
    · show mainStep cfg s = _
      unfold mainStep
      rw [hmain]
    · unfold State.rank
      rw [hmain]
      show _ + 11 < _ + 13
      unfold State.pumpRank
      dsimp only
      omega
  · refine hgo (.barrier (.check false)) ?_ (by rw [hmain]; decide)
    unfold mainStep
    rw [hmain]
  · refine hgo (.gate .arm) ?_ (by rw [hmain]; exact Nat.lt_of_sub_pos Nat.two_pos)
    unfold mainStep
    rw [hmain]
    dsimp only
    rw [if_pos hroles]
  · cases woken with
    | true =>
      refine hgo (.barrier .arm) ?_ (by rw [hmain]; decide)
      unfold mainStep
      rw [hmain]
      rfl
    | false =>
      rcases h.woken.barrier hmain with hno | ⟨id, r, hloop'⟩
      · cases hno.symm.trans hroles
      · rcases hidle with ⟨hloop, -⟩ | hloop <;> cases hloop.symm.trans hloop'
  · refine hgo (.gate (.check false)) ?_ (by rw [hmain]; decide)
    unfold mainStep
    rw [hmain]
  · refine hgo .select ?_ (by rw [hmain]; exact Nat.lt_succ_self 6)
    unfold mainStep
    rw [hmain]
    dsimp only
    rw [if_pos (hpumps (by rw [hmain]; exact le_rfl))]
  · cases woken with
    | true =>
      refine hgo (.gate .arm) ?_ (by rw [hmain]; decide)
      unfold mainStep
      rw [hmain]
      rfl
    | false =>
      rcases h.woken.gate hmain with hno | hloop'
      · cases hno.symm.trans (hpumps (by rw [hmain]; exact le_rfl))
      · rcases hidle with ⟨hloop, -⟩ | hloop <;> cases hloop.symm.trans hloop'
  · refine drain_nearer hlive .exiting ?_ (by rw [hmain]; decide) hdrained
    unfold mainStep
    rw [hmain, hexec]
    rfl
  · cases exit with
    | none =>
      refine drain_nearer hlive .exiting ?_ (by rw [hmain]; decide) hdrained
      unfold mainStep
      rw [hmain]
      rfl
    | some exit =>
      refine drain_nearer hlive (.snapshot exit) ?_ ?_ hdrained
      · unfold mainStep
        rw [hmain]
        rfl
      · rw [hmain]
        exact Nat.lt_of_sub_pos Nat.two_pos
  · refine hgo (.snapshot (code.getD (-1))) ?_ (by rw [hmain]; exact Nat.lt_succ_self 3)
    unfold mainStep
    rw [hmain, hreaper]
    rfl
  · refine hgo (.finishing exit (s.byRole STDOUT) (s.byRole STDERR) (s.byRole ERROR)) ?_ ?_
    · unfold mainStep
      rw [hmain]
    · rw [hmain]
      exact Nat.lt_succ_self 2
  · refine ⟨.main, { s with main := .grace, out := s.out ++ fins exit out err error },
      ⟨rfl, fun he => by cases he⟩, own_step ⟨rfl, fun he => by cases he⟩ hlive ?_, ?_⟩
    · show mainStep cfg s = _
      unfold mainStep
      rw [hmain]
    · unfold State.rank
      rw [hmain]
      show _ + 1 < _ + 2
      unfold State.pumpRank
      dsimp only
      omega
  · rw [hmain] at hover
    cases hover
  · exact (hlive hmain).elim

/-! ## To the verdict -/

theorem conforms_of_own (hl : l.own) : Conforms cfg s l := by
  obtain ⟨hdriver, htimeout⟩ := hl
  cases l with
  | client => cases hdriver
  | halfClose => cases hdriver
  | hangUp => cases hdriver
  | process => cases hdriver
  | timeout => exact (htimeout rfl).elim
  | _ => exact ⟨trivial, trivial⟩

theorem proc_own (hl : l.own) (hstep : step cfg s l = some s') :
    s'.world.proc = s.world.proc := by
  cases step_cases hstep with
  | process => cases hl.1
  | accept _ hw =>
    obtain ⟨-, rfl⟩ := World.accept_cases hw
    rfl
  | _ => rfl

/-- **One step nearer**: the read loop, a pump, the reaper or else the completion path goes on. -/
theorem Inv.nearer (h : Inv cfg session s) (hexec : cfg.attach = false)
    (hsession : cfg.session = some session) (htty : session.stderr = true → cfg.tty = false)
    (hover : s.main.over = false) (hoffered : Offered cfg s) {c : Int32}
    (hproc : s.world.proc = .exited c) : Nearer cfg s := by
  obtain ⟨hstdin, hclosed⟩ := h.delivery.sound.exited c hproc
  have hlive : s.main ≠ .done := by
    intro hdone
    rw [hdone] at hover
    cases hover
  by_cases hidle : s.idle
  · by_cases hpumps : ∃ o p, s.pumps o = some p ∧ p.isEnded = false
    · obtain ⟨o, p, hpump, hp⟩ := hpumps
      exact pump_nearer hlive hpump hp (hclosed o)
    · have hended : ∀ o p, s.pumps o = some p → p.isEnded = true := by
        intro o p hpump
        by_contra hp
        exact hpumps ⟨o, p, hpump, Bool.eq_false_iff.mpr hp⟩
      cases hreaper : s.reaper with
      | none => exact reap_nearer hsession hlive hreaper hproc
      | some code => exact h.main_nearer hexec hsession htty hover hoffered hidle hended hreaper
  · exact readLoop_nearer h.registered.raw hlive (fun _ _ _ => .inl hstdin) hidle

theorem Inv.finishes (h : Inv cfg session s) (hexec : cfg.attach = false)
    (hsession : cfg.session = some session) (htty : session.stderr = true → cfg.tty = false)
    (hoffered : Offered cfg s) {c : Int32} (hproc : s.world.proc = .exited c) :
    Reaches (Exec.step cfg) Label.own s fun t => t.main.over = true := by
  refine reaches_of_variant
    (I := fun t => Inv cfg session t ∧ Offered cfg t ∧ t.world.proc = .exited c) State.rank
    (fun t ⟨hinv, hoffered, hproc⟩ => ?_) ⟨h, hoffered, hproc⟩
  cases hover : t.main.over with
  | true => exact .inl rfl
  | false =>
    obtain ⟨l, t', hown, hstep, hlt⟩ := hinv.nearer hexec hsession htty hover hoffered hproc
    have hinv' := hinv.step hexec hsession htty (conforms_of_own hown) hstep
    have hproc' := (proc_own hown hstep).trans hproc
    exact .inr ⟨l, t', hown, hstep, ⟨hinv', hoffered.step hstep, hproc'⟩, hlt⟩

/-- **Output before the verdict**: the frames of an exec that conforms end no stream and do not
touch the error stream until the verdict; then they have carried all of the output, and the ends of
its streams, and one frame on the error stream says the exit code. Once the process has ended and
the client has opened its streams, the verdict comes by the steps of `run_exec` and its tasks. -/
theorem exec_complete (cfg : Config) {session : StreamSession} (hexec : cfg.attach = false)
    (hsession : cfg.session = some session) (htty : session.stderr = true → cfg.tty = false)
    (stdin stdout stderr : Nat) {ls : List Label} {s : State}
    (hconforms : Along (step cfg) (Conforms cfg) (init cfg (.init stdin stdout stderr)) ls)
    (hrun : run (step cfg) (init cfg (.init stdin stdout stderr)) ls = some s) :
    (s.main.over = false → ∀ id flags data, .data id flags data ∈ s.out →
        flags = 0 ∧ s.byRole ERROR ≠ some id) ∧
      (s.main.over = true → ∃ pre post code error, Complete session s pre post code error) ∧
      ((∃ c, s.world.proc = .exited c) → Offered cfg s →
        Reaches (step cfg) Label.own s fun t => t.main.over = true) := by
  have h : Inv cfg session s := by
    refine invariant_run (I := Inv cfg session) (P := Conforms cfg)
      (fun s l s' hinv hl hstep => hinv.step hexec hsession htty hl hstep)
      (.init hsession stdin stdout stderr) hconforms hrun
  refine ⟨fun hover id flags data hf => ?_, fun hover => ?_, fun ⟨c, hproc⟩ hoffered => ?_⟩
  · have hbefore : s.main.stage ≤ 7 := by
      by_contra hlt
      cases hover.symm.trans (over_iff.mpr (by omega))
    obtain ⟨hflags, o, p, hp, rfl⟩ := h.delivery.before hbefore id flags data hf
    refine ⟨hflags, fun herror => ?_⟩
    have hr := (h.pumps.roles o p hp).symm.trans (h.streams.roles _ _ herror)
    cases o <;> cases hr
  · exact h.complete htty (over_iff.mp hover)
  · exact h.finishes hexec hsession htty hoffered hproc

theorem exec_complete_print : ∃ s,
    run (step printConfig) (init printConfig (.init 4 4 4)) printRun = some s ∧ s.main = .grace ∧
      ∃ pre post code error,
        Complete ⟨false, true, true, false, .child⟩ s pre post code error := by
  have hconforms : Along (step printConfig) (Conforms printConfig)
      (init printConfig (.init 4 4 4)) printRun := by
    decide +kernel
  have h := exec_complete printConfig rfl rfl (fun _ => rfl) 4 4 4 hconforms rfl
  exact ⟨_, rfl, rfl, h.2.1 rfl⟩

end LightrCri.Spdy.Exec

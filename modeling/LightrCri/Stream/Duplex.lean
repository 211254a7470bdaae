import LightrCri.Stream.WebSocket

/-!
# Full duplex

The driver is stuck when it waits for room in the stdin of the process while the process waits for
room in an output (`Stuck`); no step of either, nor of the client, changes that (`stuck_forever`).

The loop does not read the outputs while it writes a payload to stdin, so this happens as soon as
a payload and a write of the process overlap of which neither fits in its pipe (`Doomed`): from
then on the way to a stuck state is open (`doomed_stuck`). Where no two such writes overlap
(`Clear`), the driver is never stuck (`full_duplex`).
-/

namespace LightrCri.Stream.WebSocket

open Foundations Spdy Function

variable {session : StreamSession} {base64 : Bool} {s s' : State} {l : Label}

/-! ## Stuck states -/

/-- The driver waits for room in stdin, the process for room in an output. -/
structure Stuck (s : State) (f : FileWrite) (o : Output) (rest : Bytes) : Prop where
  writing : s.pc = .writing f
  handed : f.handed ≠ []
  stdinOpen : s.world.stdin.closed = false
  stdinFull : ¬ s.world.stdin.room 1
  process : s.world.proc = .writing o rest
  rest : rest ≠ []
  outFull : ¬ (s.world.out o).room 1

/-- **Neither can ever move**: whatever comes next, the driver and the process stay where they
are. -/
theorem stuck_forever {f : FileWrite} {o : Output} {rest : Bytes} (h : Stuck s f o rest)
    (hstep : step session base64 s l = some s') :
    Stuck s' f o rest ∧ l.driver = false ∧ ∀ a, l ≠ .process a := by
  have hpc := h.writing
  cases step_cases hstep with
  | client m => exact ⟨⟨h.1, h.2, h.3, h.4, h.5, h.6, h.7⟩, rfl, fun a ha => by cases ha⟩
  | hangUp => exact ⟨⟨h.1, h.2, h.3, h.4, h.5, h.6, h.7⟩, rfl, fun a ha => by cases ha⟩
  | stdin hpc' => rw [hpc] at hpc'; cases hpc'
  | skip hpc' => rw [hpc] at hpc'; cases hpc'
  | leave hpc' => rw [hpc] at hpc'; cases hpc'
  | read hpc' => rw [hpc] at hpc'; cases hpc'
  | eof hpc' => rw [hpc] at hpc'; cases hpc'
  | accept hpc' hw =>
    obtain rfl := Pc.writing.inj (hpc.symm.trans hpc')
    obtain ⟨⟨hn, -, hroom, -⟩, -⟩ := World.accept_cases hw
    have hfull := h.stdinFull
    unfold Pipe.room at hroom hfull
    omega
  | lost hpc' hclosed =>
    rw [h.stdinOpen] at hclosed
    cases hclosed
  | failed hpc' hclosed =>
    rw [h.stdinOpen] at hclosed
    cases hclosed
  | flushed hpc' hleft =>
    obtain rfl := Pc.writing.inj (hpc.symm.trans hpc')
    exact absurd (List.append_eq_nil_iff.mp hleft).1 h.handed
  | waited hpc' => rw [hpc] at hpc'; cases hpc'
  | process ha hw =>
    cases World.step_cases hw with
    | put hproc hn hrest hroom =>
      obtain ⟨rfl, rfl⟩ := Process.writing.inj (h.process.symm.trans hproc)
      have hfull := h.outFull
      unfold Pipe.room at hroom hfull
      omega
    | write hproc => cases h.process.symm.trans hproc
    | read hproc => cases h.process.symm.trans hproc
    | closeStdin hproc => cases h.process.symm.trans hproc
    | close hproc => cases h.process.symm.trans hproc
    | exit hproc => cases h.process.symm.trans hproc

/-! ## Writes that fit -/

/-- What the driver is writing fits in the stdin of the process, or stdin is closed. -/
def FitsIn (s : State) : Prop :=
  ∀ f, s.pc = .writing f → s.world.stdin.closed = true ∨ s.world.stdin.room f.left.length

instance : Decidable (FitsIn s) :=
  match h : s.pc with
  | .writing f =>
    decidable_of_iff (s.world.stdin.closed = true ∨ s.world.stdin.room f.left.length)
      ⟨fun hfits f' hf' => Pc.writing.inj (h.symm.trans hf') ▸ hfits, fun hfits => hfits f h⟩
  | .select => isTrue fun f hf => by cases h.symm.trans hf
  | .waiting => isTrue fun f hf => by cases h.symm.trans hf
  | .done => isTrue fun f hf => by cases h.symm.trans hf

/-- What the process is writing fits in its output. -/
def FitsOut (w : World) : Prop := ∀ o rest, w.proc = .writing o rest → (w.out o).room rest.length

instance (w : World) : Decidable (FitsOut w) :=
  match h : w.proc with
  | .writing o rest =>
    decidable_of_iff ((w.out o).room rest.length)
      ⟨fun hroom o' rest' hw => by
        obtain ⟨rfl, rfl⟩ := Process.writing.inj (h.symm.trans hw)
        exact hroom, fun hfits => hfits o rest h⟩
  | .running => isTrue fun o rest hw => by cases h.symm.trans hw
  | .exited _ => isTrue fun o rest hw => by cases h.symm.trans hw

theorem not_stuck (h : FitsIn s ∨ FitsOut s.world) {f : FileWrite} {o : Output} {rest : Bytes} :
    ¬ Stuck s f o rest := by
  intro hstuck
  rcases h with h | h
  · rcases h f hstuck.writing with hclosed | hroom
    · rw [hstuck.stdinOpen] at hclosed
      cases hclosed
    · have hfull := hstuck.stdinFull
      have hlen := List.length_pos_of_ne_nil hstuck.handed
      unfold FileWrite.left at hroom
      unfold Pipe.room at hroom hfull
      rw [List.length_append] at hroom
      omega
  · have hroom := h o rest hstuck.process
    have hfull := hstuck.outFull
    have hlen := List.length_pos_of_ne_nil hstuck.rest
    unfold Pipe.room at hroom hfull
    omega

/-- A payload does not start to be written to stdin, nor bytes to an output, where it does not fit
while the other side is in a write that does not fit either. -/
def Clear (session : StreamSession) (base64 : Bool) (s : State) : Label → Prop
  | .recv => ∀ payload ∈ s.inbox.head?.bind (Message.stdin base64), session.stdin = true →
      s.world.stdin.closed = true ∨ s.world.stdin.room payload.length ∨ FitsOut s.world
  | .process (.write o bytes) => (s.world.out o).room bytes.length ∨ FitsIn s
  | _ => True

instance : Decidable (Clear session base64 s l) := by
  unfold Clear
  split <;> infer_instance

theorem fitsIn_next : FitsIn s.next := by
  intro f hpc
  unfold State.next at hpc
  dsimp only at hpc
  split at hpc <;> cases hpc

/-- What the driver is writing fits still when the process has taken a step. -/
theorem FitsIn.process {w : World} {a : ProcessAction} (h : FitsIn s)
    (hw : s.world.step a = some w) : FitsIn { s with world := w } := by
  intro f hpc
  obtain ⟨hcap, hbuf, hclosed, -⟩ := World.step_stdin hw
  rcases h f hpc with hc | hroom
  · exact .inl (hclosed hc)
  · right
    unfold Pipe.room at hroom ⊢
    dsimp only
    omega

/-- What the process is writing fits still when it has taken a step, but for a new write. -/
theorem FitsOut.process {w w' : World} {a : ProcessAction} (h : FitsOut w)
    (hw : w.step a = some w') (ha : ∀ o bytes, a = .write o bytes → (w.out o).room bytes.length) :
    FitsOut w' := by
  intro o rest hproc
  cases World.step_cases hw with
  | write hrunning =>
    obtain ⟨rfl, rfl⟩ := Process.writing.inj hproc
    exact ha _ _ rfl
  | @put o' rest' n hproc' hn hrest =>
    dsimp only at hproc
    split at hproc
    · cases hproc
    · obtain ⟨rfl, rfl⟩ := Process.writing.inj hproc
      have hroom := h _ _ hproc'
      show (update w.out o' _ o').room _
      rw [update_self]
      unfold Pipe.room at hroom ⊢
      rw [List.length_append, List.length_take, List.length_drop]
      dsimp only
      omega
  | read hrunning => cases hrunning.symm.trans hproc
  | closeStdin hrunning => cases hrunning.symm.trans hproc
  | close hrunning => cases hrunning.symm.trans hproc
  | exit => cases hproc

/-- **One step**: of two writes that overlap, one fits. -/
theorem clear_step (h : FitsIn s ∨ FitsOut s.world) (hclear : Clear session base64 s l)
    (hstep : step session base64 s l = some s') : FitsIn s' ∨ FitsOut s'.world := by
  cases step_cases hstep with
  | client m => exact h
  | hangUp => exact h
  | @stdin m inbox payload hpc hinbox hm hstdin =>
    have hpayload : payload ∈ s.inbox.head?.bind (Message.stdin base64) := by
      rw [hinbox]
      exact hm
    rcases hclear _ hpayload hstdin with hclosed | hroom | hout
    · exact .inl fun f hf => .inl hclosed
    · left
      intro f hf
      obtain rfl := Pc.writing.inj hf
      rw [FileWrite.left_start]
      exact .inr hroom
    · exact .inr hout
  | skip => exact .inl fitsIn_next
  | leave => exact .inl fun f hf => by cases hf
  | read hpc => exact .inl fun f hf => by rw [hpc] at hf; cases hf
  | eof => exact .inl fitsIn_next
  | @accept f n w hpc hw =>
    obtain ⟨⟨hn, hhanded, -, -⟩, rfl⟩ := World.accept_cases hw
    refine h.imp (fun hin f' hf' => ?_) id
    obtain rfl := Pc.writing.inj hf'
    refine (hin f hpc).imp id fun hroom => ?_
    rw [FileWrite.left_wrote _ hhanded]
    have hlen : f.handed.length ≤ f.left.length := by
      unfold FileWrite.left
      rw [List.length_append]
      omega
    unfold Pipe.room at hroom ⊢
    rw [List.length_append, List.length_take, List.length_drop]
    dsimp only
    omega
  | lost => exact .inl fitsIn_next
  | failed => exact .inl fun f hf => by cases hf
  | flushed => exact .inl fitsIn_next
  | waited => exact .inl fun f hf => by cases hf
  | @process a w ha hw =>
    rcases h with hin | hout
    · exact .inl (hin.process hw)
    · by_cases hwrite : ∃ o bytes, a = .write o bytes
      · obtain ⟨o, bytes, rfl⟩ := hwrite
        rcases hclear with hroom | hin
        · refine .inr (hout.process hw fun o' bytes' he => ?_)
          obtain ⟨rfl, rfl⟩ := ProcessAction.write.inj he
          exact hroom
        · exact .inl (hin.process hw)
      · exact .inr (hout.process hw fun o bytes he => (hwrite ⟨o, bytes, he⟩).elim)

/-! ## Two writes that do not fit -/

/-- The driver fills the stdin of the process. -/
theorem fill_stdin {f : FileWrite} (hpc : s.pc = .writing f)
    (hopen : s.world.stdin.closed = false) (hleft : ¬ s.world.stdin.room f.left.length) :
    ∃ ls s' f', run (step session base64) s ls = some s' ∧ s'.pc = .writing f' ∧ f'.handed ≠ [] ∧
      s'.world.stdin.closed = false ∧ ¬ s'.world.stdin.room 1 ∧ s'.world.proc = s.world.proc ∧
      s'.world.out = s.world.out := by
  have hhanded : f.handed ≠ [] := by
    intro hnil
    apply hleft
    rw [FileWrite.left_eq_nil.mpr hnil]
    exact Nat.zero_le _
  -- by the room that is left
  induction hk : s.world.stdin.capacity - s.world.stdin.buf.length generalizing s f with
  | zero =>
    refine ⟨[], s, f, rfl, hpc, hhanded, hopen, ?_, rfl, rfl⟩
    unfold Pipe.room
    omega
  | succ k ih =>
    have hlen := List.length_pos_of_ne_nil hhanded
    have hroom : s.world.stdin.room 1 := by
      unfold Pipe.room
      omega
    obtain ⟨w, hw, hcap, hbuf, hopen', hproc, hout⟩ : ∃ w, s.world.accept f 1 = some w ∧
        w.stdin.capacity = s.world.stdin.capacity ∧
        w.stdin.buf.length = s.world.stdin.buf.length + 1 ∧ w.stdin.closed = false ∧
        w.proc = s.world.proc ∧ w.out = s.world.out := by
      refine ⟨_, if_pos ⟨one_pos, hlen, hroom, hopen⟩, rfl, ?_, hopen, rfl, rfl⟩
      dsimp only
      rw [List.length_append, List.length_take]
      omega
    have hstep : step session base64 s (.accept 1) =
        some { s with world := w, pc := .writing (f.wrote 1) } := by
      unfold step
      rw [hpc]
      dsimp only
      rw [hw]
      rfl
    have hnew : f.left.length = (f.wrote 1).left.length + 1 := by
      rw [FileWrite.left_wrote f hlen, List.length_drop]
      unfold FileWrite.left
      rw [List.length_append]
      omega
    unfold Pipe.room at hleft
    have hne : (f.wrote 1).handed ≠ [] := by
      intro hnil
      rw [FileWrite.left_eq_nil.mpr hnil, List.length_nil] at hnew
      omega
    obtain ⟨ls, s', f', hrun, hpc', hne', hopen₁, hfull, hproc', hout'⟩ :=
      ih (s := { s with world := w, pc := .writing (f.wrote 1) }) rfl hopen'
        (by unfold Pipe.room; dsimp only; omega) hne (by dsimp only; omega)
    exact ⟨_ :: ls, s', f', run_cons_eq_some.mpr ⟨_, hstep, hrun⟩, hpc', hne', hopen₁, hfull,
      hproc'.trans hproc, hout'.trans hout⟩

/-- The process fills the output that it writes to. -/
theorem fill_out {o : Output} {rest : Bytes} (hproc : s.world.proc = .writing o rest)
    (hrest : ¬ (s.world.out o).room rest.length) :
    ∃ ls s' rest', run (step session base64) s ls = some s' ∧ s'.world.proc = .writing o rest' ∧
      rest' ≠ [] ∧ ¬ (s'.world.out o).room 1 ∧ s'.pc = s.pc ∧ s'.world.stdin = s.world.stdin := by
  have hne : rest ≠ [] := by
    rintro rfl
    exact hrest (Nat.zero_le _)
  induction hk : (s.world.out o).capacity - (s.world.out o).buf.length generalizing s rest with
  | zero =>
    refine ⟨[], s, rest, rfl, hproc, hne, ?_, rfl, rfl⟩
    unfold Pipe.room
    omega
  | succ k ih =>
    have hlen := List.length_pos_of_ne_nil hne
    have hroom : (s.world.out o).room 1 := by
      unfold Pipe.room
      omega
    unfold Pipe.room at hrest
    have hone : (1 : Nat) ≠ rest.length := by omega
    have hdrop : (rest.drop 1).length + 1 = rest.length := by
      rw [List.length_drop]
      omega
    obtain ⟨w, hw, hcap, hbuf, hproc', hstdin⟩ : ∃ w, s.world.step (.put 1) = some w ∧
        (w.out o).capacity = (s.world.out o).capacity ∧
        (w.out o).buf.length = (s.world.out o).buf.length + 1 ∧
        w.proc = .writing o (rest.drop 1) ∧ w.stdin = s.world.stdin := by
      unfold World.step
      rw [hproc]
      refine ⟨_, if_pos ⟨one_pos, hlen, hroom⟩, ?_, ?_, if_neg hone, rfl⟩
      · show (update s.world.out o _ o).capacity = _
        rw [update_self]
      · show (update s.world.out o _ o).buf.length = _
        rw [update_self, List.length_append, List.length_take]
        omega
    have hstep : step session base64 s (.process (.put 1)) = some { s with world := w } := by
      unfold step
      dsimp only
      rw [hw]
      rfl
    obtain ⟨ls, s', rest', hrun, hproc₁, hne', hfull, hpc, hstdin'⟩ :=
      ih (s := { s with world := w }) hproc' (by unfold Pipe.room; dsimp only; omega)
        (fun hnil => by rw [hnil, List.length_nil] at hdrop; omega) (by dsimp only; omega)
    exact ⟨_ :: ls, s', rest', run_cons_eq_some.mpr ⟨_, hstep, hrun⟩, hproc₁, hne', hfull, hpc,
      hstdin'.trans hstdin⟩

/-- From two writes that overlap, neither of which fits, a stuck state can be reached. -/
theorem doomed_stuck (hin : ¬ FitsIn s) (hout : ¬ FitsOut s.world) :
    ∃ ls s' f o rest, run (step session base64) s ls = some s' ∧ Stuck s' f o rest := by
  unfold FitsIn at hin
  unfold FitsOut at hout
  push Not at hin hout
  obtain ⟨f, hpc, hopen, hleft⟩ := hin
  obtain ⟨o, rest, hproc, hrest⟩ := hout
  obtain ⟨ls₁, s₁, f', hrun₁, hpc₁, hhanded, hopen₁, hfull, hproc₁, hout₁⟩ :=
    @fill_stdin session base64 s f hpc (Bool.eq_false_iff.mpr hopen) hleft
  obtain ⟨ls₂, s₂, rest', hrun₂, hproc₂, hne, hfull₂, hpc₂, hstdin₂⟩ :=
    @fill_out session base64 s₁ o rest (hproc₁.trans hproc) (by rwa [hout₁])
  refine ⟨ls₁ ++ ls₂, s₂, f', o, rest', run_append_eq_some.mpr ⟨s₁, hrun₁, hrun₂⟩, ?_⟩
  exact ⟨hpc₂.trans hpc₁, hhanded, by rwa [hstdin₂], by rwa [hstdin₂], hproc₂, hne, hfull₂⟩

/-- A step that lets two such writes overlap. -/
theorem not_clear_doomed (hstep : step session base64 s l = some s')
    (hclear : ¬ Clear session base64 s l) : ¬ FitsIn s' ∧ ¬ FitsOut s'.world := by
  cases step_cases hstep with
  | stdin hpc hinbox hm hstdin =>
    unfold Clear at hclear
    push Not at hclear
    obtain ⟨payload, hpayload, -, hopen, hroom, hout⟩ := hclear
    rw [hinbox] at hpayload
    obtain rfl := Option.some.inj (hm.symm.trans hpayload)
    refine ⟨fun hin => ?_, hout⟩
    rcases hin _ rfl with hclosed | hfits
    · exact hopen hclosed
    · rw [FileWrite.left_start] at hfits
      exact hroom hfits
  | skip hpc hinbox hm =>
    unfold Clear at hclear
    push Not at hclear
    obtain ⟨payload, hpayload, hstdin, -⟩ := hclear
    rw [hinbox] at hpayload
    rcases hm with hnone | hno
    · cases hnone.symm.trans hpayload
    · cases hno.symm.trans hstdin
  | leave hpc hinbox =>
    unfold Clear at hclear
    push Not at hclear
    obtain ⟨payload, hpayload, -⟩ := hclear
    rcases hinbox with ⟨m, hm, -, hnone⟩ | ⟨rfl, hnil, -⟩
    · rw [hm] at hpayload
      cases hnone.symm.trans hpayload
    · rw [hnil] at hpayload
      cases hpayload
  | @process a w ha hw =>
    cases World.step_cases hw with
    | @write o bytes =>
      unfold Clear at hclear
      push Not at hclear
      exact ⟨fun hin => hclear.2 hin, fun hout => hclear.1 (hout _ _ rfl)⟩
    | _ => exact (hclear True.intro).elim
  | _ => exact (hclear True.intro).elim

/-- **Full duplex**: where no two writes overlap of which neither fits in its pipe, the driver and
the process never wait for each other; and once two such writes overlap, they may. -/
theorem full_duplex (session : StreamSession) (base64 : Bool) (stdin stdout stderr : Nat)
    {ls : List Label} {s : State}
    (hclear : Along (step session base64) (Clear session base64)
      (init session (.init stdin stdout stderr)) ls)
    (hrun : run (step session base64) (init session (.init stdin stdout stderr)) ls = some s) :
    (∀ f o rest, ¬ Stuck s f o rest) ∧
      ∀ l s', step session base64 s l = some s' → ¬ Clear session base64 s l →
        ∃ ls' s'' f o rest, run (step session base64) s' ls' = some s'' ∧ Stuck s'' f o rest := by
  constructor
  · intro f o rest
    refine not_stuck (invariant_run (fun _ _ _ h hl hs => clear_step h hl hs)
      (.inl fun f hf => ?_) hclear hrun)
    cases hf
  · intro l s' hstep hl
    obtain ⟨hin, hout⟩ := not_clear_doomed hstep hl
    exact doomed_stuck hin hout

/-- A client whose input the process echoes. -/
def echoRun : List Label :=
  [.client (.binary [STDIN, 104, 105]), .recv, .accept 2, .flushed, .process (.read 2),
    .process (.write .stdout [104, 105]), .process (.put 2), .client (.binary [STDIN, 10]), .recv]

theorem full_duplex_echo : ∃ s,
    run (step .pipes false) (init .pipes (.init 2 2 2)) echoRun = some s ∧
      ∀ f o rest, ¬ Stuck s f o rest :=
  have hclear : Along (step .pipes false) (Clear .pipes false) (init .pipes (.init 2 2 2)) echoRun := by
    decide
  ⟨_, rfl, (full_duplex .pipes false 2 2 2 hclear rfl).1⟩

/-- A payload and an output, each of one byte more than a pipe holds. -/
theorem duplex_deadlock : ∃ ls s f o rest,
    run (step .pipes false) (init .pipes (.init 65536 65536 65536)) ls = some s ∧
      Stuck s f o rest := by
  let bytes : Bytes := List.replicate 65537 10
  let s : State :=
    { init .pipes (.init 65536 65536 65536) with
      pc := .writing (.start bytes)
      world := { World.init 65536 65536 65536 with proc := .writing .stdout bytes } }
  have hrun : run (step .pipes false) (init .pipes (.init 65536 65536 65536))
      [.client (.binary (STDIN :: bytes)), .process (.write .stdout bytes), .recv] = some s := rfl
  have hlen : ¬ (Pipe.mk 65536 [] false).room bytes.length := by
    unfold Pipe.room
    rw [List.length_replicate]
    decide
  have hin : ¬ FitsIn s := by
    intro h
    rcases h _ rfl with hclosed | hroom
    · cases hclosed
    · rw [FileWrite.left_start] at hroom
      exact hlen hroom
  have hout : ¬ FitsOut s.world := fun h => hlen (h .stdout bytes rfl)
  obtain ⟨ls, s', f, o, rest, hrun', hstuck⟩ := doomed_stuck hin hout
  exact ⟨_, s', f, o, rest, run_append_eq_some.mpr ⟨s, hrun, hrun'⟩, hstuck⟩

end LightrCri.Stream.WebSocket

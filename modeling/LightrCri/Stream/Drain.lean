import LightrCri.Stream.WebSocket

/-!
# Output before the verdict

What the driver sends on the channel of an output is what it has read of it, and the verdict is the
last thing that it sends (`Inv`). The loop is left when both outputs have ended, when the client
goes, or when `write_all` to stdin fails. The last of these leaves behind what the outputs still
hold (`stdin_failure_truncates`); where it finds both outputs at their end (`Drained`), the verdict
comes after all of the output (`output_before_verdict`).
-/

namespace LightrCri.Stream.WebSocket

open Foundations Spdy Function

variable {session : StreamSession} {base64 : Bool} {s s' : State} {l : Label}

/-! ## What was sent -/

/-- What something sent carries on a channel. -/
def Sent.payload (ch : UInt8) : Sent → Bytes
  | .frame c payload => if c = ch then payload else []
  | .close => []

/-- What was sent on a channel. -/
def carried (ch : UInt8) (sent : List Sent) : Bytes := sent.flatMap (Sent.payload ch)

theorem carried_append (ch : UInt8) (sent sent' : List Sent) :
    carried ch (sent ++ sent') = carried ch sent ++ carried ch sent' :=
  List.flatMap_append

theorem carried_frame (ch c : UInt8) (payload : Bytes) :
    carried ch [.frame c payload] = if c = ch then payload else [] := by
  unfold carried
  rw [List.flatMap_singleton]
  rfl

theorem carried_verdict (o : Output) (code : Option Int32) :
    carried o.channel (verdict code) = [] := by
  cases o <;> rfl

/-- Nothing on the error channel. -/
def Clean (sent : List Sent) : Prop := ∀ payload, Sent.frame ERROR payload ∉ sent

theorem Clean.output {sent : List Sent} (h : Clean sent) (o : Output) (payload : Bytes) :
    Clean (sent ++ [.frame o.channel payload]) := by
  intro p hp
  rcases List.mem_append.mp hp with hold | hnew
  · exact h p hold
  · have heq := (Sent.frame.inj (List.mem_singleton.mp hnew)).1
    cases o <;> cases heq

/-! ## The invariant -/

/-- The driver has left the loop. -/
def Pc.left : Pc → Bool
  | .waiting => true
  | .done => true
  | _ => false

structure Inv (session : StreamSession) (s : State) : Prop where
  sound : s.world.Sound fun o => carried o.channel s.sent
  /-- An output that is not read any more is at its end. -/
  ended : ∀ o, session.has o = true → s.isOpen o = false → (s.world.out o).atEnd
  left : s.pc.left = true → ∀ o, session.has o = true → (s.world.out o).atEnd
  clean : s.pc ≠ .done → Clean s.sent
  done : s.pc = .done → ∃ code sent, s.sent = sent ++ verdict code ∧ Clean sent
  stays : s.closed = false ∧ ∀ m ∈ s.inbox, m.leaves = false
  /-- The loop reads an output, if the session has one. -/
  reads : (∃ o, session.has o = true) → s.pc = .select → ∃ o, s.isOpen o = true

theorem inv_init (session : StreamSession) (stdin stdout stderr : Nat) :
    Inv session (init session (.init stdin stdout stderr)) where
  sound := by
    have h : (fun o : Output => carried o.channel (init session (.init stdin stdout stderr)).sent) =
        fun _ => [] := by
      funext o
      show carried o.channel [.frame (lowest session) []] = []
      rw [carried_frame]
      exact ite_self _
    rw [h]
    exact .init stdin stdout stderr
  ended o ho hclosed := by cases ho.symm.trans hclosed
  left h := by cases h
  clean _ payload hmem := by
    have heq := (Sent.frame.inj (List.mem_singleton.mp hmem)).1
    unfold lowest at heq
    split at heq <;> cases heq
  done h := by cases h
  stays := ⟨rfl, fun m hm => by cases hm⟩
  reads h _ := h

/-- The client stays. -/
def Label.stays : Label → Bool
  | .client m => !m.leaves
  | .hangUp => false
  | _ => true

/-- A failure of stdin now is one of `write_all`. -/
def Pc.fails : Pc → Bool
  | .writing f => f.rest ≠ []
  | _ => false

/-- Where `write_all` to stdin fails, the outputs are at their end. -/
def Drained (s : State) : Label → Prop
  | .broken => s.pc.fails = true → ∀ o, s.isOpen o = true → (s.world.out o).atEnd
  | _ => True

instance : Decidable (Drained s l) :=
  match l with
  | .broken =>
    letI (o : Output) : Decidable (s.isOpen o = true → (s.world.out o).atEnd) :=
      if h : s.isOpen o = true then decidable_of_iff _ (imp_iff_right h).symm
      else isTrue fun h' => (h h').elim
    letI : Decidable (∀ o, s.isOpen o = true → (s.world.out o).atEnd) := Output.decidableForall
    inferInstanceAs (Decidable (s.pc.fails = true → _))
  | .client _ | .hangUp | .recv | .read _ _ | .eof _ | .accept _ | .flushed | .waited _
  | .process _ => instDecidableTrue

/-- The end of an iteration. -/
theorem Inv.next (h : Inv session s) (hpc : s.pc ≠ .done) : Inv session s.next where
  sound := h.sound
  ended := h.ended
  left hleft o ho := by
    unfold State.next at hleft
    dsimp only at hleft
    split at hleft
    · rename_i hclosed
      cases o with
      | stdout => exact h.ended _ ho hclosed.1
      | stderr => exact h.ended _ ho hclosed.2
    · cases hleft
  clean _ := h.clean hpc
  done hdone := by
    unfold State.next at hdone
    dsimp only at hdone
    split at hdone <;> cases hdone
  stays := h.stays
  reads _ hpc := by
    unfold State.next at hpc
    dsimp only at hpc
    split at hpc
    · cases hpc
    · rename_i hopen
      rcases hout : s.isOpen .stdout with - | -
      · refine ⟨.stderr, ?_⟩
        rcases herr : s.isOpen .stderr with - | -
        · exact (hopen ⟨hout, herr⟩).elim
        · exact herr
      · exact ⟨.stdout, hout⟩

theorem Inv.tail {m : Message} {inbox : List Message} (h : Inv session s)
    (hinbox : s.inbox = m :: inbox) : Inv session { s with inbox := inbox } where
  sound := h.sound
  ended := h.ended
  left := h.left
  clean := h.clean
  done := h.done
  stays := ⟨h.stays.1, fun m' hm' => h.stays.2 m' (hinbox ▸ List.mem_cons_of_mem _ hm')⟩
  reads := h.reads

/-- The loop is left with both outputs at their end. -/
theorem Inv.leave (h : Inv session s) (hpc : s.pc ≠ .done)
    (hends : ∀ o, s.isOpen o = true → (s.world.out o).atEnd) :
    Inv session { s with pc := .waiting } where
  sound := h.sound
  ended := h.ended
  left _ o ho := by
    rcases hopen : s.isOpen o with - | -
    · exact h.ended o ho hopen
    · exact hends o hopen
  clean _ := h.clean hpc
  done hdone := by cases hdone
  stays := h.stays
  reads _ hpc := by cases hpc

/-- **One step** keeps the invariant. -/
theorem inv_step (h : Inv session s) (hl : l.stays = true ∧ Drained s l)
    (hstep : step session base64 s l = some s') : Inv session s' := by
  cases step_cases hstep with
  | client m hopen =>
    have hm : m.leaves = false := by simpa [Label.stays] using hl.1
    refine ⟨h.sound, h.ended, h.left, h.clean, h.done, ⟨?_, fun m' hm' => ?_⟩, h.reads⟩
    · cases m <;> first | rfl | cases hm
    · rcases List.mem_append.mp hm' with hold | hnew
      · exact h.stays.2 m' hold
      · rw [List.mem_singleton.mp hnew]
        exact hm
  | hangUp => cases hl.1
  | stdin hpc hinbox =>
    have ht := h.tail hinbox
    exact ⟨ht.sound, ht.ended, fun hleft => (by cases hleft),
      fun _ => ht.clean (by rw [hpc]; exact fun hd => by cases hd), fun hd => (by cases hd),
      ht.stays, fun _ hp => (by cases hp)⟩
  | skip hpc hinbox => exact (h.tail hinbox).next (by rw [hpc]; exact fun hd => by cases hd)
  | leave hpc hinbox =>
    rcases hinbox with ⟨m, hinbox, hm, -⟩ | ⟨-, -, hclosed⟩
    · have hstay := h.stays.2 m (hinbox ▸ List.mem_cons_self)
      cases hm.symm.trans hstay
    · cases hclosed.symm.trans h.stays.1
  | @read o n hpc ho hn hbuf =>
    refine ⟨?_, fun o' ho' hopen => ?_, fun hleft => ?_, fun _ => ?_, fun hd => ?_, h.stays,
      h.reads⟩
    · have hsound := h.sound.drain o n
      have hsent : (fun o' : Output =>
          carried o'.channel (s.sent ++ [.frame o.channel (s.world.taken o n)])) =
          update (fun o' => carried o'.channel s.sent) o
            (carried o.channel s.sent ++ s.world.taken o n) := by
        funext o'
        rw [carried_append, carried_frame, update_apply]
        by_cases heq : o' = o
        · rw [heq, if_pos rfl, if_pos rfl]
        · rw [if_neg heq, if_neg fun hc => heq (Output.channel_inj.mp hc).symm, List.append_nil]
      dsimp only
      rw [hsent]
      exact hsound
    · have hend := h.ended o' ho' hopen
      show (update s.world.out o _ o').atEnd
      rw [update_apply]
      split
      · rename_i heq
        rw [heq, ho] at hopen
        cases hopen
      · exact hend
    · dsimp only at hleft
      rw [hpc] at hleft
      cases hleft
    · exact (h.clean (by rw [hpc]; exact fun hd => by cases hd)).output o _
    · dsimp only at hd
      rw [hpc] at hd
      cases hd
  | @eof o hpc ho hend =>
    have hne : s.pc ≠ .done := by
      rw [hpc]
      exact fun hd => by cases hd
    -- where the loop was does not matter for where its next iteration starts
    have hbefore : Inv session
        { s with isOpen := update s.isOpen o false, pc := .writing (.start []) } := by
      refine ⟨h.sound, fun o' ho' hopen => ?_, fun hleft => (by cases hleft),
        fun _ => h.clean hne, fun hd => (by cases hd), h.stays, fun _ hp => (by cases hp)⟩
      dsimp only at hopen
      rw [update_apply] at hopen
      split at hopen
      · rename_i heq
        rw [heq]
        exact hend
      · exact h.ended o' ho' hopen
    exact hbefore.next fun hd => by cases hd
  | accept hpc hw =>
    obtain ⟨-, rfl⟩ := World.accept_cases hw
    exact ⟨h.sound.accept hw, h.ended, fun hleft => (by cases hleft),
      fun _ => h.clean (by rw [hpc]; exact fun hd => by cases hd), fun hd => (by cases hd), h.stays,
      fun _ hp => (by cases hp)⟩
  | lost hpc => exact h.next (by rw [hpc]; exact fun hd => by cases hd)
  | failed hpc _ _ hrest =>
    have hfails : s.pc.fails = true := by
      rw [hpc]
      exact decide_eq_true hrest
    exact h.leave (by rw [hpc]; exact fun hd => by cases hd) (hl.2 hfails)
  | flushed hpc => exact h.next (by rw [hpc]; exact fun hd => by cases hd)
  | @waited code hpc hcode =>
    have hclean := h.clean (by rw [hpc]; exact fun hd => by cases hd)
    have hsent : (fun o : Output => carried o.channel (s.sent ++ verdict code)) =
        fun o => carried o.channel s.sent := by
      funext o
      rw [carried_append, carried_verdict, List.append_nil]
    refine ⟨?_, h.ended, fun _ => h.left (by rw [hpc]; rfl), fun hd => (hd rfl).elim,
      fun _ => ⟨code, s.sent, rfl, hclean⟩, h.stays, fun _ hp => (by cases hp)⟩
    dsimp only
    rw [hsent]
    exact h.sound
  | process ha hw =>
    refine ⟨h.sound.step hw, fun o ho hopen => ?_, fun hleft o ho => ?_, h.clean, h.done, h.stays,
      h.reads⟩
    · exact World.atEnd_step h.sound (h.ended o ho hopen) hw
    · exact World.atEnd_step h.sound (h.left hleft o ho) hw

/-! ## The driver ends when the process has -/

/-- What is left to read of an output, and its end. -/
def State.unread (s : State) (o : Output) : Nat :=
  if s.isOpen o then (s.world.out o).buf.length + 1 else 0

theorem unread_lt {t : State} (o : Output) (hlt : t.unread o < s.unread o)
    (hother : ∀ o', o' ≠ o → t.unread o' = s.unread o') :
    t.unread .stdout + t.unread .stderr < s.unread .stdout + s.unread .stderr := by
  cases o with
  | stdout =>
    have h := hother .stderr (by decide)
    omega
  | stderr =>
    have h := hother .stdout (by decide)
    omega

/-- How far the driver is from its end. -/
def Pc.rank : Pc → Nat
  | .writing _ => 3
  | .select => 2
  | .waiting => 1
  | .done => 0

/-- The process has ended, and the loop reads an output. -/
structure Ended (s : State) : Prop where
  exited : ∃ c, s.world.proc = .exited c
  stdin : s.world.stdin.closed = true
  out : ∀ o, (s.world.out o).closed = true
  reads : s.pc = .select → ∃ o, s.isOpen o = true

theorem Ended.next (h : Ended s) : Ended s.next where
  exited := h.exited
  stdin := h.stdin
  out := h.out
  reads hpc := by
    by_contra hnone
    push Not at hnone
    unfold State.next at hpc
    dsimp only at hpc
    rw [if_pos ⟨Bool.eq_false_iff.mpr (hnone _), Bool.eq_false_iff.mpr (hnone _)⟩] at hpc
    cases hpc

theorem next_rank_le (s : State) : s.next.pc.rank ≤ 2 := by
  unfold State.next
  dsimp only
  split <;> decide

/-- The step that the loop takes when it reads an output whose process has ended. -/
theorem Ended.read (h : Ended s) (hpc : s.pc = .select) {o : Output} (ho : s.isOpen o = true) :
    ∃ l s', l.driver = true ∧ step session base64 s l = some s' ∧ Ended s' ∧
      s'.pc.rank ≤ s.pc.rank ∧
      s'.unread .stdout + s'.unread .stderr < s.unread .stdout + s.unread .stderr := by
  rcases hbuf : (s.world.out o).buf with - | ⟨b, buf⟩
  · have hstep : step session base64 s (.eof o) =
        some { s with isOpen := update s.isOpen o false }.next :=
      if_pos ⟨hpc, ho, hbuf, h.out o⟩
    refine ⟨.eof o, _, rfl, hstep, ?_, ?_, unread_lt o ?_ fun o' hne => ?_⟩
    · have hbefore : Ended { s with isOpen := update s.isOpen o false, pc := .waiting } :=
        ⟨h.exited, h.stdin, h.out, fun hp => by cases hp⟩
      exact hbefore.next
    · rw [hpc]
      exact next_rank_le _
    · simp [State.unread, State.next, ho]
    · simp [State.unread, State.next, hne]
  · have hlen : 1 ≤ (s.world.out o).buf.length := by
      rw [hbuf, List.length_cons]
      omega
    have hstep : step session base64 s (.read o 1) =
        some { s with
          world := s.world.drain o 1
          sent := s.sent ++ [.frame o.channel (s.world.taken o 1)] } :=
      if_pos ⟨hpc, ho, one_pos, by decide, hlen⟩
    refine ⟨.read o 1, _, rfl, hstep, ⟨h.exited, h.stdin, fun o' => ?_, h.reads⟩, le_rfl,
      unread_lt o ?_ fun o' hne => ?_⟩
    · show (update s.world.out o _ o').closed = true
      rw [update_apply]
      split
      · exact h.out o
      · exact h.out o'
    · simp [State.unread, ho, World.drain, World.setOut]
      omega
    · simp [State.unread, hne, World.drain, World.setOut]

/-- When the process has ended, the loop reads the outputs to their ends and is left. -/
theorem Ended.finishes (h : Ended s) : Finishes session base64 s := by
  refine reaches_of_variant (fun t => t.pc.rank + (t.unread .stdout + t.unread .stderr))
    (fun t h => ?_) h
  obtain ⟨c, hproc⟩ := h.exited
  rcases hpc : t.pc with - | f | - | -
  · obtain ⟨o, ho⟩ := h.reads hpc
    obtain ⟨l, t', hl, hstep, hended, hrank, hlt⟩ := h.read hpc ho
    exact .inr ⟨l, t', hl, hstep, hended, by rw [← hpc]; omega⟩
  · have hnext : t.next.pc.rank + (t.next.unread .stdout + t.next.unread .stderr) <
        Pc.rank (.writing f) + (t.unread .stdout + t.unread .stderr) := by
      have hle := next_rank_le t
      show t.next.pc.rank + (t.unread .stdout + t.unread .stderr) < 3 + _
      omega
    right
    by_cases hhanded : f.handed = []
    · have hstep : step session base64 t .flushed = some t.next := by
        unfold step
        rw [hpc]
        exact if_pos (FileWrite.left_eq_nil.mpr hhanded)
      exact ⟨.flushed, _, rfl, hstep, h.next, hnext⟩
    · by_cases hrest : f.rest = []
      · have hstep : step session base64 t .broken = some t.next := by
          unfold step
          rw [hpc]
          dsimp only
          rw [if_pos ⟨h.stdin, hhanded⟩, if_pos hrest]
        exact ⟨.broken, _, rfl, hstep, h.next, hnext⟩
      · have hstep : step session base64 t .broken = some { t with pc := .waiting } := by
          unfold step
          rw [hpc]
          dsimp only
          rw [if_pos ⟨h.stdin, hhanded⟩, if_neg hrest]
        refine ⟨.broken, _, rfl, hstep, ⟨h.exited, h.stdin, h.out, fun hp => by cases hp⟩, ?_⟩
        show 1 + (t.unread .stdout + t.unread .stderr) < 3 + _
        omega
  · obtain ⟨code, hcode⟩ := Waiter.returns_exited session.waiter c
    rw [← hproc] at hcode
    have hstep : step session base64 t (.waited code) =
        some { t with pc := .done, sent := t.sent ++ verdict code } := if_pos ⟨hpc, hcode⟩
    refine .inr ⟨_, _, rfl, hstep, ⟨h.exited, h.stdin, h.out, fun hp => by cases hp⟩, ?_⟩
    show 0 + (t.unread .stdout + t.unread .stderr) < 1 + _
    omega
  · exact .inl rfl

/-- Where a session has an output, the driver ends when the process has. -/
theorem finishes (h : Inv session s) (hhas : ∃ o, session.has o = true) {c : Int32}
    (hproc : s.world.proc = .exited c) : Finishes session base64 s := by
  obtain ⟨hstdin, hclosed⟩ := h.sound.exited c hproc
  exact Ended.finishes ⟨⟨c, hproc⟩, hstdin, hclosed, h.reads hhas⟩

/-- **Output before the verdict.** The client stays, and `write_all` to stdin fails only where the
outputs are at their end. Then when the verdict is sent, which is once and last, the frames of an
output carry all that the process wrote to it and will ever write; and if the session has an output,
the driver comes to that when the process has ended. -/
theorem output_before_verdict (session : StreamSession) (base64 : Bool)
    (stdin stdout stderr : Nat) {ls : List Label} {s : State}
    (hstays : ∀ l ∈ ls, l.stays = true)
    (hdrained : Along (step session base64) Drained
      (init session (.init stdin stdout stderr)) ls)
    (hrun : run (step session base64) (init session (.init stdin stdout stderr)) ls = some s) :
    (s.pc ≠ .done → ∀ payload, Sent.frame ERROR payload ∉ s.sent) ∧
      (s.pc = .done →
        (∃ code sent, s.sent = sent ++ verdict code ∧
          ∀ payload, Sent.frame ERROR payload ∉ sent) ∧
        ∀ o, session.has o = true →
          carried o.channel s.sent = s.world.produced o ∧ (s.world.out o).closed = true) ∧
      ((∃ o, session.has o = true) → (∃ c, s.world.proc = .exited c) →
        Finishes session base64 s) := by
  have h : Inv session s := invariant_run (fun _ _ _ hi hl hs => inv_step hi hl hs)
    (inv_init session stdin stdout stderr) (hdrained.and_labels hstays) hrun
  refine ⟨h.clean, fun hdone => ⟨h.done hdone, fun o ho => ?_⟩, fun hhas ⟨c, hproc⟩ => ?_⟩
  · have hend := h.left (by rw [hdone]; rfl) o ho
    have hproduced := h.sound.produced o
    rw [hend.1, List.append_nil] at hproduced
    exact ⟨hproduced.symm, hend.2⟩
  · exact finishes h hhas hproc

/-- A process that writes, closes its stdin and exits while the client is still sending. -/
def closedStdinRun : List Label :=
  [.process (.write .stdout [104, 105]), .process (.put 2), .read .stdout 1,
    .client (.binary [STDIN, 10]), .process .closeStdin, .recv, .broken, .read .stdout 1,
    .process (.exit 3), .eof .stdout, .eof .stderr, .waited (some 3)]

theorem output_before_verdict_closedStdin : ∃ s,
    run (step .pipes false) (init .pipes (.init 2 2 2)) closedStdinRun = some s ∧
      s.pc = .done ∧ carried STDOUT s.sent = s.world.produced .stdout := by
  have hdrained : Along (step .pipes false) Drained (init .pipes (.init 2 2 2)) closedStdinRun := by
    decide
  refine ⟨_, rfl, rfl, ?_⟩
  exact ((output_before_verdict .pipes false 2 2 2 (by decide) hdrained rfl).2.1 rfl).2 .stdout rfl
    |>.1

/-- A payload of more than one chunk is sent to a process that has written a byte and closed its
stdin: the byte is not sent, the verdict is. -/
theorem stdin_failure_truncates : ∃ ls s, (∀ l ∈ ls, l.stays = true) ∧
    run (step .pipes false) (init .pipes (.init 65536 65536 65536)) ls = some s ∧
      s.pc = .done ∧ carried STDOUT s.sent ≠ s.world.produced .stdout := by
  obtain ⟨payload, hpayload⟩ : ∃ payload : Bytes, payload.length = MAX_BUF_SIZE + 1 :=
    ⟨List.replicate (MAX_BUF_SIZE + 1) 10, List.length_replicate⟩
  obtain ⟨s, hrun, hpc, hclosed, hsent, hproduced, hproc⟩ : ∃ s,
      run (step .pipes false) (init .pipes (.init 65536 65536 65536))
        [.process (.write .stdout [120]), .process (.put 1), .process .closeStdin,
          .client (.binary (STDIN :: payload)), .recv] = some s ∧
        s.pc = .writing (.start payload) ∧ s.world.stdin.closed = true ∧
        carried STDOUT s.sent = [] ∧ s.world.produced .stdout = [120] ∧
        s.world.proc = .running := ⟨_, rfl, rfl, rfl, rfl, rfl, rfl⟩
  have hlen : (FileWrite.start payload).rest ≠ [] := by
    intro hnil
    have hle := List.drop_eq_nil_iff.mp hnil
    rw [hpayload] at hle
    omega
  have hhanded : (FileWrite.start payload).handed ≠ [] :=
    fun hnil => hlen ((FileWrite.start payload).ordered hnil)
  have hbroken : step .pipes false s .broken = some { s with pc := .waiting } := by
    unfold step
    rw [hpc]
    dsimp only
    rw [if_pos ⟨hclosed, hhanded⟩, if_neg hlen]
  obtain ⟨w, hexit, hproc', hproduced'⟩ : ∃ w, s.world.step (.exit 0) = some w ∧
      w.proc = .exited 0 ∧ w.produced = s.world.produced := ⟨_, if_pos hproc, rfl, rfl⟩
  have hstep : step .pipes false { s with pc := .waiting } (.process (.exit 0)) =
      some { s with pc := .waiting, world := w } := by
    unfold step
    dsimp only
    rw [hexit]
    rfl
  have hwaited : step .pipes false { s with pc := .waiting, world := w } (.waited (some 0)) =
      some { s with pc := .done, world := w, sent := s.sent ++ verdict (some 0) } := by
    refine if_pos ⟨rfl, ?_⟩
    dsimp only
    rw [hproc']
    exact .inl rfl
  refine ⟨_ ++ [.broken, .process (.exit 0), .waited (some 0)], _, ?_,
    run_append_eq_some.mpr ⟨s, hrun, run_cons_eq_some.mpr ⟨_, hbroken, run_cons_eq_some.mpr
      ⟨_, hstep, run_cons_eq_some.mpr ⟨_, hwaited, rfl⟩⟩⟩⟩, rfl, ?_⟩
  · intro l hl
    simp only [List.cons_append, List.nil_append, List.mem_cons, List.not_mem_nil, or_false] at hl
    rcases hl with rfl | rfl | rfl | rfl | rfl | rfl | rfl | rfl <;> rfl
  · have hcarried : carried STDOUT (s.sent ++ verdict (some 0)) = [] := by
      rw [carried_append, hsent]
      rfl
    dsimp only
    rw [hcarried, hproduced', hproduced]
    exact fun h => by cases h

end LightrCri.Stream.WebSocket

import LightrCri.Stream.WebSocket

/-!
# When the client goes

However the loop is left, the driver waits for the waiter of the session before it returns. The
waiter of an exec waits for its process and that of an attach to pipes for the container, so with
these the driver keeps its handles for as long as the process lives. Only the waiter of an attach to
a terminal returns at once.

A read of an output is a job of the blocking pool. It goes on when the loop takes another arm, and
also when `run_session` has returned, and holds its file until there is something to read or the
output is at its end. So an attach to a terminal, too, keeps a handle when the loop is left with a
read under way and nothing to read (`dies_with_connection`).
-/

namespace LightrCri.Stream.WebSocket

open Foundations Spdy Function

/-! ## The driver and its reads -/

/-- The driver, and the reads that are under way. -/
structure Pooled where
  driver : State
  reading : Output → Bool

inductive Move
  | driver (l : Label)
  /-- The loop polls an output, which begins a read. -/
  | poll (o : Output)
  /-- A read returns that the loop no longer waits for, with `n` bytes or at the end with none. -/
  | returned (o : Output) (n : Nat)
  deriving DecidableEq, Repr

/-- The moves of the driver and of the threads that read for it. -/
def Move.own : Move → Bool
  | .driver l => l.driver
  | .poll _ => true
  | .returned _ _ => true

/-- The output whose read returns in the step. -/
def Label.reads : Label → Option Output
  | .read o _ => some o
  | .eof o => some o
  | _ => none

/-- There is something to read, or the output is at its end. -/
def Readable (p : Pipe) : Prop := p.buf ≠ [] ∨ p.closed = true

/-- A read may return with so many bytes. -/
def Returns (p : Pipe) (n : Nat) : Prop :=
  0 < n ∧ n ≤ 8192 ∧ n ≤ p.buf.length ∨ n = 0 ∧ p.atEnd

instance (p : Pipe) (n : Nat) : Decidable (Returns p n) := instDecidableOr

instance (p : Pipe) : Decidable (Readable p) := instDecidableOr

/-- A handle of the session. -/
inductive Handle
  | stdin
  | output (o : Output)
  | ptyMaster
  deriving DecidableEq, Repr

namespace Pooled

variable (session : StreamSession) (base64 : Bool)

def init (world : World) : Pooled := ⟨WebSocket.init session world, fun _ => false⟩

def step (p : Pooled) : Move → Option Pooled
  | .driver l =>
    match l.reads with
    | some o =>
      if p.reading o = true then
        (WebSocket.step session base64 p.driver l).map fun s => ⟨s, update p.reading o false⟩
      else none
    | none => (WebSocket.step session base64 p.driver l).map fun s => ⟨s, p.reading⟩
  | .poll o =>
    if p.driver.pc = .select ∧ p.driver.isOpen o = true ∧ p.reading o = false then
      some { p with reading := update p.reading o true }
    else none
  | .returned o n =>
    if p.reading o = true ∧ (p.driver.pc = .waiting ∨ p.driver.pc = .done) ∧
        Returns (p.driver.world.out o) n then
      some
        ⟨{ p.driver with world := p.driver.world.drain o n }, update p.reading o false⟩
    else none

/-- The driver has the handle until it returns, and a read has the file of its output. -/
def holds (p : Pooled) : Handle → Bool
  | .stdin => session.stdin && p.driver.pc ≠ .done
  | .output o => session.has o && (p.driver.pc ≠ .done || p.reading o)
  | .ptyMaster => session.ptyMaster && p.driver.pc ≠ .done

/-- The driver has returned, and no handle is left. -/
def Released (p : Pooled) : Prop := p.driver.pc = .done ∧ ∀ h, p.holds session h = false

/-- The moves there are. -/
inductive Steps (p : Pooled) : Move → Pooled → Prop
  | driver {l : Label} {s : State} (hl : l.reads = none)
    (hs : WebSocket.step session base64 p.driver l = some s) : Steps p (.driver l) ⟨s, p.reading⟩
  | read {l : Label} {o : Output} {s : State} (hl : l.reads = some o)
    (hreading : p.reading o = true) (hs : WebSocket.step session base64 p.driver l = some s) :
    Steps p (.driver l) ⟨s, update p.reading o false⟩
  | poll {o : Output} (hpc : p.driver.pc = .select) (hopen : p.driver.isOpen o = true) :
    Steps p (.poll o) { p with reading := update p.reading o true }
  | returned {o : Output} {n : Nat} (hreading : p.reading o = true)
    (hpc : p.driver.pc = .waiting ∨ p.driver.pc = .done)
    (hn : Returns (p.driver.world.out o) n) :
    Steps p (.returned o n)
      ⟨{ p.driver with world := p.driver.world.drain o n }, update p.reading o false⟩

variable {session base64} {p p' : Pooled} {m : Move}

/-- **Every move is one of these.** -/
theorem step_cases (h : step session base64 p m = some p') : Steps session base64 p m p' := by
  cases m with
  | driver l =>
    unfold step at h
    dsimp only at h
    split at h
    · rename_i o hl
      split at h
      · rename_i hreading
        obtain ⟨s, hs, rfl⟩ := Option.map_eq_some_iff.mp h
        exact .read hl hreading hs
      · cases h
    · rename_i hl
      obtain ⟨s, hs, rfl⟩ := Option.map_eq_some_iff.mp h
      exact .driver hl hs
  | poll o =>
    unfold step at h
    dsimp only at h
    split at h
    · rename_i hcond
      obtain rfl := Option.some.inj h
      exact .poll hcond.1 hcond.2.1
    · cases h
  | returned o n =>
    unfold step at h
    dsimp only at h
    split at h
    · rename_i hcond
      obtain rfl := Option.some.inj h
      exact .returned hcond.1 hcond.2.1 hcond.2.2
    · cases h

end Pooled

/-! ## What is so in every state -/

variable {session : StreamSession} {base64 : Bool} {s s' : State} {l : Label}

/-- A waiter that waits for something waits while the process lives. -/
theorem Waiter.waits {waiter : Waiter} (hwaiter : waiter ≠ .immediate) {proc : Process}
    (halive : ∀ c, proc ≠ .exited c) (code : Option Int32) : ¬ waiter.returns proc code := by
  cases waiter with
  | immediate => exact (hwaiter rfl).elim
  | child =>
    cases proc with
    | exited c => exact (halive c rfl).elim
    | running => exact id
    | writing => exact id
  | leavesRunning =>
    cases proc with
    | exited c => exact (halive c rfl).elim
    | running => exact id
    | writing => exact id

/-- The end of an iteration leads back to the loop or out of it. -/
theorem next_pc (s : State) : s.next.pc = .select ∨ s.next.pc = .waiting := by
  unfold State.next
  dsimp only
  split
  · exact .inr rfl
  · exact .inl rfl

/-- A process that has exited does nothing more. -/
theorem exited_step {w w' : World} {a : ProcessAction} {c : Int32} (hproc : w.proc = .exited c) :
    w.step a ≠ some w' := by
  intro hw
  cases World.step_cases hw with
  | write h | put h | read h | closeStdin h | close h | exit h => cases hproc.symm.trans h

/-- What is so of the driver: its outputs are those of the session, it has returned only when its
waiter had, and without stdin it is not in a write. -/
structure Sane (session : StreamSession) (s : State) : Prop where
  opened : ∀ o, s.isOpen o = true → session.has o = true
  done : s.pc = .done → session.waiter ≠ .immediate → ∃ c, s.world.proc = .exited c
  quiet : session.stdin = false → ∀ f, s.pc ≠ .writing f

theorem Sane.next (h : Sane session s) : Sane session s.next := by
  refine ⟨h.opened, fun hdone => ?_, fun _ f hf => ?_⟩
  · rcases next_pc s with hpc | hpc <;> cases hpc.symm.trans hdone
  · rcases next_pc s with hpc | hpc <;> cases hpc.symm.trans hf

/-- What becomes of the inbox, and what was sent, does not matter. -/
theorem Sane.congr (h : Sane session s) (hopen : s'.isOpen = s.isOpen) (hpc : s'.pc = s.pc)
    (hproc : s'.world.proc = s.world.proc) : Sane session s' := by
  refine ⟨?_, ?_, ?_⟩
  · rw [hopen]
    exact h.opened
  · rw [hpc, hproc]
    exact h.done
  · rw [hpc]
    exact h.quiet

theorem Sane.step (h : Sane session s) (hstep : WebSocket.step session base64 s l = some s') :
    Sane session s' := by
  have hleft {t : State} (hopen : t.isOpen = s.isOpen) (hpc : t.pc = .waiting) :
      Sane session t := by
    refine ⟨?_, fun hdone => ?_, fun _ f hf => ?_⟩
    · rw [hopen]
      exact h.opened
    · cases hpc.symm.trans hdone
    · cases hpc.symm.trans hf
  cases step_cases hstep with
  | client => exact h.congr rfl rfl rfl
  | hangUp => exact h.congr rfl rfl rfl
  | stdin _ _ _ hyes => exact ⟨h.opened, nofun, fun hno => by cases hno.symm.trans hyes⟩
  | @skip _ inbox =>
    have hrest : Sane session { s with inbox := inbox } := h.congr rfl rfl rfl
    exact hrest.next
  | leave => exact hleft rfl rfl
  | read => exact h.congr rfl rfl rfl
  | @eof o =>
    have hopen : Sane session { s with isOpen := update s.isOpen o false } := by
      refine ⟨fun o' ho' => ?_, h.done, h.quiet⟩
      by_cases heq : o' = o
      · subst heq
        change update s.isOpen o' false o' = true at ho'
        rw [update_self] at ho'
        cases ho'
      · change update s.isOpen o false o' = true at ho'
        rw [update_of_ne heq] at ho'
        exact h.opened o' ho'
    exact hopen.next
  | accept hpc => exact ⟨h.opened, nofun, fun hno => absurd hpc (h.quiet hno _)⟩
  | lost => exact h.next
  | failed => exact hleft rfl rfl
  | flushed => exact h.next
  | waited hpc hcode =>
    refine ⟨h.opened, fun _ hwaiter => ?_, fun _ f => nofun⟩
    by_contra halive
    push Not at halive
    exact Waiter.waits hwaiter halive _ hcode
  | process _ hw =>
    refine ⟨h.opened, fun hdone hwaiter => ?_, h.quiet⟩
    obtain ⟨c, hc⟩ := h.done hdone hwaiter
    exact absurd hw (exited_step hc)

namespace Pooled

variable {p p' : Pooled} {m : Move}

/-- What is so of the driver and its reads. -/
structure Kept (session : StreamSession) (p : Pooled) : Prop where
  driver : Sane session p.driver
  reading : ∀ o, p.reading o = true → session.has o = true

theorem Kept.step (h : Kept session p) (hstep : Pooled.step session base64 p m = some p') :
    Kept session p' := by
  have hreads {o : Output} {b : Bool} (hb : b = true → session.has o = true) (o' : Output)
      (ho' : update p.reading o b o' = true) : session.has o' = true := by
    by_cases heq : o' = o
    · subst heq
      rw [update_self] at ho'
      exact hb ho'
    · rw [update_of_ne heq] at ho'
      exact h.reading o' ho'
  cases step_cases hstep with
  | driver _ hs => exact ⟨h.driver.step hs, h.reading⟩
  | read _ _ hs => exact ⟨h.driver.step hs, hreads nofun⟩
  | poll _ hopen => exact ⟨h.driver, hreads fun _ => h.driver.opened _ hopen⟩
  | returned => exact ⟨h.driver.congr rfl rfl rfl, hreads nofun⟩

theorem Kept.run {world : World} {ms : List Move}
    (hrun : Foundations.run (Pooled.step session base64) (init session world) ms = some p) :
    Kept session p := by
  refine invariant_run (I := Kept session) (P := fun _ _ => True) (fun _ _ _ h _ hs => h.step hs)
    ⟨⟨fun _ ho => ho, fun hdone => ?_, fun _ f hf => ?_⟩, fun _ ho => ?_⟩ (Along.trivial _ _) hrun
  · cases hdone
  · cases hf
  · cases ho

/-! ## When it cannot -/

/-- The reads that are under way can return. -/
def Reads (p : Pooled) : Prop := ∀ o, p.reading o = true → Readable (p.driver.world.out o)

/-- The session of an attach to it. -/
def terminal : StreamSession := ⟨false, true, false, true, .immediate⟩

end Pooled

end LightrCri.Stream.WebSocket

import LightrCri.Stream.Session
import Mathlib.Logic.Function.Basic

/-!
# The process of a session

The process that a session is about, with the pipes between it and the driver of the session. It
reads its stdin and writes its outputs in any order, one call at a time; a write blocks until the
pipe has taken all of it. A pipe holds a bounded number of bytes.
-/

namespace LightrCri.Stream

open Spdy Function

inductive Output
  | stdout
  | stderr
  deriving DecidableEq, Repr

instance Output.decidableForall {p : Output → Prop} [∀ o, Decidable (p o)] :
    Decidable (∀ o, p o) :=
  decidable_of_iff (p .stdout ∧ p .stderr)
    ⟨fun h o => by cases o <;> [exact h.1; exact h.2], fun h => ⟨h _, h _⟩⟩

/-- The channel of an output. -/
def Output.channel : Output → UInt8
  | .stdout => STDOUT
  | .stderr => STDERR

theorem Output.channel_inj {o o' : Output} : o.channel = o'.channel ↔ o = o' := by
  cases o <;> cases o' <;> decide

/-- The session provides the output. -/
def StreamSession.has (session : StreamSession) : Output → Bool
  | .stdout => session.stdout
  | .stderr => session.stderr

structure Pipe where
  capacity : Nat
  buf : Bytes
  /-- The process has closed its end. -/
  closed : Bool
  deriving DecidableEq, Repr

/-- The pipe has room for so many bytes. -/
def Pipe.room (p : Pipe) (n : Nat) : Prop := n ≤ p.capacity - p.buf.length

instance (p : Pipe) (n : Nat) : Decidable (p.room n) := Nat.decLe _ _

/-- A reader of the pipe is at its end. -/
def Pipe.atEnd (p : Pipe) : Prop := p.buf = [] ∧ p.closed = true

instance (p : Pipe) : Decidable p.atEnd := instDecidableAnd

inductive Process
  | running
  /-- In a write, with the bytes that the pipe has not yet taken. -/
  | writing (o : Output) (rest : Bytes)
  | exited (code : Int32)
  deriving DecidableEq, Repr

structure World where
  proc : Process
  stdin : Pipe
  out : Output → Pipe
  /-- All that the process has written to an output so far. -/
  produced : Output → Bytes
  /-- All that was written to an input of the process so far. -/
  received : Input → Bytes

/-- What the process does. -/
inductive ProcessAction
  | write (o : Output) (bytes : Bytes)
  /-- The pipe takes `n` bytes of the write. -/
  | put (n : Nat)
  | read (n : Nat)
  | closeStdin
  | close (o : Output)
  | exit (code : Int32)
  deriving DecidableEq, Repr

/-- The outputs that the session has are those that the process can write to. -/
def ProcessAction.within (session : StreamSession) : ProcessAction → Bool
  | .write o _ => session.has o
  | _ => true

def World.init (stdin stdout stderr : Nat) : World where
  proc := .running
  stdin := ⟨stdin, [], false⟩
  out
    | .stdout => ⟨stdout, [], false⟩
    | .stderr => ⟨stderr, [], false⟩
  produced _ := []
  received _ := []

def World.setOut (w : World) (o : Output) (f : Pipe → Pipe) : World :=
  { w with out := update w.out o (f (w.out o)) }

def World.step (w : World) : ProcessAction → Option World
  | .write o bytes =>
    if w.proc = .running ∧ (w.out o).closed = false ∧ bytes ≠ [] then
      some { w with proc := .writing o bytes }
    else none
  | .put n =>
    match w.proc with
    | .writing o rest =>
      if 0 < n ∧ n ≤ rest.length ∧ (w.out o).room n then
        some { w.setOut o fun p => { p with buf := p.buf ++ rest.take n } with
          proc := if n = rest.length then .running else .writing o (rest.drop n)
          produced := update w.produced o (w.produced o ++ rest.take n) }
      else none
    | _ => none
  | .read n =>
    if w.proc = .running ∧ 0 < n ∧ n ≤ w.stdin.buf.length ∧ w.stdin.closed = false then
      some { w with stdin := { w.stdin with buf := w.stdin.buf.drop n } }
    else none
  | .closeStdin =>
    if w.proc = .running then some { w with stdin := { w.stdin with closed := true } } else none
  | .close o =>
    if w.proc = .running then some (w.setOut o fun p => { p with closed := true }) else none
  | .exit code =>
    if w.proc = .running then
      some
        { w with
          proc := .exited code
          stdin := { w.stdin with closed := true }
          out := fun o => { w.out o with closed := true } }
    else none

/-- Whether a waiter may return, and what: none is an error. -/
def Waiter.returns (waiter : Waiter) (proc : Process) (code : Option Int32) : Prop :=
  match waiter, proc with
  | .immediate, _ => code = some 0
  | .child, .exited c => code = some c ∨ code = none
  -- the container's record has left Running, or was removed
  | .leavesRunning, .exited c => code = some c ∨ code = some 0
  | _, _ => False

instance (waiter : Waiter) (proc : Process) (code : Option Int32) :
    Decidable (waiter.returns proc code) := by
  unfold Waiter.returns
  split <;> infer_instance

/-- With the process, a waiter may return. -/
theorem Waiter.returns_exited (waiter : Waiter) (c : Int32) :
    ∃ code, waiter.returns (.exited c) code := by
  cases waiter with
  | child => exact ⟨some c, .inl rfl⟩
  | immediate => exact ⟨some 0, rfl⟩
  | leavesRunning => exact ⟨some c, .inl rfl⟩

/-! ## Writing to the stdin of the process -/

/-- The most that a file hands at once to the thread that writes. -/
def MAX_BUF_SIZE : Nat := 2 * 1024 * 1024

/-- A `write_all` to a file, and the `flush` after it. -/
structure FileWrite where
  /-- What the thread that writes still has. -/
  handed : Bytes
  /-- What it was not yet given. -/
  rest : Bytes
  ordered : handed = [] → rest = []
  deriving DecidableEq, Repr

def FileWrite.start (payload : Bytes) : FileWrite where
  handed := payload.take MAX_BUF_SIZE
  rest := payload.drop MAX_BUF_SIZE
  ordered h := by
    rcases List.take_eq_nil_iff.mp h with hmax | hnil
    · cases hmax
    · rw [hnil, List.drop_nil]

def FileWrite.left (f : FileWrite) : Bytes := f.handed ++ f.rest

/-- The thread has written `n` bytes. -/
def FileWrite.wrote (f : FileWrite) (n : Nat) : FileWrite :=
  if h : n < f.handed.length then
    { f with
      handed := f.handed.drop n
      ordered := fun hnil => by
        have hlen := List.drop_eq_nil_iff.mp hnil
        omega }
  else .start f.rest

theorem FileWrite.left_start (payload : Bytes) : (FileWrite.start payload).left = payload :=
  List.take_append_drop _ _

theorem FileWrite.left_wrote (f : FileWrite) {n : Nat} (hn : n ≤ f.handed.length) :
    (f.wrote n).left = f.left.drop n := by
  unfold FileWrite.wrote
  split
  · exact (List.drop_append_of_le_length hn).symm
  · obtain rfl : n = f.handed.length := by omega
    rw [FileWrite.left_start]
    exact List.drop_left.symm

theorem FileWrite.left_eq_nil {f : FileWrite} : f.left = [] ↔ f.handed = [] := by
  constructor
  · exact fun h => (List.append_eq_nil_iff.mp h).1
  · exact fun h => List.append_eq_nil_iff.mpr ⟨h, f.ordered h⟩

/-- The stdin of the process takes `n` bytes of the write. -/
def World.accept (w : World) (f : FileWrite) (n : Nat) : Option World :=
  if 0 < n ∧ n ≤ f.handed.length ∧ w.stdin.room n ∧ w.stdin.closed = false then
    some
      { w with
        stdin := { w.stdin with buf := w.stdin.buf ++ f.handed.take n }
        received := update w.received .stdin (w.received .stdin ++ f.handed.take n) }
  else none

/-- What a write to stdin changes. -/
theorem World.accept_cases {w w' : World} {f : FileWrite} {n : Nat} (h : w.accept f n = some w') :
    (0 < n ∧ n ≤ f.handed.length ∧ w.stdin.room n ∧ w.stdin.closed = false) ∧
      w' = { w with
        stdin := { w.stdin with buf := w.stdin.buf ++ f.handed.take n }
        received := update w.received .stdin (w.received .stdin ++ f.handed.take n) } := by
  unfold World.accept at h
  split at h
  · rename_i hcond
    exact ⟨hcond, (Option.some.inj h).symm⟩
  · cases h

/-- Nothing is written to the terminal. -/
theorem World.accept_ptyMaster {w w' : World} {f : FileWrite} {n : Nat} (h : w.accept f n = some w') :
    w'.received .ptyMaster = w.received .ptyMaster := by
  obtain ⟨-, rfl⟩ := World.accept_cases h
  have hne : Input.ptyMaster ≠ .stdin := nofun
  exact update_of_ne hne (w.received .stdin ++ f.handed.take n) w.received

/-- What a read of `n` bytes takes from an output. -/
def World.taken (w : World) (o : Output) (n : Nat) : Bytes := (w.out o).buf.take n

/-- The output after a read of `n` bytes. -/
def World.drain (w : World) (o : Output) (n : Nat) : World :=
  w.setOut o fun p => { p with buf := p.buf.drop n }

theorem World.drain_closed (w : World) (o : Output) (n : Nat) (o' : Output) :
    ((w.drain o n).out o').closed = (w.out o').closed := by
  show (update w.out o _ o').closed = _
  rw [update_apply]
  split
  · rename_i heq
    rw [heq]
  · rfl

/-! ## What a step of the process does -/

/-- The steps of the process. -/
inductive ProcessStep (w : World) : ProcessAction → World → Prop
  | write {o : Output} {bytes : Bytes} (hproc : w.proc = .running)
    (hopen : (w.out o).closed = false) (hbytes : bytes ≠ []) :
    ProcessStep w (.write o bytes) { w with proc := .writing o bytes }
  | put {o : Output} {rest : Bytes} {n : Nat} (hproc : w.proc = .writing o rest) (hn : 0 < n)
    (hrest : n ≤ rest.length) (hroom : (w.out o).room n) :
    ProcessStep w (.put n)
      { w.setOut o fun p => { p with buf := p.buf ++ rest.take n } with
        proc := if n = rest.length then .running else .writing o (rest.drop n)
        produced := update w.produced o (w.produced o ++ rest.take n) }
  | read {n : Nat} (hproc : w.proc = .running) (hn : 0 < n) (hbuf : n ≤ w.stdin.buf.length)
    (hopen : w.stdin.closed = false) :
    ProcessStep w (.read n) { w with stdin := { w.stdin with buf := w.stdin.buf.drop n } }
  | closeStdin (hproc : w.proc = .running) :
    ProcessStep w .closeStdin { w with stdin := { w.stdin with closed := true } }
  | close {o : Output} (hproc : w.proc = .running) :
    ProcessStep w (.close o) (w.setOut o fun p => { p with closed := true })
  | exit {code : Int32} (hproc : w.proc = .running) :
    ProcessStep w (.exit code)
      { w with
        proc := .exited code
        stdin := { w.stdin with closed := true }
        out := fun o => { w.out o with closed := true } }

section

variable {w w' : World} {a : ProcessAction}

/-- **Every step of the process is one of these.** -/
theorem World.step_cases (h : w.step a = some w') : ProcessStep w a w' := by
  cases a with
  | write o bytes =>
    unfold World.step at h
    dsimp only at h
    split at h
    · rename_i hcond
      obtain rfl := Option.some.inj h
      exact .write hcond.1 hcond.2.1 hcond.2.2
    · cases h
  | put n =>
    unfold World.step at h
    dsimp only at h
    split at h
    · rename_i o rest hproc
      split at h
      · rename_i hcond
        obtain rfl := Option.some.inj h
        exact .put hproc hcond.1 hcond.2.1 hcond.2.2
      · cases h
    · cases h
  | read n =>
    unfold World.step at h
    dsimp only at h
    split at h
    · rename_i hcond
      obtain rfl := Option.some.inj h
      exact .read hcond.1 hcond.2.1 hcond.2.2.1 hcond.2.2.2
    · cases h
  | closeStdin =>
    unfold World.step at h
    dsimp only at h
    split at h
    · rename_i hproc
      obtain rfl := Option.some.inj h
      exact .closeStdin hproc
    · cases h
  | close o =>
    unfold World.step at h
    dsimp only at h
    split at h
    · rename_i hproc
      obtain rfl := Option.some.inj h
      exact .close hproc
    · cases h
  | exit code =>
    unfold World.step at h
    dsimp only at h
    split at h
    · rename_i hproc
      obtain rfl := Option.some.inj h
      exact .exit hproc
    · cases h

/-- The process reads its stdin or closes it, and does nothing else to it. -/
theorem World.step_stdin (h : w.step a = some w') :
    w'.stdin.capacity = w.stdin.capacity ∧ w'.stdin.buf.length ≤ w.stdin.buf.length ∧
      (w.stdin.closed = true → w'.stdin.closed = true) ∧ w'.received = w.received := by
  cases World.step_cases h with
  | write => exact ⟨rfl, le_rfl, id, rfl⟩
  | put => exact ⟨rfl, le_rfl, id, rfl⟩
  | @read n =>
    refine ⟨rfl, ?_, id, rfl⟩
    dsimp only
    rw [List.length_drop]
    omega
  | closeStdin => exact ⟨rfl, le_rfl, fun _ => rfl, rfl⟩
  | close => exact ⟨rfl, le_rfl, id, rfl⟩
  | exit => exact ⟨rfl, le_rfl, fun _ => rfl, rfl⟩

/-- A pipe keeps its size. -/
theorem World.step_capacity (h : w.step a = some w') (o : Output) :
    (w'.out o).capacity = (w.out o).capacity := by
  cases World.step_cases h with
  | @put o' =>
    show (update w.out o' _ o).capacity = _
    rw [update_apply]
    split
    · rename_i heq
      rw [heq]
    · rfl
  | @close o' =>
    show (update w.out o' _ o).capacity = _
    rw [update_apply]
    split
    · rename_i heq
      rw [heq]
    · rfl
  | _ => rfl

/-- An output that the process has closed stays closed. -/
theorem World.closed_step {o : Output} (h : (w.out o).closed = true) (hstep : w.step a = some w') :
    (w'.out o).closed = true := by
  cases World.step_cases hstep with
  | @put o' =>
    show (update w.out o' _ o).closed = true
    rw [update_apply]
    split
    · rename_i heq
      rw [← heq]
      exact h
    · exact h
  | @close o' =>
    show (update w.out o' _ o).closed = true
    rw [update_apply]
    split
    · rfl
    · exact h
  | exit => rfl
  | _ => exact h

/-! ## What the outputs hold -/

/-- What a pipe holds and what was taken from it is what the process has written; an output that is
closed gets no more. -/
structure World.Sound (w : World) (taken : Output → Bytes) : Prop where
  produced : ∀ o, w.produced o = taken o ++ (w.out o).buf
  writing : ∀ o rest, w.proc = .writing o rest → rest ≠ [] ∧ (w.out o).closed = false
  exited : ∀ code, w.proc = .exited code → w.stdin.closed = true ∧ ∀ o, (w.out o).closed = true

theorem World.Sound.init (stdin stdout stderr : Nat) :
    (World.init stdin stdout stderr).Sound fun _ => [] where
  produced o := by cases o <;> rfl
  writing _ _ h := by cases h
  exited _ h := by cases h

theorem World.Sound.step {taken : Output → Bytes} (h : w.Sound taken) (hstep : w.step a = some w') :
    w'.Sound taken := by
  cases World.step_cases hstep with
  | write hproc hopen hbytes =>
    refine ⟨h.produced, fun o' rest' hw => ?_, fun _ he => by cases he⟩
    obtain ⟨rfl, rfl⟩ := Process.writing.inj hw
    exact ⟨hbytes, hopen⟩
  | @put o rest n hproc hn hrest hroom =>
    have hopen := (h.writing o rest hproc).2
    refine ⟨fun o' => ?_, fun o' rest' hw => ?_, fun _ he => ?_⟩
    · show update w.produced o _ o' = taken o' ++ (update w.out o _ o').buf
      rw [update_apply, update_apply]
      split
      · rename_i ho
        rw [ho, h.produced, List.append_assoc]
      · exact h.produced o'
    · dsimp only at hw
      split at hw
      · cases hw
      · obtain ⟨rfl, rfl⟩ := Process.writing.inj hw
        refine ⟨fun hnil => ?_, ?_⟩
        · have hlen := congrArg List.length hnil
          rw [List.length_drop, List.length_nil] at hlen
          omega
        · show (update w.out o _ o).closed = false
          rw [update_self]
          exact hopen
    · dsimp only at he
      split at he <;> cases he
  | read hproc =>
    refine ⟨h.produced, h.writing, fun c he => ?_⟩
    have hp : w.proc = .exited c := he
    rw [hproc] at hp
    cases hp
  | closeStdin hproc => exact ⟨h.produced, h.writing, fun c he => ⟨rfl, (h.exited c he).2⟩⟩
  | @close o hproc =>
    refine ⟨fun o' => ?_, fun o' rest hw => ?_, fun c he => ?_⟩
    · show w.produced o' = taken o' ++ (update w.out o _ o').buf
      rw [h.produced, update_apply]
      split
      · rename_i ho
        rw [ho]
      · rfl
    · have hw : w.proc = .writing o' rest := hw
      rw [hproc] at hw
      cases hw
    · have he : w.proc = .exited c := he
      rw [hproc] at he
      cases he
  | exit => exact ⟨h.produced, fun _ _ hw => (by cases hw), fun _ _ => ⟨rfl, fun _ => rfl⟩⟩

/-- A read of an output. -/
theorem World.Sound.drain {taken : Output → Bytes} (h : w.Sound taken) (o : Output) (n : Nat) :
    (w.drain o n).Sound (update taken o (taken o ++ w.taken o n)) where
  produced o' := by
    show w.produced o' = update taken o _ o' ++ (update w.out o _ o').buf
    rw [h.produced, update_apply, update_apply]
    split
    · rename_i ho
      rw [ho, List.append_assoc]
      exact congrArg _ (List.take_append_drop n _).symm
    · rfl
  writing o' rest hw := by
    refine ⟨(h.writing o' rest hw).1, ?_⟩
    show (update w.out o _ o').closed = false
    rw [update_apply]
    split
    · rename_i ho
      rw [← ho]
      exact (h.writing o' rest hw).2
    · exact (h.writing o' rest hw).2
  exited c he := by
    refine ⟨(h.exited c he).1, fun o' => ?_⟩
    show (update w.out o _ o').closed = true
    rw [update_apply]
    split
    · exact (h.exited c he).2 o
    · exact (h.exited c he).2 o'

/-- A write to stdin. -/
theorem World.Sound.accept {taken : Output → Bytes} (h : w.Sound taken) {f : FileWrite} {n : Nat}
    (haccept : w.accept f n = some w') : w'.Sound taken := by
  obtain ⟨-, rfl⟩ := World.accept_cases haccept
  exact ⟨h.produced, h.writing, h.exited⟩

/-- An output that is at its end stays as it is. -/
theorem World.atEnd_step {taken : Output → Bytes} (h : w.Sound taken) {o : Output}
    (hend : (w.out o).atEnd) (hstep : w.step a = some w') : (w'.out o).atEnd := by
  cases World.step_cases hstep with
  | write => exact hend
  | @put o' rest n hproc =>
    have hne : o ≠ o' := by
      rintro rfl
      have hopen := (h.writing o rest hproc).2
      rw [hend.2] at hopen
      cases hopen
    show (update w.out o' _ o).atEnd
    rw [update_of_ne hne]
    exact hend
  | read => exact hend
  | closeStdin => exact hend
  | @close o' hproc =>
    show (update w.out o' _ o).atEnd
    rw [update_apply]
    split
    · rename_i ho
      exact ⟨ho ▸ hend.1, rfl⟩
    · exact hend
  | exit => exact ⟨hend.1, rfl⟩

end

end LightrCri.Stream

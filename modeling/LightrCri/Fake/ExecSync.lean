import LightrCri.Fake.Machine
import LightrCri.Foundations.Runs
import LightrCri.Stream.Process

/-!
# The output of `exec_sync`

With a timeout, `exec_sync` polls for the exit of the child and reads its outputs after that;
without one, `wait_with_output` drains both while the child runs (`Call.next`). Here the child has
no descendants: it writes and closes its outputs in the order of its operations, and a write to a
full pipe blocks. No byte is lost on the way, and the answer is that of the child unless the call
kills it (`Sound.step`).
-/

namespace LightrCri.Fake.ExecSync

open Backend Foundations LightrCri.Stream LightrCri.Spdy Function

/-! ## The call -/

structure ExecResult where
  exitCode : Int
  stdout : Bytes
  stderr : Bytes
  deriving DecidableEq, Repr

def exitCodeFromStatus : WaitStatus → Int
  | .signaled sig => 128 + sig
  | .exited code => code

/-- The call, once it has spawned its child. -/
inductive Call
  /-- In the loop, before `try_wait`. -/
  | poll
  /-- About to look at the clock. -/
  | check
  | sleep
  | kill
  | wait
  /-- In `read_child_output`. -/
  | readOut (st : WaitStatus) (got : Bytes)
  | readErr (st : WaitStatus) (stdout got : Bytes)
  /-- In `wait_with_output`, before the ends of both outputs. -/
  | collect (stdout stderr : Bytes)
  | await (stdout stderr : Bytes)
  | returned (r : Except BackendError ExecResult)

/-- What the call finds. -/
structure View where
  /-- How the child has ended. -/
  status : Option WaitStatus
  /-- The deadline has passed. -/
  past : Bool
  pipe : Output → Bytes
  /-- A process holds the write end of the pipe. -/
  held : Output → Bool

/-- What the call does to what it finds. -/
inductive Effect
  | nothing
  | drain (o : Output) (n : Nat)
  /-- SIGKILL to the child and to its process group. -/
  | kill

/-- `n` bytes can be read. -/
def View.has (v : View) (o : Output) (n : Nat) : Prop := 0 < n ∧ n ≤ (v.pipe o).length

instance (v : View) (o : Output) (n : Nat) : Decidable (v.has o n) := instDecidableAnd

def View.atEnd (v : View) (o : Output) : Prop := v.pipe o = [] ∧ v.held o = false

instance (v : View) (o : Output) : Decidable (v.atEnd o) := instDecidableAnd

/-- The next step of the call; `n` bytes are read if there are as many, of the output `o` where it
reads both. -/
def Call.next (v : View) (o : Output) (n : Nat) : Call → Option (Call × Effect)
  | .poll => some ((match v.status with | some st => .readOut st [] | none => .check), .nothing)
  | .check => some (if v.past then .kill else .sleep, .nothing)
  | .sleep => some (.poll, .nothing)
  | .kill => some (.wait, .kill)
  | .wait => v.status.map fun _ => (.returned (.error (.internal "exec timeout")), .nothing)
  | .readOut st got =>
    if v.has .stdout n then some (.readOut st (got ++ (v.pipe .stdout).take n), .drain .stdout n)
    else if v.atEnd .stdout then some (.readErr st got [], .nothing)
    else none
  | .readErr st stdout got =>
    if v.has .stderr n then some (.readErr st stdout (got ++ (v.pipe .stderr).take n), .drain .stderr n)
    else if v.atEnd .stderr then some (.returned (.ok ⟨exitCodeFromStatus st, stdout, got⟩), .nothing)
    else none
  | .collect stdout stderr =>
    if v.has o n then
      some ((match o with
        | .stdout => .collect (stdout ++ (v.pipe .stdout).take n) stderr
        | .stderr => .collect stdout (stderr ++ (v.pipe .stderr).take n)), .drain o n)
    else if v.atEnd .stdout ∧ v.atEnd .stderr then some (.await stdout stderr, .nothing)
    else none
  | .await stdout stderr =>
    v.status.map fun st => (.returned (.ok ⟨exitCodeFromStatus st, stdout, stderr⟩), .nothing)
  | .returned _ => none

def Call.Returned (c : Call) : Prop := ∃ r, c = .returned r

/-- How far the call is from its return. -/
def Call.rank : Call → Nat
  | .sleep => 9
  | .poll => 8
  | .check => 7
  | .kill => 6
  | .wait => 5
  | .collect _ _ => 4
  | .readOut _ _ => 4
  | .readErr _ _ _ => 3
  | .await _ _ => 3
  | .returned _ => 0

/-! ## The child -/

inductive Op
  | write (o : Output) (bytes : Bytes)
  | close (o : Output)
  deriving DecidableEq, Repr

/-- A child without descendants, and the call. -/
structure State where
  /-- What the child has yet to do before it exits. -/
  ops : List Op
  status : Option WaitStatus
  past : Bool
  pipe : Output → Bytes
  closed : Output → Bool
  call : Call

def init (ops : List Op) (call : Call) : State :=
  ⟨ops, none, false, fun _ => [], fun _ => false, call⟩

def State.view (s : State) : View := ⟨s.status, s.past, s.pipe, fun o => !s.closed o⟩

/-- The child has ended, and its outputs with it. -/
def State.ended (s : State) (st : WaitStatus) : State :=
  { s with status := some st, closed := fun _ => true }

def State.apply (s : State) : Effect → State
  | .nothing => s
  | .drain o n => { s with pipe := update s.pipe o ((s.pipe o).drop n) }
  | .kill => if s.status = none then s.ended (.signaled SIGKILL) else s

/-- The child waits for room in a pipe. -/
def State.blocked (capacity : Output → Nat) (s : State) : Bool :=
  match s.ops with
  | .write o bytes :: _ => bytes ≠ [] ∧ s.closed o = false ∧ capacity o ≤ (s.pipe o).length
  | _ => false

/-- The next step of the child, which ends with `final`: of a write the pipe takes `n` bytes. -/
def State.child (capacity : Output → Nat) (final : WaitStatus) (s : State) (n : Nat) : Option State :=
  match s.status, s.ops with
  | some _, _ => none
  | none, [] => some (s.ended final)
  | none, .close o :: ops => some { s with ops := ops, closed := update s.closed o true }
  | none, .write o bytes :: ops =>
    if bytes = [] ∨ s.closed o = true then some { s with ops := ops }
    else if 0 < n ∧ n ≤ bytes.length ∧ (s.pipe o).length + n ≤ capacity o then
      some { s with
        ops := if n = bytes.length then ops else .write o (bytes.drop n) :: ops
        pipe := update s.pipe o (s.pipe o ++ bytes.take n) }
    else none

inductive Label
  | call (o : Output) (n : Nat)
  | child (n : Nat)
  | deadline
  deriving DecidableEq, Repr

/-- The deadline does not pass while the child can go on: it would have exited before it. -/
def step (capacity : Output → Nat) (final : WaitStatus) (s : State) : Label → Option State
  | .call o n => (s.call.next s.view o n).map fun x => { s.apply x.2 with call := x.1 }
  | .child n => s.child capacity final n
  | .deadline =>
    if s.past = false ∧ (s.status.isSome ∨ s.blocked capacity = true) then some { s with past := true }
    else none

/-! ## The answer -/

/-- What the operations write to an output. -/
def outputOf (o : Output) : List Op → Bytes
  | [] => []
  | .write o' bytes :: ops => if o' = o then bytes ++ outputOf o ops else outputOf o ops
  | .close o' :: ops => if o' = o then [] else outputOf o ops

/-- The whole output, and how the child ends. -/
def answer (ops : List Op) (final : WaitStatus) : Except BackendError ExecResult :=
  .ok ⟨exitCodeFromStatus final, outputOf .stdout ops, outputOf .stderr ops⟩

/-- Each output fits into its pipe. -/
def Fits (capacity : Output → Nat) (ops : List Op) : Prop :=
  ∀ o, (outputOf o ops).length ≤ capacity o

/-- The look at the clock does not come after the deadline when the child has exited since
`try_wait`. -/
def InTime (s : State) : Label → Prop
  | .call _ _ => match s.call with
    | .check => s.past = true → s.status = none
    | _ => True
  | _ => True

/-- What the call has read of an output. -/
def Call.got (o : Output) : Call → Bytes
  | .readOut _ got => match o with
    | .stdout => got
    | .stderr => []
  | .readErr _ stdout got => match o with
    | .stdout => stdout
    | .stderr => got
  | .collect stdout stderr => match o with
    | .stdout => stdout
    | .stderr => stderr
  | .await stdout stderr => match o with
    | .stdout => stdout
    | .stderr => stderr
  | _ => []

/-- What the child has yet to write. -/
def State.left (s : State) (o : Output) : Bytes := if s.closed o then [] else outputOf o s.ops

/-! ## What a step does -/

section

variable {capacity : Output → Nat} {final : WaitStatus} {s s' : State} {n : Nat}

/-- The steps of the child. -/
inductive ChildStep (capacity : Output → Nat) (final : WaitStatus) (s : State) : State → Prop
  | exit (hops : s.ops = []) : ChildStep capacity final s (s.ended final)
  | close {o : Output} {ops : List Op} (hops : s.ops = .close o :: ops) :
    ChildStep capacity final s { s with ops := ops, closed := update s.closed o true }
  | skip {o : Output} {bytes : Bytes} {ops : List Op} (hops : s.ops = .write o bytes :: ops)
    (h : bytes = [] ∨ s.closed o = true) : ChildStep capacity final s { s with ops := ops }
  | put {o : Output} {bytes : Bytes} {ops : List Op} {n : Nat} (hops : s.ops = .write o bytes :: ops)
    (hopen : s.closed o = false) (hn : 0 < n ∧ n ≤ bytes.length)
    (hroom : (s.pipe o).length + n ≤ capacity o) :
    ChildStep capacity final s
      { s with
        ops := if n = bytes.length then ops else .write o (bytes.drop n) :: ops
        pipe := update s.pipe o (s.pipe o ++ bytes.take n) }

theorem child_cases (h : s.child capacity final n = some s') :
    s.status = none ∧ ChildStep capacity final s s' := by
  unfold State.child at h
  split at h
  · cases h
  · rename_i hstatus hops
    obtain rfl := Option.some.inj h
    exact ⟨hstatus, .exit hops⟩
  · rename_i o ops hstatus hops
    obtain rfl := Option.some.inj h
    exact ⟨hstatus, .close hops⟩
  · rename_i o bytes ops hstatus hops
    split at h
    · rename_i hskip
      obtain rfl := Option.some.inj h
      exact ⟨hstatus, .skip hops hskip⟩
    · rename_i hskip
      rw [not_or] at hskip
      split at h
      · rename_i hput
        obtain rfl := Option.some.inj h
        exact ⟨hstatus, .put hops (Bool.eq_false_iff.mpr hskip.2) ⟨hput.1, hput.2.1⟩ hput.2.2⟩
      · cases h

/-- The child is either blocked, or can go on. -/
theorem exists_child (hstatus : s.status = none) (hblocked : s.blocked capacity = false) :
    ∃ n s', s.child capacity final n = some s' := by
  unfold State.child
  rw [hstatus]
  cases hops : s.ops with
  | nil => exact ⟨0, _, rfl⟩
  | cons op ops =>
    cases op with
    | close o => exact ⟨0, _, rfl⟩
    | write o bytes =>
      refine ⟨1, ?_⟩
      dsimp only
      by_cases hskip : bytes = [] ∨ s.closed o = true
      · rw [if_pos hskip]
        exact ⟨_, rfl⟩
      · rw [if_neg hskip]
        rw [not_or] at hskip
        have hroom : (s.pipe o).length + 1 ≤ capacity o := by
          by_contra hfull
          unfold State.blocked at hblocked
          rw [hops] at hblocked
          exact of_decide_eq_false hblocked ⟨hskip.1, Bool.eq_false_iff.mpr hskip.2, by omega⟩
        have hpos := List.length_pos_of_ne_nil hskip.1
        rw [if_pos ⟨Nat.one_pos, hpos, hroom⟩]
        exact ⟨_, rfl⟩

/-- The steps of the call. -/
inductive CallStep (v : View) : Call → Call → Effect → Prop
  | found {st : WaitStatus} (h : v.status = some st) : CallStep v .poll (.readOut st []) .nothing
  | running (h : v.status = none) : CallStep v .poll .check .nothing
  | late (h : v.past = true) : CallStep v .check .kill .nothing
  | early (h : v.past = false) : CallStep v .check .sleep .nothing
  | awake : CallStep v .sleep .poll .nothing
  | kill : CallStep v .kill .wait .kill
  | reaped {st : WaitStatus} (h : v.status = some st) :
    CallStep v .wait (.returned (.error (.internal "exec timeout"))) .nothing
  | readOut {st : WaitStatus} {got : Bytes} {n : Nat} (h : v.has .stdout n) :
    CallStep v (.readOut st got) (.readOut st (got ++ (v.pipe .stdout).take n)) (.drain .stdout n)
  | endOut {st : WaitStatus} {got : Bytes} (h : v.atEnd .stdout) :
    CallStep v (.readOut st got) (.readErr st got []) .nothing
  | readErr {st : WaitStatus} {stdout got : Bytes} {n : Nat} (h : v.has .stderr n) :
    CallStep v (.readErr st stdout got) (.readErr st stdout (got ++ (v.pipe .stderr).take n))
      (.drain .stderr n)
  | endErr {st : WaitStatus} {stdout got : Bytes} (h : v.atEnd .stderr) :
    CallStep v (.readErr st stdout got) (.returned (.ok ⟨exitCodeFromStatus st, stdout, got⟩)) .nothing
  | collectOut {stdout stderr : Bytes} {n : Nat} (h : v.has .stdout n) :
    CallStep v (.collect stdout stderr) (.collect (stdout ++ (v.pipe .stdout).take n) stderr)
      (.drain .stdout n)
  | collectErr {stdout stderr : Bytes} {n : Nat} (h : v.has .stderr n) :
    CallStep v (.collect stdout stderr) (.collect stdout (stderr ++ (v.pipe .stderr).take n))
      (.drain .stderr n)
  | collected {stdout stderr : Bytes} (hout : v.atEnd .stdout) (herr : v.atEnd .stderr) :
    CallStep v (.collect stdout stderr) (.await stdout stderr) .nothing
  | awaited {stdout stderr : Bytes} {st : WaitStatus} (h : v.status = some st) :
    CallStep v (.await stdout stderr) (.returned (.ok ⟨exitCodeFromStatus st, stdout, stderr⟩)) .nothing

theorem next_cases {v : View} {o : Output} {c c' : Call} {e : Effect}
    (h : c.next v o n = some (c', e)) : CallStep v c c' e := by
  cases c with
  | poll =>
    obtain ⟨rfl, rfl⟩ := Prod.mk.inj (Option.some.inj h)
    cases hstatus : v.status with
    | none => exact .running hstatus
    | some st => exact .found hstatus
  | check =>
    obtain ⟨rfl, rfl⟩ := Prod.mk.inj (Option.some.inj h)
    cases hpast : v.past with
    | false => exact .early hpast
    | true => exact .late hpast
  | sleep =>
    obtain ⟨rfl, rfl⟩ := Prod.mk.inj (Option.some.inj h)
    exact .awake
  | kill =>
    obtain ⟨rfl, rfl⟩ := Prod.mk.inj (Option.some.inj h)
    exact .kill
  | wait =>
    obtain ⟨st, hst, heq⟩ := Option.map_eq_some_iff.mp h
    obtain ⟨rfl, rfl⟩ := Prod.mk.inj heq
    exact .reaped hst
  | readOut st got =>
    unfold Call.next at h
    dsimp only at h
    split at h
    · rename_i hn
      obtain ⟨rfl, rfl⟩ := Prod.mk.inj (Option.some.inj h)
      exact .readOut hn
    · split at h
      · rename_i hend
        obtain ⟨rfl, rfl⟩ := Prod.mk.inj (Option.some.inj h)
        exact .endOut hend
      · cases h
  | readErr st stdout got =>
    unfold Call.next at h
    dsimp only at h
    split at h
    · rename_i hn
      obtain ⟨rfl, rfl⟩ := Prod.mk.inj (Option.some.inj h)
      exact .readErr hn
    · split at h
      · rename_i hend
        obtain ⟨rfl, rfl⟩ := Prod.mk.inj (Option.some.inj h)
        exact .endErr hend
      · cases h
  | collect stdout stderr =>
    unfold Call.next at h
    dsimp only at h
    split at h
    · rename_i hn
      obtain ⟨rfl, rfl⟩ := Prod.mk.inj (Option.some.inj h)
      cases o with
      | stdout => exact .collectOut hn
      | stderr => exact .collectErr hn
    · split at h
      · rename_i hend
        obtain ⟨rfl, rfl⟩ := Prod.mk.inj (Option.some.inj h)
        exact .collected hend.1 hend.2
      · cases h
  | await stdout stderr =>
    obtain ⟨st, hst, heq⟩ := Option.map_eq_some_iff.mp h
    obtain ⟨rfl, rfl⟩ := Prod.mk.inj heq
    exact .awaited hst
  | returned r => cases h

/-- **Every step is one of these.** -/
theorem step_cases {l : Label} (h : step capacity final s l = some s') :
    (∃ o n c e, l = .call o n ∧ CallStep s.view s.call c e ∧ s' = { s.apply e with call := c }) ∨
      (s.status = none ∧ ChildStep capacity final s s') ∨
        (l = .deadline ∧ (s.status.isSome ∨ s.blocked capacity = true) ∧ s' = { s with past := true }) := by
  cases l with
  | call o n =>
    obtain ⟨⟨c, e⟩, hnext, rfl⟩ := Option.map_eq_some_iff.mp h
    exact .inl ⟨o, n, c, e, rfl, next_cases hnext, rfl⟩
  | child n => exact .inr (.inl (child_cases h))
  | deadline =>
    rw [step] at h
    split at h
    · rename_i hpast
      obtain rfl := Option.some.inj h
      exact .inr (.inr ⟨rfl, hpast.2, rfl⟩)
    · cases h

/-! ## The bytes -/

/-- What the child was to write was read, is in the pipe or is still to be written, and the child
has ended in its own way, if it has. -/
structure Conserved (ops : List Op) (final : WaitStatus) (s : State) : Prop where
  bytes : ∀ o, outputOf o ops = s.call.got o ++ s.pipe o ++ s.left o
  status : ∀ st, s.status = some st → st = final ∧ ∀ o, s.closed o = true

variable {ops : List Op}

theorem Conserved.init (c : Call) (hc : ∀ o, c.got o = []) :
    Conserved ops final (init ops c) where
  bytes o := by
    show outputOf o ops = c.got o ++ [] ++ outputOf o ops
    rw [hc]
    rfl
  status st h := by cases h

theorem Conserved.child (h : Conserved ops final s) (hstep : ChildStep capacity final s s')
    (hstatus : s.status = none) : Conserved ops final s' := by
  have hnone : ∀ st, s.status = some st → st = final ∧ ∀ o, s'.closed o = true := fun st hst => by
    rw [hstatus] at hst
    cases hst
  cases hstep with
  | exit hops =>
    refine ⟨fun o => ?_, fun st hst => ⟨(Option.some.inj hst).symm, fun _ => rfl⟩⟩
    have hleft : s.left o = [] := by
      unfold State.left
      rw [hops]
      split <;> rfl
    rw [h.bytes o, hleft]
    rfl
  | @close o ops' hops =>
    refine ⟨fun o' => ?_, hnone⟩
    rw [h.bytes o']
    refine congrArg (fun rest => s.call.got o' ++ s.pipe o' ++ rest) ?_
    show (if s.closed o' = true then [] else outputOf o' s.ops) =
      if update s.closed o true o' = true then [] else outputOf o' ops'
    rw [hops]
    by_cases heq : o' = o
    · subst heq
      rw [update_self, if_pos rfl, outputOf, if_pos rfl, ite_self]
    · rw [update_of_ne heq, outputOf, if_neg (Ne.symm heq)]
  | @skip o bytes ops' hops hskip =>
    refine ⟨fun o' => ?_, hnone⟩
    rw [h.bytes o']
    refine congrArg (fun rest => s.call.got o' ++ s.pipe o' ++ rest) ?_
    unfold State.left
    rw [hops]
    dsimp only
    rw [outputOf]
    by_cases heq : o = o'
    · subst heq
      rcases hskip with rfl | hclosed
      · rw [if_pos rfl, List.nil_append]
      · rw [if_pos hclosed, if_pos hclosed]
    · rw [if_neg heq]
  | @put o bytes ops' n hops hopen hn hroom =>
    refine ⟨fun o' => ?_, hnone⟩
    rw [h.bytes o']
    unfold State.left
    rw [hops]
    dsimp only
    by_cases heq : o = o'
    · subst heq
      have hrest : bytes ++ outputOf o ops' =
          bytes.take n ++ outputOf o (if n = bytes.length then ops' else .write o (bytes.drop n) :: ops') := by
        split
        · rename_i hall
          rw [hall, List.take_length]
        · rw [outputOf, if_pos rfl, ← List.append_assoc, List.take_append_drop]
      rw [hopen, update_self, outputOf, if_pos rfl, hrest]
      simp only [Bool.false_eq_true, if_false, List.append_assoc]
    · have hrest : outputOf o' (.write o bytes :: ops') =
          outputOf o' (if n = bytes.length then ops' else .write o (bytes.drop n) :: ops') := by
        rw [outputOf, if_neg heq]
        split
        · rfl
        · rw [outputOf, if_neg heq]
      rw [update_of_ne (Ne.symm heq), hrest]

theorem closed_of_atEnd {o : Output} (h : s.view.atEnd o) : s.closed o = true := by
  have hheld : (!s.closed o) = false := h.2
  simpa using hheld

/-- At its end, an output was read as a whole. -/
theorem Conserved.got_eq (h : Conserved ops final s) {o : Output} (hend : s.view.atEnd o) :
    s.call.got o = outputOf o ops := by
  rw [h.bytes o, show s.pipe o = [] from hend.1, State.left, if_pos (closed_of_atEnd hend),
    List.append_nil, List.append_nil]

theorem Conserved.goto (h : Conserved ops final s) {c : Call} (hgot : ∀ o, c.got o = s.call.got o) :
    Conserved ops final { s with call := c } where
  bytes o := (h.bytes o).trans (congrArg (· ++ s.pipe o ++ s.left o) (hgot o).symm)
  status := h.status

/-- Bytes are read. -/
theorem Conserved.drain (h : Conserved ops final s) {o : Output} {c : Call}
    (hread : c.got o = s.call.got o ++ (s.pipe o).take n)
    (hother : ∀ o', o' ≠ o → c.got o' = s.call.got o') :
    Conserved ops final { s.apply (.drain o n) with call := c } where
  bytes o' := by
    show _ = c.got o' ++ update s.pipe o ((s.pipe o).drop n) o' ++ s.left o'
    by_cases heq : o' = o
    · subst heq
      rw [update_self, hread, List.append_assoc (s.call.got o'), List.take_append_drop]
      exact h.bytes o'
    · rw [update_of_ne heq, hother o' heq]
      exact h.bytes o'
  status := h.status

/-- The answer is that of the child, unless the call kills it. -/
def Sound (ops : List Op) (final : WaitStatus) (s : State) : Prop :=
  match s.call with
  | .wait => True
  | .returned (.error _) => True
  | .returned (.ok r) => .ok r = answer ops final
  | .readOut st _ => Conserved ops final s ∧ s.status = some st
  | .readErr st stdout _ =>
    Conserved ops final s ∧ s.status = some st ∧ stdout = outputOf .stdout ops
  | .await stdout stderr =>
    Conserved ops final s ∧ stdout = outputOf .stdout ops ∧ stderr = outputOf .stderr ops
  | _ => Conserved ops final s

theorem ChildStep.kept (h : ChildStep capacity final s s') : s'.call = s.call ∧ s'.past = s.past := by
  cases h <;> exact ⟨rfl, rfl⟩

/-- What the call itself does. -/
theorem Sound.call {c : Call} {e : Effect} (h : Sound ops final s) (hstep : CallStep s.view s.call c e) :
    Sound ops final { s.apply e with call := c } := by
  unfold Sound at h
  generalize hcall : s.call = c₀ at h hstep
  cases hstep with
  | found hst => exact ⟨h.goto fun o => by rw [hcall]; cases o <;> rfl, hst⟩
  | running => exact h.goto fun o => by rw [hcall]; rfl
  | late => exact h.goto fun o => by rw [hcall]; rfl
  | early => exact h.goto fun o => by rw [hcall]; rfl
  | awake => exact h.goto fun o => by rw [hcall]; rfl
  | kill => exact True.intro
  | reaped => exact True.intro
  | readOut =>
    refine ⟨h.1.drain (by rw [hcall]; rfl) fun o ho => ?_, h.2⟩
    rw [hcall]
    cases o with
    | stdout => exact absurd rfl ho
    | stderr => rfl
  | endOut hend =>
    have hgot := h.1.got_eq hend
    rw [hcall] at hgot
    exact ⟨h.1.goto fun o => by rw [hcall]; cases o <;> rfl, h.2, hgot⟩
  | readErr =>
    refine ⟨h.1.drain (by rw [hcall]; rfl) fun o ho => ?_, h.2⟩
    rw [hcall]
    cases o with
    | stdout => rfl
    | stderr => exact absurd rfl ho
  | endErr hend =>
    obtain ⟨hconserved, hstatus, rfl⟩ := h
    have hgot := hconserved.got_eq hend
    rw [hcall] at hgot
    obtain ⟨rfl, -⟩ := hconserved.status _ hstatus
    show Except.ok _ = Except.ok _
    rw [← hgot]
    rfl
  | collectOut =>
    refine h.drain (by rw [hcall]; rfl) fun o ho => ?_
    rw [hcall]
    cases o with
    | stdout => exact absurd rfl ho
    | stderr => rfl
  | collectErr =>
    refine h.drain (by rw [hcall]; rfl) fun o ho => ?_
    rw [hcall]
    cases o with
    | stdout => rfl
    | stderr => exact absurd rfl ho
  | collected hout herr =>
    have hgotOut := h.got_eq hout
    have hgotErr := h.got_eq herr
    rw [hcall] at hgotOut hgotErr
    exact ⟨h.goto fun o => by rw [hcall]; cases o <;> rfl, hgotOut, hgotErr⟩
  | awaited hst =>
    obtain ⟨hconserved, rfl, rfl⟩ := h
    obtain ⟨rfl, -⟩ := hconserved.status _ hst
    rfl

/-- What happens besides the call. -/
theorem Sound.other (h : Sound ops final s) (hcall : s'.call = s.call)
    (hconserved : Conserved ops final s → Conserved ops final s')
    (hstatus : ∀ st, s.status = some st → s'.status = some st) : Sound ops final s' := by
  unfold Sound at h ⊢
  rw [hcall]
  cases hc : s.call with
  | wait => exact True.intro
  | returned r =>
    rw [hc] at h
    cases r with
    | error e => exact True.intro
    | ok r => exact h
  | readOut st got =>
    rw [hc] at h
    exact ⟨hconserved h.1, hstatus st h.2⟩
  | readErr st stdout got =>
    rw [hc] at h
    exact ⟨hconserved h.1, hstatus st h.2.1, h.2.2⟩
  | await stdout stderr =>
    rw [hc] at h
    exact ⟨hconserved h.1, h.2⟩
  | _ =>
    rw [hc] at h
    exact hconserved h

theorem Sound.step {l : Label} (h : Sound ops final s) (hstep : ExecSync.step capacity final s l = some s') :
    Sound ops final s' := by
  rcases step_cases hstep with ⟨o, n, c, e, -, hcall, rfl⟩ | ⟨hstatus, hchild⟩ | ⟨-, -, rfl⟩
  · exact h.call hcall
  · refine h.other hchild.kept.1 (fun h => h.child hchild hstatus) fun st hst => ?_
    rw [hstatus] at hst
    cases hst
  · exact h.other rfl (fun h => ⟨h.bytes, h.status⟩) fun _ hst => hst

end

end LightrCri.Fake.ExecSync

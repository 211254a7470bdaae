import LightrCri.Backend.Vocabulary
import LightrCri.Stream.Channel

/-!
# Sessions

What the backend hands out when an exec or attach session is opened: which of its handles there are,
and what its waiter waits for. A session with a terminal has no separate stdin; its input is the
master of the terminal (`StreamSession.input`).
-/

namespace LightrCri.Stream

open Backend

/-- What the waiter of a session waits for. -/
inductive Waiter
  /-- The end of the process of an exec. -/
  | child
  /-- Nothing: the waiter of an attach to a terminal. -/
  | immediate
  /-- That the container leaves Running: the waiter of an attach to pipes. -/
  | leavesRunning
  deriving DecidableEq, Repr

/-- `StreamSession`: which handles there are. -/
structure StreamSession where
  stdin : Bool
  stdout : Bool
  stderr : Bool
  ptyMaster : Bool
  waiter : Waiter
  deriving DecidableEq, Repr

/-- Where what is written reaches the process. -/
inductive Input
  | stdin
  | ptyMaster
  deriving DecidableEq, Repr

/-- The input of the process: its stdin or else its terminal. -/
def StreamSession.input (session : StreamSession) : Option Input :=
  if session.stdin then some .stdin else if session.ptyMaster then some .ptyMaster else none

theorem StreamSession.cases_input {session : StreamSession} {inp : Input}
    (h : session.input = some inp) :
    (session.stdin = true ∧ inp = .stdin) ∨ (session.stdin = false ∧ inp = .ptyMaster) := by
  unfold StreamSession.input at h
  cases hstdin : session.stdin with
  | true =>
    rw [hstdin] at h
    exact .inl ⟨rfl, (Option.some.inj h).symm⟩
  | false =>
    rw [hstdin] at h
    cases hpty : session.ptyMaster with
    | true =>
      rw [hpty] at h
      exact .inr ⟨rfl, (Option.some.inj h).symm⟩
    | false =>
      rw [hpty] at h
      cases h

/-- The session of an exec with stdin and without a terminal. -/
def StreamSession.pipes : StreamSession := ⟨true, true, true, false, .child⟩

/-- `ContainerIo`: which handles of a running container are held. -/
structure ContainerIo where
  ptyMaster : Bool
  stdoutRd : Bool
  stderrRd : Bool
  stdinWr : Bool
  fanout : Bool
  deriving DecidableEq, Repr

/-- What the backend answers from: its records, its table of handles, and how spawning a process and
duplicating handles turn out. -/
structure SessionBackend where
  state : ContainerId → Option ContainerState
  io : ContainerId → Option ContainerIo
  spawn : List String → Except BackendError Unit
  dup : Except BackendError Unit

variable (b : SessionBackend)

def openExec (id : ContainerId) (cmd : List String) (tty stdin : Bool) :
    Except BackendError StreamSession :=
  match b.state id with
  | none => .error (.notFound ("container " ++ id.val))
  | some state =>
    if state ≠ .running then
      .error (.failedPrecondition ("container " ++ id.val ++ " is not Running (state=" ++
        state.debug ++ "); open_exec requires Running"))
    else if cmd = [] then .error (.invalidArgument "open_exec: empty command")
    else
      (b.spawn cmd).bind fun _ =>
        if tty then b.dup.map fun _ => ⟨false, true, false, true, .child⟩
        else .ok ⟨stdin, true, true, false, .child⟩

def openAttach (id : ContainerId) : Except BackendError StreamSession :=
  match b.state id with
  | none => .error (.notFound ("container " ++ id.val))
  | some state =>
    if state ≠ .running then
      .error (.failedPrecondition ("container " ++ id.val ++ " is not Running (state=" ++
        state.debug ++ "); open_attach requires Running"))
    else
      match b.io id with
      | none => .error (.internal "attach unavailable after restart")
      | some entry =>
        if entry.ptyMaster then b.dup.map fun _ => ⟨false, true, false, true, .immediate⟩
        else if entry.fanout then
          b.dup.map fun _ => ⟨entry.stdinWr, entry.stdoutRd, entry.stderrRd, false, .leavesRunning⟩
        else
          .error (.internal ("pipe-mode container has no output fan-out (started before fan-out " ++
            "support?)"))

variable {b} {verb : StreamVerb} {params : StreamParams} {s : StreamSession}

/-- The sessions of exec. -/
theorem openExec_ok {id : ContainerId} {cmd : List String} {tty stdin : Bool}
    (h : openExec b id cmd tty stdin = .ok s) :
    s = if tty then ⟨false, true, false, true, .child⟩ else ⟨stdin, true, true, false, .child⟩ := by
  unfold openExec at h
  split at h
  · cases h
  · split at h
    · cases h
    · split at h
      · cases h
      · rcases hspawn : b.spawn cmd with e | ⟨⟩
        · rw [hspawn] at h
          cases h
        · rw [hspawn] at h
          change (if tty then _ else _) = _ at h
          split at h
          · rename_i htty
            rw [if_pos htty]
            rcases hdup : b.dup with e | ⟨⟩
            · rw [hdup] at h
              cases h
            · rw [hdup] at h
              exact (Except.ok.inj h).symm
          · rename_i htty
            rw [if_neg htty]
            exact (Except.ok.inj h).symm

end LightrCri.Stream

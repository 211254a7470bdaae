import LightrCri.Spdy.StdinEof
import LightrCri.Stream.WebSocket

/-!
# Stdin reaches the process

What the client sends for stdin is to reach the input of the process, which is the terminal if the
session has no separate stdin (`StreamSession.input`). Both drivers write it to the stdin of the
session only, so it does as long as the session has one (`stdin_reaches_iff`).
-/

namespace LightrCri.Spdy.Exec

open Foundations LightrCri.Stream Function

/-- The stdin payloads of the frames, up to the half-close. -/
def asked (fs : List Received) : Bytes := (fs.foldl Stdin.received ⟨fun _ => none, true, []⟩).due

section

variable {cfg : Config} {s s' : State}

/-- Without a stdin nothing is due. -/
theorem due_of_not_held (fs : List Received) (roles : UInt32 → Option UInt8) (due : Bytes) :
    (fs.foldl Stdin.received ⟨roles, false, due⟩).due = due := by
  induction fs generalizing roles with
  | nil => rfl
  | cons f fs ih =>
    rw [List.foldl_cons]
    cases f with
    | frame f =>
      cases f with
      | synStream id hdr => exact ih _
      | data id flags data =>
        have hsame : Stdin.received ⟨roles, false, due⟩ (.frame (.data id flags data)) =
            ⟨roles, false, due⟩ := if_neg fun h => by cases h.2
        rw [hsame]
        exact ih roles
      | ping id => exact ih roles
    | rstStream | goAway | closed => exact ih roles

theorem received_ptyMaster {l : Label} (h : step cfg s l = some s') :
    s'.world.received .ptyMaster = s.world.received .ptyMaster := by
  cases step_cases h with
  | process ha hw => exact congrFun (World.step_stdin hw).2.2.2 _
  | accept hloop hw => exact World.accept_ptyMaster hw
  | client | halfClose | hangUp | opening | stdin | data | ping | quit | eof | reply | insert | tell
  | spawn | noSpawn | push | tellPump | leave | broken | flushed | pumpRead | pumpSend | pumpFail
  | pumpEof | reap | arm | take | finish | goto => rfl

theorem asked_reaches {session : StreamSession} {inp : Input} (hinput : session.input = some inp)
    (hcfg : cfg.session = some session) {stdin stdout stderr : Nat} {ls : List Label}
    {fs : List Received} (hrun : run (step cfg) (init cfg (.init stdin stdout stderr)) ls = some s)
    (hbroken : .broken ∉ ls) (hfs : ls.flatMap Label.sends = fs ++ s.inbox.filter Received.isFrame) :
    s.world.received inp ++ s.readLoop.left = asked fs ↔ session.stdin = true ∨ asked fs = [] := by
  obtain ⟨fs', h, hread⟩ := (@Tracks.init True cfg stdin stdout stderr).run (fun _ => hbroken) hrun
  obtain rfl : fs' = fs := by
    have hall : ls.flatMap Label.sends = fs' ++ s.inbox.filter Received.isFrame := hread
    exact List.append_cancel_right (hall.symm.trans hfs)
  have hwhole := h.whole (.inl True.intro)
  have hnew : Stdin.new cfg = ⟨fun _ => none, session.stdin, []⟩ := by
    rw [Stdin.new, hcfg, Option.any_some]
  rcases StreamSession.cases_input hinput with ⟨hstdin, rfl⟩ | ⟨hstdin, rfl⟩
  · rw [hwhole, hnew, hstdin]
    exact iff_of_true rfl (.inl rfl)
  · rw [hnew, hstdin, due_of_not_held] at hwhole
    have hnone : s.world.received .ptyMaster = [] :=
      invariant_run (I := fun s : State => s.world.received .ptyMaster = []) (P := fun _ _ => True)
        (fun _ _ _ h _ hstep => (received_ptyMaster hstep).trans h) rfl (.trivial _ _) hrun
    rw [hnone, (List.append_eq_nil_iff.mp hwhole).2, hstdin, or_iff_right Bool.false_ne_true]
    exact eq_comm

end

end LightrCri.Spdy.Exec

namespace LightrCri.Stream.WebSocket

open Foundations Spdy Function

/-- What is left of the write to stdin. -/
def State.left (s : State) : Bytes :=
  match s.pc with
  | .writing f => f.left
  | _ => []

def Label.sends : Label → List Message
  | .client m => [m]
  | _ => []

/-- The stdin payloads of the messages. -/
def payloads (base64 : Bool) (ms : List Message) : Bytes :=
  (ms.filterMap (Message.stdin base64)).flatten

/-- What is written of them. -/
def due (session : StreamSession) (base64 : Bool) (ms : List Message) : Bytes :=
  if session.stdin then payloads base64 ms else []

section

variable {session : StreamSession} {base64 : Bool} {s s' : State} {l : Label}

theorem due_append (ms ms' : List Message) :
    due session base64 (ms ++ ms') = due session base64 ms ++ due session base64 ms' := by
  unfold due payloads
  split
  · rw [List.filterMap_append, List.flatten_append]
  · rfl

theorem left_next (s : State) : s.next.left = [] := by
  unfold State.next State.left
  dsimp only
  split
  · rename_i f hpc
    split at hpc <;> cases hpc
  · rfl

/-- The driver has taken the messages, and writes what they bring to stdin alone. -/
structure Took (session : StreamSession) (base64 : Bool) (s : State) (l : Label) (s' : State)
    (ms : List Message) : Prop where
  inbox : s.inbox ++ l.sends = ms ++ s'.inbox
  stdin : s'.world.received .stdin ++ s'.left =
    s.world.received .stdin ++ s.left ++ due session base64 ms
  ptyMaster : s'.world.received .ptyMaster = s.world.received .ptyMaster

/-- The driver takes no message, and writes nothing. -/
theorem Took.stay (hinbox : s'.inbox = s.inbox) (hsends : l.sends = [])
    (hreceived : s'.world.received = s.world.received) (hleft : s'.left = s.left) :
    Took session base64 s l s' [] where
  inbox := by rw [hinbox, hsends, List.append_nil, List.nil_append]
  stdin := by rw [hreceived, hleft, due, payloads]; split <;> exact (List.append_nil _).symm
  ptyMaster := congrFun hreceived _

theorem left_of_select (hpc : s.pc = .select) : s.left = [] := by
  unfold State.left
  rw [hpc]

theorem exists_took (hl : l ≠ .broken) (hstep : step session base64 s l = some s') :
    ∃ ms, Took session base64 s l s' ms := by
  cases step_cases hstep with
  | client m => exact ⟨[], rfl, (Took.stay rfl rfl rfl rfl : Took session base64 s .recv s []).stdin, rfl⟩
  | hangUp => exact ⟨[], .stay rfl rfl rfl rfl⟩
  | @stdin m inbox payload hpc hinbox hm hstdin =>
    refine ⟨[m], by rw [hinbox]; simp [Label.sends], ?_, rfl⟩
    show s.world.received .stdin ++ (FileWrite.start payload).left = _
    rw [FileWrite.left_start, left_of_select hpc, due, if_pos hstdin, payloads]
    simp [hm]
  | @skip m inbox hpc hinbox hm hleaves =>
    refine ⟨[m], by rw [hinbox]; simp [Label.sends, State.next], ?_, rfl⟩
    have hnone : due session base64 [m] = [] := by
      unfold due payloads
      rcases hm with hm | hm
      · simp [hm]
      · simp [hm]
    rw [left_next, hnone, left_of_select hpc, List.append_nil, List.append_nil, List.append_nil]
    rfl
  | @leave inbox hpc hinbox =>
    rcases hinbox with ⟨m, hinbox, -, hm⟩ | ⟨hinbox, -, -⟩
    · refine ⟨[m], by rw [hinbox]; simp [Label.sends], ?_, rfl⟩
      have hnone : due session base64 [m] = [] := by
        unfold due payloads
        simp [hm]
      rw [hnone, left_of_select hpc, List.append_nil]
      rfl
    · exact ⟨[], .stay hinbox.symm rfl rfl (left_of_select hpc).symm⟩
  | read hpc => exact ⟨[], .stay rfl rfl rfl rfl⟩
  | eof hpc => exact ⟨[], .stay rfl rfl rfl ((left_next _).trans (left_of_select hpc).symm)⟩
  | @accept f n w hpc hw =>
    refine ⟨[], List.append_nil _, ?_, World.accept_ptyMaster hw⟩
    obtain ⟨⟨-, hn, -, -⟩, rfl⟩ := World.accept_cases hw
    have hleft : s.left = f.left := by
      unfold State.left
      rw [hpc]
    have hnone : due session base64 [] = [] := by
      unfold due
      split <;> rfl
    show update s.world.received .stdin (s.world.received .stdin ++ f.handed.take n) .stdin ++
      (f.wrote n).left = _
    rw [update_self, FileWrite.left_wrote f hn, hleft, hnone, List.append_nil, List.append_assoc,
      ← List.take_append_of_le_length hn, ← FileWrite.left, List.take_append_drop]
  | lost => exact absurd rfl hl
  | failed => exact absurd rfl hl
  | @flushed f hpc hleft =>
    have hold : s.left = [] := by
      unfold State.left
      rw [hpc]
      exact hleft
    exact ⟨[], .stay rfl rfl rfl ((left_next s).trans hold.symm)⟩
  | waited hpc =>
    have hold : s.left = [] := by
      unfold State.left
      rw [hpc]
    exact ⟨[], .stay rfl rfl rfl hold.symm⟩
  | process ha hw => exact ⟨[], .stay rfl rfl (World.step_stdin hw).2.2.2 rfl⟩

theorem took_run {ls : List Label} (hbroken : .broken ∉ ls)
    (hrun : run (step session base64) s ls = some s') :
    ∃ ms, s.inbox ++ ls.flatMap Label.sends = ms ++ s'.inbox ∧
      s'.world.received .stdin ++ s'.left =
        s.world.received .stdin ++ s.left ++ due session base64 ms ∧
      s'.world.received .ptyMaster = s.world.received .ptyMaster := by
  induction ls generalizing s with
  | nil =>
    obtain rfl := Option.some.inj hrun
    have hstay : Took session base64 s .recv s [] := .stay rfl rfl rfl rfl
    exact ⟨[], List.append_nil _, hstay.stdin, rfl⟩
  | cons l ls ih =>
    obtain ⟨s₁, hstep, hrest⟩ := run_cons_eq_some.mp hrun
    obtain ⟨ms, h⟩ := exists_took (fun hl => hbroken (hl ▸ List.mem_cons_self)) hstep
    obtain ⟨ms', hinbox, hstdin, hpty⟩ :=
      ih (fun hmem => hbroken (List.mem_cons_of_mem _ hmem)) hrest
    refine ⟨ms ++ ms', ?_, ?_, hpty.trans h.ptyMaster⟩
    · rw [List.flatMap_cons, ← List.append_assoc, h.inbox, List.append_assoc, hinbox,
        List.append_assoc]
    · rw [hstdin, h.stdin, due_append, List.append_assoc _ (due _ _ ms)]

theorem payloads_reach {inp : Input} (hinput : session.input = some inp)
    {stdin stdout stderr : Nat} {ls : List Label} {ms : List Message}
    (hrun : run (step session base64) (init session (.init stdin stdout stderr)) ls = some s)
    (hbroken : .broken ∉ ls) (hms : ls.flatMap Label.sends = ms ++ s.inbox) :
    s.world.received inp ++ s.left = payloads base64 ms ↔
      session.stdin = true ∨ payloads base64 ms = [] := by
  obtain ⟨ms', hinbox, hwhole, hpty⟩ := took_run hbroken hrun
  obtain rfl : ms' = ms := List.append_cancel_right (hinbox.symm.trans hms)
  rcases StreamSession.cases_input hinput with ⟨hstdin, rfl⟩ | ⟨hstdin, rfl⟩
  · rw [hwhole, due, if_pos hstdin]
    exact iff_of_true rfl (.inl hstdin)
  · have hnone : s.world.received .stdin ++ s.left = [] := by
      rw [hwhole, due, if_neg (by rw [hstdin]; exact Bool.false_ne_true)]
      rfl
    rw [hpty, (List.append_eq_nil_iff.mp hnone).2, hstdin, or_iff_right Bool.false_ne_true]
    exact eq_comm

end

end LightrCri.Stream.WebSocket

namespace LightrCri.Stream

open Backend Foundations Spdy Function

/-- **Stdin reaches the process**: in every run in which no write fails, what the driver has taken
of the client's stdin payloads is what the input of the process has got, but for the rest of the
write at hand, exactly if the session has a separate stdin or there is nothing to write; for the
SPDY driver and for the WebSocket driver. -/
theorem stdin_reaches_iff {session : StreamSession} {inp : Input} (hinput : session.input = some inp)
    {cfg : Exec.Config} (hcfg : cfg.session = some session) {base64 : Bool}
    {stdin stdout stderr : Nat} {ls : List Exec.Label} {s : Exec.State} {fs : List Received}
    (hrun : run (Exec.step cfg) (Exec.init cfg (.init stdin stdout stderr)) ls = some s)
    (hbroken : .broken ∉ ls)
    (hfs : ls.flatMap Exec.Label.sends = fs ++ s.inbox.filter Exec.Received.isFrame)
    {ls' : List WebSocket.Label} {s' : WebSocket.State} {ms : List WebSocket.Message}
    (hrun' : run (WebSocket.step session base64) (WebSocket.init session (.init stdin stdout stderr))
      ls' = some s')
    (hbroken' : .broken ∉ ls') (hms : ls'.flatMap WebSocket.Label.sends = ms ++ s'.inbox) :
    (s.world.received inp ++ s.readLoop.left = Exec.asked fs ↔
      session.stdin = true ∨ Exec.asked fs = []) ∧
    (s'.world.received inp ++ s'.left = WebSocket.payloads base64 ms ↔
      session.stdin = true ∨ WebSocket.payloads base64 ms = []) :=
  ⟨Exec.asked_reaches hinput hcfg hrun hbroken hfs,
    WebSocket.payloads_reach hinput hrun' hbroken' hms⟩

/-- What the backend hands out for an exec with stdin: the input is the terminal if there is one. -/
theorem openExec_input {b : SessionBackend} {id : ContainerId} {cmd : List String} {tty : Bool}
    {session : StreamSession} (h : openExec b id cmd tty true = .ok session) :
    session.input = some (if tty then .ptyMaster else .stdin) ∧ session.stdin = !tty := by
  rw [openExec_ok h]
  cases tty with
  | true => exact ⟨rfl, rfl⟩
  | false => exact ⟨rfl, rfl⟩

/-! ## A byte for stdin -/

/-- The client opens its stdin stream and sends a byte. -/
def spdyFrames : List Received :=
  [.frame (.synStream 7 [("streamType", "stdin")]), .frame (.data 7 0 [104])]

/-- The read loop takes both frames. -/
def spdyTyped : List Exec.Label :=
  spdyFrames.map .client ++ List.replicate 6 .readLoop

/-- A byte on the stdin channel. -/
def typed : WebSocket.Message := .binary [0, 104]

/-- With pipes the byte is written. -/
theorem stdin_reaches_iff_pipes : ∃ s s',
    run (Exec.step Exec.readerConfig) (Exec.init Exec.readerConfig (.init 8 8 8))
      (spdyTyped ++ [.accept 1, .flushed]) = some s ∧
    s.world.received .stdin = [104] ∧
    run (WebSocket.step .pipes false) (WebSocket.init .pipes (.init 8 8 8))
      [.client typed, .recv, .accept 1, .flushed] = some s' ∧
    s'.world.received .stdin = [104] ∧
    (s.world.received .stdin ++ s.readLoop.left = Exec.asked spdyFrames ↔
      StreamSession.pipes.stdin = true ∨ Exec.asked spdyFrames = []) ∧
    (s'.world.received .stdin ++ s'.left = WebSocket.payloads false [typed] ↔
      StreamSession.pipes.stdin = true ∨ WebSocket.payloads false [typed] = []) := by
  have hbroken : Exec.Label.broken ∉ spdyTyped ++ [.accept 1, .flushed] := by decide
  have hbroken' : WebSocket.Label.broken ∉ [.client typed, .recv, .accept 1, .flushed] := by decide
  exact ⟨_, _, rfl, rfl, rfl, rfl, @stdin_reaches_iff .pipes .stdin rfl Exec.readerConfig rfl false 8 8 8
    (spdyTyped ++ [.accept 1, .flushed]) _ spdyFrames rfl hbroken rfl
    [.client typed, .recv, .accept 1, .flushed] _ [typed] rfl hbroken' rfl⟩

/-- The session of an exec with a terminal. -/
def terminalSession : StreamSession := ⟨false, true, false, true, .child⟩

/-- An exec with a terminal and with stdin. -/
def terminalConfig : Exec.Config := ⟨false, true, true, some terminalSession⟩

def runningBackend : SessionBackend := ⟨fun _ => some .running, fun _ => none, fun _ => .ok (), .ok ()⟩

/-- **What is typed into a terminal is lost**: neither driver writes the byte to the master. -/
theorem typed_lost :
    openExec runningBackend ⟨"ct-0-1"⟩ ["sh"] true true = .ok terminalSession ∧
      terminalSession.input = some .ptyMaster ∧
    (∃ s, run (Exec.step terminalConfig) (Exec.init terminalConfig (.init 8 8 8)) spdyTyped = some s ∧
      s.inbox = [] ∧ Exec.asked spdyFrames = [104] ∧
      s.world.received .ptyMaster ++ s.readLoop.left = []) ∧
    ∃ s, run (WebSocket.step terminalSession false) (WebSocket.init terminalSession (.init 8 8 8))
        [.client typed, .recv] = some s ∧ s.inbox = [] ∧
      WebSocket.payloads false [typed] = [104] ∧ s.world.received .ptyMaster ++ s.left = [] :=
  ⟨rfl, rfl, ⟨_, rfl, rfl, rfl, rfl⟩, _, rfl, rfl, rfl, rfl⟩

end LightrCri.Stream

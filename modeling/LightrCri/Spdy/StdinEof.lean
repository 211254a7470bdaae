import LightrCri.Spdy.Exec

/-!
# The end of stdin

The client half-closes its stdin stream with FLAG_FIN, on a DATA frame or on the SYN_STREAM that
opens the stream. The read loop looks at the flags of DATA frames only. As long as no SYN_STREAM
half-closes stdin, it lets go of the stdin of the session at the first frame that does, when
everything before is written, and writes nothing after that (`stdin_eof`).
-/

namespace LightrCri.Spdy.Exec

open Foundations LightrCri.Stream Function

/-! ## What the frames ask for -/

/-- The stdin of the session as the client sees it. -/
structure Stdin where
  roles : UInt32 → Option UInt8
  /-- The client has not half-closed it. -/
  held : Bool
  /-- What is to be written. -/
  due : Bytes

/-- The session as it begins. -/
def Stdin.new (cfg : Config) : Stdin := ⟨fun _ => none, cfg.session.any StreamSession.stdin, []⟩

/-- A SYN_STREAM opens a stdin stream half-closed. -/
def opensEnded : Frame × Headers → Bool
  | (.synStream _ _ _ flags _, hdr) => role hdr = STDIN && flags &&& FLAG_FIN != 0
  | _ => false

/-- A DATA frame. -/
def Stdin.data (t : Stdin) (id : UInt32) (flags : UInt8) (data : Bytes) : Stdin :=
  if t.roles id = some STDIN ∧ t.held = true then
    { t with held := !(flags &&& FLAG_FIN != 0), due := t.due ++ data }
  else t

/-- A frame, with the list that the loop has decoded of its header block. -/
def Stdin.frame (t : Stdin) (x : Frame × Headers) : Stdin :=
  match x.1 with
  | .synStream id _ _ _ _ =>
    { t with roles := update t.roles id (some (role x.2)), held := t.held && !opensEnded x }
  | .data id flags data => t.data id flags data
  | _ => t

/-- No SYN_STREAM half-closes stdin while it is held. -/
def NeverOpensEnded (t : Stdin) : Sent → Prop
  | [] => True
  | x :: xs => (t.held = true → opensEnded x = false) ∧ NeverOpensEnded (t.frame x) xs

/-- What the read loop gets of a frame. -/
def receivedAs : Frame × Headers → Option Received
  | (.synStream id _ _ _ _, hdr) => some (.frame (.synStream id hdr))
  | (.data id flags data, _) => some (.frame (.data id flags data))
  | (.ping id, _) => some (.frame (.ping id))
  | (.rstStream id _, _) => some (.rstStream id)
  | (.goAway _ _, _) => some .goAway
  | _ => none

def Received.isFrame : Received → Bool
  | .closed => false
  | _ => true

/-- The frame that a label has the client send. -/
def Label.sends : Label → List Received
  | .client f => [f].filter Received.isFrame
  | _ => []

/-- What is left of the write to stdin. -/
def ReadLoop.left : ReadLoop → Bytes
  | .writing f _ => f.left
  | _ => []

/-- The read loop has not been left. -/
def ReadLoop.up : ReadLoop → Prop
  | .leaving => False
  | .ended => False
  | _ => True

/-- The frames `done` are read: the loop holds the stdin of the session until the client has
half-closed it, and what was due up to then is written. -/
structure StdinEof (cfg : Config) (done : Sent) (s : State) : Prop where
  held : s.readLoop.up → (∀ f fin, s.readLoop ≠ .writing f fin) →
    s.stdin = (done.foldl Stdin.frame (.new cfg)).held
  /-- The payload of the last frame is being written. -/
  writing : ∀ f fin, s.readLoop = .writing f fin →
    s.stdin = true ∧ (done.foldl Stdin.frame (.new cfg)).held = !fin
  written : s.world.received .stdin <+: (done.foldl Stdin.frame (.new cfg)).due
  whole : s.world.stdin.closed = false →
    s.world.received .stdin ++ s.readLoop.left = (done.foldl Stdin.frame (.new cfg)).due

/-! ## What the loop makes of them -/

/-- What the loop goes by: the flags of a SYN_STREAM are not among it. -/
def Stdin.received (t : Stdin) : Received → Stdin
  | .frame (.synStream id hdr) => { t with roles := update t.roles id (some (role hdr)) }
  | .frame (.data id flags data) => t.data id flags data
  | _ => t

theorem frame_eq_received {t : Stdin} {x : Frame × Headers} (h : t.held = true → opensEnded x = false) :
    t.frame x = ((receivedAs x).map t.received).getD t := by
  obtain ⟨f, hdr⟩ := x
  cases f with
  | synStream id assoc priority flags block =>
    have hheld : (t.held && !opensEnded (.synStream id assoc priority flags block, hdr)) = t.held := by
      cases hheld : t.held with
      | true => rw [h hheld, Bool.not_false, Bool.and_true]
      | false => rfl
    show { t with roles := _, held := _ } = _
    rw [hheld]
    rfl
  | _ => rfl

/-- As long as no SYN_STREAM half-closes stdin, the loop goes by what the client asks for. -/
theorem foldl_frame_eq {t : Stdin} {xs : Sent} (h : NeverOpensEnded t xs) :
    xs.foldl Stdin.frame t = (xs.filterMap receivedAs).foldl Stdin.received t := by
  induction xs generalizing t with
  | nil => rfl
  | cons x xs ih =>
    rw [List.foldl_cons, ih h.2, frame_eq_received h.1, List.filterMap_cons]
    cases receivedAs x with
    | none => rfl
    | some f => rfl

/-- The roles, with that of the stream about to be put into the map. -/
def State.rolesToBe (s : State) : UInt32 → Option UInt8 :=
  match s.readLoop with
  | .replying id role => update s.roles id (some role)
  | .inserting id role => update s.roles id (some role)
  | _ => s.roles

/-- The loop has read what `t` comes from. No write has failed if `ok`. -/
structure Tracks (ok : Prop) (t : Stdin) (s : State) : Prop where
  roles : s.rolesToBe = t.roles
  held : (∀ f fin, s.readLoop ≠ .writing f fin) → s.stdin = t.held
  writing : ∀ f fin, s.readLoop = .writing f fin → s.stdin = true ∧ t.held = !fin
  written : s.world.received .stdin <+: t.due
  whole : ok ∨ s.world.stdin.closed = false → s.world.received .stdin ++ s.readLoop.left = t.due

section

variable {cfg : Config} {ok : Prop} {s s' : State} {t : Stdin} {l : Label}

theorem Tracks.init (cfg : Config) (stdin stdout stderr : Nat) :
    Tracks ok (.new cfg) (init cfg (.init stdin stdout stderr)) where
  roles := rfl
  held _ := rfl
  writing _ _ h := by cases h
  written := List.prefix_rfl
  whole _ := rfl

/-- The loop and its stdin are as they were. -/
theorem Tracks.of_eq (h : Tracks ok t s) (hloop : s'.readLoop = s.readLoop) (hroles : s'.roles = s.roles)
    (hstdin : s'.stdin = s.stdin) (hreceived : s'.world.received = s.world.received)
    (hclosed : s.world.stdin.closed = true → s'.world.stdin.closed = true) : Tracks ok t s' where
  roles := by
    have heq : s'.rolesToBe = s.rolesToBe := by
      unfold State.rolesToBe
      rw [hloop, hroles]
    rw [heq, h.roles]
  held hno := by
    rw [hstdin]
    exact h.held fun f fin => hloop ▸ hno f fin
  writing f fin hw := by
    rw [hstdin]
    exact h.writing f fin (hloop ▸ hw)
  written := by
    rw [hreceived]
    exact h.written
  whole hopen := by
    have hold : ok ∨ s.world.stdin.closed = false := by
      refine hopen.imp_right fun hopen => ?_
      by_contra hne
      rw [hclosed (Bool.eq_true_of_not_eq_false hne)] at hopen
      cases hopen
    rw [hreceived, hloop]
    exact h.whole hold

/-- The loop goes on without a write. -/
theorem Tracks.move (h : Tracks ok t s) (hleft : s.readLoop.left = []) {t' : Stdin}
    (hworld : s'.world = s.world) (hroles : s'.rolesToBe = t'.roles) (hdue : t'.due = t.due)
    (hheld : s'.stdin = t'.held) (hno : ∀ f fin, s'.readLoop ≠ .writing f fin) : Tracks ok t' s' where
  roles := hroles
  held _ := hheld
  writing f fin hw := absurd hw (hno f fin)
  written := by
    rw [hworld, hdue]
    exact h.written
  whole hopen := by
    have hnil : s'.readLoop.left = [] := by
      cases hloop : s'.readLoop with
      | writing f fin => exact absurd hloop (hno f fin)
      | _ => rfl
    rw [hworld] at hopen ⊢
    rw [hdue, hnil, ← h.whole hopen, hleft]

/-- The loop does not touch stdin, and reads no frame. -/
theorem Tracks.stay (h : Tracks ok t s) (hloop : s'.readLoop = s.readLoop) (hroles : s'.roles = s.roles)
    (hstdin : s'.stdin = s.stdin) (hreceived : s'.world.received = s.world.received)
    (hclosed : s.world.stdin.closed = true → s'.world.stdin.closed = true) (hinbox : s'.inbox = s.inbox)
    (hsends : l.sends = []) :
    ∃ fs : List Received, Tracks ok (fs.foldl Stdin.received t) s' ∧
      s.inbox.filter Received.isFrame ++ l.sends = fs ++ s'.inbox.filter Received.isFrame :=
  ⟨[], h.of_eq hloop hroles hstdin hreceived hclosed, by rw [hsends, hinbox, List.append_nil]; rfl⟩

theorem left_of_not_writing (hno : ∀ f fin, s.readLoop ≠ .writing f fin) : s.readLoop.left = [] := by
  cases hloop : s.readLoop with
  | writing f fin => exact absurd hloop (hno f fin)
  | _ => rfl

/-- The loop goes on to its next stage, and reads no frame. -/
theorem Tracks.advance (h : Tracks ok t s) {m : ReadLoop} (hloop : s.readLoop = m)
    (hno : ∀ f fin, m ≠ .writing f fin) (hworld : s'.world = s.world)
    (hroles : s'.rolesToBe = { s with readLoop := m }.rolesToBe) (hstdin : s'.stdin = s.stdin)
    (hno' : ∀ f fin, s'.readLoop ≠ .writing f fin) (hinbox : s'.inbox = s.inbox) (hsends : l.sends = []) :
    ∃ fs : List Received, Tracks ok (fs.foldl Stdin.received t) s' ∧
      s.inbox.filter Received.isFrame ++ l.sends = fs ++ s'.inbox.filter Received.isFrame := by
  subst hloop
  exact ⟨[], h.move (left_of_not_writing hno) hworld (hroles.trans h.roles) rfl
    (hstdin.trans (h.held hno)) hno', by rw [hsends, hinbox, List.append_nil]; rfl⟩

/-- A write ends: stdin is closed, or has taken all. -/
theorem Tracks.wrote (h : Tracks ok t s) {f : FileWrite} {fin : Bool}
    (hloop : s.readLoop = .writing f fin)
    (hend : (¬ ok ∧ s.world.stdin.closed = true) ∨ f.left = []) : Tracks ok t (wrote cfg s fin) := by
  obtain ⟨hstdin, hheld⟩ := h.writing f fin hloop
  have hroles := h.roles
  unfold State.rolesToBe at hroles
  rw [hloop] at hroles
  refine ⟨hroles, fun _ => ?_, fun f fin => nofun, h.written, fun hopen => ?_⟩
  · show (if fin = true ∧ some STDIN = some STDIN then false else s.stdin) = t.held
    rw [hheld, hstdin]
    cases fin <;> rfl
  · have hleft : s.readLoop.left = f.left := by
      rw [hloop]
      rfl
    rcases hend with ⟨hfailed, hclosed⟩ | hnil
    · cases hclosed.symm.trans (hopen.resolve_left hfailed)
    · rw [← h.whole hopen, hleft, hnil]
      rfl

/-- The loop reads a frame. -/
theorem filter_inbox {f : Received} {inbox : List Received} (hinbox : s.inbox = f :: inbox)
    (hinbox' : s'.inbox = inbox) :
    s.inbox.filter Received.isFrame ++ Label.readLoop.sends =
      [f].filter Received.isFrame ++ s'.inbox.filter Received.isFrame := by
  rw [hinbox, hinbox', ← List.filter_append, List.singleton_append]
  exact List.append_nil _

theorem roles_of_reading (h : Tracks ok t s) (hloop : s.readLoop = .reading) : s.roles = t.roles := by
  rw [← h.roles]
  unfold State.rolesToBe
  rw [hloop]

theorem not_writing_of_eq {m : ReadLoop} (hloop : s.readLoop = m) (hm : ∀ f fin, m ≠ .writing f fin)
    (f : FileWrite) (fin : Bool) : s.readLoop ≠ .writing f fin := hloop ▸ hm f fin

/-- **The loop follows the frames**: after a step it has read what it tracks. -/
theorem Tracks.step (h : Tracks ok t s) (hok : ok → l ≠ .broken)
    (hstep : Exec.step cfg s l = some s') :
    ∃ fs : List Received, Tracks ok (fs.foldl Stdin.received t) s' ∧
      s.inbox.filter Received.isFrame ++ l.sends = fs ++ s'.inbox.filter Received.isFrame := by
  cases step_cases hstep with
  | @client f heof =>
    refine ⟨[], h.of_eq rfl rfl rfl rfl id, ?_⟩
    show _ ++ [f].filter _ = [] ++ (s.inbox ++ [f]).filter _
    rw [List.filter_append, List.nil_append]
  | halfClose => exact h.stay rfl rfl rfl rfl id rfl rfl
  | hangUp => exact h.stay rfl rfl rfl rfl id rfl rfl
  | @process a w ha hw =>
    obtain ⟨-, -, hclosed, hreceived⟩ := World.step_stdin hw
    exact h.stay rfl rfl rfl hreceived hclosed rfl rfl
  | @opening id hdr inbox hloop hinbox =>
    have hno := not_writing_of_eq hloop fun f fin => nofun
    refine ⟨[.frame (.synStream id hdr)], ?_, filter_inbox hinbox rfl⟩
    refine h.move (left_of_not_writing hno) rfl ?_ rfl (h.held hno) (fun f fin => nofun)
    have hroles := roles_of_reading h hloop
    show update s.roles id (some (role hdr)) = update t.roles id (some (role hdr))
    rw [hroles]
  | @stdin id flags data inbox hloop hinbox hrole hstdin =>
    have hno := not_writing_of_eq hloop fun f fin => nofun
    have hroles := roles_of_reading h hloop
    have hdata : t.received (.frame (.data id flags data)) =
        { t with held := !(flags &&& FLAG_FIN != 0), due := t.due ++ data } :=
      if_pos ⟨hroles ▸ hrole, (h.held hno).symm.trans hstdin⟩
    refine ⟨[.frame (.data id flags data)], ?_, filter_inbox hinbox rfl⟩
    show Tracks ok (t.received (.frame (.data id flags data))) _
    rw [hdata]
    refine ⟨hroles, fun hno' => absurd rfl (hno' _ _), fun f fin hw => ?_, ?_, fun hopen => ?_⟩
    · obtain ⟨-, rfl⟩ := ReadLoop.writing.inj hw
      exact ⟨hstdin, rfl⟩
    · exact h.written.trans (List.prefix_append _ _)
    · show s.world.received .stdin ++ (FileWrite.start data).left = t.due ++ data
      rw [FileWrite.left_start, ← h.whole hopen, left_of_not_writing hno, List.append_nil]
  | @data id flags data inbox hloop hinbox hrole =>
    have hno := not_writing_of_eq hloop fun f fin => nofun
    have hroles := roles_of_reading h hloop
    have hdata : t.received (.frame (.data id flags data)) = t := if_neg fun hcond => by
      have hfalse := hrole (hroles.symm ▸ hcond.1)
      rw [h.held hno, hcond.2] at hfalse
      cases hfalse
    refine ⟨[.frame (.data id flags data)], ?_, filter_inbox hinbox rfl⟩
    show Tracks ok (t.received (.frame (.data id flags data))) _
    rw [hdata]
    refine h.move (left_of_not_writing hno) rfl hroles rfl ?_ (fun f fin => nofun)
    rw [← h.held hno]
    show (if _ then false else s.stdin) = s.stdin
    split
    · rename_i hfin
      exact (hrole hfin.2).symm
    · rfl
  | @ping id inbox hloop hinbox =>
    have hstay := @Tracks.of_eq ok s { s with inbox := inbox, out := s.out ++ [.ping id] } t h rfl rfl rfl rfl
      fun hclosed => hclosed
    exact ⟨[.frame (.ping id)], hstay, filter_inbox hinbox rfl⟩
  | @quit f inbox hloop hinbox hf =>
    have hno := not_writing_of_eq hloop fun f fin => nofun
    refine ⟨_, ?_, filter_inbox hinbox rfl⟩
    have hsame : ([f].filter Received.isFrame).foldl Stdin.received t = t := by
      cases f with
      | frame f => cases hf
      | _ => rfl
    rw [hsame]
    have hroles := roles_of_reading h hloop
    exact h.move (left_of_not_writing hno) rfl hroles rfl (h.held hno) fun f fin => nofun
  | eof hloop => exact h.advance hloop (fun f fin => nofun) rfl rfl rfl (fun f fin => nofun) rfl rfl
  | reply hloop => exact h.advance hloop (fun f fin => nofun) rfl rfl rfl (fun f fin => nofun) rfl rfl
  | insert hloop => exact h.advance hloop (fun f fin => nofun) rfl rfl rfl (fun f fin => nofun) rfl rfl
  | tell hloop => exact h.advance hloop (fun f fin => nofun) rfl rfl rfl (fun f fin => nofun) rfl rfl
  | spawn hloop => exact h.advance hloop (fun f fin => nofun) rfl rfl rfl (fun f fin => nofun) rfl rfl
  | noSpawn hloop => exact h.advance hloop (fun f fin => nofun) rfl rfl rfl (fun f fin => nofun) rfl rfl
  | push hloop => exact h.advance hloop (fun f fin => nofun) rfl rfl rfl (fun f fin => nofun) rfl rfl
  | tellPump hloop => exact h.advance hloop (fun f fin => nofun) rfl rfl rfl (fun f fin => nofun) rfl rfl
  | leave hloop => exact h.advance hloop (fun f fin => nofun) rfl rfl rfl (fun f fin => nofun) rfl rfl
  | @accept f fin n w hloop hw =>
    refine ⟨[], ?_, List.append_nil _⟩
    obtain ⟨⟨-, hn, -, hopen⟩, rfl⟩ := World.accept_cases hw
    have hwhole := h.whole (.inr hopen)
    have hleft : s.readLoop.left = f.left := by
      rw [hloop]
      rfl
    have hreceived : update s.world.received .stdin (s.world.received .stdin ++ f.handed.take n) .stdin =
        s.world.received .stdin ++ f.left.take n := by
      rw [update_self, FileWrite.left, List.take_append_of_le_length hn]
    have hall : update s.world.received .stdin (s.world.received .stdin ++ f.handed.take n) .stdin ++
        (f.wrote n).left = t.due := by
      rw [hreceived, FileWrite.left_wrote f hn, List.append_assoc, List.take_append_drop, ← hleft, hwhole]
    refine ⟨?_, fun hno => absurd rfl (hno _ _), fun f' fin' hw' => ?_, ?_, fun _ => hall⟩
    · have hroles := h.roles
      unfold State.rolesToBe at hroles
      rw [hloop] at hroles
      exact hroles
    · obtain ⟨-, rfl⟩ := ReadLoop.writing.inj hw'
      exact h.writing f fin hloop
    · exact ⟨_, hall⟩
  | @broken f fin hloop hclosed hhanded =>
    exact ⟨[], h.wrote hloop (.inl ⟨fun h => hok h rfl, hclosed⟩), List.append_nil _⟩
  | @flushed f fin hloop hleft =>
    exact ⟨[], h.wrote hloop (.inr hleft), List.append_nil _⟩
  | pumpRead => exact h.stay rfl rfl rfl rfl id rfl rfl
  | pumpSend => exact h.stay rfl rfl rfl rfl id rfl rfl
  | pumpFail => exact h.stay rfl rfl rfl rfl id rfl rfl
  | pumpEof => exact h.stay rfl rfl rfl rfl id rfl rfl
  | reap => exact h.stay rfl rfl rfl rfl id rfl rfl
  | arm => exact h.stay rfl rfl rfl rfl id rfl rfl
  | take => exact h.stay rfl rfl rfl rfl id rfl rfl
  | finish => exact h.stay rfl rfl rfl rfl id rfl rfl
  | goto hgoto => exact h.stay rfl rfl rfl rfl id rfl (by cases hgoto <;> rfl)

/-- The frames read over a run are those that were waiting or sent, but for those that wait now. -/
theorem Tracks.run {ls : List Label} (h : Tracks ok t s) (hok : ok → .broken ∉ ls)
    (hrun : Foundations.run (Exec.step cfg) s ls = some s') :
    ∃ fs : List Received, Tracks ok (fs.foldl Stdin.received t) s' ∧
      s.inbox.filter Received.isFrame ++ ls.flatMap Label.sends =
        fs ++ s'.inbox.filter Received.isFrame := by
  induction ls generalizing s t with
  | nil =>
    obtain rfl := Option.some.inj hrun
    exact ⟨[], h, List.append_nil _⟩
  | cons l ls ih =>
    obtain ⟨s₁, hstep, hrest⟩ := run_cons_eq_some.mp hrun
    obtain ⟨fs, h₁, hread⟩ := h.step (fun h hl => hok h (hl ▸ List.mem_cons_self)) hstep
    obtain ⟨fs', h₂, hread'⟩ :=
      ih h₁ (fun h hmem => hok h (List.mem_cons_of_mem _ hmem)) hrest
    refine ⟨fs ++ fs', ?_, ?_⟩
    · rw [List.foldl_append]
      exact h₂
    · rw [List.flatMap_cons, ← List.append_assoc, hread, List.append_assoc, hread', List.append_assoc]

end

/-- **The end of stdin**: in every run in which no SYN_STREAM half-closes stdin, the loop lets go of
the stdin of the session at the first frame by which the client half-closes it and at no other, when
all that came before is written, and what comes after is not. -/
theorem stdin_eof (cfg : Config) (stdin stdout stderr : Nat) {ls : List Label} {s : State}
    {done rest : Sent} (hrun : run (step cfg) (init cfg (.init stdin stdout stderr)) ls = some s)
    (hsent : ls.flatMap Label.sends = (done ++ rest).filterMap receivedAs)
    (hrest : rest.filterMap receivedAs = s.inbox.filter Received.isFrame)
    (hopens : NeverOpensEnded (.new cfg) done) : StdinEof cfg done s := by
  obtain ⟨fs, h, hread⟩ := (@Tracks.init False cfg stdin stdout stderr).run False.elim hrun
  obtain rfl : fs = done.filterMap receivedAs := by
    have hall : ls.flatMap Label.sends = fs ++ s.inbox.filter Received.isFrame := hread
    rw [hsent, List.filterMap_append, hrest] at hall
    exact (List.append_cancel_right hall).symm
  rw [← foldl_frame_eq hopens] at h
  exact ⟨fun _ => h.held, h.writing, h.written, fun hopen => h.whole (.inr hopen)⟩

/-! ## A stdin stream that is opened half-closed -/

/-- An exec that reads its stdin. -/
def readerConfig : Config := ⟨false, true, false, some ⟨true, true, true, false, .child⟩⟩

/-- The client opens its stdin stream, and the loop puts it into its maps. -/
def stdinOpenedRun : List Label :=
  [.client (.frame (.synStream 7 [("streamType", "stdin")])), .readLoop, .readLoop, .readLoop, .readLoop,
    .readLoop]

/-- The client sends two bytes with FLAG_FIN, which the process takes. -/
def stdinEndedRun : List Label :=
  stdinOpenedRun ++
    [Label.client (.frame (.data 7 FLAG_FIN [104, 105])), .readLoop, .accept 2, .flushed]

theorem stdin_eof_ended : ∃ s,
    run (step readerConfig) (init readerConfig (.init 8 8 8)) stdinEndedRun = some s ∧
      s.stdin = false ∧ s.world.received .stdin = [104, 105] ∧
      StdinEof readerConfig
        [(.synStream 7 0 0 0 [], [("streamType", "stdin")]), (.data 7 FLAG_FIN [104, 105], [])] s := by
  have hopens : NeverOpensEnded (.new readerConfig)
      [(.synStream 7 0 0 0 [], [("streamType", "stdin")]), (.data 7 FLAG_FIN [104, 105], [])] :=
    ⟨fun _ => rfl, fun _ => rfl, True.intro⟩
  exact ⟨_, rfl, rfl, rfl, @stdin_eof readerConfig 8 8 8 stdinEndedRun _ _ [] rfl rfl rfl hopens⟩

/-- What the client sends: a SYN_STREAM for stdin that is already half-closed. -/
def openedEnded : Sent := [(.synStream 7 0 0 FLAG_FIN [], [("streamType", "stdin")])]

/-- **A SYN_STREAM with FLAG_FIN goes unnoticed**: the loop has read all that the client has sent,
and holds on to the stdin that the client has half-closed. -/
theorem stdin_opened_ended : ∃ s,
    run (step readerConfig) (init readerConfig (.init 8 8 8)) stdinOpenedRun = some s ∧
      stdinOpenedRun.flatMap Label.sends = openedEnded.filterMap receivedAs ∧ s.inbox = [] ∧
      s.readLoop = .reading ∧ s.stdin = true ∧ ¬ StdinEof readerConfig openedEnded s := by
  obtain ⟨s, hrun, hloop, hheld, hinbox⟩ : ∃ s,
    run (step readerConfig) (init readerConfig (.init 8 8 8)) stdinOpenedRun = some s ∧
      s.readLoop = .reading ∧ s.stdin = true ∧ s.inbox = [] := ⟨_, rfl, rfl, rfl, rfl⟩
  refine ⟨s, hrun, rfl, hinbox, hloop, hheld, fun heof => ?_⟩
  have hdropped := heof.held (by rw [hloop]; exact True.intro)
    (not_writing_of_eq hloop fun f fin => nofun)
  rw [hheld] at hdropped
  exact absurd hdropped (by decide)

end LightrCri.Spdy.Exec

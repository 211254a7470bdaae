import LightrCri.Spdy.Complete
import LightrCri.Stream.Drain

/-!
# The verdict on both transports

`run_session` waits for the waiter of the session when its loop is left, and sends its exit code on
the error channel. `run_exec` has a reaper that waits beside the read loop and the pumps; an exec
reports its exit code, an attach reports 0 whatever the waiter returns, since the container outlives
the session. So the two transports report the same verdict of an exec (`verdicts`), and of an attach
only if the waiter returns 0 (`attach_verdicts_differ`).
-/

namespace LightrCri.Stream.WebSocket

open Foundations Spdy Function

variable {session : StreamSession} {base64 : Bool} {s s' : State} {l : Label} {code : Option Int32}

/-- The payload of a frame on the error channel. -/
def Sent.error : Sent → Option Bytes
  | .frame ch payload => if ch = ERROR then some payload else none
  | .close => none

/-- What was sent on the error channel. -/
def errors (sent : List Sent) : List Bytes := sent.filterMap Sent.error

theorem errors_append (sent sent' : List Sent) :
    errors (sent ++ sent') = errors sent ++ errors sent' :=
  List.filterMap_append

theorem errors_output (o : Output) (payload : Bytes) : errors [.frame o.channel payload] = [] := by
  cases o <;> rfl

/-- If the waiter returns, it returns the code. -/
def Waits (code : Option Int32) (l : Label) : Prop := ∀ c, l = .waited c → c = code

/-- Nothing is sent on the error channel before the verdict. -/
def Reported (code : Option Int32) (s : State) : Prop :=
  errors s.sent = if s.pc = .done then [exitStatusJson (code.getD (-1))] else []

/-- A step before the verdict. -/
theorem Reported.before (h : Reported code s) (hpc : s.pc ≠ .done) {more : List Sent}
    (hmore : errors more = []) (hsent : s'.sent = s.sent ++ more) (hpc' : s'.pc ≠ .done) :
    Reported code s' := by
  unfold Reported at h ⊢
  rw [if_neg hpc] at h
  rw [if_neg hpc', hsent, errors_append, h, hmore]
  rfl

theorem next_ne_done (s : State) : s.next.pc ≠ .done := by
  unfold State.next
  dsimp only
  split <;> exact fun h => by cases h

theorem Reported.step (h : Reported code s) (hl : Waits code l)
    (hstep : WebSocket.step session base64 s l = some s') : Reported code s' := by
  have hnil : ∀ sent : List Sent, sent = sent ++ [] := fun sent => (List.append_nil sent).symm
  have hselect : s.pc = .select → s.pc ≠ .done := fun hpc hd => by cases hpc.symm.trans hd
  have hwriting : ∀ f, s.pc = .writing f → s.pc ≠ .done := fun f hpc hd => by cases hpc.symm.trans hd
  cases step_cases hstep with
  | client => exact h
  | hangUp => exact h
  | process => exact h
  | stdin hpc => exact h.before (hselect hpc) rfl (hnil _) fun hd => by cases hd
  | skip hpc => exact h.before (hselect hpc) rfl (hnil _) (next_ne_done _)
  | leave hpc => exact h.before (hselect hpc) rfl (hnil _) fun hd => by cases hd
  | @read o n hpc => exact h.before (hselect hpc) (errors_output o _) rfl (hselect hpc)
  | eof hpc => exact h.before (hselect hpc) rfl (hnil _) (next_ne_done _)
  | accept hpc => exact h.before (hwriting _ hpc) rfl (hnil _) fun hd => by cases hd
  | lost hpc => exact h.before (hwriting _ hpc) rfl (hnil _) (next_ne_done _)
  | failed hpc => exact h.before (hwriting _ hpc) rfl (hnil _) fun hd => by cases hd
  | flushed hpc => exact h.before (hwriting _ hpc) rfl (hnil _) (next_ne_done _)
  | @waited c hpc =>
    obtain rfl := hl c rfl
    unfold Reported at h ⊢
    rw [if_neg fun hd => by cases hpc.symm.trans hd] at h
    dsimp only
    rw [errors_append, h]
    rfl

theorem Reported.init (session : StreamSession) (w : World) : Reported code (init session w) := by
  unfold Reported WebSocket.init lowest
  dsimp only
  split <;> rfl

/-- A refused session stays as it is, but for the client and the process. -/
theorem refused_step (hpc : s.pc = .done) (hstep : WebSocket.step session base64 s l = some s') :
    s'.pc = .done ∧ s'.sent = s.sent := by
  cases step_cases hstep with
  | client => exact ⟨hpc, rfl⟩
  | hangUp => exact ⟨hpc, rfl⟩
  | process => exact ⟨hpc, rfl⟩
  | stdin hpc' => cases hpc.symm.trans hpc'
  | skip hpc' => cases hpc.symm.trans hpc'
  | leave hpc' => cases hpc.symm.trans hpc'
  | read hpc' => cases hpc.symm.trans hpc'
  | eof hpc' => cases hpc.symm.trans hpc'
  | accept hpc' => cases hpc.symm.trans hpc'
  | lost hpc' => cases hpc.symm.trans hpc'
  | failed hpc' => cases hpc.symm.trans hpc'
  | flushed hpc' => cases hpc.symm.trans hpc'
  | waited hpc' => cases hpc.symm.trans hpc'

/-- The client of a session that could not be opened gets the message of the factory. -/
theorem errors_refused {message : String} {w : World} {ls : List Label}
    (hrun : run (WebSocket.step session base64) (start (.error message) w) ls = some s) :
    errors s.sent = [utf8 message] := by
  have h : s.pc = .done ∧ s.sent = [.frame ERROR (utf8 message), .close] := by
    refine invariant_run (P := fun _ _ => True)
      (I := fun s => s.pc = .done ∧ s.sent = [.frame ERROR (utf8 message), .close])
      (fun t l t' h _ hstep => ?_) ⟨rfl, rfl⟩ (Along.trivial _ _) hrun
    obtain ⟨hpc, hsent⟩ := refused_step h.1 hstep
    exact ⟨hpc, hsent.trans h.2⟩
  rw [h.2]
  rfl

/-- The client of a session gets the exit code of the waiter. -/
theorem errors_done {w : World} {ls : List Label}
    (hcode : ∀ l ∈ ls, Waits code l)
    (hrun : run (WebSocket.step session base64) (start (.ok session) w) ls = some s)
    (hdone : s.pc = .done) : errors s.sent = [exitStatusJson (code.getD (-1))] := by
  have h : Reported code s := invariant_run (P := fun _ l => Waits code l)
    (fun _ _ _ h hl hstep => h.step hl hstep) (Reported.init session w) (Along.of_labels hcode) hrun
  unfold Reported at h
  rwa [if_pos hdone] at h

end LightrCri.Stream.WebSocket

namespace LightrCri.Spdy.Exec

open Foundations LightrCri.Stream Function

variable {cfg : Config} {session : StreamSession} {s s' : State} {l : Label} {m : Main}
  {code : Option Int32} {id : UInt32}

/-! ## The exit code -/

/-- The exit code that `run_exec` reports. -/
def Config.verdict (cfg : Config) (code : Option Int32) : Int32 :=
  if cfg.attach then 0 else code.getD (-1)

/-- The completion path awaits the reaper, or has had its result. -/
def Main.reaps : Main → Bool
  | .draining _ => true
  | .exiting => true
  | _ => false

/-- If the waiter returns, it returns the code. -/
def Reaps (code : Option Int32) (l : Label) : Prop := ∀ c, l = .reap c → c = code

/-- The error stream is open, with this id, when the completion path looks up the streams. -/
def ErrorOpen (id : UInt32) (s : State) (l : Label) : Prop :=
  l = .main → s.main.stage = 6 → s.byRole ERROR = some id

instance : Decidable (ErrorOpen id s l) :=
  inferInstanceAs (Decidable (l = .main → s.main.stage = 6 → s.byRole ERROR = some id))

structure Told (cfg : Config) (code : Option Int32) (id : UInt32) (s : State) : Prop where
  reaper : ∀ c, s.reaper = some c → c = code
  exec : s.main.reaps = true → cfg.attach = false
  exit : ∀ exit, s.main.exit = some exit → exit = cfg.verdict code
  error : ∀ exit stdout stderr error, s.main = .finishing exit stdout stderr error →
    error = some id
  after : s.main.over = true → ∃ pre post,
    s.out = pre ++ .data id FLAG_FIN (exitStatusJson (cfg.verdict code)) :: post

theorem Told.init (hsession : cfg.session = some session) (w : World) :
    Told cfg code id (init cfg w) := by
  have hmain : (Exec.init cfg w).main = .arming := by
    unfold Exec.init
    rw [hsession]
    rfl
  refine ⟨fun c h => (by cases h), fun h => ?_, fun exit h => ?_, fun _ _ _ _ h => ?_, fun h => ?_⟩
  all_goals
    rw [hmain] at h
    cases h

/-- A step of which the completion path takes no notice. -/
theorem Told.congr (h : Told cfg code id s) (hreaper : ∀ c, s'.reaper = some c → c = code)
    (hmain : s'.main = s.main ∨ s'.main = s.main.notify) {more : List Outbound}
    (hout : s'.out = s.out ++ more) : Told cfg code id s' := by
  have hreaps : s'.main.reaps = s.main.reaps := by
    rcases hmain with hm | hm
    · rw [hm]
    · rw [hm]
      cases s.main <;> rfl
  have hexit : s'.main.exit = s.main.exit := by
    rcases hmain with hm | hm
    · rw [hm]
    · rw [hm, notify_exit]
  have hover : s'.main.over = s.main.over := by
    rcases hmain with hm | hm
    · rw [hm]
    · rw [hm, notify_over]
  refine ⟨hreaper, fun he => h.exec (hreaps ▸ he), fun exit he => h.exit exit (hexit ▸ he),
    fun exit stdout stderr error hf => ?_, fun ho => ?_⟩
  · rcases hmain with hm | hm
    · exact h.error exit stdout stderr error (hm.symm.trans hf)
    · exact h.error exit stdout stderr error (notify_eq_finishing (hm.symm.trans hf))
  · obtain ⟨pre, post, hold⟩ := h.after (hover ▸ ho)
    exact ⟨pre, post ++ more, by rw [hout, hold, List.append_assoc, List.cons_append]⟩

/-- A step of the completion path alone. -/
theorem Told.goto (h : Told cfg code id s) (herror : ErrorOpen id s l) (hgoto : Goto cfg s l m) :
    Told cfg code id { s with main := m } := by
  have hmove (hreaps : m.reaps = true → cfg.attach = false)
      (hexit : ∀ exit, m.exit = some exit → exit = cfg.verdict code)
      (hids : ∀ exit stdout stderr error, m = .finishing exit stdout stderr error →
        error = some id) : Told cfg code id { s with main := m } :=
    ⟨h.reaper, hreaps, hexit, hids, fun hover => h.after (hgoto.over hover)⟩
  have hexec (hattach : cfg.attach = false) : cfg.verdict code = code.getD (-1) := by
    unfold Config.verdict
    rw [hattach]
    rfl
  have hzero (hattach : cfg.attach = true) : cfg.verdict code = 0 := by
    unfold Config.verdict
    rw [hattach]
    rfl
  cases hgoto with
  | drained hnext =>
    rcases hnext.inv with ⟨hattach, -, rfl⟩ | ⟨hattach, -, rfl⟩ | ⟨hmain, rfl⟩ | ⟨exit, hmain, rfl⟩
    · exact hmove (fun hr => by cases hr) (fun exit he => by cases he; exact (hzero hattach).symm)
        fun _ _ _ _ hf => by cases hf
    · exact hmove (fun _ => hattach) (fun exit he => by cases he) fun _ _ _ _ hf => by cases hf
    · exact hmove (fun _ => h.exec (by rw [hmain]; rfl)) (fun exit he => by cases he)
        fun _ _ _ _ hf => by cases hf
    · refine hmove (fun hr => by cases hr) (fun e he => ?_) fun _ _ _ _ hf => by cases hf
      obtain rfl := Option.some.inj he
      exact h.exit exit (by rw [hmain]; rfl)
  | @exit c hmain hreaper =>
    obtain rfl := h.reaper c hreaper
    refine hmove (fun hr => by cases hr) (fun e he => ?_) fun _ _ _ _ hf => by cases hf
    obtain rfl := Option.some.inj he
    exact (hexec (h.exec (by rw [hmain]; rfl))).symm
  | @snapshot exit hmain =>
    refine hmove (fun hr => by cases hr) (fun e he => ?_) fun e _ _ error hf => ?_
    · obtain rfl := Option.some.inj he
      exact h.exit exit (by rw [hmain]; rfl)
    · obtain ⟨-, -, -, rfl⟩ := Main.finishing.inj hf
      exact herror rfl (by rw [hmain]; rfl)
  | detachAttach hattach =>
    exact hmove (fun hr => by cases hr) (fun exit he => by cases he; exact (hzero hattach).symm)
      fun _ _ _ _ hf => by cases hf
  | detachExec hattach =>
    exact hmove (fun _ => hattach) (fun exit he => by cases he) fun _ _ _ _ hf => by cases hf
  | @reaped c hattach hmain hreaper =>
    obtain rfl := h.reaper c hreaper
    refine hmove (fun _ => hattach) (fun e he => ?_) fun _ _ _ _ hf => by cases hf
    obtain rfl := Option.some.inj he
    exact (hexec hattach).symm
  | _ =>
    exact hmove (fun hr => by cases hr) (fun exit he => by cases he) fun _ _ _ _ hf => by cases hf

theorem Told.step (h : Told cfg code id s) (hcode : Reaps code l) (herror : ErrorOpen id s l)
    (hstep : Exec.step cfg s l = some s') : Told cfg code id s' := by
  have hnil : ∀ out : List Outbound, out = out ++ [] := fun out => (List.append_nil out).symm
  cases step_cases hstep with
  | ping => exact h.congr h.reaper (.inl rfl) rfl
  | reply => exact h.congr h.reaper (.inl rfl) rfl
  | pumpSend => exact h.congr h.reaper (.inl rfl) rfl
  | tell => exact h.congr h.reaper (.inr rfl) (hnil _)
  | tellPump => exact h.congr h.reaper (.inr rfl) (hnil _)
  | @reap _ c =>
    obtain rfl := hcode c rfl
    exact h.congr (fun c' hc' => (Option.some.inj hc').symm) (.inl rfl) (hnil _)
  | arm =>
    exact ⟨h.reaper, fun hr => (by cases hr), fun exit he => (by cases he),
      fun _ _ _ _ hf => (by cases hf), fun hover => by cases hover⟩
  | @finish exit stdout stderr error hmain =>
    obtain rfl := h.error _ _ _ _ hmain
    obtain rfl := h.exit exit (by rw [hmain]; rfl)
    refine ⟨h.reaper, fun hr => (by cases hr), fun exit he => (by cases he),
      fun _ _ _ _ hf => (by cases hf), fun _ => ⟨s.out ++ ends stdout stderr, [], ?_⟩⟩
    rw [List.append_assoc]
    rfl
  | goto hgoto => exact h.goto herror hgoto
  | _ => exact h.congr h.reaper (.inl rfl) (hnil _)

/-! ## The error stream -/

/-- With a client that opens its streams once, the verdict is all the data on the error stream. -/
structure Spoken (cfg : Config) (code : Option Int32) (id : UInt32) (s : State) : Prop where
  finishing : ∀ exit stdout stderr error, s.main = .finishing exit stdout stderr error →
    (∀ i ∈ stdout, s.roles i = some STDOUT) ∧ (∀ i ∈ stderr, s.roles i = some STDERR) ∧
      ∀ i ∈ error, s.roles i = some ERROR
  before : s.main.over = false → ∀ i flags data, Outbound.data i flags data ∈ s.out →
    ∃ o : Output, s.roles i = some o.channel
  after : s.main.over = true → s.roles id = some ERROR ∧
    dataOn id s.out = [(FLAG_FIN, exitStatusJson (cfg.verdict code))]

theorem Spoken.init (hsession : cfg.session = some session) (w : World) :
    Spoken cfg code id (init cfg w) := by
  have hmain : (Exec.init cfg w).main = .arming := by
    unfold Exec.init
    rw [hsession]
    rfl
  refine ⟨fun _ _ _ _ h => ?_, fun _ i flags data h => (by cases h), fun h => ?_⟩
  all_goals
    rw [hmain] at h
    cases h

/-- A step that writes no data but that of outputs. -/
theorem Spoken.frames (h : Spoken cfg code id s) (hstreams : Streams cfg s)
    (hstep : Exec.step cfg s l = some s') (hover : s'.main.over = true → s.main.over = true)
    {more : List Outbound} (hout : s'.out = s.out ++ more)
    (hmore : ∀ i flags data, Outbound.data i flags data ∈ more →
      ∃ o : Output, s'.roles i = some o.channel) : Spoken cfg code id s' where
  finishing exit stdout stderr error hmain := by
    rcases finishing_of_step hstep hmain with hold | ⟨rfl, rfl, rfl⟩
    · obtain ⟨hstdout, hstderr, herror⟩ := h.finishing _ _ _ _ hold
      exact ⟨fun i hi => roles_step hstreams (hstdout i hi) hstep,
        fun i hi => roles_step hstreams (hstderr i hi) hstep,
        fun i hi => roles_step hstreams (herror i hi) hstep⟩
    · exact ⟨fun i hi => roles_step hstreams (hstreams.roles _ _ hi) hstep,
        fun i hi => roles_step hstreams (hstreams.roles _ _ hi) hstep,
        fun i hi => roles_step hstreams (hstreams.roles _ _ hi) hstep⟩
  before hbefore i flags data hf := by
    have hbefore : s.main.over = false := by
      by_contra hne
      cases hbefore.symm.trans (over_step (Bool.of_not_eq_false hne) hstep)
    rw [hout] at hf
    rcases List.mem_append.mp hf with hold | hnew
    · obtain ⟨o, ho⟩ := h.before hbefore i flags data hold
      exact ⟨o, roles_step hstreams ho hstep⟩
    · exact hmore i flags data hnew
  after hafter := by
    obtain ⟨hrole, hdata⟩ := h.after (hover hafter)
    have hrole' := roles_step hstreams hrole hstep
    have hnone : dataOn id more = [] := by
      refine dataOn_eq_nil fun flags data hf => ?_
      obtain ⟨o, ho⟩ := hmore id flags data hf
      cases o <;> cases hrole'.symm.trans ho
    exact ⟨hrole', by rw [hout, dataOn_append, hdata, hnone]; rfl⟩

theorem dataOn_error {exit : Int32} {stdout stderr : Option UInt32}
    (hstdout : ∀ i ∈ stdout, s.roles i = some STDOUT)
    (hstderr : ∀ i ∈ stderr, s.roles i = some STDERR) (herror : s.roles id = some ERROR) :
    dataOn id (fins exit stdout stderr (some id)) = [(FLAG_FIN, exitStatusJson exit)] := by
  have hne : stdout ≠ some id := by
    rintro rfl
    cases (hstdout id rfl).symm.trans herror
  have hne' : stderr ≠ some id := by
    rintro rfl
    cases (hstderr id rfl).symm.trans herror
  unfold fins
  rw [dataOn_append, dataOn_append, dataOn_end, dataOn_end, dataOn_end, if_neg hne, if_neg hne',
    if_pos rfl]
  rfl

theorem Spoken.step (h : Spoken cfg code id s) (htold : Told cfg code id s)
    (hstreams : Streams cfg s) (hpumps : Pumps s) (hstep : Exec.step cfg s l = some s') :
    Spoken cfg code id s' := by
  have hnil : s.out = s.out ++ [] := (List.append_nil _).symm
  have hnone : ∀ (s' : State) i flags data, Outbound.data i flags data ∈ ([] : List Outbound) →
      ∃ o : Output, s'.roles i = some o.channel := fun _ _ _ _ hf => by cases hf
  cases step_cases hstep with
  | ping =>
    refine h.frames hstreams hstep (fun hover => hover) rfl fun i flags data hf => ?_
    cases List.mem_singleton.mp hf
  | reply =>
    refine h.frames hstreams hstep (fun hover => hover) rfl fun i flags data hf => ?_
    cases List.mem_singleton.mp hf
  | @pumpSend o i bytes hpump =>
    refine h.frames hstreams hstep (fun hover => hover) rfl fun i' flags data hf => ?_
    obtain ⟨rfl, -, -⟩ := Outbound.data.inj (List.mem_singleton.mp hf)
    exact ⟨o, hpumps.roles o _ hpump⟩
  | tell =>
    exact h.frames hstreams hstep (fun hover => (notify_over _).symm.trans hover) hnil (hnone _)
  | tellPump =>
    exact h.frames hstreams hstep (fun hover => (notify_over _).symm.trans hover) hnil (hnone _)
  | arm => exact h.frames hstreams hstep (fun hover => by cases hover) hnil (hnone _)
  | @finish exit stdout stderr error hmain =>
    obtain rfl := htold.error _ _ _ _ hmain
    obtain rfl := htold.exit exit (by rw [hmain]; rfl)
    obtain ⟨hstdout, hstderr, herror⟩ := h.finishing _ _ _ _ hmain
    have hrole := herror id rfl
    refine ⟨fun _ _ _ _ hf => (by cases hf), fun hb => (by cases hb), fun _ => ⟨hrole, ?_⟩⟩
    have hsilent : dataOn id s.out = [] := by
      refine dataOn_eq_nil fun flags data hf => ?_
      obtain ⟨o, ho⟩ := h.before (by rw [hmain]; rfl) id flags data hf
      cases o <;> cases hrole.symm.trans ho
    dsimp only
    rw [dataOn_append, hsilent, dataOn_error hstdout hstderr hrole]
    rfl
  | goto hgoto => exact h.frames hstreams hstep hgoto.over hnil (hnone _)
  | _ => exact h.frames hstreams hstep (fun hover => hover) hnil (hnone _)

/-! ## Both transports -/

/-- **What the two transports report** of a session whose waiter returns the code: on a WebSocket
its exit code; on SPDY, on the stream that is open as the error stream when the outputs are drained,
the exit code of an exec and 0 for an attach. A session that is refused is reported on a WebSocket
with the message of the factory. -/
theorem verdicts (cfg : Config) (hsession : cfg.session = some session) (code : Option Int32)
    (base64 : Bool) (world world' : World) {ws : List WebSocket.Label} {w : WebSocket.State}
    (hwaits : ∀ l ∈ ws, WebSocket.Waits code l)
    (hws : run (WebSocket.step session base64) (WebSocket.start (.ok session) world) ws = some w)
    (hdone : w.pc = .done) {ls : List Label} {id : UInt32} (hreaps : ∀ l ∈ ls, Reaps code l)
    (herror : Along (step cfg) (ErrorOpen id) (init cfg world') ls)
    (hrun : run (step cfg) (init cfg world') ls = some s) (hover : s.main.over = true) :
    WebSocket.errors w.sent = [exitStatusJson (code.getD (-1))] ∧
      (∃ pre post,
        s.out = pre ++ .data id FLAG_FIN (exitStatusJson (cfg.verdict code)) :: post) ∧
      (Along (step cfg) (Opens cfg) (init cfg world') ls →
        dataOn id s.out = [(FLAG_FIN, exitStatusJson (cfg.verdict code))]) ∧
      ∀ message world ws w, run (WebSocket.step session base64)
        (WebSocket.start (.error message) world) ws = some w →
        WebSocket.errors w.sent = [utf8 message] := by
  have htold : Told cfg code id s :=
    invariant_run (P := fun s l => Reaps code l ∧ ErrorOpen id s l)
      (fun _ _ _ h hl hstep => h.step hl.1 hl.2 hstep) (Told.init hsession world')
      (herror.and_labels hreaps) hrun
  refine ⟨WebSocket.errors_done hwaits hws hdone, htold.after hover, fun hopens => ?_,
    fun _ _ _ _ h => WebSocket.errors_refused h⟩
  have h : Told cfg code id s ∧ Streams cfg s ∧ Pumps s ∧ Spoken cfg code id s := by
    refine invariant_run
      (I := fun s => Told cfg code id s ∧ Streams cfg s ∧ Pumps s ∧ Spoken cfg code id s)
      (P := fun s l => (Reaps code l ∧ ErrorOpen id s l) ∧ Opens cfg s l)
      (fun t l t' h hl hstep => ?_)
      ⟨.init hsession _, .init cfg _, .init cfg _, .init hsession _⟩
      ((herror.and_labels hreaps).and hopens) hrun
    obtain ⟨htold, hstreams, hpumps, hspoken⟩ := h
    obtain ⟨⟨hreaps, herror⟩, hopens⟩ := hl
    exact ⟨htold.step hreaps herror hstep, hstreams.step hopens hstep,
      hpumps.step hstreams hstep, hspoken.step htold hstreams hpumps hstep⟩
  exact (h.2.2.2.after hover).2

/-- A process that writes nothing and fails. -/
def failRun (code : Int32) : List Label :=
  openedRun ++ [Label.process (.exit code), .pumpEof .stdout, .reap (some code), .pumpEof .stderr]

def failSocketRun (code : Int32) : List WebSocket.Label :=
  [.process (.exit code), .eof .stdout, .eof .stderr, .waited (some code)]

theorem verdicts_fail : ∃ s w,
    run (step printConfig) (init printConfig (.init 4 4 4))
      (failRun 3 ++ List.replicate 5 Label.main) = some s ∧
    run (WebSocket.step ⟨false, true, true, false, .child⟩ false)
      (WebSocket.start (.ok ⟨false, true, true, false, .child⟩) (.init 4 4 4)) (failSocketRun 3) =
        some w ∧
    WebSocket.errors w.sent = [exitStatusJson 3] ∧
    dataOn 1 s.out = [(FLAG_FIN, exitStatusJson 3)] := by
  have hopens : Along (step printConfig) (Opens printConfig) (init printConfig (.init 4 4 4))
      (failRun 3 ++ List.replicate 5 Label.main) := by
    decide +kernel
  have herror : Along (step printConfig) (ErrorOpen 1) (init printConfig (.init 4 4 4))
      (failRun 3 ++ List.replicate 5 Label.main) := by
    decide +kernel
  have hwaits : ∀ l ∈ failSocketRun 3, WebSocket.Waits (some 3) l := by
    unfold failSocketRun WebSocket.Waits
    simp
  have hreaps : ∀ l ∈ failRun 3 ++ List.replicate 5 Label.main, Reaps (some 3) l := by
    unfold failRun openedRun opening Reaps
    simp
  obtain ⟨hsocket, -, hspdy, -⟩ := verdicts printConfig rfl (some 3) false (.init 4 4 4)
    (.init 4 4 4) hwaits rfl rfl hreaps herror rfl rfl
  exact ⟨_, _, rfl, rfl, hsocket, hspdy hopens⟩

/-- **An attach is reported differently**: the waiter of an attach to pipes returns the exit code of
the container, which a WebSocket reports and SPDY does not. -/
theorem attach_verdicts_differ : ∃ s w,
    Along (step attachConfig) (Opens attachConfig) (init attachConfig (.init 4 4 4))
      (failRun 3 ++ List.replicate 4 Label.main) ∧
    run (step attachConfig) (init attachConfig (.init 4 4 4))
      (failRun 3 ++ List.replicate 4 Label.main) = some s ∧
    s.main.over = true ∧ s.gone = false ∧ s.byRole ERROR = some 1 ∧ s.reaper = some (some 3) ∧
    run (WebSocket.step ⟨false, true, true, false, .leavesRunning⟩ false)
      (WebSocket.start (.ok ⟨false, true, true, false, .leavesRunning⟩) (.init 4 4 4))
      (failSocketRun 3) = some w ∧
    w.pc = .done ∧ WebSocket.errors w.sent = [exitStatusJson 3] ∧
    dataOn 1 s.out = [(FLAG_FIN, exitStatusJson 0)] ∧ exitStatusJson 3 ≠ exitStatusJson 0 := by
  have hopens : Along (step attachConfig) (Opens attachConfig) (init attachConfig (.init 4 4 4))
      (failRun 3 ++ List.replicate 4 Label.main) := by
    decide +kernel
  exact ⟨_, _, hopens, rfl, rfl, rfl, rfl, rfl, rfl, rfl, by decide +kernel, by decide +kernel,
    by decide +kernel⟩

end LightrCri.Spdy.Exec

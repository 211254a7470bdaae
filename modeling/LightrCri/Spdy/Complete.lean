import LightrCri.Spdy.Fin
import LightrCri.Spdy.Gates

/-!
# Output before the verdict, on SPDY

An exec whose client opens the expected roles, keeps reading and resets nothing, and in which no
backstop fires before the verdict (`Conforms`). The barrier waits for the roles, the gate for the
pumps of all outputs of the session, and every way out of the completion select awaits them
(`Staged`); a pump carries what it reads to the stream of its output, and nothing else does before
the verdict (`Carried`). So when the verdict is written, the streams of the outputs have carried all
of the output and were ended (`Inv.complete`).
-/

namespace LightrCri.Spdy.Exec

open Foundations LightrCri.Stream Function

variable {cfg : Config} {session : StreamSession} {s s' : State} {l : Label}

/-! ## What stays as it is -/

/-- The stream of an expected role stays. -/
theorem byRole_step (hstreams : Streams cfg s) {r : UInt8} (hr : r ∈ cfg.expectedRoles)
    (h : s.byRole r ≠ none) (hstep : step cfg s l = some s') : s'.byRole r = s.byRole r := by
  cases step_cases hstep with
  | @insert id r' hloop =>
    dsimp only
    rw [update_of_ne]
    rintro rfl
    exact h ((hstreams.current (by rw [hloop]; rfl)).2 hr)
  | _ => rfl

theorem pumpEnded_step {o : Output} (h : s.pumpEnded o = true)
    (hstep : step cfg s l = some s') (hraw : s.raw o = true → s.pumps o = none) :
    s'.pumpEnded o = true := by
  unfold State.pumpEnded at h ⊢
  obtain ⟨p, hp, hended⟩ := (Option.any_eq_true _ _).mp h
  have hpump : ∀ o' q, (∃ q, s.pumps o' = some q ∧ q.isEnded = false) →
      (update s.pumps o' q o).any Pump.isEnded = true := by
    intro o' q ⟨q', hq', hlive⟩
    have hne : o ≠ o' := by
      rintro rfl
      obtain rfl := Option.some.inj (hp.symm.trans hq')
      cases hended.symm.trans hlive
    rw [update_of_ne hne]
    exact h
  cases step_cases hstep with
  | @spawn id r o' hloop ho hraw' =>
    have hne : o ≠ o' := by
      rintro rfl
      cases (hraw hraw').symm.trans hp
    dsimp only
    rw [update_of_ne hne]
    exact h
  | pumpRead hpump' => exact hpump _ _ ⟨_, hpump', rfl⟩
  | pumpSend hpump' => exact hpump _ _ ⟨_, hpump', rfl⟩
  | pumpFail hpump' => exact hpump _ _ ⟨_, hpump', rfl⟩
  | pumpEof hpump' => exact hpump _ _ ⟨_, hpump', rfl⟩
  | _ => exact h

theorem reaper_step {code : Option Int32} (h : s.reaper = some code)
    (hstep : step cfg s l = some s') : s'.reaper = some code := by
  cases step_cases hstep with
  | reap _ hreaper => cases hreaper.symm.trans h
  | _ => exact h

/-! ## The client -/

/-- The client opens its streams, keeps reading and resets nothing, and the backstops of the barrier
and of the gate do not fire. -/
def Conforms (cfg : Config) (s : State) (l : Label) : Prop :=
  Opens cfg s l ∧
    match l with
    | .client f => quits f = false
    | .hangUp => False
    | .timeout => s.main = .grace
    | _ => True

instance : Decidable (Conforms cfg s l) :=
  match l with
  | .client f => inferInstanceAs (Decidable (Opens cfg s (.client f) ∧ quits f = false))
  | .hangUp => inferInstanceAs (Decidable (Opens cfg s .hangUp ∧ False))
  | .timeout => inferInstanceAs (Decidable (Opens cfg s .timeout ∧ s.main = .grace))
  | .halfClose | .readLoop | .accept _ | .broken | .flushed | .pumpRead _ _ | .pumpSend _
  | .pumpFail _ | .pumpEof _ | .reap _ | .main | .detached | .reaped | .process _ =>
    inferInstanceAs (Decidable (_ ∧ True))

/-- The read loop ends with what the client has sent. -/
structure Orderly (s : State) : Prop where
  stays : s.gone = false
  inbox : ∀ f ∈ s.inbox, quits f = false
  left : s.readLoop = .leaving ∨ s.readLoop = .ended → s.inbox = [] ∧ s.eof = true

theorem Orderly.init (cfg : Config) (w : World) : Orderly (init cfg w) where
  stays := rfl
  inbox f h := by cases h
  left h := by rcases h with h | h <;> cases h

theorem Orderly.step (h : Orderly s) (hl : Conforms cfg s l) (hstep : Exec.step cfg s l = some s') :
    Orderly s' := by
  have htail : ∀ {f inbox}, s.inbox = f :: inbox → ∀ g ∈ inbox, quits g = false := by
    intro f inbox hinbox g hg
    exact h.inbox g (hinbox ▸ List.mem_cons_of_mem _ hg)
  cases step_cases hstep with
  | client heof =>
    refine ⟨h.stays, fun g hg => ?_, fun hleft => ?_⟩
    · rcases List.mem_append.mp hg with hold | hnew
      · exact h.inbox g hold
      · rw [List.mem_singleton.mp hnew]
        exact hl.2
    · cases heof.symm.trans (h.left hleft).2
  | halfClose => exact ⟨h.stays, h.inbox, fun hleft => ⟨(h.left hleft).1, rfl⟩⟩
  | hangUp => exact hl.2.elim
  | opening _ hinbox => exact ⟨h.stays, htail hinbox, fun hleft => by rcases hleft with h | h <;> cases h⟩
  | stdin _ hinbox => exact ⟨h.stays, htail hinbox, fun hleft => by rcases hleft with h | h <;> cases h⟩
  | data _ hinbox => exact ⟨h.stays, htail hinbox, fun hleft => by rcases hleft with h | h <;> cases h⟩
  | ping hloop hinbox =>
    refine ⟨h.stays, htail hinbox, fun hleft => ?_⟩
    dsimp only at hleft
    rw [hloop] at hleft
    rcases hleft with h | h <;> cases h
  | quit _ hinbox hf =>
    have hno := h.inbox _ (hinbox ▸ List.mem_cons_self)
    cases hf.symm.trans hno
  | eof _ hinbox heof => exact ⟨h.stays, h.inbox, fun _ => ⟨hinbox, heof⟩⟩
  | reply => exact ⟨h.stays, h.inbox, fun hleft => by rcases hleft with h | h <;> cases h⟩
  | insert => exact ⟨h.stays, h.inbox, fun hleft => by rcases hleft with h | h <;> cases h⟩
  | tell => exact ⟨h.stays, h.inbox, fun hleft => by rcases hleft with h | h <;> cases h⟩
  | spawn => exact ⟨h.stays, h.inbox, fun hleft => by rcases hleft with h | h <;> cases h⟩
  | noSpawn => exact ⟨h.stays, h.inbox, fun hleft => by rcases hleft with h | h <;> cases h⟩
  | push => exact ⟨h.stays, h.inbox, fun hleft => by rcases hleft with h | h <;> cases h⟩
  | tellPump => exact ⟨h.stays, h.inbox, fun hleft => by rcases hleft with h | h <;> cases h⟩
  | leave hloop => exact ⟨h.stays, h.inbox, fun _ => h.left (.inl hloop)⟩
  | accept => exact ⟨h.stays, h.inbox, fun hleft => by rcases hleft with h | h <;> cases h⟩
  | broken => exact ⟨h.stays, h.inbox, fun hleft => by rcases hleft with h | h <;> cases h⟩
  | flushed => exact ⟨h.stays, h.inbox, fun hleft => by rcases hleft with h | h <;> cases h⟩
  | _ => exact ⟨h.stays, h.inbox, h.left⟩

/-! ## The stages of the completion path -/

def Main.stage : Main → Nat
  | .arming => 0
  | .barrier _ => 1
  | .gate _ => 2
  | .select => 3
  | .draining _ => 4
  | .exiting => 5
  | .snapshot _ => 6
  | .finishing _ _ _ _ => 7
  | .grace => 8
  | .done => 9

/-- The exit code that the completion path has. -/
def Main.exit : Main → Option Int32
  | .draining exit => exit
  | .snapshot exit => some exit
  | .finishing exit _ _ _ => some exit
  | _ => none

structure Staged (cfg : Config) (session : StreamSession) (s : State) : Prop where
  roles : 2 ≤ s.main.stage → s.allRoles cfg = true
  untaken : s.main.stage ≤ 2 → s.drain = none
  tasks : 3 ≤ s.main.stage → s.drain = none → ∀ o, session.has o = true → o ∈ s.tasks
  drain : 3 ≤ s.main.stage → ∀ pumps ∈ s.drain, ∀ o, session.has o = true → o ∈ pumps
  drained : 5 ≤ s.main.stage → ∀ o, session.has o = true → s.pumpEnded o = true
  exit : ∀ exit ∈ s.main.exit, ∃ code, s.reaper = some code ∧ exit = code.getD (-1)
  ids : ∀ exit stdout stderr error, s.main = .finishing exit stdout stderr error →
    stdout = s.byRole STDOUT ∧ error = s.byRole ERROR ∧ (cfg.tty = false → stderr = s.byRole STDERR)

theorem Staged.init (hsession : cfg.session = some session) (w : World) :
    Staged cfg session (init cfg w) := by
  have hmain : (Exec.init cfg w).main = .arming := by
    unfold Exec.init
    rw [hsession]
    rfl
  refine ⟨fun h => ?_, fun _ => rfl, fun h => ?_, fun h => ?_, fun h => ?_, fun exit h => ?_,
    fun _ _ _ _ h => ?_⟩
  all_goals
    rw [hmain] at h
    cases h

theorem expected_stdout (cfg : Config) : STDOUT ∈ cfg.expectedRoles :=
  List.mem_append_left _ (List.mem_append_left _ (by decide))

theorem expected_error (cfg : Config) : ERROR ∈ cfg.expectedRoles :=
  List.mem_append_left _ (List.mem_append_left _ (by decide))

theorem expected_stderr (htty : cfg.tty = false) : STDERR ∈ cfg.expectedRoles := by
  unfold Config.expectedRoles
  rw [htty]
  exact List.mem_append_right _ (by decide)

theorem allRoles_iff : s.allRoles cfg = true ↔ ∀ r ∈ cfg.expectedRoles, s.byRole r ≠ none := by
  unfold State.allRoles
  rw [List.all_eq_true]
  simp only [Option.isSome_iff_ne_none]

theorem notify_stage (m : Main) : m.notify.stage = m.stage := by cases m <;> rfl

theorem notify_exit (m : Main) : m.notify.exit = m.exit := by cases m <;> rfl

/-- A step of which the completion path takes no notice. -/
theorem Staged.congr (h : Staged cfg session s) (hstreams : Streams cfg s)
    (hregistered : Registered session s)
    (hstep : step cfg s l = some s') (hstage : s'.main.stage = s.main.stage)
    (hexit : s'.main.exit = s.main.exit)
    (hfinishing : ∀ exit stdout stderr error, s'.main = .finishing exit stdout stderr error →
      s.main = .finishing exit stdout stderr error)
    (htasks : ∀ o ∈ s.tasks, o ∈ s'.tasks) (hdrain : s'.drain = s.drain) :
    Staged cfg session s' where
  roles hle := by
    rw [allRoles_iff]
    intro r hr
    have hold := allRoles_iff.mp (h.roles (hstage ▸ hle)) r hr
    rw [byRole_step hstreams hr hold hstep]
    exact hold
  untaken hle := by
    rw [hdrain]
    exact h.untaken (hstage ▸ hle)
  tasks hle hnone o ho := htasks o (h.tasks (hstage ▸ hle) (hdrain ▸ hnone) o ho)
  drain hle := by
    rw [hdrain]
    exact h.drain (hstage ▸ hle)
  drained hle o ho := pumpEnded_step (h.drained (hstage ▸ hle) o ho) hstep (hregistered.raw o)
  exit exit he := by
    obtain ⟨code, hcode, heq⟩ := h.exit exit (hexit ▸ he)
    exact ⟨code, reaper_step hcode hstep, heq⟩
  ids exit stdout stderr error hmain := by
    have hmain := hfinishing _ _ _ _ hmain
    obtain ⟨hout, herror, herr⟩ := h.ids _ _ _ _ hmain
    have hroles := allRoles_iff.mp (h.roles (by rw [hmain]; exact Nat.le_add_left 2 5))
    refine ⟨?_, ?_, fun htty => ?_⟩
    · rw [byRole_step hstreams (expected_stdout cfg) (hroles _ (expected_stdout cfg)) hstep]
      exact hout
    · rw [byRole_step hstreams (expected_error cfg) (hroles _ (expected_error cfg)) hstep]
      exact herror
    · rw [byRole_step hstreams (expected_stderr htty) (hroles _ (expected_stderr htty)) hstep]
      exact herr htty

theorem notify_eq_finishing {m : Main} {exit : Int32} {stdout stderr error : Option UInt32}
    (h : m.notify = .finishing exit stdout stderr error) :
    m = .finishing exit stdout stderr error := by
  cases m <;> first | exact h | cases h

/-- At the gates. -/
theorem Staged.early {m : Main} (hstage : m.stage ≤ 2)
    (hroles : m.stage ≤ 1 ∨ s.allRoles cfg = true) (hdrain : s.drain = none)
    (hexit : m.exit = none) : Staged cfg session { s with main := m } where
  roles hle := hroles.resolve_left fun h => by dsimp only at hle; omega
  untaken _ := hdrain
  tasks hle := by dsimp only at hle; omega
  drain hle := by dsimp only at hle; omega
  drained hle := by dsimp only at hle; omega
  exit exit he := by cases hexit.symm.trans he
  ids _ _ _ _ hmain := by
    dsimp only at hmain
    rw [hmain] at hexit
    cases hexit

/-- Past the gates and before the end of the drain. -/
theorem Staged.middle (h : Staged cfg session s) (hselect : s.main = .select) {m : Main}
    (hstage : m.stage = 3 ∨ m.stage = 4)
    (hexit : ∀ exit ∈ m.exit, ∃ code, s.reaper = some code ∧ exit = code.getD (-1)) :
    Staged cfg session { s with main := m } where
  roles _ := h.roles (by rw [hselect]; decide)
  untaken hle := by dsimp only at hle; omega
  tasks _ := h.tasks (by rw [hselect]; decide)
  drain _ := h.drain (by rw [hselect]; decide)
  drained hle := by dsimp only at hle; omega
  exit := hexit
  ids _ _ _ _ hmain := by
    dsimp only at hmain
    rw [hmain] at hstage
    rcases hstage with h | h <;> cases h

/-- Past the drain. -/
theorem Staged.late (h : Staged cfg session s) (hbefore : 3 ≤ s.main.stage)
    (hended : ∀ o, session.has o = true → s.pumpEnded o = true) {m : Main} (hstage : 5 ≤ m.stage)
    (hexit : ∀ exit ∈ m.exit, ∃ code, s.reaper = some code ∧ exit = code.getD (-1))
    (hids : ∀ exit stdout stderr error, m = .finishing exit stdout stderr error →
      stdout = s.byRole STDOUT ∧ error = s.byRole ERROR ∧
        (cfg.tty = false → stderr = s.byRole STDERR)) :
    Staged cfg session { s with main := m } where
  roles _ := h.roles (by omega)
  untaken hle := by dsimp only at hle; omega
  tasks _ := h.tasks hbefore
  drain _ := h.drain hbefore
  drained _ := hended
  exit := hexit
  ids := hids

/-- **One step** of the completion path of an exec. -/
theorem Staged.goto (h : Staged cfg session s) (hexec : cfg.attach = false)
    (hsession : cfg.session = some session) (htty : session.stderr = true → cfg.tty = false)
    (hregistered : Registered session s) (hl : Conforms cfg s l) {m : Main}
    (hgoto : Goto cfg s l m) : Staged cfg session { s with main := m } := by
  have huntaken : ∀ {n : Main}, s.main = n → n.stage ≤ 2 → s.drain = none := by
    rintro n hmain hle
    exact h.untaken (by rw [hmain]; exact hle)
  have hended : ∀ {pumps : List Output}, 3 ≤ s.main.stage → s.drain = some pumps →
      (∀ o ∈ pumps, s.pumpEnded o = true) → ∀ o, session.has o = true → s.pumpEnded o = true :=
    fun hle hdrain hpumps o ho => hpumps o (h.drain hle _ hdrain o ho)
  cases hgoto with
  | armBarrier hmain =>
    exact .early (by decide) (.inl le_rfl) (huntaken hmain (by decide)) rfl
  | rolesIn hmain hroles =>
    exact .early le_rfl (.inr hroles) (huntaken hmain (Nat.le_succ 1)) rfl
  | rolesOut hmain => exact .early (Nat.le_succ 1) (.inl le_rfl) (huntaken hmain (Nat.le_succ 1)) rfl
  | wakeBarrier hmain =>
    exact .early (by decide) (.inl le_rfl) (huntaken hmain (by decide)) rfl
  | armGate hmain =>
    exact .early le_rfl (.inr (h.roles (by rw [hmain]; decide))) (huntaken hmain le_rfl) rfl
  | pumpsIn hmain hpumps =>
    have hnone := huntaken hmain le_rfl
    refine ⟨fun _ => h.roles (by rw [hmain]; exact le_rfl), fun _ => hnone,
      fun _ _ => (hregistered.allPumps hsession htty).mp hpumps, fun _ pumps hp => ?_,
      fun hle => ?_, fun _ he => (by cases he), fun _ _ _ _ he => by cases he⟩
    · cases hnone.symm.trans hp
    · have hle : 5 ≤ 3 := hle
      omega
  | pumpsOut hmain =>
    exact .early le_rfl (.inr (h.roles (by rw [hmain]; exact le_rfl))) (huntaken hmain le_rfl) rfl
  | wakeGate hmain =>
    exact .early le_rfl (.inr (h.roles (by rw [hmain]; decide))) (huntaken hmain le_rfl) rfl
  | drained hnext hdrain hpumps =>
    rcases hnext.inv with ⟨hattach, -⟩ | ⟨-, hmain, rfl⟩ | ⟨hmain, rfl⟩ | ⟨exit, hmain, rfl⟩
    · cases hexec.symm.trans hattach
    · have hle : 3 ≤ s.main.stage := by rw [hmain]; decide
      exact h.late hle (hended hle hdrain hpumps) le_rfl (fun _ he => by cases he)
        fun _ _ _ _ he => by cases he
    · have hle : 3 ≤ s.main.stage := by rw [hmain]; decide
      exact h.late hle (hended hle hdrain hpumps) le_rfl (fun _ he => by cases he)
        fun _ _ _ _ he => by cases he
    · have hle : 3 ≤ s.main.stage := by rw [hmain]; exact Nat.le_succ 3
      refine h.late hle (hended hle hdrain hpumps) (Nat.le_succ 5) (fun e he => ?_)
        fun _ _ _ _ he => by cases he
      exact h.exit e (by rw [hmain]; exact he)
  | exit hmain hreaper =>
    have hle : 5 ≤ s.main.stage := by rw [hmain]; decide
    refine h.late (by omega) (h.drained hle) (Nat.le_succ 5) (fun e he => ?_)
      fun _ _ _ _ he => by cases he
    obtain rfl := Option.some.inj he
    exact ⟨_, hreaper, rfl⟩
  | snapshot hmain =>
    have hle : 5 ≤ s.main.stage := by rw [hmain]; exact Nat.le_succ 5
    refine h.late (by omega) (h.drained hle) (Nat.le_add_right 5 2) (fun e he => ?_)
      fun _ _ _ _ he => ?_
    · exact h.exit e (by rw [hmain]; exact he)
    · obtain ⟨-, rfl, rfl, rfl⟩ := Main.finishing.inj he
      exact ⟨rfl, rfl, fun _ => rfl⟩
  | close hmain =>
    have hle : 5 ≤ s.main.stage := by rw [hmain]; decide
    exact h.late (by omega) (h.drained hle) (by decide) (fun _ he => by cases he)
      fun _ _ _ _ he => by cases he
  | detachAttach hattach => cases hexec.symm.trans hattach
  | detachExec _ _ hmain => exact h.middle hmain (.inr rfl) fun _ he => by cases he
  | reaped _ hmain hreaper =>
    refine h.middle hmain (.inr rfl) fun e he => ?_
    obtain rfl := Option.some.inj he
    exact ⟨_, hreaper, rfl⟩
  | barrierTimeout hmain => cases hmain.symm.trans hl.2
  | gateTimeout hmain => cases hmain.symm.trans hl.2
  | graceTimeout hmain =>
    have hle : 5 ≤ s.main.stage := by rw [hmain]; decide
    exact h.late (by omega) (h.drained hle) (by decide) (fun _ he => by cases he)
      fun _ _ _ _ he => by cases he

theorem Staged.step (h : Staged cfg session s) (hexec : cfg.attach = false)
    (hsession : cfg.session = some session) (htty : session.stderr = true → cfg.tty = false)
    (hstreams : Streams cfg s) (hregistered : Registered session s)
    (hl : Conforms cfg s l) (hstep : Exec.step cfg s l = some s') : Staged cfg session s' := by
  have hsame : ∀ o ∈ s.tasks, o ∈ s.tasks := fun _ ho => ho
  cases step_cases hstep with
  | tell =>
    exact h.congr hstreams hregistered hstep (notify_stage _) (notify_exit _)
      (fun _ _ _ _ he => notify_eq_finishing he) hsame rfl
  | tellPump =>
    exact h.congr hstreams hregistered hstep (notify_stage _) (notify_exit _)
      (fun _ _ _ _ he => notify_eq_finishing he) hsame rfl
  | push =>
    exact h.congr hstreams hregistered hstep rfl rfl (fun _ _ _ _ he => he)
      (fun o ho => List.mem_append_left _ ho) rfl
  | arm hmain =>
    have hearly : Staged cfg session { s with main := .barrier .arm } :=
      .early (by decide) (.inl le_rfl) (h.untaken (by rw [hmain]; decide)) rfl
    exact ⟨hearly.1, hearly.2, hearly.3, hearly.4, hearly.5, hearly.6, hearly.7⟩
  | take hnext hdrain =>
    have hle : 3 ≤ s.main.stage := by
      rcases hnext.inv with ⟨-, hmain, -⟩ | ⟨-, hmain, -⟩ | ⟨hmain, -⟩ | ⟨_, hmain, -⟩ <;>
        rw [hmain] <;> first | decide | exact Nat.le_succ 3
    refine ⟨h.roles, fun hle' => ?_, fun _ hn => (by cases hn), fun _ pumps hp => ?_, h.drained,
      h.exit, h.ids⟩
    · dsimp only at hle'
      omega
    · obtain rfl := Option.some.inj hp
      exact h.tasks hle hdrain
  | finish hmain =>
    have hle : 5 ≤ s.main.stage := by rw [hmain]; exact Nat.le_add_right 5 2
    have hlate : Staged cfg session { s with main := .grace } :=
      h.late (by omega) (h.drained hle) (by decide) (fun _ he => by cases he)
        fun _ _ _ _ he => by cases he
    exact ⟨hlate.1, hlate.2, hlate.3, hlate.4, hlate.5, hlate.6, hlate.7⟩
  | goto hgoto => exact h.goto hexec hsession htty hregistered hl hgoto
  | _ =>
    exact h.congr hstreams hregistered hstep rfl rfl (fun _ _ _ _ he => he) hsame rfl

/-! ## What the streams carry -/

/-- The flags and the payload of a DATA frame on a stream. -/
def dataFrame (id : UInt32) : Outbound → Option (UInt8 × Bytes)
  | .data i flags data => if i = id then some (flags, data) else none
  | _ => none

/-- The DATA frames on a stream. -/
def dataOn (id : UInt32) (out : List Outbound) : List (UInt8 × Bytes) := out.filterMap (dataFrame id)

/-- What the DATA frames on a stream carry. -/
def carried (id : UInt32) (out : List Outbound) : Bytes := (dataOn id out).flatMap Prod.snd

theorem dataOn_append (id : UInt32) (out out' : List Outbound) :
    dataOn id (out ++ out') = dataOn id out ++ dataOn id out' :=
  List.filterMap_append

theorem carried_append (id : UInt32) (out out' : List Outbound) :
    carried id (out ++ out') = carried id out ++ carried id out' := by
  unfold carried
  rw [dataOn_append, List.flatMap_append]

theorem dataOn_eq_nil {id : UInt32} {out : List Outbound}
    (h : ∀ flags data, Outbound.data id flags data ∉ out) : dataOn id out = [] := by
  unfold dataOn
  rw [List.filterMap_eq_nil_iff]
  intro f hf
  unfold dataFrame
  split
  · split
    · rename_i heq
      exact (h _ _ (heq ▸ hf)).elim
    · rfl
  · rfl

theorem mem_dataOn {id : UInt32} {out : List Outbound} {flags : UInt8} {data : Bytes} :
    (flags, data) ∈ dataOn id out ↔ Outbound.data id flags data ∈ out := by
  unfold dataOn
  rw [List.mem_filterMap]
  constructor
  · rintro ⟨f, hf, hon⟩
    unfold dataFrame at hon
    split at hon
    · split at hon
      · rename_i heq
        obtain ⟨rfl, rfl⟩ := Prod.mk.inj (Option.some.inj hon)
        exact heq ▸ hf
      · cases hon
    · cases hon
  · intro hf
    exact ⟨_, hf, if_pos rfl⟩

/-- What a pump holds. -/
def Pump.held : Pump → Bytes
  | .sending _ bytes => bytes
  | _ => []

/-- What was taken from an output: what its stream has carried, and what its pump holds. -/
def State.delivered (s : State) (o : Output) : Bytes :=
  match s.pumps o with
  | some p => carried p.id s.out ++ p.held
  | none => []

/-- The DATA frames are those of pumps, and end no stream. -/
def PumpData (s : State) (out : List Outbound) : Prop :=
  ∀ id flags data, Outbound.data id flags data ∈ out →
    flags = 0 ∧ ∃ o p, s.pumps o = some p ∧ p.id = id

/-- How the verdict was written. -/
structure Verdict (cfg : Config) (s : State) (pre post : List Outbound) (code : Option Int32)
    (stderr : Option UInt32) : Prop where
  out : s.out =
    pre ++ fins (code.getD (-1)) (s.byRole STDOUT) stderr (s.byRole ERROR) ++ post
  pre : PumpData s pre
  post : ∀ id, dataOn id post = []
  code : s.reaper = some code
  same : cfg.tty = false → stderr = s.byRole STDERR
  role : ∀ id ∈ stderr, s.roles id = some STDERR

structure Carried (cfg : Config) (session : StreamSession) (s : State) : Prop where
  sound : s.world.Sound s.delivered
  ended : ∀ o id, s.pumps o = some (.ended id) → (s.world.out o).atEnd
  before : s.main.stage ≤ 7 → PumpData s s.out
  finishing : ∀ exit stdout stderr error, s.main = .finishing exit stdout stderr error →
    ∀ id ∈ stderr, s.roles id = some STDERR
  after : 8 ≤ s.main.stage → ∃ pre post code stderr, Verdict cfg s pre post code stderr

theorem Carried.init (hsession : cfg.session = some session) (stdin stdout stderr : Nat) :
    Carried cfg session (init cfg (.init stdin stdout stderr)) := by
  have hmain : (Exec.init cfg (.init stdin stdout stderr)).main = .arming := by
    unfold Exec.init
    rw [hsession]
    rfl
  refine ⟨.init stdin stdout stderr, fun o id h => (by cases h), fun _ _ _ _ h => (by cases h),
    fun _ _ _ _ h => ?_, fun h => ?_⟩
  all_goals
    rw [hmain] at h
    cases h

/-- The pumps stay, or go on with their streams. -/
theorem PumpData.mono {out : List Outbound} (h : PumpData s out)
    (hpumps : ∀ o p, s.pumps o = some p → ∃ q, s'.pumps o = some q ∧ q.id = p.id) :
    PumpData s' out := by
  intro id flags data hf
  obtain ⟨hflags, o, p, hp, hid⟩ := h id flags data hf
  obtain ⟨q, hq, hqid⟩ := hpumps o p hp
  exact ⟨hflags, o, q, hq, hqid.trans hid⟩

/-- A pump keeps its stream. -/
theorem pumps_step (hregistered : Registered session s) (hstep : step cfg s l = some s') {o : Output} {p : Pump}
    (hp : s.pumps o = some p) : ∃ q, s'.pumps o = some q ∧ q.id = p.id := by
  have hgoOn : ∀ {o' p' q}, s.pumps o' = some p' → q.id = p'.id →
      ∃ q', update s.pumps o' (some q) o = some q' ∧ q'.id = p.id := by
    intro o' p' q hp' hid
    rw [update_apply]
    split
    · rename_i heq
      obtain rfl := Option.some.inj (hp'.symm.trans (heq ▸ hp))
      exact ⟨q, rfl, hid⟩
    · exact ⟨p, hp, rfl⟩
  cases step_cases hstep with
  | @spawn id r o' hloop ho hraw =>
    have hne : o ≠ o' := by
      rintro rfl
      cases (hregistered.raw o hraw).symm.trans hp
    exact ⟨p, by dsimp only; rw [update_of_ne hne]; exact hp, rfl⟩
  | pumpRead hp' => exact hgoOn hp' rfl
  | pumpSend hp' => exact hgoOn hp' rfl
  | pumpFail hp' => exact hgoOn hp' rfl
  | pumpEof hp' => exact hgoOn hp' rfl
  | _ => exact ⟨p, hp, rfl⟩

/-- What is written after the verdict carries no data: all pumps have ended. -/
theorem Verdict.step {pre post : List Outbound} {code : Option Int32} {stderr : Option UInt32}
    (h : Verdict cfg s pre post code stderr) (hstreams : Streams cfg s)
    (hregistered : Registered session s)
    (hroles : s.allRoles cfg = true) (hstep : Exec.step cfg s l = some s') {more : List Outbound}
    (hout : s'.out = s.out ++ more) (hmore : ∀ id, dataOn id more = []) :
    Verdict cfg s' pre (post ++ more) code stderr := by
  have hids := allRoles_iff.mp hroles
  have hout' := byRole_step hstreams (expected_stdout cfg) (hids _ (expected_stdout cfg)) hstep
  have herror' := byRole_step hstreams (expected_error cfg) (hids _ (expected_error cfg)) hstep
  refine ⟨?_, h.pre.mono fun o p hp => pumps_step hregistered hstep hp, fun id => ?_,
    reaper_step h.code hstep, fun htty => ?_, fun id hid => roles_step hstreams (h.role id hid) hstep⟩
  · rw [hout, hout', herror', h.out, List.append_assoc, List.append_assoc]
  · rw [dataOn_append, h.post, hmore]
    rfl
  · rw [h.same htty]
    exact (byRole_step hstreams (expected_stderr htty) (hids _ (expected_stderr htty)) hstep).symm

theorem over_iff {m : Main} : m.over = true ↔ 8 ≤ m.stage := by
  cases m with
  | grace => exact ⟨fun _ => by decide, fun _ => rfl⟩
  | done => exact ⟨fun _ => by decide, fun _ => rfl⟩
  | _ => exact ⟨fun h => (by cases h), fun h => absurd h (by simp [Main.stage])⟩

theorem Goto.over {m : Main} (h : Goto cfg s l m) (hover : m.over = true) : s.main.over = true := by
  cases h with
  | close hmain => rw [hmain]; rfl
  | graceTimeout hmain => rw [hmain]; rfl
  | drained hnext =>
    rcases hnext.target with rfl | ⟨_, rfl⟩ <;> cases hover
  | _ => cases hover

/-- The frames of a step that writes no data. -/
theorem Carried.frames (h : Carried cfg session s) (hstreams : Streams cfg s)
    (hregistered : Registered session s)
    (hstaged : Staged cfg session s) (hstep : step cfg s l = some s')
    (hover : s'.main.over = true → s.main.over = true)
    {more : List Outbound} (hout : s'.out = s.out ++ more) (hmore : ∀ id, dataOn id more = []) :
    (s'.main.stage ≤ 7 → PumpData s' s'.out) ∧
      (8 ≤ s'.main.stage → ∃ pre post code stderr, Verdict cfg s' pre post code stderr) := by
  constructor
  · intro hle
    have hbefore : s.main.stage ≤ 7 := by
      by_contra hlt
      have hafter := over_iff.mp (over_step (over_iff.mpr (by omega)) hstep)
      omega
    have hdata := (h.before hbefore).mono fun o p hp => pumps_step hregistered hstep hp
    rw [hout]
    intro id flags data hf
    rcases List.mem_append.mp hf with hold | hnew
    · exact hdata id flags data hold
    · have hmem := mem_dataOn.mpr hnew
      rw [hmore] at hmem
      cases hmem
  · intro hle
    have hover := over_iff.mp (hover (over_iff.mpr hle))
    obtain ⟨pre, post, code, stderr, hverdict⟩ := h.after hover
    exact ⟨pre, _, code, stderr,
      hverdict.step hstreams hregistered (hstaged.roles (by omega)) hstep hout hmore⟩

theorem finishing_step (h : ∀ exit stdout stderr error,
      s.main = .finishing exit stdout stderr error → ∀ id ∈ stderr, s.roles id = some STDERR)
    (hstreams : Streams cfg s) (hstep : step cfg s l = some s') :
    ∀ exit stdout stderr error, s'.main = .finishing exit stdout stderr error →
      ∀ id ∈ stderr, s'.roles id = some STDERR := by
  intro exit stdout stderr error hmain id hid
  rcases finishing_of_step hstep hmain with hold | ⟨-, rfl, -⟩
  · exact roles_step hstreams (h _ _ _ _ hold id hid) hstep
  · exact roles_step hstreams (hstreams.roles _ _ hid) hstep

/-- What a frame adds to what the stream of a pump has carried. -/
theorem delivered_congr (hpumps : s'.pumps = s.pumps) {more : List Outbound}
    (hout : s'.out = s.out ++ more)
    (hmore : ∀ o p, s.pumps o = some p → carried p.id more = []) : s'.delivered = s.delivered := by
  funext o
  unfold State.delivered
  rw [hpumps, hout]
  cases hp : s.pumps o with
  | none => rfl
  | some p =>
    dsimp only
    rw [carried_append, hmore o p hp, List.append_nil]

/-- The ends of the streams carry nothing, and the verdict is not on the stream of an output. -/
theorem carried_fins {exit : Int32} {stdout stderr error : Option UInt32} {id : UInt32}
    (herror : id ∉ error) : carried id (fins exit stdout stderr error) = [] := by
  unfold carried
  rw [List.flatMap_eq_nil_iff]
  intro p hp
  obtain ⟨flags, data⟩ := p
  rcases mem_fins (mem_dataOn.mp hp) with ⟨_, -, he⟩ | ⟨_, -, he⟩ | ⟨id', hid', he⟩
  · exact (Outbound.data.inj he).2.2
  · exact (Outbound.data.inj he).2.2
  · obtain rfl := (Outbound.data.inj he).1
    exact (herror hid').elim

theorem dataOn_single (id id' : UInt32) (flags : UInt8) (data : Bytes) :
    dataOn id [.data id' flags data] = if id' = id then [(flags, data)] else [] := by
  unfold dataOn dataFrame
  rw [List.filterMap_cons]
  split
  · rename_i heq
    dsimp only at heq
    split at heq
    · cases heq
    · rename_i hne
      rw [if_neg hne]
      rfl
  · rename_i heq
    dsimp only at heq
    split at heq
    · rename_i hid
      rw [if_pos hid, ← Option.some.inj heq]
      rfl
    · cases heq

/-- The streams of two pumps are different. -/
theorem Pumps.inj (h : Pumps s) {o o' : Output} {p p' : Pump} (hp : s.pumps o = some p)
    (hp' : s.pumps o' = some p') (hid : p.id = p'.id) : o = o' := by
  have hr := h.roles o p hp
  rw [hid, h.roles o' p' hp'] at hr
  exact (Output.channel_inj.mp (Option.some.inj hr)).symm

/-- **One step** of what the streams carry. -/
theorem Carried.step (h : Carried cfg session s)
    (hstreams : Streams cfg s) (hpumps : Pumps s) (hregistered : Registered session s)
    (hstaged : Staged cfg session s) (horderly : Orderly s) (hl : Conforms cfg s l)
    (hstep : Exec.step cfg s l = some s') : Carried cfg session s' := by
  have hfin := finishing_step h.finishing hstreams hstep
  have hended : ∀ {t : State}, t.pumps = s.pumps → t.world.out = s.world.out →
      ∀ o id, t.pumps o = some (.ended id) → (t.world.out o).atEnd := by
    intro t hp hw o id hpump
    rw [hw]
    exact h.ended o id (hp ▸ hpump)
  -- no data is written
  have hquiet : (s'.main.over = true → s.main.over = true) → ∀ more, s'.out = s.out ++ more →
      (∀ id, dataOn id more = []) → s'.world.Sound s'.delivered →
      (∀ o id, s'.pumps o = some (.ended id) → (s'.world.out o).atEnd) →
      Carried cfg session s' := by
    intro hover more hout hmore hsound hend
    obtain ⟨hbefore, hafter⟩ := h.frames hstreams hregistered hstaged hstep hover hout hmore
    exact ⟨hsound, hend, hbefore, hfin, hafter⟩
  -- and the pumps and the world stay
  have hstill : (s'.main.over = true → s.main.over = true) → ∀ more, s'.out = s.out ++ more →
      (∀ id, dataOn id more = []) → s'.pumps = s.pumps → s'.world = s.world →
      Carried cfg session s' := by
    intro hover more hout hmore hp hw
    refine hquiet hover more hout hmore ?_ (hended hp (by rw [hw]))
    rw [hw, delivered_congr hp hout fun o p _ => by unfold carried; rw [hmore]; rfl]
    exact h.sound
  have hnil : s.out = s.out ++ [] := (List.append_nil _).symm
  cases step_cases hstep with
  | process ha hw =>
    refine hquiet id [] hnil (fun _ => rfl) ?_ fun o id hpump => ?_
    · exact h.sound.step hw
    · exact World.atEnd_step h.sound (h.ended o id hpump) hw
  | ping => exact hstill id _ rfl (fun _ => rfl) rfl rfl
  | reply => exact hstill id _ rfl (fun _ => rfl) rfl rfl
  | tell => exact hstill (fun hover => (notify_over _).symm.trans hover) [] hnil (fun _ => rfl) rfl rfl
  | tellPump =>
    exact hstill (fun hover => (notify_over _).symm.trans hover) [] hnil (fun _ => rfl) rfl rfl
  | @spawn id r o hloop ho hraw =>
    have hnone := hregistered.raw o hraw
    have hbefore : s.main.stage ≤ 7 := by
      by_contra hlt
      have hpumpEnded := hstaged.drained (by omega) o ((hregistered.has o).mpr (.inl hraw))
      unfold State.pumpEnded at hpumpEnded
      rw [hnone] at hpumpEnded
      cases hpumpEnded
    -- no pump has written to the stream
    have hcarried : carried id s.out = [] := by
      unfold carried
      rw [dataOn_eq_nil]
      · rfl
      · intro flags data hf
        obtain ⟨-, o', p', hp', hid⟩ := h.before hbefore id flags data hf
        have hr := hpumps.roles o' p' hp'
        rw [hid, hpumps.opened (id, r) (by rw [hloop]; rfl), outputOf_channel ho] at hr
        rw [← Output.channel_inj.mp (Option.some.inj hr), hnone] at hp'
        cases hp'
    refine hquiet (fun hover => hover) [] hnil (fun _ => rfl) ?_ fun o' id' hpump => ?_
    · have hsame : State.delivered { s with
          readLoop := .pushing o
          raw := update s.raw o false
          pumps := update s.pumps o (some (.reading id)) } = s.delivered := by
        funext o'
        unfold State.delivered
        dsimp only
        by_cases heq : o' = o
        · rw [heq, update_self, hnone]
          show carried id s.out ++ [] = []
          rw [hcarried]
          rfl
        · rw [update_of_ne heq]
      rw [hsame]
      exact h.sound
    · dsimp only at hpump
      rw [update_apply] at hpump
      split at hpump
      · cases hpump
      · exact h.ended o' id' hpump
  | accept hloop hw =>
    obtain ⟨-, rfl⟩ := World.accept_cases hw
    refine hquiet (fun hover => hover) [] hnil (fun _ => rfl) ?_ (hended rfl rfl)
    exact h.sound.accept hw
  | @pumpRead o n id hpump =>
    refine hquiet (fun hover => hover) [] hnil (fun _ => rfl) ?_ fun o' id' hpump' => ?_
    · have hsame : State.delivered { s with
          pumps := update s.pumps o (some (.sending id (s.world.taken o n)))
          world := s.world.drain o n } =
          update s.delivered o (s.delivered o ++ s.world.taken o n) := by
        funext o'
        unfold State.delivered
        dsimp only
        by_cases heq : o' = o
        · rw [heq, update_self, update_self, hpump]
          show carried id s.out ++ _ = carried id s.out ++ [] ++ _
          rw [List.append_nil]
          rfl
        · rw [update_of_ne heq, update_of_ne heq]
      rw [hsame]
      exact h.sound.drain o n
    · dsimp only at hpump'
      rw [update_apply] at hpump'
      split at hpump'
      · cases hpump'
      · rename_i hne
        show (update s.world.out o _ o').atEnd
        rw [update_of_ne hne]
        exact h.ended o' id' hpump'
  | @pumpSend o id bytes hpump =>
    have hbefore : s.main.stage ≤ 7 := by
      by_contra hlt
      have hhas := (hregistered.has o).mpr (.inr (by rw [hpump]; exact fun hn => by cases hn))
      have hpumpEnded := hstaged.drained (by omega) o hhas
      unfold State.pumpEnded at hpumpEnded
      rw [hpump] at hpumpEnded
      cases hpumpEnded
    have hgoOn : ∀ o' p, s.pumps o' = some p →
        ∃ q, update s.pumps o (some (.reading id)) o' = some q ∧ q.id = p.id :=
      fun o' p hp => pumps_step hregistered hstep hp
    refine ⟨?_, fun o' id' hpump' => ?_, fun _ => ?_, hfin, fun hle => ?_⟩
    · have hsame : State.delivered { s with
          pumps := update s.pumps o (some (.reading id))
          out := s.out ++ [.data id 0 bytes] } = s.delivered := by
        funext o'
        unfold State.delivered
        dsimp only
        by_cases heq : o' = o
        · rw [heq, update_self, hpump]
          show carried id (s.out ++ [.data id 0 bytes]) ++ [] = carried id s.out ++ bytes
          rw [carried_append, List.append_nil]
          unfold carried
          rw [dataOn_single, if_pos rfl, List.flatMap_singleton]
        · rw [update_of_ne heq]
          cases hp : s.pumps o' with
          | none => rfl
          | some p =>
            have hid : ¬ id = p.id := fun hid => heq (hpumps.inj hpump hp hid).symm
            dsimp only
            rw [carried_append]
            unfold carried
            rw [dataOn_single, if_neg hid, List.flatMap_nil, List.append_nil]
      rw [hsame]
      exact h.sound
    · dsimp only at hpump'
      rw [update_apply] at hpump'
      split at hpump'
      · cases hpump'
      · exact h.ended o' id' hpump'
    · intro id' flags data hf
      rcases List.mem_append.mp hf with hold | hnew
      · exact (h.before hbefore).mono hgoOn id' flags data hold
      · obtain ⟨rfl, rfl, rfl⟩ := Outbound.data.inj (List.mem_singleton.mp hnew)
        exact ⟨rfl, o, _, update_self _ _ _, rfl⟩
    · have hle : 8 ≤ s.main.stage := hle
      omega
  | pumpFail hpump hgone => cases horderly.stays.symm.trans hgone
  | @pumpEof o id hpump hend =>
    refine hquiet (fun hover => hover) [] hnil (fun _ => rfl) ?_ fun o' id' hpump' => ?_
    · have hsame : State.delivered { s with pumps := update s.pumps o (some (.ended id)) } =
          s.delivered := by
        funext o'
        unfold State.delivered
        dsimp only
        by_cases heq : o' = o
        · rw [heq, update_self, hpump]
          rfl
        · rw [update_of_ne heq]
      rw [hsame]
      exact h.sound
    · dsimp only at hpump'
      rw [update_apply] at hpump'
      split at hpump'
      · rename_i heq
        rw [heq]
        exact hend
      · exact h.ended o' id' hpump'
  | arm => exact hstill (fun hover => (by cases hover)) [] hnil (fun _ => rfl) rfl rfl
  | @finish exit stdout stderr error hmain =>
    have hrole := h.finishing _ _ _ _ hmain
    obtain ⟨rfl, rfl, herr⟩ := hstaged.ids _ _ _ _ hmain
    obtain ⟨code, hcode, rfl⟩ := hstaged.exit exit (by rw [hmain]; rfl)
    have hbefore := h.before (by rw [hmain]; exact le_rfl)
    refine ⟨?_, h.ended, fun hle => ?_, fun _ _ _ _ hm => (by cases hm),
      fun _ => ⟨s.out, [], code, stderr, (List.append_nil _).symm, hbefore, fun _ => rfl, hcode,
        herr, hrole⟩⟩
    · have hsame : State.delivered { s with
          main := .grace
          out := s.out ++ fins (code.getD (-1)) (s.byRole STDOUT) stderr (s.byRole ERROR) } =
          s.delivered := by
        refine delivered_congr rfl rfl fun o p hp => carried_fins fun hmem => ?_
        have hr := (hpumps.roles o p hp).symm.trans (hstreams.roles _ _ hmem)
        cases o <;> cases hr
      rw [hsame]
      exact h.sound
    · have hle : 8 ≤ 7 := hle
      omega
  | goto hgoto => exact hstill hgoto.over [] hnil (fun _ => rfl) rfl rfl
  | _ => exact hstill (fun hover => hover) [] hnil (fun _ => rfl) rfl rfl

/-! ## The verdict -/

/-- The invariants of an exec that conforms. -/
structure Inv (cfg : Config) (session : StreamSession) (s : State) : Prop where
  streams : Streams cfg s
  pumps : Pumps s
  registered : Registered session s
  woken : Woken cfg s
  orderly : Orderly s
  staged : Staged cfg session s
  delivery : Carried cfg session s

theorem Inv.init (hsession : cfg.session = some session) (stdin stdout stderr : Nat) :
    Inv cfg session (init cfg (.init stdin stdout stderr)) :=
  ⟨.init cfg _, .init cfg _, .init hsession _, .init cfg _, .init cfg _, .init hsession _,
    .init hsession _ _ _⟩

theorem Inv.step (h : Inv cfg session s) (hexec : cfg.attach = false)
    (hsession : cfg.session = some session) (htty : session.stderr = true → cfg.tty = false)
    (hl : Conforms cfg s l) (hstep : Exec.step cfg s l = some s') : Inv cfg session s' where
  streams := h.streams.step hl.1 hstep
  pumps := h.pumps.step h.streams hstep
  registered := h.registered.step hstep
  woken := h.woken.step hstep
  orderly := h.orderly.step hl hstep
  staged := h.staged.step hexec hsession htty h.streams h.registered hl hstep
  delivery := h.delivery.step h.streams h.pumps h.registered h.staged h.orderly hl hstep

/-- What the stream of an output has carried before its end was written is what the process wrote to
it. -/
theorem Inv.output (h : Inv cfg session s) {pre post : List Outbound} {code : Option Int32}
    {stderr : Option UInt32} (hverdict : Verdict cfg s pre post code stderr)
    (hover : 8 ≤ s.main.stage) {o : Output} (ho : session.has o = true) :
    ∃ id, s.roles id = some o.channel ∧ carried id pre = s.world.produced o ∧
      (s.world.out o).closed = true := by
  have hended := h.staged.drained (by omega) o ho
  obtain ⟨p, hp, hend⟩ := (Option.any_eq_true _ _).mp hended
  cases p with
  | reading => cases hend
  | sending => cases hend
  | ended id =>
    have hatEnd := h.delivery.ended o id hp
    have hrole := h.pumps.roles o _ hp
    have hproduced := h.delivery.sound.produced o
    rw [hatEnd.1, List.append_nil] at hproduced
    have hdelivered : s.delivered o = carried id s.out ++ [] := by
      unfold State.delivered
      rw [hp]
      rfl
    have herror : id ∉ s.byRole ERROR := by
      intro hmem
      have hr := hrole.symm.trans (h.streams.roles _ _ hmem)
      cases o <;> cases hr
    rw [hdelivered, List.append_nil, hverdict.out, carried_append, carried_append,
      carried_fins herror, List.append_nil] at hproduced
    have hpost : carried id post = [] := by
      unfold carried
      rw [hverdict.post]
      rfl
    rw [hpost, List.append_nil] at hproduced
    exact ⟨id, hrole, hproduced.symm, hatEnd.2⟩

/-- The ends of the outputs, which are written before the verdict. -/
def ends (stdout stderr : Option UInt32) : List Outbound :=
  stdout.toList.map (.data · FLAG_FIN []) ++ stderr.toList.map (.data · FLAG_FIN [])

theorem dataOn_end (id : UInt32) (opened : Option UInt32) (data : Bytes) :
    dataOn id (opened.toList.map (.data · FLAG_FIN data)) =
      if opened = some id then [(FLAG_FIN, data)] else [] := by
  cases opened with
  | none => rfl
  | some id' =>
    show dataOn id [.data id' FLAG_FIN data] = _
    rw [dataOn_single]
    simp only [Option.some.injEq]

theorem dataOn_ends (id : UInt32) (stdout stderr : Option UInt32) :
    dataOn id (ends stdout stderr) =
      (if stdout = some id then [(FLAG_FIN, [])] else []) ++
        if stderr = some id then [(FLAG_FIN, [])] else [] := by
  unfold ends
  rw [dataOn_append, dataOn_end, dataOn_end]

/-- The frames of a pump are of its chunks, without FLAG_FIN. -/
theorem PumpData.chunks {out : List Outbound} (h : PumpData s out) (id : UInt32) :
    dataOn id out = ((dataOn id out).map Prod.snd).map fun chunk => (0, chunk) := by
  rw [List.map_map]
  refine (List.map_id _).symm.trans (List.map_congr_left fun p hp => ?_)
  obtain ⟨flags, data⟩ := p
  rw [(h id flags data (mem_dataOn.mp hp)).1]
  rfl

/-- No pump writes on the error stream. -/
theorem PumpData.error {out : List Outbound} (h : PumpData s out) (hpumps : Pumps s) {id : UInt32}
    (hrole : s.roles id = some ERROR) : dataOn id out = [] := by
  refine dataOn_eq_nil fun flags data hf => ?_
  obtain ⟨-, o, p, hp, rfl⟩ := h id flags data hf
  have hr := (hpumps.roles o p hp).symm.trans hrole
  cases o <;> cases hr

/-- The output is complete before the verdict: the frames up to the verdict carry all of it. -/
structure Complete (session : StreamSession) (s : State) (pre post : List Outbound)
    (code : Option Int32) (error : UInt32) : Prop where
  out : s.out = pre ++ .data error FLAG_FIN (exitStatusJson (code.getD (-1))) :: post
  reaper : s.reaper = some code
  error : s.byRole ERROR = some error ∧ dataOn error pre = [] ∧ dataOn error post = []
  output : ∀ o : Output, session.has o = true → ∃ (id : UInt32) (chunks : List Bytes),
    s.byRole o.channel = some id ∧
    dataOn id pre = chunks.map (fun chunk => (0, chunk)) ++ [(FLAG_FIN, [])] ∧
    chunks.flatten = s.world.produced o ∧ (s.world.out o).closed = true ∧ dataOn id post = []

theorem Inv.complete (h : Inv cfg session s) (htty : session.stderr = true → cfg.tty = false)
    (hover : 8 ≤ s.main.stage) :
    ∃ pre post code error, Complete session s pre post code error := by
  obtain ⟨pre, post, code, stderr, hverdict⟩ := h.delivery.after hover
  have hroles := allRoles_iff.mp (h.staged.roles (by omega))
  obtain ⟨error, herror⟩ := Option.ne_none_iff_exists'.mp (hroles _ (expected_error cfg))
  obtain ⟨out, hout⟩ := Option.ne_none_iff_exists'.mp (hroles _ (expected_stdout cfg))
  have herrorRole := h.streams.roles _ _ herror
  have houtRole := h.streams.roles _ _ hout
  have hne : ∀ {id id' : UInt32} {r r' : UInt8}, s.roles id = some r → s.roles id' = some r' →
      r ≠ r' → id ≠ id' := by
    rintro id id' r r' hr hr' hne rfl
    exact hne (Option.some.inj (hr.symm.trans hr'))
  have hstderr : ∀ {id : UInt32} {r : UInt8}, s.roles id = some r → r ≠ STDERR →
      stderr ≠ some id := by
    rintro id r hr hne' rfl
    exact hne hr (hverdict.role id rfl) hne' rfl
  refine ⟨pre ++ ends (some out) stderr, post, code, error, ?_, hverdict.code,
    ⟨herror, ?_, hverdict.post _⟩, fun o ho => ?_⟩
  · rw [hverdict.out, hout, herror]
    unfold fins ends
    simp
  · rw [dataOn_append, hverdict.pre.error h.pumps herrorRole, dataOn_ends,
      if_neg fun heq => hne houtRole herrorRole (by decide) (Option.some.inj heq),
      if_neg (hstderr herrorRole (by decide))]
    rfl
  · obtain ⟨id, hrole, hcarried, hclosed⟩ := h.output hverdict hover ho
    have hends : dataOn id (ends (some out) stderr) = [(FLAG_FIN, [])] ∧
        s.byRole o.channel = some id := by
      cases o with
      | stdout =>
        have hid := h.streams.byRole _ (expected_stdout cfg) id hrole
        rw [dataOn_ends, if_pos (hout.symm.trans hid), if_neg (hstderr hrole (by decide))]
        exact ⟨rfl, hid⟩
      | stderr =>
        have hid := h.streams.byRole _ (expected_stderr (htty ho)) id hrole
        have hsame := (hverdict.same (htty ho)).trans hid
        rw [dataOn_ends, if_pos hsame,
          if_neg fun heq => hne houtRole hrole (by decide) (Option.some.inj heq)]
        exact ⟨rfl, hid⟩
    refine ⟨id, (dataOn id pre).map Prod.snd, hends.2, ?_, ?_, hclosed, hverdict.post _⟩
    · rw [dataOn_append, hends.1, ← hverdict.pre.chunks]
    · rw [← List.flatMap_def]
      exact hcarried

end LightrCri.Spdy.Exec

import LightrCri.Spdy.Exec
import LightrCri.Spdy.Portforward

/-!
# Dropping a driver

`with_session_cap` may drop the future of `run_exec` or of `run_portforward` at an await point. What
the future itself holds of the connection goes with it, but its tasks go on: only an abort stops a
task, at its next await.

The guard of `run_exec` aborts the tasks whose handles are in the abort list by then. The read loop
spawns a pump and puts its handle into the list without an await in between or before, since it was
woken; a drop in that stretch misses the pump (`torn_down_iff`). `run_portforward` has no guard.
-/

namespace LightrCri.Spdy.Teardown

open Foundations LightrCri.Stream Function

/-! ## `run_exec` -/

/-- A task that holds a clone of the writer; the read loop holds the read half as well. -/
inductive Task
  | readLoop
  | pump (o : Output)
  deriving DecidableEq, Repr

structure State where
  conn : Exec.State
  /-- The session is open and the read loop is spawned. -/
  opened : Bool
  /-- `abort_list`. -/
  handles : List Task
  /-- The future is dropped, at an await point or at its end. -/
  dropped : Bool
  aborted : List Task
  /-- The tasks that their abort has stopped. -/
  cancelled : List Task

def init (cfg : Exec.Config) (world : World) : State :=
  ⟨Exec.init cfg world, false, [], false, [], []⟩

/-- The pump that is spawned and not in the abort list. -/
def State.unlisted (s : State) : Option Output :=
  match s.conn.readLoop with
  | .pushing o => if .pump o ∈ s.handles then none else some o
  | _ => none

/-- The task is at an await. -/
def State.suspended (s : State) : Task → Bool
  | .readLoop =>
    match s.conn.readLoop with
    | .reading | .replying _ _ | .inserting _ _ | .writing _ _ => true
    | .pushing _ => s.unlisted.isNone
    | _ => false
  | .pump _ => true

/-- The pump of the output has been spawned and has not ended. -/
def pumping (conn : Exec.State) (o : Output) : Prop := ∃ p, conn.pumps o = some p ∧ p.isEnded = false

/-- The task holds the connection. -/
def State.holds (s : State) (t : Task) : Prop :=
  t ∉ s.cancelled ∧
    match t with
    | .readLoop => s.opened = true ∧ s.conn.readLoop ≠ .ended
    | .pump o => pumping s.conn o

/-- The task goes on: an abort takes effect at an await. -/
def State.free (s : State) (t : Task) : Prop :=
  t ∉ s.cancelled ∧ (t ∈ s.aborted → s.suspended t = false)

instance (s : State) (t : Task) : Decidable (s.free t) := instDecidableAnd

/-- Whose step it is. -/
def taskOf : Exec.Label → Option Task
  | .readLoop | .accept _ | .broken | .flushed => some .readLoop
  | .pumpRead o _ | .pumpSend o | .pumpFail o | .pumpEof o => some (.pump o)
  | _ => none

/-- The step is one of the future itself. -/
def ofFuture : Exec.Label → Bool
  | .main | .detached | .reaped | .timeout => true
  | _ => false

def State.permits (s : State) (l : Exec.Label) : Bool :=
  match taskOf l with
  | some t => decide (s.free t) && (l != .readLoop || s.unlisted.isNone)
  | none => !ofFuture l || !s.dropped

/-- The tasks go on after the future has returned. -/
def connStep (cfg : Exec.Config) (conn : Exec.State) (l : Exec.Label) : Option Exec.State :=
  match taskOf l with
  | some _ => Exec.taskStep cfg conn l
  | none => Exec.step cfg conn l

inductive Label
  /-- The session is opened, and the read loop spawned and put into the abort list. -/
  | opened
  | conn (l : Exec.Label)
  /-- The read loop puts a pump into the abort list. -/
  | list
  | drop
  /-- An abort takes effect. -/
  | cancel (t : Task)
  deriving DecidableEq, Repr

def step (cfg : Exec.Config) (s : State) : Label → Option State
  | .opened =>
    if s.opened = false ∧ s.dropped = false then
      some { s with opened := true, handles := [.readLoop] }
    else none
  | .conn l =>
    if s.opened = true ∧ s.permits l = true then
      (connStep cfg s.conn l).map fun conn => { s with conn := conn }
    else none
  | .list =>
    if .readLoop ∈ s.cancelled then none
    else s.unlisted.map fun o => { s with handles := s.handles ++ [.pump o] }
  | .drop => if s.dropped = true then none else some { s with dropped := true, aborted := s.handles }
  | .cancel t =>
    if t ∈ s.aborted ∧ t ∉ s.cancelled ∧ s.suspended t = true then
      some { s with cancelled := t :: s.cancelled }
    else none

/-- All aborts have taken effect. -/
def State.Settled (s : State) : Prop := ∀ t ∈ s.aborted, ¬ s.holds t

/-- A pump that runs or is about to be spawned is on its way to the abort list, with no await before
it is spawned. -/
def State.Spawning (s : State) : Prop :=
  match s.conn.readLoop with
  | .telling _ role | .spawning _ role =>
    ∃ o, Exec.outputOf role = some o ∧ s.conn.raw o = true
  | .pushing o => .pump o ∉ s.handles ∧ pumping s.conn o
  | _ => False

/-! ### What a step spawns -/

section

variable {cfg : Exec.Config} {c c' : Exec.State} {l : Exec.Label} {s s' : State}

theorem connStep_cases (h : connStep cfg c l = some c') : Exec.Step cfg c l c' := by
  unfold connStep at h
  split at h
  · exact Exec.taskStep_cases h
  · exact Exec.step_cases h

theorem pumping_update {o o' : Output} {p : Exec.Pump}
    (h : pumping { c with pumps := update c.pumps o (some p) } o') :
    (o' = o ∧ p.isEnded = false) ∨ (o' ≠ o ∧ pumping c o') := by
  obtain ⟨p', hp', hended⟩ := h
  by_cases ho : o' = o
  · subst ho
    have hp : p = p' := by simpa using hp'
    exact .inl ⟨rfl, hp ▸ hended⟩
  · exact .inr ⟨ho, p', by simpa [update_of_ne ho] using hp', hended⟩

/-- A pump only ends, as long as the read loop takes no step. -/
theorem outside (h : Exec.Step cfg c l c') (hl : taskOf l ≠ some .readLoop) :
    c'.readLoop = c.readLoop ∧ c'.raw = c.raw ∧ ∀ o, pumping c' o → pumping c o := by
  cases h with
  | pumpRead hpump | pumpSend hpump =>
    refine ⟨rfl, rfl, fun o ho => ?_⟩
    rcases pumping_update ho with ⟨rfl, -⟩ | ⟨-, hold⟩
    · exact ⟨_, hpump, rfl⟩
    · exact hold
  | pumpFail hpump | pumpEof hpump =>
    refine ⟨rfl, rfl, fun o ho => ?_⟩
    rcases pumping_update ho with ⟨-, hended⟩ | ⟨-, hold⟩
    · cases hended
    · exact hold
  | client | halfClose | hangUp | process | reap | arm | take | finish | goto =>
    exact ⟨rfl, rfl, fun _ h => h⟩
  | opening | stdin | data | ping | quit | eof | reply | insert | tell | spawn | noSpawn | push
  | tellPump | leave | accept | broken | flushed => exact absurd rfl hl

theorem conn_cases (h : step cfg s (.conn l) = some s') :
    s.opened = true ∧ s.permits l = true ∧
      ∃ c', Exec.Step cfg s.conn l c' ∧ s' = { s with conn := c' } := by
  simp only [step] at h
  split at h
  · rename_i hcond
    obtain ⟨c', hc', rfl⟩ := Option.map_eq_some_iff.mp h
    exact ⟨hcond.1, hcond.2, c', connStep_cases hc', rfl⟩
  · cases h

theorem permits_loop (h : s.permits l = true) (hl : taskOf l = some .readLoop) :
    s.free .readLoop ∧ (l = .readLoop → s.unlisted = none) := by
  unfold State.permits at h
  rw [hl] at h
  simp only [Bool.and_eq_true, decide_eq_true_eq, Bool.or_eq_true, bne_iff_ne, ne_eq,
    Option.isNone_iff_eq_none] at h
  exact ⟨h.1, fun heq => h.2.resolve_left (not_not.mpr heq)⟩

theorem unlisted_eq_some {o : Output} (h : s.unlisted = some o) :
    s.conn.readLoop = .pushing o ∧ .pump o ∉ s.handles := by
  unfold State.unlisted at h
  split at h
  · rename_i hloop
    split at h
    · cases h
    · rename_i hlisted
      obtain rfl := Option.some.inj h
      exact ⟨hloop, hlisted⟩
  · cases h

theorem listed_of_unlisted {o : Output} (h : s.unlisted = none) (hloop : s.conn.readLoop = .pushing o) :
    .pump o ∈ s.handles := by
  unfold State.unlisted at h
  rw [hloop] at h
  by_contra hlisted
  simp only [if_neg hlisted] at h
  cases h

theorem spawning_mono (hloop : s'.conn.readLoop = s.conn.readLoop) (hraw : s'.conn.raw = s.conn.raw)
    (hhandles : ∀ t ∈ s.handles, t ∈ s'.handles)
    (hpumping : ∀ o, pumping s'.conn o → pumping s.conn o) (h : s'.Spawning) : s.Spawning := by
  unfold State.Spawning at h ⊢
  rw [hloop, hraw] at h
  cases hc : s.conn.readLoop with
  | telling id role =>
    rw [hc] at h
    exact h
  | spawning id role =>
    rw [hc] at h
    exact h
  | pushing o =>
    rw [hc] at h
    exact ⟨fun hlisted => h.1 (hhandles _ hlisted), hpumping o h.2⟩
  | reading | replying | inserting | tellingPump | writing | leaving | ended =>
    rw [hc] at h
    exact h

/-! ### After the drop -/

/-- Every pump that runs is aborted, and no other is to come. -/
structure After (s : State) : Prop where
  dropped : s.dropped = true
  loop : s.opened = true → .readLoop ∈ s.aborted
  pumps : ∀ o, pumping s.conn o → .pump o ∈ s.aborted
  safe : ¬ s.Spawning

theorem After.torn (h : After s) (hsettled : s.Settled) (t : Task) : ¬ s.holds t := by
  intro hholds
  cases t with
  | readLoop => exact hsettled .readLoop (h.loop hholds.2.1) hholds
  | pump o => exact hsettled (.pump o) (h.pumps o hholds.2) hholds

/-- The read loop runs on to its next await, and spawns nothing on the way. -/
theorem After.loopStep (h : After s) (hopened : s.opened = true) (hpermits : s.permits l = true)
    (hl : taskOf l = some .readLoop) (hstep : Exec.Step cfg s.conn l c') :
    After { s with conn := c' } := by
  obtain ⟨hfree, hlisted⟩ := permits_loop hpermits hl
  have hawake : s.suspended .readLoop = false := hfree.2 (h.loop hopened)
  have hsafe := h.safe
  unfold State.Spawning at hsafe
  cases hstep with
  | opening hloop | stdin hloop | data hloop | ping hloop | quit hloop | eof hloop | reply hloop
  | insert hloop | accept hloop | broken hloop | flushed hloop =>
    simp [State.suspended, hloop] at hawake
  | push hloop =>
    simp [State.suspended, hloop, hlisted rfl] at hawake
  | tell hloop =>
    rw [hloop] at hsafe
    exact ⟨h.dropped, h.loop, h.pumps, hsafe⟩
  | spawn hloop ho hraw =>
    rw [hloop] at hsafe
    exact absurd ⟨_, ho, hraw⟩ hsafe
  | noSpawn | tellPump | leave => exact ⟨h.dropped, h.loop, h.pumps, id⟩
  | client | halfClose | hangUp | process | pumpRead | pumpSend | pumpFail | pumpEof | reap | arm
  | take | finish => cases hl
  | goto hgoto => cases hgoto <;> cases hl

theorem After.step {a : Label} (h : After s) (hstep : Teardown.step cfg s a = some s') : After s' := by
  cases a with
  | opened =>
    simp only [Teardown.step] at hstep
    rw [if_neg fun hcond => by rw [h.dropped] at hcond; cases hcond.2] at hstep
    cases hstep
  | conn l =>
    obtain ⟨hopened, hpermits, c', hc', rfl⟩ := conn_cases hstep
    by_cases hl : taskOf l = some .readLoop
    · exact h.loopStep hopened hpermits hl hc'
    · obtain ⟨hloop, hraw, hpumping⟩ := outside hc' hl
      exact ⟨h.dropped, h.loop, fun o ho => h.pumps o (hpumping o ho), fun hspawning =>
        h.safe (@spawning_mono s { s with conn := c' } hloop hraw (fun _ => id) hpumping
          hspawning)⟩
  | list =>
    simp only [Teardown.step] at hstep
    split at hstep
    · cases hstep
    · obtain ⟨o, -, rfl⟩ := Option.map_eq_some_iff.mp hstep
      exact ⟨h.dropped, h.loop, h.pumps, fun hspawning =>
        h.safe (@spawning_mono s { s with handles := s.handles ++ [.pump o] } rfl rfl
          (fun t ht => List.mem_append_left _ ht) (fun _ => id) hspawning)⟩
  | drop =>
    simp only [Teardown.step] at hstep
    rw [if_pos h.dropped] at hstep
    cases hstep
  | cancel t =>
    simp only [Teardown.step] at hstep
    split at hstep
    · obtain rfl := Option.some.inj hstep
      exact ⟨h.dropped, h.loop, h.pumps, h.safe⟩
    · cases hstep

/-! ### Before the drop -/

/-- Every pump that runs is in the abort list, or the read loop is about to put it there. -/
structure Before (s : State) : Prop where
  dropped : s.dropped = false
  none : s.aborted = [] ∧ s.cancelled = []
  closed : s.opened = false → s.handles = [] ∧ s.conn.readLoop = .reading
  loop : s.opened = true → .readLoop ∈ s.handles
  pumps : ∀ o, pumping s.conn o → .pump o ∈ s.handles ∨ s.conn.readLoop = .pushing o
  /-- A pump is spawned once. -/
  fresh : ∀ o, s.conn.raw o = true → .pump o ∉ s.handles ∧ s.conn.readLoop ≠ .pushing o

theorem Before.init {world : World} : Before (init cfg world) where
  dropped := rfl
  none := ⟨rfl, rfl⟩
  closed _ := ⟨rfl, rfl⟩
  loop := nofun
  pumps _ h := by
    obtain ⟨p, hp, -⟩ := h
    cases hp
  fresh _ _ := ⟨List.not_mem_nil, nofun⟩

/-- A step of the read loop that neither spawns nor lists a pump. -/
theorem Before.loopElsewhere (h : Before s) (hpushing : ∀ o, s.conn.readLoop ≠ .pushing o)
    (hopened : s.opened = true) (hpushing' : ∀ o, c'.readLoop ≠ .pushing o)
    (hraw : c'.raw = s.conn.raw) (hpumps : c'.pumps = s.conn.pumps) :
    Before { s with conn := c' } where
  dropped := h.dropped
  none := h.none
  closed hclosed := by
    rw [hopened] at hclosed
    cases hclosed
  loop := h.loop
  pumps o ho := by
    unfold pumping at ho
    rw [hpumps] at ho
    exact .inl ((h.pumps o ho).resolve_right (hpushing o))
  fresh o ho := ⟨(h.fresh o (hraw ▸ ho)).1, hpushing' o⟩

theorem Before.spawn {id : UInt32} {r : UInt8} {o : Output} (h : Before s)
    (hopened : s.opened = true) (hloop : s.conn.readLoop = .spawning id r) :
    Before { s with conn := { s.conn with
      readLoop := .pushing o
      raw := update s.conn.raw o false
      pumps := update s.conn.pumps o (some (.reading id)) } } where
  dropped := h.dropped
  none := h.none
  closed hclosed := by
    rw [hopened] at hclosed
    cases hclosed
  loop := h.loop
  pumps o' ho' := by
    by_cases heq : o' = o
    · exact .inr (congrArg _ heq.symm)
    · obtain ⟨p, hp, hended⟩ := ho'
      have hold : pumping s.conn o' := ⟨p, by simpa [update_of_ne heq] using hp, hended⟩
      refine .inl ((h.pumps o' hold).resolve_right ?_)
      rw [hloop]
      nofun
  fresh o' ho' := by
    by_cases heq : o' = o
    · simp [heq] at ho'
    · refine ⟨(h.fresh o' (by simpa [update_of_ne heq] using ho')).1, fun hpushing => heq ?_⟩
      exact (Exec.ReadLoop.pushing.inj hpushing).symm

theorem Before.loopStep (h : Before s) (hopened : s.opened = true) (hpermits : s.permits l = true)
    (hl : taskOf l = some .readLoop) (hstep : Exec.Step cfg s.conn l c') :
    Before { s with conn := c' } := by
  cases hstep with
  | spawn hloop => exact h.spawn hopened hloop
  | push hloop =>
    rename_i o
    have hlisted := listed_of_unlisted ((permits_loop hpermits hl).2 rfl) hloop
    refine ⟨h.dropped, h.none, fun hclosed => ?_, h.loop, fun o' ho' => .inl ?_, fun o' ho' =>
      ⟨(h.fresh o' ho').1, nofun⟩⟩
    · rw [hopened] at hclosed
      cases hclosed
    · rcases h.pumps o' ho' with hmem | hpushing
      · exact hmem
      · rw [hloop] at hpushing
        exact Exec.ReadLoop.pushing.inj hpushing ▸ hlisted
  | opening hloop | stdin hloop | quit hloop | eof hloop | reply hloop | insert hloop | tell hloop
  | noSpawn hloop | tellPump hloop | leave hloop | accept hloop =>
    refine h.loopElsewhere (fun o => ?_) hopened (fun o => nofun) rfl rfl
    rw [hloop]
    nofun
  | data hloop | broken hloop | flushed hloop =>
    refine h.loopElsewhere (fun o => ?_) hopened (fun o hpushing => ?_) rfl rfl
    · rw [hloop]
      nofun
    · change Exec.ReadLoop.reading = _ at hpushing
      cases hpushing
  | ping hloop =>
    have hpushing (o : Output) : s.conn.readLoop ≠ .pushing o := by
      rw [hloop]
      nofun
    exact h.loopElsewhere hpushing hopened hpushing rfl rfl
  | client | halfClose | hangUp | process | pumpRead | pumpSend | pumpFail | pumpEof | reap | arm
  | take | finish => cases hl
  | goto hgoto => cases hgoto <;> cases hl

theorem Before.step {a : Label} (h : Before s) (ha : a ≠ .drop)
    (hstep : Teardown.step cfg s a = some s') : Before s' := by
  cases a with
  | opened =>
    simp only [Teardown.step] at hstep
    split at hstep
    · rename_i hcond
      obtain rfl := Option.some.inj hstep
      obtain ⟨hhandles, hloop⟩ := h.closed hcond.1
      refine ⟨h.dropped, h.none, nofun, fun _ => List.mem_singleton_self _, fun o ho => ?_,
        fun o ho => ⟨by simp, (h.fresh o ho).2⟩⟩
      refine .inr ((h.pumps o ho).resolve_left ?_)
      rw [hhandles]
      exact List.not_mem_nil
    · cases hstep
  | conn l =>
    obtain ⟨hopened, hpermits, c', hc', rfl⟩ := conn_cases hstep
    by_cases hl : taskOf l = some .readLoop
    · exact h.loopStep hopened hpermits hl hc'
    · obtain ⟨hloop, hraw, hpumping⟩ := outside hc' hl
      refine ⟨h.dropped, h.none, fun hclosed => ?_, h.loop, fun o ho => ?_, fun o ho => ?_⟩
      · rw [hopened] at hclosed
        cases hclosed
      · exact hloop ▸ h.pumps o (hpumping o ho)
      · exact hloop ▸ h.fresh o (hraw ▸ ho)
  | list =>
    simp only [Teardown.step] at hstep
    split at hstep
    · cases hstep
    · obtain ⟨o, ho, rfl⟩ := Option.map_eq_some_iff.mp hstep
      obtain ⟨hloop, -⟩ := unlisted_eq_some ho
      refine ⟨h.dropped, h.none, fun hclosed => ?_, fun hopened =>
        List.mem_append_left _ (h.loop hopened), fun o' ho' => ?_, fun o' ho' => ?_⟩
      · have hreading := (h.closed hclosed).2
        rw [hloop] at hreading
        cases hreading
      · exact (h.pumps o' ho').imp_left (List.mem_append_left _)
      · obtain ⟨hfresh, hpushing⟩ := h.fresh o' ho'
        refine ⟨fun hmem => ?_, hpushing⟩
        rcases List.mem_append.mp hmem with hold | hnew
        · exact hfresh hold
        · have heq := Task.pump.inj (List.mem_singleton.mp hnew)
          exact hpushing (heq ▸ hloop)
  | drop => exact absurd rfl ha
  | cancel t =>
    simp only [Teardown.step] at hstep
    rw [if_neg fun hcond => by rw [h.none.1] at hcond; exact absurd hcond.1 List.not_mem_nil]
      at hstep
    cases hstep

/-! ### The drop -/

/-- The state right after the drop. -/
def State.drop (s : State) : State := { s with dropped := true, aborted := s.handles }

theorem Before.drop (h : Before s) (hsafe : ¬ s.Spawning) : After s.drop where
  dropped := rfl
  loop := h.loop
  pumps o ho := by
    rcases h.pumps o ho with hlisted | hloop
    · exact hlisted
    · by_contra hlisted
      refine hsafe ?_
      unfold State.Spawning
      rw [hloop]
      exact ⟨hlisted, ho⟩
  safe := hsafe

/-- With the read loop at an await, all aborts can take effect. -/
theorem exists_cancelled (hloop : s.suspended .readLoop = true) (ts : List Task)
    (hts : ∀ t ∈ ts, t ∈ s.aborted) :
    ∃ ls cs, run (step cfg) s ls = some { s with cancelled := cs } ∧ (∀ t ∈ ts, t ∈ cs) ∧
      ∀ t ∈ cs, t ∈ s.cancelled ∨ t ∈ s.aborted := by
  induction ts with
  | nil => exact ⟨[], s.cancelled, rfl, nofun, fun _ => .inl⟩
  | cons t ts ih =>
    obtain ⟨ls, cs, hrun, hmem, hof⟩ := ih fun t' ht' => hts t' (List.mem_cons_of_mem _ ht')
    by_cases ht : t ∈ cs
    · refine ⟨ls, cs, hrun, fun t' ht' => ?_, hof⟩
      rcases List.mem_cons.mp ht' with rfl | hrest
      · exact ht
      · exact hmem t' hrest
    · have hsuspended : { s with cancelled := cs }.suspended t = true := by
        cases t with
        | readLoop => exact hloop
        | pump o => rfl
      have hstep : step cfg { s with cancelled := cs } (.cancel t) =
          some { s with cancelled := t :: cs } :=
        if_pos ⟨hts t List.mem_cons_self, ht, hsuspended⟩
      refine ⟨ls ++ [.cancel t], t :: cs,
        run_append_eq_some.mpr ⟨_, hrun, run_cons_eq_some.mpr ⟨_, hstep, rfl⟩⟩,
        fun t' ht' => ?_, fun t' ht' => ?_⟩
      · rcases List.mem_cons.mp ht' with rfl | hrest
        · exact List.mem_cons_self
        · exact List.mem_cons_of_mem _ (hmem t' hrest)
      · rcases List.mem_cons.mp ht' with rfl | hrest
        · exact .inr (hts t' List.mem_cons_self)
        · exact hof t' hrest

/-- A state where all aborts have taken effect and a task holds the connection can be reached. -/
def Left (cfg : Exec.Config) (s : State) : Prop :=
  Reaches (step cfg) (fun _ => True) s fun s' => s'.Settled ∧ ∃ t, s'.holds t

theorem left_of_suspended {o : Output} (hloop : s.suspended .readLoop = true)
    (hcancelled : s.cancelled = []) (haborted : .pump o ∉ s.aborted) (ho : pumping s.conn o) :
    Left cfg s := by
  obtain ⟨ls, cs, hrun, hmem, hof⟩ := @exists_cancelled cfg s hloop s.aborted fun _ => id
  refine ⟨ls, _, fun _ _ => True.intro, hrun, fun t ht hholds => hholds.1 (hmem t ht), .pump o, ?_, ho⟩
  intro hcs
  rcases hof _ hcs with hold | hmissed
  · rw [hcancelled] at hold
    exact List.not_mem_nil hold
  · exact haborted hmissed

theorem left_of_pushing {o : Output} (hloop : s.conn.readLoop = .pushing o)
    (hlisted : .pump o ∉ s.handles) (hcancelled : s.cancelled = []) (haborted : .pump o ∉ s.aborted)
    (ho : pumping s.conn o) : Left cfg s := by
  have hunlisted : s.unlisted = some o := by
    unfold State.unlisted
    rw [hloop]
    exact if_neg hlisted
  have hstep : step cfg s .list = some { s with handles := s.handles ++ [.pump o] } := by
    simp only [step, hcancelled, hunlisted]
    rfl
  have hsuspended : { s with handles := s.handles ++ [Task.pump o] }.suspended .readLoop = true := by
    simp [State.suspended, State.unlisted, hloop]
  exact .cons hstep True.intro (left_of_suspended hsuspended hcancelled haborted ho)

/-- The read loop takes its next step. -/
theorem left_of_loop (hopened : s.opened = true) (hcancelled : s.cancelled = [])
    (hawake : s.suspended .readLoop = false) (hunlisted : s.unlisted = none)
    (hread : Exec.readStep cfg s.conn = some c') (h : Left cfg { s with conn := c' }) :
    Left cfg s := by
  have hfree : s.free .readLoop :=
    ⟨by rw [hcancelled]; exact List.not_mem_nil, fun _ => hawake⟩
  have hpermits : s.permits .readLoop = true := by
    simp [State.permits, taskOf, hfree, hunlisted]
  have hstep : step cfg s (.conn .readLoop) = some { s with conn := c' } := by
    simp only [step, hopened, hpermits]
    rw [show connStep cfg s.conn .readLoop = some c' from hread]
    rfl
  exact .cons hstep True.intro h

theorem left_of_spawning {id : UInt32} {r : UInt8} {o : Output} (hopened : s.opened = true)
    (hloop : s.conn.readLoop = .spawning id r) (ho : Exec.outputOf r = some o)
    (hraw : s.conn.raw o = true) (hlisted : .pump o ∉ s.handles) (hcancelled : s.cancelled = [])
    (haborted : .pump o ∉ s.aborted) : Left cfg s := by
  have hread : Exec.readStep cfg s.conn = some { s.conn with
      readLoop := .pushing o
      raw := update s.conn.raw o false
      pumps := update s.conn.pumps o (some (.reading id)) } := by
    simp only [Exec.readStep, hloop, ho, hraw, if_true]
  have hpumping : pumping { s.conn with
      readLoop := .pushing o
      raw := update s.conn.raw o false
      pumps := update s.conn.pumps o (some (.reading id)) } o :=
    ⟨_, update_self o _ _, rfl⟩
  refine left_of_loop hopened hcancelled (by simp [State.suspended, hloop])
    (by simp [State.unlisted, hloop]) hread ?_
  exact left_of_pushing rfl hlisted hcancelled haborted hpumping

theorem Before.left (h : Before s) (hspawning : s.Spawning) : Left cfg s.drop := by
  have hopened : s.opened = true := by
    by_contra hclosed
    unfold State.Spawning at hspawning
    rw [(h.closed (by simpa using hclosed)).2] at hspawning
    exact hspawning
  unfold State.Spawning at hspawning
  split at hspawning
  · rename_i id r hloop
    obtain ⟨o, ho, hraw⟩ := hspawning
    have hread : Exec.readStep cfg s.drop.conn = some { s.conn with
        readLoop := .spawning id r
        main := s.conn.main.notify } := by
      simp only [Exec.readStep, State.drop, hloop]
    refine left_of_loop hopened h.none.2 (by simp [State.suspended, State.drop, hloop])
      (by simp [State.unlisted, State.drop, hloop]) hread ?_
    exact left_of_spawning hopened rfl ho hraw (h.fresh o hraw).1 h.none.2 (h.fresh o hraw).1
  · rename_i id r hloop
    obtain ⟨o, ho, hraw⟩ := hspawning
    exact left_of_spawning (s := s.drop) hopened hloop ho hraw (h.fresh o hraw).1 h.none.2
      (h.fresh o hraw).1
  · rename_i o hloop
    exact left_of_pushing (s := s.drop) hloop hspawning.1 h.none.2 hspawning.1 hspawning.2
  · exact absurd hspawning id

end

/-! ## `run_portforward` -/

/-- The future and the pumps it has spawned. -/
structure Forward where
  conn : Portforward.State
  dropped : Bool

inductive ForwardLabel
  | conn (l : Portforward.Label)
  /-- A pump fails to write to the client, and ends. -/
  | broken (c : Portforward.ConnId)
  | drop
  deriving DecidableEq, Repr

/-- The step is one of a pump. -/
def ofPump : Portforward.Label → Bool
  | .fromTcp _ _ | .eofTcp _ => true
  | _ => false

def forwardStep (s : Forward) : ForwardLabel → Option Forward
  | .conn l =>
    if s.dropped = false ∨ ofPump l = true then
      (Portforward.step s.conn l).map fun conn => { s with conn := conn }
    else none
  | .broken c =>
    some { s with conn := Portforward.setConn s.conn c fun k => { k with pump := false } }
  | .drop => if s.dropped = true then none else some { s with dropped := true }

/-- The pump of the connection holds a clone of the writer. -/
def Forward.holds (s : Forward) (c : Portforward.ConnId) : Prop :=
  s.conn.aborted = false ∧ (Portforward.getConn s.conn c).any Portforward.Conn.pump = true

theorem forward_step {s s' : Forward} {l : ForwardLabel} (hdropped : s.dropped = true)
    (hnone : ∀ c, ¬ s.holds c) (hstep : forwardStep s l = some s') :
    s'.dropped = true ∧ ∀ c, ¬ s'.holds c := by
  cases l with
  | conn l =>
    simp only [forwardStep] at hstep
    split at hstep
    · rename_i hcond
      rw [hdropped] at hcond
      obtain ⟨conn, hconn, rfl⟩ := Option.map_eq_some_iff.mp hstep
      -- Only a pump takes a step, and none is left.
      cases l with
      | fromTcp c bytes =>
        simp only [Portforward.step] at hconn
        rw [if_neg fun h => hnone c ⟨h.1, h.2.1⟩] at hconn
        cases hconn
      | eofTcp c =>
        simp only [Portforward.step] at hconn
        rw [if_neg fun h => hnone c ⟨h.1, h.2⟩] at hconn
        cases hconn
      | recv | dialed | accept | flushed | deadline => simp [ofPump] at hcond
    · cases hstep
  | broken c =>
    obtain rfl := Option.some.inj hstep
    refine ⟨hdropped, fun c' hholds => hnone c' ⟨hholds.1, ?_⟩⟩
    have hpump := hholds.2
    rw [Portforward.getConn_setConn] at hpump
    split at hpump
    · cases hc : Portforward.getConn s.conn c with
      | none => simp [hc] at hpump
      | some k => simp [hc] at hpump
    · exact hpump
  | drop =>
    simp only [forwardStep] at hstep
    rw [if_pos hdropped] at hstep
    cases hstep

/-- **Dropping a driver.** No task holds the connection in any state after the drop where all aborts
have taken effect: for `run_exec`, exactly if the read loop is not about to spawn a pump, or to put
one that runs into the abort list, without an await before it does; for `run_portforward`, exactly
if no pump runs. -/
theorem torn_down_iff {cfg : Exec.Config} {world : World} {ls : List Label} {s : State}
    (hrun : run (step cfg) (init cfg world) ls = some s) (hls : .drop ∉ ls) {f : Forward}
    (hf : f.dropped = false) :
    ((∀ ls' s', run (step cfg) s (.drop :: ls') = some s' → s'.Settled → ∀ t, ¬ s'.holds t) ↔
      ¬ s.Spawning) ∧
    ((∀ ls' f', run forwardStep f (.drop :: ls') = some f' → ∀ c, ¬ f'.holds c) ↔
      ∀ c, ¬ f.holds c) := by
  have hlabels : ∀ l ∈ ls, l ≠ .drop := by
    rintro l hl rfl
    exact hls hl
  have hbefore : Before s := invariant_run (P := fun _ l => l ≠ .drop)
    (fun _ _ _ h hl hstep => h.step hl hstep) .init (Along.of_labels hlabels) hrun
  have hdrop : step cfg s .drop = some s.drop := by
    simp only [step, hbefore.dropped]
    rfl
  have hdrop' : forwardStep f .drop = some { f with dropped := true } := by
    simp only [forwardStep, hf]
    rfl
  constructor
  · constructor
    · intro htorn hspawning
      obtain ⟨ls', s', -, hrun', hsettled, t, hholds⟩ := @Before.left cfg s hbefore hspawning
      exact htorn ls' s' (run_cons_eq_some.mpr ⟨_, hdrop, hrun'⟩) hsettled t hholds
    · intro hsafe ls' s' hrun' hsettled
      obtain ⟨s₁, hs₁, hrest⟩ := run_cons_eq_some.mp hrun'
      obtain rfl := Option.some.inj (hdrop.symm.trans hs₁)
      have hafter : After s' := invariant_run (P := fun _ _ => True)
        (fun _ _ _ h _ hstep => h.step hstep) (hbefore.drop hsafe) (.trivial _ _) hrest
      exact hafter.torn hsettled
  · constructor
    · intro htorn
      exact htorn [] { f with dropped := true } (run_cons_eq_some.mpr ⟨_, hdrop', rfl⟩)
    · intro hnone ls' f' hrun'
      obtain ⟨f₁, hf₁, hrest⟩ := run_cons_eq_some.mp hrun'
      obtain rfl := Option.some.inj (hdrop'.symm.trans hf₁)
      have hafter : f'.dropped = true ∧ ∀ c, ¬ f'.holds c :=
        invariant_run (I := fun f => f.dropped = true ∧ ∀ c, ¬ f.holds c) (P := fun _ _ => True)
          (fun _ _ _ h _ hstep => forward_step h.1 h.2 hstep) ⟨rfl, hnone⟩ (.trivial _ _) hrest
      exact hafter.2

/-- An exec without a terminal and with one output. -/
def stdoutConfig : Exec.Config := ⟨false, false, false, some ⟨false, true, false, false, .child⟩⟩

/-- The client opens its stdout stream, and the loop puts it into its maps. -/
def stdoutOpenedRun : List Label :=
  [.opened, .conn (.client (.frame (.synStream 1 [("streamType", "stdout")]))), .conn .readLoop,
    .conn .readLoop, .conn .readLoop]

/-- A forwarded connection. -/
def forwardedRun : List ForwardLabel :=
  [.conn (.recv (.frame (.synStream 1 [("streamType", "data"), ("port", "80")]))),
    .conn (.dialed 1 true)]

/-- The drop comes before the client has opened a stream. -/
theorem torn_down_iff_opened : ∃ s,
    run (step stdoutConfig) (init stdoutConfig (.init 8 8 8)) [.opened] = some s ∧
      ((∀ ls' s', run (step stdoutConfig) s (.drop :: ls') = some s' → s'.Settled →
          ∀ t, ¬ s'.holds t) ↔ ¬ s.Spawning) ∧
      ((∀ ls' f', run forwardStep ⟨Portforward.init, false⟩ (.drop :: ls') = some f' →
          ∀ c, ¬ f'.holds c) ↔ ∀ c, ¬ Forward.holds ⟨Portforward.init, false⟩ c) := by
  have hls : Label.drop ∉ [Label.opened] := by decide
  exact ⟨_, rfl, @torn_down_iff stdoutConfig (.init 8 8 8) [.opened] _ rfl hls
    ⟨Portforward.init, false⟩ rfl⟩

/-- **What a drop leaves behind**: the pump that the read loop spawns after it, and the pump of a
forwarded connection. -/
theorem held_after_drop :
    (∃ s, run (step stdoutConfig) (init stdoutConfig (.init 8 8 8))
        (stdoutOpenedRun ++
          [Label.drop, .conn .readLoop, .conn .readLoop, .list, .cancel .readLoop]) = some s ∧
        s.dropped = true ∧ s.Settled ∧ s.holds (.pump .stdout)) ∧
      ∃ f, run forwardStep ⟨Portforward.init, false⟩ (forwardedRun ++ [ForwardLabel.drop]) =
          some f ∧ f.dropped = true ∧ f.holds (1, 0) := by
  refine ⟨⟨_, rfl, rfl, fun t ht hholds => ?_, by decide, _, rfl, rfl⟩, _, rfl, rfl, rfl, rfl⟩
  obtain rfl := List.mem_singleton.mp ht
  exact hholds.1 List.mem_cons_self

end LightrCri.Spdy.Teardown

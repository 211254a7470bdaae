import LightrCri.Attach.Progress

/-!
# An attacher that no longer reads

While nobody reads from an attacher's pipe, it fills up with what its stream carries: what is in the
pipe and what is on its way to it (`State.ahead`) stays the same as the others go on. So the
container is undisturbed as long as the pipe has room for all of it, and only then
(`undisturbed_iff`). This goes for an attacher that has stalled, and also for one that has gone, as
long as a process that was spawned has the read end.
-/

namespace LightrCri.Attach

open Foundations LightrCri.Stream Function Spdy

/-- The process is not in a write, and all of the stream was handed over to the log, which has the
records. -/
structure State.Undisturbed (s : State) (o : Output) : Prop where
  unput : unput s.world o = []
  handed : (s.tee o).handed (s.sent o) = s.world.produced o
  logged : s.logged o = if (s.world.out o).closed then records (s.world.produced o)
    else lines NEWLINE (s.world.produced o)

/-- What is in the pipe of an attacher, and what there is that comes to it: what the broadcast owes
it, what the thread is about to broadcast, what is in the output and what is left of a write. -/
def ahead (tap : Nat → Option Tap) (tee : Tee) (buf rest : Bytes) (k : Nat) : Nat :=
  queued tap k + (tee.due k).length + tee.holds.length + buf.length + rest.length

def State.ahead (s : State) (o : Output) (k : Nat) : Nat :=
  LightrCri.Attach.ahead (s.tap o) (s.tee o) (s.world.out o).buf (unput s.world o) k

/-- The pipes that nobody reads from have room for what comes to them. -/
def State.Roomy (s : State) (stalled : Nat → Bool) : Prop :=
  ∀ o k t, s.tap o k = some t → t.unread (stalled k) = true → s.ahead o k ≤ t.capacity

/-- What does not change of a pipe as the fan-out goes on. -/
def shape (t : Tap) : Bool × Bool × Nat := (t.reading, t.heldRead, t.capacity)

theorem Tap.hasReader_of_unread {t : Tap} {b : Bool} (h : t.unread b = true) :
    t.hasReader = true :=
  ((Bool.and_eq_true _ _).mp h).1

theorem Tap.unread_congr {t t' : Tap} (h : shape t = shape t') (b : Bool) :
    t.unread b = t'.unread b := by
  obtain ⟨hreading, hrest⟩ := Prod.mk.inj h
  unfold Tap.unread Tap.hasReader
  rw [hreading, (Prod.mk.inj hrest).1]

theorem capacity_of_shape {t t' : Tap} (h : shape t = shape t') : t.capacity = t'.capacity :=
  (Prod.mk.inj (Prod.mk.inj h).2).2

section

variable {s s' : State} {o : Output} {k : Nat} {stalled : Nat → Bool}

theorem queued_eq {tap : Nat → Option Tap} {t : Tap} (h : tap k = some t) :
    queued tap k = t.buf.length := by
  unfold queued
  rw [h]
  rfl

theorem queued_update_self (tap : Nat → Option Tap) (t : Tap) :
    queued (update tap k (some t)) k = t.buf.length := queued_eq (update_self ..)

theorem queued_update_of_ne {j : Nat} (h : k ≠ j) (tap : Nat → Option Tap) (t : Option Tap) :
    queued (update tap j t) k = queued tap k := by
  unfold queued
  rw [update_of_ne h]

theorem State.ahead_congr (hsame : Same s s' o) (hout : (s'.world.out o).buf = (s.world.out o).buf)
    (hunput : unput s'.world o = unput s.world o) : s'.ahead o k = s.ahead o k := by
  unfold State.ahead
  rw [hsame.tap, hsame.tee, hout, hunput]

/-- A thread moves bytes towards the pipe. -/
theorem Inv.ahead_tee_self {a : TeeAction} {t : Tap} (h : Inv s) (hstep : Step s (.tee o a) s')
    (ht : s.tap o k = some t) (hopen : t.hasReader = true) : s'.ahead o k = s.ahead o k := by
  have hself {α : Type} (f : Output → α) (x : α) : update f o x o = x := update_self o x f
  have hmem := ((h.lane o).good k t ht).joined hopen
  have hlane := h.lane o
  unfold State.Laned at hlane
  have hidle {tee : Tee} (hdue : tee.due k = (s.tee o).due k) (hholds : tee.holds = (s.tee o).holds) :
      LightrCri.Attach.ahead (s.tap o) (update s.tee o tee o) (s.world.out o).buf (unput s.world o) k =
        s.ahead o k := by
    unfold State.ahead LightrCri.Attach.ahead
    rw [hself, hdue, hholds]
  cases hstep with
  | @read _ n htee hn hbuf =>
    show LightrCri.Attach.ahead (s.tap o) (update s.tee o _ o) (update s.world.out o _ o).buf
      (unput s.world o) k = LightrCri.Attach.ahead _ _ _ _ k
    rw [hself, hself, htee]
    show _ + 0 + (s.world.taken o n).length + ((s.world.out o).buf.drop n).length + _ =
      _ + 0 + 0 + _ + _
    rw [World.taken, List.length_take, List.length_drop]
    omega
  | @lock _ chunk htee =>
    have hsinks : s.members o = s.sinks o := State.members_of_not_locks (by rw [htee]; rfl)
    show LightrCri.Attach.ahead (s.tap o) (update s.tee o _ o) (s.world.out o).buf
      (unput s.world o) k = LightrCri.Attach.ahead _ _ _ _ k
    unfold LightrCri.Attach.ahead
    rw [hself, htee, Tee.due_start, if_pos (hsinks ▸ hmem)]
    show _ + chunk.length + 0 + _ + _ = _ + 0 + chunk.length + _ + _
    omega
  | @put _ chunk rest kept todo j n u htee hu _ hn hrest hroom =>
    show LightrCri.Attach.ahead (update s.tap o _ o) (update s.tee o _ o) (s.world.out o).buf
      (unput s.world o) k = LightrCri.Attach.ahead _ _ _ _ k
    unfold LightrCri.Attach.ahead
    rw [hself, hself, htee]
    by_cases hj : k = j
    · subst hj
      rw [queued_update_self, queued_eq hu]
      show (u.buf ++ rest.take n).length + (if k = k then rest.drop n else _).length + 0 + _ + _ =
        _ + (if k = k then rest else _).length + 0 + _ + _
      rw [if_pos rfl, if_pos rfl, List.length_append, List.length_take, List.length_drop]
      omega
    · rw [queued_update_of_ne hj]
      show _ + (if k = j then rest.drop n else _).length + 0 + _ + _ =
        _ + (if k = j then rest else _).length + 0 + _ + _
      rw [if_neg hj, if_neg hj]
  | @putLast _ chunk rest kept todo j u htee hu _ hrest hroom =>
    show LightrCri.Attach.ahead (update s.tap o _ o) (update s.tee o _ o) (s.world.out o).buf
      (unput s.world o) k = LightrCri.Attach.ahead _ _ _ _ k
    unfold LightrCri.Attach.ahead
    rw [hself, hself, htee, Tee.due_start]
    rw [State.members_of_broadcasting htee] at hlane
    by_cases hj : k = j
    · subst hj
      have hk : k ∉ todo := (List.nodup_cons.mp (List.nodup_append.mp hlane.nodup).2.1).1
      rw [queued_update_self, queued_eq hu, if_neg hk]
      show (u.buf ++ rest).length + 0 + 0 + _ + _ = _ + (if k = k then rest else _).length + 0 + _ + _
      rw [if_pos rfl, List.length_append]
    · rw [queued_update_of_ne hj]
      show _ = _ + (if k = j then rest else _).length + 0 + _ + _
      rw [if_neg hj]
      rfl
  | @broken _ chunk rest kept todo j u htee hu hclosed =>
    have hj : k ≠ j := by
      rintro rfl
      obtain rfl := Option.some.inj (ht.symm.trans hu)
      rw [hopen] at hclosed
      cases hclosed
    refine hidle ?_ (by rw [htee]; rfl)
    rw [htee, Tee.due_start]
    exact (if_neg hj).symm
  | unlock htee => exact hidle (by rw [htee]; rfl) (by rw [htee]; rfl)
  | line htee => rfl
  | resume htee => exact hidle (by rw [htee]; rfl) (by rw [htee]; rfl)
  | finish htee => exact hidle (by rw [htee]; rfl) (by rw [htee]; rfl)

/-- So does the process. -/
theorem State.ahead_put {n : Nat} {w : World} (hw : s.world.step (.put n) = some w) :
    { s with world := w : State }.ahead o k = s.ahead o k := by
  cases World.step_cases hw with
  | @put o' rest _ hproc hn hrest hroom =>
    unfold State.ahead
    rw [unput_put, unput_of_writing hproc]
    by_cases ho : o = o'
    · subst ho
      show LightrCri.Attach.ahead (s.tap o) (s.tee o) (update s.world.out o _ o).buf _ k = _
      rw [update_self, if_pos rfl, if_pos rfl]
      unfold LightrCri.Attach.ahead
      rw [List.length_append, List.length_take, List.length_drop]
      omega
    · show LightrCri.Attach.ahead (s.tap o) (s.tee o) (update s.world.out o' _ o).buf _ k = _
      rw [update_of_ne ho, if_neg (Ne.symm ho), if_neg (Ne.symm ho)]

/-- A step leaves the pipes that are not read from, and what comes to them, as they are. -/
theorem Inv.ahead_step {l : Label} (h : Inv s) (hl : l.serves stalled = true)
    (hstep : Attach.step s l = some s') :
    (s'.tap o k).map shape = (s.tap o k).map shape ∧
      ∀ t, s.tap o k = some t → t.unread (stalled k) = true → s'.ahead o k = s.ahead o k := by
  have hset {o' : Output} {j : Nat} {u : Tap} {u' : Tap} (hu : s.tap o' j = some u)
      (hshape : shape u' = shape u) :
      (update s.tap o' (update (s.tap o') j (some u')) o k).map shape = (s.tap o k).map shape := by
    by_cases ho : o = o'
    · subst ho
      rw [update_self]
      by_cases hj : k = j
      · subst hj
        rw [update_self, hu]
        exact congrArg some hshape
      · rw [update_of_ne hj]
    · rw [update_of_ne ho]
  cases l with
  | process a =>
    cases step_cases hstep with
    | process hw =>
      cases a with
      | put n => exact ⟨rfl, fun _ _ _ => State.ahead_put hw⟩
      | _ => cases hl
  | tee o' a =>
    have hcases := step_cases hstep
    refine ⟨?_, fun t ht hunread => ?_⟩
    · cases hcases with
      | put htee hu => exact hset hu rfl
      | putLast htee hu => exact hset hu rfl
      | _ => rfl
    · by_cases ho : o = o'
      · subst ho
        exact h.ahead_tee_self hcases ht (Tap.hasReader_of_unread hunread)
      · obtain ⟨hsame, -, hout⟩ := hcases.same_of_ne ho
        exact State.ahead_congr hsame (congrArg Pipe.buf hout) (hcases.unput_tee o)
  | attach j a =>
    cases step_cases hstep with
    | @receive _ n o' u hu hreading =>
      refine ⟨hset hu rfl, fun t ht hunread => ?_⟩
      show LightrCri.Attach.ahead (update s.tap o' _ o) (s.tee o) (s.world.out o).buf
        (unput s.world o) k = _
      by_cases ho : o = o'
      · subst ho
        have hj : k ≠ j := by
          rintro rfl
          obtain rfl := Option.some.inj (ht.symm.trans hu)
          have hreads : stalled k = false := by simpa [Label.serves] using hl
          simp [Tap.unread, hreading, hreads] at hunread
        unfold State.ahead LightrCri.Attach.ahead
        rw [update_self, queued_update_of_ne hj]
      · rw [update_of_ne ho]
        rfl
    | _ => cases hl
  | drop => cases hl
  | spawn => cases hl

theorem Inv.roomy_step {l : Label} (h : Inv s) (hroom : s.Roomy stalled)
    (hl : l.serves stalled = true) (hstep : Attach.step s l = some s') : s'.Roomy stalled := by
  intro o k t' ht' hunread'
  obtain ⟨hshape, hahead⟩ := h.ahead_step (o := o) (k := k) hl hstep
  rw [ht'] at hshape
  obtain ⟨t, ht, htt'⟩ := Option.map_eq_some_iff.mp hshape.symm
  have hunread := (Tap.unread_congr htt' _).trans hunread'
  rw [hahead t ht hunread, ← capacity_of_shape htt']
  exact hroom o k t ht hunread

/-- With room, nothing waits for a pipe that nobody reads from. -/
theorem Inv.idle_of_roomy (h : Inv s) (hroom : s.Roomy stalled)
    (hquiet : ∀ l : Label, l.serves stalled = true → Attach.step s l = none) (o : Output) :
    s.Idle o := by
  obtain hidle | ⟨k, u, hu, hunread, chunk, kept, rest, todo, t, htee, ht, -, hfull⟩ :=
    h.resting hquiet o
  · exact hidle
  · obtain rfl := Option.some.inj (hu.symm.trans ht)
    have hle := hroom o k u ht hunread
    have hrest := ((h.lane o).current _ _ _ _ htee).2.2.1
    have hpos := List.length_pos_iff.mpr hrest
    unfold State.ahead LightrCri.Attach.ahead at hle
    rw [queued_eq ht, htee] at hle
    have hdue : (Tee.broadcasting chunk kept rest (k :: todo)).due k = rest := if_pos rfl
    rw [hdue] at hle
    omega

theorem Inv.undisturbed (h : Inv s) (hidle : s.Idle o) (hunput : unput s.world o = []) :
    s.Undisturbed o := by
  obtain ⟨hsent, hlogged⟩ := h.idle hidle
  refine ⟨hunput, ?_, hlogged⟩
  rw [hsent]
  rcases hidle with ⟨htee, -⟩ | hended
  · rw [htee]
    rfl
  · rw [hended]
    rfl

/-- Where the container is undisturbed nothing is on its way. -/
theorem Inv.ahead_of_undisturbed {t : Tap} (h : Inv s) (hu : s.Undisturbed o)
    (ht : s.tap o k = some t) : s.ahead o k = t.buf.length := by
  have hprod := congrArg List.length (h.sound.produced o)
  unfold State.taken at hprod
  have hhanded := congrArg List.length hu.handed
  have hunput := congrArg List.length hu.unput
  rw [List.length_append, List.length_append] at hprod
  unfold State.ahead LightrCri.Attach.ahead
  rw [queued_eq ht, hunput]
  cases htee : s.tee o with
  | broadcasting chunk kept rest todo =>
    -- the chunk is not handed over yet
    obtain ⟨-, hchunk, -, hlast⟩ := (h.lane o).current _ _ _ _ htee
    have hpos := List.length_pos_iff.mpr hchunk
    have hsent := congrArg List.length
      (congrArg List.flatten (List.dropLast_append_getLast? chunk hlast))
    rw [List.flatten_append, List.flatten_singleton, List.length_append] at hsent
    rw [htee] at hhanded
    change (s.sent o).dropLast.flatten.length = _ at hhanded
    omega
  | _ =>
    rw [htee] at hhanded hprod
    change (s.sent o).flatten.length = _ at hhanded
    show _ + 0 + _ + _ + 0 = _
    omega

theorem Inv.settles_of_roomy (h : Inv s) (hroom : s.Roomy stalled) :
    Settles Attach.step (fun l : Label => l.serves stalled = true) s
      fun s' => ∀ o, s'.Undisturbed o := by
  refine settles_of_variant (I := fun s => Inv s ∧ s.Roomy stalled) State.work ?_ ?_ ⟨h, hroom⟩
  · intro s l s' ⟨hs, hroom⟩ hl hstep
    exact ⟨⟨hs.step hstep, hs.roomy_step hroom hl hstep⟩, hs.work_lt hl hstep⟩
  · intro s ⟨hs, hroom⟩ hquiet o
    have hidle := hs.idle_of_roomy hroom hquiet o
    exact hs.undisturbed hidle (hs.unput_eq_nil hquiet hidle)

theorem Inv.roomy_of_settles (h : Inv s)
    (hsettles : Settles Attach.step (fun l : Label => l.serves stalled = true) s
      fun s' => ∀ o, s'.Undisturbed o) : s.Roomy stalled := by
  obtain ⟨ls, s', hls, hrun, -, hu⟩ := hsettles.exists_quiet
  intro o k t ht hunread
  -- what is ahead of the pipe is the same in the end, and then it is in the pipe
  obtain ⟨hs', hshape, hahead⟩ : Inv s' ∧ (s'.tap o k).map shape = (s.tap o k).map shape ∧
      s'.ahead o k = s.ahead o k := by
    refine invariant_run (I := fun s' => Inv s' ∧ (s'.tap o k).map shape = (s.tap o k).map shape ∧
      s'.ahead o k = s.ahead o k) (P := fun _ l => l.serves stalled = true) ?_ ⟨h, rfl, rfl⟩
      (Along.of_labels hls) hrun
    intro a l b ⟨ha, hshape, hahead⟩ hl hstep
    obtain ⟨hshape', hahead'⟩ := ha.ahead_step (o := o) (k := k) hl hstep
    obtain ⟨u, hu, hut⟩ : ∃ u, a.tap o k = some u ∧ shape u = shape t := by
      rw [ht] at hshape
      exact Option.map_eq_some_iff.mp hshape
    exact ⟨ha.step hstep, hshape'.trans hshape,
      (hahead' u hu ((Tap.unread_congr hut _).trans hunread)).trans hahead⟩
  rw [ht] at hshape
  obtain ⟨t', ht', hshape'⟩ := Option.map_eq_some_iff.mp hshape
  rw [← hahead, hs'.ahead_of_undisturbed (hu o) ht', ← capacity_of_shape hshape']
  exact ((hs'.lane o).good k t' ht').room

/-- **A stalled attacher and the container.** In every state of every run, the container is
undisturbed by attachers that do not read from there on, and go on with their sessions, just when
the pipes that nobody reads from, theirs and those that only spawned processes have, have room for
what is already on its way to them. -/
theorem undisturbed_iff {stdin stdout stderr : Nat} (hout : 0 < stdout) (herr : 0 < stderr)
    {ls : List Label} {s : State} (stalled : Nat → Bool)
    (hrun : run step (init (World.init stdin stdout stderr)) ls = some s) :
    Settles step (fun l : Label => l.serves stalled = true) s (fun s' => ∀ o, s'.Undisturbed o) ↔
      s.Roomy stalled := by
  have h := Inv.run hout herr hrun
  exact ⟨h.roomy_of_settles, h.settles_of_roomy⟩

/-- The attacher is given a byte, which fills its pipe, and does not read. The process goes on to
write two lines. -/
def stalledRun : List Label :=
  [.attach 0 .clone, .attach 0 (.register .stdout 1 false), .attach 0 (.register .stderr 1 false),
    .attach 0 .opened, .process (.write .stdout [104, 10, 105, 10]), .process (.put 1),
    .tee .stdout (.read 1), .tee .stdout .lock, .tee .stdout (.put 1), .tee .stdout .unlock,
    .tee .stdout .resume, .process (.put 1), .tee .stdout (.read 1), .tee .stdout .lock,
    .process (.put 1)]

theorem undisturbed_iff_stalled : ∃ s, run step (init (World.init 1 1 1)) stalledRun = some s ∧
    (Settles step (fun l : Label => l.serves (· = 0) = true) s (fun s' => ∀ o, s'.Undisturbed o) ↔
      s.Roomy (· = 0)) := by
  have hrun : (run step (init (World.init 1 1 1)) stalledRun).isSome = true := by decide
  obtain ⟨s, hs⟩ := Option.isSome_iff_exists.mp hrun
  exact ⟨s, hs, undisturbed_iff (by decide) (by decide) _ hs⟩

/-- **A container disturbed**: the thread waits for the attacher, the process for the thread, and
the log has none of the lines. -/
theorem stalled_disturbs : ∃ s, run step (init (World.init 1 1 1)) stalledRun = some s ∧
    s.logged .stdout = [] ∧ unput s.world .stdout = [10] ∧
    ¬ Settles step (fun l : Label => l.serves (· = 0) = true) s fun s' => ∀ o, s'.Undisturbed o := by
  have hrun : (run step (init (World.init 1 1 1)) stalledRun).any fun s =>
      s.logged .stdout = [] ∧ unput s.world .stdout = [10] ∧ ((s.tap .stdout 0).any fun t =>
        t.reading = true ∧ t.capacity = 1) ∧ 1 < s.ahead .stdout 0 := by decide
  obtain ⟨s, hs, hend⟩ := (Option.any_eq_true _ _).mp hrun
  obtain ⟨hlogged, hunput, htap, hahead⟩ := of_decide_eq_true hend
  obtain ⟨t, ht, hopen⟩ := (Option.any_eq_true _ _).mp htap
  obtain ⟨hreading, hcapacity⟩ := of_decide_eq_true hopen
  refine ⟨s, hs, hlogged, hunput, fun hsettles => ?_⟩
  have h := Inv.run (by decide) (by decide) hs
  have hunread : t.unread true = true := by simp [Tap.unread, Tap.hasReader, hreading]
  have hroom := h.roomy_of_settles hsettles .stdout 0 t ht hunread
  omega

end

end LightrCri.Attach

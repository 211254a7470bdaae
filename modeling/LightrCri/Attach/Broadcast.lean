import LightrCri.Attach.Stall

/-!
# What the fan-out delivers

An attacher gets of its stream the chunks that are broadcast after its sink was registered, and the
log gets all of it, whoever else comes and goes (`fan_out`). What an attacher leaves behind holds
this up in one case: a process that was spawned while it was there has the read end of its pipe, so
that the broadcast goes on to write to it, and the pipe is full (`spawned_blocks`).
-/

namespace LightrCri.Attach

open Foundations LightrCri.Stream Function Spdy

section

variable {s s' : State} {o : Output}

/-! ## What a broadcast does to the others -/

/-- Between the states a sink was dropped, and nothing else has happened. -/
structure Dropped (s s' : State) (o : Output) (k : Nat) : Prop where
  members : s'.members o = (s.members o).erase k
  due : ∀ j, j ≠ k → (s'.tee o).due j = (s.tee o).due j
  tee : ∀ o', o' ≠ o → s'.tee o' = s.tee o'
  same : s' = { s with tee := s'.tee }

theorem Inv.broken (h : Inv s) (hstep : Step s (.tee o .broken) s') :
    ∃ k t, s.tap o k = some t ∧ t.hasReader = false ∧ Dropped s s' o k := by
  cases hstep with
  | @broken _ chunk rest kept todo k t htee htap hclosed =>
    have hself (x : Tee) : update s.tee o x o = x := update_self ..
    have hnodup := State.members_of_broadcasting htee ▸ (h.lane o).nodup
    have hk : k ∉ kept := fun hmem =>
      (List.nodup_cons.mp (List.nodup_middle.mp hnodup)).1 (List.mem_append_left _ hmem)
    refine ⟨k, t, htap, hclosed, ?_, fun j hj => ?_, fun o' ho => update_of_ne ho _ _, rfl⟩
    · rw [State.members_of_broadcasting (hself _), State.members_of_broadcasting htee,
        List.erase_append_right _ hk, List.erase_cons_head]
    · show (update s.tee o _ o).due j = _
      rw [hself, htee, Tee.due_start]
      exact (if_neg hj).symm

/-- A pipe stays the pipe of its sink, and no chunk is taken back. -/
def Grown (s s' : State) : Prop :=
  ∀ o, s.sent o <+: s'.sent o ∧
    ∀ k t, s.tap o k = some t → ∃ t', s'.tap o k = some t' ∧ t'.since = t.since

theorem Grown.refl (s : State) : Grown s s :=
  fun _ => ⟨List.prefix_rfl, fun _ t ht => ⟨t, ht, rfl⟩⟩

theorem Grown.trans {a b c : State} (hab : Grown a b) (hbc : Grown b c) : Grown a c := by
  intro o
  refine ⟨(hab o).1.trans (hbc o).1, fun k t ht => ?_⟩
  obtain ⟨t', ht', hsince⟩ := (hab o).2 k t ht
  obtain ⟨t'', ht'', hsince'⟩ := (hbc o).2 k t' ht'
  exact ⟨t'', ht'', hsince'.trans hsince⟩

theorem Step.grown {l : Label} (hstep : Step s l s') : Grown s s' := by
  have hsame {s' : State} (hsent : s'.sent = s.sent) (htap : s'.tap = s.tap) : Grown s s' := by
    intro o
    rw [hsent, htap]
    exact Grown.refl s o
  have hset {s' : State} {o : Output} {k : Nat} {t : Option Tap} (hsent : s'.sent = s.sent)
      (htap : s'.tap = update s.tap o (update (s.tap o) k t))
      (hsince : ∀ u, s.tap o k = some u → ∃ u', t = some u' ∧ u'.since = u.since) : Grown s s' := by
    intro o'
    rw [hsent, htap]
    refine ⟨List.prefix_rfl, fun j u hu => ?_⟩
    by_cases ho : o' = o
    · subst ho
      rw [update_self]
      by_cases hj : j = k
      · subst hj
        rw [update_self]
        exact hsince u hu
      · rw [update_of_ne hj]
        exact ⟨u, hu, rfl⟩
    · rw [update_of_ne ho]
      exact ⟨u, hu, rfl⟩
  have hsome {o : Output} {k : Nat} {t t' : Tap} (ht : s.tap o k = some t)
      (hsince : t'.since = t.since) (u : Tap) (hu : s.tap o k = some u) :
      ∃ u', some t' = some u' ∧ u'.since = u.since := by
    obtain rfl := Option.some.inj (ht.symm.trans hu)
    exact ⟨t', rfl, hsince⟩
  cases hstep with
  | @lock o chunk htee =>
    intro o'
    refine ⟨?_, fun k t ht => ⟨t, ht, rfl⟩⟩
    show s.sent o' <+: update s.sent o _ o'
    by_cases ho : o' = o
    · subst ho
      rw [update_self]
      exact List.prefix_append _ _
    · rw [update_of_ne ho]
  | put htee htap => exact hset rfl rfl (hsome htap rfl)
  | putLast htee htap => exact hset rfl rfl (hsome htap rfl)
  | register hclones htap =>
    refine hset rfl rfl fun u hu => ?_
    cases htap.symm.trans hu
  | @failed k hclones =>
    intro o
    refine ⟨List.prefix_rfl, fun j u hu => ?_⟩
    show ∃ u', update (s.tap o) k _ j = some u' ∧ _
    by_cases hj : j = k
    · subst hj
      rw [update_self, hu]
      exact ⟨_, rfl, rfl⟩
    · rw [update_of_ne hj]
      exact ⟨u, hu, rfl⟩
  | receive htap => exact hset rfl rfl (hsome htap rfl)
  | eof htap => exact hset rfl rfl (hsome htap rfl)
  | close htap => exact hset rfl rfl (hsome htap rfl)
  | release htap => exact hset rfl rfl (hsome htap rfl)
  | spawn =>
    refine fun o => ⟨List.prefix_rfl, fun k t ht => ?_⟩
    show ∃ t', (s.tap o k).map _ = some t' ∧ _
    rw [ht]
    exact ⟨_, rfl, rfl⟩
  | _ => exact hsame rfl rfl

theorem Grown.run {ls : List Label} (hrun : Foundations.run Attach.step s ls = some s') :
    Grown s s' :=
  relation_run (I := fun _ => True) (P := fun _ _ => True) Grown.refl (fun _ _ _ => Grown.trans)
    (fun _ _ _ _ _ hstep => ⟨trivial, (step_cases hstep).grown⟩) trivial (Along.trivial _ _) hrun

/-- The pipe of a sink counts the chunks from those that were broadcast before. -/
theorem register_run {k capacity : Nat} {held : Bool} {ls₁ ls₂ : List Label} {s₀ s₁ : State}
    (h₁ : run step s₀ ls₁ = some s₁)
    (hrun : run step s₀ (ls₁ ++ .attach k (.register o capacity held) :: ls₂) = some s) :
    ∃ t, s.tap o k = some t ∧ t.since = (s₁.sent o).length ∧ s₁.sent o <+: s.sent o := by
  obtain ⟨s₁', h₁', hrest⟩ := run_append_eq_some.mp hrun
  obtain rfl := Option.some.inj (h₁.symm.trans h₁')
  obtain ⟨s₂, h₂, h₃⟩ := run_cons_eq_some.mp hrest
  have hgrown := Grown.run h₃ o
  cases step_cases h₂ with
  | register =>
    have htap : update s₁.tap o (update (s₁.tap o) k
        (some ⟨capacity, [], true, [], false, (s₁.sent o).length, held, held⟩)) o k =
        some ⟨capacity, [], true, [], false, (s₁.sent o).length, held, held⟩ := by
      rw [update_self, update_self]
    obtain ⟨t, ht, hsince⟩ := hgrown.2 k _ htap
    exact ⟨t, ht, hsince, hgrown.1⟩

/-! ## Delivery -/

/-- No process was spawned while pipes were open. -/
def State.Unheld (s : State) : Prop := ∀ o k t, s.tap o k = some t → t.heldRead = false

/-- The label spawns no process. -/
def Label.spawns : Label → Bool
  | .spawn => true
  | .attach _ (.register _ _ held) => held
  | _ => false

theorem State.Unheld.step {l : Label} (h : s.Unheld) (hl : l.spawns = false)
    (hstep : Attach.step s l = some s') : s'.Unheld := by
  have hset {s' : State} {o' : Output} {j : Nat} {u : Tap}
      (htap : s'.tap = update s.tap o' (update (s.tap o') j (some u))) (hu : u.heldRead = false) :
      s'.Unheld := by
    intro o k t ht
    rw [htap] at ht
    by_cases ho : o = o'
    · subst ho
      rw [update_self] at ht
      by_cases hj : k = j
      · subst hj
        rw [update_self] at ht
        exact Option.some.inj ht ▸ hu
      · rw [update_of_ne hj] at ht
        exact h o k t ht
    · rw [update_of_ne ho] at ht
      exact h o k t ht
  cases step_cases hstep with
  | put _ htap => exact hset rfl (h _ _ _ htap :)
  | putLast _ htap => exact hset rfl (h _ _ _ htap :)
  | register => exact hset rfl hl
  | @failed j =>
    intro o k t ht
    change update (s.tap o) j _ k = some t at ht
    by_cases hj : k = j
    · subst hj
      rw [update_self] at ht
      obtain ⟨u, hu, rfl⟩ := Option.map_eq_some_iff.mp ht
      exact h o k u hu
    · rw [update_of_ne hj] at ht
      exact h o k t ht
  | receive htap => exact hset rfl (h _ _ _ htap :)
  | eof htap => exact hset rfl (h _ _ _ htap :)
  | close htap => exact hset rfl (h _ _ _ htap :)
  | release htap => exact hset rfl (by rw [h _ _ _ htap, Bool.false_and])
  | spawn => cases hl
  | _ => exact h

theorem State.Unheld.run {world : World} {ls : List Label} (hls : ∀ l ∈ ls, l.spawns = false)
    (hrun : Foundations.run Attach.step (init world) ls = some s) : s.Unheld :=
  invariant_run (I := State.Unheld) (P := fun _ l => l.spawns = false)
    (fun _ _ _ h hl hstep => h.step hl hstep) (fun _ _ _ ht => by cases ht) (Along.of_labels hls)
    hrun

/-- Then only an attacher that stalls can hold up the broadcast. -/
theorem State.Unheld.roomy (h : s.Unheld) : s.Roomy fun _ => false := by
  intro o k t ht hunread
  cases hreading : t.reading with
  | true => simp [Tap.unread, hreading] at hunread
  | false => simp [Tap.unread, Tap.hasReader, hreading, h o k t ht] at hunread

/-- **Fan-out.** An attacher gets, of its stream, the chunks broadcast after its sink was
registered, and the end only after all of them and the end of the stream; a sink that is dropped
leaves the rest as it is; and as the attachers read, everything is delivered and logged, just when
the pipes of those that have gone, and that a spawned process has, have room for what is already on
its way to them. -/
theorem fan_out {stdin stdout stderr : Nat} (hout : 0 < stdout) (herr : 0 < stderr)
    {ls : List Label} {s : State}
    (hrun : run step (init (World.init stdin stdout stderr)) ls = some s) :
    (∀ o, (s.sent o).flatten <+: s.world.produced o) ∧
    (∀ o k capacity held ls₁ ls₂ s₁,
      ls = ls₁ ++ .attach k (.register o capacity held) :: ls₂ →
      run step (init (World.init stdin stdout stderr)) ls₁ = some s₁ →
      ∃ t, s.tap o k = some t ∧ t.since = (s₁.sent o).length ∧ s₁.sent o <+: s.sent o) ∧
    (∀ o k t, s.tap o k = some t → t.received <+: s.suffix o t ∧
      (t.eof = true → t.received = s.suffix o t ∧ s.world.produced o = (s.sent o).flatten ∧
        (s.world.out o).atEnd)) ∧
    (∀ o, s.logged o <+: records (s.world.produced o)) ∧
    (∀ o s', step s (.tee o .broken) = some s' →
      ∃ k t, s.tap o k = some t ∧ t.hasReader = false ∧ Dropped s s' o k) ∧
    (Settles step (fun l : Label => l.serves (fun _ => false) = true) s (fun s' => ∀ o,
        s'.Undisturbed o ∧ s'.world.produced o = (s'.sent o).flatten ∧
          ∀ k t, s'.tap o k = some t → t.reading = true → t.received = s'.suffix o t) ↔
      s.Roomy fun _ => false) := by
  have h := Inv.run hout herr hrun
  refine ⟨fun o => ?_, fun o k capacity held ls₁ ls₂ s₁ hls h₁ => ?_,
    fun o k t ht => ⟨?_, fun he => ?_⟩, fun o => ?_, fun o s' hstep => h.broken (step_cases hstep),
    fun hsettles => ?_, fun hroom => ?_⟩
  · rw [h.sound.produced, State.taken, List.append_assoc]
    exact List.prefix_append _ _
  · subst hls
    exact register_run h₁ hrun
  · exact (List.prefix_append _ _).trans ((h.lane o).good k t ht).sound
  · obtain ⟨hended, hall⟩ := ((h.lane o).good k t ht).eof he
    exact ⟨hall, (h.idle (.inr hended)).1, (h.lane o).ended hended⟩
  · exact h.logged_prefix o
  · exact h.roomy_of_settles (hsettles.mono fun s' hs' o => (hs' o).1)
  · refine settles_of_variant (I := fun s => Inv s ∧ s.Roomy fun _ => false) State.work ?_ ?_
      ⟨h, hroom⟩
    · rintro s l s' ⟨hs, hroom⟩ hl hstep
      exact ⟨⟨hs.step hstep, hs.roomy_step hroom hl hstep⟩, hs.work_lt hl hstep⟩
    · rintro s ⟨hs, hroom⟩ hquiet o
      have hidle := hs.idle_of_roomy hroom hquiet o
      exact ⟨hs.undisturbed hidle (hs.unput_eq_nil hquiet hidle), (hs.idle hidle).1,
        fun k t ht hopen => hs.received hquiet hidle ht hopen rfl⟩

/-- An attacher registers its sinks while a first chunk waits for them, and gets it. -/
def attachedRun : List Label :=
  [.process (.write .stdout [104, 10]), .process (.put 2), .tee .stdout (.read 2), .attach 0 .clone,
    .attach 0 (.register .stdout 4 false), .attach 0 (.register .stderr 4 false),
    .attach 0 .opened, .tee .stdout .lock, .tee .stdout (.put 2), .attach 0 (.read .stdout 1)]

theorem fan_out_attached : ∃ s t, run step (init (World.init 4 4 4)) attachedRun = some s ∧
    s.tap .stdout 0 = some t ∧ t.received = [104] ∧ t.received <+: s.suffix .stdout t ∧
    Settles step (fun l : Label => l.serves (fun _ => false) = true) s fun s' => ∀ o,
      s'.Undisturbed o ∧ s'.world.produced o = (s'.sent o).flatten ∧
        ∀ k t, s'.tap o k = some t → t.reading = true → t.received = s'.suffix o t := by
  have hrun : (run step (init (World.init 4 4 4)) attachedRun).any fun s =>
      (s.tap .stdout 0).any fun t => t.received = [104] := by decide
  obtain ⟨s, hs, htap⟩ := (Option.any_eq_true _ _).mp hrun
  obtain ⟨t, ht, hreceived⟩ := (Option.any_eq_true _ _).mp htap
  obtain ⟨-, -, hgot, -, -, hsettles⟩ := fan_out (by decide) (by decide) hs
  exact ⟨s, t, hs, ht, of_decide_eq_true hreceived, (hgot .stdout 0 t ht).1,
    hsettles.mpr (State.Unheld.run (by decide) hs).roomy⟩

/-- While two attachers are there a process is spawned, say for an exec in another container; then
the first of them goes. The container writes a line that does not fit into its pipe. -/
def spawnedRun : List Label :=
  [.attach 0 .clone, .attach 0 (.register .stdout 2 false), .attach 0 (.register .stderr 2 false),
    .attach 0 .opened, .attach 1 .clone, .attach 1 (.register .stdout 2 false),
    .attach 1 (.register .stderr 2 false), .attach 1 .opened, .spawn, .attach 0 (.close .stdout),
    .attach 0 (.close .stderr), .process (.write .stdout [104, 105, 10]), .process (.put 3),
    .tee .stdout (.read 3), .tee .stdout .lock, .tee .stdout (.put 2)]

/-- **An attacher that gets nothing**: the broadcast waits for one that has gone. -/
theorem spawned_blocks : ∃ s t u, run step (init (World.init 4 4 4)) spawnedRun = some s ∧
    s.tap .stdout 0 = some u ∧ u.reading = false ∧ s.tap .stdout 1 = some t ∧ t.reading = true ∧
    t.received = [] ∧ s.suffix .stdout t = [104, 105, 10] ∧ s.log = [] ∧
    s.pending .stdout = [] ∧ step s (.tee .stdout .broken) = none ∧
    ¬ Settles step (fun l : Label => l.serves (fun _ => false) = true) s fun s' => ∀ o,
      s'.Undisturbed o ∧ s'.world.produced o = (s'.sent o).flatten ∧
        ∀ k t, s'.tap o k = some t → t.reading = true → t.received = s'.suffix o t := by
  have hrun : (run step (init (World.init 4 4 4)) spawnedRun).any fun s =>
      ((s.tap .stdout 0).any fun u => u.reading = false ∧ u.unread false = true ∧ u.capacity = 2) ∧
      ((s.tap .stdout 1).any fun t => t.reading = true ∧ t.received = [] ∧
        s.suffix .stdout t = [104, 105, 10]) ∧
      s.log = [] ∧ s.pending .stdout = [] ∧ (step s (.tee .stdout .broken)).isNone ∧
      2 < s.ahead .stdout 0 := by decide
  obtain ⟨s, hs, hend⟩ := (Option.any_eq_true _ _).mp hrun
  obtain ⟨hgone, hstays, hlog, hpending, hbroken, hahead⟩ := of_decide_eq_true hend
  obtain ⟨u, hu, hgone⟩ := (Option.any_eq_true _ _).mp hgone
  obtain ⟨hclosed, hunread, hcapacity⟩ := of_decide_eq_true hgone
  obtain ⟨t, ht, hstays⟩ := (Option.any_eq_true _ _).mp hstays
  obtain ⟨hreading, hreceived, hsuffix⟩ := of_decide_eq_true hstays
  refine ⟨s, t, u, hs, hu, hclosed, ht, hreading, hreceived, hsuffix, hlog, hpending,
    Option.isNone_iff_eq_none.mp hbroken, fun hsettles => ?_⟩
  have h := Inv.run (by decide) (by decide) hs
  have hroom := h.roomy_of_settles (hsettles.mono fun s' hs' o => (hs' o).1) .stdout 0 u hu hunread
  omega

end

end LightrCri.Attach

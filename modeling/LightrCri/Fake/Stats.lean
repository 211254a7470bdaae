import LightrCri.Fake.Faults
import LightrCri.Fake.Filters
import LightrCri.Foundations.Values

/-!
# The statistics of the containers

`list_container_stats` collects the ids of the containers that match the filter in one critical
section of the cache, and then calls `container_stats` for one after the other, each of which takes
the lock again. It only reads, so it is followed here as an observer beside the backend (`observe`):
between any two of its critical sections there may be any steps of the calls and the reapers.

A container that is removed in between is not found, and that is the result of the whole call
(`removed_between`). While none is, the result has the containers that were collected, once each
(`list_stats_spared`).
-/

namespace LightrCri.Fake

open Backend Foundations

/-! ## The call -/

structure ContainerStatsRec where
  id : ContainerId
  timestampNanos : Int
  cpuUsageCoreNanos : Nat
  memoryWorkingSetBytes : Nat
  deriving DecidableEq, Repr

/-- What `container_stats` gets from outside: the clock, and what `read_proc_stats` gives for the
process id. -/
structure StatsOracle where
  clock : Int := 0
  procStats : Nat → Nat × Nat := fun _ => (0, 0)

def containerStats (o : StatsOracle) (c : Cache) (id : ContainerId) :
    Except BackendError ContainerStatsRec :=
  match c.containers[id]? with
  | none => .error (.notFound ("container " ++ id.val))
  | some r =>
    if r.state ≠ .running ∨ r.pid = 0 then .ok ⟨id, o.clock, 0, 0⟩
    else .ok ⟨id, o.clock, (o.procStats r.pid).1, (o.procStats r.pid).2⟩

/-- The ids of the containers that match. -/
def collectIds (c : Cache) (f : ContainerFilter) : List ContainerId :=
  (c.containers.values.filter fun r => containerMatches r f).map ContainerRecord.id

/-- Where a call of `list_container_stats` is. -/
inductive StatsCall
  | called (f : ContainerFilter)
  /-- With the ids to go and the records of the others. -/
  | looking (ids : List ContainerId) (recs : List ContainerStatsRec)
  | returned (r : Except BackendError (List ContainerStatsRec))
  /-- The listener was killed. -/
  | gone

/-- The containers that it still has to look up. -/
def StatsCall.ids : StatsCall → List ContainerId
  | .looking ids _ => ids
  | _ => []

def StatsCall.result : StatsCall → Option (Except BackendError (List ContainerStatsRec))
  | .returned r => some r
  | _ => none

theorem StatsCall.result_eq_some {call : StatsCall}
    {r : Except BackendError (List ContainerStatsRec)} : call.result = some r ↔ call = .returned r := by
  cases call <;> simp [result]

structure Observed where
  backend : State
  call : StatsCall

inductive ObserverLabel
  | backend (l : Label)
  /-- The call takes its next step. -/
  | call (o : StatsOracle)

def ObserverLabel.isCall : ObserverLabel → Bool
  | .call _ => true
  | .backend _ => false

def ObserverLabel.isRestart : ObserverLabel → Bool
  | .backend l => !noRestart l
  | .call _ => false

/-- The next step of the call, with the lock of the cache free. -/
def StatsCall.step (o : StatsOracle) (c : Cache) : StatsCall → Option StatsCall
  | .called f => some (.looking (collectIds c f) [])
  | .looking (id :: ids) recs =>
    match containerStats o c id with
    | .ok r => some (.looking ids (recs ++ [r]))
    | .error e => some (.returned (.error e))
  | .looking [] recs => some (.returned (.ok recs))
  | .returned _ => none
  | .gone => none

/-- A step of the backend or of the call beside it. -/
def observe (s : Observed) : ObserverLabel → Option Observed
  | .backend l =>
    (Fake.step s.backend l).map fun backend => ⟨backend, if noRestart l then s.call else .gone⟩
  | .call o =>
    if s.backend.shared.lock = none then
      (s.call.step o s.backend.shared.cache).map fun call => ⟨s.backend, call⟩
    else none

/-! ## What the call relies on -/

/-- The step does not remove a container that the call still has to look up, and does not kill the
listener. -/
def spares (s : Observed) : ObserverLabel → Bool
  | .call _ => true
  | .backend (.restart _) => false
  | .backend (.step i _) =>
    match s.backend.top i with
    | some (.crit (.dropContainer id)) => !(s.call.ids.contains id)
    | _ => true
  | .backend _ => true

/-- The containers to be looked up are there, and with those that were they are the ones collected.
-/
def Collected (wanted : List ContainerId) (s : Observed) : Prop :=
  match s.call with
  | .looking ids recs =>
    recs.map ContainerStatsRec.id ++ ids = wanted ∧
      ∀ id ∈ ids, (s.backend.shared.cache.containers[id]?).isSome = true
  | .returned r => ∃ recs, r = .ok recs ∧ recs.map ContainerStatsRec.id = wanted
  | _ => False

theorem containerStats_ok {o : StatsOracle} {c : Cache} {id : ContainerId}
    (h : (c.containers[id]?).isSome = true) :
    ∃ r, containerStats o c id = .ok r ∧ r.id = id := by
  obtain ⟨r, hr⟩ := Option.isSome_iff_exists.mp h
  unfold containerStats
  rw [hr]
  dsimp only
  split_ifs
  · exact ⟨_, rfl, rfl⟩
  · exact ⟨_, rfl, rfl⟩

/-- A container stays in the cache unless it is dropped. -/
theorem isSome_of_exec {self n : Nat} {o : Oracle} {f : Frame} {w w' : World} {out : Out}
    (hex : exec self n o f w = some (w', out)) {id : ContainerId}
    (hf : f ≠ .crit (.dropContainer id)) (h : (w.cache.containers[id]?).isSome = true) :
    (w'.cache.containers[id]?).isSome = true := by
  cases exec_record id hex with
  | same record =>
    rw [record]
    exact h
  | dropped frame => exact (hf frame).elim
  | intent r t _ _ new => rw [new]; rfl
  | spawnFailed r r' e _ _ new => rw [new]; rfl
  | persistPid r pid _ _ new => rw [new]; rfl
  | stopped r r' grace _ _ _ new => rw [new]; rfl
  | reaped r r' t st _ _ _ new => rw [new]; rfl
  | inserted r _ _ new => rw [new]; rfl

theorem isSome_of_step {s s' : State} {l : Label} (hstep : Fake.step s l = some s')
    (hl : noRestart l = true) {id : ContainerId}
    (hdrop : ∀ i o, l = .step i o → s.top i ≠ some (.crit (.dropContainer id)))
    (h : (s.shared.cache.containers[id]?).isSome = true) :
    (s'.shared.cache.containers[id]?).isSome = true := by
  cases l with
  | invoke c =>
    obtain rfl := Option.some.inj hstep
    exact h
  | step i o =>
    obtain ⟨t, f, k, out, hadv⟩ := Pool.advance_eq_some hstep
    refine isSome_of_exec hadv.exec (fun hf => hdrop i o rfl ?_) h
    rw [hadv.top_eq, hf]
  | exit q st =>
    obtain ⟨p, -, rfl⟩ := step_exit hstep
    exact h
  | foreign pid =>
    obtain ⟨-, -, rfl⟩ := step_foreign hstep
    exact h
  | restart rs => cases hl

theorem Collected.step {wanted : List ContainerId} {s s' : Observed} {l : ObserverLabel}
    (h : Collected wanted s) (hl : spares s l = true) (hstep : observe s l = some s') :
    Collected wanted s' := by
  obtain ⟨backend, call⟩ := s
  cases l with
  | backend l =>
    obtain ⟨backend', hbackend, rfl⟩ := Option.map_eq_some_iff.mp hstep
    have hno : noRestart l = true := by
      cases l with
      | restart rs => cases hl
      | _ => rfl
    have hdrop : ∀ id ∈ call.ids, ∀ i o, l = .step i o →
        backend.top i ≠ some (.crit (.dropContainer id)) := by
      rintro id hid i o rfl htop
      simp only [spares, htop, Bool.not_eq_true', List.contains_eq_mem, decide_eq_false_iff_not] at hl
      exact hl hid
    unfold Collected at h ⊢
    dsimp only at h ⊢
    rw [hno, if_pos rfl]
    cases call with
    | looking ids recs =>
      exact ⟨h.1, fun id hid => isSome_of_step hbackend hno (hdrop id hid) (h.2 id hid)⟩
    | returned r => exact h
    | called f => exact h
    | gone => exact h
  | call o =>
    rw [observe] at hstep
    split_ifs at hstep
    obtain ⟨call', hcall, rfl⟩ := Option.map_eq_some_iff.mp hstep
    unfold Collected at h ⊢
    dsimp only at h hcall ⊢
    cases call with
    | looking ids recs =>
      obtain ⟨heq, hpresent⟩ := h
      cases ids with
      | nil =>
        obtain rfl := Option.some.inj hcall
        exact ⟨recs, rfl, (List.append_nil _).symm.trans heq⟩
      | cons id ids =>
        obtain ⟨r, hr, hid⟩ := @containerStats_ok o _ _ (hpresent id List.mem_cons_self)
        rw [StatsCall.step, hr] at hcall
        obtain rfl := Option.some.inj hcall
        refine ⟨?_, fun id' hid' => hpresent id' (List.mem_cons_of_mem _ hid')⟩
        rw [← heq, List.map_append, List.append_assoc, ← hid]
        rfl
    | returned r => cases hcall
    | called f => exact h.elim
    | gone => exact h.elim

/-! ## The call returns -/

/-- The steps that the call still has to take. -/
def StatsCall.left : StatsCall → Nat
  | .called _ => 0
  | .looking ids _ => ids.length + 1
  | _ => 0

/-- With the lock free the call returns by its own steps. -/
theorem Collected.returns {wanted : List ContainerId} {s : Observed} (h : Collected wanted s)
    (hlock : s.backend.shared.lock = none) :
    Reaches observe (fun l => l.isCall = true) s fun s' =>
      ∃ recs, s'.call = .returned (.ok recs) ∧ recs.map ContainerStatsRec.id = wanted := by
  refine reaches_of_variant
    (I := fun s => Collected wanted s ∧ s.backend.shared.lock = none) (fun s => s.call.left)
    (fun s ⟨h, hlock⟩ => ?_) ⟨h, hlock⟩
  obtain ⟨backend, call⟩ := s
  have hgo {call' : StatsCall} (hcall : call.step {} backend.shared.cache = some call') :
      observe ⟨backend, call⟩ (.call {}) = some ⟨backend, call'⟩ := by
    rw [observe, if_pos hlock, hcall]
    rfl
  have hkept := h
  unfold Collected at h
  cases call with
  | looking ids recs =>
    right
    cases ids with
    | nil =>
      have hstep := hgo rfl
      exact ⟨_, _, rfl, hstep, ⟨hkept.step rfl hstep, hlock⟩, Nat.zero_lt_one⟩
    | cons id ids =>
      obtain ⟨r, hr, -⟩ := @containerStats_ok {} _ _ (h.2 id List.mem_cons_self)
      have hstep := @hgo (.looking ids (recs ++ [r])) (by rw [StatsCall.step, hr])
      exact ⟨_, _, rfl, hstep, ⟨hkept.step rfl hstep, hlock⟩, Nat.lt_succ_self _⟩
  | returned r =>
    obtain ⟨recs, rfl, heq⟩ := h
    exact .inl ⟨recs, rfl, heq⟩
  | called f => exact h.elim
  | gone => exact h.elim

/-! ## What is collected -/

theorem mem_collectIds {c : Cache} (hk : c.Keyed) {f : ContainerFilter} {id : ContainerId} :
    id ∈ collectIds c f ↔ ∃ r, c.containers[id]? = some r ∧ containerMatches r f = true := by
  unfold collectIds
  rw [List.mem_map]
  constructor
  · rintro ⟨r, hr, rfl⟩
    obtain ⟨hvalue, hmatch⟩ := List.mem_filter.mp hr
    obtain ⟨id, hid⟩ := mem_values.mp hvalue
    have hkey : r.id = id := hk.container hid
    exact ⟨r, hkey ▸ hid, hmatch⟩
  · rintro ⟨r, hr, hmatch⟩
    exact ⟨r, List.mem_filter.mpr ⟨mem_values.mpr ⟨id, hr⟩, hmatch⟩, hk.container hr⟩

theorem nodup_collectIds {c : Cache} (hk : c.Keyed) (f : ContainerFilter) :
    (collectIds c f).Nodup := by
  have hkeys : c.containers.values.Pairwise fun r r' => r.id ≠ r'.id :=
    pairwise_values fun _ _ hr => (hk.container hr).symm
  exact List.pairwise_map.mpr (hkeys.filter _)

/-- The container matches the filter, and is there, in every state of the call. -/
def Throughout (s : Observed) (ls : List ObserverLabel) (f : ContainerFilter) (id : ContainerId) : Prop :=
  ∀ ls₁ ls₂ s₁, ls = ls₁ ++ ls₂ → run observe s ls₁ = some s₁ →
    ∃ r, s₁.backend.shared.cache.containers[id]? = some r ∧ containerMatches r f = true

/-- Where the ids were collected. -/
theorem exists_collected {listener : Nat} {blake3 : String → String} {ls : List Label} {s : State}
    (hrun : run step (init listener blake3) ls = some s) {f : ContainerFilter}
    {ls' : List ObserverLabel} {s' : Observed}
    (hspares : Along observe (fun s l => spares s l = true) ⟨s, .called f⟩ ls')
    (hrun' : run observe ⟨s, .called f⟩ ls' = some s') :
    s'.call = .called f ∨ ∃ ls₁ ls₂ s₁, ls' = ls₁ ++ ls₂ ∧
      run observe ⟨s, .called f⟩ ls₁ = some s₁ ∧ s₁.backend.shared.cache.Keyed ∧
      Collected (collectIds s₁.backend.shared.cache f) s' := by
  induction ls' generalizing s ls with
  | nil =>
    obtain rfl := Option.some.inj hrun'
    exact .inl rfl
  | cons l ls' ih =>
    obtain ⟨hl, hrest⟩ := hspares
    obtain ⟨s₁, hstep, hrun₁⟩ := run_cons_eq_some.mp hrun'
    cases l with
    | backend l =>
      obtain ⟨backend, hbackend, rfl⟩ := Option.map_eq_some_iff.mp hstep
      have hno : noRestart l = true := by
        cases l with
        | restart rs => cases hl
        | _ => rfl
      have hreached : run step (init listener blake3) (ls ++ [l]) = some backend :=
        run_append_eq_some.mpr ⟨s, hrun, run_cons_eq_some.mpr ⟨backend, hbackend, rfl⟩⟩
      have halong := hrest _ hstep
      rw [hno, if_pos rfl] at hrun₁ halong
      rcases ih hreached halong hrun₁ with hcalled | ⟨ls₁, ls₂, s₂, rfl, hrun₂, hkeyed, hcollected⟩
      · exact .inl hcalled
      · refine .inr ⟨.backend l :: ls₁, ls₂, s₂, rfl, run_cons_eq_some.mpr ⟨_, hstep, ?_⟩, hkeyed,
          hcollected⟩
        rw [hno, if_pos rfl]
        exact hrun₂
    | call o =>
      refine .inr ⟨[], .call o :: ls', ⟨s, .called f⟩, rfl, rfl, keyed_run hrun, ?_⟩
      have hcollected : Collected (collectIds s.shared.cache f) s₁ := by
        rw [observe] at hstep
        split_ifs at hstep
        obtain rfl := Option.some.inj hstep
        refine ⟨rfl, fun id hid => ?_⟩
        obtain ⟨r, hr, -⟩ := (mem_collectIds (keyed_run hrun)).mp hid
        exact Option.isSome_iff_exists.mpr ⟨r, hr⟩
      exact invariant_run (fun _ _ _ h hl hstep => h.step hl hstep) hcollected (hrest s₁ hstep) hrun₁

/-- **The list of the statistics, where nothing is removed that is still to be looked up**: the call
returns Ok, with no container twice, and with every container that matched and was there all the
time; and once it has collected the ids it returns by its own steps whenever the lock is free. -/
theorem list_stats_spared {listener : Nat} {blake3 : String → String} {ls : List Label} {s : State}
    (hrun : run step (init listener blake3) ls = some s) {f : ContainerFilter}
    {ls' : List ObserverLabel} {s' : Observed}
    (hspares : Along observe (fun s l => spares s l = true) ⟨s, .called f⟩ ls')
    (hrun' : run observe ⟨s, .called f⟩ ls' = some s') :
    (∀ res, s'.call = .returned res → ∃ recs, res = .ok recs ∧
        (recs.map ContainerStatsRec.id).Nodup ∧
        ∀ id, Throughout ⟨s, .called f⟩ ls' f id → id ∈ recs.map ContainerStatsRec.id) ∧
      (s'.call ≠ .called f → s'.backend.shared.lock = none →
        Reaches observe (fun l => l.isCall = true) s' fun s'' => ∃ recs, s''.call = .returned (.ok recs)) := by
  rcases exists_collected hrun hspares hrun' with hcalled | ⟨ls₁, ls₂, s₁, hsplit, hrun₁, hkeyed, h⟩
  · refine ⟨fun res hres => ?_, fun hne => (hne hcalled).elim⟩
    cases hcalled.symm.trans hres
  · refine ⟨fun res hres => ?_, fun _ hlock => ?_⟩
    · unfold Collected at h
      rw [hres] at h
      obtain ⟨recs, rfl, heq⟩ := h
      refine ⟨recs, rfl, heq ▸ nodup_collectIds hkeyed f, fun id hid => ?_⟩
      rw [heq]
      exact (mem_collectIds hkeyed).mpr (hid ls₁ ls₂ s₁ hsplit hrun₁)
    · obtain ⟨ls, s'', hls, hreturned, recs, hrecs, -⟩ := h.returns hlock
      exact ⟨ls, s'', hls, hreturned, recs, hrecs⟩

/-- A container is created after the ids were collected. -/
def createdMeanwhile : List ObserverLabel :=
  [ObserverLabel.call {},
    .backend (.invoke (.createContainer podSandbox { name := "side", imageRef := "img" }))] ++
    List.replicate 6 (.backend (.step 2 {})) ++ [ObserverLabel.call {}, .call {}]

theorem list_stats_spared_created : ∃ s', run observe ⟨podState, .called {}⟩ createdMeanwhile = some s' ∧
    ∃ res, s'.call = .returned res ∧ ∃ recs, res = .ok recs ∧
      (recs.map ContainerStatsRec.id).Nodup := by
  have hrun : (run observe ⟨podState, .called {}⟩ createdMeanwhile).any fun s => s.call.result.isSome := by decide
  obtain ⟨s', hs', hend⟩ := (Option.any_eq_true _ _).mp hrun
  obtain ⟨res, hres⟩ := Option.isSome_iff_exists.mp hend
  rw [StatsCall.result_eq_some] at hres
  obtain ⟨recs, hok, hnodup, -⟩ := (list_stats_spared run_podRun (by decide) hs').1 res hres
  exact ⟨s', hs', res, hres, recs, hok, hnodup⟩

/-- The container is removed after the ids were collected. -/
def removedMeanwhile : List ObserverLabel :=
  [ObserverLabel.call {}, .backend (.invoke (.removeContainer podContainer))] ++
    List.replicate 2 (.backend (.step 2 {})) ++ [ObserverLabel.call {}]

/-- **A container is removed between the collection and its lookup**: the whole call fails. -/
theorem removed_between :
    ¬ ∀ (listener : Nat) (blake3 : String → String) (ls : List Label) (s : State) (f : ContainerFilter)
      (ls' : List ObserverLabel) (s' : Observed), run step (init listener blake3) ls = some s →
      (∀ l ∈ ls', l.isRestart = false) → run observe ⟨s, .called f⟩ ls' = some s' →
      ∀ res, s'.call = .returned res → res.isOk := by
  intro h
  have hrun : (run observe ⟨podState, .called {}⟩ removedMeanwhile).any fun s =>
      s.call.result.any fun r => !r.isOk := by decide
  obtain ⟨s', hs', hend⟩ := (Option.any_eq_true _ _).mp hrun
  obtain ⟨res, hres, hfails⟩ := (Option.any_eq_true _ _).mp hend
  have hok := h 1 id podRun podState {} removedMeanwhile s' run_podRun (by decide) hs' res
    (StatsCall.result_eq_some.mp hres)
  rw [hok] at hfails
  cases hfails

end LightrCri.Fake

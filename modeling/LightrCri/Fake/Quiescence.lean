import LightrCri.Fake.Launch
import LightrCri.Fake.Ledger

/-!
# Cache and disk at quiescence

`stop_sandbox`, `start_container` and `stop_container` write the file of a record after they have
dropped the lock, so a write may land after the record was replaced or removed by another call
(`stale_write`). When every such write lands while its record is still the cached one, and no two
writes in flight share a temporary file, the cache and the files agree whenever no call is in
flight and the lock is free (`quiescent_agree`). The invariant is that an object on which they do
not agree is owed to the disk, or to the cache, by a task (`Agree`).
-/

namespace LightrCri.Fake

open Backend Foundations

/-! ## Conditions -/

/-- If the step lands a record that was written after the lock was dropped, the record is still
the cached one. -/
def landsCurrent (s : State) : Label → Bool
  | .step i _ =>
    match s.top i, dutyOf (s.stack i) with
    | some (.file (.rename _ _ _ _)), .persists r false => s.shared.cache.get r.obj = some r
    | _, _ => true
  | _ => true

/-! ## The invariant -/

/-- With the cached record `c` and the stored record `x` of an object, the duty brings the two
together. -/
inductive Owes : Duty → Obj → Option DiskRecord → Option DiskRecord → Prop
  | persists (r l x) : Owes (.persists r l) r.obj (some r) x
  | removes (ob x) : Owes (.removes ob) ob none x
  | issues (r) : Owes (.issues r true) r.obj none (some r)

/-- An object on which the cache and the disk do not agree is owed by a task. -/
def Agree (s : State) : Prop :=
  ∀ ob, ob.minted → s.shared.disk.load ob = s.shared.cache.get ob ∨
    ∃ t ∈ s.tasks, ∃ d, Stack d t.frames ∧
      Owes d ob (s.shared.cache.get ob) (s.shared.disk.load ob)

/-- What a step leaves of an object: nothing has changed, or it is settled, or it is owed by the
task that made the step. -/
theorem Change.settles {self : Nat} {o : Oracle} {f : Frame} {w w' : World} {d d' : Duty}
    (h : Change self o f w w' d d') (ob : Obj) (hm : ob.minted)
    (hfault : ∀ g, f = .file g → o.fault = none)
    (hown : ∀ p n r strict, f = .file (.rename p n r strict) → r.obj.minted →
      w.disk.read r.obj.subdir (tmpName p n) = some (.whole r))
    (hcur : ∀ p n r strict l, f = .file (.rename p n r strict) → d = .persists r l →
      w.cache.get r.obj = some r)
    (hgone : ∀ ob, d = .removes ob → ob.minted → w.cache.get ob = none)
    (hfresh : ∀ r b, d = .issues r b → r.obj.minted → w.cache.get r.obj = none)
    (hstored : ∀ r, d = .issues r true → r.obj.minted → w.disk.load r.obj = some r) :
    (w'.cache.get ob = w.cache.get ob ∧ w'.disk.load ob = w.disk.load ob ∧
        ∀ c x, Owes d ob c x → Owes d' ob c x) ∨
      w'.disk.load ob = w'.cache.get ob ∨ Owes d' ob (w'.cache.get ob) (w'.disk.load ob) := by
  cases h with
  | quiet _ hc hd => exact Or.inl ⟨by rw [hc], by rw [hd], fun _ _ h => h⟩
  | write _ sub p n x hc hd =>
    exact Or.inl ⟨by rw [hc], by rw [hd, Disk.load_put_tmpName], fun _ _ h => h⟩
  | abandon _ r kind hobj why hc hd =>
    rcases why with ⟨hf, g, rfl⟩ | ⟨p, n, r', strict, rfl, hread⟩
    · rw [hfault g rfl] at hf
      cases hf
    · by_cases hm' : r'.obj.minted
      · rw [hown p n r' strict rfl hm'] at hread
        cases hread
      · -- the file of an image, which is not `ob`
        have hr : r'.obj = r.obj := Option.some.inj hobj
        have hload : w'.disk.load ob = w.disk.load ob := by
          rcases hd with hd | ⟨sub, p, n, x, hd⟩
          · rw [hd]
          · rw [hd, Disk.load_put_tmpName]
        refine Or.inl ⟨by rw [hc], hload, fun c x h => ?_⟩
        rcases kind with ⟨l, rfl⟩ | rfl
        · cases h
          exact absurd (hr ▸ hm) hm'
        · cases h
  | rename p n r strict l hf hc hd =>
    by_cases hob : ob = r.obj
    · subst hob
      have hread := hown p n r strict hf hm
      refine Or.inr (Or.inl ?_)
      rw [Disk.load_rename hread hd, if_pos rfl, hc, hcur p n r strict l hf rfl]
      rfl
    · obtain ⟨x, hx, -⟩ := Disk.rename_eq_some.mp hd
      refine Or.inl ⟨by rw [hc], by rw [Disk.load_rename hx hd, if_neg hob], ?_⟩
      rintro c y ⟨⟩
      exact absurd rfl hob
  | store p n r strict hf hc hd =>
    by_cases hob : ob = r.obj
    · subst hob
      have hread := hown p n r strict hf hm
      refine Or.inr (Or.inr ?_)
      rw [Disk.load_rename hread hd, if_pos rfl, hc, hfresh r false rfl hm]
      exact .issues r
    · obtain ⟨x, hx, -⟩ := Disk.rename_eq_some.mp hd
      refine Or.inl ⟨by rw [hc], by rw [Disk.load_rename hx hd, if_neg hob], ?_⟩
      rintro c y ⟨⟩
  | unlink ob' hf hc hd =>
    by_cases hob : ob = ob'
    · subst hob
      refine Or.inr (Or.inl ?_)
      rw [hd, Disk.load_unlink, if_pos rfl, hc, hgone ob rfl hm]
    · refine Or.inl ⟨by rw [hc], by rw [hd, Disk.load_unlink, if_neg hob], ?_⟩
      rintro c y ⟨⟩
      exact absurd rfl hob
  | keep ob' hf why =>
    rw [hfault _ hf] at why
    cases why
  | update r _ _ hc hd | land r _ _ hc hd =>
    by_cases hob : ob = r.obj
    · subst hob
      refine Or.inr (Or.inr ?_)
      rw [hc, Cache.get_put, if_pos rfl]
      exact .persists r _ _
    · refine Or.inl ⟨by rw [hc, Cache.get_put, if_neg hob], by rw [hd], ?_⟩
      rintro c y ⟨⟩
  | release hc hd =>
    refine Or.inl ⟨by rw [hc], by rw [hd], ?_⟩
    rintro c y ⟨⟩
  | insert r _ _ hc hd =>
    by_cases hob : ob = r.obj
    · subst hob
      refine Or.inr (Or.inl ?_)
      rw [hc, Cache.get_put, if_pos rfl, hd, hstored r rfl hm]
    · refine Or.inl ⟨by rw [hc, Cache.get_put, if_neg hob], by rw [hd], ?_⟩
      rintro c y ⟨⟩
      exact absurd rfl hob
  | drop ob' _ _ hc hd =>
    by_cases hob : ob = ob'
    · subst hob
      refine Or.inr (Or.inr ?_)
      rw [hc, Cache.get_erase, if_pos rfl]
      exact .removes ob _
    · refine Or.inl ⟨by rw [hc, Cache.get_erase, if_neg hob], by rw [hd], ?_⟩
      rintro c y ⟨⟩
  | issue r new hc hd =>
    refine Or.inl ⟨by rw [hc], by rw [hd], ?_⟩
    rintro c y ⟨⟩

theorem Agree.advance {s s' : State} {i : Nat} {o : Oracle} {t : Thread} {f : Frame}
    {k : List Frame} {out : Out} (ha : Agree s) (h : Sound s) (hs : Stored Obj.minted s)
    (hfiles : filesSucceed s (.step i o)) (hown : ownsTemp Obj.minted s (.step i o))
    (hcur : landsCurrent s (.step i o)) (hadv : Pool.Advance exec s i o s' t f k out) :
    Agree s' := by
  obtain ⟨d, hd⟩ := h.duties t hadv.mem
  obtain ⟨d', hd', hch⟩ := hd.step hadv.frames h.keyed hadv.exec
  have hduty : dutyOf (f :: k) = d := by rw [← hadv.frames, hd.dutyOf_eq]
  have hself : t.resume k out ∈ s'.tasks := List.mem_of_getElem? hadv.getElem?_self
  have hcur' : ∀ p n r strict l, f = .file (.rename p n r strict) → d = .persists r l →
      s.shared.cache.get r.obj = some r := by
    rintro p n r strict l rfl rfl
    cases l with
    | true => exact (h.lands i t r hadv.task hd).2
    | false => simpa [landsCurrent, hadv.top_eq, hadv.stack_eq, hduty] using hcur
  intro ob hm
  rcases hch.settles ob hm (fun g hg => by simpa [filesSucceed, hadv.top_eq, hg] using hfiles)
      (fun p n r strict hf hr => ownsTemp_read hown hadv hf hr) hcur'
      (fun ob hd₀ hm => h.gone t hadv.mem ob (hd₀ ▸ hd) hm)
      (fun r b hd₀ hm => (h.fresh i t r b hadv.task (hd₀ ▸ hd) hm).1)
      (fun r hd₀ hm => hs t hadv.mem r (hd₀ ▸ hd) hm) with
    ⟨hc, hl, hkeep⟩ | hsettled | howes
  · rcases ha ob hm with hsettled | ⟨u, hu, e, he, howes⟩
    · exact Or.inl (by rw [hc, hl, hsettled])
    · refine Or.inr ?_
      rw [hc, hl]
      obtain ⟨j, hu⟩ := List.getElem?_of_mem hu
      by_cases hj : j = i
      · subst hj
        obtain rfl : u = t := Option.some.inj (hu.symm.trans hadv.task)
        obtain rfl := he.unique hd
        exact ⟨_, hself, d', hd', hkeep _ _ howes⟩
      · exact ⟨u, List.mem_of_getElem? (hadv.getElem?_of_some hj hu), e, he, howes⟩
  · exact Or.inl hsettled
  · exact Or.inr ⟨_, hself, d', hd', howes⟩

/-- **A step keeps what the tasks owe.** -/
theorem Agree.step {s s' : State} {l : Label} (ha : Agree s) (h : Sound s)
    (hs : Stored Obj.minted s) (hl : noRestart l) (hfiles : filesSucceed s l)
    (hown : ownsTemp Obj.minted s l) (hcur : landsCurrent s l) (hstep : step s l = some s') :
    Agree s' := by
  cases l with
  | invoke c =>
    obtain rfl := Option.some.inj hstep
    intro ob hm
    rcases ha ob hm with hsettled | ⟨u, hu, howes⟩
    · exact Or.inl hsettled
    · exact Or.inr ⟨u, Pool.mem_tasks_start.mpr (Or.inl hu), howes⟩
  | step i o =>
    obtain ⟨t, f, k, out, hadv⟩ := Pool.advance_eq_some hstep
    exact ha.advance h hs hfiles hown hcur hadv
  | exit q st =>
    obtain ⟨p, -, rfl⟩ := step_exit hstep
    exact ha
  | foreign pid =>
    obtain ⟨-, -, rfl⟩ := step_foreign hstep
    exact ha
  | restart rs => cases hl

/-- **Cache and disk agree at quiescence.** Take any run of calls and reapers in which the file
operations succeed, each temporary file still holds its record when it is renamed, and each write
made after the lock was dropped lands while its record is the cached one. Whenever no call is in
flight and the lock is free, the file of every sandbox and every container is its cached
record. -/
theorem quiescent_agree {listener : Nat} {blake3 : String → String} {ls : List Label} {s : State}
    (hls : ∀ l ∈ ls, noRestart l)
    (hfiles : Along step (fun s l => filesSucceed s l) (init listener blake3) ls)
    (hown : Along step (fun s l => ownsTemp Obj.minted s l) (init listener blake3) ls)
    (hcur : Along step (fun s l => landsCurrent s l) (init listener blake3) ls)
    (hrun : run step (init listener blake3) ls = some s)
    (hcalls : NoCall s) (hlock : s.shared.lock = none) (ob : Obj) (hob : ob.minted) :
    s.shared.disk.load ob = s.shared.cache.get ob := by
  have hsound : Sound s := sound_run hls hrun
  have hinv : Sound s ∧ Stored Obj.minted s ∧ Agree s := by
    refine invariant_run (I := fun s => Sound s ∧ Stored Obj.minted s ∧ Agree s) ?_
      ⟨Sound.init listener blake3, ?_, ?_⟩ ((hfiles.and (hown.and hcur)).and_labels hls) hrun
    · rintro s l s' ⟨h, hs, ha⟩ ⟨hl, hf, ho, hc⟩ hstep
      exact ⟨h.step hl hstep, hs.step h (fun _ => id) hl ho hstep, ha.step h hs hl hf ho hc hstep⟩
    · simp [Stored, init]
    · exact fun ob _ => Or.inl (by simp [init])
  obtain ⟨-, -, hagree⟩ := hinv
  rcases hagree ob hob with hsettled | ⟨t, ht, d, hd, howes⟩
  · exact hsettled
  exfalso
  obtain ⟨i, hi⟩ := List.getElem?_of_mem ht
  cases htag : t.tag with
  | call c =>
    have hnil := hcalls t ht (by rw [htag]; rfl)
    rw [hnil] at hd
    cases hd
    cases howes
  | reaper id q =>
    obtain ⟨b, hb⟩ := reapers_run hrun t ht id q htag
    have hduty := hd.dutyOf_eq
    rcases hb.dutyOf with h | h | ⟨r, h⟩
    · rw [h] at hduty
      subst hduty
      cases howes
    · rw [h] at hduty
      subst hduty
      cases howes
    · rw [h] at hduty
      subst hduty
      have := (hsound.lands i t r hi hd).1
      rw [hlock] at this
      cases this

/-! ## Two runs -/

/-- Every call has returned Ok. -/
def AllOk (s : State) : Prop :=
  ∀ t ∈ s.tasks, t.tag.isCall → t.frames = [] ∧ t.result.any fun r => r.toBool

instance (s : State) : Decidable (AllOk s) := by
  unfold AllOk
  infer_instance

/-- A sandbox is stopped; before the stop writes the file, the sandbox is removed. -/
def staleRun : List Label :=
  podRun ++
    [Label.invoke (.stopSandbox podSandbox), .step 2 {}, .invoke (.removeSandbox podSandbox)] ++
    steps 3 10 ++ steps 2 3

/-- **A stale write.** All calls return Ok, and the removed sandbox is on disk. -/
theorem stale_write :
    ¬ ∀ (listener : Nat) (blake3 : String → String) (ls : List Label) (s : State),
      (∀ l ∈ ls, noRestart l) →
      Along step (fun s l => filesSucceed s l) (init listener blake3) ls →
      run step (init listener blake3) ls = some s → AllOk s → s.shared.lock = none →
      ∀ ob, ob.minted → s.shared.disk.load ob = s.shared.cache.get ob := by
  intro h
  have hrun : (run step (init 1 id) staleRun).any fun s =>
      AllOk s ∧ s.shared.lock = none ∧
        (s.shared.disk.load (.sandbox podSandbox)).isSome ∧
        s.shared.cache.get (.sandbox podSandbox) = none := by decide
  obtain ⟨s, hs, hend⟩ := (Option.any_eq_true _ _).mp hrun
  obtain ⟨hok, hlock, hdisk, hcache⟩ := of_decide_eq_true hend
  have hagree := h 1 id staleRun s (by decide) (by decide) hs hok hlock (.sandbox podSandbox) rfl
  rw [hagree, hcache] at hdisk
  cases hdisk

/-- A container is started, its process ends and the reaper lands the record; then the sandbox is
stopped. -/
def settledRun : List Label :=
  podRun ++ Label.invoke (.startContainer podContainer) :: steps 2 14 ++ Label.exit 0 (.exited 3) ::
    steps 3 6 ++ Label.invoke (.stopSandbox podSandbox) :: steps 4 4

theorem quiescent_agree_settledRun : ∃ s, run step (init 1 id) settledRun = some s ∧
    (s.shared.cache.containers[podContainer]?.map fun r => (r.state, r.exitCode)) =
      some (.exited, 3) ∧
    ∀ ob, ob.minted → s.shared.disk.load ob = s.shared.cache.get ob := by
  have hrun : (run step (init 1 id) settledRun).any fun s =>
      NoCall s ∧ s.shared.lock = none ∧
        (s.shared.cache.containers[podContainer]?.map fun r => (r.state, r.exitCode)) =
          some (.exited, 3) := by decide
  obtain ⟨s, hs, hend⟩ := (Option.any_eq_true _ _).mp hrun
  obtain ⟨hcalls, hlock, hrec⟩ := of_decide_eq_true hend
  exact ⟨s, hs, hrec, fun ob hob =>
    quiescent_agree (by decide) (by decide) (by decide) (by decide) hs hcalls hlock ob hob⟩

end LightrCri.Fake

import LightrCri.Fake.Ledger

/-!
# Containers and their sandboxes

`create_container` checks the sandbox in one critical section and inserts the record in another,
so a container can be inserted after `remove_sandbox` has listed the containers it will remove, or
after it has deleted the sandbox (`orphan_container`). When no container is inserted at such a
time, and no file of a sandbox is moved from a temporary file that another write has overwritten,
every container's sandbox is in the cache and on disk in every state (`referential_integrity`). The
invariant carries what a removal in flight still has to do: it removes every container of the
sandbox before the sandbox (`Removes`).
-/

namespace LightrCri.Fake

open Backend Foundations

/-! ## Conditions -/

def Obj.isSandbox : Obj → Bool
  | .sandbox _ => true
  | _ => false

/-- The frame deletes the sandbox. -/
def Frame.deletes (id : SandboxId) : Frame → Bool
  | .crit (.deleteSandbox id') => id' = id
  | _ => false

/-- If the step inserts a container, its sandbox is in the cache and no call that has listed the
containers of the sandbox is about to delete it. -/
def insertsInTime (s : State) : Label → Bool
  | .step i _ =>
    match s.top i with
    | some (.crit (.insertContainer r)) =>
      s.shared.cache.sandboxes[r.sandbox]?.isSome &&
        s.tasks.all fun t => t.frames.all fun f => !f.deletes r.sandbox
    | _ => true
  | _ => true

/-! ## Changes of the containers and the sandboxes -/

section Change

variable {self : Nat} {o : Oracle} {f : Frame} {w w' : World} {d d' : Duty}

/-- A container after a step was there before, in the same sandbox, or is inserted by it. -/
theorem Change.container (h : Change self o f w w' d d') {id : ContainerId} {r : ContainerRecord}
    (hr : w'.cache.get (.container id) = some (.container r)) :
    (∃ r₀, w.cache.get (.container id) = some (.container r₀) ∧ r₀.sandbox = r.sandbox) ∨
      f = .crit (.insertContainer r) := by
  cases h with
  | quiet _ hc | write _ _ _ _ _ hc | abandon _ _ _ _ _ hc | rename _ _ _ _ _ _ hc
  | store _ _ _ _ _ hc | unlink _ _ hc | keep _ _ _ hc | release hc | issue _ _ hc =>
    rw [hc] at hr
    exact Or.inl ⟨r, hr, rfl⟩
  | update x _ hp hc | land x _ hp hc =>
    rw [hc, Cache.get_put] at hr
    split at hr
    · obtain rfl := Option.some.inj hr
      obtain ⟨old, hold, hparent⟩ := hp
      rename_i hob
      rw [← hob] at hold
      have hcont : ∃ r₀, old = .container r₀ := by
        simp only [Cache.get, Option.map_eq_some_iff] at hold
        obtain ⟨r₀, -, h⟩ := hold
        exact ⟨r₀, h.symm⟩
      obtain ⟨r₀, rfl⟩ := hcont
      exact Or.inl ⟨r₀, hold, Option.some.inj hparent⟩
    · exact Or.inl ⟨r, hr, rfl⟩
  | insert x _ hf hc =>
    rw [hc, Cache.get_put] at hr
    split at hr
    · obtain rfl := Option.some.inj hr
      exact Or.inr hf
    · exact Or.inl ⟨r, hr, rfl⟩
  | drop ob _ _ hc =>
    rw [hc, Cache.get_erase] at hr
    split at hr
    · cases hr
    · exact Or.inl ⟨r, hr, rfl⟩

/-- A sandbox stays in the cache until it is deleted. -/
theorem Change.sandbox (h : Change self o f w w' d d') {id : SandboxId}
    (hid : (w.cache.get (.sandbox id)).isSome) :
    (w'.cache.get (.sandbox id)).isSome ∨ f = .crit (.deleteSandbox id) := by
  cases h with
  | quiet _ hc | write _ _ _ _ _ hc | abandon _ _ _ _ _ hc | rename _ _ _ _ _ _ hc
  | store _ _ _ _ _ hc | unlink _ _ hc | keep _ _ _ hc | release hc | issue _ _ hc =>
    exact Or.inl (hc ▸ hid)
  | update x _ _ hc | land x _ _ hc | insert x _ _ hc =>
    refine Or.inl ?_
    rw [hc, Cache.get_put]
    split
    · rfl
    · exact hid
  | drop ob _ hf hc =>
    rw [hc, Cache.get_erase]
    split
    · rename_i hob
      exact Or.inr (by rw [hf, ← hob]; rfl)
    · exact Or.inl hid

end Change

/-! ## The invariant -/

/-- A stack that will delete the sandbox `id` removes before that every container of it that the
cache holds. -/
def Removes (c : Cache) (id : SandboxId) (fs : List Frame) : Prop :=
  ∀ a b, fs = a ++ Frame.crit (.deleteSandbox id) :: b →
    ∀ (cid : ContainerId) (r : ContainerRecord),
    c.get (.container cid) = some (.container r) → r.sandbox = id →
      .crit (.removeContainer cid) ∈ a ∨ .crit (.dropContainer cid) ∈ a

/-- Every container's sandbox is in the cache and on disk. -/
structure Referential (s : State) : Prop where
  cached : ∀ (id : ContainerId) (r : ContainerRecord), s.shared.cache.containers[id]? = some r →
    (s.shared.cache.sandboxes[r.sandbox]?).isSome
  stored : ∀ (id : ContainerId) (r : ContainerRecord), s.shared.cache.containers[id]? = some r →
    ∃ x : SandboxRecord, x.id = r.sandbox ∧
      s.shared.disk.load (.sandbox r.sandbox) = some (.sandbox x)

/-- The references of the cache, what removals still do, and the files of the sandboxes. -/
structure Linked (s : State) : Prop where
  parents : ∀ (cid : ContainerId) (r : ContainerRecord),
    s.shared.cache.get (.container cid) = some (.container r) →
    (s.shared.cache.get (.sandbox r.sandbox)).isSome
  removals : ∀ t ∈ s.tasks, ∀ id, Removes s.shared.cache id t.frames
  files : ∀ id, (s.shared.cache.get (.sandbox id)).isSome →
    ∃ x, s.shared.disk.load (.sandbox id) = some x ∧ x.obj = .sandbox id

/-! ## Removals -/

variable {self n : Nat} {o : Oracle} {f : Frame} {w w' : World} {out : Out}

/-- Only the listing of its containers leads to the deletion of a sandbox. -/
theorem exec_deletes {id : SandboxId} (hex : exec self n o f w = some (w', out))
    (h : .crit (.deleteSandbox id) ∈ out.pushed) :
    f = .crit (.collectContainers id) ∧ w' = w ∧
      out = .next (cascade (w.cache.containersOf id) ++ [Frame.crit (.deleteSandbox id)]) := by
  cases f with
  | crit c =>
    obtain ⟨-, hex⟩ := exec_crit_eq_some.mp hex
    cases c with
    | collectContainers id' =>
      simp only [Crit.exec] at hex
      split at hex
      · obtain ⟨-, rfl⟩ := Prod.mk.inj hex
        simp [Outcome.pushed] at h
      · obtain ⟨rfl, rfl⟩ := Prod.mk.inj hex
        simp [Outcome.pushed, cascade] at h
        subst h
        exact ⟨rfl, rfl, rfl⟩
    | _ =>
      exfalso
      simp only [Crit.exec] at hex
      repeat' split at hex
      all_goals
        obtain ⟨-, rfl⟩ := Prod.mk.inj hex
        simp [Outcome.pushed] at h
  | file g =>
    obtain ⟨-, rfl⟩ := exec_file_eq_some.mp hex
    obtain ⟨g', hg'⟩ := FileOp.pushed_file h
    cases hg'
  | sys s =>
    exfalso
    cases s <;> simp only [exec_sys, Sys.exec] at hex <;> (repeat' split at hex)
    all_goals first
      | (obtain ⟨-, rfl⟩ := Prod.mk.inj (Option.some.inj hex)
         simp [Outcome.pushed] at h)
      | cases hex
  | unlock | ret v | fail e =>
    obtain ⟨-, rfl⟩ := Prod.mk.inj (Option.some.inj hex)
    simp [Outcome.pushed] at h

theorem deleteSandbox_notMem_cascade (id : SandboxId) (ids : List ContainerId) :
    .crit (.deleteSandbox id) ∉ cascade ids := by
  simp [cascade]

/-- The cascade removes the containers of the sandbox. -/
theorem mem_cascade {c : Cache} (hk : c.Keyed) {cid : ContainerId} {r : ContainerRecord}
    (hr : c.get (.container cid) = some (.container r)) :
    .crit (.removeContainer cid) ∈ cascade (c.containersOf r.sandbox) := by
  have hcid : r.id = cid := by simpa using hk _ _ hr
  have hget : c.containers[cid]? = some r := by
    simpa [Cache.get] using hr
  have hmem : cid ∈ c.containersOf r.sandbox := by
    rw [Cache.containersOf, List.mem_map]
    refine ⟨(cid, r), List.mem_filter.mpr ⟨?_, by simp⟩, hcid⟩
    exact Std.ExtTreeMap.mem_toList_iff_getElem?_eq_some.mpr hget
  exact List.mem_flatMap.mpr ⟨cid, hmem, by simp⟩

/-- `remove_container` goes on to drop a container that the cache holds. -/
theorem exec_removeContainer {cid : ContainerId}
    (hex : exec self n o (.crit (.removeContainer cid)) w = some (w', out))
    (hp : (w'.cache.get (.container cid)).isSome) :
    .crit (.dropContainer cid) ∈ out.pushed := by
  obtain ⟨-, hex⟩ := exec_crit_eq_some.mp hex
  simp only [Crit.exec] at hex
  split at hex
  · rename_i hnone
    obtain ⟨rfl, rfl⟩ := Prod.mk.inj hex
    simp [Cache.get, hnone] at hp
  · split at hex <;> obtain ⟨-, rfl⟩ := Prod.mk.inj hex <;> simp [Outcome.pushed]

theorem exec_dropContainer {cid : ContainerId}
    (hex : exec self n o (.crit (.dropContainer cid)) w = some (w', out)) :
    w'.cache.get (.container cid) = none := by
  obtain ⟨-, hex⟩ := exec_crit_eq_some.mp hex
  obtain ⟨rfl, -⟩ := Prod.mk.inj hex
  simp [Cache.get_eraseContainer]

/-- A deletion on the stack after a step was on it before or is pushed. -/
theorem split_pushed {xs k a b : List Frame} {g : Frame} (h : xs ++ k = a ++ g :: b) :
    (∃ a', a = xs ++ a' ∧ k = a' ++ g :: b) ∨ ∃ c, xs = a ++ g :: c := by
  rcases List.append_eq_append_iff.mp h with h | ⟨c, hxs, hc⟩
  · exact Or.inl h
  · cases c with
    | nil => exact Or.inl ⟨[], by simpa using hxs.symm, by simpa using hc.symm⟩
    | cons x c =>
      obtain ⟨rfl, -⟩ := List.cons.inj hc
      exact Or.inr ⟨c, hxs⟩

/-- **A removal in flight stays complete.** -/
theorem Removes.step {t : Thread} {k : List Frame} {id : SandboxId} {d d' : Duty}
    (h : Removes w.cache id (f :: k)) (hk : w.cache.Keyed)
    (hex : exec self n o f w = some (w', out)) (hch : Change self o f w w' d d')
    (hins : ∀ r, f = .crit (.insertContainer r) → ∀ g ∈ f :: k, g.deletes r.sandbox = false) :
    Removes w'.cache id (t.resume k out).frames := by
  intro a b hab cid r hr hid
  rcases t.frames_resume k out with hfr | hfr
  · rw [hfr] at hab
    rcases split_pushed hab with ⟨a', rfl, hk'⟩ | ⟨c, hpushed⟩
    · -- the deletion was on the stack, and so were the removals, unless one is the frame executed
      rcases hch.container hr with ⟨r₀, hr₀, hsb⟩ | rfl
      · have hold := h (f :: a') b (by rw [hk']; rfl) cid r₀ hr₀ (hsb.trans hid)
        simp only [List.mem_cons] at hold
        rcases hold with (rfl | ha) | (rfl | ha)
        · exact Or.inr (List.mem_append_left _ (exec_removeContainer hex (by rw [hr]; rfl)))
        · exact Or.inl (List.mem_append_right _ ha)
        · rw [exec_dropContainer hex] at hr
          cases hr
        · exact Or.inr (List.mem_append_right _ ha)
      · have := hins r rfl (.crit (.deleteSandbox id)) (by simp [hk'])
        simp [Frame.deletes, hid] at this
    · -- the containers have just been listed
      have hmem : .crit (.deleteSandbox id) ∈ out.pushed := by simp [hpushed]
      obtain ⟨rfl, rfl, rfl⟩ := exec_deletes hex hmem
      have ha : cascade (w'.cache.containersOf id) = a :=
        ((List.append_cons_inj_of_notMem (deleteSandbox_notMem_cascade id _)
          List.not_mem_nil).mp hpushed).1
      rw [← ha, ← hid]
      exact Or.inl (mem_cascade hk hr)
  · simp [hfr] at hab

/-! ## Steps -/

theorem Linked.advance {s s' : State} {i : Nat} {t : Thread} {k : List Frame} (hl : Linked s)
    (h : Sound s) (hs : Stored Obj.isSandbox s) (hins : insertsInTime s (.step i o))
    (hown : ownsTemp Obj.isSandbox s (.step i o))
    (hadv : Pool.Advance exec s i o s' t f k out) : Linked s' := by
  obtain ⟨d, hd⟩ := h.duties t hadv.mem
  obtain ⟨d', hd', hch⟩ := hd.step hadv.frames h.keyed hadv.exec
  have hins' : ∀ r, f = .crit (.insertContainer r) →
      (s.shared.cache.get (.sandbox r.sandbox)).isSome ∧
        ∀ u ∈ s.tasks, ∀ g ∈ u.frames, g.deletes r.sandbox = false := by
    rintro r rfl
    simpa [insertsInTime, hadv.top_eq, Cache.get] using hins
  constructor
  case parents =>
    intro cid r hr
    have hsb : (s.shared.cache.get (.sandbox r.sandbox)).isSome := by
      rcases hch.container hr with ⟨r₀, hr₀, hsb⟩ | hf
      · exact hsb ▸ hl.parents cid r₀ hr₀
      · exact (hins' r hf).1
    rcases hch.sandbox hsb with hsb | rfl
    · exact hsb
    · -- the removal has removed the container
      rcases hch.container hr with ⟨r₀, hr₀, hsb'⟩ | hf
      · have := hl.removals t hadv.mem r.sandbox [] k hadv.frames cid r₀ hr₀ hsb'
        simp at this
      · cases hf
  case removals =>
    intro u hu id
    rcases hadv.mem_cases hu with rfl | hu | hu
    · have hold := hadv.frames ▸ hl.removals t hadv.mem id
      refine hold.step h.keyed hadv.exec hch fun r hf g hg => ?_
      exact (hins' r hf).2 t hadv.mem g (by rwa [hadv.frames])
    · intro a b hab cid r hr hid
      rcases hch.container hr with ⟨r₀, hr₀, hsb⟩ | hf
      · exact hl.removals u hu id a b hab cid r₀ hr₀ (hsb.trans hid)
      · have := (hins' r hf).2 u hu (.crit (.deleteSandbox id)) (by simp [hab])
        simp [Frame.deletes, hid] at this
    · obtain ⟨cid, q, -, rfl⟩ := children_reaper hadv hu
      intro a b hab
      cases a <;> simp at hab
  case files =>
    intro id hid
    rcases hch.get_isSome hid with hold | ⟨r, rfl, rfl, hr⟩
    · obtain ⟨x, hx, hob⟩ := hl.files id hold
      rcases hch.load_cases (.sandbox id) with hload | ⟨p, n, r, strict, hf, hr, hren⟩ | ⟨-, rfl⟩
      · exact ⟨x, hload ▸ hx, hob⟩
      · refine ⟨r, ?_, hr⟩
        have hread := ownsTemp_read hown hadv hf (by rw [hr]; rfl)
        rw [Disk.load_rename hread hren, if_pos hr.symm]
        rfl
      · rw [h.gone t hadv.mem _ hd rfl] at hold
        cases hold
    · refine ⟨r, ?_, hr⟩
      have hstored := hs t hadv.mem r hd (by rw [hr]; rfl)
      rw [hr] at hstored
      rcases hch.load_cases (.sandbox id) with hload | ⟨p, n, x, strict, hf, -⟩ | ⟨hf, -⟩
      · rw [hload, hstored]
      · cases hf
      · cases hf

theorem Linked.step {s s' : State} {l : Label} (hl : Linked s) (h : Sound s)
    (hs : Stored Obj.isSandbox s) (hno : noRestart l) (hins : insertsInTime s l)
    (hown : ownsTemp Obj.isSandbox s l) (hstep : step s l = some s') : Linked s' := by
  cases l with
  | invoke c =>
    obtain rfl := Option.some.inj hstep
    refine { hl with removals := fun u hu id => ?_ }
    rcases Pool.mem_tasks_start.mp hu with hu | rfl
    · exact hl.removals u hu id
    · intro a b hab
      have hfr : c.frames = a ++ Frame.crit (.deleteSandbox id) :: b := hab
      have hmem : .crit (.deleteSandbox id) ∈ c.frames := by simp [hfr]
      cases c <;> simp [Call.frames] at hmem
  | step i o =>
    obtain ⟨t, f, k, out, hadv⟩ := Pool.advance_eq_some hstep
    exact hl.advance h hs hins hown hadv
  | exit q st =>
    obtain ⟨p, -, rfl⟩ := step_exit hstep
    exact { hl with }
  | foreign pid =>
    obtain ⟨-, -, rfl⟩ := step_foreign hstep
    exact { hl with }
  | restart rs => cases hno

theorem Linked.referential {s : State} (hl : Linked s) : Referential s := by
  constructor
  · intro id r hr
    simpa [Cache.get] using hl.parents id r (Cache.get_container_eq_some hr)
  · intro id r hr
    obtain ⟨x, hx, hob⟩ := hl.files _ (hl.parents id r (Cache.get_container_eq_some hr))
    cases x with
    | sandbox x => exact ⟨x, by simpa using hob, hx⟩
    | container x | image x => cases hob

/-- A `create_container` call that inserts its record after its sandbox was deleted does not
return Ok. -/
def NoLateInsert (s₀ : State) (ls : List Label) (s : State) : Prop :=
  ∀ ls₁ i o ls₂ s₁ r, ls = ls₁ ++ Label.step i o :: ls₂ → run step s₀ ls₁ = some s₁ →
    s₁.top i = some (.crit (.insertContainer r)) →
    s₁.shared.cache.sandboxes[r.sandbox]? = none →
    ∀ t, s.tasks[i]? = some t → ∀ v, t.result ≠ some (.ok v)

/-- **Referential integrity.** Take any run of calls and reapers in which no container is inserted
when its sandbox is gone or about to be deleted by a call that has listed its containers, and
each temporary file of a sandbox still holds its record when it is renamed. Then in every state
every container's sandbox is in the cache and on disk, and no late insertion returns Ok. -/
theorem referential_integrity {listener : Nat} {blake3 : String → String} {ls : List Label} {s : State}
    (hls : ∀ l ∈ ls, noRestart l)
    (hins : Along step (fun s l => insertsInTime s l) (init listener blake3) ls)
    (hown : Along step (fun s l => ownsTemp Obj.isSandbox s l) (init listener blake3) ls)
    (hrun : run step (init listener blake3) ls = some s) :
    Referential s ∧ NoLateInsert (init listener blake3) ls s := by
  constructor
  · have hinv : Sound s ∧ Stored Obj.isSandbox s ∧ Linked s := by
      refine invariant_run (I := fun s => Sound s ∧ Stored Obj.isSandbox s ∧ Linked s) ?_
        ⟨Sound.init listener blake3, ?_, ?_⟩ ((hins.and hown).and_labels hls) hrun
      · rintro s l s' ⟨h, hs, hl⟩ ⟨hno, hi, ho⟩ hstep
        have hm : ∀ ob : Obj, ob.isSandbox → ob.minted := by
          rintro (id | id | id) hob <;> first | rfl | cases hob
        exact ⟨h.step hno hstep, hs.step h hm hno ho hstep, hl.step h hs hno hi ho hstep⟩
      · simp [Stored, init]
      · exact ⟨fun cid r hr => by simp [init] at hr, by simp [init],
          fun id hid => by simp [init] at hid⟩
    exact hinv.2.2.referential
  · rintro ls₁ i o ls₂ s₁ r rfl h₁ htop hnone
    have hlate := (hins.append h₁).2.1
    simp [insertsInTime, htop, hnone] at hlate

/-! ## Two runs -/

/-- A container is checked; then its sandbox is removed, and then it is created. -/
def orphanRun : List Label :=
  .invoke (.runSandbox { name := "pod" }) :: steps 0 5 ++
    [Label.invoke (.createContainer podSandbox { name := "main", imageRef := "img" }), .step 1 {},
      .invoke (.removeSandbox podSandbox)] ++ steps 2 7 ++ steps 1 5

/-- **A container without a sandbox.** The creation returns Ok after the sandbox was removed, and
the container stays. -/
theorem orphan_container :
    ¬ ∀ (listener : Nat) (blake3 : String → String) (ls : List Label) (s : State),
      (∀ l ∈ ls, noRestart l) → run step (init listener blake3) ls = some s → NoCall s →
      Referential s ∧ NoLateInsert (init listener blake3) ls s := by
  intro h
  have hrun : (run step (init 1 id) orphanRun).any fun s =>
      NoCall s ∧ (s.shared.cache.containers[podContainer]?.map (·.sandbox)) = some podSandbox ∧
        s.shared.cache.sandboxes[podSandbox]? = none := by decide
  obtain ⟨s, hs, hend⟩ := (Option.any_eq_true _ _).mp hrun
  obtain ⟨hcalls, hcont, hsb⟩ := of_decide_eq_true hend
  obtain ⟨r, hr, hid⟩ := Option.map_eq_some_iff.mp hcont
  have := (h 1 id orphanRun s (by decide) hs hcalls).1.cached podContainer r hr
  rw [hid, hsb] at this
  cases this

/-- A second container is created while the sandbox is stopped. -/
def stoppedRun : List Label :=
  podRun ++ [Label.invoke (.createContainer podSandbox { name := "side", imageRef := "img" }),
    .step 2 {}, .invoke (.stopSandbox podSandbox)] ++ steps 3 4 ++ steps 2 5

theorem referential_stoppedRun : ∃ s, run step (init 1 id) stoppedRun = some s ∧
    s.shared.cache.containers.toList.length = 2 ∧ Referential s := by
  have hrun : (run step (init 1 id) stoppedRun).any fun s =>
      s.shared.cache.containers.toList.length = 2 := by decide
  obtain ⟨s, hs, hend⟩ := (Option.any_eq_true _ _).mp hrun
  exact ⟨s, hs, of_decide_eq_true hend, (referential_integrity (by decide) (by decide) (by decide) hs).1⟩

end LightrCri.Fake

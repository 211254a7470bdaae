import LightrCri.Fake.Duty

/-!
# Ids and objects over a run

The invariant of every run without a restart (`sound_run`): the cache keeps each record under its
id, every stack has a duty, every id in use was made from a counter value already given out, an
object that is being created is known to its task alone (`Sound.fresh`), and an object whose file
is about to be unlinked is not in the cache (`Sound.gone`).
-/

namespace LightrCri.Fake

open Backend Foundations

/-! ## Ids -/

/-- The id was made from a counter value below `n`. -/
def Minted (n : Nat) : Obj → Prop
  | .sandbox id => ∃ t c, id.val = newId "sb-" t c ∧ c < n
  | .container id => ∃ t c, id.val = newId "ct-" t c ∧ c < n
  | .image _ => True

theorem Minted.mono {m n : Nat} {ob : Obj} (h : Minted m ob) (hle : m ≤ n) : Minted n ob := by
  cases ob with
  | sandbox id | container id =>
    obtain ⟨t, c, hid, hc⟩ := h
    exact ⟨t, c, hid, Nat.lt_of_lt_of_le hc hle⟩
  | image id => trivial

theorem NewObj.minted {w w' : World} {r : DiskRecord} (h : NewObj w w' r) :
    Minted w'.counter r.obj := by
  cases r with
  | sandbox r | container r =>
    obtain ⟨hc, n, hid⟩ := h
    exact ⟨n, w.counter, hid, by omega⟩
  | image r => trivial

/-- **A new object has a new id.** -/
theorem NewObj.not_minted {w w' : World} {r : DiskRecord} (h : NewObj w w' r)
    (hm : r.obj.minted) : ¬Minted w.counter r.obj := by
  cases r with
  | sandbox r | container r =>
    obtain ⟨-, n, hid⟩ := h
    rintro ⟨t, c, hid', hlt⟩
    have := newId_counter (hid.symm.trans hid')
    omega
  | image r => cases hm

theorem NewObj.counter_le {w w' : World} {r : DiskRecord} (h : NewObj w w' r) :
    w.counter ≤ w'.counter := by
  cases r with
  | sandbox r | container r => exact h.1 ▸ Nat.le_succ _
  | image r => exact Nat.le_of_eq h.1.symm

theorem Stack.unique {d d' : Duty} {fs : List Frame} (h : Stack d fs) (h' : Stack d' fs) :
    d = d' :=
  h.dutyOf_eq.symm.trans h'.dutyOf_eq

/-! ## Consequences of a change -/

section Change

variable {self : Nat} {o : Oracle} {f : Frame} {w w' : World} {d d' : Duty}

theorem Change.counter_le (h : Change self o f w w' d d') : w.counter ≤ w'.counter := by
  cases h with
  | quiet _ _ _ _ hc => exact hc
  | issue r new => exact new.counter_le
  | write | abandon | rename | store | unlink | keep | update | land | release | insert | drop =>
    simp_all

theorem Change.keyed (h : Change self o f w w' d d') (hk : w.cache.Keyed) : w'.cache.Keyed := by
  cases h with
  | quiet _ hc | write _ _ _ _ _ hc | abandon _ _ _ _ _ hc | rename _ _ _ _ _ _ hc | store _ _ _ _ _ hc
  | unlink _ _ hc | keep _ _ _ hc | release hc | issue _ _ hc =>
    rw [hc]
    exact hk
  | update r _ _ hc | land r _ _ hc | insert r _ _ hc =>
    rw [hc]
    exact hk.put r
  | drop ob _ _ hc =>
    rw [hc]
    exact hk.erase ob

/-- What is in the cache after a step was there before, or is the new object of the step. -/
theorem Change.get_isSome (h : Change self o f w w' d d') {ob : Obj}
    (hob : (w'.cache.get ob).isSome) :
    (w.cache.get ob).isSome ∨ ∃ r, d = .issues r true ∧ f = .crit r.insert ∧ r.obj = ob := by
  cases h with
  | quiet _ hc | write _ _ _ _ _ hc | abandon _ _ _ _ _ hc | rename _ _ _ _ _ _ hc | store _ _ _ _ _ hc
  | unlink _ _ hc | keep _ _ _ hc | release hc | issue _ _ hc =>
    rw [hc] at hob
    exact Or.inl hob
  | update r _ hp hc | land r _ hp hc =>
    rw [hc, Cache.get_put] at hob
    split at hob
    · rename_i heq
      exact Or.inl (heq ▸ hp.isSome)
    · exact Or.inl hob
  | insert r _ hf hc =>
    rw [hc, Cache.get_put] at hob
    split at hob
    · rename_i heq
      exact Or.inr ⟨r, rfl, hf, heq.symm⟩
    · exact Or.inl hob
  | drop ob' _ _ hc =>
    rw [hc, Cache.get_erase] at hob
    split at hob
    · simp at hob
    · exact Or.inl hob

/-- What a step does to the stored record of an object: nothing, or it moves the temporary file of
its frame over the file, or it unlinks the file. -/
theorem Change.load_cases (h : Change self o f w w' d d') (ob : Obj) :
    w'.disk.load ob = w.disk.load ob ∨
      (∃ p n r strict, f = .file (.rename p n r strict) ∧ r.obj = ob ∧
        w.disk.rename r.obj.subdir (tmpName p n) r.obj.file = some w'.disk) ∨
      f = .file (.unlink ob) ∧ d = .removes ob := by
  cases h with
  | quiet _ _ hd | update _ _ _ _ hd | land _ _ _ _ hd | release _ hd | insert _ _ _ _ hd
  | drop _ _ _ _ hd | issue _ _ _ hd | keep _ _ _ _ hd =>
    exact Or.inl (by rw [hd])
  | write _ sub p n x _ hd =>
    exact Or.inl (by rw [hd, Disk.load_put_tmpName])
  | abandon _ _ _ _ _ _ hd =>
    rcases hd with hd | ⟨sub, p, n, x, hd⟩
    · exact Or.inl (by rw [hd])
    · exact Or.inl (by rw [hd, Disk.load_put_tmpName])
  | rename p n r strict l hf _ hd | store p n r strict hf _ hd =>
    by_cases hob : r.obj = ob
    · exact Or.inr (Or.inl ⟨p, n, r, strict, hf, hob, hd⟩)
    · obtain ⟨x, hx, -⟩ := Disk.rename_eq_some.mp hd
      exact Or.inl (by rw [Disk.load_rename hx hd, if_neg (Ne.symm hob)])
  | unlink ob' hf _ hd =>
    by_cases hob : ob' = ob
    · exact Or.inr (Or.inr ⟨by rw [hf, hob], by rw [hob]⟩)
    · exact Or.inl (by rw [hd, Disk.load_unlink, if_neg (Ne.symm hob)])

/-- A step changes the stored record of the object of its frame only. -/
theorem Change.load_eq (h : Change self o f w w' d d') (ob : Obj) :
    w'.disk.load ob = w.disk.load ob ∨ f.obj = some ob := by
  rcases h.load_cases ob with h | ⟨p, n, r, strict, rfl, rfl, -⟩ | ⟨rfl, -⟩
  · exact Or.inl h
  · exact Or.inr rfl
  · exact Or.inr rfl

/-- A task that creates an object after a step did so before, or begins with it. -/
theorem Change.issues (h : Change self o f w w' d d') {r : DiskRecord} {b : Bool}
    (hd : d' = .issues r b) :
    ((∃ b', d = .issues r b') ∧ w'.cache = w.cache) ∨ NewObj w w' r ∧ w'.cache = w.cache := by
  subst hd
  generalize hd' : Duty.issues r b = d' at h
  cases h with
  | quiet _ hc | write _ _ _ _ _ hc => exact Or.inl ⟨⟨b, hd'.symm⟩, hc⟩
  | store p n r' strict hf hc =>
    obtain ⟨rfl, -⟩ := Duty.issues.inj hd'
    exact Or.inl ⟨⟨false, rfl⟩, hc⟩
  | issue r' new hc =>
    obtain ⟨rfl, -⟩ := Duty.issues.inj hd'
    exact Or.inr ⟨new, hc⟩
  | abandon d => cases d with
    | persists r l => cases l <;> cases hd'
    | _ => cases hd'
  | rename _ _ _ _ l => cases l <;> cases hd'
  | unlink | keep | update | land | release | insert | drop => cases hd'

/-- A task that has to unlink a file after a step had to before, or has dropped the object. -/
theorem Change.removes (h : Change self o f w w' d d') {ob : Obj} (hd : d' = .removes ob) :
    d = .removes ob ∧ w'.cache = w.cache ∨ w'.cache.get ob = none := by
  subst hd
  generalize hd' : Duty.removes ob = d' at h
  cases h with
  | quiet _ hc | write _ _ _ _ _ hc => exact Or.inl ⟨rfl, hc⟩
  | drop ob' _ _ hc =>
    obtain rfl := Duty.removes.inj hd'
    exact Or.inr (by rw [hc, Cache.get_erase, if_pos rfl])
  | abandon d => cases d with
    | persists r l => cases l <;> cases hd'
    | _ => cases hd'
  | rename _ _ _ _ l => cases l <;> cases hd'
  | store | unlink | keep | update | land | release | insert | issue => cases hd'

/-- While the lock is held the cache does not change, and only its holder frees it. -/
theorem Change.locked (h : Change self o f w w' d d') {j : Nat} (hj : w.lock = some j) :
    w'.cache = w.cache ∧ (w'.lock = some j ∨ d = .releases) := by
  cases h with
  | quiet _ hc _ hl | write _ _ _ _ _ hc _ hl | abandon _ _ _ _ _ hc _ hl | rename _ _ _ _ _ _ hc _ hl
  | store _ _ _ _ _ hc _ hl | unlink _ _ hc _ hl | keep _ _ _ hc _ hl | issue _ _ hc _ hl =>
    exact ⟨hc, Or.inl (hl.trans hj)⟩
  | release hc => exact ⟨hc, Or.inr rfl⟩
  | update _ hfree | land _ hfree | insert _ hfree | drop _ hfree =>
    rw [hfree] at hj
    cases hj

/-- A task that lands a record holds the lock. -/
theorem Change.lands (h : Change self o f w w' d d') {r : DiskRecord}
    (hd : d' = .persists r true) :
    (d = .persists r true ∧ w'.cache = w.cache ∧ w'.lock = w.lock) ∨
      w'.lock = some self ∧ w'.cache.get r.obj = some r := by
  subst hd
  generalize hd' : Duty.persists r true = d' at h
  cases h with
  | quiet _ hc _ hl | write _ _ _ _ _ hc _ hl => exact Or.inl ⟨rfl, hc, hl⟩
  | land r' _ _ hc _ hl =>
    obtain ⟨rfl, -⟩ := Duty.persists.inj hd'
    exact Or.inr ⟨hl, by rw [hc, Cache.get_put, if_pos rfl]⟩
  | abandon d => cases d with
    | persists r l => cases l <;> cases hd'
    | _ => cases hd'
  | rename _ _ _ _ l => cases l <;> cases hd'
  | update => cases hd'
  | store | unlink | keep | release | insert | drop | issue => cases hd'

/-- A task that is about to free the lock holds it. -/
theorem Change.releases (h : Change self o f w w' d d') (hd : d' = .releases) :
    (d = .releases ∨ ∃ r, d = .persists r true) ∧ w'.lock = w.lock := by
  subst hd
  generalize hd' : Duty.releases = d' at h
  cases h with
  | quiet _ _ _ hl | write _ _ _ _ _ _ _ hl => exact ⟨Or.inl rfl, hl⟩
  | abandon d _ _ _ _ _ _ hl => cases d with
    | persists r l =>
      cases l with
      | false => cases hd'
      | true => exact ⟨Or.inr ⟨r, rfl⟩, hl⟩
    | _ => cases hd'
  | rename _ _ r _ l _ _ _ hl =>
    cases l with
    | false => cases hd'
    | true => exact ⟨Or.inr ⟨r, rfl⟩, hl⟩
  | store | unlink | keep | update | land | release | insert | drop | issue => cases hd'

/-- A task that has an object to insert after a step had it before, or has just stored it. -/
theorem Change.stored (h : Change self o f w w' d d') {r : DiskRecord}
    (hd : d' = .issues r true) :
    (d = .issues r true ∧ w'.disk.load r.obj = w.disk.load r.obj) ∨
      ∃ p n strict, f = .file (.rename p n r strict) ∧
        w.disk.rename r.obj.subdir (tmpName p n) r.obj.file = some w'.disk := by
  subst hd
  generalize hd' : Duty.issues r true = d' at h
  cases h with
  | quiet _ _ hd => exact Or.inl ⟨rfl, by rw [hd]⟩
  | write _ _ _ _ _ _ hd => exact Or.inl ⟨rfl, by rw [hd, Disk.load_put_tmpName]⟩
  | store p n r' strict hf _ hd =>
    obtain ⟨rfl, -⟩ := Duty.issues.inj hd'
    exact Or.inr ⟨p, n, strict, hf, hd⟩
  | issue => cases hd'
  | abandon d => cases d with
    | persists r l => cases l <;> cases hd'
    | _ => cases hd'
  | rename _ _ _ _ l => cases l <;> cases hd'
  | unlink | keep | update | land | release | insert | drop => cases hd'

end Change

/-! ## The invariant -/

theorem Stack.issues_mem {r : DiskRecord} {b : Bool} {fs : List Frame}
    (h : Stack (.issues r b) fs) : ∃ f ∈ fs, f.obj = some r.obj := by
  cases h with
  | issueWrite | issueRename => exact ⟨_, List.mem_cons_self, rfl⟩
  | insert => exact ⟨_, List.mem_cons_self, obj_insert r⟩

theorem Stack.removes_mem {ob : Obj} {fs : List Frame} (h : Stack (.removes ob) fs) :
    ∃ f ∈ fs, f.obj = some ob := by
  cases h with
  | removeIo => exact ⟨_, List.mem_cons_of_mem _ List.mem_cons_self, rfl⟩
  | unlink => exact ⟨_, List.mem_cons_self, rfl⟩

/-- What holds of a state whatever the calls and the reapers did. -/
structure Sound (s : State) : Prop where
  keyed : s.shared.cache.Keyed
  duties : ∀ t ∈ s.tasks, ∃ d, Stack d t.frames
  cached : ∀ ob, ob.minted → (s.shared.cache.get ob).isSome → Minted s.shared.counter ob
  named : ∀ t ∈ s.tasks, ∀ f ∈ t.frames, ∀ ob, ob.minted → f.obj = some ob →
    Minted s.shared.counter ob
  /-- An object that is being created is known to its task alone. -/
  fresh : ∀ (i : Nat) (t : Thread) (r : DiskRecord) (b : Bool), s.tasks[i]? = some t →
    Stack (.issues r b) t.frames → r.obj.minted →
    s.shared.cache.get r.obj = none ∧
      ∀ (j : Nat) (u : Thread), s.tasks[j]? = some u → j ≠ i → ∀ f ∈ u.frames, f.obj ≠ some r.obj
  /-- An object whose file is about to be unlinked is not in the cache. -/
  gone : ∀ t ∈ s.tasks, ∀ ob, Stack (.removes ob) t.frames → ob.minted →
    s.shared.cache.get ob = none
  /-- A task that lands a record holds the lock, and the record is in the cache. -/
  lands : ∀ (i : Nat) (t : Thread) (r : DiskRecord), s.tasks[i]? = some t →
    Stack (.persists r true) t.frames → s.shared.lock = some i ∧ s.shared.cache.get r.obj = some r
  releases : ∀ (i : Nat) (t : Thread), s.tasks[i]? = some t → Stack .releases t.frames →
    s.shared.lock = some i

theorem Sound.advance {s s' : State} {i : Nat} {o : Oracle} {t : Thread} {f : Frame}
    {k : List Frame} {out : Out} (h : Sound s) (hadv : Pool.Advance exec s i o s' t f k out) :
    Sound s' := by
  obtain ⟨d, hd⟩ := h.duties t hadv.mem
  obtain ⟨d', hd', hch⟩ := hd.step hadv.frames h.keyed hadv.exec
  have hmono := hch.counter_le
  have hchild : ∀ u ∈ out.children, Stack .none u.frames ∧ ∀ g ∈ u.frames, g.obj = none := by
    intro u hu
    obtain ⟨id, q, -, rfl⟩ := children_reaper hadv hu
    exact ⟨.plain _ (by simp [Frame.plain]), by simp [Frame.obj]⟩
  have hown : ∀ g ∈ (t.resume k out).frames, ∀ ob, ob.minted → g.obj = some ob →
      (∃ g₀ ∈ t.frames, g₀.obj = some ob) ∨ (s.shared.cache.get ob).isSome ∨
        ∃ r, r.obj = ob ∧ NewObj s.shared s'.shared r := by
    intro g hg ob hm hob
    rcases Task.mem_resume hg with hg | hg
    · rcases exec_objs h.keyed hadv.exec hg hob hm with hf | hr
      · exact Or.inl ⟨f, by simp [hadv.frames], hf⟩
      · exact Or.inr hr
    · exact Or.inl ⟨g, by simp [hadv.frames, hg], hob⟩
  have hf : f ∈ t.frames := by simp [hadv.frames]
  constructor
  case keyed => exact hch.keyed h.keyed
  case duties =>
    intro u hu
    rcases hadv.mem_cases hu with rfl | hu | hu
    · exact ⟨d', hd'⟩
    · exact h.duties u hu
    · exact ⟨.none, (hchild u hu).1⟩
  case cached =>
    intro ob hm hob
    rcases hch.get_isSome hob with hob | ⟨r, -, rfl, rfl⟩
    · exact (h.cached ob hm hob).mono hmono
    · exact (h.named t hadv.mem _ hf r.obj hm (obj_insert r)).mono hmono
  case named =>
    intro u hu g hg ob hm hob
    rcases hadv.mem_cases hu with rfl | hu | hu
    · rcases hown g hg ob hm hob with ⟨g₀, hg₀, hob₀⟩ | hr | ⟨r, rfl, new⟩
      · exact (h.named t hadv.mem g₀ hg₀ ob hm hob₀).mono hmono
      · exact (h.cached ob hm hr).mono hmono
      · exact new.minted
    · exact (h.named u hu g hg ob hm hob).mono hmono
    · simp [(hchild u hu).2 g hg] at hob
  case fresh =>
    intro i' t' r b ht' hst hm
    rcases hadv.cases ht' with ⟨rfl, rfl⟩ | ⟨hi', ht'⟩ | ⟨-, hu⟩
    · rcases hch.issues (hd'.unique hst) with ⟨⟨b', rfl⟩, hc⟩ | ⟨new, hc⟩
      · obtain ⟨hnone, hothers⟩ := h.fresh i' t r b' hadv.task hd hm
        refine ⟨hc ▸ hnone, fun j u hu hj g hg => ?_⟩
        rcases hadv.cases hu with ⟨rfl, -⟩ | ⟨-, hu⟩ | ⟨-, hu⟩
        · exact absurd rfl hj
        · exact hothers j u hu hj g hg
        · simp [(hchild u hu).2 g hg]
      · have hnew := new.not_minted hm
        refine ⟨?_, fun j u hu hj g hg hob => ?_⟩
        · rw [hc]
          by_contra hne
          exact hnew (h.cached r.obj hm (Option.isSome_iff_ne_none.mpr hne))
        · rcases hadv.cases hu with ⟨rfl, -⟩ | ⟨-, hu⟩ | ⟨-, hu⟩
          · exact absurd rfl hj
          · exact hnew (h.named u (List.mem_of_getElem? hu) g hg r.obj hm hob)
          · simp [(hchild u hu).2 g hg] at hob
    · obtain ⟨hnone, hothers⟩ := h.fresh i' t' r b ht' hst hm
      have hmint : Minted s.shared.counter r.obj := by
        obtain ⟨g, hg, hob⟩ := hst.issues_mem
        exact h.named t' (List.mem_of_getElem? ht') g hg r.obj hm hob
      refine ⟨?_, fun j u hu hj g hg hob => ?_⟩
      · by_contra hne
        rcases hch.get_isSome (Option.isSome_iff_ne_none.mpr hne) with hob | ⟨r', -, rfl, hr'⟩
        · rw [hnone] at hob
          cases hob
        · exact hothers i t hadv.task hi'.symm _ hf (hr' ▸ obj_insert r')
      · rcases hadv.cases hu with ⟨rfl, rfl⟩ | ⟨-, hu⟩ | ⟨-, hu⟩
        · rcases hown g hg r.obj hm hob with ⟨g₀, hg₀, hob₀⟩ | hr | ⟨r', hr', new⟩
          · exact hothers j t hadv.task hj g₀ hg₀ hob₀
          · rw [hnone] at hr
            cases hr
          · rw [← hr'] at hm hmint
            exact new.not_minted hm hmint
        · exact hothers j u hu hj g hg hob
        · simp [(hchild u hu).2 g hg] at hob
    · cases (hchild t' hu).1.unique hst
  case gone =>
    intro u hu ob hst hm
    obtain ⟨j, hu⟩ := List.getElem?_of_mem hu
    rcases hadv.cases hu with ⟨rfl, rfl⟩ | ⟨hj, hu⟩ | ⟨-, hu⟩
    · rcases hch.removes (hd'.unique hst) with ⟨rfl, hc⟩ | hnone
      · exact hc ▸ h.gone t hadv.mem ob hd hm
      · exact hnone
    · have hnone := h.gone u (List.mem_of_getElem? hu) ob hst hm
      by_contra hne
      rcases hch.get_isSome (Option.isSome_iff_ne_none.mpr hne) with hob | ⟨r, rfl, -, rfl⟩
      · rw [hnone] at hob
        cases hob
      · obtain ⟨g, hg, hob⟩ := hst.removes_mem
        exact (h.fresh i t r true hadv.task hd hm).2 j u hu hj g hg hob
    · cases (hchild u hu).1.unique hst
  case lands =>
    intro j u r hu hst
    rcases hadv.cases hu with ⟨rfl, rfl⟩ | ⟨hj, hu⟩ | ⟨-, hu⟩
    · rcases hch.lands (hd'.unique hst) with ⟨rfl, hc, hl⟩ | hr
      · obtain ⟨hlock, hget⟩ := h.lands j t r hadv.task hd
        exact ⟨hl.trans hlock, hc ▸ hget⟩
      · exact hr
    · obtain ⟨hlock, hget⟩ := h.lands j u r hu hst
      obtain ⟨hc, hl | rfl⟩ := hch.locked hlock
      · exact ⟨hl, hc ▸ hget⟩
      · exact absurd (Option.some.inj (hlock.symm.trans (h.releases i t hadv.task hd))) hj
    · cases (hchild u hu).1.unique hst
  case releases =>
    intro j u hu hst
    rcases hadv.cases hu with ⟨rfl, rfl⟩ | ⟨hj, hu⟩ | ⟨-, hu⟩
    · obtain ⟨rfl | ⟨r, rfl⟩, hl⟩ := hch.releases (hd'.unique hst)
      · exact hl.trans (h.releases j t hadv.task hd)
      · exact hl.trans (h.lands j t r hadv.task hd).1
    · have hlock := h.releases j u hu hst
      obtain ⟨-, hl | rfl⟩ := hch.locked hlock
      · exact hl
      · exact absurd (Option.some.inj (hlock.symm.trans (h.releases i t hadv.task hd))) hj
    · cases (hchild u hu).1.unique hst

theorem plain_callFrames (c : Call) : ∀ f ∈ c.frames, f.plain ∧ f.obj = none := by
  cases c <;> simp [Call.frames, Frame.plain, Frame.obj]

theorem Sound.invoke {s : State} (h : Sound s) (c : Call) : Sound (s.start (.call c) c.frames) := by
  have hnew : Stack .none c.frames := .plain _ fun f hf => (plain_callFrames c f hf).1
  have hget : ∀ (j : Nat) (u : Thread), (s.start (.call c) c.frames).tasks[j]? = some u →
      s.tasks[j]? = some u ∨ u = ⟨.call c, c.frames, none⟩ := by
    intro j u hu
    rw [Pool.start, List.getElem?_append] at hu
    split at hu
    · exact Or.inl hu
    · exact Or.inr (List.mem_singleton.mp (List.mem_of_getElem? hu))
  refine { h with
    duties := ?_, named := ?_, fresh := ?_, gone := ?_, lands := ?_, releases := ?_ }
  · intro u hu
    rcases Pool.mem_tasks_start.mp hu with hu | rfl
    · exact h.duties u hu
    · exact ⟨_, hnew⟩
  · intro u hu f hf ob hm hob
    rcases Pool.mem_tasks_start.mp hu with hu | rfl
    · exact h.named u hu f hf ob hm hob
    · simp [(plain_callFrames c f hf).2] at hob
  · intro i t r b ht hst hm
    rcases hget i t ht with ht | rfl
    · obtain ⟨hnone, hothers⟩ := h.fresh i t r b ht hst hm
      refine ⟨hnone, fun j u hu hj f hf => ?_⟩
      rcases hget j u hu with hu | rfl
      · exact hothers j u hu hj f hf
      · simp [(plain_callFrames c f hf).2]
    · cases hnew.unique hst
  · intro u hu ob hst hm
    rcases Pool.mem_tasks_start.mp hu with hu | rfl
    · exact h.gone u hu ob hst hm
    · cases hnew.unique hst
  · intro j u r hu hst
    rcases hget j u hu with hu | rfl
    · exact h.lands j u r hu hst
    · cases hnew.unique hst
  · intro j u hu hst
    rcases hget j u hu with hu | rfl
    · exact h.releases j u hu hst
    · cases hnew.unique hst

/-- The listener is not restarted. -/
def noRestart : Label → Bool
  | .restart _ => false
  | _ => true

theorem Sound.step {s s' : State} {l : Label} (h : Sound s) (hl : noRestart l)
    (hstep : step s l = some s') : Sound s' := by
  cases l with
  | invoke c =>
    obtain rfl := Option.some.inj hstep
    exact h.invoke c
  | step i o =>
    obtain ⟨t, f, k, out, hadv⟩ := Pool.advance_eq_some hstep
    exact h.advance hadv
  | exit q st =>
    obtain ⟨p, -, rfl⟩ := step_exit hstep
    exact { h with }
  | foreign pid =>
    obtain ⟨-, -, rfl⟩ := step_foreign hstep
    exact { h with }
  | restart rs => cases hl

theorem Sound.init (listener : Nat) (blake3 : String → String) : Sound (init listener blake3) := by
  constructor <;> simp [Fake.init, Cache.Keyed]

/-- **Every run without a restart is sound.** -/
theorem sound_run {listener : Nat} {blake3 : String → String} {ls : List Label} {s : State}
    (hls : ∀ l ∈ ls, noRestart l) (hrun : run step (init listener blake3) ls = some s) :
    Sound s :=
  invariant_run (fun _ _ _ h hl hs => h.step hl.1 hs) (Sound.init listener blake3)
    ((Along.trivial _ _).and_labels hls) hrun

/-! ## Operations on the files -/

/-- Operations on record files succeed. -/
def filesSucceed (s : State) : Label → Bool
  | .step i o =>
    match s.top i with
    | some (.file _) => o.fault.isNone
    | _ => true
  | _ => true

/-- If the step renames a temporary file, of an object that `p` selects, the file still holds the
record written to it. -/
def ownsTemp (p : Obj → Bool) (s : State) : Label → Bool
  | .step i _ =>
    match s.top i with
    | some (.file (.rename pid n r _)) =>
      !p r.obj || s.shared.disk.read r.obj.subdir (tmpName pid n) = some (.whole r)
    | _ => true
  | _ => true

theorem ownsTemp_read {p : Obj → Bool} {s s' : State} {i : Nat} {o : Oracle} {t : Thread}
    {f : Frame} {k : List Frame} {out : Out} (h : ownsTemp p s (.step i o))
    (hadv : Pool.Advance exec s i o s' t f k out) {pid n : Nat} {r : DiskRecord} {strict : Bool}
    (hf : f = .file (.rename pid n r strict)) (hp : p r.obj) :
    s.shared.disk.read r.obj.subdir (tmpName pid n) = some (.whole r) := by
  simpa [ownsTemp, hadv.top_eq, hf, hp] using h

/-- A new object that is about to enter the cache is stored. -/
def Stored (p : Obj → Bool) (s : State) : Prop :=
  ∀ t ∈ s.tasks, ∀ r, Stack (.issues r true) t.frames → p r.obj →
    s.shared.disk.load r.obj = some r

theorem Stored.advance {p : Obj → Bool} {s s' : State} {i : Nat} {o : Oracle} {t : Thread}
    {f : Frame} {k : List Frame} {out : Out} (hs : Stored p s) (h : Sound s)
    (hp : ∀ ob, p ob → ob.minted) (hown : ownsTemp p s (.step i o))
    (hadv : Pool.Advance exec s i o s' t f k out) : Stored p s' := by
  obtain ⟨d, hd⟩ := h.duties t hadv.mem
  obtain ⟨d', hd', hch⟩ := hd.step hadv.frames h.keyed hadv.exec
  intro u hu r hst hr
  obtain ⟨j, hu⟩ := List.getElem?_of_mem hu
  rcases hadv.cases hu with ⟨rfl, rfl⟩ | ⟨hj, hu⟩ | ⟨-, hu⟩
  · rcases hch.stored (hd'.unique hst) with ⟨rfl, hl⟩ | ⟨pid, n, strict, hf, hl⟩
    · rw [hl]
      exact hs t hadv.mem r hd hr
    · rw [Disk.load_rename (ownsTemp_read hown hadv hf hr) hl, if_pos rfl]
      rfl
  · rcases hch.load_eq r.obj with hl | hobj
    · rw [hl]
      exact hs u (List.mem_of_getElem? hu) r hst hr
    · have hf : f ∈ t.frames := by simp [hadv.frames]
      exact absurd hobj ((h.fresh j u r true hu hst (hp _ hr)).2 i t hadv.task hj.symm f hf)
  · obtain ⟨id, q, -, rfl⟩ := children_reaper hadv hu
    cases hst

theorem Stored.step {p : Obj → Bool} {s s' : State} {l : Label} (hs : Stored p s) (h : Sound s)
    (hp : ∀ ob, p ob → ob.minted) (hl : noRestart l) (hown : ownsTemp p s l)
    (hstep : step s l = some s') : Stored p s' := by
  cases l with
  | invoke c =>
    obtain rfl := Option.some.inj hstep
    intro u hu r hst hr
    rcases Pool.mem_tasks_start.mp hu with hu | rfl
    · exact hs u hu r hst hr
    · have hnew : Stack .none c.frames := .plain _ fun f hf => (plain_callFrames c f hf).1
      cases hnew.unique hst
  | step i o =>
    obtain ⟨t, f, k, out, hadv⟩ := Pool.advance_eq_some hstep
    exact hs.advance h hp hown hadv
  | exit q st =>
    obtain ⟨p, -, rfl⟩ := step_exit hstep
    exact hs
  | foreign pid =>
    obtain ⟨-, -, rfl⟩ := step_foreign hstep
    exact hs
  | restart rs => cases hl

end LightrCri.Fake

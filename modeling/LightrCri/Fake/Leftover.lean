import LightrCri.Fake.Removal

/-!
# What a removed sandbox leaves

Take serialized calls whose file operations succeed, and a sandbox that `remove_sandbox` has been
called for. From the return of the call on, nothing in the cache, in the record files and in the io
table is of the sandbox, and the removal has changed nothing of another one (`Watch.done`,
`Spares`). The file `resolv-{sandbox}.conf`, which `start_container` writes and nothing removes, is
left exactly if a container of the sandbox was started with a dns configuration
(`removed_sandbox_iff`).
-/

namespace LightrCri.Fake

open Backend Foundations

/-! ## While nothing is written -/

section Steps

variable {s s' : State} {i j : Nat} {t u : Thread} {o : Oracle} {f : Frame} {k : List Frame}
  {out : Out} {ob : Obj} {sb : SandboxId} {d d' : Duty}

/-- When a call enters the lock, and has nothing to write, no task has. -/
theorem Serial.quiet (h : Serial s) (hadv : Pool.Advance exec s i o s' t f k out)
    (hcall : t.tag.isCall) {c : Crit} (hf : f = .crit c) (hduty : dutyOf (f :: k) = .none) :
    ∀ u ∈ s.tasks, Stack .none u.frames := by
  have hfree : s.shared.lock = none := by
    have hex := hadv.exec
    rw [hf] at hex
    exact (exec_crit_eq_some.mp hex).1
  intro u hu
  obtain ⟨j, hu⟩ := List.getElem?_of_mem hu
  have hmem := List.mem_of_getElem? hu
  obtain ⟨e, he⟩ := h.sound.duties u hmem
  by_cases hj : j = i
  · subst hj
    obtain rfl := Option.some.inj (hu.symm.trans hadv.task)
    rw [← hadv.frames, he.dutyOf_eq] at hduty
    exact hduty ▸ he
  · cases htag : u.tag with
    | call c' =>
      rw [h.frames_nil hadv hcall hj hu (by rw [htag]; rfl)]
      exact .plain [] (by simp)
    | reaper id q =>
      obtain ⟨b, hb⟩ := h.reapers u hmem id q htag
      have hd := he.dutyOf_eq
      rcases hb.dutyOf with hnone | hrel | ⟨r, hper⟩
      · rw [hnone] at hd
        exact hd ▸ he
      · rw [hrel] at hd
        have := h.sound.releases j u hu (hd ▸ he)
        rw [hfree] at this
        cases this
      · rw [hper] at hd
        have := (h.sound.lands j u r hu (hd ▸ he)).1
        rw [hfree] at this
        cases this

/-- When no task has anything to write, every file is that of a cached object, in the same
sandbox. -/
theorem Kept.quiet_files (h : Kept s) (hq : ∀ u ∈ s.tasks, Stack .none u.frames) :
    ∀ sub name x, s.shared.disk.read sub name = some x → ∃ r old, x = .whole r ∧
      sub = r.obj.subdir ∧ name = r.obj.file ∧ s.shared.cache.get r.obj = some old ∧
      old.parent = r.parent := by
  have hmoves : ∀ u ∈ s.tasks, ∀ sub name r, ¬Moves u sub name r := by
    intro u hu sub name r hm
    have hst := hq u hu
    cases hm with
    | intro p n _ strict k frames =>
      rw [frames] at hst
      cases hst with
      | plain _ hk => cases hk _ List.mem_cons_self
  obtain ⟨ho, hf⟩ := h.files <| by
    rintro ⟨j, u, sub, name, r, hu, hm, -⟩
    exact hmoves u (List.mem_of_getElem? hu) sub name r hm
  intro sub name x hx
  rcases hf sub name x hx with ⟨p, n, rfl⟩ | ⟨r, hr, hsub, hname, hacc⟩
  · obtain ⟨u, hu, r, hm⟩ := ho.moved sub p n x hx
    exact absurd hm (hmoves u hu _ _ _)
  · cases hacc with
    | cached old get parent => exact ⟨r, old, hr, hsub, hname, get, parent⟩
    | issued v y mem stack => cases (hq v mem).unique stack
    | removed v mem stack => cases (hq v mem).unique stack

theorem Kept.quiet_unfiled (h : Kept s) (hq : ∀ u ∈ s.tasks, Stack .none u.frames)
    (hnone : s.shared.cache.get ob = none) :
    s.shared.disk.read ob.subdir ob.file = none := by
  by_contra hne
  obtain ⟨x, hx⟩ := Option.ne_none_iff_exists'.mp hne
  obtain ⟨r, old, -, hsub, hname, hget, -⟩ := h.quiet_files hq _ _ x hx
  obtain rfl := Obj.eq_of_file hsub hname
  rw [hnone] at hget
  cases hget

/-- Of the frames of the other tasks, none names an object while a call is at work that holds
the lock alone. -/
theorem Serial.quiet_unnamed (h : Serial s) (hadv : Pool.Advance exec s i o s' t f k out)
    (hcall : t.tag.isCall) (hq : ∀ u ∈ s.tasks, Stack .none u.frames) (hj : j ≠ i)
    (hu : s.tasks[j]? = some u) : ∀ g ∈ u.frames, g.obj = none := by
  have hmem := List.mem_of_getElem? hu
  cases htag : u.tag with
  | call c =>
    rw [h.frames_nil hadv hcall hj hu (by rw [htag]; rfl)]
    simp
  | reaper id q =>
    obtain ⟨b, hb⟩ := h.reapers u hmem id q htag
    have hst := hq u hmem
    generalize u.frames = fs at hb hst
    cases hb with
    | wait | removeIo | reap | done => simp [Frame.obj]
    | write r | rename p n r | unlock => cases hst.dutyOf_eq

theorem ReaperTask.not_sandbox {id : ContainerId} {q : Nat} {b : Bool} {fs : List Frame}
    (h : ReaperTask id q b fs) : ∀ g ∈ fs, g.obj ≠ some (.sandbox sb) := by
  cases h <;> simp [Frame.obj]

/-! ## The homes of the containers -/

/-- The frame belongs to the creation of a container in the sandbox. -/
def Frame.joins (sb : SandboxId) : Frame → Bool
  | .sys (.newContainer id _) => id = sb
  | .crit (.insertContainer r) => r.sandbox = sb
  | _ => false

theorem exec_joins {self n : Nat} {w w' : World} (hex : exec self n o f w = some (w', out)) :
    ∀ g ∈ out.pushed, g.joins sb → f.joins sb ∨ (w.cache.get (.sandbox sb)).isSome := by
  intro g hg hjoins
  cases g with
  | sys g =>
    cases g with
    | newContainer id cfg =>
      obtain rfl : id = sb := of_decide_eq_true hjoins
      exact Or.inr (exec_newContainer hex hg)
    | _ => cases hjoins
  | crit c =>
    cases c with
    | insertContainer r =>
      obtain ⟨cfg, rfl⟩ := exec_insertContainer hex hg
      exact Or.inl hjoins
    | _ => cases hjoins
  | _ => cases hjoins

theorem RemovalTask.not_joins {c : Cache} {fs : List Frame} {res : Option Result} {sb' : SandboxId}
    (h : RemovalTask sb c fs res) : ∀ g ∈ fs, Frame.joins sb' g = false := by
  have htears : ∀ a : List Frame, (∀ g ∈ a, Tears sb c g) → ∀ g ∈ a, g.joins sb' = false := by
    intro a ha g hg
    cases ha g hg <;> rfl
  intro g hg
  cases h with
  | stopping a tears | removing a tears =>
    rcases List.mem_append.mp hg with hg | hg
    · exact htears a tears g hg
    · simp only [List.mem_cons, List.not_mem_nil, or_false] at hg
      rcases hg with rfl | rfl <;> rfl
  | unlink | ret =>
    simp only [List.mem_cons, List.not_mem_nil, or_false] at hg
    rcases hg with rfl | rfl <;> rfl
  | done => cases hg

/-- When a sandbox is deleted it has no container. -/
theorem Removals.no_members (h : Removals s)
    (hadv : Pool.Advance exec s i o s' t (.crit (.deleteSandbox sb)) k out) :
    ∀ (id : ContainerId) (r : ContainerRecord), s.shared.cache.containers[id]? = some r →
      r.sandbox ≠ sb := by
  intro id r hget hmine
  have htag : t.tag = .call (.removeSandbox sb) :=
    h.tagged t hadv.mem sb (by simp [hadv.frames, Frame.removes])
  have := h.complete t hadv.mem sb htag [] k hadv.frames id r (Cache.get_container_eq_some hget)
    hmine
  simp at this

/-- Every container in the cache, and every one that is being created, is in a cached sandbox. -/
structure Housed (s : State) : Prop where
  joining : ∀ t ∈ s.tasks, ∀ sb, t.frames.any (Frame.joins sb) →
    (s.shared.cache.get (.sandbox sb)).isSome
  parents : ∀ (id : ContainerId) (r : ContainerRecord), s.shared.cache.containers[id]? = some r →
    (s.shared.cache.get (.sandbox r.sandbox)).isSome

theorem Housed.advance (h : Housed s) (hser : Serial s) (hr : Removals s)
    (hadv : Pool.Advance exec s i o s' t f k out) : Housed s' := by
  obtain ⟨d, hd⟩ := hser.sound.duties t hadv.mem
  obtain ⟨d', -, hch⟩ := hd.step hadv.frames hser.sound.keyed hadv.exec
  constructor
  case joining =>
    intro u hu sb hany
    obtain ⟨g, hg, hjoins⟩ := List.any_eq_true.mp hany
    obtain ⟨j, hu⟩ := List.getElem?_of_mem hu
    rcases hadv.cases hu with ⟨-, rfl⟩ | ⟨hj, hu⟩ | ⟨-, hu⟩
    · have hold : (s.shared.cache.get (.sandbox sb)).isSome := by
        rcases Task.mem_resume hg with hg | hg
        · rcases exec_joins hadv.exec g hg hjoins with hf | hget
          · exact h.joining t hadv.mem sb (List.any_eq_true.mpr ⟨f, by simp [hadv.frames], hf⟩)
          · exact hget
        · exact h.joining t hadv.mem sb
            (List.any_eq_true.mpr ⟨g, by simp [hadv.frames, hg], hjoins⟩)
      rcases hch.sandbox hold with hget | rfl
      · exact hget
      · -- a removal creates nothing
        have htag : t.tag = .call (.removeSandbox sb) :=
          hr.tagged t hadv.mem sb (by simp [hadv.frames, Frame.removes])
        have hno : g.joins sb = false := (hr.step_own hser.sound hadv htag).1.not_joins g hg
        rw [hno] at hjoins
        cases hjoins
    · have hmem := List.mem_of_getElem? hu
      have hold := h.joining u hmem sb hany
      cases htag : u.tag with
      | call c =>
        obtain ⟨_, _, _, _, -, -, hstep⟩ :=
          hser.reaper_of_busy hadv hj hu (by rw [htag]; rfl) (List.ne_nil_of_mem hg)
        rw [← Option.isSome_map (f := DiskRecord.parent), hstep.kept, Option.isSome_map]
        exact hold
      | reaper id q =>
        obtain ⟨b, hb⟩ := hser.reapers u hmem id q htag
        generalize u.frames = fs at hb hany
        cases hb <;> simp [Frame.joins] at hany
    · obtain ⟨_, _, -, rfl⟩ := children_reaper hadv hu
      simp [Frame.joins] at hany
  case parents =>
    intro id r hr'
    have hold : (s.shared.cache.get (.sandbox r.sandbox)).isSome := by
      rcases hch.container (Cache.get_container_eq_some hr') with ⟨r₀, hr₀, hsb⟩ | rfl
      · exact hsb ▸ h.parents id r₀ (by simpa [Cache.get] using hr₀)
      · exact h.joining t hadv.mem r.sandbox (by simp [hadv.frames, Frame.joins])
    rcases hch.sandbox hold with hget | rfl
    · exact hget
    · rcases hch.container (Cache.get_container_eq_some hr') with ⟨r₀, hr₀, hsb⟩ | hf
      · exact absurd hsb (hr.no_members hadv id r₀ (by simpa [Cache.get] using hr₀))
      · cases hf

theorem Housed.step {l : Label} (h : Housed s) (hser : Serial s) (hr : Removals s)
    (hl : noRestart l) (hstep : step s l = some s') : Housed s' := by
  cases l with
  | invoke c =>
    obtain rfl := Option.some.inj hstep
    refine { h with joining := fun u hu sb hany => ?_ }
    rcases Pool.mem_tasks_start.mp hu with hu | rfl
    · exact h.joining u hu sb hany
    · have hno : c.frames.any (Frame.joins sb) = false := by
        cases c <;> simp [Call.frames, Frame.joins]
      rw [hno] at hany
      cases hany
  | step i o =>
    obtain ⟨t, f, k, out, hadv⟩ := Pool.advance_eq_some hstep
    exact h.advance hser hr hadv
  | exit q st =>
    obtain ⟨p, -, rfl⟩ := step_exit hstep
    exact { h with }
  | foreign pid =>
    obtain ⟨-, -, rfl⟩ := step_foreign hstep
    exact { h with }
  | restart rs => cases hl

/-! ## The deletion -/

/-- When a sandbox is deleted no cached record is in it. -/
theorem Removals.no_parent (h : Removals s) (hk : s.shared.cache.Keyed)
    (hadv : Pool.Advance exec s i o s' t (.crit (.deleteSandbox sb)) k out) {r : DiskRecord}
    (hr : s.shared.cache.get ob = some r) : r.parent ≠ some sb := by
  intro hparent
  cases r with
  | container r =>
    obtain rfl : .container r.id = ob := hk ob _ hr
    exact h.no_members hadv r.id r (by simpa [Cache.get] using hr) (Option.some.inj hparent)
  | _ => cases hparent

/-- The tasks after the deletion of a sandbox: beside the removal there are ended calls, and reapers
that write nothing. -/
theorem Serial.deleted_tasks (h : Serial s)
    (hadv : Pool.Advance exec s i o s' t (.crit (.deleteSandbox sb)) k out) (hcall : t.tag.isCall) :
    ∀ u ∈ s'.tasks, u = t.resume k out ∨ (∀ g ∈ u.frames, g.obj = none) ∧
      Stack .none u.frames ∧ ∀ cfg, .sys (.newContainer sb cfg) ∉ u.frames := by
  have hq := h.quiet hadv hcall rfl rfl
  intro u hu
  obtain ⟨j, hu⟩ := List.getElem?_of_mem hu
  rcases hadv.cases hu with ⟨-, rfl⟩ | ⟨hj, hu⟩ | ⟨-, hu⟩
  · exact Or.inl rfl
  · have hmem := List.mem_of_getElem? hu
    refine Or.inr ⟨h.quiet_unnamed hadv hcall hq hj hu, hq u hmem, ?_⟩
    cases htag : u.tag with
    | call c =>
      rw [h.frames_nil hadv hcall hj hu (by rw [htag]; rfl)]
      simp
    | reaper id q =>
      obtain ⟨b, hb⟩ := h.reapers u hmem id q htag
      generalize u.frames = fs at hb
      cases hb <;> simp
  · have hchild : out.children = [] := by
      cases out with
      | fork tag child =>
        obtain ⟨_, _, hf, -⟩ := exec_fork hadv.exec
        cases hf
      | _ => rfl
    rw [hchild] at hu
    cases hu

/-- A removal that has deleted the sandbox has left nothing of it but its file. -/
theorem Kept.bare_of_deleted (h : Kept s) (hr : Removals s)
    (hadv : Pool.Advance exec s i o s' t (.crit (.deleteSandbox sb)) k out) (hcall : t.tag.isCall)
    (hsb : Minted s.shared.counter (.sandbox sb))
    (hcache : s'.shared.cache = s.shared.cache.eraseSandbox sb)
    (hdisk : s'.shared.disk = s.shared.disk) (hcounter : s'.shared.counter = s.shared.counter)
    (hframes : (t.resume k out).frames = [.file (.unlink (.sandbox sb)), .ret .unit]) :
    Bare sb s' := by
  have htasks := h.serial.deleted_tasks hadv hcall
  have hkeyed := h.serial.sound.keyed
  refine ⟨hcounter ▸ hsb, ?_, ?_, ?_, ?_⟩
  · intro ob r hget howner
    rw [hcache, Cache.get_eraseSandbox] at hget
    split at hget
    · cases hget
    · rename_i hne
      rcases owner_eq_some.mp howner with hobj | hparent
      · exact hne ((hkeyed ob r hget).symm.trans hobj)
      · exact hr.no_parent hkeyed hadv hget hparent
  · intro u hu e r he hrec
    rcases htasks u hu with rfl | ⟨-, hst, -⟩
    · rw [hframes] at he
      obtain rfl := he.unique (.unlink _ _ (by simp [Frame.plain]))
      cases hrec
    · obtain rfl := he.unique hst
      cases hrec
  · intro u hu cfg hmem
    rcases htasks u hu with rfl | ⟨-, -, hno⟩
    · rw [hframes] at hmem
      simp at hmem
    · exact hno cfg hmem
  · intro sub name r hread howner
    rw [hdisk] at hread
    obtain ⟨x, old, hx, hsub, hname, hget, hparent⟩ :=
      h.quiet_files (h.serial.quiet hadv hcall rfl rfl) sub name _ hread
    obtain rfl := FileData.whole.inj hx
    rcases owner_eq_some.mp howner with hobj | hpar
    · exact ⟨by rw [hsub, hobj]; rfl, by rw [hname, hobj]⟩
    · exact absurd (hparent.trans hpar) (hr.no_parent hkeyed hadv hget)

/-- After the deletion of a sandbox the containers that it has had are gone. -/
theorem Kept.gone_of_deleted (h : Kept s) (hr : Removals s)
    (hadv : Pool.Advance exec s i o s' t (.crit (.deleteSandbox sb)) k out) (hcall : t.tag.isCall)
    (hcache : s'.shared.cache = s.shared.cache.eraseSandbox sb)
    (hdisk : s'.shared.disk = s.shared.disk) (hcounter : s'.shared.counter = s.shared.counter)
    (hframes : (t.resume k out).frames = [.file (.unlink (.sandbox sb)), .ret .unit])
    {id : ContainerId} (hm : Minted s.shared.counter (.container id))
    (hmine : Mine sb s.shared.cache (.container id)) : Gone (.container id) s' := by
  have hnone : s.shared.cache.get (.container id) = none := by
    cases hget : s.shared.cache.containers[id]? with
    | none => rw [Cache.get, hget, Option.map_none]
    | some r => exact absurd (hmine r hget) (hr.no_members hadv id r hget)
  have hunfiled := h.quiet_unfiled (h.serial.quiet hadv hcall rfl rfl) hnone
  refine ⟨hcounter ▸ hm, ?_, ?_, hdisk ▸ hunfiled⟩
  · rw [hcache, Cache.get_eraseSandbox, if_neg (by simp)]
    exact hnone
  · intro u hu g hg
    rcases h.serial.deleted_tasks hadv hcall u hu with rfl | ⟨hno, -, -⟩
    · rw [hframes] at hg
      simp only [List.mem_cons, List.not_mem_nil, or_false] at hg
      rcases hg with rfl | rfl <;> simp [Frame.obj]
    · rw [hno g hg]
      simp

/-- What no frame of another task names, the removal has only to stop naming itself. -/
theorem Serial.unnamed_sandbox (h : Serial s) (hadv : Pool.Advance exec s i o s' t f k out)
    (hcall : t.tag.isCall) (hframes : (t.resume k out).frames = [.ret .unit]) :
    ∀ u ∈ s'.tasks, ∀ g ∈ u.frames, g.obj ≠ some (.sandbox sb) := by
  intro u hu
  obtain ⟨j, hu⟩ := List.getElem?_of_mem hu
  rcases hadv.cases hu with ⟨-, rfl⟩ | ⟨hj, hu⟩ | ⟨-, hu⟩
  · rw [hframes]
    simp [Frame.obj]
  · cases htag : u.tag with
    | call c =>
      rw [h.frames_nil hadv hcall hj hu (by rw [htag]; rfl)]
      simp
    | reaper id q =>
      obtain ⟨b, hb⟩ := h.reapers u (List.mem_of_getElem? hu) id q htag
      exact hb.not_sandbox
  · obtain ⟨_, _, -, rfl⟩ := children_reaper hadv hu
    simp [Frame.obj]

/-! ## The invariant -/

/-- What holds from a state on in which the sandbox is in the cache, with the containers `cs` of
it; the removals that count are the tasks from `n` on. -/
structure Watch (sb : SandboxId) (cs : ContainerId → Prop) (n : Nat) (s : State) : Prop where
  kept : Kept s
  removals : Removals s
  minted : Minted s.shared.counter (.sandbox sb)
  owned : ∀ id, cs id → Minted s.shared.counter (.container id) ∧
    Mine sb s.shared.cache (.container id)
  /-- The containers are not made again. -/
  made : ∀ id, cs id → ∀ t ∈ s.tasks, ∀ r b, Stack (.issues r b) t.frames → r.obj ≠ .container id
  bare : s.shared.cache.get (.sandbox sb) = none →
    Bare sb s ∧ ∀ id, cs id → Gone (.container id) s
  unlinking : ∀ (j : Nat) (t : Thread), n ≤ j → s.tasks[j]? = some t →
    t.tag = .call (.removeSandbox sb) → t.frames = [.file (.unlink (.sandbox sb)), .ret .unit] →
    s.shared.cache.get (.sandbox sb) = none
  done : ∀ (j : Nat) (t : Thread), n ≤ j → s.tasks[j]? = some t →
    t.tag = .call (.removeSandbox sb) →
    t.frames = [.ret .unit] ∨ (∃ v, t.result = some (.ok v)) → Gone (.sandbox sb) s

variable {cs : ContainerId → Prop} {n : Nat}

theorem Watch.owned_advance (h : Watch sb cs n s) (hadv : Pool.Advance exec s i o s' t f k out)
    (hd : Stack d t.frames) (hch : Change i o f s.shared s'.shared d d') {id : ContainerId}
    (hid : cs id) : Minted s'.shared.counter (.container id) ∧
      Mine sb s'.shared.cache (.container id) := by
  obtain ⟨hm, hmine⟩ := h.owned id hid
  refine ⟨hm.mono hch.counter_le, fun r' hr' => ?_⟩
  rcases hch.container (Cache.get_container_eq_some hr') with ⟨r, hr, hsb⟩ | rfl
  · exact hsb ▸ hmine r (by simpa [Cache.get] using hr)
  · -- a container that was there is not inserted again
    have hduty : d = .issues (.container r') true := by
      rw [hadv.frames] at hd
      exact hd.dutyOf_eq.symm
    have hkey := (hch.keyed h.kept.serial.sound.keyed).container hr'
    refine absurd ?_ (h.made id hid t hadv.mem (.container r') true (hduty ▸ hd))
    rw [DiskRecord.obj_container, hkey]

theorem Watch.made_advance (h : Watch sb cs n s) (hadv : Pool.Advance exec s i o s' t f k out)
    (hd : Stack d t.frames) (hd' : Stack d' (t.resume k out).frames)
    (hch : Change i o f s.shared s'.shared d d') {id : ContainerId} (hid : cs id) {u : Thread}
    (hu : u ∈ s'.tasks) {r : DiskRecord} {b : Bool} (hst : Stack (.issues r b) u.frames) :
    r.obj ≠ .container id := by
  rcases hadv.mem_cases hu with rfl | hu | hu
  · rcases hch.issues (hd'.unique hst) with ⟨⟨b', rfl⟩, -⟩ | ⟨new, -⟩
    · exact h.made id hid t hadv.mem r b' hd
    · intro hobj
      have hm : r.obj.minted := by rw [hobj]; rfl
      exact new.not_minted hm (hobj ▸ (h.owned id hid).1)
  · exact h.made id hid u hu r b hst
  · obtain ⟨_, _, -, rfl⟩ := children_reaper hadv hu
    cases hst

theorem Watch.bare_advance (h : Watch sb cs n s) (hadv : Pool.Advance exec s i o s' t f k out)
    (hok : opsSucceed s (.step i o)) (hnone : s'.shared.cache.get (.sandbox sb) = none) :
    Bare sb s' ∧ ∀ id, cs id → Gone (.container id) s' := by
  have hs := h.kept.serial.sound
  obtain ⟨d, hd⟩ := hs.duties t hadv.mem
  obtain ⟨d', hd', hch⟩ := hd.step hadv.frames hs.keyed hadv.exec
  cases hget : s.shared.cache.get (.sandbox sb) with
  | none =>
    obtain ⟨hbare, hgone⟩ := h.bare hget
    exact ⟨hbare.advance hs hadv hok, fun id hid => (hgone id hid).advance rfl hs hadv hok⟩
  | some r =>
    obtain ⟨rfl, -⟩ := hch.lost (by rw [hget]; rfl) hnone
    have htag : t.tag = .call (.removeSandbox sb) := by
      refine h.removals.tagged t hadv.mem sb ?_
      simp [hadv.frames, Frame.removes, Obj.dropped]
    have hk : k = [.ret .unit] := by
      cases (hadv.frames ▸ h.removals.staged t hadv.mem sb htag).head with
      | tears _ _ h => cases h
      | delete => rfl
    have hex := (exec_crit_eq_some.mp hadv.exec).2
    have hcached : ∃ r₀, s.shared.cache.sandboxes[sb]? = some r₀ := by
      rw [Cache.get, Option.map_eq_some_iff] at hget
      obtain ⟨r₀, hr₀, -⟩ := hget
      exact ⟨r₀, hr₀⟩
    obtain ⟨r₀, hr₀⟩ := hcached
    simp only [Obj.dropped, Crit.exec, hr₀] at hex
    obtain ⟨hw, hout⟩ := Prod.mk.inj hex
    have hcall : t.tag.isCall := by rw [htag]; rfl
    have hframes : (t.resume k out).frames = [.file (.unlink (.sandbox sb)), .ret .unit] := by
      rw [← hout, hk]
      rfl
    have hcache : s'.shared.cache = s.shared.cache.eraseSandbox sb := by rw [← hw]
    exact ⟨h.kept.bare_of_deleted h.removals hadv hcall h.minted hcache (by rw [← hw])
      (by rw [← hw]) hframes, fun id hid => h.kept.gone_of_deleted h.removals hadv hcall hcache
      (by rw [← hw]) (by rw [← hw]) hframes (h.owned id hid).1 (h.owned id hid).2⟩

theorem Watch.unlinking_advance (h : Watch sb cs n s) (hadv : Pool.Advance exec s i o s' t f k out)
    (hj : n ≤ j) (hu : s'.tasks[j]? = some u) (htag : u.tag = .call (.removeSandbox sb))
    (hframes : u.frames = [.file (.unlink (.sandbox sb)), .ret .unit]) :
    s'.shared.cache.get (.sandbox sb) = none := by
  have hser := h.kept.serial
  rcases hadv.cases hu with ⟨-, rfl⟩ | ⟨hj', hu⟩ | ⟨-, hu⟩
  · rw [Task.resume_tag] at htag
    obtain ⟨-, hstep⟩ := h.removals.step_own hser.sound hadv htag
    rw [hframes] at hstep
    generalize (t.resume k out).result = res at hstep
    cases hstep with
    | working _ c mem => simp at mem
    | deleted _ cache =>
      rw [cache, Cache.get_eraseSandbox, if_pos rfl]
  · have hold := h.unlinking j u hj hu htag hframes
    obtain ⟨_, _, _, _, -, -, hstep⟩ :=
      hser.reaper_of_busy hadv hj' hu (by rw [htag]; rfl) (by simp [hframes])
    have hkept := hstep.kept (.sandbox sb)
    rw [hold, Option.map_none, Option.map_eq_none_iff] at hkept
    exact hkept
  · obtain ⟨_, _, -, rfl⟩ := children_reaper hadv hu
    cases htag

/-- A removal that has come to its return has left nothing of the sandbox itself. -/
theorem Watch.gone_own (h : Watch sb cs n s) (hadv : Pool.Advance exec s i o s' t f k out)
    (hok : opsSucceed s (.step i o)) (hi : n ≤ i) (htag : t.tag = .call (.removeSandbox sb))
    (hdone : (t.resume k out).frames = [.ret .unit] ∨
      ∃ v, (t.resume k out).result = some (.ok v)) : Gone (.sandbox sb) s' := by
  have hs := h.kept.serial.sound
  have hcall : t.tag.isCall := by rw [htag]; rfl
  have hhead := (hadv.frames ▸ h.removals.staged t hadv.mem sb htag).head
  obtain ⟨-, hstep⟩ := h.removals.step_own hs hadv htag
  generalize hfs : (t.resume k out).frames = fs at hstep hdone
  generalize (t.resume k out).result = res at hstep hdone
  cases hstep with
  | working _ c mem =>
    rcases hdone with rfl | ⟨v, hv⟩
    · simp at mem
    · cases hv
  | failed e => rcases hdone with hd | ⟨v, hv⟩ <;> [cases hd; cases hv]
  | deleted => rcases hdone with hd | ⟨v, hv⟩ <;> [cases hd; cases hv]
  | absent frame none same =>
    have hq : ∀ u ∈ s.tasks, Stack .none u.frames := by
      rcases frame with rfl | rfl <;> exact h.kept.serial.quiet hadv hcall rfl rfl
    refine ⟨same ▸ h.minted, same ▸ none, h.kept.serial.unnamed_sandbox hadv hcall hfs, ?_⟩
    rw [same]
    exact h.kept.quiet_unfiled hq none
  | unlinked frame =>
    subst frame
    have hk : k = [.ret .unit] := by
      cases hhead with
      | tears _ _ h => cases h
      | unlink => rfl
    have hnone := h.unlinking i t hi hadv.task htag (by rw [hadv.frames, hk])
    obtain ⟨hw, -⟩ := exec_file_eq_some.mp hadv.exec
    have heq := FileOp.exec_eq o s.shared (.unlink (.sandbox sb))
    rw [hw] at heq
    refine ⟨by rw [heq]; exact h.minted, by rw [heq]; exact hnone,
      h.kept.serial.unnamed_sandbox hadv hcall hfs, ?_⟩
    cases exec_fileStep hadv hok with
    | same frame => exact absurd rfl (frame _)
    | write _ _ frame | rename _ _ _ _ frame => cases frame
    | unlink ob frame disk =>
      cases frame
      rw [disk, Disk.read_unlink, if_pos ⟨rfl, rfl⟩]
  | returned frame =>
    subst frame
    have hk : k = [] := by
      cases hhead with
      | tears _ _ h => cases h
      | ret => rfl
    exact (h.done i t hi hadv.task htag (Or.inl (by rw [hadv.frames, hk]))).advance rfl hs hadv hok

theorem Watch.advance (h : Watch sb cs n s) (hadv : Pool.Advance exec s i o s' t f k out)
    (hok : opsSucceed s (.step i o)) (hkept : Kept s') : Watch sb cs n s' := by
  have hs := h.kept.serial.sound
  obtain ⟨d, hd⟩ := hs.duties t hadv.mem
  obtain ⟨d', hd', hch⟩ := hd.step hadv.frames hs.keyed hadv.exec
  refine ⟨hkept, h.removals.advance h.kept.serial hadv, h.minted.mono hch.counter_le,
    fun id hid => h.owned_advance hadv hd hch hid,
    fun id hid u hu r b hst => h.made_advance hadv hd hd' hch hid hu hst,
    h.bare_advance hadv hok,
    fun j u hj hu htag hframes => h.unlinking_advance hadv hj hu htag hframes, ?_⟩
  intro j u hj hu htag hdone
  rcases hadv.cases hu with ⟨rfl, rfl⟩ | ⟨-, hu⟩ | ⟨-, hu⟩
  · rw [Task.resume_tag] at htag
    exact h.gone_own hadv hok hj htag hdone
  · exact (h.done j u hj hu htag hdone).advance rfl hs hadv hok
  · obtain ⟨_, _, -, rfl⟩ := children_reaper hadv hu
    cases htag

end Steps

section Run

variable {s s' : State} {l : Label} {sb : SandboxId} {cs : ContainerId → Prop} {n : Nat}

theorem Watch.step (h : Watch sb cs n s) (hl : noRestart l) (hserial : serialized s l)
    (hok : opsSucceed s l) (hstep : step s l = some s') : Watch sb cs n s' := by
  have hs := h.kept.serial.sound
  have hkept := h.kept.step hl hserial hok hstep
  have hremovals := h.removals.step h.kept.serial hl hstep
  have hgone : ∀ ob, ob.minted → Gone ob s → Gone ob s' := fun ob hm hgone =>
    hgone.step hm hs hl hok hstep
  have hbare : Bare sb s → Bare sb s' := fun hbare => hbare.step hs hl hok hstep
  cases l with
  | invoke c =>
    obtain rfl := Option.some.inj hstep
    -- the new task has nothing but the frames of its call
    have hnew : ∀ u ∈ (s.start (.call c) c.frames).tasks,
        u ∈ s.tasks ∨ u = ⟨.call c, c.frames, none⟩ := fun u hu => Pool.mem_tasks_start.mp hu
    have hindex : ∀ (j : Nat) (u : Thread), (s.start (.call c) c.frames).tasks[j]? = some u →
        s.tasks[j]? = some u ∨ u = ⟨.call c, c.frames, none⟩ := by
      intro j u hu
      rw [Pool.start, List.getElem?_append] at hu
      split at hu
      · exact Or.inl hu
      · exact Or.inr (List.mem_singleton.mp (List.mem_of_getElem? hu))
    refine ⟨hkept, hremovals, h.minted, h.owned, ?_, ?_, ?_, ?_⟩
    · intro id hid u hu r b hst
      rcases hnew u hu with hu | rfl
      · exact h.made id hid u hu r b hst
      · cases hst.unique (.plain _ fun f hf => (plain_callFrames c f hf).1)
    · intro hnone
      obtain ⟨hb, hg⟩ := h.bare hnone
      exact ⟨hbare hb, fun id hid => hgone _ rfl (hg id hid)⟩
    · intro j u hj hu htag hframes
      rcases hindex j u hu with hu | rfl
      · exact h.unlinking j u hj hu htag hframes
      · obtain rfl := Tag.call.inj htag
        cases hframes
    · intro j u hj hu htag hdone
      rcases hindex j u hu with hu | rfl
      · exact hgone _ rfl (h.done j u hj hu htag hdone)
      · obtain rfl := Tag.call.inj htag
        rcases hdone with hd | ⟨v, hv⟩ <;> [cases hd; cases hv]
  | step i o =>
    obtain ⟨t, f, k, out, hadv⟩ := Pool.advance_eq_some hstep
    exact h.advance hadv hok hkept
  | exit q st =>
    obtain ⟨p, -, rfl⟩ := step_exit hstep
    exact { h with
      kept := hkept
      removals := hremovals
      bare := fun hnone =>
        ⟨hbare (h.bare hnone).1, fun id hid => hgone _ rfl ((h.bare hnone).2 id hid)⟩
      done := fun j u hj hu htag hdone => hgone _ rfl (h.done j u hj hu htag hdone) }
  | foreign pid =>
    obtain ⟨-, -, rfl⟩ := step_foreign hstep
    exact { h with
      kept := hkept
      removals := hremovals
      bare := fun hnone =>
        ⟨hbare (h.bare hnone).1, fun id hid => hgone _ rfl ((h.bare hnone).2 id hid)⟩
      done := fun j u hj hu htag hdone => hgone _ rfl (h.done j u hj hu htag hdone) }
  | restart rs => cases hl

/-- The sandbox and its containers at a state that has the sandbox in the cache; the removals that
count are those called from then on. -/
theorem Watch.intro {r : SandboxRecord} (hkept : Kept s) (hremovals : Removals s)
    (hcached : s.shared.cache.sandboxes[sb]? = some r) :
    Watch sb (fun id => ∃ c, s.shared.cache.containers[id]? = some c ∧ c.sandbox = sb)
      s.tasks.length s := by
  have hs := hkept.serial.sound
  have hget := Cache.get_sandbox_eq_some hcached
  have hlate : ∀ (j : Nat) (u : Thread), s.tasks.length ≤ j → s.tasks[j]? ≠ some u := by
    intro j u hj hu
    rw [List.getElem?_eq_none hj] at hu
    cases hu
  refine ⟨hkept, hremovals, hs.cached _ rfl (by rw [hget]; rfl), ?_, ?_, ?_, ?_, ?_⟩
  · rintro id ⟨c, hc, hsb⟩
    refine ⟨hs.cached _ rfl (by rw [Cache.get_container_eq_some hc]; rfl), fun r' hr' => ?_⟩
    obtain rfl := Option.some.inj (hc.symm.trans hr')
    exact hsb
  · rintro id ⟨c, hc, -⟩ u hu r' b hst hobj
    obtain ⟨j, hu⟩ := List.getElem?_of_mem hu
    have hnone := (hs.fresh j u r' b hu hst (by rw [hobj]; rfl)).1
    rw [hobj, Cache.get_container_eq_some hc] at hnone
    cases hnone
  · intro hnone
    rw [hget] at hnone
    cases hnone
  · exact fun j u hj hu => absurd hu (hlate j u hj)
  · exact fun j u hj hu => absurd hu (hlate j u hj)

end Run

/-! ## The `resolv.conf` -/

/-- The name of the file that `write_sandbox_resolv_conf` writes for a sandbox. -/
def resolvName (sb : SandboxId) : String := "resolv-" ++ sb.val ++ ".conf"

theorem resolvName_inj {sb sb' : SandboxId} (h : resolvName sb = resolvName sb') : sb = sb' := by
  have hlist := congrArg String.toList h
  simp only [resolvName, String.toList_append, List.append_assoc] at hlist
  have hval := List.append_cancel_right (List.append_cancel_left hlist)
  cases sb
  cases sb'
  exact congrArg Id.mk (String.toList_inj.mp hval)

/-- The step does not prepare the start of a container of the sandbox with a dns configuration. -/
def writesNoResolv (sb : SandboxId) (s : State) : Label → Bool
  | .step i _ =>
    match s.top i with
    | some (.sys (.prepare _ r info)) => r.sandbox ≠ sb || info.dns.isNone
    | _ => true
  | _ => true

section Resolv

variable {s s' : State} {sb : SandboxId}

theorem resolv_prepare {self n : Nat} {o : Oracle} {w w' : World} {out : Out} {id : ContainerId}
    {r : ContainerRecord} {info : SandboxInfo} (hfault : o.fault = none)
    (hex : exec self n o (.sys (.prepare id r info)) w = some (w', out)) :
    w'.rootFiles[resolvName sb]? = none ↔
      w.rootFiles[resolvName sb]? = none ∧ (r.sandbox ≠ sb ∨ info.dns.isNone) := by
  have hroot : w'.rootFiles = info.dns.elim w.rootFiles fun dns =>
      w.rootFiles.insert (resolvName r.sandbox) (resolvConf dns) := by
    simp only [exec_sys, Sys.exec, hfault] at hex
    cases hdns : info.dns <;> rw [hdns] at hex <;> split at hex <;>
      (obtain ⟨rfl, -⟩ := Prod.mk.inj (Option.some.inj hex); rfl)
  rw [hroot]
  cases info.dns with
  | none => simp
  | some dns =>
    simp only [Option.elim_some, Std.ExtTreeMap.getElem?_insert, Option.isNone_some,
      Bool.false_eq_true, or_false]
    by_cases hsb : r.sandbox = sb
    · simp [hsb]
    · have hname : resolvName r.sandbox ≠ resolvName sb := fun h => hsb (resolvName_inj h)
      simp [hname, hsb]

/-- **The file comes with the first start that has a dns configuration, and stays.** -/
theorem resolv_step {l : Label} (hl : noRestart l) (hok : opsSucceed s l)
    (hstep : step s l = some s') : s'.shared.rootFiles[resolvName sb]? = none ↔
      s.shared.rootFiles[resolvName sb]? = none ∧ writesNoResolv sb s l := by
  cases l with
  | invoke c =>
    obtain rfl := Option.some.inj hstep
    simp [writesNoResolv, Pool.start]
  | step i o =>
    obtain ⟨t, f, k, out, hadv⟩ := Pool.advance_eq_some hstep
    by_cases hf : ∃ id r info, f = .sys (.prepare id r info)
    · obtain ⟨id, r, info, rfl⟩ := hf
      have hfault : o.fault = none := by
        simpa [opsSucceed, hadv.top_eq] using hok
      rw [resolv_prepare hfault hadv.exec]
      simp [writesNoResolv, hadv.top_eq]
    · push Not at hf
      have hno : writesNoResolv sb s (.step i o) = true := by
        rw [writesNoResolv, hadv.top_eq]
        cases f with
        | sys g =>
          cases g with
          | prepare id r info => exact absurd rfl (hf id r info)
          | _ => rfl
        | _ => rfl
      rw [exec_rootFiles hadv.exec hf, hno]
      simp
  | exit q st =>
    obtain ⟨p, -, rfl⟩ := step_exit hstep
    simp [writesNoResolv]
  | foreign pid =>
    obtain ⟨-, -, rfl⟩ := step_foreign hstep
    simp [writesNoResolv]
  | restart rs => cases hl

end Resolv

/-! ## Orderly runs -/

/-- What holds after serialized calls whose file operations succeed. -/
structure Orderly (s : State) : Prop where
  kept : Kept s
  removals : Removals s
  housed : Housed s
  whole : ∀ sub name x, s.shared.disk.read sub name = some x → ∃ r, x = .whole r

/-- A step of a serialized call, whose file operations succeed. -/
def orderly (s : State) (l : Label) : Prop :=
  noRestart l ∧ serialized s l ∧ opsSucceed s l

instance (s : State) (l : Label) : Decidable (orderly s l) :=
  inferInstanceAs (Decidable (_ ∧ _ ∧ _))

section Runs

variable {s₀ s s' : State} {l : Label} {ls : List Label} {i : Nat} {sb : SandboxId}

theorem whole_step (h : ∀ sub name x, s.shared.disk.read sub name = some x → ∃ r, x = .whole r)
    (hl : noRestart l) (hok : opsSucceed s l) (hstep : step s l = some s') :
    ∀ sub name x, s'.shared.disk.read sub name = some x → ∃ r, x = .whole r := by
  cases l with
  | invoke c =>
    obtain rfl := Option.some.inj hstep
    exact h
  | step i o =>
    obtain ⟨t, f, k, out, hadv⟩ := Pool.advance_eq_some hstep
    intro sub name x hx
    cases exec_fileStep hadv hok with
    | same _ disk => exact h sub name x (disk ▸ hx)
    | write r strict _ disk =>
      rw [disk, Disk.read_put] at hx
      split at hx
      · exact ⟨r, (Option.some.inj hx).symm⟩
      · exact h sub name x hx
    | rename p n r strict _ disk =>
      rw [Disk.read_rename disk] at hx
      split at hx
      · exact h _ _ x hx
      · split at hx
        · cases hx
        · exact h sub name x hx
    | unlink ob _ disk =>
      rw [disk, Disk.read_unlink] at hx
      split at hx
      · cases hx
      · exact h sub name x hx
  | exit q st =>
    obtain ⟨p, -, rfl⟩ := step_exit hstep
    exact h
  | foreign pid =>
    obtain ⟨-, -, rfl⟩ := step_foreign hstep
    exact h
  | restart rs => cases hl

theorem orderly_init (listener : Nat) (blake3 : String → String) :
    Orderly (init listener blake3) := by
  refine ⟨Kept.init listener blake3, Removals.init listener blake3, ?_, ?_⟩
  · refine ⟨by simp [init], fun id r hr => ?_⟩
    have hget := Cache.get_container_eq_some hr
    simp [init] at hget
  · intro sub name x hx
    simp [init] at hx

theorem orderly_step (h : Orderly s) (hl : orderly s l) (hstep : step s l = some s') :
    Orderly s' := by
  obtain ⟨hno, hserial, hok⟩ := hl
  have hser := h.kept.serial
  exact ⟨h.kept.step hno hserial hok hstep, h.removals.step hser hno hstep,
    h.housed.step hser h.removals hno hstep, whole_step h.whole hno hok hstep⟩

theorem orderly_run (h : Orderly s₀) (hls : Along step orderly s₀ ls)
    (hrun : run step s₀ ls = some s) : Orderly s :=
  invariant_run (fun _ _ _ h hl hstep => orderly_step h hl hstep) h hls hrun

theorem watch_run {cs : ContainerId → Prop} {n : Nat} (h : Watch sb cs n s₀)
    (hls : Along step orderly s₀ ls) (hrun : run step s₀ ls = some s) : Watch sb cs n s :=
  invariant_run (fun _ _ _ h hl hstep => h.step hl.1 hl.2.1 hl.2.2 hstep) h hls hrun

/-- A task keeps its tag. -/
theorem tag_run {t₀ : Thread} (h : s₀.tasks[i]? = some t₀) (hls : Along step orderly s₀ ls)
    (hrun : run step s₀ ls = some s) : ∃ t, s.tasks[i]? = some t ∧ t.tag = t₀.tag := by
  refine invariant_run (I := fun s : State => ∃ t, s.tasks[i]? = some t ∧ t.tag = t₀.tag) ?_
    ⟨t₀, h, rfl⟩ hls hrun
  rintro s l s' ⟨t, ht, htag⟩ ⟨hl, -, -⟩ hstep
  cases l with
  | invoke c =>
    obtain rfl := Option.some.inj hstep
    refine ⟨t, ?_, htag⟩
    rw [Pool.start, List.getElem?_append_left (List.getElem?_eq_some_iff.mp ht).1, ht]
  | step j o =>
    obtain ⟨u, f, k, out, hadv⟩ := Pool.advance_eq_some hstep
    by_cases hj : i = j
    · subst hj
      obtain rfl := Option.some.inj (ht.symm.trans hadv.task)
      exact ⟨t.resume k out, hadv.getElem?_self, by rw [Task.resume_tag, htag]⟩
    · exact ⟨t, hadv.getElem?_of_some hj ht, htag⟩
  | exit q st =>
    obtain ⟨p, -, rfl⟩ := step_exit hstep
    exact ⟨t, ht, htag⟩
  | foreign pid =>
    obtain ⟨-, -, rfl⟩ := step_foreign hstep
    exact ⟨t, ht, htag⟩
  | restart rs => cases hl

theorem resolv_run (hls : Along step orderly s₀ ls) (hrun : run step s₀ ls = some s) :
    s.shared.rootFiles[resolvName sb]? = none ↔ s₀.shared.rootFiles[resolvName sb]? = none ∧
      Along step (fun s l => writesNoResolv sb s l) s₀ ls := by
  induction ls generalizing s₀ with
  | nil =>
    obtain rfl := Option.some.inj hrun
    exact ⟨fun h => ⟨h, True.intro⟩, And.left⟩
  | cons l ls ih =>
    obtain ⟨s₁, h₁, h₂⟩ := run_cons_eq_some.mp hrun
    obtain ⟨⟨hl, -, hok⟩, hrest⟩ := hls
    rw [ih (hrest s₁ h₁) h₂, resolv_step hl hok h₁, and_assoc]
    refine and_congr_right fun _ => and_congr_right fun _ => ⟨fun h t ht => ?_, fun h => h s₁ h₁⟩
    obtain rfl := Option.some.inj (h₁.symm.trans ht)
    exact h

/-! ## What is left -/

/-- A step of the task `i` changes nothing of another sandbox. -/
def Spares (sb : SandboxId) (i : Nat) (s : State) (l : Label) : Prop :=
  ∀ o s', l = .step i o → step s l = some s' → Others sb s.shared s'.shared

/-- The steps of a removal spare the other sandboxes. -/
theorem spares_run (h : Orderly s₀) (hls : Along step orderly s₀ ls)
    (hrun : run step s₀ ls = some s) {t : Thread} (ht : s.tasks[i]? = some t)
    (htag : t.tag = .call (.removeSandbox sb)) : Along step (Spares sb i) s₀ ls := by
  induction ls generalizing s₀ with
  | nil => exact True.intro
  | cons l ls ih =>
    obtain ⟨s₁, h₁, h₂⟩ := run_cons_eq_some.mp hrun
    refine ⟨?_, fun s' hs' => ?_⟩
    · rintro o s' rfl hstep
      obtain ⟨t₀, f, k, out, hadv⟩ := Pool.advance_eq_some hstep
      obtain ⟨t', ht', htag'⟩ := tag_run hadv.task hls hrun
      obtain rfl := Option.some.inj (ht.symm.trans ht')
      have hst := h.removals.staged t₀ hadv.mem sb (htag'.symm.trans htag)
      rw [hadv.frames] at hst
      exact hst.head.others hadv.exec
    · obtain rfl := Option.some.inj (h₁.symm.trans hs')
      exact ih (orderly_step h hls.1 h₁) (hls.2 s₁ h₁) h₂

/-- The container was in the sandbox in some state of the run. -/
def Member (s₀ : State) (ls : List Label) (sb : SandboxId) (id : ContainerId) : Prop :=
  ∃ ls' s' r, ls' <+: ls ∧ run step s₀ ls' = some s' ∧
    s'.shared.cache.containers[id]? = some r ∧ r.sandbox = sb

/-- There is nothing of the sandbox, and nothing of the containers `cs`. -/
structure Erased (sb : SandboxId) (cs : ContainerId → Prop) (w : World) : Prop where
  sandbox : w.cache.sandboxes[sb]? = none
  containers : ∀ (id : ContainerId) (r : ContainerRecord), w.cache.containers[id]? = some r →
    r.sandbox ≠ sb
  file : w.disk.read (Obj.sandbox sb).subdir (Obj.sandbox sb).file = none
  /-- No file has a record of the sandbox in it, or of a container of it. -/
  contents : ∀ sub name x, w.disk.read sub name = some x →
    ∃ r, x = .whole r ∧ r.owner ≠ some sb
  members : ∀ id, cs id → w.cache.containers[id]? = none ∧ w.ioTable[id]? = none ∧
    w.disk.read (Obj.container id).subdir (Obj.container id).file = none
  resolv : w.rootFiles[resolvName sb]? = none

/-- A container that is gone has no entry in the io table. -/
theorem Gone.io {id : ContainerId} (h : Gone (.container id) s) (hio : IoHeld s) :
    s.shared.ioTable[id]? = none := by
  by_contra hne
  rcases hio.held id (Option.isSome_iff_ne_none.mpr hne) with hget | ⟨t, ht, k, hframes, hst⟩
  · rw [h.uncached] at hget
    cases hget
  · rw [hframes] at hst
    cases hst with
    | removeIo _ _ k =>
      exact h.unnamed t ht (.file (.unlink (.container id))) (by simp [hframes]) rfl

/-- The containers of a sandbox that is not in the cache any more are gone. -/
theorem gone_of_member {id : ContainerId} (h : Orderly s₀) (hls : Along step orderly s₀ ls)
    (hrun : run step s₀ ls = some s) (hm : Member s₀ ls sb id)
    (hnone : s.shared.cache.get (.sandbox sb) = none) : Gone (.container id) s := by
  obtain ⟨ls', s', r, ⟨ls'', rfl⟩, hrun', hr, hsb⟩ := hm
  obtain ⟨s'', hs'', hrest⟩ := run_append_eq_some.mp hrun
  obtain rfl := Option.some.inj (hrun'.symm.trans hs'')
  obtain ⟨hls₁, hls₂⟩ := hls.append hrun'
  have hs' := orderly_run h hls₁ hrun'
  obtain ⟨x, hx⟩ : ∃ x, s'.shared.cache.sandboxes[sb]? = some x := by
    have hhome := hs'.housed.parents id r hr
    rw [hsb, Cache.get, Option.isSome_map] at hhome
    exact Option.isSome_iff_exists.mp hhome
  have hwatch := watch_run (Watch.intro hs'.kept hs'.removals hx) hls₂ hrest
  exact (hwatch.bare hnone).2 id ⟨r, hr, hsb⟩

/-- After the return of a removal that began when the sandbox was there, there is nothing of it but,
perhaps, its `resolv.conf`. -/
theorem Watch.erased {cs : ContainerId → Prop} {n : Nat} {t : Thread} {v : Value}
    (h : Watch sb cs n s) (ho : Orderly s) (hi : n ≤ i) (ht : s.tasks[i]? = some t)
    (htag : t.tag = .call (.removeSandbox sb)) (hres : t.result = some (.ok v))
    {members : ContainerId → Prop} (hm : s.shared.cache.get (.sandbox sb) = none →
      ∀ id, members id → Gone (.container id) s)
    (hresolv : s.shared.rootFiles[resolvName sb]? = none) : Erased sb members s.shared := by
  have hgone := h.done i t hi ht htag (Or.inr ⟨v, hres⟩)
  obtain ⟨hbare, -⟩ := h.bare hgone.uncached
  constructor
  case sandbox => simpa [Cache.get] using hgone.uncached
  case containers =>
    intro id r hr hsb
    exact hbare.cached _ _ (Cache.get_container_eq_some hr) (congrArg some hsb)
  case file => exact hgone.unfiled
  case contents =>
    intro sub name x hx
    obtain ⟨r, rfl⟩ := ho.whole sub name x hx
    refine ⟨r, rfl, fun howner => ?_⟩
    obtain ⟨rfl, rfl⟩ := hbare.files sub name r hx howner
    have hnone : s.shared.disk.read .sandboxes (Obj.sandbox sb).file = none := hgone.unfiled
    rw [hnone] at hx
    cases hx
  case members =>
    intro id hid
    have hcontainer := hm hgone.uncached id hid
    exact ⟨by simpa [Cache.get] using hcontainer.uncached, hcontainer.io ho.kept.io,
      hcontainer.unfiled⟩
  case resolv => exact hresolv

end Runs

/-- The sandbox that the task has removed, when it has returned Ok. -/
def removedBy (t : Thread) : Option SandboxId :=
  match t.tag, t.result with
  | .call (.removeSandbox sb), some (.ok _) => some sb
  | _, _ => none

theorem removedBy_eq_some {t : Thread} {sb : SandboxId} (h : removedBy t = some sb) :
    t.tag = .call (.removeSandbox sb) ∧ ∃ v, t.result = some (.ok v) := by
  unfold removedBy at h
  split at h
  · rename_i sb' v htag hres
    obtain rfl := Option.some.inj h
    exact ⟨htag, v, hres⟩
  · cases h

/-- **What a removed sandbox leaves.** Take a run of serialized calls whose file operations succeed,
and a removal of a sandbox that was there when it was called. After the removal has returned Ok
there is nothing of the sandbox and its containers, and nothing of another sandbox was changed by
it, exactly if no start of a container of the sandbox was prepared with a dns configuration. Log
files, which are where the requests want them, are not counted. -/
theorem removed_sandbox_iff {listener : Nat} {blake3 : String → String} {ls₁ ls₂ : List Label}
    {s₁ s : State} {sb : SandboxId} {r : SandboxRecord} {i : Nat} {t : Thread}
    (hls : Along step orderly (init listener blake3) (ls₁ ++ ls₂))
    (h₁ : run step (init listener blake3) ls₁ = some s₁) (h₂ : run step s₁ ls₂ = some s)
    (hcached : s₁.shared.cache.sandboxes[sb]? = some r) (hi : s₁.tasks.length ≤ i)
    (ht : s.tasks[i]? = some t) (hdone : removedBy t = some sb) :
    (Erased sb (Member (init listener blake3) (ls₁ ++ ls₂) sb) s.shared ∧
        Along step (Spares sb i) (init listener blake3) (ls₁ ++ ls₂)) ↔
      Along step (fun s l => writesNoResolv sb s l) (init listener blake3) (ls₁ ++ ls₂) := by
  obtain ⟨htag, v, hres⟩ := removedBy_eq_some hdone
  have hinit := orderly_init listener blake3
  have hrun := run_append_eq_some.mpr ⟨s₁, h₁, h₂⟩
  have hresolv : s.shared.rootFiles[resolvName sb]? = none ↔ _ := resolv_run hls hrun
  constructor
  · rintro ⟨herased, -⟩
    exact (hresolv.mp herased.resolv).2
  · intro hwrites
    obtain ⟨hls₁, hls₂⟩ := hls.append h₁
    have ho₁ := orderly_run hinit hls₁ h₁
    have hwatch := watch_run (Watch.intro ho₁.kept ho₁.removals hcached) hls₂ h₂
    have hnofile : s.shared.rootFiles[resolvName sb]? = none :=
      hresolv.mpr ⟨by simp [init], hwrites⟩
    exact ⟨hwatch.erased (orderly_run hinit hls hrun) hi ht htag hres
      (fun hnone id hid => gone_of_member hinit hls hrun hid hnone) hnofile,
      spares_run hinit hls hrun ht htag⟩

/-- A container of a sandbox is started and ends; then the sandbox is removed. -/
def removedRun : List Label :=
  .invoke (.startContainer podContainer) :: steps 2 14 ++ Label.exit 0 (.exited 3) :: steps 3 6 ++
    .invoke (.removeSandbox podSandbox) :: steps 4 12

theorem removed_sandbox_iff_removedRun : ∃ s, run step podState removedRun = some s ∧
    Erased podSandbox (Member (init 1 id) (podRun ++ removedRun) podSandbox) s.shared ∧
    Along step (Spares podSandbox 4) (init 1 id) (podRun ++ removedRun) := by
  have hrun : (run step podState removedRun).any fun s => s.tasks[4]?.any fun t =>
      removedBy t = some podSandbox := by decide
  obtain ⟨s, hs, hend⟩ := (Option.any_eq_true _ _).mp hrun
  obtain ⟨t, ht, hend⟩ := (Option.any_eq_true _ _).mp hend
  have hcached : podState.shared.cache.sandboxes[podSandbox]?.isSome := by decide
  obtain ⟨r, hr⟩ := Option.isSome_iff_exists.mp hcached
  exact ⟨s, hs, (removed_sandbox_iff (by decide) run_podRun hs hr (by decide) ht
    (of_decide_eq_true hend)).mpr (by decide)⟩

/-- The same in a sandbox with a dns configuration. -/
def dnsRun : List Label :=
  .invoke (.runSandbox { name := "pod", dns := some ⟨["10.0.0.10"], [], []⟩ }) :: steps 0 5 ++
    .invoke (.createContainer podSandbox { name := "main", imageRef := "img" }) :: steps 1 6

/-- **The `resolv.conf` of a removed sandbox stays.** -/
theorem resolv_conf_left :
    ¬ ∀ (listener : Nat) (blake3 : String → String) (ls₁ ls₂ : List Label) (s₁ s : State)
      (sb : SandboxId) (r : SandboxRecord) (i : Nat) (t : Thread),
      Along step orderly (init listener blake3) (ls₁ ++ ls₂) →
      run step (init listener blake3) ls₁ = some s₁ → run step s₁ ls₂ = some s →
      s₁.shared.cache.sandboxes[sb]? = some r → s₁.tasks.length ≤ i → s.tasks[i]? = some t →
      removedBy t = some sb →
      Erased sb (Member (init listener blake3) (ls₁ ++ ls₂) sb) s.shared ∧
        Along step (Spares sb i) (init listener blake3) (ls₁ ++ ls₂) := by
  intro hall
  have hrun : (run step (init 1 id) dnsRun).any fun s₁ =>
      s₁.shared.cache.sandboxes[podSandbox]?.isSome ∧ s₁.tasks.length ≤ 4 ∧
        (run step s₁ removedRun).any fun s =>
          (s.tasks[4]?.any fun t => removedBy t = some podSandbox) ∧
          s.shared.rootFiles[resolvName podSandbox]? = some "nameserver 10.0.0.10\n" := by decide
  obtain ⟨s₁, hs₁, hend⟩ := (Option.any_eq_true _ _).mp hrun
  obtain ⟨hcached, hi, hend⟩ := of_decide_eq_true hend
  obtain ⟨r, hr⟩ := Option.isSome_iff_exists.mp hcached
  obtain ⟨s, hs, hend⟩ := (Option.any_eq_true _ _).mp hend
  obtain ⟨htask, hfile⟩ := of_decide_eq_true hend
  obtain ⟨t, ht, htask⟩ := (Option.any_eq_true _ _).mp htask
  have herased := (hall 1 id dnsRun removedRun s₁ s podSandbox r 4 t (by decide) hs₁ hs hr hi ht
    (of_decide_eq_true htask)).1
  rw [herased.resolv] at hfile
  cases hfile

end LightrCri.Fake

import LightrCri.Fake.StateRoot
import LightrCri.Fake.Referential

/-!
# The removal of a sandbox

`remove_sandbox` stops the sandbox, stops and removes its containers, and drops its record and its
file. What it works on is of the sandbox (`RemovalTask`), so nothing of another sandbox changes
(`Others`). What is gone stays gone, whatever comes later (`Gone.step`, `Bare.step`): ids are not
made twice, and a late reaper does not find its record.
-/

namespace LightrCri.Fake

open Backend Foundations

/-! ## Whose a record is -/

/-- The sandbox that the record is of, or that the container is in. -/
def DiskRecord.owner : DiskRecord → Option SandboxId
  | .sandbox r => some r.id
  | .container r => some r.sandbox
  | .image _ => none

theorem owner_eq_some {r : DiskRecord} {sb : SandboxId} :
    r.owner = some sb ↔ r.obj = .sandbox sb ∨ r.parent = some sb := by
  cases r <;> simp [DiskRecord.owner, DiskRecord.parent]

/-- The object is the sandbox, or a container that is in no other one. -/
def Mine (sb : SandboxId) (c : Cache) : Obj → Prop
  | .sandbox id => id = sb
  | .container id => ∀ r, c.containers[id]? = some r → r.sandbox = sb
  | .image _ => False

/-- The object is another sandbox, a container of another sandbox, or an image. -/
def Foreign (sb : SandboxId) (c : Cache) : Obj → Prop
  | .sandbox id => id ≠ sb
  | .container id => ∃ r, c.containers[id]? = some r ∧ r.sandbox ≠ sb
  | .image _ => True

theorem Mine.ne {sb : SandboxId} {c : Cache} {ob ob' : Obj} (h : Mine sb c ob)
    (h' : Foreign sb c ob') : ob' ≠ ob := by
  rintro rfl
  cases ob' with
  | sandbox id => exact h' h
  | container id =>
    obtain ⟨r, hr, hne⟩ := h'
    exact hne (h r hr)
  | image id => exact h

/-- No container has come to the sandbox from another. -/
theorem Mine.mono {sb : SandboxId} {c c' : Cache} {ob : Obj} (h : Mine sb c ob)
    (hc : ∀ (id : ContainerId) (r' : ContainerRecord), c'.containers[id]? = some r' →
      ∃ r, c.containers[id]? = some r ∧ r.sandbox = r'.sandbox) : Mine sb c' ob := by
  cases ob with
  | container id =>
    intro r' hr'
    obtain ⟨r, hr, hsb⟩ := hc id r' hr'
    exact hsb ▸ h r hr
  | _ => exact h

theorem Mine.setContainer {sb : SandboxId} {c : Cache} {id id' : ContainerId}
    {r : ContainerRecord} (h : Mine sb c (.container id)) (hr : r.sandbox = sb) :
    Mine sb (c.setContainer id' r) (.container id) := by
  intro r' hr'
  rw [containers_setContainer] at hr'
  split at hr'
  · rw [← Option.some.inj hr']
    exact hr
  · exact h r' hr'

/-! ## What is gone -/

/-- There is nothing of the object, and nothing will be: its id was made, and no frame names it. -/
structure Gone (ob : Obj) (s : State) : Prop where
  minted : Minted s.shared.counter ob
  uncached : s.shared.cache.get ob = none
  unnamed : ∀ t ∈ s.tasks, ∀ f ∈ t.frames, f.obj ≠ some ob
  unfiled : s.shared.disk.read ob.subdir ob.file = none

section Steps

variable {s s' : State} {i : Nat} {t : Thread} {o : Oracle} {f : Frame} {k : List Frame}
  {out : Out} {ob : Obj} {sb : SandboxId}

theorem Gone.advance (h : Gone ob s) (hm : ob.minted) (hs : Sound s)
    (hadv : Pool.Advance exec s i o s' t f k out) (hok : opsSucceed s (.step i o)) :
    Gone ob s' := by
  obtain ⟨d, hd⟩ := hs.duties t hadv.mem
  obtain ⟨d', hd', hch⟩ := hd.step hadv.frames hs.keyed hadv.exec
  have hf : f.obj ≠ some ob := h.unnamed t hadv.mem f (by simp [hadv.frames])
  constructor
  case minted => exact h.minted.mono hch.counter_le
  case uncached =>
    by_contra hne
    rcases hch.get_isSome (Option.isSome_iff_ne_none.mpr hne) with hget | ⟨r, -, rfl, hr⟩
    · rw [h.uncached] at hget
      cases hget
    · exact hf (hr ▸ obj_insert r)
  case unnamed =>
    intro u hu g hg hob
    rcases hadv.mem_cases hu with rfl | hu | hu
    · rcases Task.mem_resume hg with hg | hg
      · rcases exec_objs hs.keyed hadv.exec hg hob hm with he | hget | ⟨r, rfl, new⟩
        · exact hf he
        · rw [h.uncached] at hget
          cases hget
        · exact new.not_minted hm h.minted
      · exact h.unnamed t hadv.mem g (by simp [hadv.frames, hg]) hob
    · exact h.unnamed u hu g hg hob
    · obtain ⟨id, q, -, rfl⟩ := children_reaper hadv hu
      obtain rfl := List.mem_singleton.mp hg
      cases hob
  case unfiled =>
    have htmp : ∀ p n, ob.file ≠ tmpName p n := fun p n => (tmpName_ne_fileName p n ob.stem).symm
    cases exec_fileStep hadv hok with
    | same _ disk => rw [disk, h.unfiled]
    | write r strict _ disk => rw [disk, Disk.read_put, if_neg fun he => htmp _ _ he.2, h.unfiled]
    | rename p n r strict frame disk =>
      rw [Disk.read_rename disk, if_neg, if_neg fun he => htmp _ _ he.2, h.unfiled]
      rintro ⟨hsub, hfile⟩
      exact hf (by rw [frame, Obj.eq_of_file hsub hfile]; rfl)
    | unlink ob' _ disk =>
      rw [disk, Disk.read_unlink]
      split
      · rfl
      · exact h.unfiled

end Steps

/-- **What is gone stays gone.** -/
theorem Gone.step {s s' : State} {l : Label} {ob : Obj} (h : Gone ob s) (hm : ob.minted)
    (hs : Sound s) (hl : noRestart l) (hok : opsSucceed s l) (hstep : step s l = some s') :
    Gone ob s' := by
  cases l with
  | invoke c =>
    obtain rfl := Option.some.inj hstep
    refine { h with unnamed := fun u hu f hf => ?_ }
    rcases Pool.mem_tasks_start.mp hu with hu | rfl
    · exact h.unnamed u hu f hf
    · rw [(plain_callFrames c f hf).2]
      simp
  | step i o =>
    obtain ⟨t, f, k, out, hadv⟩ := Pool.advance_eq_some hstep
    exact h.advance hm hs hadv hok
  | exit q st =>
    obtain ⟨p, -, rfl⟩ := step_exit hstep
    exact { h with }
  | foreign pid =>
    obtain ⟨-, -, rfl⟩ := step_foreign hstep
    exact { h with }
  | restart rs => cases hl

/-! ## What is left of a sandbox -/

/-- The record that a duty is about. -/
def Duty.record : Duty → Option DiskRecord
  | .persists r _ => some r
  | .issues r _ => some r
  | _ => Option.none

/-- Of a sandbox that is not in the cache nothing is left but its own file. -/
structure Bare (sb : SandboxId) (s : State) : Prop where
  minted : Minted s.shared.counter (.sandbox sb)
  cached : ∀ ob r, s.shared.cache.get ob = some r → r.owner ≠ some sb
  carried : ∀ t ∈ s.tasks, ∀ d r, Stack d t.frames → d.record = some r → r.owner ≠ some sb
  unborn : ∀ t ∈ s.tasks, ∀ cfg, .sys (.newContainer sb cfg) ∉ t.frames
  files : ∀ sub name r, s.shared.disk.read sub name = some (.whole r) → r.owner = some sb →
    sub = .sandboxes ∧ name = (Obj.sandbox sb).file

theorem Bare.uncached {s : State} {sb : SandboxId} (h : Bare sb s) (hk : s.shared.cache.Keyed) :
    s.shared.cache.get (.sandbox sb) = none := by
  by_contra hne
  obtain ⟨r, hr⟩ := Option.ne_none_iff_exists'.mp hne
  exact h.cached _ r hr (owner_eq_some.mpr (Or.inl (hk _ r hr)))

section Pushes

variable {self n : Nat} {o : Oracle} {f : Frame} {w w' : World} {out : Out} {sb : SandboxId}
  {cfg : ContainerConfig}

/-- A container is created in a sandbox that the cache holds. -/
theorem exec_newContainer (hex : exec self n o f w = some (w', out))
    (hg : .sys (.newContainer sb cfg) ∈ out.pushed) :
    (w.cache.get (.sandbox sb)).isSome := by
  rcases exec_pushes hex with hnil | hpush
  · rw [hnil] at hg
    cases hg
  · generalize hfs : out.pushed = fs at hpush hg
    cases hpush with
    | collectContainers id ids =>
      have hno : ∀ g ∈ cascade ids ++ [Frame.crit (.deleteSandbox id)],
          g ≠ .sys (.newContainer sb cfg) :=
        forall_mem_collect (by simp) (by simp) (by simp)
      exact absurd rfl (hno _ hg)
    | createContainer sb' cfg' =>
      cases List.mem_singleton.mp hg
      obtain ⟨-, hex⟩ := exec_crit_eq_some.mp hex
      simp only [Crit.exec] at hex
      split at hex
      · obtain ⟨-, rfl⟩ := Prod.mk.inj hex
        cases hfs
      · rename_i r hr
        rw [Cache.get_sandbox_eq_some hr]
        rfl
    | _ => simp at hg

/-- A container is inserted with the sandbox it is created in. -/
theorem exec_insertContainer {r : ContainerRecord} (hex : exec self n o f w = some (w', out))
    (hg : .crit (.insertContainer r) ∈ out.pushed) :
    ∃ cfg, f = .sys (.newContainer r.sandbox cfg) := by
  rcases exec_pushes hex with hnil | hpush
  · rw [hnil] at hg
    cases hg
  · generalize hfs : out.pushed = fs at hpush hg
    cases hpush with
    | collectContainers id ids =>
      have hno : ∀ g ∈ cascade ids ++ [Frame.crit (.deleteSandbox id)],
          g ≠ .crit (.insertContainer r) :=
        forall_mem_collect (by simp) (by simp) (by simp)
      exact absurd rfl (hno _ hg)
    | newContainer sb cfg r' v =>
      obtain ⟨-, rfl⟩ := Prod.mk.inj (Option.some.inj hex)
      rw [← hfs] at hg
      simp only [Outcome.pushed, List.mem_cons, Frame.crit.injEq, Crit.insertContainer.injEq,
        reduceCtorEq, List.not_mem_nil, or_false, false_or] at hg
      exact ⟨cfg, by rw [hg]⟩
    | _ => simp at hg

/-- A task that creates an object has yet to insert it. -/
theorem Stack.insert_mem {r : DiskRecord} {b : Bool} {fs : List Frame}
    (h : Stack (.issues r b) fs) : .crit r.insert ∈ fs := by
  cases h <;> simp

/-- An insertion below the top of a stack is of the record that is being written. -/
theorem Stack.record_of_insert {d : Duty} {f : Frame} {k : List Frame} {r : DiskRecord}
    (h : Stack d (f :: k)) (hk : .crit r.insert ∈ k) : d.record = some r := by
  have hplain : ∀ (k : List Frame), (∀ g ∈ k, g.plain) → .crit r.insert ∉ k := by
    intro k hp hm
    have := hp _ hm
    cases r <;> cases this
  have hinsert : ∀ x : DiskRecord, Frame.crit r.insert = .crit x.insert → r = x := by
    intro x hx
    cases r <;> cases x <;> simp_all [DiskRecord.insert]
  cases h with
  | plain _ hp => exact absurd hk (hplain _ fun g hg => hp g (List.mem_cons_of_mem _ hg))
  | write _ _ _ hp | rename _ _ _ _ _ hp | unlock _ hp | unlink _ _ hp | insert _ _ hp =>
    exact absurd hk (hplain _ hp)
  | landWrite _ k hp | landRename _ _ _ k hp | removeIo _ _ k hp =>
    rcases List.mem_cons.mp hk with he | hm
    · cases he
    · exact absurd hm (hplain _ hp)
  | issueWrite x k hp | issueRename _ _ x k hp =>
    rcases List.mem_cons.mp hk with he | hm
    · exact congrArg some (hinsert x he).symm
    · exact absurd hm (hplain _ hp)

/-- A stack that is to write a record is about it. -/
theorem Stack.record_of_write {d : Duty} {r : DiskRecord} {strict : Bool} {k : List Frame}
    (h : Stack d (.file (.write r strict) :: k)) : d.record = some r := by
  cases h with
  | plain _ hp => cases hp _ List.mem_cons_self
  | _ => rfl

end Pushes

section Steps

variable {s s' : State} {i : Nat} {t : Thread} {o : Oracle} {f : Frame} {k : List Frame}
  {out : Out} {d d' : Duty} {sb : SandboxId}

theorem Bare.cached_advance (h : Bare sb s) (hs : Sound s)
    (hadv : Pool.Advance exec s i o s' t f k out) (hd : Stack d t.frames)
    (hch : Change i o f s.shared s'.shared d d') :
    ∀ ob r, s'.shared.cache.get ob = some r → r.owner ≠ some sb := by
  -- a record that replaces a cached one has its owner
  have hput : ∀ x, Replaces s.shared.cache x → x.owner ≠ some sb := by
    rintro x ⟨old, hold, hparent⟩ howner
    rcases owner_eq_some.mp howner with hobj | hpar
    · rw [hobj, h.uncached hs.keyed] at hold
      cases hold
    · exact h.cached _ old hold (owner_eq_some.mpr (Or.inr (hparent.trans hpar)))
  intro ob r hr
  cases hch with
  | quiet _ hc | write _ _ _ _ _ hc | abandon _ _ _ _ _ hc | rename _ _ _ _ _ _ hc
  | store _ _ _ _ _ hc | unlink _ _ hc | keep _ _ _ hc | release hc | issue _ _ hc =>
    exact h.cached ob r (hc ▸ hr)
  | update x _ present hc | land x _ present hc =>
    rw [hc, Cache.get_put] at hr
    split at hr
    · obtain rfl := Option.some.inj hr
      exact hput x present
    · exact h.cached ob r hr
  | insert x _ _ hc =>
    rw [hc, Cache.get_put] at hr
    split at hr
    · obtain rfl := Option.some.inj hr
      exact h.carried t hadv.mem _ x hd rfl
    · exact h.cached ob r hr
  | drop ob' _ _ hc =>
    rw [hc, Cache.get_erase] at hr
    split at hr
    · cases hr
    · exact h.cached ob r hr

theorem Bare.carried_advance (h : Bare sb s) (hadv : Pool.Advance exec s i o s' t f k out)
    (hd : Stack d t.frames) (hd' : Stack d' (t.resume k out).frames)
    (hch : Change i o f s.shared s'.shared d d')
    (hcached : ∀ ob r, s'.shared.cache.get ob = some r → r.owner ≠ some sb) {r : DiskRecord}
    (hr : d'.record = some r) : r.owner ≠ some sb := by
  have hold : d.record = some r → r.owner ≠ some sb := h.carried t hadv.mem d r hd
  cases d' with
  | persists x l =>
    obtain rfl := Option.some.inj hr
    cases l with
    | false =>
      rcases hch.persists rfl with ⟨rfl, -⟩ | hget
      · exact hold rfl
      · exact hcached _ x hget
    | true =>
      rcases hch.lands rfl with ⟨rfl, -⟩ | ⟨-, hget⟩
      · exact hold rfl
      · exact hcached _ x hget
  | issues x b =>
    obtain rfl := Option.some.inj hr
    rcases hch.issues rfl with ⟨⟨b', rfl⟩, -⟩ | ⟨new, -⟩
    · exact hold rfl
    · intro howner
      rcases owner_eq_some.mp howner with hobj | hparent
      · have hm : x.obj.minted := by rw [hobj]; rfl
        exact new.not_minted hm (hobj ▸ h.minted)
      · cases x with
        | container x =>
          rcases Task.mem_resume hd'.insert_mem with hpushed | hk
          · obtain ⟨cfg, rfl⟩ := exec_insertContainer hadv.exec hpushed
            obtain rfl : x.sandbox = sb := Option.some.inj hparent
            exact h.unborn t hadv.mem cfg (by simp [hadv.frames])
          · exact hold ((hadv.frames ▸ hd).record_of_insert hk) howner
        | _ => cases hparent
  | _ => cases hr

theorem Bare.advance (h : Bare sb s) (hs : Sound s)
    (hadv : Pool.Advance exec s i o s' t f k out) (hok : opsSucceed s (.step i o)) :
    Bare sb s' := by
  obtain ⟨d, hd⟩ := hs.duties t hadv.mem
  obtain ⟨d', hd', hch⟩ := hd.step hadv.frames hs.keyed hadv.exec
  have hcached := h.cached_advance hs hadv hd hch
  refine ⟨h.minted.mono hch.counter_le, hcached, ?_, ?_, ?_⟩
  · intro u hu e r he hr
    rcases hadv.mem_cases hu with rfl | hu | hu
    · obtain rfl := he.unique hd'
      exact h.carried_advance hadv hd hd' hch hcached hr
    · exact h.carried u hu e r he hr
    · obtain ⟨id, q, -, rfl⟩ := children_reaper hadv hu
      obtain rfl := he.unique (.plain _ (by simp [Frame.plain]))
      cases hr
  · intro u hu cfg hmem
    rcases hadv.mem_cases hu with rfl | hu | hu
    · rcases Task.mem_resume hmem with hg | hg
      · have hsome := exec_newContainer hadv.exec hg
        rw [h.uncached hs.keyed] at hsome
        cases hsome
      · exact h.unborn t hadv.mem cfg (by simp [hadv.frames, hg])
    · exact h.unborn u hu cfg hmem
    · obtain ⟨id, q, -, rfl⟩ := children_reaper hadv hu
      cases List.mem_singleton.mp hmem
  · intro sub name r hr howner
    cases exec_fileStep hadv hok with
    | same _ disk => exact h.files sub name r (disk ▸ hr) howner
    | write x strict frame disk =>
      rw [disk, Disk.read_put] at hr
      split at hr
      · obtain rfl := FileData.whole.inj (Option.some.inj hr)
        have hx : d.record = some x := by
          rw [hadv.frames, frame] at hd
          exact hd.record_of_write
        exact absurd howner (h.carried t hadv.mem d x hd hx)
      · exact h.files sub name r hr howner
    | rename p n x strict frame disk =>
      rw [Disk.read_rename disk] at hr
      split at hr
      · exact absurd (h.files _ _ r hr howner).2 (tmpName_ne_fileName p n _)
      · split at hr
        · cases hr
        · exact h.files sub name r hr howner
    | unlink ob frame disk =>
      rw [disk, Disk.read_unlink] at hr
      split at hr
      · cases hr
      · exact h.files sub name r hr howner

end Steps

theorem Bare.step {s s' : State} {l : Label} {sb : SandboxId} (h : Bare sb s) (hs : Sound s)
    (hl : noRestart l) (hok : opsSucceed s l) (hstep : step s l = some s') : Bare sb s' := by
  cases l with
  | invoke c =>
    obtain rfl := Option.some.inj hstep
    refine { h with carried := fun u hu d r hd hr => ?_, unborn := fun u hu cfg hmem => ?_ }
    · rcases Pool.mem_tasks_start.mp hu with hu | rfl
      · exact h.carried u hu d r hd hr
      · obtain rfl := hd.unique (.plain _ fun f hf => (plain_callFrames c f hf).1)
        cases hr
    · rcases Pool.mem_tasks_start.mp hu with hu | rfl
      · exact h.unborn u hu cfg hmem
      · have hno : .sys (.newContainer sb cfg) ∉ c.frames := by cases c <;> simp [Call.frames]
        exact hno hmem
  | step i o =>
    obtain ⟨t, f, k, out, hadv⟩ := Pool.advance_eq_some hstep
    exact h.advance hs hadv hok
  | exit q st =>
    obtain ⟨p, -, rfl⟩ := step_exit hstep
    exact { h with }
  | foreign pid =>
    obtain ⟨-, -, rfl⟩ := step_foreign hstep
    exact { h with }
  | restart rs => cases hl

/-! ## The removal -/

/-- The frames that `remove_sandbox` works with: each is about the sandbox, or a container of
it. -/
inductive Tears (sb : SandboxId) (c : Cache) : Frame → Prop
  | stopSandbox : Tears sb c (.crit (.stopSandbox sb))
  | write (r strict) (mine : Mine sb c r.obj) : Tears sb c (.file (.write r strict))
  | rename (p n r strict) (mine : Mine sb c r.obj) : Tears sb c (.file (.rename p n r strict))
  | unlink (id) (mine : Mine sb c (.container id)) :
    Tears sb c (.file (.unlink (.container id)))
  | stopContainer (id grace) (mine : Mine sb c (.container id)) :
    Tears sb c (.crit (.stopContainer id grace))
  | waitGrace (id pid) (mine : Mine sb c (.container id)) : Tears sb c (.crit (.waitGrace id pid))
  | waitKilled (id) (mine : Mine sb c (.container id)) : Tears sb c (.crit (.waitKilled id))
  | recordStopped (id grace) (mine : Mine sb c (.container id)) :
    Tears sb c (.crit (.recordStopped id grace))
  | removeContainer (id) (mine : Mine sb c (.container id)) :
    Tears sb c (.crit (.removeContainer id))
  | dropContainer (id) (mine : Mine sb c (.container id)) : Tears sb c (.crit (.dropContainer id))
  | removeIo (id) (mine : Mine sb c (.container id)) : Tears sb c (.sys (.removeIo id))
  | kill (pid sig) : Tears sb c (.sys (.kill pid sig))

/-- The stacks and results of a `remove_sandbox` call. -/
inductive RemovalTask (sb : SandboxId) (c : Cache) : List Frame → Option Result → Prop
  | stopping (a) (tears : ∀ f ∈ a, Tears sb c f) :
    RemovalTask sb c (a ++ [Frame.crit (.collectContainers sb), .ret .unit]) none
  | removing (a) (tears : ∀ f ∈ a, Tears sb c f) :
    RemovalTask sb c (a ++ [Frame.crit (.deleteSandbox sb), .ret .unit]) none
  | unlink : RemovalTask sb c [.file (.unlink (.sandbox sb)), .ret .unit] none
  | ret : RemovalTask sb c [.ret .unit] none
  | done (res) : RemovalTask sb c [] (some res)

/-- No container has come to the cache or changed its sandbox. -/
def NoNewContainer (c c' : Cache) : Prop :=
  ∀ (id : ContainerId) (r' : ContainerRecord), c'.containers[id]? = some r' →
    ∃ r, c.containers[id]? = some r ∧ r.sandbox = r'.sandbox

theorem Tears.mono {sb : SandboxId} {c c' : Cache} {f : Frame} (h : Tears sb c f)
    (hc : NoNewContainer c c') : Tears sb c' f := by
  cases h with
  | stopSandbox => exact .stopSandbox
  | write r strict mine => exact .write r strict (mine.mono hc)
  | rename p n r strict mine => exact .rename p n r strict (mine.mono hc)
  | unlink id mine => exact .unlink id (mine.mono hc)
  | stopContainer id grace mine => exact .stopContainer id grace (mine.mono hc)
  | waitGrace id pid mine => exact .waitGrace id pid (mine.mono hc)
  | waitKilled id mine => exact .waitKilled id (mine.mono hc)
  | recordStopped id grace mine => exact .recordStopped id grace (mine.mono hc)
  | removeContainer id mine => exact .removeContainer id (mine.mono hc)
  | dropContainer id mine => exact .dropContainer id (mine.mono hc)
  | removeIo id mine => exact .removeIo id (mine.mono hc)
  | kill pid sig => exact .kill pid sig

theorem RemovalTask.mono {sb : SandboxId} {c c' : Cache} {fs : List Frame} {res : Option Result}
    (h : RemovalTask sb c fs res) (hc : NoNewContainer c c') : RemovalTask sb c' fs res := by
  cases h with
  | stopping a tears => exact .stopping a fun f hf => (tears f hf).mono hc
  | removing a tears => exact .removing a fun f hf => (tears f hf).mono hc
  | unlink => exact .unlink
  | ret => exact .ret
  | done res => exact .done res

/-- A step that inserts no container. -/
theorem Change.noNewContainer {self : Nat} {o : Oracle} {f : Frame} {w w' : World} {d d' : Duty}
    (h : Change self o f w w' d d') (hf : ∀ r, f ≠ .crit (.insertContainer r)) :
    NoNewContainer w.cache w'.cache := by
  intro id r' hr'
  rcases h.container (Cache.get_container_eq_some hr') with ⟨r, hr, hsb⟩ | he
  · exact ⟨r, by simpa [Cache.get] using hr, hsb⟩
  · exact absurd he (hf r')

section Exec

variable {self n : Nat} {o : Oracle} {f : Frame} {w w' : World} {out : Out} {sb : SandboxId}

/-- **What the removal goes on with is its own.** -/
theorem Tears.exec (h : Tears sb w.cache f) (hk : w.cache.Keyed)
    (hex : exec self n o f w = some (w', out)) :
    (∃ fs, out = .next fs ∧ ∀ g ∈ fs, Tears sb w'.cache g) ∨ ∃ e, out = .halt (.error e) := by
  cases h with
  | stopSandbox =>
    obtain ⟨-, hex⟩ := exec_crit_eq_some.mp hex
    simp only [Crit.exec] at hex
    split at hex
    · obtain ⟨-, rfl⟩ := Prod.mk.inj hex
      exact Or.inl ⟨_, rfl, by simp⟩
    · rename_i r hr
      split at hex
      · obtain ⟨-, rfl⟩ := Prod.mk.inj hex
        exact Or.inl ⟨_, rfl, by simp⟩
      · obtain ⟨-, rfl⟩ := Prod.mk.inj hex
        refine Or.inl ⟨_, rfl, fun g hg => ?_⟩
        obtain rfl := List.mem_singleton.mp hg
        have hid : r.id = sb := hk.sandbox hr
        exact .write _ _ hid
  | write r strict mine =>
    have hcache : w'.cache = w.cache := by
      obtain ⟨hw, -⟩ := exec_file_eq_some.mp hex
      rw [← hw, (FileOp.exec_cache_procs o w _).1]
    obtain ⟨-, hout⟩ := exec_file_eq_some.mp hex
    rcases FileOp.exec_write_cases o w r strict with ⟨-, he⟩ | ⟨-, -, e, he⟩
    · refine Or.inl ⟨_, hout.symm.trans he, fun g hg => ?_⟩
      obtain rfl := List.mem_singleton.mp hg
      exact .rename _ _ r strict (hcache ▸ mine)
    · cases strict with
      | true => exact Or.inr ⟨_, hout.symm.trans he⟩
      | false => exact Or.inl ⟨_, hout.symm.trans he, by simp⟩
  | rename p m r strict mine =>
    obtain ⟨-, hout⟩ := exec_file_eq_some.mp hex
    rcases FileOp.exec_rename_cases o w p m r strict with ⟨-, he⟩ | ⟨-, -, e, he⟩
    · exact Or.inl ⟨_, hout.symm.trans he, by simp⟩
    · cases strict with
      | true => exact Or.inr ⟨_, hout.symm.trans he⟩
      | false => exact Or.inl ⟨_, hout.symm.trans he, by simp⟩
  | unlink id mine =>
    obtain ⟨-, hout⟩ := exec_file_eq_some.mp hex
    simp only [FileOp.exec] at hout
    split at hout <;> exact Or.inl ⟨_, hout.symm, by simp⟩
  | recordStopped id grace mine =>
    obtain ⟨-, hex⟩ := exec_crit_eq_some.mp hex
    simp only [Crit.exec] at hex
    split at hex
    · obtain ⟨-, rfl⟩ := Prod.mk.inj hex
      exact Or.inl ⟨_, rfl, by simp⟩
    · rename_i r hr
      split at hex
      · obtain ⟨rfl, rfl⟩ := Prod.mk.inj hex
        refine Or.inl ⟨_, rfl, fun g hg => ?_⟩
        obtain rfl := List.mem_singleton.mp hg
        have hid : r.id = id := hk.container hr
        have hobj : Mine sb w.cache (.container r.id) := hid.symm ▸ mine
        exact .write _ _ (hobj.setContainer (mine r hr))
      · obtain ⟨-, rfl⟩ := Prod.mk.inj hex
        exact Or.inl ⟨_, rfl, by simp⟩
  | dropContainer id mine =>
    obtain ⟨-, hex⟩ := exec_crit_eq_some.mp hex
    obtain ⟨rfl, rfl⟩ := Prod.mk.inj hex
    have hnone : Mine sb (w.cache.eraseContainer id) (.container id) := by
      intro r hr
      rw [containers_eraseContainer, if_pos rfl] at hr
      cases hr
    refine Or.inl ⟨_, rfl, fun g hg => ?_⟩
    simp only [List.mem_cons, List.not_mem_nil, or_false] at hg
    rcases hg with rfl | rfl
    · exact .removeIo id hnone
    · exact .unlink id hnone
  | stopContainer id grace mine | waitGrace id grace mine | waitKilled id mine
  | removeContainer id mine =>
    obtain ⟨-, hex⟩ := exec_crit_eq_some.mp hex
    simp only [Crit.exec] at hex
    repeat' split at hex
    all_goals
      obtain ⟨rfl, rfl⟩ := Prod.mk.inj hex
      refine Or.inl ⟨_, rfl, ?_⟩
      simp only [List.mem_cons, List.not_mem_nil, or_false, false_implies, implies_true,
        forall_eq_or_imp, forall_eq]
      first
        | exact ⟨.kill _ _, .waitGrace _ _ mine⟩
        | exact ⟨.kill _ _, .waitKilled _ mine⟩
        | exact ⟨.stopContainer _ _ mine, .dropContainer _ mine⟩
        | exact .recordStopped _ _ mine
        | exact .waitGrace _ _ mine
        | exact .waitKilled _ mine
        | exact .dropContainer _ mine
        | skip
  | removeIo id mine | kill pid sig =>
    obtain ⟨-, rfl⟩ := Prod.mk.inj (Option.some.inj hex)
    exact Or.inl ⟨_, rfl, by simp⟩

theorem mine_of_mem_containersOf {c : Cache} (hk : c.Keyed) {cid : ContainerId}
    (h : cid ∈ c.containersOf sb) : Mine sb c (.container cid) := by
  obtain ⟨⟨key, r⟩, hmem, rfl⟩ := List.mem_map.mp h
  obtain ⟨hmem, hsb⟩ := List.mem_filter.mp hmem
  have hget : c.containers[key]? = some r := Std.ExtTreeMap.mem_toList_iff_getElem?_eq_some.mp hmem
  intro r' hr'
  have hkey : r.id = key := hk.container hget
  rw [show (key, r).2.id = key from hkey, hget] at hr'
  rw [← Option.some.inj hr']
  exact of_decide_eq_true hsb

theorem tears_cascade {c : Cache} (hk : c.Keyed) :
    ∀ f ∈ cascade (c.containersOf sb), Tears sb c f := by
  intro f hf
  obtain ⟨cid, hcid, hf⟩ := List.mem_flatMap.mp hf
  have hmine := mine_of_mem_containersOf hk hcid
  simp only [List.mem_cons, List.not_mem_nil, or_false] at hf
  rcases hf with rfl | rfl
  · exact .stopContainer cid 0 hmine
  · exact .removeContainer cid hmine

/-- What a step of the removal with the frame `f` comes to: the stack and the result after it. -/
inductive RemovalStep (sb : SandboxId) (f : Frame) (w w' : World) :
    List Frame → Option Result → Prop
  | working (fs) (c : Crit) (mem : .crit c ∈ fs) : RemovalStep sb f w w' fs none
  | failed (e) : RemovalStep sb f w w' [] (some (.error e))
  | deleted (frame : f = .crit (.deleteSandbox sb))
    (cache : w'.cache = w.cache.eraseSandbox sb) (disk : w'.disk = w.disk)
    (counter : w'.counter = w.counter) :
    RemovalStep sb f w w' [.file (.unlink (.sandbox sb)), .ret .unit] none
  | absent (frame : f = .crit (.collectContainers sb) ∨ f = .crit (.deleteSandbox sb))
    (none : w.cache.get (.sandbox sb) = none) (same : w' = w) :
    RemovalStep sb f w w' [.ret .unit] .none
  | unlinked (frame : f = .file (.unlink (.sandbox sb))) :
    RemovalStep sb f w w' [.ret .unit] none
  | returned (frame : f = .ret .unit) : RemovalStep sb f w w' [] (some (.ok .unit))

/-- The steps before the listing or the deletion. -/
theorem RemovalTask.step_tears {t : Thread} {a k : List Frame} {c : Crit}
    (hres : t.result = none) (tears : ∀ g ∈ f :: a, Tears sb w.cache g) (hk : w.cache.Keyed)
    (hex : exec self n o f w = some (w', out)) (hc : NoNewContainer w.cache w'.cache)
    (hkeep : ∀ b, (∀ g ∈ b, Tears sb w'.cache g) →
      RemovalTask sb w'.cache (b ++ Frame.crit c :: k) none) :
    RemovalTask sb w'.cache (t.resume (a ++ Frame.crit c :: k) out).frames
        (t.resume (a ++ Frame.crit c :: k) out).result ∧
      RemovalStep sb f w w' (t.resume (a ++ Frame.crit c :: k) out).frames
        (t.resume (a ++ Frame.crit c :: k) out).result := by
  rcases (tears f List.mem_cons_self).exec hk hex with ⟨fs, rfl, hnew⟩ | ⟨e, rfl⟩
  · have hnext := hkeep (fs ++ a) (List.forall_mem_append.mpr
      ⟨hnew, fun g hg => (tears g (List.mem_cons_of_mem _ hg)).mono hc⟩)
    rw [List.append_assoc] at hnext
    simp only [Task.resume, hres]
    exact ⟨hnext, .working _ c (by simp)⟩
  · exact ⟨.done _, .failed e⟩

/-- **The steps of a removal.** -/
theorem RemovalTask.step {t : Thread} {k : List Frame}
    (h : RemovalTask sb w.cache t.frames t.result) (hf : t.frames = f :: k) (hk : w.cache.Keyed)
    (hex : exec self n o f w = some (w', out)) (hc : NoNewContainer w.cache w'.cache) :
    RemovalTask sb w'.cache (t.resume k out).frames (t.resume k out).result ∧
      RemovalStep sb f w w' (t.resume k out).frames (t.resume k out).result := by
  generalize hfs : t.frames = fs at h
  generalize hres : t.result = res at h
  rw [hf] at hfs
  cases h with
  | stopping a tears =>
    cases a with
    | nil =>
      obtain ⟨rfl, rfl⟩ := List.cons.inj hfs
      replace hex := (exec_crit_eq_some.mp hex).2
      simp only [Crit.exec] at hex
      split at hex <;> obtain ⟨rfl, rfl⟩ := Prod.mk.inj hex
      · rename_i hnone
        simp only [Task.resume, hres]
        exact ⟨.ret, .absent (Or.inl rfl) (by rw [Cache.get, hnone, Option.map_none]) rfl⟩
      · simp only [Task.resume, hres, List.append_assoc]
        exact ⟨.removing _ (tears_cascade hk), .working _ (.deleteSandbox sb) (by simp)⟩
    | cons g a =>
      obtain ⟨rfl, rfl⟩ := List.cons.inj hfs
      exact RemovalTask.step_tears hres tears hk hex hc .stopping
  | removing a tears =>
    cases a with
    | nil =>
      obtain ⟨rfl, rfl⟩ := List.cons.inj hfs
      replace hex := (exec_crit_eq_some.mp hex).2
      simp only [Crit.exec] at hex
      split at hex <;> obtain ⟨rfl, rfl⟩ := Prod.mk.inj hex
      · rename_i hnone
        simp only [Task.resume, hres]
        exact ⟨.ret, .absent (Or.inr rfl) (by rw [Cache.get, hnone, Option.map_none]) rfl⟩
      · simp only [Task.resume, hres]
        exact ⟨.unlink, .deleted rfl rfl rfl rfl⟩
    | cons g a =>
      obtain ⟨rfl, rfl⟩ := List.cons.inj hfs
      exact RemovalTask.step_tears hres tears hk hex hc .removing
  | unlink =>
    obtain ⟨rfl, rfl⟩ := List.cons.inj hfs
    obtain ⟨-, hout⟩ := exec_file_eq_some.mp hex
    simp only [FileOp.exec] at hout
    split at hout <;> subst hout <;> simp only [Task.resume, hres] <;>
      exact ⟨.ret, .unlinked rfl⟩
  | ret =>
    obtain ⟨rfl, rfl⟩ := List.cons.inj hfs
    obtain ⟨-, rfl⟩ := Prod.mk.inj (Option.some.inj hex)
    exact ⟨.done _, .returned rfl⟩
  | done => cases hfs

/-- The frame on top of a removal, and what is below it when the containers are gone. -/
inductive RemovalFrame (sb : SandboxId) (c : Cache) : Frame → List Frame → Prop
  | tears (g k) (h : Tears sb c g) : RemovalFrame sb c g k
  | collect : RemovalFrame sb c (.crit (.collectContainers sb)) [.ret .unit]
  | delete : RemovalFrame sb c (.crit (.deleteSandbox sb)) [.ret .unit]
  | unlink : RemovalFrame sb c (.file (.unlink (.sandbox sb))) [.ret .unit]
  | ret : RemovalFrame sb c (.ret .unit) []

theorem RemovalTask.head {c : Cache} {k : List Frame} {res : Option Result}
    (h : RemovalTask sb c (f :: k) res) : RemovalFrame sb c f k := by
  generalize hfs : f :: k = fs at h
  cases h with
  | stopping a tears =>
    cases a with
    | nil =>
      obtain ⟨rfl, rfl⟩ := List.cons.inj hfs
      exact .collect
    | cons g a =>
      obtain ⟨rfl, -⟩ := List.cons.inj hfs
      exact .tears f k (tears f List.mem_cons_self)
  | removing a tears =>
    cases a with
    | nil =>
      obtain ⟨rfl, rfl⟩ := List.cons.inj hfs
      exact .delete
    | cons g a =>
      obtain ⟨rfl, -⟩ := List.cons.inj hfs
      exact .tears f k (tears f List.mem_cons_self)
  | unlink =>
    obtain ⟨rfl, rfl⟩ := List.cons.inj hfs
    exact .unlink
  | ret =>
    obtain ⟨rfl, rfl⟩ := List.cons.inj hfs
    exact .ret
  | done => cases hfs

theorem RemovalFrame.not_insert {c : Cache} {k : List Frame} (h : RemovalFrame sb c f k)
    (r : ContainerRecord) : f ≠ .crit (.insertContainer r) := by
  rintro rfl
  cases h with
  | tears _ _ h => cases h

/-! ## Nothing of another sandbox -/

/-- Nothing of another sandbox is different in `w'`. -/
structure Others (sb : SandboxId) (w w' : World) : Prop where
  cache : ∀ ob, Foreign sb w.cache ob → w'.cache.get ob = w.cache.get ob
  files : ∀ ob, Foreign sb w.cache ob →
    w'.disk.read ob.subdir ob.file = w.disk.read ob.subdir ob.file
  io : ∀ id, Foreign sb w.cache (.container id) → w'.ioTable[id]? = w.ioTable[id]?
  rootFiles : w'.rootFiles = w.rootFiles

theorem exec_rootFiles (hex : exec self n o f w = some (w', out))
    (hf : ∀ id r info, f ≠ .sys (.prepare id r info)) : w'.rootFiles = w.rootFiles := by
  cases f with
  | crit c =>
    obtain ⟨-, hc⟩ := exec_crit_eq_some.mp hex
    have hroot : (c.exec self o w).1.rootFiles = w.rootFiles := by
      cases c <;> simp only [Crit.exec] <;> (repeat' split) <;> rfl
    simpa only [hc] using hroot
  | file g =>
    obtain ⟨rfl, -⟩ := exec_file_eq_some.mp hex
    rw [g.exec_eq o w]
  | sys s =>
    cases s with
    | prepare id r info => exact absurd rfl (hf id r info)
    | _ =>
      simp only [exec_sys, Sys.exec] at hex
      repeat' split at hex
      all_goals first
        | (obtain ⟨rfl, -⟩ := Prod.mk.inj (Option.some.inj hex)
           rfl)
        | cases hex
  | unlock | ret v | fail e =>
    obtain ⟨rfl, -⟩ := Prod.mk.inj (Option.some.inj hex)
    rfl

theorem Others.of_crit {c : Crit} (hex : exec self n o (.crit c) w = some (w', out))
    (hcache : ∀ ob, Foreign sb w.cache ob →
      (c.exec self o w).1.cache.get ob = w.cache.get ob) : Others sb w w' := by
  obtain ⟨-, hc⟩ := exec_crit_eq_some.mp hex
  have hdisk := exec_disk hex (by simp)
  constructor
  · simpa only [hc] using hcache
  · exact fun ob _ => by rw [hdisk]
  · intro id _
    rcases exec_io hex with hio | ⟨id', io, hf, -⟩ | ⟨id', hf, -⟩
    · rw [hio]
    · cases hf
    · cases hf
  · exact exec_rootFiles hex (by simp)

theorem Others.of_file {g : FileOp} (hex : exec self n o (.file g) w = some (w', out))
    (hdisk : ∀ ob, Foreign sb w.cache ob →
      w'.disk.read ob.subdir ob.file = w.disk.read ob.subdir ob.file) : Others sb w w' := by
  obtain ⟨hw, -⟩ := exec_file_eq_some.mp hex
  have heq := g.exec_eq o w
  rw [hw] at heq
  exact ⟨fun ob _ => by rw [heq], hdisk, fun id _ => by rw [heq], by rw [heq]⟩

/-- A temporary file is not the file of an object. -/
theorem read_put_tmpName (d : Disk) (sub : Subdir) (p m : Nat) (x : FileData) (ob : Obj) :
    (d.put sub (tmpName p m) x).read ob.subdir ob.file = d.read ob.subdir ob.file := by
  rw [Disk.read_put, if_neg]
  exact fun he => tmpName_ne_fileName p m ob.stem he.2.symm

/-- **The removal leaves the other sandboxes alone.** -/
theorem RemovalFrame.others {k : List Frame} (h : RemovalFrame sb w.cache f k)
    (hex : exec self n o f w = some (w', out)) : Others sb w w' := by
  have hsame : ∀ c : Crit, f = .crit c → (c.exec self o w).1.cache = w.cache → Others sb w w' := by
    rintro c rfl hc
    exact .of_crit hex fun ob _ => by rw [hc]
  have hunlink : ∀ ob', Mine sb w.cache ob' → f = .file (.unlink ob') → Others sb w w' := by
    rintro ob' mine rfl
    refine .of_file hex fun ob hob => ?_
    obtain ⟨hw, -⟩ := exec_file_eq_some.mp hex
    rw [← hw]
    simp only [FileOp.exec]
    split
    · rw [Disk.read_unlink, if_neg]
      exact fun he => mine.ne hob (Obj.eq_of_file he.1 he.2)
    · rfl
  cases h with
  | tears _ _ h =>
    cases h with
    | stopSandbox =>
      refine .of_crit hex fun ob hob => ?_
      simp only [Crit.exec]
      repeat' split
      · rfl
      · rfl
      · rw [Cache.get_setSandbox, if_neg]
        rintro rfl
        exact hob rfl
    | stopContainer | waitGrace | waitKilled | removeContainer =>
      refine hsame _ rfl ?_
      simp only [Crit.exec]
      repeat' split
      all_goals rfl
    | recordStopped id grace mine =>
      refine .of_crit hex fun ob hob => ?_
      simp only [Crit.exec]
      repeat' split
      all_goals first
        | rfl
        | rw [World.setContainer, Cache.get_setContainer, if_neg (mine.ne hob)]
    | dropContainer id mine =>
      refine .of_crit hex fun ob hob => ?_
      simp only [Crit.exec]
      rw [Cache.get_eraseContainer, if_neg (mine.ne hob)]
    | write r strict =>
      refine .of_file hex fun ob hob => ?_
      obtain ⟨hw, -⟩ := exec_file_eq_some.mp hex
      rcases FileOp.exec_write_cases o w r strict with ⟨hd, -⟩ | ⟨-, hd | hd, -⟩ <;>
        rw [← hw, hd]
      · rw [read_put_tmpName]
      · rw [read_put_tmpName]
    | rename p m r strict mine =>
      refine .of_file hex fun ob hob => ?_
      obtain ⟨hw, -⟩ := exec_file_eq_some.mp hex
      rcases FileOp.exec_rename_cases o w p m r strict with ⟨hd, -⟩ | ⟨-, hd, -⟩
      · rw [hw] at hd
        rw [Disk.read_rename hd, if_neg, if_neg]
        · exact fun he => tmpName_ne_fileName p m ob.stem he.2.symm
        · exact fun he => mine.ne hob (Obj.eq_of_file he.1 he.2)
      · rw [← hw, hd]
    | unlink id mine => exact hunlink _ mine rfl
    | removeIo id mine =>
      obtain ⟨rfl, -⟩ := Prod.mk.inj (Option.some.inj hex)
      refine ⟨fun _ _ => rfl, fun _ _ => rfl, fun id' hid => ?_, rfl⟩
      have hne : id ≠ id' := fun he => mine.ne hid (by rw [he])
      show (w.ioTable.erase id)[id']? = _
      rw [Std.ExtTreeMap.getElem?_erase, if_neg (by simpa using hne)]
    | kill =>
      obtain ⟨rfl, -⟩ := Prod.mk.inj (Option.some.inj hex)
      exact ⟨fun _ _ => rfl, fun _ _ => rfl, fun _ _ => rfl, rfl⟩
  | collect =>
    refine hsame _ rfl ?_
    simp only [Crit.exec]
    split <;> rfl
  | delete =>
    refine .of_crit hex fun ob hob => ?_
    simp only [Crit.exec]
    split
    · rfl
    · rw [Cache.get_eraseSandbox, if_neg]
      rintro rfl
      exact hob rfl
  | unlink => exact hunlink (.sandbox sb) rfl rfl
  | ret =>
    obtain ⟨rfl, -⟩ := Prod.mk.inj (Option.some.inj hex)
    exact ⟨fun _ _ => rfl, fun _ _ => rfl, fun _ _ => rfl, rfl⟩

end Exec

/-! ## Removals in a run -/

/-- The frame is one of the removal of the sandbox alone. -/
def Frame.removes (sb : SandboxId) : Frame → Bool
  | .crit (.collectContainers id) => id = sb
  | .crit (.deleteSandbox id) => id = sb
  | _ => false

theorem exec_removes {self n : Nat} {o : Oracle} {f : Frame} {w w' : World} {out : Out}
    {sb : SandboxId} (hex : exec self n o f w = some (w', out)) :
    ∀ g ∈ out.pushed, g.removes sb → f.removes sb := by
  rcases exec_pushes hex with h | h
  · simp [h]
  · generalize out.pushed = fs at h
    cases h with
    | collectContainers id ids =>
      exact forall_mem_collect (by simp [Frame.removes]) (by simp [Frame.removes])
        (by simp [Frame.removes])
    | _ => simp [Frame.removes]

/-- Every removal is at one of its stages, and has yet to remove every container of the sandbox
that is in the cache; no other task deletes the sandbox. -/
structure Removals (s : State) : Prop where
  tagged : ∀ t ∈ s.tasks, ∀ sb, t.frames.any (Frame.removes sb) →
    t.tag = .call (.removeSandbox sb)
  staged : ∀ t ∈ s.tasks, ∀ sb, t.tag = .call (.removeSandbox sb) →
    RemovalTask sb s.shared.cache t.frames t.result
  complete : ∀ t ∈ s.tasks, ∀ sb, t.tag = .call (.removeSandbox sb) →
    Removes s.shared.cache sb t.frames

theorem Removes.mono {c c' : Cache} {sb : SandboxId} {fs : List Frame} (h : Removes c sb fs)
    (hc : NoNewContainer c c') : Removes c' sb fs := by
  intro a b hab cid r' hr' hsb
  obtain ⟨r, hr, hsame⟩ := hc cid r' (by simpa [Cache.get] using hr')
  exact h a b hab cid r (Cache.get_container_eq_some hr) (hsame.trans hsb)

theorem removes_nil (c : Cache) (sb : SandboxId) : Removes c sb [] := by
  intro a b hab
  simp at hab

theorem RemovalTask.of_nil {c c' : Cache} {sb : SandboxId} {res : Option Result}
    (h : RemovalTask sb c [] res) : RemovalTask sb c' [] res := by
  generalize hfs : ([] : List Frame) = fs at h
  cases h with
  | stopping a | removing a => simp at hfs
  | unlink | ret => cases hfs
  | done res => exact .done res

section Steps

variable {s s' : State} {i j : Nat} {t u : Thread} {o : Oracle} {f : Frame} {k : List Frame}
  {out : Out} {ob : Obj} {sb : SandboxId}

/-- A reaper brings no container to the cache. -/
theorem Serial.reaper_noNew (h : Serial s) (hadv : Pool.Advance exec s i o s' t f k out)
    {id : ContainerId} {q : Nat} {b : Bool} (hb : ReaperTask id q b t.frames) :
    NoNewContainer s.shared.cache s'.shared.cache := by
  obtain ⟨d, hd⟩ := h.sound.duties t hadv.mem
  obtain ⟨d', -, hch⟩ := hd.step hadv.frames h.sound.keyed hadv.exec
  rw [hadv.frames] at hb
  refine hch.noNewContainer fun r hf => ?_
  rcases hb.frame with rfl | rfl | ⟨_, _, rfl⟩ | rfl | ⟨_, rfl⟩ <;> cases hf

/-- A step of a removal brings no container to the cache. -/
theorem Removals.noNew (h : Removals s) (hs : Sound s)
    (hadv : Pool.Advance exec s i o s' t f k out) (htag : t.tag = .call (.removeSandbox sb)) :
    NoNewContainer s.shared.cache s'.shared.cache := by
  obtain ⟨d, hd⟩ := hs.duties t hadv.mem
  obtain ⟨d', -, hch⟩ := hd.step hadv.frames hs.keyed hadv.exec
  have hst := h.staged t hadv.mem sb htag
  rw [hadv.frames] at hst
  exact hch.noNewContainer hst.head.not_insert

/-- The step of a removal. -/
theorem Removals.step_own (h : Removals s) (hs : Sound s)
    (hadv : Pool.Advance exec s i o s' t f k out) (htag : t.tag = .call (.removeSandbox sb)) :
    RemovalTask sb s'.shared.cache (t.resume k out).frames (t.resume k out).result ∧
      RemovalStep sb f s.shared s'.shared (t.resume k out).frames (t.resume k out).result :=
  (h.staged t hadv.mem sb htag).step hadv.frames hs.keyed hadv.exec (h.noNew hs hadv htag)

theorem Removals.advance (h : Removals s) (hser : Serial s)
    (hadv : Pool.Advance exec s i o s' t f k out) : Removals s' := by
  have hs := hser.sound
  -- the other removals that are at work
  have hother : ∀ (j : Nat) (u : Thread), j ≠ i → s.tasks[j]? = some u → ∀ sb,
      u.tag = .call (.removeSandbox sb) → u.frames = [] ∨
        NoNewContainer s.shared.cache s'.shared.cache := by
    intro j u hj hu sb htag
    by_cases hnil : u.frames = []
    · exact Or.inl hnil
    · obtain ⟨_, _, _, _, -, hb, -⟩ :=
        hser.reaper_of_busy hadv hj hu (by rw [htag]; rfl) hnil
      exact Or.inr (hser.reaper_noNew hadv hb)
  constructor
  case tagged =>
    intro u hu sb hany
    obtain ⟨g, hg, hrem⟩ := List.any_eq_true.mp hany
    rcases hadv.mem_cases hu with rfl | hu | hu
    · rw [Task.resume_tag]
      refine h.tagged t hadv.mem sb (List.any_eq_true.mpr ?_)
      rcases Task.mem_resume hg with hg | hg
      · exact ⟨f, by simp [hadv.frames], exec_removes hadv.exec g hg hrem⟩
      · exact ⟨g, by simp [hadv.frames, hg], hrem⟩
    · exact h.tagged u hu sb hany
    · obtain ⟨_, _, -, rfl⟩ := children_reaper hadv hu
      obtain rfl := List.mem_singleton.mp hg
      cases hrem
  case staged =>
    intro u hu sb htag
    obtain ⟨j, hu⟩ := List.getElem?_of_mem hu
    rcases hadv.cases hu with ⟨-, rfl⟩ | ⟨hj, hu⟩ | ⟨-, hu⟩
    · rw [Task.resume_tag] at htag
      exact (h.step_own hs hadv htag).1
    · have hold := h.staged u (List.mem_of_getElem? hu) sb htag
      rcases hother j u hj hu sb htag with hnil | hc
      · rw [hnil] at hold ⊢
        exact hold.of_nil
      · exact hold.mono hc
    · obtain ⟨_, _, -, rfl⟩ := children_reaper hadv hu
      cases htag
  case complete =>
    intro u hu sb htag
    obtain ⟨j, hu⟩ := List.getElem?_of_mem hu
    rcases hadv.cases hu with ⟨-, rfl⟩ | ⟨hj, hu⟩ | ⟨-, hu⟩
    · rw [Task.resume_tag] at htag
      obtain ⟨d, hd⟩ := hs.duties t hadv.mem
      obtain ⟨d', -, hch⟩ := hd.step hadv.frames hs.keyed hadv.exec
      have hst := hadv.frames ▸ h.staged t hadv.mem sb htag
      have hold := hadv.frames ▸ h.complete t hadv.mem sb htag
      exact hold.step hs.keyed hadv.exec hch fun r hf => absurd hf (hst.head.not_insert r)
    · have hold := h.complete u (List.mem_of_getElem? hu) sb htag
      rcases hother j u hj hu sb htag with hnil | hc
      · rw [hnil]
        exact removes_nil _ sb
      · exact hold.mono hc
    · obtain ⟨_, _, -, rfl⟩ := children_reaper hadv hu
      cases htag

end Steps

theorem Removals.step {s s' : State} {l : Label} (h : Removals s) (hser : Serial s)
    (hl : noRestart l) (hstep : step s l = some s') : Removals s' := by
  cases l with
  | invoke c =>
    obtain rfl := Option.some.inj hstep
    constructor
    · intro u hu sb hany
      rcases Pool.mem_tasks_start.mp hu with hu | rfl
      · exact h.tagged u hu sb hany
      · cases c <;> simp_all [Call.frames, Frame.removes]
    · intro u hu sb htag
      rcases Pool.mem_tasks_start.mp hu with hu | rfl
      · exact h.staged u hu sb htag
      · obtain rfl := Tag.call.inj htag
        exact .stopping [.crit (.stopSandbox sb)] (by simp [Tears.stopSandbox])
    · intro u hu sb htag
      rcases Pool.mem_tasks_start.mp hu with hu | rfl
      · exact h.complete u hu sb htag
      · obtain rfl := Tag.call.inj htag
        intro a b hab
        have hmem : .crit (.deleteSandbox sb) ∈ (Call.removeSandbox sb).frames := by
          rw [show (Call.removeSandbox sb).frames = _ from hab]
          simp
        simp [Call.frames] at hmem
  | step i o =>
    obtain ⟨t, f, k, out, hadv⟩ := Pool.advance_eq_some hstep
    exact h.advance hser hadv
  | exit q st =>
    obtain ⟨p, -, rfl⟩ := step_exit hstep
    exact { h with }
  | foreign pid =>
    obtain ⟨-, -, rfl⟩ := step_foreign hstep
    exact { h with }
  | restart rs => cases hl

theorem Removals.init (listener : Nat) (blake3 : String → String) :
    Removals (init listener blake3) := by
  constructor <;> simp [Fake.init]

end LightrCri.Fake

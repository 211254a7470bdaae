import LightrCri.Fake.Serial
import LightrCri.Fake.TmpFiles

/-!
# What the files and the io table are of

After serialized calls whose file operations succeed, every file but the temporary ones is named
after the record it holds, and is accounted for: its object is in the cache, or the call at work is
about to put it there or to unlink the file (`Filed`). Every entry of the io table is of a cached
container, or the call at work is about to take it out (`IoHeld`).
-/

namespace LightrCri.Fake

open Backend Foundations

/-! ## Objects that stay -/

section Change

variable {self : Nat} {o : Oracle} {f : Frame} {w w' : World} {d d' : Duty} {ob : Obj}

/-- An object leaves the cache only when it is dropped. -/
theorem Change.lost (h : Change self o f w w' d d') (hob : (w.cache.get ob).isSome)
    (hno : w'.cache.get ob = none) : f = .crit ob.dropped ∧ d' = .removes ob := by
  cases h with
  | quiet _ hc | write _ _ _ _ _ hc | abandon _ _ _ _ _ hc | rename _ _ _ _ _ _ hc
  | store _ _ _ _ _ hc | unlink _ _ hc | keep _ _ _ hc | release hc | issue _ _ hc =>
    rw [← hc, hno] at hob
    cases hob
  | update r _ _ hc | land r _ _ hc | insert r _ _ hc =>
    rw [hc, Cache.get_put] at hno
    split at hno
    · cases hno
    · rw [hno] at hob
      cases hob
  | drop ob' _ crit hc =>
    rw [hc, Cache.get_erase] at hno
    split at hno
    · rename_i heq
      subst heq
      exact ⟨crit, rfl⟩
    · rw [hno] at hob
      cases hob

/-- A call that is to write the file of a record had to before, or has just cached the record. -/
theorem Change.persists (h : Change self o f w w' d d') {r : DiskRecord}
    (hd : d' = .persists r false) :
    (d = .persists r false ∧ w'.cache = w.cache) ∨ w'.cache.get r.obj = some r := by
  subst hd
  generalize hd' : Duty.persists r false = d' at h
  cases h with
  | quiet _ hc | write _ _ _ _ _ hc => exact Or.inl ⟨rfl, hc⟩
  | update r' _ _ hc =>
    obtain ⟨rfl, -⟩ := Duty.persists.inj hd'
    exact Or.inr (by rw [hc, Cache.get_put, if_pos rfl])
  | abandon d => cases d with
    | persists r l => cases l <;> cases hd'
    | _ => cases hd'
  | rename _ _ _ _ l => cases l <;> cases hd'
  | land | store | unlink | keep | release | insert | drop | issue => cases hd'

end Change

theorem parent_of_not_minted {r : DiskRecord} (h : r.obj.minted = false) : r.parent = none := by
  cases r with
  | image r => rfl
  | _ => cases h

/-- A reaper leaves the objects of the cache in their sandboxes. -/
theorem ReaperStep.kept {id : ContainerId} {q : Nat} {w w' : World} {b b' : Bool}
    (h : ReaperStep id q w w' b b') (ob : Obj) :
    (w'.cache.get ob).map DiskRecord.parent = (w.cache.get ob).map DiskRecord.parent := by
  cases h with
  | quiet _ hc | wait _ _ _ _ hc => rw [hc]
  | reap r t code reason present _ hc =>
    rw [hc, Cache.get_setContainer]
    split
    · rename_i hob
      rw [hob, Cache.get_container_eq_some present]
      rfl
    · rfl

section Steps

variable {id : ContainerId} {s s' : State} {i j : Nat} {t u : Thread} {o : Oracle} {f : Frame}
  {k : List Frame} {out : Out} {d d' : Duty} {r : DiskRecord}

/-- While a call is at work, the other tasks that make steps are reapers. -/
theorem Serial.reaper_of_busy (h : Serial s) (hadv : Pool.Advance exec s i o s' t f k out)
    (hj : j ≠ i) (hu : s.tasks[j]? = some u) (hcall : u.tag.isCall) (hne : u.frames ≠ []) :
    ∃ id q b b', t.tag = .reaper id q ∧ ReaperTask id q b t.frames ∧
      ReaperStep id q s.shared s'.shared b b' := by
  cases htag : t.tag with
  | call c => exact absurd (h.frames_nil hadv (by rw [htag]; rfl) hj hu hcall) hne
  | reaper id q =>
    obtain ⟨b, hb⟩ := h.reapers t hadv.mem id q htag
    obtain ⟨b', -, hstep⟩ := hb.step hadv.frames hadv.exec
    exact ⟨id, q, b, b', rfl, hb, hstep⟩

/-! ## Files -/

/-- What a call is about to write to a file, late, replaces a cached record. -/
def Persisting (s : State) : Prop :=
  ∀ t ∈ s.tasks, ∀ r, Stack (.persists r false) t.frames → Replaces s.shared.cache r

/-- Only a call writes a file without the lock. -/
theorem Serial.call_of_persists (h : Serial s) (ht : t ∈ s.tasks)
    (hst : Stack (.persists r false) t.frames) : t.tag.isCall ∧ t.frames ≠ [] := by
  constructor
  · cases htag : t.tag with
    | call c => rfl
    | reaper id q =>
      obtain ⟨b, hb⟩ := h.reapers t ht id q htag
      have hd := hst.dutyOf_eq
      rcases hb.dutyOf with he | he | ⟨r', he⟩ <;> rw [he] at hd <;> cases hd
  · intro hnil
    rw [hnil] at hst
    cases hst

theorem Persisting.advance (hp : Persisting s) (h : Serial s)
    (hadv : Pool.Advance exec s i o s' t f k out) (hd : Stack d t.frames)
    (hd' : Stack d' (t.resume k out).frames) (hch : Change i o f s.shared s'.shared d d') :
    Persisting s' := by
  intro u hu r hst
  obtain ⟨j, hu⟩ := List.getElem?_of_mem hu
  rcases hadv.cases hu with ⟨rfl, rfl⟩ | ⟨hj, hu⟩ | ⟨-, hu⟩
  · rcases hch.persists (hd'.unique hst) with ⟨rfl, hc⟩ | hget
    · rw [hc]
      exact hp t hadv.mem r hd
    · exact ⟨r, hget, rfl⟩
  · obtain ⟨hcall, hne⟩ := h.call_of_persists (List.mem_of_getElem? hu) hst
    obtain ⟨_, _, _, _, -, -, hstep⟩ := h.reaper_of_busy hadv hj hu hcall hne
    obtain ⟨old, hold, hparent⟩ := hp u (List.mem_of_getElem? hu) r hst
    have hkept := hstep.kept r.obj
    rw [hold, Option.map_some, Option.map_eq_some_iff] at hkept
    obtain ⟨new, hnew, hsame⟩ := hkept
    exact ⟨new, hnew, hsame.trans hparent⟩
  · obtain ⟨_, _, -, rfl⟩ := children_reaper hadv hu
    cases hst

/-- What the file of the record is there for: its object is cached, in the same sandbox, or a task
is about to insert it or to unlink the file. -/
inductive Accounted (s : State) (r : DiskRecord) : Prop
  | cached (old) (get : s.shared.cache.get r.obj = some old) (parent : old.parent = r.parent)
  | issued (v : Thread) (x) (mem : v ∈ s.tasks) (stack : Stack (.issues x true) v.frames)
    (obj : x.obj = r.obj) (parent : x.parent = r.parent)
  | removed (v : Thread) (mem : v ∈ s.tasks) (stack : Stack (.removes r.obj) v.frames)

/-- Every file is a temporary one, or is named after the record it holds and accounted for. -/
def Filed (s : State) : Prop :=
  ∀ sub name x, s.shared.disk.read sub name = some x → (∃ p n, name = tmpName p n) ∨
    ∃ r, x = .whole r ∧ sub = r.obj.subdir ∧ name = r.obj.file ∧ Accounted s r

theorem Accounted.advance (h : Accounted s r) (hs : Sound s)
    (hadv : Pool.Advance exec s i o s' t f k out) (hd : Stack d t.frames)
    (hd' : Stack d' (t.resume k out).frames) (hch : Change i o f s.shared s'.shared d d')
    (hf : f ≠ .file (.unlink r.obj)) : Accounted s' r := by
  have hself : t.resume k out ∈ s'.tasks := List.mem_of_getElem? hadv.getElem?_self
  cases h with
  | cached old get parent =>
    cases hch with
    | quiet _ hc | write _ _ _ _ _ hc | abandon _ _ _ _ _ hc | rename _ _ _ _ _ _ hc
    | store _ _ _ _ _ hc | unlink _ _ hc | keep _ _ _ hc | release hc | issue _ _ hc =>
      exact .cached old (hc ▸ get) parent
    | update x _ present hc | land x _ present hc =>
      by_cases hx : r.obj = x.obj
      · obtain ⟨old', hold, hparent⟩ := present
        obtain rfl := Option.some.inj (get.symm.trans (hx ▸ hold))
        exact .cached x (by rw [hc, Cache.get_put, if_pos hx]) (hparent.symm.trans parent)
      · exact .cached old (by rw [hc, Cache.get_put, if_neg hx, get]) parent
    | insert x _ _ hc =>
      by_cases hx : r.obj = x.obj
      · refine .cached x (by rw [hc, Cache.get_put, if_pos hx]) ?_
        cases hm : x.obj.minted with
        | true =>
          have hnone := (hs.fresh i t x true hadv.task hd hm).1
          rw [← hx, get] at hnone
          cases hnone
        | false => rw [parent_of_not_minted hm, parent_of_not_minted (hx ▸ hm)]
      · exact .cached old (by rw [hc, Cache.get_put, if_neg hx, get]) parent
    | drop ob _ _ hc =>
      by_cases hob : r.obj = ob
      · subst hob
        exact .removed _ hself hd'
      · exact .cached old (by rw [hc, Cache.get_erase, if_neg hob, get]) parent
  | issued u x mem stack obj parent =>
    obtain ⟨j, hu⟩ := List.getElem?_of_mem mem
    by_cases hj : j = i
    · subst hj
      obtain rfl := Option.some.inj (hu.symm.trans hadv.task)
      obtain rfl := stack.unique hd
      cases hch with
      | quiet | write => exact .issued _ x hself hd' obj parent
      | insert _ _ _ hc => exact .cached x (by rw [hc, Cache.get_put, if_pos obj.symm]) parent
      | abandon _ _ kind => rcases kind with ⟨l, hk⟩ | hk <;> cases hk
    · exact .issued u x (List.mem_of_getElem? (hadv.getElem?_of_some hj hu)) stack obj parent
  | removed u mem stack =>
    obtain ⟨j, hu⟩ := List.getElem?_of_mem mem
    by_cases hj : j = i
    · subst hj
      obtain rfl := Option.some.inj (hu.symm.trans hadv.task)
      obtain rfl := stack.unique hd
      cases hch with
      | quiet | write => exact .removed _ hself hd'
      | unlink _ frame | keep _ frame => exact absurd frame hf
      | abandon _ _ kind => rcases kind with ⟨l, hk⟩ | hk <;> cases hk
    · exact .removed u (List.mem_of_getElem? (hadv.getElem?_of_some hj hu)) stack

/-- A record whose file has just been moved into place is accounted for. -/
theorem accounted_renamed {p n : Nat} {strict : Bool} (hp : Persisting s) (hs : Sound s)
    (hadv : Pool.Advance exec s i o s' t (.file (.rename p n r strict)) k (.next []))
    (hd : Stack d t.frames) : Accounted s' r := by
  have hcache : s'.shared.cache = s.shared.cache := by
    obtain ⟨hw, -⟩ := exec_file_eq_some.mp hadv.exec
    rw [← hw, (FileOp.exec_cache_procs o s.shared _).1]
  have hself : t.resume k (.next []) ∈ s'.tasks := List.mem_of_getElem? hadv.getElem?_self
  have hst := hd
  rw [hadv.frames] at hst
  cases hst with
  | plain _ hk => cases hk _ List.mem_cons_self
  | rename =>
    obtain ⟨old, hold, hparent⟩ := hp t hadv.mem r hd
    exact .cached old (hcache ▸ hold) hparent
  | landRename =>
    exact .cached r (hcache ▸ (hs.lands i t r hadv.task hd).2) rfl
  | issueRename _ _ _ k' hk => exact .issued _ r hself (.insert r k' hk) rfl rfl

theorem Filed.advance (h : Filed s) (ho : Owned s) (hp : Persisting s) (hs : Sound s)
    (hadv : Pool.Advance exec s i o s' t f k out) (hok : opsSucceed s (.step i o)) :
    Filed s' := by
  obtain ⟨d, hd⟩ := hs.duties t hadv.mem
  obtain ⟨d', hd', hch⟩ := hd.step hadv.frames hs.keyed hadv.exec
  intro sub name x hx
  by_cases htmp : ∃ p n, name = tmpName p n
  · exact Or.inl htmp
  · -- a file that was there before
    have hold : s.shared.disk.read sub name = some x →
        (∀ ob, f = .file (.unlink ob) → ¬(sub = ob.subdir ∧ name = ob.file)) →
        ∃ r, x = .whole r ∧ sub = r.obj.subdir ∧ name = r.obj.file ∧ Accounted s' r := by
      intro hread hf
      obtain ⟨r, hr, hsub, hname, hacc⟩ := (h sub name x hread).resolve_left htmp
      refine ⟨r, hr, hsub, hname, hacc.advance hs hadv hd hd' hch fun he => ?_⟩
      exact hf r.obj he ⟨hsub, hname⟩
    right
    cases exec_fileStep hadv hok with
    | same frame disk => exact hold (disk ▸ hx) fun ob hf => absurd hf (frame _)
    | write y strict frame disk =>
      rw [disk, Disk.read_put, if_neg fun hname => htmp ⟨_, _, hname.2⟩] at hx
      exact hold hx fun ob hf => by cases frame.symm.trans hf
    | rename p n y strict frame disk next =>
      subst frame next
      rw [Disk.read_rename disk] at hx
      split at hx
      · rename_i hsame
        rw [ho.read_rename hadv] at hx
        obtain rfl := Option.some.inj hx
        exact ⟨y, rfl, hsame.1, hsame.2, accounted_renamed hp hs hadv hd⟩
      · split at hx
        · cases hx
        · exact hold hx fun ob hf => by cases hf
    | unlink ob frame disk =>
      rw [disk, Disk.read_unlink] at hx
      split at hx
      · cases hx
      · rename_i hne
        refine hold hx fun ob' hf => ?_
        cases frame.symm.trans hf
        exact hne

/-! ## The io table -/

/-- The frame belongs to a start that has passed its check, up to the entry in the io table. -/
def Frame.feeds (id : ContainerId) : Frame → Bool
  | .crit (.fetchSandbox id' _) => id' = id
  | .crit (.startIntent id') => id' = id
  | .sys (.prepare id' _ _) => id' = id
  | .sys (.spawn id' _) => id' = id
  | .sys (.insertIo id' _) => id' = id
  | _ => false

theorem exec_feeds {self n : Nat} {w w' : World} (hex : exec self n o f w = some (w', out)) :
    ∀ g ∈ out.pushed, g.feeds id → f.feeds id ∨ (f = .crit (.startContainer id) ∧
      ∃ r, w.cache.containers[id]? = some r) := by
  rcases exec_pushes hex with h | h
  · simp [h]
  · generalize out.pushed = fs at h
    cases h with
    | collectContainers =>
      exact forall_mem_collect (by simp [Frame.feeds]) (by simp [Frame.feeds])
        (by simp [Frame.feeds])
    | startContainer id' r present created =>
      intro g hg hl
      obtain rfl := List.mem_singleton.mp hg
      obtain rfl : id' = id := by simpa [Frame.feeds] using hl
      exact Or.inr ⟨rfl, r, present⟩
    | _ => simp_all [Frame.feeds]

/-- Only two actions change the io table. -/
theorem exec_io {self n : Nat} {w w' : World} (hex : exec self n o f w = some (w', out)) :
    w'.ioTable = w.ioTable ∨
      (∃ id io, f = .sys (.insertIo id io) ∧ w'.ioTable = w.ioTable.insert id io) ∨
      ∃ id, f = .sys (.removeIo id) ∧ w'.ioTable = w.ioTable.erase id := by
  cases f with
  | crit c =>
    obtain ⟨-, hc⟩ := exec_crit_eq_some.mp hex
    have hio : (c.exec self o w).1.ioTable = w.ioTable := by
      cases c <;> simp only [Crit.exec] <;> (repeat' split) <;> rfl
    exact Or.inl (by simpa only [hc] using hio)
  | file g =>
    obtain ⟨rfl, -⟩ := exec_file_eq_some.mp hex
    exact Or.inl (by rw [g.exec_eq o w])
  | sys s =>
    cases s with
    | insertIo id io =>
      obtain ⟨rfl, -⟩ := Prod.mk.inj (Option.some.inj hex)
      exact Or.inr (Or.inl ⟨id, io, rfl, rfl⟩)
    | removeIo id =>
      obtain ⟨rfl, -⟩ := Prod.mk.inj (Option.some.inj hex)
      exact Or.inr (Or.inr ⟨id, rfl, rfl⟩)
    | _ =>
      simp only [exec_sys, Sys.exec] at hex
      repeat' split at hex
      all_goals first
        | (obtain ⟨rfl, -⟩ := Prod.mk.inj (Option.some.inj hex)
           exact Or.inl rfl)
        | cases hex
  | unlock | ret v | fail e =>
    obtain ⟨rfl, -⟩ := Prod.mk.inj (Option.some.inj hex)
    exact Or.inl rfl

/-- A task has dropped the container, and is about to take its entry out of the io table. -/
def Leaving (s : State) (id : ContainerId) : Prop :=
  ∃ t ∈ s.tasks, ∃ k, t.frames = .sys (.removeIo id) :: k ∧
    Stack (.removes (.container id)) t.frames

/-- Whose stdio the io table holds. -/
structure IoHeld (s : State) : Prop where
  /-- The container that is being started is in the cache. -/
  started : ∀ t ∈ s.tasks, ∀ id, t.frames.any (Frame.feeds id) →
    t.tag = .call (.startContainer id) ∧ (s.shared.cache.get (.container id)).isSome
  /-- An entry is of a cached container, or of one that has just been dropped. -/
  held : ∀ id, (s.shared.ioTable[id]?).isSome →
    (s.shared.cache.get (.container id)).isSome ∨ Leaving s id

/-- A start leaves its container in the cache. -/
theorem StartStep.isSome {w w' : World} {ph ph' : StartPhase} (h : StartStep id o f w w' ph ph')
    (hget : (w.cache.get (.container id)).isSome) : (w'.cache.get (.container id)).isSome := by
  cases h with
  | quiet _ hc | giveUp hc | spawn _ _ _ _ _ _ hc | lost _ _ _ hc => rwa [hc]
  | intent _ _ _ _ hc | spawnFailed _ _ _ _ _ hc | persistPid _ _ _ _ _ hc =>
    rw [hc, Cache.get_setContainer, if_pos rfl]
    rfl

theorem IoHeld.started_advance (h : IoHeld s) (hser : Serial s)
    (hadv : Pool.Advance exec s i o s' t f k out) {u : Thread} (hu : u ∈ s'.tasks)
    (hl : u.frames.any (Frame.feeds id)) :
    u.tag = .call (.startContainer id) ∧ (s'.shared.cache.get (.container id)).isSome := by
  obtain ⟨j, hu⟩ := List.getElem?_of_mem hu
  obtain ⟨g, hg, hgf⟩ := List.any_eq_true.mp hl
  rcases hadv.cases hu with ⟨-, rfl⟩ | ⟨hj, hu⟩ | ⟨-, hu⟩
  · have hbase : t.tag = .call (.startContainer id) ∧
        (s.shared.cache.get (.container id)).isSome := by
      have hold : ∀ g ∈ t.frames, g.feeds id → _ := fun g hg hgf =>
        h.started t hadv.mem id (List.any_eq_true.mpr ⟨g, hg, hgf⟩)
      rcases Task.mem_resume hg with hg | hg
      · rcases exec_feeds hadv.exec g hg hgf with hf | ⟨rfl, r, hr⟩
        · exact hold f (by simp [hadv.frames]) hf
        · refine ⟨?_, by rw [Cache.get_container_eq_some hr]; rfl⟩
          cases htag : t.tag with
          | call c =>
            have hmem : .crit (.startContainer id) ∈ t.frames := by simp [hadv.frames]
            have hst : t.tag = .call (.startContainer id) :=
              (hser.start_of_starts hadv.mem (by rw [htag]; rfl) hmem (by simp [Frame.starts])).1
            rwa [htag] at hst
          | reaper id' q =>
            obtain ⟨b, hb⟩ := hser.reapers t hadv.mem id' q htag
            rw [hadv.frames] at hb
            cases hb
      · exact hold g (by simp [hadv.frames, hg]) hgf
    rw [Task.resume_tag]
    obtain ⟨ph, hst⟩ := hser.starts t hadv.mem id hbase.1
    obtain ⟨ph', -, hstep⟩ := hst.step hadv.frames hadv.exec
    exact ⟨hbase.1, hstep.isSome hbase.2⟩
  · have hmem := List.mem_of_getElem? hu
    obtain ⟨htag, hget⟩ := h.started u hmem id hl
    have hne : u.frames ≠ [] := List.ne_nil_of_mem hg
    obtain ⟨_, _, _, _, -, -, hstep⟩ := hser.reaper_of_busy hadv hj hu (by rw [htag]; rfl) hne
    refine ⟨htag, ?_⟩
    rw [← Option.isSome_map (f := DiskRecord.parent), hstep.kept, Option.isSome_map]
    exact hget
  · obtain ⟨_, _, -, rfl⟩ := children_reaper hadv hu
    simp [Frame.feeds] at hl

theorem IoHeld.held_advance (h : IoHeld s) (hser : Serial s)
    (hadv : Pool.Advance exec s i o s' t f k out) (hio : (s'.shared.ioTable[id]?).isSome) :
    (s'.shared.cache.get (.container id)).isSome ∨ Leaving s' id := by
  obtain ⟨d, hd⟩ := hser.sound.duties t hadv.mem
  obtain ⟨d', hd', hch⟩ := hd.step hadv.frames hser.sound.keyed hadv.exec
  -- a container that leaves the cache is about to leave the table
  have hcached : (s.shared.cache.get (.container id)).isSome →
      (s'.shared.cache.get (.container id)).isSome ∨ Leaving s' id := by
    intro hget
    by_cases hlost : s'.shared.cache.get (.container id) = none
    · obtain ⟨rfl, rfl⟩ := hch.lost hget hlost
      obtain ⟨-, hex⟩ := exec_crit_eq_some.mp hadv.exec
      obtain ⟨-, rfl⟩ := Prod.mk.inj hex
      exact Or.inr ⟨_, List.mem_of_getElem? hadv.getElem?_self, _, rfl, hd'⟩
    · exact Or.inl (Option.isSome_iff_ne_none.mpr hlost)
  have hkept : f ≠ .sys (.removeIo id) → (s.shared.ioTable[id]?).isSome →
      (s'.shared.cache.get (.container id)).isSome ∨ Leaving s' id := by
    intro hf hold
    rcases h.held id hold with hget | ⟨u, hu, k', hframes, hst⟩
    · exact hcached hget
    · obtain ⟨j, hu⟩ := List.getElem?_of_mem hu
      have hj : j ≠ i := by
        rintro rfl
        obtain rfl := Option.some.inj (hu.symm.trans hadv.task)
        exact hf (List.cons.inj (hadv.frames.symm.trans hframes)).1
      exact Or.inr ⟨u, List.mem_of_getElem? (hadv.getElem?_of_some hj hu), k', hframes, hst⟩
  rcases exec_io hadv.exec with hsame | ⟨id', io, rfl, hins⟩ | ⟨id', rfl, her⟩
  · by_cases hf : f = .sys (.removeIo id)
    · subst hf
      obtain ⟨hw, -⟩ := Prod.mk.inj (Option.some.inj hadv.exec)
      rw [← hw] at hio
      simp at hio
    · exact hkept hf (hsame ▸ hio)
  · by_cases hid : id' = id
    · subst hid
      have hany : t.frames.any (Frame.feeds id') := by simp [hadv.frames, Frame.feeds]
      exact hcached (h.started t hadv.mem id' hany).2
    · refine hkept (by simp) ?_
      rwa [hins, Std.ExtTreeMap.getElem?_insert, if_neg (by simpa using hid)] at hio
  · by_cases hid : id' = id
    · subst hid
      simp [her] at hio
    · refine hkept (by simpa using hid) ?_
      rwa [her, Std.ExtTreeMap.getElem?_erase, if_neg (by simpa using hid)] at hio

end Steps

/-! ## Steps -/

theorem Persisting.step {s s' : State} {l : Label} (hp : Persisting s) (h : Serial s)
    (hl : noRestart l) (hstep : step s l = some s') : Persisting s' := by
  cases l with
  | invoke c =>
    obtain rfl := Option.some.inj hstep
    intro u hu r hst
    rcases Pool.mem_tasks_start.mp hu with hu | rfl
    · exact hp u hu r hst
    · have hnew : Stack .none c.frames := .plain _ fun f hf => (plain_callFrames c f hf).1
      cases hnew.unique hst
  | step i o =>
    obtain ⟨t, f, k, out, hadv⟩ := Pool.advance_eq_some hstep
    obtain ⟨d, hd⟩ := h.sound.duties t hadv.mem
    obtain ⟨d', hd', hch⟩ := hd.step hadv.frames h.sound.keyed hadv.exec
    exact hp.advance h hadv hd hd' hch
  | exit q st =>
    obtain ⟨p, -, rfl⟩ := step_exit hstep
    exact hp
  | foreign pid =>
    obtain ⟨-, -, rfl⟩ := step_foreign hstep
    exact hp
  | restart rs => cases hl

theorem Accounted.invoke {s : State} {r : DiskRecord} (h : Accounted s r) (c : Call) :
    Accounted (s.start (.call c) c.frames) r := by
  have hmem : ∀ t ∈ s.tasks, t ∈ (s.start (.call c) c.frames).tasks := fun t ht =>
    Pool.mem_tasks_start.mpr (Or.inl ht)
  cases h with
  | cached old get parent => exact .cached old get parent
  | issued v x mem stack obj parent => exact .issued v x (hmem v mem) stack obj parent
  | removed v mem stack => exact .removed v (hmem v mem) stack

theorem Accounted.of_procs {s : State} {r : DiskRecord} (h : Accounted s r) (procs : List Proc) :
    Accounted { s with shared := { s.shared with procs := procs } } r := by
  cases h with
  | cached old get parent => exact .cached old get parent
  | issued v x mem stack obj parent => exact .issued v x mem stack obj parent
  | removed v mem stack => exact .removed v mem stack

theorem Filed.step {s s' : State} {l : Label} (h : Filed s) (ho : Owned s) (hp : Persisting s)
    (hs : Sound s) (hl : noRestart l) (hok : opsSucceed s l) (hstep : step s l = some s') :
    Filed s' := by
  cases l with
  | invoke c =>
    obtain rfl := Option.some.inj hstep
    intro sub name x hx
    rcases h sub name x hx with htmp | ⟨r, hr, hsub, hname, hacc⟩
    · exact Or.inl htmp
    · exact Or.inr ⟨r, hr, hsub, hname, hacc.invoke c⟩
  | step i o =>
    obtain ⟨t, f, k, out, hadv⟩ := Pool.advance_eq_some hstep
    exact h.advance ho hp hs hadv hok
  | exit q st =>
    obtain ⟨p, -, rfl⟩ := step_exit hstep
    intro sub name x hx
    rcases h sub name x hx with htmp | ⟨r, hr, hsub, hname, hacc⟩
    · exact Or.inl htmp
    · exact Or.inr ⟨r, hr, hsub, hname, hacc.of_procs _⟩
  | foreign pid =>
    obtain ⟨-, -, rfl⟩ := step_foreign hstep
    intro sub name x hx
    rcases h sub name x hx with htmp | ⟨r, hr, hsub, hname, hacc⟩
    · exact Or.inl htmp
    · exact Or.inr ⟨r, hr, hsub, hname, hacc.of_procs _⟩
  | restart rs => cases hl

theorem IoHeld.step {s s' : State} {l : Label} (h : IoHeld s) (hser : Serial s)
    (hl : noRestart l) (hstep : step s l = some s') : IoHeld s' := by
  cases l with
  | invoke c =>
    obtain rfl := Option.some.inj hstep
    constructor
    · intro u hu id hfeeds
      rcases Pool.mem_tasks_start.mp hu with hu | rfl
      · exact h.started u hu id hfeeds
      · have hno : c.frames.any (Frame.feeds id) = false := by
          cases c <;> simp [Call.frames, Frame.feeds]
        rw [hno] at hfeeds
        cases hfeeds
    · intro id hio
      rcases h.held id hio with hget | ⟨u, hu, hleave⟩
      · exact Or.inl hget
      · exact Or.inr ⟨u, Pool.mem_tasks_start.mpr (Or.inl hu), hleave⟩
  | step i o =>
    obtain ⟨t, f, k, out, hadv⟩ := Pool.advance_eq_some hstep
    exact ⟨fun u hu id hfeeds => h.started_advance hser hadv hu hfeeds,
      fun id hio => h.held_advance hser hadv hio⟩
  | exit q st =>
    obtain ⟨p, -, rfl⟩ := step_exit hstep
    exact { h with }
  | foreign pid =>
    obtain ⟨-, -, rfl⟩ := step_foreign hstep
    exact { h with }
  | restart rs => cases hl

/-- What holds of the files and the io table after serialized calls whose file operations
succeed. -/
structure Kept (s : State) : Prop where
  serial : Serial s
  io : IoHeld s
  persisting : Persisting s
  /-- The files are as they should be, unless an operation is going to fail. -/
  files : ¬Contended s → Owned s ∧ Filed s

/-- **A serialized step keeps the files and the io table accounted for.** -/
theorem Kept.step {s s' : State} {l : Label} (h : Kept s) (hl : noRestart l)
    (hserial : serialized s l) (hok : opsSucceed s l) (hstep : step s l = some s') : Kept s' := by
  have hsound := h.serial.sound
  refine ⟨h.serial.step hl hserial hstep, h.io.step h.serial hl hstep,
    h.persisting.step h.serial hl hstep, fun hs' => ?_⟩
  obtain ⟨ho, hf⟩ := h.files fun hc => hs' (hc.step hl hok hstep)
  exact ⟨ho.step hsound hl hok hstep hs', hf.step ho h.persisting hsound hl hok hstep⟩

theorem Kept.init (listener : Nat) (blake3 : String → String) : Kept (init listener blake3) := by
  refine ⟨Serial.init listener blake3, ⟨by simp [Fake.init], fun id hio => ?_⟩,
    by simp [Fake.init, Persisting], fun _ => ⟨Owned.init listener blake3, fun sub name x hx => ?_⟩⟩
  · simp [Fake.init] at hio
  · simp [Fake.init] at hx

end LightrCri.Fake

import LightrCri.Fake.Serial
import LightrCri.Fake.Reopen
import Mathlib.Data.List.Chain

/-!
# What the files hold during a call

The invariant behind crash recovery. `remember` keeps, as a history variable that no step reads,
the record that each object had before the call, the step of a removal or the reaper at work. After
serialized calls whose file operations succeed the file of an object holds its cached record, unless
a task has yet to bring the two together, and then it holds the remembered record, or the intent of
a start (`Durable`).
-/

namespace LightrCri.Fake

open Backend Foundations

/-! ## Conditions -/

/-- A `remove_container` does not find, as it stops the container, a Running record without a
process. -/
def removesStopped (s : State) : Label → Bool
  | .step i _ =>
    match s.stack i with
    | .crit (.recordStopped id _) :: .crit (.dropContainer _) :: _ => !s.shared.isRunning id
    | _ => true
  | _ => true

/-! ## The remembered records -/

/-- The task is to land a record of the object. -/
def Duty.lands (ob : Obj) : Duty → Bool
  | .persists r true => r.obj = ob
  | _ => false

/-- A reaper has put the exit of the object, a container, into the cache, and has yet to rename
the file. -/
def landing (s : State) (ob : Obj) : Bool := s.tasks.any fun t => (dutyOf t.frames).lands ob

/-- The frame begins one of the steps of a cascading removal. -/
def Frame.begins : Frame → Bool
  | .crit (.stopSandbox _) => true
  | .crit (.stopContainer _ _) => true
  | .crit (.removeContainer _) => true
  | .crit (.deleteSandbox _) => true
  | _ => false

/-- A call begins, or a step of a cascading removal. -/
def begins (s : State) : Label → Bool
  | .invoke _ => true
  | .step i _ => (s.top i).any Frame.begins
  | _ => false

/-- A record, or none, for each object. -/
abbrev Marks := Obj → Option DiskRecord

/-- What a step remembers: the record that an object has when a call or a step of a removal begins,
when its reaper takes it up and when its reaper has written it. -/
def remember (h : Marks) (s : State) (l : Label) (s' : State) : Marks := fun ob =>
  if landing s' ob ≠ landing s ob ∨ begins s l ∧ landing s ob = false then
    s.shared.cache.get ob
  else h ob

theorem remember_of_begins {h : Marks} {s s' : State} {l : Label} {ob : Obj} (hb : begins s l)
    (hl : landing s ob = false) : remember h s l s' ob = s.shared.cache.get ob :=
  if_pos (Or.inr ⟨hb, hl⟩)

theorem remember_of_landing {h : Marks} {s s' : State} {l : Label} {ob : Obj}
    (hl : landing s' ob ≠ landing s ob) : remember h s l s' ob = s.shared.cache.get ob :=
  if_pos (Or.inl hl)

theorem remember_eq {h : Marks} {s s' : State} {l : Label} {ob : Obj}
    (hl : landing s' ob = landing s ob) (hb : begins s l → landing s ob) :
    remember h s l s' ob = h ob := by
  refine if_neg ?_
  rintro (hne | ⟨hb', hno⟩)
  · exact hne hl
  · rw [hb hb'] at hno
    cases hno

/-! ## Frames before a change -/

/-- The frame of a call, executed before the call has changed anything. -/
def Frame.pristine : Frame → Bool
  | .sys (.runSandbox _) => true
  | .sys (.pullImage _) => true
  | .sys (.newContainer _ _) => true
  | .sys (.prepare _ _ _) => true
  | .sys (.kill _ _) => true
  | .crit (.createContainer _ _) => true
  | .crit (.startContainer _) => true
  | .crit (.fetchSandbox _ _) => true
  | .crit (.startIntent _) => true
  | .crit (.waitGrace _ _) => true
  | .crit (.waitKilled _) => true
  | .crit (.recordStopped _ _) => true
  | .crit (.dropContainer _) => true
  | .crit (.findImage _) => true
  | .crit (.checkImageInUse _ _) => true
  | .crit (.dropImage _) => true
  | _ => false

/-- The frame is one of a stop. -/
def Frame.stops : Frame → Bool
  | .crit (.stopContainer _ _) => true
  | .crit (.waitGrace _ _) => true
  | .crit (.waitKilled _) => true
  | .crit (.recordStopped _ _) => true
  | _ => false

def Frame.isKill : Frame → Bool
  | .sys (.kill _ _) => true
  | _ => false

/-- `f` may be right above `g`: what is executed before a change is on top of its stack, but for
the waits after a signal and the removal after a stop. -/
def Above (f g : Frame) : Prop :=
  g.pristine → f.isKill ∨ f.stops ∧ ∃ id, g = .crit (.dropContainer id)

/-- The frame may change a record, in the cache or on disk. -/
def Frame.changes : Frame → Bool
  | .crit (.stopSandbox _) => true
  | .crit (.deleteSandbox _) => true
  | .crit (.startIntent _) => true
  | .crit (.spawnFailed _ _) => true
  | .crit (.persistPid _ _) => true
  | .crit (.recordStopped _ _) => true
  | .crit (.dropContainer _) => true
  | .crit (.dropImage _) => true
  | .crit (.reap _ _ _) => true
  | .sys (.runSandbox _) => true
  | .sys (.newContainer _ _) => true
  | .sys (.pullImage _) => true
  | _ => false

section Pushes

variable {self n : Nat} {o : Oracle} {f g : Frame} {w w' : World} {out : Out}

theorem exec_pristine (hex : exec self n o f w = some (w', out)) :
    ∀ g ∈ out.pushed, g.pristine → f.pristine ∨ f.begins := by
  rcases exec_pushes hex with h | h
  · simp [h]
  · generalize out.pushed = fs at h
    cases h with
    | collectContainers =>
      exact forall_mem_collect (by simp [Frame.pristine]) (by simp [Frame.pristine])
        (by simp [Frame.pristine])
    | _ => simp [Frame.pristine, Frame.begins]

/-- A step of a plain frame that changes no record leaves nothing to be written. -/
theorem exec_plain (hex : exec self n o f w = some (w', out)) (hf : f.plain)
    (hch : f.changes = false) : ∀ g ∈ out.pushed, g.plain := by
  rcases exec_pushes hex with h | h
  · simp [h]
  · generalize out.pushed = fs at h
    cases h with
    | collectContainers =>
      exact forall_mem_collect (by simp [Frame.plain]) (by simp [Frame.plain])
        (by simp [Frame.plain])
    | _ => simp_all [Frame.plain, Frame.changes]

/-- The last frame that a frame of a stop pushes is one itself, unless the stop records the
exit. -/
theorem exec_stops (hex : exec self n o f w = some (w', out)) (hf : f.stops) :
    (∀ g ∈ out.pushed.getLast?, g.stops) ∨
      ∃ id grace, f = .crit (.recordStopped id grace) ∧ w.isRunning id := by
  rcases exec_pushes hex with h | h
  · simp [h]
  · generalize out.pushed = fs at h
    cases h with
    | recordStopped id grace r exited running => exact Or.inr ⟨id, grace, rfl, running⟩
    | _ => simp_all [Frame.stops]

theorem isChain_of_not_pristine {fs : List Frame} (h : ∀ g ∈ fs, g.pristine = false) :
    fs.IsChain Above := by
  induction fs with
  | nil => exact .nil
  | cons f fs ih =>
    refine List.isChain_cons.mpr ⟨fun g hg hp => ?_, ih fun g hg => h g (List.mem_cons_of_mem _ hg)⟩
    rw [h g (List.mem_cons_of_mem _ (List.mem_of_mem_head? hg))] at hp
    cases hp

theorem exec_chain (hex : exec self n o f w = some (w', out)) : out.pushed.IsChain Above := by
  rcases exec_pushes hex with h | h
  · rw [h]
    exact .nil
  · generalize out.pushed = fs at h
    cases h with
    | collectContainers =>
      exact isChain_of_not_pristine (forall_mem_collect (by simp [Frame.pristine])
        (by simp [Frame.pristine]) (by simp [Frame.pristine]))
    | _ => simp [Above, Frame.pristine, Frame.isKill, Frame.stops]

theorem Frame.not_begins_of_pristine (h : f.pristine) : f.begins = false := by
  cases f with
  | crit c => cases c <;> first | rfl | cases h
  | _ => rfl

theorem Frame.changes_cases (h : f.changes) : f.begins ∨ f.pristine ∨
    (∃ id e, f = .crit (.spawnFailed id e)) ∨ (∃ id pid, f = .crit (.persistPid id pid)) ∨
      ∃ id t st, f = .crit (.reap id t st) := by
  cases f with
  | crit c => cases c <;> simp_all [Frame.changes, Frame.begins, Frame.pristine]
  | sys s => cases s <;> simp_all [Frame.changes, Frame.begins, Frame.pristine]
  | _ => cases h

end Pushes

/-! ## The invariant -/

/-- The object whose file and cached record the duty is about. -/
def Duty.obj : Duty → Option Obj
  | .persists r _ => some r.obj
  | .removes ob => some ob
  | .issues r _ => some r.obj
  | _ => Option.none

theorem Duty.obj_of_lands {d : Duty} {ob : Obj} (h : d.lands ob) : d.obj = some ob := by
  cases d with
  | persists r l =>
    cases l with
    | false => cases h
    | true => exact congrArg some (of_decide_eq_true h)
  | _ => cases h

/-- The task is a start of the container `ob`, whose file holds the start intent. -/
def Intended (s : State) (t : Thread) (ob : Obj) : Prop :=
  ∃ id r, t.tag = .call (.startContainer id) ∧ ob = .container id ∧
    s.shared.disk.load ob = some (.container r) ∧ r.state = .running ∧ r.pid = 0

/-- What the file and the cached record of an object are while the task has a duty about it. -/
inductive Owed (h : Marks) (s : State) (t : Thread) (ob : Obj) : Duty → Prop
  | persists (r l) (cached : s.shared.cache.get ob = some r)
    (before : s.shared.disk.load ob = h ob ∨ l = false ∧ Intended s t ob) :
    Owed h s t ob (.persists r l)
  | removes (gone : s.shared.cache.get ob = none) (before : s.shared.disk.load ob = h ob) :
    Owed h s t ob (.removes ob)
  | issues (r) (same : s.shared.disk.load ob = s.shared.cache.get ob)
    (before : s.shared.disk.load ob = h ob) : Owed h s t ob (.issues r false)
  | stored (r) (stored : s.shared.disk.load ob = some r) : Owed h s t ob (.issues r true)

/-- What holds of a state after serialized calls whose file operations succeed, with the records
`h` remembered. -/
structure Durable (h : Marks) (s : State) : Prop where
  serial : Serial s
  tidy : Tidy s.shared.disk
  named : ∀ ob, (s.shared.cache.get ob).isSome → ob.stem ≠ ""
  issuing : ∀ t ∈ s.tasks, ∀ r b, Stack (.issues r b) t.frames → r.obj.stem ≠ ""
  /-- At most one task has a duty about an object. -/
  unique : ∀ (i j : Nat) (t u : Thread) (d e : Duty) (ob : Obj), s.tasks[i]? = some t →
    s.tasks[j]? = some u → Stack d t.frames → Stack e u.frames → d.obj = some ob →
    e.obj = some ob → i = j
  chained : ∀ t ∈ s.tasks, t.tag.isCall → t.frames.IsChain Above
  /-- A call that has not changed anything finds the remembered records. -/
  untouched : ∀ t ∈ s.tasks, t.tag.isCall → ∀ g ∈ t.frames.head?, g.pristine →
    ∀ ob, landing s ob = false → s.shared.cache.get ob = h ob
  settled : ∀ ob, (∀ t ∈ s.tasks, ∀ d, Stack d t.frames → d.obj ≠ some ob) →
    s.shared.disk.load ob = s.shared.cache.get ob
  owed : ∀ t ∈ s.tasks, ∀ d ob, Stack d t.frames → d.obj = some ob → Owed h s t ob d

/-! ## Changes -/

section Change

variable {self : Nat} {o : Oracle} {f : Frame} {w w' : World} {d d' : Duty} {ob : Obj}

/-- A step changes only what its task has a duty about, before or after it. -/
theorem Change.elsewhere (h : Change self o f w w' d d') (hd : d.obj ≠ some ob)
    (hd' : d'.obj ≠ some ob) :
    w'.cache.get ob = w.cache.get ob ∧ w'.disk.load ob = w.disk.load ob := by
  cases h with
  | quiet _ hc hdisk | release hc hdisk | keep _ _ _ hc hdisk | issue _ _ hc hdisk =>
    exact ⟨by rw [hc], by rw [hdisk]⟩
  | write _ _ _ _ _ hc hdisk => exact ⟨by rw [hc], by rw [hdisk, Disk.load_put_tmpName]⟩
  | abandon _ _ _ _ _ hc hdisk =>
    refine ⟨by rw [hc], ?_⟩
    rcases hdisk with hdisk | ⟨sub, p, n, x, hdisk⟩
    · rw [hdisk]
    · rw [hdisk, Disk.load_put_tmpName]
  | rename p n r strict l _ hc hdisk | store p n r strict _ hc hdisk =>
    have hne : ob ≠ r.obj := fun he => hd (congrArg some he.symm)
    obtain ⟨x, hx, -⟩ := Disk.rename_eq_some.mp hdisk
    exact ⟨by rw [hc], by rw [Disk.load_rename hx hdisk, if_neg hne]⟩
  | unlink ob' _ hc hdisk =>
    have hne : ob ≠ ob' := fun he => hd (congrArg some he.symm)
    exact ⟨by rw [hc], by rw [hdisk, Disk.load_unlink, if_neg hne]⟩
  | update r _ _ hc hdisk | land r _ _ hc hdisk =>
    have hne : ob ≠ r.obj := fun he => hd' (congrArg some he.symm)
    exact ⟨by rw [hc, Cache.get_put, if_neg hne], by rw [hdisk]⟩
  | insert r _ _ hc hdisk =>
    have hne : ob ≠ r.obj := fun he => hd (congrArg some he.symm)
    exact ⟨by rw [hc, Cache.get_put, if_neg hne], by rw [hdisk]⟩
  | drop ob' _ _ hc hdisk =>
    have hne : ob ≠ ob' := fun he => hd' (congrArg some he.symm)
    exact ⟨by rw [hc, Cache.get_erase, if_neg hne], by rw [hdisk]⟩

/-- A step that begins and ends without a duty leaves the cache alone. -/
theorem Change.cache_of_none (h : Change self o f w w' d d') (hd : d = .none) (hd' : d' = .none) :
    w'.cache = w.cache := by
  cases h with
  | quiet _ hc | write _ _ _ _ _ hc | abandon _ _ _ _ _ hc => exact hc
  | update | land | drop | issue => cases hd'
  | _ => cases hd

/-- What a step does that takes up a duty: the record is put into the cache, or dropped from it,
or the object is new; the files are as they were. -/
theorem Change.takes (h : Change self o f w w' d d') (hd : d = .none) (hne : d' ≠ .none) :
    w'.disk = w.disk ∧
      ((∃ r l, d' = .persists r l ∧ w.lock = none ∧ Replaces w.cache r ∧
          w'.cache = w.cache.put r) ∨
        (∃ ob, d' = .removes ob ∧ w.lock = none ∧ w'.cache = w.cache.erase ob) ∨
        ∃ r, d' = .issues r false ∧ NewObj w w' r ∧ w'.cache = w.cache) := by
  cases h with
  | update r free present cache disk | land r free present cache disk =>
    exact ⟨disk, Or.inl ⟨r, _, rfl, free, present, cache⟩⟩
  | drop ob free _ cache disk => exact ⟨disk, Or.inr (Or.inl ⟨ob, rfl, free, cache⟩)⟩
  | issue r new cache disk => exact ⟨disk, Or.inr (Or.inr ⟨r, rfl, new, cache⟩)⟩
  | quiet | write => exact absurd hd hne
  | abandon _ _ kind => rcases kind with ⟨l, rfl⟩ | rfl <;> cases hd
  | _ => cases hd

/-- A duty about another object is taken up by a task that had none. -/
theorem Change.new_duty (h : Change self o f w w' d d') (hob : d'.obj = some ob)
    (hne : d.obj ≠ some ob) : d = .none ∧ d' ≠ .none := by
  cases h with
  | quiet | write => exact absurd hob hne
  | abandon _ _ kind => rcases kind with ⟨l, rfl⟩ | rfl <;> [cases l; skip] <;> cases hob
  | rename _ _ _ _ l => cases l <;> cases hob
  | store => exact absurd hob hne
  | update | land | drop | issue => exact ⟨rfl, by simp⟩
  | unlink | keep | release | insert => cases hob

end Change

/-! ## Landing -/

section Steps

variable {h : Marks} {s s' : State} {i : Nat} {t : Thread} {o : Oracle} {f : Frame}
  {k : List Frame} {out : Out} {d d' : Duty} {ob : Obj}

theorem landing_eq_true (hs : Sound s) : landing s ob ↔
    ∃ t ∈ s.tasks, ∃ r, Stack (.persists r true) t.frames ∧ r.obj = ob := by
  unfold landing
  rw [List.any_eq_true]
  refine exists_congr fun t => and_congr_right fun ht => ?_
  obtain ⟨d, hd⟩ := hs.duties t ht
  rw [hd.dutyOf_eq]
  constructor
  · intro hl
    cases d with
    | persists r l =>
      cases l with
      | false => cases hl
      | true => exact ⟨r, hd, of_decide_eq_true hl⟩
    | _ => cases hl
  · rintro ⟨r, hst, hr⟩
    rw [hd.unique hst]
    exact decide_eq_true hr

/-- What is landing after a step: what its task lands, and what the others did. -/
theorem landing_advance (hadv : Pool.Advance exec s i o s' t f k out) (hd : Stack d t.frames)
    (hd' : Stack d' (t.resume k out).frames) (hlands : d.lands ob = d'.lands ob) :
    landing s' ob = landing s ob := by
  have hchild : ∀ u ∈ out.children, (dutyOf u.frames).lands ob = false := by
    intro u hu
    obtain ⟨id, q, -, rfl⟩ := children_reaper hadv hu
    rfl
  have hi := hadv.lt_length
  have hnone : out.children.any (fun u => (dutyOf u.frames).lands ob) = false :=
    List.any_eq_false.mpr fun u hu => by simp [hchild u hu]
  unfold landing
  rw [hadv.tasks, List.any_append, hnone, Bool.or_false]
  rw [← Bool.coe_iff_coe, List.any_eq_true, List.any_eq_true]
  constructor
  · rintro ⟨u, hu, hl⟩
    rcases List.mem_or_eq_of_mem_set hu with hu | rfl
    · exact ⟨u, hu, hl⟩
    · rw [hd'.dutyOf_eq, ← hlands, ← hd.dutyOf_eq] at hl
      exact ⟨t, hadv.mem, hl⟩
  · rintro ⟨u, hu, hl⟩
    obtain ⟨j, hj⟩ := List.getElem?_of_mem hu
    by_cases hji : j = i
    · subst hji
      obtain rfl := Option.some.inj (hj.symm.trans hadv.task)
      rw [hd.dutyOf_eq, hlands, ← hd'.dutyOf_eq] at hl
      exact ⟨_, List.mem_set hi _, hl⟩
    · refine ⟨u, List.mem_of_getElem? (i := j) ?_, hl⟩
      rw [List.getElem?_set_ne (Ne.symm hji), hj]

theorem begins_step (hadv : Pool.Advance exec s i o s' t f k out) :
    begins s (.step i o) = f.begins := by
  simp [begins, hadv.top_eq]

theorem dutyOf_begins (hf : f.begins) : dutyOf (f :: k) = .none := by
  cases f with
  | crit c => cases c <;> first | rfl | cases hf
  | _ => cases hf

theorem dutyOf_pristine (hf : f.pristine) : dutyOf (f :: k) = .none := by
  cases f with
  | crit c => cases c <;> first | rfl | cases hf
  | sys s => cases s <;> first | rfl | cases hf
  | _ => cases hf

/-- The lock is free when a step of a removal begins. -/
theorem free_of_begins (hadv : Pool.Advance exec s i o s' t f k out) (hf : f.begins) :
    s.shared.lock = none := by
  cases f with
  | crit c => exact (exec_crit_eq_some.mp hadv.exec).1
  | _ => cases hf

/-- A task takes up a duty in a step that may change a record. -/
theorem changes_of_duty (hadv : Pool.Advance exec s i o s' t f k out) (hd : Stack .none t.frames)
    (hd' : Stack d' (t.resume k out).frames) (hne : d' ≠ .none) : f.changes := by
  rw [hadv.frames] at hd
  cases hd with
  | plain _ hk =>
    by_contra hch
    refine hne (hd'.unique (.of_pushed ?_ fun g hg => hk g (List.mem_cons_of_mem _ hg)))
    exact exec_plain hadv.exec (hk f List.mem_cons_self) (Bool.eq_false_iff.mpr hch)

/-- A reaper takes up a duty only to land the exit of its container. -/
theorem ReaperTask.takes {id : ContainerId} {q : Nat} {b : Bool} (hr : ReaperTask id q b t.frames)
    (hadv : Pool.Advance exec s i o s' t f k out) (hkey : s.shared.cache.Keyed)
    (hd : Stack .none t.frames) (hd' : Stack d' (t.resume k out).frames) (hne : d' ≠ .none) :
    d'.obj = some (.container id) ∧
      ∃ r, s.shared.cache.containers[id]? = some r ∧ r.state = .running := by
  have hch := changes_of_duty hadv hd hd' hne
  rw [hadv.frames] at hr hd
  rcases exec_pushes hadv.exec with hp | hp
  · cases hd with
    | plain _ hk =>
      exact absurd (hd'.unique (.of_pushed (by simp [hp])
        fun g hg => hk g (List.mem_cons_of_mem _ hg))) hne
  · rcases hr.frame with rfl | rfl | ⟨t', st, rfl⟩ | rfl | ⟨g, rfl⟩
    · cases hch
    · cases hch
    · generalize hfs : out.pushed = fs at hp
      cases hp with
      | reap _ _ _ r code reason present running =>
        have hframes : (t.resume k out).frames =
            [.file (.write (.container (r.toExited t' code reason)) false), .unlock] ++ k := by
          rcases Task.frames_resume t k out with he | he
          · rw [he, hfs]
          · rw [he] at hd'
            exact absurd (hd'.unique (.plain [] (by simp))) hne
        have hduty : d' = .persists (.container (r.toExited t' code reason)) true := by
          rw [hframes] at hd'
          exact hd'.dutyOf_eq.symm
        refine ⟨?_, r, present, running⟩
        rw [hduty, Duty.obj, DiskRecord.obj_container]
        have hid : r.id = id := hkey.container present
        exact congrArg (fun x => some (Obj.container x)) hid
    · cases hch
    · cases hch

/-- A reaper has a duty about a container only, and holds the lock meanwhile. -/
theorem Durable.reaper_duty (H : Durable h s) {j : Nat} {u : Thread} (hu : s.tasks[j]? = some u)
    (hcall : u.tag.isCall = false) {e : Duty} (he : Stack e u.frames) (hob : e.obj = some ob) :
    s.shared.lock = some j ∧ e.lands ob ∧ ∃ r : ContainerRecord, ob = .container r.id ∧
      s.shared.cache.get ob = some (.container r) := by
  cases htag : u.tag with
  | call c =>
    rw [htag] at hcall
    cases hcall
  | reaper id q =>
    obtain ⟨b, hb⟩ := H.serial.reapers u (List.mem_of_getElem? hu) id q htag
    have hduty : ∃ r, e = .persists (.container r) true := by
      have heq := he.dutyOf_eq
      generalize u.frames = fs at hb heq
      subst heq
      cases hb with
      | wait | removeIo | reap | done | unlock => cases hob
      | write r | rename p n r => exact ⟨r, rfl⟩
    obtain ⟨r, rfl⟩ := hduty
    obtain ⟨hlock, hget⟩ := H.serial.sound.lands j u _ hu he
    obtain rfl := Option.some.inj hob
    exact ⟨hlock, decide_eq_true rfl, r, rfl, hget⟩

/-- **A task takes up a duty about an object that no other has a duty about.** -/
theorem Durable.alone (H : Durable h s) (hadv : Pool.Advance exec s i o s' t f k out)
    (hd : Stack .none t.frames) (hd' : Stack d' (t.resume k out).frames)
    (hch : Change i o f s.shared s'.shared .none d') (hob : d'.obj = some ob) {j : Nat}
    {u : Thread} {e : Duty} (hj : j ≠ i) (hu : s.tasks[j]? = some u) (he : Stack e u.frames) :
    e.obj ≠ some ob := by
  intro heob
  have hne : d' ≠ .none := by
    rintro rfl
    cases hob
  cases hut : u.tag.isCall with
  | false =>
    obtain ⟨hlock, -, r, hobr, hget⟩ := H.reaper_duty hu hut he heob
    rcases (hch.takes rfl hne).2 with ⟨r', l, -, hfree, -⟩ | ⟨ob', -, hfree, -⟩ | ⟨r', rfl, new, -⟩
    · rw [hfree] at hlock
      cases hlock
    · rw [hfree] at hlock
      cases hlock
    · -- the object is new, and that of the reaper is in the cache
      obtain rfl := Option.some.inj hob
      have hm : r'.obj.minted := by rw [hobr]; rfl
      refine new.not_minted hm (H.serial.sound.cached _ hm ?_)
      rw [hget]
      rfl
  | true =>
    cases htt : t.tag with
    | call c =>
      rw [H.serial.frames_nil hadv (by rw [htt]; rfl) hj hu hut] at he
      rw [he.unique (.plain [] (by simp))] at heob
      cases heob
    | reaper id q =>
      obtain ⟨b, hb⟩ := H.serial.reapers t hadv.mem id q htt
      obtain ⟨hobj, r, hr, hrun⟩ := hb.takes hadv H.serial.sound.keyed hd hd' hne
      obtain rfl := Option.some.inj (hobj.symm.trans hob)
      have hmem := List.mem_of_getElem? hu
      have hget := Cache.get_container_eq_some hr
      cases H.owed u hmem e _ he heob with
      | persists r' l cached =>
        obtain rfl := Option.some.inj (hget.symm.trans cached)
        have hid : r.id = id := H.serial.sound.keyed.container hr
        have hany : u.frames.any (Frame.writesRunning id) := by
          generalize u.frames = fs at he
          cases he <;> simp [Frame.writesRunning, hid, hrun]
        exact (H.serial.window u hmem hut id (H.serial.running u hmem hut id hany)).2 t hadv.mem q
          htt
      | removes gone =>
        rw [hget] at gone
        cases gone
      | issues r' | stored r' =>
        have hm : r'.obj = .container id := Option.some.inj heob
        have hnone := (H.serial.sound.fresh j u r' _ hu he (by rw [hm]; rfl)).1
        rw [hm, hget] at hnone
        cases hnone

/-- A task that has taken up a duty about the object is the only one with such a duty. -/
theorem Durable.only (H : Durable h s) (hadv : Pool.Advance exec s i o s' t f k out)
    (hd : Stack d t.frames) (hd' : Stack d' (t.resume k out).frames)
    (hch : Change i o f s.shared s'.shared d d') (hob : d'.obj = some ob) {j : Nat} {u : Thread}
    {e : Duty} (hj : j ≠ i) (hu : s.tasks[j]? = some u) (he : Stack e u.frames) :
    e.obj ≠ some ob := by
  by_cases hold : d.obj = some ob
  · exact fun heob => hj (H.unique j i u t e d ob hu hadv.task he hd heob hold)
  · obtain ⟨rfl, -⟩ := hch.new_duty hob hold
    exact H.alone hadv hd hd' hch hob hj hu he

theorem Durable.unique_advance (H : Durable h s) (hadv : Pool.Advance exec s i o s' t f k out)
    (hd : Stack d t.frames) (hd' : Stack d' (t.resume k out).frames)
    (hch : Change i o f s.shared s'.shared d d') :
    ∀ (j m : Nat) (u v : Thread) (e e' : Duty) (ob : Obj), s'.tasks[j]? = some u →
      s'.tasks[m]? = some v → Stack e u.frames → Stack e' v.frames → e.obj = some ob →
      e'.obj = some ob → j = m := by
  have hchild : ∀ (u : Thread) (e : Duty) (ob : Obj), u ∈ out.children → Stack e u.frames →
      e.obj ≠ some ob := by
    intro u e ob hu he
    obtain ⟨id, q, -, rfl⟩ := children_reaper hadv hu
    rw [he.unique (.plain _ (by simp [Frame.plain]))]
    rintro ⟨⟩
  intro j m u v e e' ob hu hv he he' hob hob'
  rcases hadv.cases hu with ⟨rfl, rfl⟩ | ⟨hj, hu⟩ | ⟨-, hu⟩
  · rcases hadv.cases hv with ⟨rfl, -⟩ | ⟨hm, hv⟩ | ⟨-, hv⟩
    · rfl
    · exact absurd hob' (H.only hadv hd hd' hch (hd'.unique he ▸ hob) hm hv he')
    · exact absurd hob' (hchild v e' ob hv he')
  · rcases hadv.cases hv with ⟨rfl, rfl⟩ | ⟨hm, hv⟩ | ⟨-, hv⟩
    · exact absurd hob (H.only hadv hd hd' hch (hd'.unique he' ▸ hob') hj hu he)
    · exact H.unique j m u v e e' ob hu hv he he' hob hob'
    · exact absurd hob' (hchild v e' ob hv he')
  · exact absurd hob (hchild u e ob hu he)

/-- The effects on the files succeed. -/
structure Succeeds (s : State) (o : Oracle) (f : Frame) : Prop where
  fault : ∀ g, f = .file g → o.fault = none
  temp : ∀ p n r strict, f = .file (.rename p n r strict) →
    s.shared.disk.read r.obj.subdir (tmpName p n) = some (.whole r)

theorem Succeeds.not_lost (hok : Succeeds s o f) : ¬Lost o f s.shared := by
  rintro (⟨hf, g, rfl⟩ | ⟨p, n, r, strict, rfl, hread⟩)
  · rw [hok.fault g rfl] at hf
    cases hf
  · rw [hok.temp p n r strict rfl] at hread
    cases hread

theorem Durable.tidy_advance (H : Durable h s) (hadv : Pool.Advance exec s i o s' t f k out)
    (hd : Stack d t.frames) (hch : Change i o f s.shared s'.shared d d')
    (hok : Succeeds s o f) : Tidy s'.shared.disk := by
  have htidy := H.tidy
  cases hch with
  | quiet _ _ hdisk | update _ _ _ _ hdisk | land _ _ _ _ hdisk | release _ hdisk
  | insert _ _ _ _ hdisk | drop _ _ _ _ hdisk | issue _ _ _ hdisk | keep _ _ _ _ hdisk =>
    rw [hdisk]
    exact htidy
  | write _ sub p n x _ hdisk =>
    rw [hdisk]
    exact htidy.put_tmpName sub p n x
  | abandon _ _ _ _ hlost => exact absurd hlost hok.not_lost
  | rename p n r strict l hf _ hdisk =>
    have hstem : r.obj.stem ≠ "" := by
      refine H.named r.obj ?_
      cases H.owed t hadv.mem _ _ hd rfl with
      | persists _ _ cached =>
        rw [cached]
        rfl
    exact htidy.rename hstem (hok.temp p n r strict hf) hdisk
  | store p n r strict hf _ hdisk =>
    exact htidy.rename (H.issuing t hadv.mem r false hd) (hok.temp p n r strict hf) hdisk
  | unlink ob _ _ hdisk =>
    rw [hdisk]
    exact htidy.unlink _ _

theorem NewObj.stem_ne {w w' : World} {r : DiskRecord} (h : NewObj w w' r) : r.obj.stem ≠ "" := by
  cases r with
  | sandbox r | container r =>
    obtain ⟨-, n, hid⟩ := h
    show r.id.val ≠ ""
    rw [hid]
    exact newId_ne_empty _ _ _
  | image r =>
    obtain ⟨-, ref, rfl⟩ := h
    intro he
    have := congrArg String.toList he
    simp [Obj.stem, imageRecord, String.toList_append] at this

theorem Durable.chained_advance (H : Durable h s) (hadv : Pool.Advance exec s i o s' t f k out)
    (hstop : removesStopped s (.step i o)) (hcall : t.tag.isCall) :
    (t.resume k out).frames.IsChain Above := by
  have hchain := H.chained t hadv.mem hcall
  rw [hadv.frames] at hchain
  rcases Task.frames_resume t k out with he | he
  · rw [he]
    refine List.isChain_append.mpr ⟨exec_chain hadv.exec, hchain.tail, fun x hx y hy hp => ?_⟩
    rcases hchain.rel_head? hy hp with hkill | ⟨hstops, id, rfl⟩
    · -- a signal pushes nothing
      rcases exec_pushes hadv.exec with hnil | hpush
      · rw [hnil] at hx
        cases hx
      · generalize out.pushed = fs at hpush
        cases hpush <;> cases hkill
    · rcases exec_stops hadv.exec hstops with hlast | ⟨id', grace, rfl, hrun⟩
      · exact Or.inr ⟨hlast x hx, id, rfl⟩
      · obtain ⟨k', rfl⟩ : ∃ k', k = .crit (.dropContainer id) :: k' := by
          cases k with
          | nil => cases hy
          | cons g k' => exact ⟨k', by rw [Option.some.inj hy]⟩
        simp [removesStopped, hadv.stack_eq, hrun] at hstop
  · rw [he]
    exact .nil

theorem Durable.settled_advance (H : Durable h s) (hadv : Pool.Advance exec s i o s' t f k out)
    (hd : Stack d t.frames) (hd' : Stack d' (t.resume k out).frames)
    (hch : Change i o f s.shared s'.shared d d') (hok : Succeeds s o f)
    (hfree : ∀ u ∈ s'.tasks, ∀ e, Stack e u.frames → e.obj ≠ some ob) :
    s'.shared.disk.load ob = s'.shared.cache.get ob := by
  have hd'ob : d'.obj ≠ some ob := hfree _ (List.mem_of_getElem? hadv.getElem?_self) d' hd'
  by_cases hdob : d.obj = some ob
  · -- the duty is done
    have howed := H.owed t hadv.mem d ob hd hdob
    cases hch with
    | quiet | write => exact absurd hdob hd'ob
    | abandon _ _ _ _ hlost => exact absurd hlost hok.not_lost
    | rename p n r strict l hf hc hdisk =>
      obtain rfl := Option.some.inj hdob
      rw [Disk.load_rename (hok.temp p n r strict hf) hdisk, if_pos rfl, hc]
      cases howed with
      | persists _ _ cached => exact cached.symm
    | store => exact absurd hdob hd'ob
    | unlink ob' _ hc hdisk =>
      obtain rfl := Option.some.inj hdob
      rw [hdisk, Disk.load_unlink, if_pos rfl, hc]
      cases howed with
      | removes gone => exact gone.symm
    | keep ob' hf why =>
      rw [hok.fault _ hf] at why
      cases why
    | insert r _ _ hc hdisk =>
      obtain rfl := Option.some.inj hdob
      rw [hdisk, hc, Cache.get_put, if_pos rfl]
      cases howed with
      | stored _ stored => exact stored
    | update | land | release | drop | issue => cases hdob
  · obtain ⟨hc, hdisk⟩ := hch.elsewhere hdob hd'ob
    rw [hc, hdisk]
    refine H.settled ob fun u hu e he => ?_
    obtain ⟨j, hj⟩ := List.getElem?_of_mem hu
    by_cases hji : j = i
    · subst hji
      obtain rfl := Option.some.inj (hj.symm.trans hadv.task)
      rw [he.unique hd]
      exact hdob
    · exact hfree u (List.mem_of_getElem? (hadv.getElem?_of_some hji hj)) e he

/-- Before a task takes up a duty about an object, no task has one. -/
theorem Durable.settled_of_new (H : Durable h s) (hadv : Pool.Advance exec s i o s' t f k out)
    (hd : Stack .none t.frames) (hd' : Stack d' (t.resume k out).frames)
    (hch : Change i o f s.shared s'.shared .none d') (hob : d'.obj = some ob) :
    s.shared.disk.load ob = s.shared.cache.get ob ∧ landing s ob = false := by
  have hnone : ∀ u ∈ s.tasks, ∀ e, Stack e u.frames → e.obj ≠ some ob := by
    intro u hu e he
    obtain ⟨j, hj⟩ := List.getElem?_of_mem hu
    by_cases hji : j = i
    · subst hji
      obtain rfl := Option.some.inj (hj.symm.trans hadv.task)
      rw [he.unique hd]
      rintro ⟨⟩
    · exact H.alone hadv hd hd' hch hob hji hj he
  refine ⟨H.settled ob hnone, ?_⟩
  rw [← Bool.not_eq_true, landing_eq_true H.serial.sound]
  rintro ⟨u, hu, r, hst, hr⟩
  exact hnone u hu _ hst (congrArg some hr)

/-- What a start writes after its intent replaces the intent. -/
theorem Durable.intended (H : Durable h s) (ht : t ∈ s.tasks) (hcall : t.tag.isCall)
    {id : ContainerId} (hf : t.frames = f :: k) (hpend : f.pending id)
    (hsame : s.shared.disk.load (.container id) = s.shared.cache.get (.container id))
    (hsome : (s.shared.cache.get (.container id)).isSome) : Intended s t (.container id) := by
  have hmem : f ∈ t.frames := by simp [hf]
  obtain ⟨htag, ph, hst⟩ := H.serial.start_of_starts ht hcall hmem
    (Frame.starts_of_launches (Frame.launches_of_pending hpend))
  have hlaunching : Launching id t.frames := by
    rw [hf] at hst ⊢
    generalize t.result = res at hst
    cases hst <;> first
      | (simp [Launching, Frame.pending, Frame.isIntent]; done)
      | cases hpend
  cases hr : s.shared.cache.containers[id]? with
  | none =>
    rw [Cache.get, hr] at hsome
    cases hsome
  | some r =>
    obtain ⟨hrun, hpid⟩ := H.serial.launching t ht hcall id hlaunching r hr
    exact ⟨id, r, htag, rfl, hsame.trans (Cache.get_container_eq_some hr), hrun, hpid⟩

/-- A call lands nothing: only a reaper keeps the lock. -/
theorem Durable.call_not_lands (H : Durable h s) (hadv : Pool.Advance exec s i o s' t f k out)
    (hcall : t.tag.isCall) (hd : Stack .none t.frames) (hd' : Stack d' (t.resume k out).frames) :
    d'.lands ob = false := by
  by_contra hl
  obtain ⟨r, rfl⟩ : ∃ r, d' = .persists r true := by
    cases d' with
    | persists r l =>
      cases l with
      | false => cases hl rfl
      | true => exact ⟨r, rfl⟩
    | _ => cases hl rfl
  have hunlock : .unlock ∈ (t.resume k out).frames := by
    generalize (t.resume k out).frames = fs at hd'
    cases hd' <;> simp
  rw [hadv.frames] at hd
  cases hd with
  | plain _ hk =>
    rcases Task.mem_resume hunlock with hp | hmem
    · rcases exec_pushes hadv.exec with hnil | hpush
      · rw [hnil] at hp
        cases hp
      · generalize out.pushed = fs at hp hpush
        cases hpush with
        | collectContainers id ids =>
          have hno : ∀ g ∈ cascade ids ++ [Frame.crit (.deleteSandbox id)], g ≠ .unlock :=
            forall_mem_collect (by simp) (by simp) (by simp)
          exact hno _ hp rfl
        | reap id t' st r =>
          have hstarts : (Frame.crit (.reap id t' st)).starts id := by simp [Frame.starts]
          obtain ⟨-, ph, hst⟩ :=
            H.serial.start_of_starts hadv.mem hcall (by simp [hadv.frames]) hstarts
          rw [hadv.frames] at hst
          generalize t.result = res at hst
          cases hst
        | _ => simp at hp
    · have := hk _ (List.mem_cons_of_mem _ hmem)
      cases this

/-- After its intent, a start takes up a duty only to write its record again. -/
theorem pending_duty {id : ContainerId} (hadv : Pool.Advance exec s i o s' t f k out)
    (hkey : s.shared.cache.Keyed) (hd : Stack .none t.frames)
    (hd' : Stack d' (t.resume k out).frames) (hne : d' ≠ .none) (hf : f.pending id) :
    (∃ r, d' = .persists r false) ∧ d'.obj = some (.container id) := by
  have hch := changes_of_duty hadv hd hd' hne
  rw [hadv.frames] at hd
  cases hd with
  | plain _ hk =>
    have hk' : ∀ g ∈ k, g.plain := fun g hg => hk g (List.mem_cons_of_mem _ hg)
    have hwrite : ∀ (r : ContainerRecord) strict, r.id = id →
        out.pushed = [.file (.write (.container r) strict)] →
          (∃ r, d' = .persists r false) ∧ d'.obj = some (.container id) := by
      intro r strict hid hp
      have hduty : d' = .persists (.container r) false := by
        rcases Task.frames_resume t k out with he | he
        · rw [he, hp] at hd'
          exact hd'.dutyOf_eq.symm.trans (writeDuty_of_plain hk')
        · rw [he] at hd'
          exact absurd (hd'.unique (.plain [] (by simp))) hne
      rw [hduty]
      exact ⟨⟨_, rfl⟩, congrArg (fun x => some (Obj.container x)) hid⟩
    rcases exec_pushes hadv.exec with hp | hp
    · exact absurd (hd'.unique (.of_pushed (by simp [hp]) hk')) hne
    · generalize hfs : out.pushed = fs at hp
      cases hp with
      | spawnFailed id' e old r present same =>
        obtain rfl : id' = id := of_decide_eq_true hf
        exact hwrite r false (same.trans (hkey.container present)) hfs
      | persistPid id' pid r present =>
        obtain rfl : id' = id := of_decide_eq_true hf
        have hid : r.id = id' := hkey.container present
        exact hwrite (r.withPid pid) true hid hfs
      | _ => first | cases hf | cases hch

/-- When a task takes up a duty, the record on disk is the one remembered, or the intent of a
start. -/
theorem Durable.before (H : Durable h s) (hadv : Pool.Advance exec s i o s' t f k out)
    (hd : Stack .none t.frames) (hd' : Stack d' (t.resume k out).frames)
    (hch : Change i o f s.shared s'.shared .none d') (hob : d'.obj = some ob) :
    s.shared.disk.load ob = remember h s (.step i o) s' ob ∨
      (∃ r, d' = .persists r false) ∧ Intended s t ob := by
  have hne : d' ≠ .none := by
    rintro rfl
    cases hob
  obtain ⟨hsame, hland⟩ := H.settled_of_new hadv hd hd' hch hob
  cases hcall : t.tag.isCall with
  | false =>
    -- a reaper remembers what it replaces
    left
    cases htag : t.tag with
    | call c =>
      rw [htag] at hcall
      cases hcall
    | reaper id q =>
      obtain ⟨b, hb⟩ := H.serial.reapers t hadv.mem id q htag
      obtain ⟨b', hb', -⟩ := hb.step hadv.frames hadv.exec
      have hlands : d'.lands ob := by
        have heq := hd'.dutyOf_eq
        rcases hb'.dutyOf with hn | hn | ⟨r, hn⟩ <;> rw [hn] at heq <;> subst heq
        · cases hob
        · cases hob
        · exact decide_eq_true (Option.some.inj hob)
      have hland' : landing s' ob := by
        refine List.any_eq_true.mpr ⟨_, List.mem_of_getElem? hadv.getElem?_self, ?_⟩
        rw [hd'.dutyOf_eq]
        exact hlands
      rw [hsame, remember_of_landing (by rw [hland, hland']; simp)]
  | true =>
    have hland' : landing s' ob = landing s ob :=
      landing_advance hadv hd hd' (H.call_not_lands hadv hcall hd hd').symm
    have hpending : ∀ id, f.pending id → (∃ r, d' = .persists r false) ∧ Intended s t ob := by
      intro id hf
      obtain ⟨⟨r, rfl⟩, hobj⟩ := pending_duty hadv H.serial.sound.keyed hd hd' hne hf
      obtain rfl := Option.some.inj (hobj.symm.trans hob)
      refine ⟨⟨r, rfl⟩, H.intended hadv.mem hcall hadv.frames hf hsame ?_⟩
      rcases (hch.takes rfl hne).2 with ⟨r', l, hr, -, hrep, -⟩ | ⟨_, hr, -⟩ | ⟨_, hr, -⟩
      · obtain ⟨rfl, -⟩ := Duty.persists.inj hr
        rw [← Option.some.inj hobj]
        exact hrep.isSome
      · cases hr
      · cases hr
    rcases Frame.changes_cases (changes_of_duty hadv hd hd' hne) with
      hf | hf | hf | hf | ⟨id, t', st, rfl⟩
    · left
      rw [hsame, remember_of_begins ((begins_step hadv).trans hf) hland]
    · left
      have hhead : f ∈ t.frames.head? := by simp [hadv.frames]
      rw [hsame, H.untouched t hadv.mem hcall f hhead hf ob hland, remember_eq hland']
      rw [begins_step hadv, Frame.not_begins_of_pristine hf]
      simp
    · obtain ⟨id, e, rfl⟩ := hf
      exact Or.inr (hpending id (by simp [Frame.pending]))
    · obtain ⟨id, pid, rfl⟩ := hf
      exact Or.inr (hpending id (by simp [Frame.pending]))
    · exfalso
      have hstarts : (Frame.crit (.reap id t' st)).starts id := by simp [Frame.starts]
      obtain ⟨-, ph, hst⟩ :=
        H.serial.start_of_starts hadv.mem hcall (by simp [hadv.frames]) hstarts
      rw [hadv.frames] at hst
      generalize t.result = res at hst
      cases hst

theorem Intended.mono {t' : Thread} (hi : Intended s t ob) (htag : t'.tag = t.tag)
    (hload : s'.shared.disk.load ob = s.shared.disk.load ob) : Intended s' t' ob := by
  obtain ⟨id, r, ht, hob, hr, hrun, hpid⟩ := hi
  exact ⟨id, r, htag.trans ht, hob, hload.trans hr, hrun, hpid⟩

/-- The duty stands when neither the object nor what is remembered of it has changed. -/
theorem Owed.mono {h' : Marks} {t' : Thread} (ho : Owed h s t ob d) (htag : t'.tag = t.tag)
    (hc : s'.shared.cache.get ob = s.shared.cache.get ob)
    (hload : s'.shared.disk.load ob = s.shared.disk.load ob) (hmark : h' ob = h ob) :
    Owed h' s' t' ob d := by
  cases ho with
  | persists r l cached before =>
    refine .persists r l (hc.trans cached) (before.imp (fun hb => ?_) fun ⟨hl, hi⟩ => ?_)
    · rw [hload, hb, hmark]
    · exact ⟨hl, hi.mono htag hload⟩
  | removes gone before => exact .removes (hc.trans gone) (by rw [hload, before, hmark])
  | issues r same before => exact .issues r (by rw [hload, hc, same]) (by rw [hload, before, hmark])
  | stored r stored => exact .stored r (hload.trans stored)

theorem Durable.owed_own (H : Durable h s) (hadv : Pool.Advance exec s i o s' t f k out)
    (hd : Stack d t.frames) (hd' : Stack d' (t.resume k out).frames)
    (hch : Change i o f s.shared s'.shared d d') (hok : Succeeds s o f)
    (hob : d'.obj = some ob) :
    Owed (remember h s (.step i o) s') s' (t.resume k out) ob d' := by
  by_cases hdob : d.obj = some ob
  · -- the task had the duty before
    have howed := H.owed t hadv.mem d ob hd hdob
    have hmark : d'.lands ob = d.lands ob → remember h s (.step i o) s' ob = h ob := by
      intro hlands
      refine remember_eq (landing_advance hadv hd hd' hlands.symm) fun hb => ?_
      rw [begins_step hadv] at hb
      rw [hadv.frames] at hd
      rw [← hd.dutyOf_eq, dutyOf_begins hb] at hdob
      cases hdob
    have htag := Task.resume_tag t k out
    cases hch with
    | quiet _ hc hdisk => exact howed.mono htag (by rw [hc]) (by rw [hdisk]) (hmark rfl)
    | write _ sub p n x hc hdisk =>
      exact howed.mono htag (by rw [hc]) (by rw [hdisk, Disk.load_put_tmpName]) (hmark rfl)
    | abandon _ _ _ _ hlost => exact absurd hlost hok.not_lost
    | rename _ _ _ _ l => cases l <;> cases hob
    | store p n r strict hf hc hdisk =>
      obtain rfl := Option.some.inj hob
      refine .stored r ?_
      rw [Disk.load_rename (hok.temp p n r strict hf) hdisk, if_pos rfl]
      rfl
    | unlink | keep | release | insert => cases hob
    | update | land | drop | issue => cases hdob
  · obtain ⟨rfl, hne⟩ := hch.new_duty hob hdob
    have hbefore := H.before hadv hd hd' hch hob
    obtain ⟨hsame, -⟩ := H.settled_of_new hadv hd hd' hch hob
    obtain ⟨hdisk, htakes⟩ := hch.takes rfl hne
    have hload : s'.shared.disk.load ob = s.shared.disk.load ob := by rw [hdisk]
    have hbefore' : (¬∃ r, d' = .persists r false) →
        s'.shared.disk.load ob = remember h s (.step i o) s' ob := fun hno =>
      hload.trans (hbefore.resolve_right fun hr => hno hr.1)
    rcases htakes with ⟨r, l, rfl, -, -, hc⟩ | ⟨ob', rfl, -, hc⟩ | ⟨r, rfl, -, hc⟩
    · obtain rfl := Option.some.inj hob
      refine .persists r l (by rw [hc, Cache.get_put, if_pos rfl]) ?_
      rcases hbefore with hb | ⟨⟨r', hr'⟩, hi⟩
      · exact Or.inl (hload.trans hb)
      · exact Or.inr ⟨(Duty.persists.inj hr').2, hi.mono (Task.resume_tag t k out) hload⟩
    · obtain rfl := Option.some.inj hob
      exact .removes (by rw [hc, Cache.get_erase, if_pos rfl]) (hbefore' (by simp))
    · exact .issues r (by rw [hload, hc, hsame]) (hbefore' (by simp))

theorem Durable.owed_other (H : Durable h s) (hadv : Pool.Advance exec s i o s' t f k out)
    (hd : Stack d t.frames) (hd' : Stack d' (t.resume k out).frames)
    (hch : Change i o f s.shared s'.shared d d') {j : Nat} {u : Thread} {e : Duty} (hj : j ≠ i)
    (hu : s.tasks[j]? = some u) (he : Stack e u.frames) (hob : e.obj = some ob) :
    Owed (remember h s (.step i o) s') s' u ob e := by
  have hdob : d.obj ≠ some ob := fun hdob =>
    hj (H.unique j i u t e d ob hu hadv.task he hd hob hdob)
  have hd'ob : d'.obj ≠ some ob := fun hd'ob => H.only hadv hd hd' hch hd'ob hj hu he hob
  obtain ⟨hc, hload⟩ := hch.elsewhere hdob hd'ob
  have hnl : ∀ d : Duty, d.obj ≠ some ob → d.lands ob = false := fun d hd =>
    Bool.eq_false_iff.mpr fun hl => hd (Duty.obj_of_lands hl)
  have hlanding : landing s' ob = landing s ob :=
    landing_advance hadv hd hd' ((hnl d hdob).trans (hnl d' hd'ob).symm)
  refine (H.owed u (List.mem_of_getElem? hu) e ob he hob).mono rfl hc hload ?_
  refine remember_eq hlanding fun hb => ?_
  -- when a step of a removal begins, no other task has a duty
  exfalso
  rw [begins_step hadv] at hb
  have hfree := free_of_begins hadv hb
  cases hut : u.tag.isCall with
  | false =>
    obtain ⟨hlock, -⟩ := H.reaper_duty hu hut he hob
    rw [hfree] at hlock
    cases hlock
  | true =>
    cases htt : t.tag with
    | call c =>
      rw [H.serial.frames_nil hadv (by rw [htt]; rfl) hj hu hut] at he
      rw [he.unique (.plain [] (by simp))] at hob
      cases hob
    | reaper id q =>
      obtain ⟨b, hb'⟩ := H.serial.reapers t hadv.mem id q htt
      rw [hadv.frames] at hb'
      rcases hb'.frame with rfl | rfl | ⟨t', st, rfl⟩ | rfl | ⟨g, rfl⟩ <;> cases hb

/-- A stack with a frame on top that comes before a change has no duty. -/
theorem duty_of_pristine {fs : List Frame} {g : Frame} (hg : g ∈ fs.head?) (hp : g.pristine)
    (hst : Stack d fs) : d = .none := by
  cases fs with
  | nil => cases hg
  | cons f fs =>
    obtain rfl := Option.some.inj hg
    rw [← hst.dutyOf_eq, dutyOf_pristine hp]

/-- The call at work finds the remembered records as long as it has not changed anything. -/
theorem Durable.untouched_own (H : Durable h s) (hadv : Pool.Advance exec s i o s' t f k out)
    (hd : Stack d t.frames) (hd' : Stack d' (t.resume k out).frames)
    (hch : Change i o f s.shared s'.shared d d') (hcall : t.tag.isCall) {g : Frame}
    (hg : g ∈ (t.resume k out).frames.head?) (hp : g.pristine) (hl : landing s' ob = false) :
    s'.shared.cache.get ob = remember h s (.step i o) s' ob := by
  have hd'none : d' = .none := duty_of_pristine hg hp hd'
  have hfront : f.pristine ∨ f.begins := by
    have hframes : (t.resume k out).frames = out.pushed ++ k := by
      rcases Task.frames_resume t k out with he | he
      · exact he
      · rw [he] at hg
        cases hg
    rw [hframes, List.head?_append] at hg
    cases hhead : out.pushed.head? with
    | some g' =>
      rw [hhead, Option.some_or] at hg
      obtain rfl := Option.some.inj hg
      exact exec_pristine hadv.exec _ (List.mem_of_mem_head? hhead) hp
    | none =>
      rw [hhead, Option.none_or] at hg
      have hchain := H.chained t hadv.mem hcall
      rw [hadv.frames] at hchain
      rcases hchain.rel_head? hg hp with hkill | ⟨hstops, -⟩
      · left
        cases f with
        | sys s => cases s <;> first | rfl | cases hkill
        | _ => cases hkill
      · cases f with
        | crit c => cases c <;> first | exact Or.inl rfl | exact Or.inr rfl | cases hstops
        | _ => cases hstops
  have hdnone : d = .none := by
    rw [← hd.dutyOf_eq, hadv.frames]
    exact hfront.elim dutyOf_pristine dutyOf_begins
  have hlanding : landing s' ob = landing s ob :=
    landing_advance hadv hd hd' (by rw [hdnone, hd'none])
  rw [hch.cache_of_none hdnone hd'none]
  rcases hfront with hf | hf
  · rw [remember_eq hlanding (by simp [begins_step hadv, Frame.not_begins_of_pristine hf])]
    exact H.untouched t hadv.mem hcall f (by simp [hadv.frames]) hf ob (hlanding ▸ hl)
  · rw [remember_of_begins ((begins_step hadv).trans hf) (hlanding ▸ hl)]

/-- So does a call that waits while a reaper is at work. -/
theorem Durable.untouched_other (H : Durable h s) (hadv : Pool.Advance exec s i o s' t f k out)
    (hd : Stack d t.frames) (hd' : Stack d' (t.resume k out).frames)
    (hch : Change i o f s.shared s'.shared d d') {j : Nat} {u : Thread} (hj : j ≠ i)
    (hu : s.tasks[j]? = some u) (hcall : u.tag.isCall) {g : Frame} (hg : g ∈ u.frames.head?)
    (hp : g.pristine) (hl : landing s' ob = false) :
    s'.shared.cache.get ob = remember h s (.step i o) s' ob := by
  cases htt : t.tag with
  | call c =>
    rw [H.serial.frames_nil hadv (by rw [htt]; rfl) hj hu hcall] at hg
    cases hg
  | reaper id q =>
    have htcall : t.tag.isCall = false := by rw [htt]; rfl
    obtain ⟨b, hb⟩ := H.serial.reapers t hadv.mem id q htt
    obtain ⟨b', hb', -⟩ := hb.step hadv.frames hadv.exec
    have hnotbegins : f.begins = false := by
      rw [hadv.frames] at hb
      rcases hb.frame with rfl | rfl | ⟨t', st, rfl⟩ | rfl | ⟨g, rfl⟩ <;> rfl
    cases hland : landing s ob with
    | true =>
      -- the reaper has renamed the file: the lock was held, and the cache is as it was
      rw [remember_of_landing (by rw [hl, hland]; simp)]
      obtain ⟨v, hv, r, hst, -⟩ := (landing_eq_true H.serial.sound).mp hland
      obtain ⟨m, hm⟩ := List.getElem?_of_mem hv
      rw [(hch.locked (H.serial.sound.lands m v r hm hst).1).1]
    | false =>
      have hdob : d.obj ≠ some ob := by
        intro hdob
        obtain ⟨-, hlands, -⟩ := H.reaper_duty hadv.task htcall hd hdob
        have : landing s ob := by
          refine List.any_eq_true.mpr ⟨t, hadv.mem, ?_⟩
          rw [hd.dutyOf_eq]
          exact hlands
        rw [hland] at this
        cases this
      have hd'ob : d'.obj ≠ some ob := by
        intro hd'ob
        have heq := hd'.dutyOf_eq
        have hlands : d'.lands ob := by
          rcases hb'.dutyOf with hn | hn | ⟨r, hn⟩ <;> rw [hn] at heq <;> subst heq
          · cases hd'ob
          · cases hd'ob
          · exact decide_eq_true (Option.some.inj hd'ob)
        have : landing s' ob := by
          refine List.any_eq_true.mpr ⟨_, List.mem_of_getElem? hadv.getElem?_self, ?_⟩
          rw [heq]
          exact hlands
        rw [hl] at this
        cases this
      rw [(hch.elsewhere hdob hd'ob).1, remember_eq (hl.trans hland.symm)
        (by simp [begins_step hadv, hnotbegins])]
      exact H.untouched u (List.mem_of_getElem? hu) hcall g hg hp ob hland

theorem Durable.advance (H : Durable h s) (hadv : Pool.Advance exec s i o s' t f k out)
    (hstep : step s (.step i o) = some s') (hok : Succeeds s o f)
    (hstop : removesStopped s (.step i o)) : Durable (remember h s (.step i o) s') s' := by
  obtain ⟨d, hd⟩ := H.serial.sound.duties t hadv.mem
  obtain ⟨d', hd', hch⟩ := hd.step hadv.frames H.serial.sound.keyed hadv.exec
  constructor
  case serial => exact H.serial.advance hadv hstep
  case tidy => exact H.tidy_advance hadv hd hch hok
  case named =>
    intro ob hob
    rcases hch.get_isSome hob with hob | ⟨r, rfl, -, rfl⟩
    · exact H.named ob hob
    · exact H.issuing t hadv.mem r true hd
  case issuing =>
    intro u hu r b hst
    rcases hadv.mem_cases hu with rfl | hu | hu
    · rcases hch.issues (hd'.unique hst) with ⟨⟨b', rfl⟩, -⟩ | ⟨new, -⟩
      · exact H.issuing t hadv.mem r b' hd
      · exact new.stem_ne
    · exact H.issuing u hu r b hst
    · obtain ⟨id, q, -, rfl⟩ := children_reaper hadv hu
      cases hst
  case unique => exact H.unique_advance hadv hd hd' hch
  case chained =>
    intro u hu hcall
    rcases hadv.mem_cases hu with rfl | hu | hu
    · rw [Task.resume_tag] at hcall
      exact H.chained_advance hadv hstop hcall
    · exact H.chained u hu hcall
    · obtain ⟨id, q, -, rfl⟩ := children_reaper hadv hu
      cases hcall
  case untouched =>
    intro u hu hcall g hg hp ob hl
    obtain ⟨j, hj⟩ := List.getElem?_of_mem hu
    rcases hadv.cases hj with ⟨-, rfl⟩ | ⟨hji, hj⟩ | ⟨-, hu⟩
    · rw [Task.resume_tag] at hcall
      exact H.untouched_own hadv hd hd' hch hcall hg hp hl
    · exact H.untouched_other hadv hd hd' hch hji hj hcall hg hp hl
    · obtain ⟨id, q, -, rfl⟩ := children_reaper hadv hu
      cases hcall
  case settled => exact fun ob hfree => H.settled_advance hadv hd hd' hch hok hfree
  case owed =>
    intro u hu e ob he hob
    obtain ⟨j, hj⟩ := List.getElem?_of_mem hu
    rcases hadv.cases hj with ⟨-, rfl⟩ | ⟨hji, hj⟩ | ⟨-, hu⟩
    · obtain rfl := hd'.unique he
      exact H.owed_own hadv hd hd' hch hok hob
    · exact H.owed_other hadv hd hd' hch hji hj he hob
    · obtain ⟨id, q, -, rfl⟩ := children_reaper hadv hu
      rw [he.unique (.plain _ (by simp [Frame.plain]))] at hob
      cases hob

/-- What a step of the pool that touches neither the tasks nor the cache nor the files
remembers. -/
theorem remember_procs {l : Label} (hl : begins s l = false) (htasks : s'.tasks = s.tasks) :
    remember h s l s' = h := by
  funext ob
  refine remember_eq ?_ (by simp [hl])
  rw [landing, htasks, landing]

/-- A change to the processes changes nothing here. -/
theorem Durable.of_procs (H : Durable h s) (hserial : Serial s')
    (hs : s' = { s with shared := { s.shared with procs := s'.shared.procs } }) :
    Durable h s' := by
  have htasks : s'.tasks = s.tasks := by rw [hs]
  have hcache : s'.shared.cache = s.shared.cache := by rw [hs]
  have hdisk : s'.shared.disk = s.shared.disk := by rw [hs]
  have hlanding : ∀ ob, landing s' ob = landing s ob := fun ob => by rw [landing, htasks, landing]
  constructor
  case serial => exact hserial
  case tidy => exact hdisk ▸ H.tidy
  case named => exact hcache ▸ H.named
  case issuing => exact htasks ▸ H.issuing
  case unique => exact htasks ▸ H.unique
  case chained => exact htasks ▸ H.chained
  case untouched =>
    intro t ht hcall g hg hp ob hl
    rw [hcache]
    exact H.untouched t (htasks ▸ ht) hcall g hg hp ob (hlanding ob ▸ hl)
  case settled =>
    rw [htasks, hcache, hdisk]
    exact H.settled
  case owed =>
    intro t ht d ob hd hob
    exact (H.owed t (htasks ▸ ht) d ob hd hob).mono rfl (by rw [hcache]) (by rw [hdisk]) rfl

end Steps

/-- A call begins: the records are remembered, but for one that a reaper is at work on. -/
theorem Durable.invoke {h : Marks} {s : State} {c : Call} (H : Durable h s) (hno : NoCall s) :
    Durable (remember h s (.invoke c) (s.start (.call c) c.frames))
      (s.start (.call c) c.frames) := by
  have hnew : Stack .none c.frames := .plain _ fun f hf => (plain_callFrames c f hf).1
  have hlanding : ∀ ob, landing (s.start (.call c) c.frames) ob = landing s ob := by
    intro ob
    have hfree : (dutyOf c.frames).lands ob = false := by
      rw [hnew.dutyOf_eq]
      rfl
    simp [landing, Pool.start, hfree]
  constructor
  case serial => exact H.serial.invoke hno
  case tidy => exact H.tidy
  case named => exact H.named
  case issuing =>
    intro t ht r b hst
    rcases Pool.mem_tasks_start.mp ht with ht | rfl
    · exact H.issuing t ht r b hst
    · cases hnew.unique hst
  case unique =>
    have hold : ∀ (j : Nat) (u : Thread) (e : Duty) (ob : Obj),
        (s.start (.call c) c.frames).tasks[j]? = some u → Stack e u.frames → e.obj = some ob →
          s.tasks[j]? = some u := by
      intro j u e ob hu he hob
      rw [Pool.start, List.getElem?_append] at hu
      split at hu
      · exact hu
      · obtain rfl := List.mem_singleton.mp (List.mem_of_getElem? hu)
        rw [he.unique hnew] at hob
        cases hob
    intro i j t u d e ob ht hu hd he hdob heob
    exact H.unique i j t u d e ob (hold i t d ob ht hd hdob) (hold j u e ob hu he heob) hd he hdob
      heob
  case chained =>
    intro t ht hcall
    rcases Pool.mem_tasks_start.mp ht with ht | rfl
    · exact H.chained t ht hcall
    · cases c <;> simp [Call.frames, Above, Frame.pristine, Frame.isKill, Frame.stops]
  case untouched =>
    intro t _ _ g _ _ ob hl
    rw [hlanding ob] at hl
    exact (remember_of_begins rfl hl).symm
  case settled =>
    exact fun ob hfree => H.settled ob fun t ht => hfree t (Pool.mem_tasks_start.mpr (.inl ht))
  case owed =>
    intro t ht d ob hd hob
    rcases Pool.mem_tasks_start.mp ht with ht | rfl
    · refine (H.owed t ht d ob hd hob).mono rfl rfl rfl (remember_eq (hlanding ob) fun _ => ?_)
      -- no call is at work, so that the task is a reaper
      cases hcall : t.tag.isCall with
      | true =>
        have hnil := hno t ht hcall
        rw [hnil] at hd
        rw [hd.unique (.plain [] (by simp))] at hob
        cases hob
      | false =>
        obtain ⟨j, hj⟩ := List.getElem?_of_mem ht
        obtain ⟨-, hlands, -⟩ := H.reaper_duty hj hcall hd hob
        refine List.any_eq_true.mpr ⟨t, ht, ?_⟩
        rw [hd.dutyOf_eq]
        exact hlands
    · rw [hd.unique hnew] at hob
      cases hob

/-- **A serialized step whose file operations succeed keeps the files with the cache.** -/
theorem Durable.step {h : Marks} {s s' : State} {l : Label} (H : Durable h s) (hl : noRestart l)
    (hserial : serialized s l) (hfiles : filesSucceed s l)
    (hown : ownsTemp (fun _ => true) s l) (hstop : removesStopped s l)
    (hstep : step s l = some s') : Durable (remember h s l s') s' := by
  have hserial' := H.serial.step hl hserial hstep
  cases l with
  | invoke c =>
    obtain rfl := Option.some.inj hstep
    exact H.invoke (of_decide_eq_true hserial)
  | step i o =>
    obtain ⟨t, f, k, out, hadv⟩ := Pool.advance_eq_some hstep
    refine H.advance hadv hstep ⟨fun g hg => ?_, fun p n r strict hf => ?_⟩ hstop
    · simpa [filesSucceed, hadv.top_eq, hg] using hfiles
    · exact ownsTemp_read hown hadv hf rfl
  | exit q st =>
    obtain ⟨p, -, hs⟩ := step_exit hstep
    rw [remember_procs rfl (by rw [hs])]
    exact H.of_procs hserial' (by rw [hs])
  | foreign pid =>
    obtain ⟨-, -, hs⟩ := step_foreign hstep
    rw [remember_procs rfl (by rw [hs])]
    exact H.of_procs hserial' (by rw [hs])
  | restart rs => cases hl

theorem Durable.init (listener : Nat) (blake3 : String → String) :
    Durable (fun _ => none) (init listener blake3) := by
  constructor
  case serial => exact Serial.init listener blake3
  case tidy => exact tidy_empty
  case settled => simp [Fake.init, Disk.load]
  all_goals simp [Fake.init]

end LightrCri.Fake

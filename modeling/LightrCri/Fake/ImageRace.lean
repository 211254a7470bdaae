import LightrCri.Fake.Images

/-!
# Image calls in any interleaving

`remove_image` looks an image up, checks that no container uses it, drops it from the cache and
unlinks its file in four steps, and `pull_image` writes the file before it takes the lock. So a
container may be created between the check and the drop (`dropped_in_use`), and a pull may overlap a
removal so that one of them has the last word on the cache and the other on the disk
(`pull_overlaps`). When neither happens, no container that has not exited has the reference of an
image that is dropped, and at quiescence the images in the cache are those on disk
(`removal_atomic`). An image that is only in one of the two is owed by a call (`Held.agree`).
-/

namespace LightrCri.Fake

open Backend Foundations

/-! ## Effects on the images and their files -/

inductive ImageEffect (o : Oracle) (f : Frame) (w w' : World) : Prop
  | same (pull : ∀ r, f ≠ .crit (.insertImage r))
    (removal : ∀ id, f = .file (.unlink (.image id)) → o.fault ≠ none)
    (images : w'.cache.images = w.cache.images)
    (loads : ∀ id, w'.disk.load (.image id) = w.disk.load (.image id))
  | insert (r) (frame : f = .crit (.insertImage r))
    (images : w'.cache.images = w.cache.images.insert r.id r) (disk : w'.disk = w.disk)
  | drop (id) (frame : f = .crit (.dropImage id))
    (images : w'.cache.images = w.cache.images.erase id) (disk : w'.disk = w.disk)
  | store (p n r strict) (frame : f = .file (.rename p n (.image r) strict))
    (images : w'.cache.images = w.cache.images)
    (disk : w.disk.rename .images (tmpName p n) (Obj.image r.id).file = some w'.disk)
  | unlink (id) (frame : f = .file (.unlink (.image id))) (succeeds : o.fault = none)
    (images : w'.cache.images = w.cache.images)
    (disk : w'.disk = w.disk.unlink .images (Obj.image id).file)

variable {self n : Nat} {o : Oracle} {f : Frame} {w w' : World} {out : Out}

theorem exec_imageEffect (hex : exec self n o f w = some (w', out)) : ImageEffect o f w w' := by
  cases f with
  | crit c =>
    obtain ⟨-, hc⟩ := exec_crit_eq_some.mp hex
    have hdisk := exec_disk hex fun _ h => by cases h
    cases c with
    | insertImage r =>
      obtain ⟨rfl, -⟩ := Prod.mk.inj hc
      exact .insert r rfl rfl rfl
    | _ =>
      cases (exec_image hex).1 with
      | same images =>
        exact .same (fun _ => by simp) (fun _ h => by cases h) images fun _ => by rw [hdisk]
      | pulled r frame images => cases frame
      | dropped id frame images => exact .drop id frame images hdisk
  | file g =>
    obtain ⟨rfl, -⟩ := exec_file_eq_some.mp hex
    have himages : (g.exec o w).1.cache.images = w.cache.images := by
      rw [(FileOp.exec_cache_procs o w g).1]
    cases g with
    | write r strict =>
      refine .same (fun _ => by simp) (fun _ h => by cases h) himages fun id => ?_
      rcases FileOp.exec_write_cases o w r strict with ⟨hd, -⟩ | ⟨-, hd | hd, -⟩
      · rw [hd, Disk.load_put_tmpName]
      · rw [hd]
      · rw [hd, Disk.load_put_tmpName]
    | rename p m r strict =>
      rcases FileOp.exec_rename_cases o w p m r strict with ⟨hd, -⟩ | ⟨-, hd, -⟩
      · by_cases hr : ∃ i, r = .image i
        · obtain ⟨i, rfl⟩ := hr
          exact .store p m i strict rfl himages hd
        · refine .same (fun _ => by simp) (fun _ h => by cases h) himages fun id => ?_
          obtain ⟨x, hx, -⟩ := Disk.rename_eq_some.mp hd
          rw [Disk.load_rename hx hd, if_neg]
          intro heq
          cases r with
          | image i => exact hr ⟨i, rfl⟩
          | _ => cases heq
      · exact .same (fun _ => by simp) (fun _ h => by cases h) himages fun id => by rw [hd]
    | unlink ob =>
      cases hfault : o.fault with
      | some e =>
        exact .same (fun _ => by simp) (fun _ _ => by simp [hfault]) himages
          fun id => by simp [FileOp.exec, hfault]
      | none =>
        have hd : ((FileOp.unlink ob).exec o w).1.disk = w.disk.unlink ob.subdir ob.file := by
          simp [FileOp.exec, hfault]
        cases ob with
        | image id => exact .unlink id rfl hfault himages hd
        | _ =>
          exact .same (fun _ => by simp) (fun _ h => by cases h) himages
            fun id => by rw [hd, Disk.load_unlink, if_neg (by simp)]
  | sys s =>
    have hsame : w'.cache = w.cache ∧ w'.disk = w.disk := by
      cases s <;> simp only [exec_sys, Sys.exec] at hex <;> (repeat' split at hex)
      all_goals first
        | (obtain ⟨rfl, -⟩ := Prod.mk.inj (Option.some.inj hex)
           exact ⟨rfl, rfl⟩)
        | cases hex
    exact .same (fun _ => by simp) (fun _ h => by cases h) (by rw [hsame.1]) fun id => by rw [hsame.2]
  | unlock | ret v | fail e =>
    obtain ⟨rfl, -⟩ := Prod.mk.inj (Option.some.inj hex)
    exact .same (fun _ => by simp) (fun _ h => by cases h) rfl fun _ => rfl

/-! ## The stacks of the image calls -/

/-- The frame belongs to an image call. -/
def Frame.images : Frame → Bool
  | .crit (.insertImage _) => true
  | .crit (.findImage _) => true
  | .crit (.checkImageInUse _ _) => true
  | .crit (.dropImage _) => true
  | .file (.write (.image _) _) => true
  | .file (.rename _ _ (.image _) _) => true
  | .file (.unlink (.image _)) => true
  | .sys (.pullImage _) => true
  | _ => false

/-- The stacks of a task, as far as images are concerned. -/
inductive ImageTask : Tag → List Frame → Prop
  | pull (ref) : ImageTask (.call (.pullImage ref)) [.sys (.pullImage ref)]
  | write (ref r v) : ImageTask (.call (.pullImage ref))
      [.file (.write (.image r) true), .crit (.insertImage r), .ret v]
  | rename (ref p n r v) : ImageTask (.call (.pullImage ref))
      [.file (.rename p n (.image r) true), .crit (.insertImage r), .ret v]
  | insert (ref r v) : ImageTask (.call (.pullImage ref)) [.crit (.insertImage r), .ret v]
  | find (ref) : ImageTask (.call (.removeImage ref)) [.crit (.findImage ref), .ret .unit]
  | check (ref id) :
    ImageTask (.call (.removeImage ref)) [.crit (.checkImageInUse ref id), .ret .unit]
  | drop (ref id) : ImageTask (.call (.removeImage ref)) [.crit (.dropImage id), .ret .unit]
  | unlink (ref id) :
    ImageTask (.call (.removeImage ref)) [.file (.unlink (.image id)), .ret .unit]
  | other (tag fs) (h : ∀ f ∈ fs, f.images = false) : ImageTask tag fs

theorem ImageTask.invoke (c : Call) : ImageTask (.call c) c.frames := by
  cases c with
  | pullImage ref => exact .pull ref
  | removeImage ref => exact .find ref
  | _ =>
    refine .other _ _ fun f hf => ?_
    simp only [Call.frames, List.mem_cons, List.not_mem_nil, or_false] at hf
    rcases hf with rfl | rfl | rfl <;> rfl

/-- Frames of other calls lead to frames of other calls. -/
theorem exec_images_pushed (hex : exec self n o f w = some (w', out)) (hf : f.images = false) :
    ∀ g ∈ out.pushed, g.images = false := by
  rcases exec_pushes hex with h | h
  · simp [h]
  · generalize out.pushed = fs at h
    cases h with
    | collectContainers id ids =>
      exact forall_mem_collect (fun _ => rfl) (fun _ => rfl) rfl
    | write r strict p m => cases r <;> simp_all [Frame.images]
    | _ => simp_all [Frame.images]

/-- What the next frame of an image call says of the step that led to it. -/
structure Leads (f : Frame) (tag : Tag) (w w' : World) (fs : List Frame) : Prop where
  task : ImageTask tag fs
  stored : ∀ r, fs.head? = some (.crit (.insertImage r)) → ∃ p n strict,
    f = .file (.rename p n (.image r) strict) ∧
      w.disk.rename .images (tmpName p n) (Obj.image r.id).file = some w'.disk
  dropped : ∀ id, fs.head? = some (.file (.unlink (.image id))) → f = .crit (.dropImage id)
  checked : ∀ id, fs.head? = some (.crit (.dropImage id)) → ∃ ref, tag = .call (.removeImage ref) ∧
    w' = w ∧ w.cache.userOf ref = none

theorem Leads.of_other {tag : Tag} {fs : List Frame} (h : ∀ g ∈ fs, g.images = false) :
    Leads f tag w w' fs := by
  have hhead (g : Frame) (hg : fs.head? = some g) : g.images = false :=
    h g (List.mem_of_mem_head? hg)
  refine ⟨.other tag fs h, fun r hr => ?_, fun id hid => ?_, fun id hid => ?_⟩
  · cases hhead _ hr
  · cases hhead _ hid
  · cases hhead _ hid

theorem ImageTask.step {t : Thread} {k : List Frame} (h : ImageTask t.tag t.frames)
    (hf : t.frames = f :: k) (hex : exec self n o f w = some (w', out)) :
    Leads f t.tag w w' (t.resume k out).frames := by
  generalize htag : t.tag = tag at h
  rw [hf] at h
  cases h with
  | pull ref =>
    simp only [exec_sys, Sys.exec] at hex
    split at hex
    · obtain ⟨rfl, rfl⟩ := Prod.mk.inj (Option.some.inj hex)
      exact .of_other (by simp)
    · obtain ⟨rfl, rfl⟩ := Prod.mk.inj (Option.some.inj hex)
      exact ⟨.write ref _ _, by simp, by simp, by simp⟩
  | write ref r v =>
    obtain ⟨rfl, rfl⟩ := exec_file_eq_some.mp hex
    rcases FileOp.exec_write_cases o w (.image r) true with ⟨-, he⟩ | ⟨-, -, e, he⟩ <;> rw [he]
    · exact ⟨.rename ref _ _ r v, by simp, by simp, by simp⟩
    · exact .of_other (by simp [ioError])
  | rename ref p m r v =>
    obtain ⟨rfl, rfl⟩ := exec_file_eq_some.mp hex
    rcases FileOp.exec_rename_cases o w p m (.image r) true with ⟨hd, he⟩ | ⟨-, -, e, he⟩ <;> rw [he]
    · refine ⟨.insert ref r v, fun r' hr' => ?_, by simp, by simp⟩
      obtain rfl : r = r' := by simpa using hr'
      exact ⟨p, m, true, rfl, hd⟩
    · exact .of_other (by simp [ioError])
  | insert ref r v =>
    obtain ⟨-, hc⟩ := exec_crit_eq_some.mp hex
    obtain ⟨rfl, rfl⟩ := Prod.mk.inj hc
    exact .of_other (by simp [Frame.images])
  | find ref =>
    obtain ⟨-, hc⟩ := exec_crit_eq_some.mp hex
    rw [exec_findImage] at hc
    obtain ⟨rfl, rfl⟩ := Prod.mk.inj hc
    cases w.cache.imageNamed ref with
    | none => exact .of_other (by simp [Frame.images])
    | some img => exact ⟨.check ref img.id, by simp, by simp, by simp⟩
  | check ref id =>
    obtain ⟨-, hc⟩ := exec_crit_eq_some.mp hex
    rw [exec_checkImageInUse] at hc
    obtain ⟨rfl, rfl⟩ := Prod.mk.inj hc
    cases huser : w.cache.userOf ref with
    | none => exact ⟨.drop ref id, by simp, by simp, fun _ _ => ⟨ref, rfl, rfl, huser⟩⟩
    | some c => exact .of_other (by simp)
  | drop ref id =>
    obtain ⟨-, hc⟩ := exec_crit_eq_some.mp hex
    obtain ⟨rfl, rfl⟩ := Prod.mk.inj hc
    refine ⟨.unlink ref id, by simp, fun id' hid => ?_, by simp⟩
    obtain rfl : id = id' := by simpa using hid
    rfl
  | unlink ref id =>
    obtain ⟨-, rfl⟩ := exec_file_eq_some.mp hex
    have hout : ((FileOp.unlink (.image id)).exec o w).2 = .next [] := by
      simp only [FileOp.exec]
      split <;> rfl
    rw [hout]
    exact .of_other (by simp [Frame.images])
  | other _ _ h =>
    obtain ⟨hf', hk⟩ := List.forall_mem_cons.mp h
    refine .of_other fun g hg => ?_
    rcases Task.mem_resume hg with hg | hg
    · exact exec_images_pushed hex hf' g hg
    · exact hk g hg

/-! ## Conditions -/

def Frame.dropsImage : Frame → Bool
  | .crit (.dropImage _) => true
  | _ => false

def Frame.insertsImage (id : String) : Frame → Bool
  | .crit (.insertImage r) => r.id = id
  | _ => false

def Frame.unlinksImage (id : String) : Frame → Bool
  | .file (.unlink (.image id')) => id' = id
  | _ => false

def Tag.removes (ref : String) : Tag → Bool
  | .call c => c = .removeImage ref
  | _ => false

/-- The call is a removal of the reference, between its check and its drop. -/
def dropping (ref : String) (t : Thread) : Bool :=
  t.tag.removes ref && t.frames.head?.any Frame.dropsImage

/-- A container of a reference is inserted, or an exited one made Running, only while no removal of
the reference is between its check and its drop. -/
def guardsUse (s : State) : Label → Bool
  | .step i _ =>
    match s.top i with
    | some (.crit (.insertContainer r)) =>
      r.state = .exited || s.tasks.all fun t => !dropping r.config.imageRef t
    | some (.crit (.startIntent id)) =>
      s.shared.cache.containers[id]?.all fun r =>
        r.state ≠ .exited || s.tasks.all fun t => !dropping r.config.imageRef t
    | _ => true
  | _ => true

/-- An image is inserted only while no file of it is about to be unlinked, and a file is unlinked
only while no image of it is about to be inserted. -/
def imagesApart (s : State) : Label → Bool
  | .step i _ =>
    match s.top i with
    | some (.crit (.insertImage r)) =>
      s.tasks.all fun t => !t.frames.head?.any (Frame.unlinksImage r.id)
    | some (.file (.unlink (.image id))) =>
      s.tasks.all fun t => !t.frames.head?.any (Frame.insertsImage id)
    | _ => true
  | _ => true

theorem dropping_iff {ref : String} {t : Thread} :
    dropping ref t ↔ t.tag = .call (.removeImage ref) ∧
      ∃ id, t.frames.head? = some (.crit (.dropImage id)) := by
  rw [dropping, Bool.and_eq_true, Option.any_eq_true]
  refine and_congr ?_ ⟨?_, ?_⟩
  · cases t.tag with
    | call c => simp [Tag.removes]
    | reaper id q => simp [Tag.removes]
  · rintro ⟨f, hf, hdrop⟩
    cases f with
    | crit c =>
      cases c with
      | dropImage id => exact ⟨id, hf⟩
      | _ => cases hdrop
    | _ => cases hdrop
  · rintro ⟨id, hid⟩
    exact ⟨_, hid, rfl⟩

def Obj.isImage : Obj → Bool
  | .image _ => true
  | _ => false

/-- The containers with the reference have exited. -/
def Unused (c : Cache) (ref : String) : Prop :=
  ∀ (id : ContainerId) (r : ContainerRecord), c.containers[id]? = some r → r.config.imageRef = ref →
    r.state = .exited

theorem userOf_eq_none {c : Cache} {ref : String} : c.userOf ref = none ↔ Unused c ref := by
  rw [Cache.userOf, List.find?_eq_none]
  constructor
  · intro h id r hr href
    simpa [href] using h r (mem_values.mpr ⟨id, hr⟩)
  · intro h r hr
    obtain ⟨id, hid⟩ := mem_values.mp hr
    simpa using h id r hid

/-- A step that brings back no container of the reference leaves it unused. -/
theorem Unused.step {ref : String} (h : Unused w.cache ref)
    (hex : exec self n o f w = some (w', out))
    (hinsert : ∀ r, f = .crit (.insertContainer r) → r.config.imageRef = ref → r.state = .exited)
    (hintent : ∀ id r, f = .crit (.startIntent id) → w.cache.containers[id]? = some r →
      r.config.imageRef ≠ ref) : Unused w'.cache ref := by
  intro id r hr href
  cases exec_record id hex with
  | same record => exact h id r (record ▸ hr) href
  | intent r' t frame old new =>
    obtain rfl := Option.some.inj (new.symm.trans hr)
    exact absurd href (hintent id r' frame old)
  | persistPid r' pid frame old new =>
    obtain rfl := Option.some.inj (new.symm.trans hr)
    exact h id r' old href
  | inserted r' frame key new =>
    obtain rfl := Option.some.inj (new.symm.trans hr)
    exact hinsert r' frame href
  | dropped frame new => cases new.symm.trans hr
  | spawnFailed _ r' _ _ _ new exited | stopped _ r' _ _ _ _ new exited
  | reaped _ r' _ _ _ _ _ new exited =>
    obtain rfl := Option.some.inj (new.symm.trans hr)
    exact exited

/-! ## The invariant -/

/-- What a removal has checked still holds when it drops the image. -/
structure Checked (s : State) : Prop where
  tasks : ∀ t ∈ s.tasks, ImageTask t.tag t.frames
  unused : ∀ t ∈ s.tasks, ∀ ref id, t.tag = .call (.removeImage ref) →
    t.frames.head? = some (.crit (.dropImage id)) → Unused s.shared.cache ref

/-- What the image calls hold to between the cache and the files. -/
structure Held (s : State) : Prop where
  tasks : ∀ t ∈ s.tasks, ImageTask t.tag t.frames
  /-- An image that is about to be inserted has its file. -/
  stored : ∀ t ∈ s.tasks, ∀ r, t.frames.head? = some (.crit (.insertImage r)) →
    (s.shared.disk.load (.image r.id)).isSome
  /-- An image whose file is about to be unlinked is not in the cache. -/
  gone : ∀ t ∈ s.tasks, ∀ id, t.frames.head? = some (.file (.unlink (.image id))) →
    s.shared.cache.images[id]? = none
  /-- An image that is only in the cache or only on disk is owed by a call. -/
  agree : ∀ id, (s.shared.disk.load (.image id)).isSome = s.shared.cache.images[id]?.isSome ∨
    ∃ t ∈ s.tasks, t.frames.head? = some (.file (.unlink (.image id))) ∨
      ∃ r, r.id = id ∧ t.frames.head? = some (.crit (.insertImage r))

section

variable {s s' : State} {i : Nat} {t : Thread} {k : List Frame}

theorem head?_of_frames (hadv : Pool.Advance exec s i o s' t f k out) : t.frames.head? = some f := by
  rw [hadv.frames, List.head?_cons]

/-- While a removal is between its check and its drop, the image stays unused. -/
theorem Checked.unused_advance (h : Checked s) (hguard : guardsUse s (.step i o))
    (hadv : Pool.Advance exec s i o s' t f k out) {u : Thread} (hu : u ∈ s.tasks) {ref id : String}
    (htag : u.tag = .call (.removeImage ref))
    (hhead : u.frames.head? = some (.crit (.dropImage id))) : Unused s'.shared.cache ref := by
  have hunused := h.unused u hu ref id htag hhead
  have hnot : (s.tasks.all fun t => !dropping ref t) = false := by
    rw [List.all_eq_false]
    exact ⟨u, hu, by simp [dropping_iff.mpr ⟨htag, id, hhead⟩]⟩
  refine hunused.step hadv.exec (fun r hf href => ?_) fun id' r hf hr href => ?_
  · simpa [guardsUse, hadv.top_eq, hf, href, hnot] using hguard
  · have hexited := hunused id' r hr href
    simp [guardsUse, hadv.top_eq, hf, hr, href, hexited, hnot] at hguard

/-- An image keeps its file while it is about to be inserted. -/
theorem Held.stored_advance (h : Held s) (hapart : imagesApart s (.step i o))
    (hown : ownsTemp Obj.isImage s (.step i o)) (hadv : Pool.Advance exec s i o s' t f k out)
    {u : Thread} (hu : u ∈ s.tasks) {r : ImageDiskRecord}
    (hhead : u.frames.head? = some (.crit (.insertImage r))) :
    (s'.shared.disk.load (.image r.id)).isSome := by
  have hstored := h.stored u hu r hhead
  cases exec_imageEffect hadv.exec with
  | same _ _ _ loads => rw [loads, hstored]
  | insert _ _ _ disk | drop _ _ _ disk => rw [disk, hstored]
  | store p n r' strict frame _ disk =>
    rw [@Disk.load_rename _ _ (.image r'.id) _ _ _ (ownsTemp_read hown hadv frame rfl) disk]
    split
    · rfl
    · exact hstored
  | unlink id frame _ _ disk =>
    rw [disk]
    refine (congrArg Option.isSome (Disk.load_unlink _ (.image id) (.image r.id))).trans ?_
    rw [if_neg, hstored]
    intro heq
    obtain rfl : r.id = id := Obj.image.inj heq
    have := List.all_eq_true.mp (by simpa only [imagesApart, hadv.top_eq, frame] using hapart) u hu
    simp [hhead, Frame.insertsImage] at this

/-- An image stays out of the cache while its file is about to be unlinked. -/
theorem Held.gone_advance (h : Held s) (hapart : imagesApart s (.step i o))
    (hadv : Pool.Advance exec s i o s' t f k out) {u : Thread} (hu : u ∈ s.tasks) {id : String}
    (hhead : u.frames.head? = some (.file (.unlink (.image id)))) :
    s'.shared.cache.images[id]? = none := by
  have hgone := h.gone u hu id hhead
  cases exec_imageEffect hadv.exec with
  | same _ _ images _ | store _ _ _ _ _ images _ | unlink _ _ _ images _ => rw [images, hgone]
  | drop id' _ images _ =>
    rw [images, Std.ExtTreeMap.getElem?_erase, hgone]
    split <;> rfl
  | insert r frame images _ =>
    rw [images, Std.ExtTreeMap.getElem?_insert, if_neg, hgone]
    intro heq
    obtain rfl : r.id = id := Std.LawfulEqCmp.eq_of_compare heq
    have := List.all_eq_true.mp (by simpa only [imagesApart, hadv.top_eq, frame] using hapart) u hu
    simp [hhead, Frame.unlinksImage] at this

/-- Where a step leaves an image as it is, the call that owes it still does. -/
theorem Held.agree_kept (h : Held s) (hadv : Pool.Advance exec s i o s' t f k out) {id : String}
    (hload : s'.shared.disk.load (.image id) = s.shared.disk.load (.image id))
    (himage : s'.shared.cache.images[id]? = s.shared.cache.images[id]?)
    (hunlink : f ≠ .file (.unlink (.image id)))
    (hinsert : ∀ r, r.id = id → f ≠ .crit (.insertImage r)) :
    (s'.shared.disk.load (.image id)).isSome = s'.shared.cache.images[id]?.isSome ∨
      ∃ t ∈ s'.tasks, t.frames.head? = some (.file (.unlink (.image id))) ∨
        ∃ r, r.id = id ∧ t.frames.head? = some (.crit (.insertImage r)) := by
  rcases h.agree id with hagree | ⟨u, hu, howes⟩
  · exact .inl (by rw [hload, himage, hagree])
  · obtain ⟨j, hj⟩ := List.getElem?_of_mem hu
    by_cases hji : j = i
    · subst hji
      obtain rfl : u = t := Option.some.inj (hj.symm.trans hadv.task)
      rw [head?_of_frames hadv] at howes
      rcases howes with howes | ⟨r, hr, howes⟩
      · exact absurd (Option.some.inj howes) hunlink
      · exact absurd (Option.some.inj howes) (hinsert r hr)
    · exact .inr ⟨u, List.mem_of_getElem? (hadv.getElem?_of_some hji hj), howes⟩

theorem Held.agree_advance (h : Held s) (hfiles : filesSucceed s (.step i o))
    (hown : ownsTemp Obj.isImage s (.step i o)) (hadv : Pool.Advance exec s i o s' t f k out)
    (id : String) :
    (s'.shared.disk.load (.image id)).isSome = s'.shared.cache.images[id]?.isSome ∨
      ∃ t ∈ s'.tasks, t.frames.head? = some (.file (.unlink (.image id))) ∨
        ∃ r, r.id = id ∧ t.frames.head? = some (.crit (.insertImage r)) := by
  have hself : t.resume k out ∈ s'.tasks := List.mem_of_getElem? hadv.getElem?_self
  have hhead := head?_of_frames hadv
  cases exec_imageEffect hadv.exec with
  | same pull removal images loads =>
    refine h.agree_kept hadv (loads id) (by rw [images]) (fun hf => ?_) fun r _ => pull r
    have hfault : o.fault = none := by simpa [filesSucceed, hadv.top_eq, hf] using hfiles
    exact removal id hf hfault
  | insert r frame images disk =>
    by_cases hid : r.id = id
    · subst hid
      refine .inl ?_
      rw [disk, images, h.stored t hadv.mem r (by rw [hhead, frame]),
        Std.ExtTreeMap.getElem?_insert_self]
      rfl
    · refine h.agree_kept hadv (by rw [disk]) ?_ (by rw [frame]; simp) fun r' hr' hf => ?_
      · rw [images, Std.ExtTreeMap.getElem?_insert, if_neg]
        exact fun heq => hid (Std.LawfulEqCmp.eq_of_compare heq)
      · obtain rfl : r = r' := by simpa using frame.symm.trans hf
        exact hid hr'
  | drop id' frame images disk =>
    by_cases hid : id' = id
    · subst hid
      refine .inr ⟨_, hself, .inl ?_⟩
      obtain ⟨-, hc⟩ := exec_crit_eq_some.mp (frame ▸ hadv.exec)
      obtain ⟨-, rfl⟩ := Prod.mk.inj hc
      rfl
    · refine h.agree_kept hadv (by rw [disk]) ?_ (by rw [frame]; simp) (by rw [frame]; simp)
      rw [images, Std.ExtTreeMap.getElem?_erase, if_neg]
      exact fun heq => hid (Std.LawfulEqCmp.eq_of_compare heq)
  | store p n r strict frame images disk =>
    by_cases hid : r.id = id
    · subst hid
      refine .inr ⟨_, hself, .inr ⟨r, rfl, ?_⟩⟩
      have htask := h.tasks t hadv.mem
      rw [hadv.frames, frame] at htask
      generalize t.tag = tag at htask
      cases htask with
      | rename ref _ _ _ v =>
        obtain ⟨hw, hout⟩ := exec_file_eq_some.mp (frame ▸ hadv.exec)
        rcases FileOp.exec_rename_cases o s.shared p n (.image r) true with ⟨-, he⟩ | ⟨hlost, -⟩
        · rw [← hout, he]
          rfl
        · exfalso
          have hread := ownsTemp_read hown hadv frame rfl
          rcases hlost with ⟨hfault, -⟩ | ⟨p', n', r', strict', heq, hnone⟩
          · have hnofault : o.fault = none := by
              simpa [filesSucceed, hadv.top_eq, frame] using hfiles
            rw [hnofault] at hfault
            cases hfault
          · cases heq
            cases hread.symm.trans hnone
      | other _ _ hnot => cases hnot _ List.mem_cons_self
    · refine h.agree_kept hadv ?_ (by rw [images]) (by rw [frame]; simp) (by rw [frame]; simp)
      rw [@Disk.load_rename _ _ (.image r.id) _ _ _ (ownsTemp_read hown hadv frame rfl) disk, if_neg]
      exact fun heq => hid (Obj.image.inj heq).symm
  | unlink id' frame _ images disk =>
    have hload : s'.shared.disk.load (.image id) =
        if Obj.image id = .image id' then none else s.shared.disk.load (.image id) := by
      rw [disk]
      exact Disk.load_unlink _ (.image id') (.image id)
    by_cases hid : id' = id
    · subst hid
      refine .inl ?_
      rw [hload, if_pos rfl, images, h.gone t hadv.mem id' (by rw [hhead, frame])]
      rfl
    · refine h.agree_kept hadv ?_ (by rw [images]) (fun hf => ?_) (by rw [frame]; simp)
      · rw [hload, if_neg fun heq => hid (Obj.image.inj heq).symm]
      · exact hid (by simpa using frame.symm.trans hf)

theorem images_child (hadv : Pool.Advance exec s i o s' t f k out) {u : Thread}
    (hu : u ∈ out.children) {g : Frame} (hg : g ∈ u.frames) : g.images = false := by
  obtain ⟨id, q, -, rfl⟩ := children_reaper hadv hu
  rw [List.mem_singleton.mp hg]
  rfl

/-- The image calls stay at their frames. -/
theorem imageTasks_advance (h : ∀ t ∈ s.tasks, ImageTask t.tag t.frames)
    (hadv : Pool.Advance exec s i o s' t f k out) :
    ∀ t ∈ s'.tasks, ImageTask t.tag t.frames := by
  refine hadv.forall_tasks h (fun _ => ?_) (fun _ => id) fun _ u hu => .other _ _ fun g hg =>
    images_child hadv hu hg
  rw [Task.resume_tag]
  exact ((h t hadv.mem).step hadv.frames hadv.exec).task

theorem Checked.advance (h : Checked s) (hguard : guardsUse s (.step i o))
    (hadv : Pool.Advance exec s i o s' t f k out) : Checked s' := by
  refine ⟨imageTasks_advance h.tasks hadv, fun u hu ref id htag hid => ?_⟩
  rcases hadv.mem_cases hu with rfl | hu | hu
  · have hlead := (h.tasks t hadv.mem).step hadv.frames hadv.exec
    obtain ⟨ref', htag', hw, hfree⟩ := hlead.checked id hid
    rw [Task.resume_tag, htag'] at htag
    cases htag
    rw [hw]
    exact userOf_eq_none.mp hfree
  · exact h.unused_advance hguard hadv hu htag hid
  · cases images_child hadv hu (List.mem_of_mem_head? hid)

/-- **A step keeps what the image calls hold to.** -/
theorem Held.advance (h : Held s) (hfiles : filesSucceed s (.step i o))
    (hown : ownsTemp Obj.isImage s (.step i o)) (hapart : imagesApart s (.step i o))
    (hadv : Pool.Advance exec s i o s' t f k out) : Held s' := by
  have hlead := (h.tasks t hadv.mem).step hadv.frames hadv.exec
  refine ⟨imageTasks_advance h.tasks hadv, fun u hu r hr => ?_, fun u hu id hid => ?_,
    fun id => h.agree_advance hfiles hown hadv id⟩
  · rcases hadv.mem_cases hu with rfl | hu | hu
    · obtain ⟨p, n, strict, frame, disk⟩ := hlead.stored r hr
      rw [@Disk.load_rename _ _ (.image r.id) _ _ _ (ownsTemp_read hown hadv frame rfl) disk, if_pos rfl]
      rfl
    · exact h.stored_advance hapart hown hadv hu hr
    · cases images_child hadv hu (List.mem_of_mem_head? hr)
  · rcases hadv.mem_cases hu with rfl | hu | hu
    · obtain ⟨-, hc⟩ := exec_crit_eq_some.mp (hlead.dropped id hid ▸ hadv.exec)
      obtain ⟨hw, -⟩ := Prod.mk.inj hc
      rw [← hw]
      exact Std.ExtTreeMap.getElem?_erase_self
    · exact h.gone_advance hapart hadv hu hid
    · cases images_child hadv hu (List.mem_of_mem_head? hid)

/-- What a call begins with. -/
theorem head?_frames_call {c : Call} {g : Frame} (hg : c.frames.head? = some g) :
    (∀ r, g ≠ .crit (.insertImage r)) ∧ (∀ id, g ≠ .file (.unlink (.image id))) ∧
      ∀ id, g ≠ .crit (.dropImage id) := by
  cases c <;> obtain rfl := Option.some.inj hg <;> simp

theorem imageTasks_start (h : ∀ t ∈ s.tasks, ImageTask t.tag t.frames) (c : Call) :
    ∀ t ∈ (s.start (.call c) c.frames).tasks, ImageTask t.tag t.frames := by
  intro u hu
  rcases Pool.mem_tasks_start.mp hu with hu | rfl
  · exact h u hu
  · exact .invoke c

theorem Checked.step {l : Label} (h : Checked s) (hl : noRestart l) (hguard : guardsUse s l)
    (hstep : step s l = some s') : Checked s' := by
  cases l with
  | invoke c =>
    obtain rfl := Option.some.inj hstep
    refine ⟨imageTasks_start h.tasks c, fun u hu ref id htag hid => ?_⟩
    rcases Pool.mem_tasks_start.mp hu with hu | rfl
    · exact h.unused u hu ref id htag hid
    · exact absurd rfl ((head?_frames_call hid).2.2 id)
  | step i o =>
    obtain ⟨t, f, k, out, hadv⟩ := Pool.advance_eq_some hstep
    exact h.advance hguard hadv
  | exit q st =>
    obtain ⟨p, -, rfl⟩ := step_exit hstep
    exact ⟨h.tasks, h.unused⟩
  | foreign pid =>
    obtain ⟨-, -, rfl⟩ := step_foreign hstep
    exact ⟨h.tasks, h.unused⟩
  | restart rs => cases hl

theorem Held.step {l : Label} (h : Held s) (hl : noRestart l) (hfiles : filesSucceed s l)
    (hown : ownsTemp Obj.isImage s l) (hapart : imagesApart s l)
    (hstep : step s l = some s') : Held s' := by
  cases l with
  | invoke c =>
    obtain rfl := Option.some.inj hstep
    refine ⟨imageTasks_start h.tasks c, fun u hu r hr => ?_, fun u hu id hid => ?_, fun id => ?_⟩
    · rcases Pool.mem_tasks_start.mp hu with hu | rfl
      · exact h.stored u hu r hr
      · exact absurd rfl ((head?_frames_call hr).1 r)
    · rcases Pool.mem_tasks_start.mp hu with hu | rfl
      · exact h.gone u hu id hid
      · exact absurd rfl ((head?_frames_call hid).2.1 id)
    · rcases h.agree id with hagree | ⟨u, hu, howes⟩
      · exact .inl hagree
      · exact .inr ⟨u, Pool.mem_tasks_start.mpr (.inl hu), howes⟩
  | step i o =>
    obtain ⟨t, f, k, out, hadv⟩ := Pool.advance_eq_some hstep
    exact h.advance hfiles hown hapart hadv
  | exit q st =>
    obtain ⟨p, -, rfl⟩ := step_exit hstep
    exact ⟨h.tasks, h.stored, h.gone, h.agree⟩
  | foreign pid =>
    obtain ⟨-, -, rfl⟩ := step_foreign hstep
    exact ⟨h.tasks, h.stored, h.gone, h.agree⟩
  | restart rs => cases hl

end

theorem Checked.init (listener : Nat) (blake3 : String → String) :
    Checked (init listener blake3) :=
  ⟨fun _ h => absurd h List.not_mem_nil, fun _ h => absurd h List.not_mem_nil⟩

theorem Held.init (listener : Nat) (blake3 : String → String) : Held (init listener blake3) :=
  ⟨fun _ h => absurd h List.not_mem_nil, fun _ h => absurd h List.not_mem_nil,
    fun _ h => absurd h List.not_mem_nil, fun id => .inl (by simp [Fake.init, Cache.empty])⟩

/-- A removal drops no image that a container uses which has not exited. -/
def DropsUnused (s : State) : Prop :=
  ∀ i t ref id, s.tasks[i]? = some t → t.tag = .call (.removeImage ref) →
    s.top i = some (.crit (.dropImage id)) →
    ∀ c ∈ s.shared.cache.containers.values, c.config.imageRef = ref → c.state = .exited

/-- At quiescence the images in the cache are those on disk. -/
def ImagesStored (s : State) : Prop :=
  NoCall s → ∀ id, s.shared.cache.images[id]?.isSome ↔ (s.shared.disk.load (.image id)).isSome

/-- What the image calls are to hold to. -/
structure Atomic (s : State) : Prop where
  checked : DropsUnused s
  agree : ImagesStored s

/-- **Removal is atomic with its check** in every run in which no container that has not exited
enters the cache under a reference while a removal of it is between its check and its drop. **Cache
and files agree** on the images in every run in which the file operations succeed and no pull of an
image overlaps a removal of it. -/
theorem removal_atomic {listener : Nat} {blake3 : String → String} {ls : List Label} {s : State}
    (hls : ∀ l ∈ ls, noRestart l) (hrun : run step (init listener blake3) ls = some s) :
    (Along step (fun s l => guardsUse s l) (init listener blake3) ls → DropsUnused s) ∧
      (Along step (fun s l => filesSucceed s l) (init listener blake3) ls →
        Along step (fun s l => ownsTemp Obj.isImage s l) (init listener blake3) ls →
        Along step (fun s l => imagesApart s l) (init listener blake3) ls → ImagesStored s) := by
  constructor
  · intro hguard i t ref id ht htag htop c hc href
    have h : Checked s := by
      refine invariant_run (I := Checked) ?_ (.init listener blake3) (hguard.and_labels hls) hrun
      rintro s l s' h ⟨hl, hg⟩ hstep
      exact h.step hl hg hstep
    obtain ⟨cid, hcid⟩ := mem_values.mp hc
    refine h.unused t (List.mem_of_getElem? ht) ref id htag ?_ cid c hcid href
    rwa [Pool.top, Pool.stack, ht, Option.elim_some] at htop
  · intro hfiles hown hapart hcalls id
    have h : Held s := by
      refine invariant_run (I := Held) ?_ (.init listener blake3)
        ((hfiles.and (hown.and hapart)).and_labels hls) hrun
      rintro s l s' h ⟨hl, hf, ho, ha⟩ hstep
      exact h.step hl hf ho ha hstep
    rcases h.agree id with hagree | ⟨t, ht, howes⟩
    · rw [hagree]
    · exfalso
      have htask := h.tasks t ht
      generalize hfs : t.frames = fs at htask howes
      generalize htag : t.tag = tag at htask
      have hidle (hcall : tag.isCall) : fs = [] := by
        rw [← hfs]
        exact hcalls t ht (htag ▸ hcall)
      cases htask with
      | other _ _ hnot =>
        rcases howes with howes | ⟨r, -, howes⟩
        · cases hnot _ (List.mem_of_mem_head? howes)
        · cases hnot _ (List.mem_of_mem_head? howes)
      | _ => cases hidle rfl

theorem DropsUnused.dropping {s : State} (h : DropsUnused s) {i : Nat} {t : Thread} {ref : String}
    (ht : s.tasks[i]? = some t) (hdropping : dropping ref t) {c : ContainerRecord}
    (hc : c ∈ s.shared.cache.containers.values) (href : c.config.imageRef = ref) :
    c.state = .exited := by
  obtain ⟨htag, id, hhead⟩ := dropping_iff.mp hdropping
  refine h i t ref id ht htag ?_ c hc href
  rwa [Pool.top, Pool.stack, ht, Option.elim_some]

/-- A container is started and its process ends; its image is pulled, and removed up to the drop. -/
def droppingRun : List Label :=
  podRun ++ Label.invoke (.startContainer podContainer) :: steps 2 14 ++ Label.exit 0 (.exited 3) ::
    steps 3 6 ++ Label.invoke (.pullImage "img") :: steps 4 5 ++
    Label.invoke (.removeImage "img") :: steps 5 2

theorem removal_atomic_droppingRun : ∃ s t, run step (init 1 id) droppingRun = some s ∧
    s.tasks[5]? = some t ∧ dropping "img" t ∧
    (∀ c ∈ s.shared.cache.containers.values, c.config.imageRef = "img" → c.state = .exited) ∧
    ImagesStored s := by
  have hrun : (run step (init 1 id) droppingRun).any fun s =>
      s.tasks[5]?.any fun t => dropping "img" t := by decide
  obtain ⟨s, hs, hend⟩ := (Option.any_eq_true _ _).mp hrun
  obtain ⟨t, ht, hdropping⟩ := (Option.any_eq_true _ _).mp hend
  have hatomic := removal_atomic (by decide) hs
  have hunused := hatomic.1 (by decide)
  exact ⟨s, t, hs, ht, hdropping, fun c hc href => hunused.dropping ht hdropping hc href,
    hatomic.2 (by decide) (by decide) (by decide)⟩

/-- A container is created between the check and the drop. -/
def createdBetween : List Label :=
  .invoke (.runSandbox { name := "pod" }) :: steps 0 5 ++
    Label.invoke (.pullImage "img") :: steps 1 5 ++
    .invoke (.removeImage "img") :: steps 2 2 ++
    .invoke (.createContainer podSandbox { name := "main", imageRef := "img" }) :: steps 3 6

/-- **An image that is dropped while it is in use.** -/
theorem dropped_in_use :
    ¬ ∀ (listener : Nat) (blake3 : String → String) (ls : List Label) (s : State),
      (∀ l ∈ ls, noRestart l) →
      Along step (fun s l => filesSucceed s l) (init listener blake3) ls →
      run step (init listener blake3) ls = some s → Atomic s := by
  intro hall
  have hrun : (run step (init 1 id) createdBetween).any fun s =>
      (s.tasks[2]?.any fun t => dropping "img" t) ∧
        s.shared.cache.containers.values.map (fun c => (c.config.imageRef, c.state)) =
          [("img", .created)] := by decide
  obtain ⟨s, hs, hend⟩ := (Option.any_eq_true _ _).mp hrun
  obtain ⟨hdropping, hcontainers⟩ := of_decide_eq_true hend
  obtain ⟨t, ht, hdropping⟩ := (Option.any_eq_true _ _).mp hdropping
  obtain ⟨c, hvalues, hc⟩ := List.map_eq_singleton_iff.mp hcontainers
  obtain ⟨himage, hstate⟩ := Prod.mk.inj hc
  have hexited :=
    (hall 1 id createdBetween s (by decide) (by decide) hs).checked.dropping ht hdropping
    (by rw [hvalues]; exact List.mem_cons_self) himage
  rw [hstate] at hexited
  cases hexited

/-- An image is removed; before its file is unlinked it is pulled again. -/
def overlapping : List Label :=
  .invoke (.pullImage "img") :: steps 0 5 ++ Label.invoke (.removeImage "img") :: steps 1 3 ++
    .invoke (.pullImage "img") :: steps 2 5 ++ steps 1 2

/-- **An image that is only in the cache**: a pull overlaps a removal. -/
theorem pull_overlaps : ∃ s, run step (init 1 id) overlapping = some s ∧ NoCall s ∧ ¬ Atomic s := by
  have hrun : (run step (init 1 id) overlapping).any fun s => NoCall s ∧
      s.shared.cache.images["sha-img"]?.isSome ∧
        (s.shared.disk.load (.image "sha-img")).isSome = false := by decide
  obtain ⟨s, hs, hend⟩ := (Option.any_eq_true _ _).mp hrun
  obtain ⟨hcalls, hcached, hdisk⟩ := of_decide_eq_true hend
  refine ⟨s, hs, hcalls, fun hatomic => ?_⟩
  rw [(hatomic.agree hcalls "sha-img").mp hcached] at hdisk
  cases hdisk

end LightrCri.Fake

import LightrCri.Fake.Alone
import LightrCri.Fake.Effects
import LightrCri.Fake.Ledger
import LightrCri.Foundations.Values

/-!
# The image plane

Only `pull_image` puts an image into the cache, and what it puts there is the record it makes of the
reference, under the id of that record (`Pulled`, over every run of the machine): so an image is
found by its reference alone (`imageNamed_eq_some`). `remove_image`, executed alone, finds no image
of the name and leaves everything as it is, or refuses, or drops the image (`removeImage_returns`),
and it always comes to one of these (`exists_returns_removeImage`).
-/

namespace LightrCri.Fake

open Backend Foundations

/-- The image that `image_status` and `remove_image` find. -/
def Cache.imageNamed (c : Cache) (ref : String) : Option ImageDiskRecord :=
  c.images.values.find? fun r => r.refName = ref

/-- The container for which `remove_image` refuses. -/
def Cache.userOf (c : Cache) (ref : String) : Option ContainerRecord :=
  c.containers.values.find? fun r => r.config.imageRef = ref ∧ r.state ≠ .exited

/-! ## What one step does to the images -/

inductive ImageStep (f : Frame) (w w' : World) : Prop
  | same (images : w'.cache.images = w.cache.images)
  | pulled (r) (frame : f = .crit (.insertImage r))
    (images : w'.cache.images = w.cache.images.insert r.id r)
  | dropped (id) (frame : f = .crit (.dropImage id))
    (images : w'.cache.images = w.cache.images.erase id)

variable {self n : Nat} {o : Oracle} {f : Frame} {w w' : World} {out : Out}

theorem exec_image (hex : exec self n o f w = some (w', out)) :
    ImageStep f w w' ∧ w'.blake3 = w.blake3 := by
  cases f with
  | crit c =>
    obtain ⟨-, hex⟩ := exec_crit_eq_some.mp hex
    cases c with
    | insertImage r =>
      obtain ⟨rfl, -⟩ := Prod.mk.inj hex
      exact ⟨.pulled r rfl rfl, rfl⟩
    | dropImage id =>
      obtain ⟨rfl, -⟩ := Prod.mk.inj hex
      exact ⟨.dropped id rfl rfl, rfl⟩
    | _ =>
      simp only [Crit.exec] at hex
      repeat' split at hex
      all_goals
        obtain ⟨rfl, -⟩ := Prod.mk.inj hex
        exact ⟨.same rfl, rfl⟩
  | file g =>
    obtain ⟨rfl, -⟩ := exec_file_eq_some.mp hex
    rw [g.exec_eq]
    exact ⟨.same rfl, rfl⟩
  | sys s =>
    cases s <;> simp only [exec_sys, Sys.exec] at hex <;> (repeat' split at hex)
    all_goals first
      | (obtain ⟨rfl, -⟩ := Prod.mk.inj (Option.some.inj hex)
         exact ⟨.same rfl, rfl⟩)
      | cases hex
  | unlock | ret v | fail e =>
    obtain ⟨rfl, -⟩ := Prod.mk.inj (Option.some.inj hex)
    exact ⟨.same rfl, rfl⟩

/-- Only a pull leads to an insertion. -/
theorem exec_pushes_insertImage (hex : exec self n o f w = some (w', out)) {r : ImageDiskRecord}
    (hr : .crit (.insertImage r) ∈ out.pushed) : ∃ ref, f = .sys (.pullImage ref) := by
  rcases exec_pushes hex with h | h
  · rw [h] at hr
    cases hr
  · generalize out.pushed = fs at h hr
    cases h with
    | pullImage ref r' v => exact ⟨ref, rfl⟩
    | collectContainers id ids =>
      exact absurd rfl (forall_mem_collect (P := fun g => g ≠ .crit (.insertImage r)) (by simp)
        (by simp) (by simp) _ hr)
    | _ => simp at hr

/-- The image that is going to be inserted is made of a reference. -/
theorem exec_insertImage (hex : exec self n o f w = some (w', out)) {r : ImageDiskRecord}
    (hr : .crit (.insertImage r) ∈ out.pushed) : r = imageRecord w.blake3 r.refName := by
  obtain ⟨ref, rfl⟩ := exec_pushes_insertImage hex hr
  simp only [exec_sys, Sys.exec] at hex
  split at hex
  · obtain ⟨-, rfl⟩ := Prod.mk.inj (Option.some.inj hex)
    cases hr
  · obtain ⟨-, rfl⟩ := Prod.mk.inj (Option.some.inj hex)
    simp only [Outcome.pushed, List.mem_cons, Frame.crit.injEq, Crit.insertImage.injEq,
      reduceCtorEq, List.not_mem_nil, or_false, false_or] at hr
    rw [hr]
    rfl

/-! ## The images of a run -/

/-- Every image, in the cache or about to be, is the record made of its reference. -/
structure Pulled (blake3 : String → String) (s : State) : Prop where
  digest : s.shared.blake3 = blake3
  images : ∀ id r, s.shared.cache.images[id]? = some r →
    id = r.id ∧ r = imageRecord blake3 r.refName
  pending : ∀ t ∈ s.tasks, ∀ r, .crit (.insertImage r) ∈ t.frames →
    r = imageRecord blake3 r.refName

variable {blake3 : String → String}

theorem Pulled.advance {s s' : State} {i : Nat} {t : Thread} {k : List Frame} (h : Pulled blake3 s)
    (hadv : Pool.Advance exec s i o s' t f k out) : Pulled blake3 s' := by
  obtain ⟨himage, hblake⟩ := exec_image hadv.exec
  refine ⟨hblake.trans h.digest, fun id r hr => ?_, ?_⟩
  · cases himage with
    | same images => exact h.images id r (images ▸ hr)
    | pulled r' frame images =>
      rw [images, Std.ExtTreeMap.getElem?_insert] at hr
      split at hr
      · rename_i hid
        obtain rfl := Option.some.inj hr
        refine ⟨(Std.LawfulEqCmp.eq_of_compare hid).symm, h.pending t hadv.mem r' ?_⟩
        rw [hadv.frames, frame]
        exact List.mem_cons_self
      · exact h.images id r hr
    | dropped id' frame images =>
      rw [images, Std.ExtTreeMap.getElem?_erase] at hr
      split at hr
      · cases hr
      · exact h.images id r hr
  · refine hadv.forall_tasks h.pending (fun hown r hr => ?_) (fun _ => id) fun _ u hu r hr => ?_
    · rcases Task.mem_resume hr with hr | hr
      · rw [← h.digest]
        exact exec_insertImage hadv.exec hr
      · refine hown r ?_
        rw [hadv.frames]
        exact List.mem_cons_of_mem _ hr
    · obtain ⟨id, q, -, rfl⟩ := children_reaper hadv hu
      cases List.mem_singleton.mp hr

theorem insertImage_notMem_callFrames (c : Call) (r : ImageDiskRecord) :
    .crit (.insertImage r) ∉ c.frames := by
  cases c <;> simp [Call.frames]

theorem Pulled.step {s s' : State} {l : Label} (h : Pulled blake3 s) (hl : noRestart l)
    (hstep : step s l = some s') : Pulled blake3 s' := by
  cases l with
  | invoke c =>
    obtain rfl := Option.some.inj hstep
    refine ⟨h.digest, h.images, fun u hu r hr => ?_⟩
    rcases Pool.mem_tasks_start.mp hu with hu | rfl
    · exact h.pending u hu r hr
    · exact absurd hr (insertImage_notMem_callFrames c r)
  | step i o =>
    obtain ⟨t, f, k, out, hadv⟩ := Pool.advance_eq_some hstep
    exact h.advance hadv
  | exit q st =>
    obtain ⟨p, -, rfl⟩ := step_exit hstep
    exact ⟨h.digest, h.images, h.pending⟩
  | foreign pid =>
    obtain ⟨-, -, rfl⟩ := step_foreign hstep
    exact ⟨h.digest, h.images, h.pending⟩
  | restart rs => cases hl

theorem Pulled.init (listener : Nat) (blake3 : String → String) :
    Pulled blake3 (init listener blake3) :=
  ⟨rfl, fun id r hr => by simp [Fake.init, Cache.empty] at hr,
    fun _ ht => absurd ht List.not_mem_nil⟩

theorem pulled_run {listener : Nat} {ls : List Label} {s : State} (hls : ∀ l ∈ ls, noRestart l)
    (hrun : run step (init listener blake3) ls = some s) : Pulled blake3 s :=
  invariant_run (P := fun _ l => noRestart l) (fun _ _ _ h hl hstep => h.step hl hstep)
    (.init listener blake3) (Along.of_labels hls) hrun

variable {s : State}

theorem Pulled.mem_images (h : Pulled blake3 s) {r : ImageDiskRecord}
    (hr : r ∈ s.shared.cache.images.values) :
    s.shared.cache.images[r.id]? = some r ∧ r = imageRecord blake3 r.refName := by
  obtain ⟨id, hid⟩ := mem_values.mp hr
  obtain ⟨rfl, hrec⟩ := h.images id r hid
  exact ⟨hid, hrec⟩

/-- There is one image of a reference. -/
theorem Pulled.unique (h : Pulled blake3 s) {r r' : ImageDiskRecord}
    (hr : r ∈ s.shared.cache.images.values) (hr' : r' ∈ s.shared.cache.images.values)
    (href : r.refName = r'.refName) : r = r' := by
  rw [(h.mem_images hr).2, (h.mem_images hr').2, href]

theorem Cache.imageNamed_mem {c : Cache} {ref : String} {r : ImageDiskRecord}
    (h : c.imageNamed ref = some r) : r ∈ c.images.values ∧ r.refName = ref := by
  unfold Cache.imageNamed at h
  exact ⟨List.mem_of_find?_eq_some h, by simpa using List.find?_some h⟩

theorem Pulled.imageNamed_eq_some (h : Pulled blake3 s) {ref : String} {r : ImageDiskRecord} :
    s.shared.cache.imageNamed ref = some r ↔
      r ∈ s.shared.cache.images.values ∧ r.refName = ref := by
  refine ⟨Cache.imageNamed_mem, ?_⟩
  rintro ⟨hr, rfl⟩
  cases hfind : s.shared.cache.imageNamed r.refName with
  | none =>
    have hnot := List.find?_eq_none.mp hfind r hr
    exact absurd (decide_eq_true rfl) hnot
  | some r' =>
    obtain ⟨hr', hname⟩ := Cache.imageNamed_mem hfind
    rw [h.unique hr' hr hname]

/-! ## `remove_image` -/

theorem exec_findImage (ref : String) : (Crit.findImage ref).exec self o w =
    (w, .next ((w.cache.imageNamed ref).elim [] fun r => [.crit (.checkImageInUse ref r.id)])) := by
  rw [Crit.exec.eq_def, Cache.imageNamed]
  dsimp only
  split <;> rename_i hfind <;> rw [hfind] <;> rfl

theorem exec_checkImageInUse (ref imgId : String) :
    (Crit.checkImageInUse ref imgId).exec self o w =
      (w, (w.cache.userOf ref).elim (.next [.crit (.dropImage imgId)]) fun c =>
        .halt (.error (.inUse ("image " ++ ref ++ " referenced by container " ++ c.id.val)))) := by
  rw [Crit.exec.eq_def, Cache.userOf]
  dsimp only
  split <;> rename_i hfind <;> rw [hfind] <;> rfl

/-- **What `remove_image` does**: it finds no image of the name, or refuses, or drops the image. -/
theorem removeImage_returns {s s' : State} {ref : String} {tr : List (Frame × Oracle)} {r : Result}
    (h : Returns s (.removeImage ref) tr s' r) :
    (s.shared.cache.imageNamed ref = none ∧ s'.shared = s.shared ∧ r = .ok .unit) ∨
      ∃ img, s.shared.cache.imageNamed ref = some img ∧
        ((∃ c, s.shared.cache.userOf ref = some c ∧ s'.shared = s.shared ∧
            r = .error (.inUse ("image " ++ ref ++ " referenced by container " ++ c.id.val))) ∨
          s.shared.cache.userOf ref = none ∧
            s'.shared.cache = s.shared.cache.eraseImage img.id ∧ r = .ok .unit ∧
            ∃ o, (.file (.unlink (.image img.id)), o) ∈ tr ∧ s'.shared.disk =
              if o.fault = none then
                s.shared.disk.unlink (Obj.image img.id).subdir (Obj.image img.id).file
              else s.shared.disk) := by
  obtain ⟨cs, -, hperf⟩ := h
  obtain ⟨o, tr, rfl, -, hfind⟩ := performs_crit hperf
  rw [exec_findImage] at hfind
  cases himg : s.shared.cache.imageNamed ref with
  | none =>
    rw [himg] at hfind
    obtain ⟨fs, hfs, hperf⟩ | ⟨hhalt, -⟩ := hfind
    · cases hfs
      obtain ⟨o', -, hw, -, hr⟩ := performs_ret hperf
      exact .inl ⟨rfl, hw, hr⟩
    · cases hhalt
  | some img =>
    rw [himg] at hfind
    obtain ⟨fs, hfs, hperf⟩ | ⟨hhalt, -⟩ := hfind
    · cases hfs
      refine .inr ⟨img, rfl, ?_⟩
      obtain ⟨o', tr, rfl, -, hcheck⟩ := performs_crit hperf
      rw [exec_checkImageInUse] at hcheck
      dsimp only at hcheck
      cases huser : s.shared.cache.userOf ref with
      | some c =>
        rw [huser] at hcheck
        obtain ⟨fs, hfs, -⟩ | ⟨hhalt, hw, -⟩ := hcheck
        · cases hfs
        · cases hhalt
          exact .inl ⟨c, rfl, hw, rfl⟩
      | none =>
        rw [huser] at hcheck
        obtain ⟨fs, hfs, hperf⟩ | ⟨hhalt, -⟩ := hcheck
        · cases hfs
          obtain ⟨o₁, tr, rfl, -, ⟨fs, hfs, hperf⟩ | ⟨hhalt, -⟩⟩ := performs_crit hperf
          · cases hfs
            obtain ⟨o₂, tr, rfl, hrest⟩ := performs_unlink hperf
            obtain ⟨o₃, -, hw, -, hr⟩ := performs_ret hrest
            refine .inr ⟨rfl, by rw [hw]; rfl, hr, o₂, by simp, by rw [hw]; rfl⟩
          · cases hhalt
        · cases hhalt
    · cases hhalt

/-- `remove_image` comes to an end. -/
theorem exists_returns_removeImage {s : State} (hlock : s.shared.lock = none) (ref : String) :
    ∃ tr s' r, Returns s (.removeImage ref) tr s' r := by
  have hcrit {c : Crit} {w w₁ : World} {out : Out} (hw : w.lock = none)
      (hc : c.exec s.tasks.length {} w = (w₁, out)) :
      exec s.tasks.length (s.tasks.length + 1) {} (.crit c) w = some (w₁, out) :=
    exec_crit_eq_some.mpr ⟨hw, hc⟩
  suffices hperf : ∃ tr w' r, Performs exec s.tasks.length (s.tasks.length + 1) s.shared
      (Call.removeImage ref).frames tr w' [] r by
    obtain ⟨tr, w', r, hperf⟩ := hperf
    exact ⟨tr, ⟨w', s.tasks ++ [⟨.call (.removeImage ref), [], some r⟩]⟩, r, [], rfl, hperf⟩
  have hfind := @exec_findImage s.tasks.length {} s.shared ref
  cases himg : s.shared.cache.imageNamed ref with
  | none =>
    rw [himg] at hfind
    exact ⟨_, _, _, .next (o := {}) (hcrit hlock hfind) (.halt (o := {}) (exec_ret _))⟩
  | some img =>
    rw [himg] at hfind
    have hcheck := @exec_checkImageInUse s.tasks.length {} s.shared ref img.id
    cases huser : s.shared.cache.userOf ref with
    | some c =>
      rw [huser] at hcheck
      exact ⟨_, _, _, .next (o := {}) (hcrit hlock hfind) (.halt (o := {}) (hcrit hlock hcheck))⟩
    | none =>
      rw [huser] at hcheck
      have hdrop := hcrit (c := .dropImage img.id) hlock rfl
      exact ⟨_, _, _, .next (o := {}) (hcrit hlock hfind) (.next (o := {}) (hcrit hlock hcheck)
        (.next (o := {}) hdrop (.next (o := {}) rfl (.halt (o := {}) (exec_ret _)))))⟩

end LightrCri.Fake

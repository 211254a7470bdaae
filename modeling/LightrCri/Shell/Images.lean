import LightrCri.Fake.Images

/-!
# Names of images

`ImageShell` over the fake backend. ImageStatus and RemoveImage hand the name to the backend, which
knows an image by the reference it was pulled by; ListImages also takes the id of an image and its
tagged form; PullImage answers with a name that none of them takes. `names_resolve` says for which
names the RPCs agree, over every run of the machine, and that the names an image is handed out under
never all lead to it.
-/

namespace LightrCri.Shell

open Backend Fake Foundations

/-- What follows the last slash. -/
def lastSegment (refName : String) : List Char :=
  (refName.toList.reverse.takeWhile fun c => c ≠ '/').reverse

/-- The tagged form of a reference: `:latest` is added when its last segment has no tag. -/
def tagged (refName : String) : String :=
  if ':' ∈ lastSegment refName then refName else refName ++ ":latest"

example : tagged "registry:5000/team/img" = "registry:5000/team/img:latest" := by decide

/-- `Image` of the protocol, but for `spec`, which is never set. -/
structure Image where
  id : String
  repoTags : List String
  repoDigests : List String
  size : Nat
  uid : Option Int := none
  username : String := ""
  pinned : Bool := false
  deriving DecidableEq, Repr

def recordToProto (r : ImageDiskRecord) : Image where
  id := r.id
  repoTags := [tagged r.refName]
  repoDigests := [r.id]
  size := r.size

/-! ## The RPCs -/

def pullImage (image : Option String) : Call := .pullImage (image.getD "")

/-- The `image_ref` of the answer to PullImage. -/
def imageRef (p : PulledImage) : String := "blake3:" ++ p.rootHex

def imageStatus (c : Cache) (image : Option String) : Option Image :=
  (c.imageNamed (image.getD "")).map recordToProto

/-- The image goes by the name in ListImages. -/
def Goes (needle : String) (r : ImageDiskRecord) : Prop :=
  r.refName = needle ∨ r.id = needle ∨ tagged r.refName = needle

instance (needle : String) (r : ImageDiskRecord) : Decidable (Goes needle r) :=
  inferInstanceAs (Decidable (_ ∨ _ ∨ _))

def listImages (c : Cache) (filter : Option String) : List Image :=
  match filter.filter fun n => n ≠ "" with
  | some needle => (c.images.values.filter fun r => Goes needle r).map recordToProto
  | none => c.images.values.map recordToProto

def removeImage (image : Option String) : Call := .removeImage (image.getD "")

/-- The names the shell gives for an image: its id, its tags, and the answer to PullImage. -/
def handedOut (blake3 : String → String) (r : ImageDiskRecord) : List String :=
  (recordToProto r).id :: (recordToProto r).repoTags ++
    [imageRef ⟨r.refName, blake3 r.refName, r.size⟩]

/-! ## Agreement -/

/-- ImageStatus and ListImages return the same. -/
def Agrees (s : State) (n : String) : Prop :=
  listImages s.shared.cache (some n) = (imageStatus s.shared.cache (some n)).toList

/-- Once RemoveImage has returned Ok, ListImages returns nothing. -/
def Removes (s : State) (n : String) : Prop :=
  ∀ tr s', Returns s (removeImage (some n)) tr s' (.ok .unit) →
    listImages s'.shared.cache (some n) = []

/-- The name leads to the image in all three RPCs. -/
structure LeadsTo (s : State) (n : String) (r : ImageDiskRecord) : Prop where
  status : imageStatus s.shared.cache (some n) = some (recordToProto r)
  list : listImages s.shared.cache (some n) = [recordToProto r]
  remove : ∀ tr s' res, Returns s (removeImage (some n)) tr s' res →
    (res = .ok .unit ∧ s'.shared.cache = s.shared.cache.eraseImage r.id) ∨
      ∃ m, res = .error (.inUse m)

/-- RemoveImage refuses the name. -/
def InUse (c : Cache) (n : String) : Prop := (c.imageNamed n).isSome ∧ (c.userOf n).isSome

/-- An image that goes by the name was pulled by it. -/
def Direct (c : Cache) (n : String) : Prop := ∀ r ∈ c.images.values, Goes n r → r.refName = n

theorem listImages_some {c : Cache} {n : String} (hn : n ≠ "") :
    listImages c (some n) = (c.images.values.filter fun r => Goes n r).map recordToProto := by
  rw [listImages, Option.filter_some_pos (by simpa using hn)]

theorem listImages_eq_nil {c : Cache} {n : String} (hn : n ≠ "") :
    listImages c (some n) = [] ↔ ∀ r ∈ c.images.values, ¬ Goes n r := by
  simp [listImages_some hn, List.filter_eq_nil_iff]

section

variable {blake3 : String → String} {s : State} {n : String}

/-- An image is told from the others by what the shell shows of it. -/
theorem recordToProto_injOn (h : Pulled blake3 s) {r r' : ImageDiskRecord}
    (hr : r ∈ s.shared.cache.images.values) (hr' : r' ∈ s.shared.cache.images.values)
    (heq : recordToProto r = recordToProto r') : r = r' := by
  have hid : r.id = r'.id := congrArg Image.id heq
  have hget := (h.mem_images hr).1
  rw [hid, (h.mem_images hr').1] at hget
  exact (Option.some.inj hget).symm

/-- Where only the image pulled by the name goes by it, the list is what ImageStatus returns. -/
theorem filter_goes (h : Pulled blake3 s) (hdirect : Direct s.shared.cache n) :
    (s.shared.cache.images.values.filter fun r => Goes n r) =
      (s.shared.cache.imageNamed n).toList := by
  have hgoes : (s.shared.cache.images.values.filter fun r => Goes n r) =
      s.shared.cache.images.values.filter fun r => r.refName = n :=
    List.filter_congr fun r hr => decide_eq_decide.mpr ⟨hdirect r hr, .inl⟩
  rw [hgoes, Cache.imageNamed]
  refine filter_eq_find? ((pairwise_values fun id r hr => (h.images id r hr).1).imp_of_mem ?_)
  intro r r' hr hr' hne hboth
  obtain ⟨hname, hname'⟩ : r.refName = n ∧ r'.refName = n := by simpa using hboth
  exact hne (congrArg ImageDiskRecord.id (h.unique hr hr' (hname.trans hname'.symm)))

theorem agrees_iff (h : Pulled blake3 s) (hn : n ≠ "") :
    Agrees s n ↔ Direct s.shared.cache n := by
  rw [Agrees, listImages_some hn, imageStatus, Option.getD_some]
  constructor
  · intro hagree r hr hgoes
    have hmem : recordToProto r ∈ ((s.shared.cache.imageNamed n).map recordToProto).toList := by
      rw [← hagree]
      exact List.mem_map_of_mem (List.mem_filter.mpr ⟨hr, decide_eq_true hgoes⟩)
    obtain ⟨r', hfind, heq⟩ := Option.map_eq_some_iff.mp (Option.mem_toList.mp hmem)
    obtain ⟨hr', hname⟩ := Cache.imageNamed_mem hfind
    rw [← recordToProto_injOn h hr' hr heq, hname]
  · intro hdirect
    rw [filter_goes h hdirect]
    cases s.shared.cache.imageNamed n <;> rfl

theorem mem_values_eraseImage (h : Pulled blake3 s) {r r' : ImageDiskRecord} :
    r' ∈ (s.shared.cache.eraseImage r.id).images.values ↔
      r' ∈ s.shared.cache.images.values ∧ r'.id ≠ r.id := by
  rw [mem_values, mem_values]
  simp only [Cache.eraseImage, Std.ExtTreeMap.getElem?_erase]
  constructor
  · rintro ⟨id, hid⟩
    split at hid
    · cases hid
    · rename_i hne
      refine ⟨⟨id, hid⟩, fun heq => hne ?_⟩
      rw [(h.images id r' hid).1, heq]
      exact Std.ReflCmp.compare_self
  · rintro ⟨⟨id, hid⟩, hne⟩
    refine ⟨id, ?_⟩
    rw [if_neg, hid]
    intro heq
    exact hne ((h.images id r' hid).1.symm.trans (Std.LawfulEqCmp.eq_of_compare heq).symm)

theorem removes_iff (h : Pulled blake3 s) (hlock : s.shared.lock = none) (hn : n ≠ "") :
    Removes s n ↔ InUse s.shared.cache n ∨ Direct s.shared.cache n := by
  constructor
  · intro hremoves
    by_contra hnot
    obtain ⟨huse, hdirect⟩ := not_or.mp hnot
    obtain ⟨tr, s', res, hreturns⟩ := exists_returns_removeImage hlock n
    rcases removeImage_returns hreturns with
      ⟨-, hsame, rfl⟩ | ⟨img, himg, ⟨c, huser, -⟩ | ⟨-, hcache, rfl, -⟩⟩
    · have hnil := (listImages_eq_nil hn).mp (hremoves tr s' hreturns)
      rw [hsame] at hnil
      exact hdirect fun r hr hgoes => absurd hgoes (hnil r hr)
    · exact huse ⟨Option.isSome_iff_exists.mpr ⟨_, himg⟩, Option.isSome_iff_exists.mpr ⟨_, huser⟩⟩
    · have hnil := (listImages_eq_nil hn).mp (hremoves tr s' hreturns)
      rw [hcache] at hnil
      refine hdirect fun r hr hgoes => ?_
      by_contra hname
      refine hnil r ((mem_values_eraseImage h).mpr ⟨hr, fun hid => hname ?_⟩) hgoes
      obtain ⟨himg, hname⟩ := Cache.imageNamed_mem himg
      have hget := (h.mem_images hr).1
      rw [hid, (h.mem_images himg).1] at hget
      rw [← Option.some.inj hget, hname]
  · intro hcond tr s' hreturns
    rw [listImages_eq_nil hn]
    rcases removeImage_returns hreturns with
      ⟨hnone, hsame, -⟩ | ⟨img, himg, ⟨c, huser, -, herr⟩ | ⟨hfree, hcache, -⟩⟩
    · intro r hr hgoes
      rw [hsame] at hr
      rcases hcond with ⟨hsome, -⟩ | hdirect
      · rw [show s.shared.cache.imageNamed n = none from hnone] at hsome
        cases hsome
      · have hfind := h.imageNamed_eq_some.mpr ⟨hr, hdirect r hr hgoes⟩
        cases hnone.symm.trans hfind
    · cases herr
    · intro r hr hgoes
      rw [hcache] at hr
      obtain ⟨hr, hid⟩ := (mem_values_eraseImage h).mp hr
      rcases hcond with ⟨-, hsome⟩ | hdirect
      · rw [show s.shared.cache.userOf n = none from hfree] at hsome
        cases hsome
      · obtain ⟨himg, hname⟩ := Cache.imageNamed_mem himg
        exact hid (congrArg ImageDiskRecord.id (h.unique hr himg ((hdirect r hr hgoes).trans hname.symm)))

theorem leadsTo_iff (h : Pulled blake3 s) (hn : n ≠ "") {r : ImageDiskRecord}
    (hr : r ∈ s.shared.cache.images.values) :
    LeadsTo s n r ↔ r.refName = n ∧ Direct s.shared.cache n := by
  constructor
  · rintro ⟨hstatus, hlist, -⟩
    obtain ⟨r', hfind, heq⟩ := Option.map_eq_some_iff.mp hstatus
    obtain ⟨hr', hname⟩ := Cache.imageNamed_mem hfind
    obtain rfl := recordToProto_injOn h hr' hr heq
    exact ⟨hname, (agrees_iff h hn).mp (by rw [Agrees, hlist, hstatus]; rfl)⟩
  · rintro ⟨hname, hdirect⟩
    have hfind := h.imageNamed_eq_some.mpr ⟨hr, hname⟩
    have hstatus : imageStatus s.shared.cache (some n) = some (recordToProto r) := by
      rw [imageStatus, Option.getD_some, hfind]
      rfl
    refine ⟨hstatus, ?_, fun tr s' res hreturns => ?_⟩
    · rw [(agrees_iff h hn).mpr hdirect, hstatus]
      rfl
    · rcases removeImage_returns hreturns with
        ⟨hnone, -⟩ | ⟨img, himg, ⟨c, -, -, hres⟩ | ⟨-, hcache, hres, -⟩⟩
      · cases hnone.symm.trans hfind
      · exact .inr ⟨_, hres⟩
      · obtain rfl := Option.some.inj (himg.symm.trans hfind)
        exact .inl ⟨hres, hcache⟩

/-- The id of an image and the answer to its pull are not both its reference. -/
theorem exists_astray (h : Pulled blake3 s) {r : ImageDiskRecord}
    (hr : r ∈ s.shared.cache.images.values) :
    ∃ n ∈ handedOut blake3 r, ¬ LeadsTo s n r := by
  by_contra hall
  have hlead (n : String) (hn : n ∈ handedOut blake3 r) (hne : n ≠ "") : r.refName = n :=
    ((leadsTo_iff h hne hr).mp (by_contra fun hnot => hall ⟨n, hn, hnot⟩)).1
  have hid : r.id = "sha-" ++ String.ofList ((blake3 r.refName).toList.take 16) :=
    congrArg ImageDiskRecord.id (h.mem_images hr).2
  have hblake : imageRef ⟨r.refName, blake3 r.refName, r.size⟩ = "blake3:" ++ blake3 r.refName := rfl
  have hne (a b : String) (ha : a ≠ "") : a ++ b ≠ "" := by simp [ha]
  have h₁ := hlead r.id (by simp [handedOut, recordToProto]) (by rw [hid]; exact hne _ _ (by decide))
  have h₂ := hlead _ (List.mem_append_right _ List.mem_cons_self) (by rw [hblake]; exact hne _ _ (by decide))
  have heq := congrArg (fun a => a.toList.head?) (h₁.symm.trans h₂)
  rw [hid, hblake] at heq
  simp [String.toList_append] at heq

end

/-- **Which names the RPCs agree on.** In every state that calls lead to: ImageStatus and ListImages
agree on a name, and RemoveImage leaves nothing that ListImages shows under it, when every image
that goes by the name was pulled by it (or RemoveImage refuses); so a name leads to an image in all
three RPCs if the image was pulled by it and no other goes by it. All the names that are handed out
lead to their images only while there is no image. -/
theorem names_resolve {listener : Nat} {blake3 : String → String} {ls : List Label} {s : State}
    (hls : ∀ l ∈ ls, noRestart l) (hrun : run step (init listener blake3) ls = some s)
    (hlock : s.shared.lock = none) :
    (∀ n, n ≠ "" → (Agrees s n ↔ Direct s.shared.cache n) ∧
      (Removes s n ↔ InUse s.shared.cache n ∨ Direct s.shared.cache n) ∧
      ∀ r ∈ s.shared.cache.images.values,
        (LeadsTo s n r ↔ r.refName = n ∧ Direct s.shared.cache n)) ∧
    ((∀ n, n ≠ "" → Agrees s n ∧ Removes s n) ∧ (∀ r ∈ s.shared.cache.images.values,
        ∀ n ∈ handedOut blake3 r, LeadsTo s n r) ↔ s.shared.cache.images.values = []) := by
  have h := pulled_run hls hrun
  refine ⟨fun n hn => ⟨agrees_iff h hn, removes_iff h hlock hn, fun r hr => leadsTo_iff h hn hr⟩,
    fun hall => ?_, fun hnil => ⟨fun n hn => ?_, fun r hr => ?_⟩⟩
  · rw [List.eq_nil_iff_forall_not_mem]
    intro r hr
    obtain ⟨n, hn, hnot⟩ := exists_astray h hr
    exact hnot (hall.2 r hr n hn)
  · have hdirect : Direct s.shared.cache n := by
      intro r hr
      rw [hnil] at hr
      cases hr
    exact ⟨(agrees_iff h hn).mpr hdirect, (removes_iff h hlock hn).mpr (.inr hdirect)⟩
  · rw [hnil] at hr
    cases hr

/-- A digest of 64 hexadecimal digits. -/
def hexDigest (refName : String) : String :=
  let digits (c : Char) : List Char :=
    [Nat.digitChar (c.toNat / 16 % 16), Nat.digitChar (c.toNat % 16)]
  String.ofList ((refName.toList.flatMap digits ++ List.replicate 64 '0').take 64)

/-- An image is pulled. -/
def pullRun : List Label := .invoke (pullImage (some "img")) :: steps 0 5

theorem names_resolve_pullRun : ∃ s, run step (init 1 hexDigest) pullRun = some s ∧
    Agrees s "img" ∧ Removes s "img" := by
  have hrun : (run step (init 1 hexDigest) pullRun).any fun s => s.shared.lock = none ∧
      s.shared.cache.images.values = [imageRecord hexDigest "img"] := by decide +kernel
  obtain ⟨s, hs, hend⟩ := (Option.any_eq_true _ _).mp hrun
  obtain ⟨hlock, himages⟩ := of_decide_eq_true hend
  obtain ⟨hagree, hremove, -⟩ := (names_resolve (by decide) hs hlock).1 "img" (by decide)
  have hdirect : Direct s.shared.cache "img" := by
    intro r hr _
    rw [himages, List.mem_singleton] at hr
    rw [hr]
    rfl
  exact ⟨s, hs, hagree.mpr hdirect, hremove.mpr (.inr hdirect)⟩

/-- **An id that ImageStatus does not know**, and that ListImages shows: that of the image `img`. -/
theorem id_astray :
    ¬ ∀ (listener : Nat) (blake3 : String → String) (ls : List Label) (s : State),
      (∀ l ∈ ls, noRestart l) → run step (init listener blake3) ls = some s →
      s.shared.lock = none → (∀ n, n ≠ "" → Agrees s n ∧ Removes s n) ∧
        ∀ r ∈ s.shared.cache.images.values, ∀ n ∈ handedOut blake3 r, LeadsTo s n r := by
  intro hall
  have hrun : (run step (init 1 hexDigest) pullRun).any fun s => s.shared.lock = none ∧
      listImages s.shared.cache (some "sha-696d670000000000") ≠
        (imageStatus s.shared.cache (some "sha-696d670000000000")).toList := by decide +kernel
  obtain ⟨s, hs, hend⟩ := (Option.any_eq_true _ _).mp hrun
  obtain ⟨hlock, hne⟩ := of_decide_eq_true hend
  have hpulled := (hall 1 hexDigest pullRun s (by decide) hs hlock).1
  exact hne (hpulled "sha-696d670000000000" (by decide)).1

/-! ## Images in use -/

/-- The names by which the shell has made an image known: the reference it was pulled by and those
it hands out. -/
def knownBy (blake3 : String → String) (r : ImageDiskRecord) : List String :=
  r.refName :: handedOut blake3 r

/-- RemoveImage returns an error for the name, and the image stays. -/
def Refuses (s : State) (n : String) (r : ImageDiskRecord) : Prop :=
  ∀ tr s' res, Returns s (removeImage (some n)) tr s' res →
    (∃ e, res = .error e) ∧ s'.shared.cache.images[r.id]? = some r

theorem userOf_isSome {c : Cache} {n : String} :
    (c.userOf n).isSome ↔ ∃ r ∈ c.containers.values, r.config.imageRef = n ∧ r.state ≠ .exited := by
  rw [Cache.userOf, List.find?_isSome]
  simp

theorem refuses_iff_inUse {blake3 : String → String} {s : State} (h : Pulled blake3 s)
    (hlock : s.shared.lock = none) {n : String} {r : ImageDiskRecord}
    (hr : r ∈ s.shared.cache.images.values) : Refuses s n r ↔ InUse s.shared.cache n := by
  constructor
  · intro hrefuses
    obtain ⟨tr, s', res, hreturns⟩ := exists_returns_removeImage hlock n
    obtain ⟨⟨e, herr⟩, -⟩ := hrefuses tr s' res hreturns
    rcases removeImage_returns hreturns with
      ⟨-, -, rfl⟩ | ⟨img, himg, ⟨c, huser, -⟩ | ⟨-, -, rfl, -⟩⟩
    · cases herr
    · exact ⟨Option.isSome_iff_exists.mpr ⟨_, himg⟩, Option.isSome_iff_exists.mpr ⟨_, huser⟩⟩
    · cases herr
  · rintro ⟨hnamed, huser⟩ tr s' res hreturns
    rcases removeImage_returns hreturns with
      ⟨hnone, -⟩ | ⟨img, -, ⟨c, -, hsame, rfl⟩ | ⟨hfree, -⟩⟩
    · rw [show s.shared.cache.imageNamed n = none from hnone] at hnamed
      cases hnamed
    · rw [hsame]
      exact ⟨⟨_, rfl⟩, (h.mem_images hr).1⟩
    · rw [show s.shared.cache.userOf n = none from hfree] at huser
      cases huser

/-- **When an image in use is refused.** An image is there, and a container that has not exited.
RemoveImage of a name refuses and leaves the image exactly if some image was pulled by just that
name and some container that has not exited was created with just that name, also when the container
was created with a name of the image and RemoveImage is given one of them (`knownBy`). -/
theorem refuses_iff {listener : Nat} {blake3 : String → String} {ls : List Label} {s : State}
    (hls : ∀ l ∈ ls, noRestart l) (hrun : run step (init listener blake3) ls = some s)
    (hlock : s.shared.lock = none) {r : ImageDiskRecord}
    (hr : r ∈ s.shared.cache.images.values) {c : ContainerRecord}
    (hc : c ∈ s.shared.cache.containers.values) (hlive : c.state ≠ .exited) {n : String} :
    Refuses s n r ↔ (r.refName = n ∨ ∃ r' ∈ s.shared.cache.images.values, r'.refName = n) ∧
      (c.config.imageRef = n ∨ ∃ c' ∈ s.shared.cache.containers.values,
        c'.config.imageRef = n ∧ c'.state ≠ .exited) := by
  have h := pulled_run hls hrun
  rw [refuses_iff_inUse h hlock hr, InUse, userOf_isSome, Option.isSome_iff_exists]
  refine and_congr ⟨?_, ?_⟩ ⟨.inr, ?_⟩
  · rintro ⟨img, himg⟩
    exact .inr ⟨img, Cache.imageNamed_mem himg⟩
  · rintro (hname | ⟨img, himg⟩)
    · exact ⟨r, h.imageNamed_eq_some.mpr ⟨hr, hname⟩⟩
    · exact ⟨img, h.imageNamed_eq_some.mpr himg⟩
  · rintro (hname | huser)
    · exact ⟨c, hc, hname, hlive⟩
    · exact huser

/-- An image is pulled, and a container is created with the given name. -/
def createdWith (image : String) : List Label :=
  pullRun ++ Label.invoke (.runSandbox { name := "pod" }) :: steps 1 5 ++
    .invoke (.createContainer podSandbox { name := "main", imageRef := image }) :: steps 2 6

theorem refuses_iff_createdWith : ∃ s, run step (init 1 hexDigest) (createdWith "img") = some s ∧
    Refuses s "img" (imageRecord hexDigest "img") := by
  have hrun : (run step (init 1 hexDigest) (createdWith "img")).any fun s => s.shared.lock = none ∧
      s.shared.cache.images.values = [imageRecord hexDigest "img"] ∧
      s.shared.cache.containers.values.map (fun c => (c.config.imageRef, c.state)) =
        [("img", .created)] := by decide +kernel
  obtain ⟨s, hs, hend⟩ := (Option.any_eq_true _ _).mp hrun
  obtain ⟨hlock, himages, hcontainers⟩ := of_decide_eq_true hend
  obtain ⟨c, hvalues, hc⟩ := List.map_eq_singleton_iff.mp hcontainers
  obtain ⟨himage, hstate⟩ := Prod.mk.inj hc
  exact ⟨s, hs, (refuses_iff (by decide) hs hlock (by rw [himages]; exact List.mem_cons_self)
    (by rw [hvalues]; exact List.mem_cons_self) (by rw [hstate]; decide)).mpr
    ⟨.inl rfl, .inl himage⟩⟩

/-- The answer to the pull of `img`. -/
def pulledName : String := imageRef ⟨"img", hexDigest "img", 3⟩

/-- **An image that is removed under its container**, which was created with the name PullImage
answered. -/
theorem removed_in_use :
    ¬ ∀ (listener : Nat) (blake3 : String → String) (ls : List Label) (s : State),
      (∀ l ∈ ls, noRestart l) → run step (init listener blake3) ls = some s →
      s.shared.lock = none → ∀ r ∈ s.shared.cache.images.values,
        ∀ c ∈ s.shared.cache.containers.values, c.state ≠ .exited →
          c.config.imageRef ∈ knownBy blake3 r → ∀ n ∈ knownBy blake3 r, Refuses s n r := by
  intro hall
  have hrun : (run step (init 1 hexDigest) (createdWith pulledName)).any fun s =>
      s.shared.lock = none ∧ s.shared.cache.images.values = [imageRecord hexDigest "img"] ∧
      s.shared.cache.containers.values.map (fun c => (c.config.imageRef, c.state)) =
        [(pulledName, .created)] := by decide +kernel
  obtain ⟨s, hs, hend⟩ := (Option.any_eq_true _ _).mp hrun
  obtain ⟨hlock, himages, hcontainers⟩ := of_decide_eq_true hend
  obtain ⟨c, hvalues, hc⟩ := List.map_eq_singleton_iff.mp hcontainers
  obtain ⟨himage, hstate⟩ := Prod.mk.inj hc
  have himg : imageRecord hexDigest "img" ∈ s.shared.cache.images.values := by
    rw [himages]
    exact List.mem_cons_self
  have hrefuses := hall 1 hexDigest _ s (by decide) hs hlock _ himg c
    (by rw [hvalues]; exact List.mem_cons_self) (by rw [hstate]; decide)
    (by rw [himage]; decide +kernel) "img" (by decide)
  obtain ⟨-, huser⟩ := (refuses_iff_inUse (pulled_run (by decide) hs) hlock himg).mp hrefuses
  obtain ⟨c', hc', himage', -⟩ := userOf_isSome.mp huser
  rw [hvalues, List.mem_singleton] at hc'
  rw [hc', himage] at himage'
  exact absurd himage' (by decide +kernel)

end LightrCri.Shell

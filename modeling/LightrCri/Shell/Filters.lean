import LightrCri.Fake.Filters
import LightrCri.Foundations.Values

/-!
# Filters of the lists

ListPodSandbox and ListContainers translate the filter of the request to the vocabulary of the
backend, which compares the state of a record, and translate the records back. A state is a number
of 32 bits in the request: one that no state has becomes NotReady, or Unknown. So the reply is what
the filter asks for unless it names such a number, and an object that is NotReady, or Unknown, has
the rest (`lists_filtered`).
-/

namespace LightrCri.Shell

open Backend Fake

/-! ## The filters of the requests -/

structure PodSandboxFilter where
  id : String := ""
  state : Option Int32 := none
  labelSelector : List (String × String) := []
  deriving DecidableEq, Repr

/-- `proto::ContainerFilter`. -/
structure ProtoContainerFilter where
  id : String := ""
  podSandboxId : String := ""
  state : Option Int32 := none
  labelSelector : List (String × String) := []
  deriving DecidableEq, Repr

def SANDBOX_READY : Int32 := 0
def SANDBOX_NOTREADY : Int32 := 1

def CONTAINER_CREATED : Int32 := 0
def CONTAINER_RUNNING : Int32 := 1
def CONTAINER_EXITED : Int32 := 2
def CONTAINER_UNKNOWN : Int32 := 3

def mapSandboxState : SandboxState → Int32
  | .ready => SANDBOX_READY
  | .notReady => SANDBOX_NOTREADY

def mapContainerState : ContainerState → Int32
  | .created => CONTAINER_CREATED
  | .running => CONTAINER_RUNNING
  | .exited => CONTAINER_EXITED
  | .unknown => CONTAINER_UNKNOWN

/-- The state of a sandbox filter. -/
def sandboxStateOf (v : Int32) : SandboxState := if v = SANDBOX_READY then .ready else .notReady

/-- The state of a container filter. -/
def containerStateOf (v : Int32) : ContainerState :=
  if v = CONTAINER_CREATED then .created
  else if v = CONTAINER_RUNNING then .running
  else if v = CONTAINER_EXITED then .exited
  else .unknown

/-- An empty string is no id. -/
def nonEmpty (s : String) : Option String := if s = "" then none else some s

def protoSandboxFilter : Option PodSandboxFilter → SandboxFilter
  | none => {}
  | some f =>
    { id := (nonEmpty f.id).map Id.mk
      state := f.state.map sandboxStateOf
      labelSelector := f.labelSelector }

def protoContainerFilter : Option ProtoContainerFilter → ContainerFilter
  | none => {}
  | some f =>
    { id := (nonEmpty f.id).map Id.mk
      sandbox := (nonEmpty f.podSandboxId).map Id.mk
      state := f.state.map containerStateOf
      labelSelector := f.labelSelector }

/-! ## The objects of the replies -/

structure PodSandbox where
  id : String
  name : String
  uid : String
  nspace : String
  attempt : Nat
  state : Int32
  createdAt : Int
  labels : List (String × String)
  annotations : List (String × String)
  runtimeHandler : String
  deriving DecidableEq, Repr

structure Container where
  id : String
  podSandboxId : String
  name : String
  attempt : Nat
  image : String
  imageRef : String
  imageId : String
  state : Int32
  createdAt : Int
  labels : List (String × String)
  annotations : List (String × String)
  deriving DecidableEq, Repr

def buildPodSandbox (s : SandboxStatus) : PodSandbox where
  id := s.id.val
  name := s.config.name
  uid := s.config.uid
  nspace := s.config.nspace
  attempt := s.config.attempt
  state := mapSandboxState s.state
  createdAt := s.createdAtNanos
  labels := s.config.labels
  annotations := s.config.annotations
  runtimeHandler := ""

def buildContainer (cs : ContainerStatus) : Container where
  id := cs.id.val
  podSandboxId := cs.sandbox.val
  name := cs.config.name
  attempt := cs.config.attempt
  image := cs.config.imageRef
  imageRef := cs.config.imageRef
  imageId := cs.config.imageRef
  state := mapContainerState cs.state
  createdAt := cs.createdAtNanos
  labels := cs.config.labels
  annotations := cs.config.annotations

/-! ## The RPCs -/

def listPodSandbox (c : Cache) (filter : Option PodSandboxFilter) : List PodSandbox :=
  (Fake.listSandboxes c (protoSandboxFilter filter)).map buildPodSandbox

def listContainers (c : Cache) (filter : Option ProtoContainerFilter) : List Container :=
  (Fake.listContainers c (protoContainerFilter filter)).map buildContainer

/-! ## What the filters ask for -/

/-- The objects as the protocol shows them. -/
def podSandboxes (c : Cache) : List PodSandbox :=
  c.sandboxes.values.map fun r => buildPodSandbox (sandboxRecToStatus r)

def containers (c : Cache) : List Container :=
  c.containers.values.map fun r => buildContainer (recToStatus r (c.logDir r))

def PodSandbox.satisfies (p : PodSandbox) (f : PodSandboxFilter) : Bool :=
  (f.id = "" || p.id = f.id) && (f.state.all fun v => p.state = v) && selects f.labelSelector p.labels

def Container.satisfies (p : Container) (f : ProtoContainerFilter) : Bool :=
  (f.id = "" || p.id = f.id) && (f.podSandboxId = "" || p.podSandboxId = f.podSandboxId) &&
    (f.state.all fun v => p.state = v) && selects f.labelSelector p.labels

/-! ## The translations -/

theorem sandboxStateOf_eq {v : Int32} {s : SandboxState} (hv : v = SANDBOX_READY ∨ v = SANDBOX_NOTREADY) :
    s = sandboxStateOf v ↔ mapSandboxState s = v := by
  rcases hv with rfl | rfl <;> cases s <;> decide

/-- A number that is no state stands for NotReady, which is not shown as that number. -/
theorem sandboxStateOf_unknown {v : Int32} {s : SandboxState}
    (hv : ¬ (v = SANDBOX_READY ∨ v = SANDBOX_NOTREADY)) :
    (s = sandboxStateOf v ↔ mapSandboxState s = SANDBOX_NOTREADY) ∧ mapSandboxState s ≠ v := by
  obtain ⟨hready, hnot⟩ := not_or.mp hv
  rw [sandboxStateOf, if_neg hready]
  cases s with
  | ready => exact ⟨by decide, Ne.symm hready⟩
  | notReady => exact ⟨by decide, Ne.symm hnot⟩

/-- The states of the protocol. -/
def knownContainerState (v : Int32) : Prop :=
  v = CONTAINER_CREATED ∨ v = CONTAINER_RUNNING ∨ v = CONTAINER_EXITED ∨ v = CONTAINER_UNKNOWN

theorem containerStateOf_eq {v : Int32} {s : ContainerState} (hv : knownContainerState v) :
    s = containerStateOf v ↔ mapContainerState s = v := by
  rcases hv with rfl | rfl | rfl | rfl <;> cases s <;> decide

/-- A number that is no state stands for Unknown, which is not shown as that number. -/
theorem containerStateOf_unknown {v : Int32} {s : ContainerState} (hv : ¬ knownContainerState v) :
    (s = containerStateOf v ↔ mapContainerState s = CONTAINER_UNKNOWN) ∧ mapContainerState s ≠ v := by
  obtain ⟨hcreated, hrest⟩ := not_or.mp hv
  obtain ⟨hrunning, hrest⟩ := not_or.mp hrest
  obtain ⟨hexited, hunknown⟩ := not_or.mp hrest
  rw [containerStateOf, if_neg hcreated, if_neg hrunning, if_neg hexited]
  cases s with
  | created => exact ⟨by decide, Ne.symm hcreated⟩
  | running => exact ⟨by decide, Ne.symm hrunning⟩
  | exited => exact ⟨by decide, Ne.symm hexited⟩
  | unknown => exact ⟨by decide, Ne.symm hunknown⟩

theorem nonEmpty_all {p : Plane} (s : String) (id : Id p) :
    ((nonEmpty s).map Id.mk).all (fun i => id = i) = (s = "" || id.val = s : Bool) := by
  unfold nonEmpty
  split
  · rename_i h
    simp [h]
  · rename_i h
    have hiff : id = ⟨s⟩ ↔ id.val = s := ⟨fun he => by rw [he], fun he => by cases id; simp_all⟩
    simp [h, hiff]

/-- The fields of a filter but for the state. -/
def PodSandboxFilter.stateless (f : PodSandboxFilter) : PodSandboxFilter := { f with state := none }

def ProtoContainerFilter.stateless (f : ProtoContainerFilter) : ProtoContainerFilter :=
  { f with state := none }

theorem all_eq_true {α : Type*} {o : Option α} {p : α → Bool} :
    o.all p = true ↔ ∀ a ∈ o, p a = true := by
  cases o with
  | none => simp
  | some a => simp

theorem sandboxMatches_iff {r : SandboxRecord} {f : PodSandboxFilter} :
    sandboxMatches r (protoSandboxFilter (some f)) = true ↔
      (buildPodSandbox (sandboxRecToStatus r)).satisfies f.stateless = true ∧
        ∀ v ∈ f.state, r.state = sandboxStateOf v := by
  have hid := nonEmpty_all f.id r.id
  simp only [sandboxMatches, protoSandboxFilter, PodSandbox.satisfies, buildPodSandbox,
    sandboxRecToStatus, PodSandboxFilter.stateless, Option.all_none, Bool.and_true] at hid ⊢
  rw [hid, Bool.and_right_comm, Bool.and_eq_true, Option.all_map, all_eq_true]
  simp only [decide_eq_true_eq]
  rfl

theorem PodSandbox.satisfies_iff {p : PodSandbox} {f : PodSandboxFilter} :
    p.satisfies f = true ↔ p.satisfies f.stateless = true ∧ ∀ v ∈ f.state, p.state = v := by
  simp only [PodSandbox.satisfies, PodSandboxFilter.stateless, Option.all_none, Bool.and_true]
  rw [Bool.and_right_comm, Bool.and_eq_true, all_eq_true]
  simp only [decide_eq_true_eq]
  rfl

theorem containerMatches_iff {r : ContainerRecord} {logDir : String} {f : ProtoContainerFilter} :
    containerMatches r (protoContainerFilter (some f)) = true ↔
      (buildContainer (recToStatus r logDir)).satisfies f.stateless = true ∧
        ∀ v ∈ f.state, r.state = containerStateOf v := by
  have hid := nonEmpty_all f.id r.id
  have hsb := nonEmpty_all f.podSandboxId r.sandbox
  have hlabels : (recToStatus r logDir).config.labels = r.config.labels := by
    unfold recToStatus
    dsimp only
    split <;> rfl
  simp only [containerMatches, protoContainerFilter, Container.satisfies, buildContainer, hlabels,
    ProtoContainerFilter.stateless, Option.all_none, Bool.and_true] at hid hsb ⊢
  rw [hid, hsb, Bool.and_right_comm, Bool.and_eq_true, Option.all_map, all_eq_true]
  simp only [decide_eq_true_eq]
  rfl

theorem Container.satisfies_iff {p : Container} {f : ProtoContainerFilter} :
    p.satisfies f = true ↔ p.satisfies f.stateless = true ∧ ∀ v ∈ f.state, p.state = v := by
  simp only [Container.satisfies, ProtoContainerFilter.stateless, Option.all_none, Bool.and_true]
  rw [Bool.and_right_comm, Bool.and_eq_true, all_eq_true]
  simp only [decide_eq_true_eq]
  rfl

/-! ## Exactness -/

/-- Objects are selected before they are shown, by a predicate that lets through all that the reply
is to have. -/
theorem map_filter_eq_iff {α β : Type*} {l : List α} {p : α → Bool} {q : β → Bool} {f : α → β}
    (h : ∀ x ∈ l, q (f x) = true → p x = true) :
    (l.filter p).map f = (l.map f).filter q ↔ ∀ x ∈ l, p x = true → q (f x) = true := by
  constructor
  · intro heq x hx hp
    have hmem : f x ∈ (l.map f).filter q := by
      rw [← heq]
      exact List.mem_map_of_mem (List.mem_filter.mpr ⟨hx, hp⟩)
    exact (List.mem_filter.mp hmem).2
  · intro hall
    rw [List.filter_map]
    refine congrArg (List.map f) (List.filter_congr fun x hx => ?_)
    exact Bool.eq_iff_iff.mpr ⟨hall x hx, h x hx⟩

theorem listPodSandbox_eq (c : Cache) (f : Option PodSandboxFilter) :
    listPodSandbox c f = (c.sandboxes.values.filter fun r =>
      sandboxMatches r (protoSandboxFilter f)).map fun r => buildPodSandbox (sandboxRecToStatus r) := by
  rw [listPodSandbox, Fake.listSandboxes, List.map_map]
  rfl

theorem listContainers_eq (c : Cache) (f : Option ProtoContainerFilter) :
    listContainers c f = (c.containers.values.filter fun r =>
      containerMatches r (protoContainerFilter f)).map fun r =>
        buildContainer (recToStatus r (c.logDir r)) := by
  rw [listContainers, Fake.listContainers, List.map_map]
  rfl

/-- The number is a state, or no sandbox that has the rest is NotReady. -/
def SandboxStateKnown (c : Cache) (f : PodSandboxFilter) : Prop :=
  ∀ v ∈ f.state, (v = SANDBOX_READY ∨ v = SANDBOX_NOTREADY) ∨
    ∀ p ∈ podSandboxes c, p.satisfies f.stateless = true → p.state ≠ SANDBOX_NOTREADY

/-- The number is a state, or no container that has the rest is Unknown. -/
def ContainerStateKnown (c : Cache) (f : ProtoContainerFilter) : Prop :=
  ∀ v ∈ f.state, knownContainerState v ∨
    ∀ p ∈ containers c, p.satisfies f.stateless = true → p.state ≠ CONTAINER_UNKNOWN

theorem listPodSandbox_iff (c : Cache) (f : PodSandboxFilter) :
    listPodSandbox c (some f) = (podSandboxes c).filter (fun p => p.satisfies f) ↔
      SandboxStateKnown c f := by
  rw [listPodSandbox_eq, podSandboxes, map_filter_eq_iff]
  · constructor
    · intro hall v hv
      by_cases hknown : v = SANDBOX_READY ∨ v = SANDBOX_NOTREADY
      · exact .inl hknown
      · refine .inr fun p hp hsat hstate => ?_
        obtain ⟨r, hr, rfl⟩ := List.mem_map.mp hp
        obtain ⟨hiff, hne⟩ := sandboxStateOf_unknown (s := r.state) hknown
        have hmatch := hall r hr (sandboxMatches_iff.mpr ⟨hsat, fun v' hv' => ?_⟩)
        · exact hne ((PodSandbox.satisfies_iff.mp hmatch).2 v hv)
        · obtain rfl := Option.some.inj (hv.symm.trans hv')
          exact hiff.mpr hstate
    · intro hcond r hr hmatch
      obtain ⟨hsat, hstate⟩ := sandboxMatches_iff.mp hmatch
      refine PodSandbox.satisfies_iff.mpr ⟨hsat, fun v hv => ?_⟩
      by_cases hknown : v = SANDBOX_READY ∨ v = SANDBOX_NOTREADY
      · exact (sandboxStateOf_eq hknown).mp (hstate v hv)
      · have hnot := (hcond v hv).resolve_left hknown _ (List.mem_map_of_mem hr) hsat
        exact absurd ((sandboxStateOf_unknown hknown).1.mp (hstate v hv)) hnot
  · intro r _ hsat
    obtain ⟨hrest, hstate⟩ := PodSandbox.satisfies_iff.mp hsat
    refine sandboxMatches_iff.mpr ⟨hrest, fun v hv => ?_⟩
    have hv' : mapSandboxState r.state = v := hstate v hv
    refine (sandboxStateOf_eq ?_).mpr hv'
    rw [← hv']
    cases r.state <;> decide

theorem listContainers_iff (c : Cache) (f : ProtoContainerFilter) :
    listContainers c (some f) = (containers c).filter (fun p => p.satisfies f) ↔
      ContainerStateKnown c f := by
  rw [listContainers_eq, containers, map_filter_eq_iff]
  · constructor
    · intro hall v hv
      by_cases hknown : knownContainerState v
      · exact .inl hknown
      · refine .inr fun p hp hsat hstate => ?_
        obtain ⟨r, hr, rfl⟩ := List.mem_map.mp hp
        obtain ⟨hiff, hne⟩ := containerStateOf_unknown (s := r.state) hknown
        have hmatch := hall r hr (containerMatches_iff.mpr ⟨hsat, fun v' hv' => ?_⟩)
        · exact hne ((Container.satisfies_iff.mp hmatch).2 v hv)
        · obtain rfl := Option.some.inj (hv.symm.trans hv')
          exact hiff.mpr hstate
    · intro hcond r hr hmatch
      obtain ⟨hsat, hstate⟩ : (buildContainer (recToStatus r (c.logDir r))).satisfies f.stateless ∧
          ∀ v ∈ f.state, r.state = containerStateOf v := containerMatches_iff.mp hmatch
      refine Container.satisfies_iff.mpr ⟨hsat, fun v hv => ?_⟩
      by_cases hknown : knownContainerState v
      · exact (containerStateOf_eq hknown).mp (hstate v hv)
      · have hnot := (hcond v hv).resolve_left hknown _ (List.mem_map_of_mem hr) hsat
        exact absurd ((containerStateOf_unknown hknown).1.mp (hstate v hv)) hnot
  · intro r _ hsat
    obtain ⟨hrest, hstate⟩ := Container.satisfies_iff.mp hsat
    refine containerMatches_iff.mpr ⟨hrest, fun v hv => ?_⟩
    have hv' : mapContainerState r.state = v := hstate v hv
    refine (containerStateOf_eq ?_).mpr hv'
    rw [← hv']
    cases r.state
    · exact .inl rfl
    · exact .inr (.inl rfl)
    · exact .inr (.inr (.inl rfl))
    · exact .inr (.inr (.inr rfl))

/-- **What the lists hold.** A reply is what the filter asks for exactly if its state is one of the
protocol, or no object with the rest has the state that the number is taken for. -/
theorem lists_filtered (c : Cache) (f : Option PodSandboxFilter) (g : Option ProtoContainerFilter) :
    (listPodSandbox c f = (podSandboxes c).filter (fun p => f.all p.satisfies) ↔
        ∀ f' ∈ f, SandboxStateKnown c f') ∧
      (listContainers c g = (containers c).filter (fun p => g.all p.satisfies) ↔
        ∀ g' ∈ g, ContainerStateKnown c g') := by
  constructor
  · cases f with
    | none =>
      refine iff_of_true ?_ fun f' hf' => by cases hf'
      rw [listPodSandbox_eq, podSandboxes, map_filter_eq_iff fun r _ _ => ?_]
      · exact fun r _ _ => rfl
      · rfl
    | some f =>
      simp only [Option.all_some, Option.mem_some_iff, forall_eq']
      exact listPodSandbox_iff c f
  · cases g with
    | none =>
      refine iff_of_true ?_ fun g' hg' => by cases hg'
      rw [listContainers_eq, containers, map_filter_eq_iff fun r _ _ => ?_]
      · exact fun r _ _ => rfl
      · rfl
    | some g =>
      simp only [Option.all_some, Option.mem_some_iff, forall_eq']
      exact listContainers_iff c g

/-- A store with one sandbox, which has been stopped. -/
def stoppedStore : Cache :=
  Cache.empty.setSandbox ⟨"sb-1-0"⟩ ⟨⟨"sb-1-0"⟩, { name := "pod" }, .notReady, 0, none, none⟩

/-- **A sandbox that is not asked for**: a filter with the state 7 gets the sandboxes that are
NotReady. -/
theorem unknown_state_listed :
    ¬ ∀ (c : Cache) (f : PodSandboxFilter),
      listPodSandbox c (some f) = (podSandboxes c).filter fun p => p.satisfies f := by
  intro hall
  have hlist := hall stoppedStore { state := some 7 }
  have hmem : buildPodSandbox (sandboxRecToStatus
      ⟨⟨"sb-1-0"⟩, { name := "pod" }, .notReady, 0, none, none⟩) ∈
        listPodSandbox stoppedStore (some { state := some 7 }) := by
    rw [listPodSandbox_eq]
    refine List.mem_map_of_mem (List.mem_filter.mpr ⟨?_, by decide⟩)
    exact Foundations.mem_values.mpr ⟨⟨"sb-1-0"⟩, Std.ExtTreeMap.getElem?_insert_self⟩
  rw [hlist] at hmem
  exact absurd (List.mem_filter.mp hmem).2 (by decide)

end LightrCri.Shell

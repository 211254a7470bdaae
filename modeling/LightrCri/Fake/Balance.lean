import LightrCri.Fake.Descriptors
import LightrCri.Foundations.Runs

/-!
# The balance of descriptors

Between two calls every descriptor of the listener has an owner that still exists (`Sound`), and
what was open before the first call is open. The descriptors of the sessions, of the io table and of
the threads that read outputs go with their owners. Those of the namespaces do not: `into_raw_fd`
leaves them without an owner, and the close in the `pre_exec` closure is one in the child.

`descriptors_balanced_iff` says exactly when the listener has the same descriptors again.
-/

namespace LightrCri.Fake.Descriptors

open Backend Foundations
open LightrCri.Stream (Output)

/-! ## The invariant -/

/-- The owner exists. -/
def Server.Has (s : Server) : Owner → Prop
  | .before => True
  | .var _ => True
  | .raw _ => True
  | .session k => k ∈ s.sessions
  | .io id => (s.ioTable[id]?).isSome
  | .tee x => x ∈ s.tees
  | .log k => ∃ o, (k, o) ∈ s.tees

/-- A container that was started, and has a record. -/
def Server.Knows (s : Server) (id : ContainerId) : Prop :=
  id ∈ s.started ∧ (s.cache.containers[id]?).isSome

/-- The descriptors of `base` were open before the first call. -/
structure Sound (base : List Nat) (s : Server) : Prop where
  before : s.fds.held .before = base
  owned : ∀ a ∈ s.fds.owners, s.Has a
  reading : ∀ x ∈ s.tees, .tee x ∈ s.fds.owners
  known : ∀ id, (s.ioTable[id]?).isSome → s.Knows id
  child : ∀ c ∈ s.children, .raw c.1 ∉ c.2.owners

/-- In a call: the variables `vs` own a descriptor, the containers `ids` have a record, and somebody
has moved a descriptor into a closure exactly if `leak`. -/
structure During (base : List Nat) (ids : List ContainerId) (vs : List Var) (leak : Prop)
    (s : Server) : Prop extends Sound base s where
  live : ∀ v ∈ vs, .var v ∈ s.fds.owners
  target : ∀ id ∈ ids, s.Knows id
  raw : (∃ k, .raw k ∈ s.fds.owners) ↔ leak

variable {base : List Nat} {ids : List ContainerId} {vs ws : List Var} {leak leak' : Prop}
  {s : Server} {o : Oracle} {k : Nat} {v : Var} {id : ContainerId} {E : Server → Prop}

theorem During.mono (h : During base ids vs leak s) (hvs : ∀ v ∈ ws, v ∈ vs)
    (hleak : leak ↔ leak') : During base ids ws leak' s :=
  { h with
    live := fun v hv => h.live v (hvs v hv)
    raw := h.raw.trans hleak }

theorem During.weaken (h : During base ids vs leak s) (hvs : ∀ v ∈ ws, v ∈ vs) :
    During base ids ws leak s :=
  h.mono hvs Iff.rfl

/-- The table is changed, and nothing that has to stay is closed. -/
theorem Sound.of_fds {fds : Table Owner} (h : Sound base s)
    (hbefore : fds.held .before = s.fds.held .before) (howned : ∀ a ∈ fds.owners, s.Has a)
    (hreading : ∀ x, .tee x ∈ s.fds.owners → .tee x ∈ fds.owners) :
    Sound base { s with fds := fds } where
  before := hbefore.trans h.before
  owned := howned
  reading := fun x hx => hreading x (h.reading x hx)
  known := h.known
  child := h.child

/-! ## Descriptors in a call -/

theorem acquire_spec : Triple (During base ids vs leak) (acquire v)
    (fun _ => During base ids (v :: vs) leak) E := by
  intro s h
  refine { h.toSound.of_fds (Table.held_openAs (by simp)) ?_ ?_ with
    live := ?_, target := h.target, raw := ?_ }
  · intro a ha
    rcases List.mem_cons.mp ha with rfl | ha
    · exact True.intro
    · exact h.owned a ha
  · exact fun x hx => List.mem_cons_of_mem _ hx
  · intro w hw
    rcases List.mem_cons.mp hw with rfl | hw
    · exact List.mem_cons_self
    · exact List.mem_cons_of_mem _ (h.live w hw)
  · simp [← h.raw]

theorem tryAcquire_spec {fault : Option String} {err : String → BackendError} :
    Triple (During base ids vs leak) (tryAcquire fault err v)
      (fun _ s => fault = none ∧ During base ids (v :: vs) leak s)
      (fun s => fault ≠ none ∧ During base ids vs leak s) := by
  cases fault with
  | none => exact acquire_spec.post fun _ _ h => ⟨rfl, h⟩
  | some e => exact .throw fun _ h => ⟨Option.some_ne_none e, h⟩

/-- A descriptor is moved to an owner that exists. -/
theorem During.give {a : Owner} (h : During base ids vs leak s) (ha : s.Has a)
    (hbefore : a ≠ .before) (hws : ∀ w ∈ ws, w ∈ vs ∧ w ≠ v)
    (hraw : (∃ k, a = .raw k) ∧ .var v ∈ s.fds.owners ∧ leak' ∨ (∀ k, a ≠ .raw k) ∧
      (leak' ↔ leak)) :
    During base ids ws leak' { s with fds := s.fds.move (.var v) a } := by
  refine { h.toSound.of_fds (Table.held_move (by simp) hbefore) ?_ ?_ with
    live := ?_, target := h.target, raw := ?_ }
  · intro b hb
    rcases (Table.mem_owners_move _).mp hb with ⟨-, rfl⟩ | ⟨hb, -⟩
    · exact ha
    · exact h.owned b hb
  · exact fun x hx => (Table.mem_owners_move _).mpr (.inr ⟨hx, by simp⟩)
  · intro w hw
    obtain ⟨hw, hne⟩ := hws w hw
    exact (Table.mem_owners_move _).mpr (.inr ⟨h.live w hw, by simpa using hne⟩)
  · rcases hraw with ⟨⟨k, rfl⟩, hv, hleak⟩ | ⟨hne, hleak⟩
    · exact iff_of_true ⟨k, (Table.mem_owners_move _).mpr (.inl ⟨hv, rfl⟩)⟩ hleak
    · rw [hleak, ← h.raw]
      refine exists_congr fun k => ?_
      rw [Table.mem_owners_move]
      constructor
      · rintro (⟨-, rfl⟩ | ⟨hk, -⟩)
        · exact absurd rfl (hne k)
        · exact hk
      · exact fun hk => .inr ⟨hk, by simp⟩

/-- `into_raw_fd`, for a closure. -/
theorem give_raw_spec (hv : v ∉ vs) : Triple (During base ids (v :: vs) leak) (give v (.raw k))
    (fun _ => During base ids vs True) E := by
  intro s h
  refine h.give True.intro (by simp) (fun w hw => ⟨List.mem_cons_of_mem _ hw, ?_⟩)
    (.inl ⟨⟨k, rfl⟩, h.live v List.mem_cons_self, True.intro⟩)
  rintro rfl
  exact hv hw

/-- Descriptors are closed that nobody needs any more. -/
theorem During.closeIf {p : Owner → Bool} (h : During base ids vs leak s)
    (hbefore : p .before = false) (htee : ∀ x, p (.tee x) = false)
    (hraw : ∀ k, p (.raw k) = false) (hws : ∀ w ∈ ws, w ∈ vs ∧ p (.var w) = false) :
    During base ids ws leak { s with fds := s.fds.closeIf p } := by
  refine { h.toSound.of_fds (Table.held_closeIf hbefore) ?_ ?_ with
    live := ?_, target := h.target, raw := ?_ }
  · exact fun a ha => h.owned a ((Table.mem_owners_closeIf _).mp ha).1
  · exact fun x hx => (Table.mem_owners_closeIf _).mpr ⟨hx, htee x⟩
  · intro w hw
    obtain ⟨hw, hp⟩ := hws w hw
    exact (Table.mem_owners_closeIf _).mpr ⟨h.live w hw, hp⟩
  · simp [hraw, h.raw]

theorem release_spec (hv : v ∉ ws) (hws : ∀ w ∈ ws, w ∈ vs) :
    Triple (During base ids vs leak) (release v) (fun _ => During base ids ws leak) E := by
  intro s h
  refine h.closeIf (by simp) (by simp) (by simp) fun w hw => ⟨hws w hw, ?_⟩
  have hne : w ≠ v := by
    rintro rfl
    exact hv hw
  simpa using hne

theorem giveAll_spec {a : Owner} (hbefore : a ≠ .before) (hraw : ∀ k, a ≠ .raw k) :
    Triple (fun s => During base ids vs leak s ∧ s.Has a) (giveAll ws a)
      (fun _ => During base ids [] leak) E := by
  have hall : Triple (fun s => During base ids [] leak s ∧ s.Has a) (giveAll ws a)
      (fun _ => During base ids [] leak) E := by
    induction ws with
    | nil => exact .pure fun s h => h.1
    | cons v ws ih =>
      refine Triple.seq (R := fun s => During base ids [] leak s ∧ s.Has a) ?_ ih
      rintro s ⟨h, ha⟩
      refine ⟨h.give ha hbefore (fun w hw => absurd hw List.not_mem_nil) (.inr ⟨hraw, Iff.rfl⟩), ?_⟩
      cases a <;> exact ha
  exact hall.pre fun s h => ⟨h.1.weaken fun w hw => absurd hw List.not_mem_nil, h.2⟩

theorem atomicWrite_spec (fault : Option String) (strict : Bool) (hvs : .tmpFile ∉ vs) :
    Triple (During base ids vs leak) (atomicWrite fault strict) (fun _ => During base ids vs leak)
      (During base ids vs leak) := by
  refine Triple.seq acquire_spec (Triple.seq (release_spec hvs fun w hw => ?_) ?_)
  · exact List.mem_cons_of_mem _ hw
  · cases fault with
    | none => exact .pure fun _ h => h
    | some e =>
      cases strict with
      | true => exact .throw fun _ h => h
      | false => exact .pure fun _ h => h

/-! ## Namespaces -/

/-- The namespaces of the process open. -/
def MntUtsOpen (o : Oracle) (pid : Nat) : Prop := pid ≠ 0 ∧ o.mnt = none ∧ o.uts = none

/-- There is a recorded network namespace, and it opens. -/
def NetOpen (o : Oracle) (path : Option String) : Prop := path.isSome ∧ o.net = none

theorem joinContainerMntUts_spec {pid : Nat} :
    Triple (During base ids [] leak) (joinContainerMntUts o k id pid)
      (fun _ s => MntUtsOpen o pid ∧ During base ids [] True s)
      (fun s => ¬MntUtsOpen o pid ∧ During base ids [] leak s) := by
  unfold joinContainerMntUts
  split
  case isTrue hpid => exact .throw fun s h => ⟨fun hopen => hopen.1 hpid, h⟩
  case isFalse hpid =>
    refine (tryAcquire_spec.fails fun s h => ⟨fun hopen => h.1 hopen.2.1, h.2⟩).bind fun _ => ?_
    refine .of_fact fun hmnt => ?_
    refine Triple.bind (R := fun _ s => o.uts = none ∧ During base ids [.mntFd, .utsFd] leak s)
      (tryAcquire_spec.weaken (fun _ h => h) (fun _ s h => ⟨h.1, ?_⟩) fun s h => ⟨?_, ?_⟩)
      fun _ => .of_fact fun huts => ?_
    · exact h.2.weaken (by simp)
    · exact fun hopen => h.1 hopen.2.2
    · exact h.2.weaken fun w hw => absurd hw List.not_mem_nil
    · refine Triple.seq (give_raw_spec (by decide)) ((give_raw_spec (by decide)).post ?_)
      exact fun _ _ h => ⟨⟨hpid, hmnt, huts⟩, h⟩

theorem joinNetns_spec {method : String} {path : Option String} (hvs : .nsFd ∉ vs) :
    Triple (During base ids vs leak) (joinNetns o k method path)
      (fun _ => During base ids vs (leak ∨ NetOpen o path))
      (During base ids [] (leak ∨ NetOpen o path)) := by
  cases path with
  | none =>
    refine .pure fun s h => h.mono (fun _ hw => hw) ?_
    simp [NetOpen]
  | some path =>
    refine (tryAcquire_spec.fails fun s h => ?_).bind fun _ => ?_
    · refine h.2.mono (fun _ hw => absurd hw List.not_mem_nil) ?_
      simp [NetOpen, h.1]
    · refine .of_fact fun hnet => (give_raw_spec hvs).post fun _ s h => ?_
      exact h.mono (fun _ hw => hw) (by simp [NetOpen, hnet])

/-- An exec call gets as far as moving descriptors of namespaces into its closures. -/
def ExecOpens (c : Cache) (o : Oracle) (id : ContainerId) (cmd : List String) : Prop :=
  ∃ r, c.containers[id]? = some r ∧ r.state = .running ∧ cmd ≠ [] ∧ MntUtsOpen o r.pid

theorem joinNamespaces_spec {c : Cache} {method : String} {cmd : List String} :
    Triple (fun s => During base ids [] leak s ∧ s.cache = c) (joinNamespaces o k method id cmd)
      (fun _ => During base ids [] (leak ∨ ExecOpens c o id cmd))
      (During base ids [] (leak ∨ ExecOpens c o id cmd)) := by
  refine Triple.get_bind ?_
  rintro s ⟨h, rfl⟩
  have hnot (hno : ¬ExecOpens s.cache o id cmd) :
      During base ids [] (leak ∨ ExecOpens s.cache o id cmd) s :=
    h.mono (fun _ hw => hw) (by simp [hno])
  cases hrec : s.cache.containers[id]? with
  | none =>
    refine .throw ?_
    rintro t rfl
    refine hnot ?_
    rintro ⟨r, hr, -⟩
    rw [hrec] at hr
    cases hr
  | some r =>
    have hiff : ExecOpens s.cache o id cmd ↔
        r.state = .running ∧ cmd ≠ [] ∧ MntUtsOpen o r.pid := by
      constructor
      · rintro ⟨r', hr', hrest⟩
        obtain rfl := Option.some.inj (hrec.symm.trans hr')
        exact hrest
      · exact fun hrest => ⟨r, hrec, hrest⟩
    dsimp only
    split
    case isTrue hstate =>
      refine .throw ?_
      rintro t rfl
      exact hnot fun hopen => hstate (hiff.mp hopen).1
    case isFalse hstate =>
      split
      case isTrue hcmd =>
        refine .throw ?_
        rintro t rfl
        exact hnot fun hopen => (hiff.mp hopen).2.1 hcmd
      case isFalse hcmd =>
        have hopens : ExecOpens s.cache o id cmd ↔ MntUtsOpen o r.pid := by
          rw [hiff]
          exact ⟨fun h => h.2.2, fun h => ⟨not_not.mp hstate, hcmd, h⟩⟩
        refine Triple.bind (R := fun _ t => MntUtsOpen o r.pid ∧ During base ids [] True t)
          (joinContainerMntUts_spec.weaken (fun t ht => ht ▸ h) (fun _ _ ht => ht) ?_) fun _ => ?_
        · intro t ht
          exact ht.2.mono (fun _ hw => hw) (by simp [hopens, ht.1])
        · refine .of_fact fun hmnt => ?_
          refine (joinNetns_spec List.not_mem_nil).weaken (fun _ h => h) ?_ ?_
          · exact fun _ t ht => ht.mono (fun _ hw => hw) (by simp [hopens, hmnt])
          · exact fun t ht => ht.mono (fun _ hw => hw) (by simp [hopens, hmnt])

/-! ## Spawning -/

/-- The ends that the listener keeps. -/
def keeps (ours : Var) : Stdio → List Var
  | .piped => [ours]
  | _ => []

theorem setupIo_spec {io : Stdio} : Triple (During base ids vs leak) (setupIo v io)
    (fun _ => During base ids (keeps v io ++ vs) leak) E := by
  cases io with
  | inherit => exact .pure fun _ h => h
  | fd => exact .pure fun _ h => h
  | null => exact acquire_spec.post fun _ _ h => h.weaken fun w hw => List.mem_cons_of_mem _ hw
  | piped =>
    refine Triple.seq acquire_spec (acquire_spec.post fun _ _ h => h.weaken fun w hw => ?_)
    exact List.mem_cons_of_mem _ hw

theorem notMem_keeps {ours : Var} {io : Stdio} (h : v ≠ ours) : v ∉ keeps ours io := by
  cases io <;> simp [keeps, h]

theorem spawn_spec {stdin stdout stderr : Stdio} (hpipe : .execPipe ∉ vs) (htheirs : .theirs ∉ vs) :
    Triple (During base ids vs leak) (spawn o k stdin stdout stderr)
      (fun r s => During base ids [] leak s ∧ ∀ pid, r = .ok pid → During base ids
        (keeps .stderr stderr ++ (keeps .stdout stdout ++ (keeps .stdin stdin ++ vs))) leak s)
      E := by
  have hnotMem (v : Var) (hvs : v ∉ vs) (h₀ : v ≠ .stdin) (h₁ : v ≠ .stdout) (h₂ : v ≠ .stderr) :
      v ∉ keeps .stderr stderr ++ (keeps .stdout stdout ++ (keeps .stdin stdin ++ vs)) := by
    simp only [List.mem_append, not_or]
    exact ⟨notMem_keeps h₂, notMem_keeps h₁, notMem_keeps h₀, hvs⟩
  generalize hws : keeps .stderr stderr ++ (keeps .stdout stdout ++ (keeps .stdin stdin ++ vs)) = ws
    at hnotMem
  refine Triple.seq setupIo_spec (Triple.seq setupIo_spec (Triple.seq setupIo_spec ?_))
  rw [hws]
  refine Triple.seq acquire_spec (Triple.seq acquire_spec (Triple.get_bind fun atFork hfork => ?_))
  refine Triple.pre ?_ fun s (hs : s = atFork) => hs ▸ hfork
  refine Triple.seq (R := During base ids ws leak)
    (release_spec (hnotMem _ hpipe (by simp) (by simp) (by simp)) ?_) ?_
  · exact fun w hw => List.mem_cons_of_mem _ (List.mem_cons_of_mem _ hw)
  refine Triple.seq (R := During base ids ws leak)
    (release_spec (hnotMem _ htheirs (by simp) (by simp) (by simp)) ?_) ?_
  · exact fun w hw => hw
  cases o.spawn with
  | error e =>
    have hdrop (v : Var) (ws : List Var) : Triple (During base ids ws leak) (release v)
        (fun _ => During base ids [] leak) E :=
      release_spec List.not_mem_nil fun w hw => absurd hw List.not_mem_nil
    refine Triple.seq (hdrop _ _) (Triple.seq (hdrop _ _) (Triple.seq (hdrop _ _) ?_))
    exact .pure fun s h => ⟨h, fun pid hpid => by cases hpid⟩
  | ok pid =>
    refine Triple.seq (R := During base ids ws leak) (.modify fun s h => ?_) (.pure fun s h => ?_)
    · refine { h with owned := h.owned, known := h.known, target := h.target, child := ?_ }
      intro c hc
      rcases List.mem_cons.mp hc with rfl | hc
      · simp
      · exact h.child c hc
    · exact ⟨h.weaken fun w hw => absurd hw List.not_mem_nil, fun _ _ => h⟩

/-! ## The exec calls -/

variable {cmd : List String}

theorem During.drop (h : During base ids vs leak s) : During base ids [] leak s :=
  h.weaken fun _ hw => absurd hw List.not_mem_nil

theorem release_nil_spec : Triple (During base ids vs leak) (release v)
    (fun _ => During base ids [] leak) E :=
  release_spec List.not_mem_nil fun _ hw => absurd hw List.not_mem_nil

theorem execSync_spec {c : Cache} {timeout : Int} :
    Triple (fun s => During base [] [] leak s ∧ s.cache = c) (execSync o k id cmd timeout)
      (fun _ => During base [] [] (leak ∨ ExecOpens c o id cmd))
      (During base [] [] (leak ∨ ExecOpens c o id cmd)) := by
  refine Triple.seq joinNamespaces_spec (Triple.bind (spawn_spec (by simp) (by simp)) fun r => ?_)
  refine Triple.pre (P := During base [] [] (leak ∨ ExecOpens c o id cmd)) ?_ fun s h => h.1
  cases r with
  | error e => exact .throw fun _ h => h
  | ok pid =>
    dsimp only
    split
    · exact Triple.seq release_nil_spec release_nil_spec
    · exact .throw fun _ h => h
    · split
      · exact .throw fun _ h => h
      · exact Triple.seq release_nil_spec release_nil_spec

theorem session_spec : Triple (During base ids vs leak) (session k ws)
    (fun _ => During base ids [] leak) E := by
  refine Triple.seq (R := fun s => During base ids vs leak s ∧ s.Has (.session k))
    (.modify fun s h => ⟨?_, List.mem_cons_self⟩) (giveAll_spec (by simp) (by simp))
  refine { h with owned := fun a ha => ?_, known := h.known, target := h.target }
  have hhas := h.owned a ha
  cases a with
  | session j => exact List.mem_cons_of_mem _ hhas
  | _ => exact hhas

theorem openTerminal_spec : Triple (During base ids vs leak) (openTerminal o)
    (fun _ s => (o.openpty = none ∧ o.dup 0 = none ∧ o.dup 1 = none) ∧
      During base ids (.master :: vs) leak s)
    (fun s => ¬(o.openpty = none ∧ o.dup 0 = none ∧ o.dup 1 = none) ∧ During base ids [] leak s) := by
  refine (tryAcquire_spec.fails fun s h => ⟨fun hall => h.1 hall.1, h.2.drop⟩).bind fun _ => ?_
  refine .of_fact fun hpty => Triple.seq acquire_spec ?_
  refine (tryAcquire_spec.fails fun s h => ⟨fun hall => h.1 hall.2.1, h.2.drop⟩).bind fun _ => ?_
  refine .of_fact fun h₀ => tryAcquire_spec.weaken (fun _ h => h) (fun _ s h => ?_) fun s h => ?_
  · refine ⟨⟨hpty, h₀, h.1⟩, h.2.weaken fun w hw => ?_⟩
    rcases List.mem_cons.mp hw with rfl | hw
    · simp
    · simp [hw]
  · exact ⟨fun hall => h.1 hall.2.2, h.2.drop⟩

theorem openExec_spec {c : Cache} {tty stdin : Bool} :
    Triple (fun s => During base [] [] leak s ∧ s.cache = c) (openExec o k id cmd tty stdin)
      (fun _ => During base [] [] (leak ∨ ExecOpens c o id cmd))
      (During base [] [] (leak ∨ ExecOpens c o id cmd)) := by
  refine Triple.seq joinNamespaces_spec ?_
  cases tty with
  | true =>
    refine (openTerminal_spec.fails fun _ h => h.2).bind fun _ => ?_
    refine .of_fact fun _ => Triple.bind (spawn_spec (by decide) (by decide)) fun r => ?_
    cases r with
    | error e => exact .throw fun _ h => h.1
    | ok pid =>
      refine Triple.pre (P := During base [] [] (leak ∨ ExecOpens c o id cmd)) ?_ fun s h => h.1
      exact (tryAcquire_spec.fails fun _ h => h.2).bind fun _ => .of_fact fun _ => session_spec
  | false =>
    refine Triple.bind (spawn_spec (by simp) (by simp)) fun r => ?_
    refine Triple.pre (P := During base [] [] (leak ∨ ExecOpens c o id cmd)) ?_ fun s h => h.1
    cases r with
    | error e => exact .throw fun _ h => h
    | ok pid => exact session_spec

/-! ## `start_container` -/

theorem Server.Knows.setContainer {r : ContainerRecord} {id' : ContainerId} (h : s.Knows id') :
    ({ s with cache := s.cache.setContainer id r } : Server).Knows id' := by
  refine ⟨h.1, ?_⟩
  rw [containers_setContainer]
  split
  · rfl
  · exact h.2

theorem During.setContainer (h : During base ids vs leak s) (id : ContainerId)
    (r : ContainerRecord) :
    During base ids vs leak { s with cache := s.cache.setContainer id r } :=
  { h with
    owned := h.owned
    known := fun i hi => (h.known i hi).setContainer
    target := fun i hi => (h.target i hi).setContainer }

theorem update_spec {f : ContainerRecord → ContainerRecord} {fault : Option String}
    {strict : Bool} (hvs : .tmpFile ∉ vs) :
    Triple (During base ids vs leak) (update id f fault strict) (fun _ => During base ids vs leak)
      (During base ids vs leak) := by
  refine Triple.get_bind fun s h => ?_
  refine Triple.pre (P := During base ids vs leak) ?_ fun t (ht : t = s) => ht ▸ h
  cases s.cache.containers[id]? with
  | none =>
    cases strict with
    | true => exact .throw fun _ h => h
    | false => exact .pure fun _ h => h
  | some r =>
    exact Triple.seq (.modify fun t ht => ht.setContainer id (f r)) (atomicWrite_spec _ _ hvs)

theorem hold_spec {xs : List (Nat × Output)} : Triple (During base ids vs leak) (hold xs)
    (fun _ => During base ids vs leak) E :=
  .modify fun _ h => { h with owned := h.owned, known := h.known, target := h.target }

theorem spawnFailed_spec {e : String} {Q : Unit → Server → Prop} :
    Triple (During base ids vs leak) (spawnFailed o id e) Q (During base ids [] leak) := by
  refine Triple.seq (R := During base ids [] leak) ?_ (.throw fun _ h => h)
  exact (update_spec List.not_mem_nil).pre fun _ h => h.drop

/-- The thread takes its reader, and the log file with the other thread. -/
theorem spawnTeeThread_spec {out : Output} (hv : v ∉ vs) (hlog : .logFile ∉ vs) :
    Triple (During base ids (v :: vs) leak) (spawnTeeThread k out v)
      (fun _ => During base ids vs leak) E := by
  have hsubset (w : Var) (hw : w ∈ vs) : w ∈ v :: vs ∧ w ≠ v := by
    refine ⟨List.mem_cons_of_mem _ hw, ?_⟩
    rintro rfl
    exact hv hw
  intro s h
  -- with the new thread and its reader, the invariant holds again
  have hreader : During base ids vs leak { s with
      tees := (k, out) :: s.tees
      fds := s.fds.move (.var v) (.tee (k, out)) } := by
    refine
      { before := (Table.held_move (by simp) (by simp)).trans h.before
        owned := ?_
        reading := ?_
        known := h.known
        child := h.child
        live := ?_
        target := h.target
        raw := ?_ }
    · intro a ha
      rcases (Table.mem_owners_move _).mp ha with ⟨-, rfl⟩ | ⟨ha, -⟩
      · exact List.mem_cons_self
      · have hhas := h.owned a ha
        cases a with
        | tee x => exact List.mem_cons_of_mem _ hhas
        | log j => exact hhas.imp fun _ => List.mem_cons_of_mem _
        | _ => exact hhas
    · intro x hx
      rcases List.mem_cons.mp hx with rfl | hx
      · exact (Table.mem_owners_move _).mpr (.inl ⟨h.live v List.mem_cons_self, rfl⟩)
      · exact (Table.mem_owners_move _).mpr (.inr ⟨h.reading x hx, by simp⟩)
    · intro w hw
      obtain ⟨hw, hne⟩ := hsubset w hw
      exact (Table.mem_owners_move _).mpr (.inr ⟨h.live w hw, by simpa using hne⟩)
    · rw [← h.raw]
      simp [Table.mem_owners_move]
  refine hreader.give (a := .log k) ⟨out, List.mem_cons_self⟩ (by simp) (fun w hw => ⟨hw, ?_⟩)
    (.inr ⟨by simp, Iff.rfl⟩)
  rintro rfl
  exact hlog hw

theorem insertIo_spec {io : ContainerIo} : Triple (During base [id] vs leak) (insertIo id io ws)
    (fun _ => During base [id] [] leak) E := by
  refine Triple.seq (R := fun s => During base [id] vs leak s ∧ s.Has (.io id))
    (.modify fun s h => ?_) (giveAll_spec (by simp) (by simp))
  have hclosed : During base [id] vs leak { s with fds := s.fds.closeIf (· = .io id) } :=
    h.closeIf (by simp) (by simp) (by simp) fun w hw => ⟨hw, by simp⟩
  have hio (i : ContainerId) (hi : (s.ioTable[i]?).isSome) :
      ((s.ioTable.insert id io)[i]?).isSome := by
    rw [Std.ExtTreeMap.getElem?_insert]
    split
    · rfl
    · exact hi
  refine ⟨{ hclosed with owned := fun a ha => ?_, known := fun i hi => ?_, target := h.target }, ?_⟩
  · have hhas := hclosed.owned a ha
    cases a with
    | io i => exact hio i hhas
    | _ => exact hhas
  · by_cases hid : i = id
    · exact hid ▸ h.target id List.mem_cons_self
    · refine h.known i ?_
      simpa [Std.ExtTreeMap.getElem?_insert, Ne.symm hid] using hi
  · simp [Server.Has]

theorem startContainerPipeMode_spec {r : ContainerRecord} :
    Triple (During base [id] [] leak) (startContainerPipeMode o k id r)
      (fun _ => During base [id] [] leak) (During base [id] [] leak) := by
  refine Triple.seq (update_spec (by simp))
    (Triple.bind (spawn_spec (by simp) (by simp)) fun res => ?_)
  cases res with
  | error e => exact spawnFailed_spec.pre fun _ h => h.1
  | ok pid =>
    refine Triple.pre (P := During base [id] [.stdout, .stderr] leak) ?_ fun s h =>
      (h.2 pid rfl).weaken (by simp [keeps])
    refine Triple.seq hold_spec ?_
    refine (tryAcquire_spec.fails fun _ h => h.2.drop).bind fun _ => .of_fact fun _ => ?_
    refine Triple.seq (R := During base [id] [.stderr, .stdoutRdForTable] leak)
      ((spawnTeeThread_spec (by decide) (by decide)).pre fun _ h => h.weaken (by simp)) ?_
    refine (tryAcquire_spec.fails fun _ h => h.2.drop).bind fun _ => .of_fact fun _ => ?_
    refine Triple.seq (R := During base [id] [] leak)
      ((spawnTeeThread_spec (by decide) (by decide)).pre fun _ h => h.weaken (by simp)) ?_
    exact Triple.seq insertIo_spec (update_spec (by simp))

/-- With a terminal: it opens, and then the network namespace. -/
def TtyOpens (o : Oracle) (info : SandboxInfo) : Prop :=
  (o.openpty = none ∧ o.dup 0 = none ∧ o.dup 1 = none) ∧ NetOpen o info.netnsPath

theorem startContainerTty_spec {r : ContainerRecord} {info : SandboxInfo} :
    Triple (During base [id] [] leak) (startContainerTty o k id r info)
      (fun _ => During base [id] [] (leak ∨ TtyOpens o info))
      (During base [id] [] (leak ∨ TtyOpens o info)) := by
  refine (openTerminal_spec.fails fun s h => ?_).bind fun _ => .of_fact fun hterm => ?_
  · exact h.2.mono (fun _ hw => hw) (by simp [TtyOpens, h.1])
  have hopens : TtyOpens o info ↔ NetOpen o info.netnsPath := and_iff_right hterm
  rw [hopens]
  refine Triple.seq (joinNetns_spec (by decide)) ?_
  refine (tryAcquire_spec.fails fun _ h => h.2.drop).bind fun _ => .of_fact fun _ => ?_
  refine Triple.seq (spawnTeeThread_spec (by decide) (by decide)) ?_
  refine Triple.seq ((update_spec (by decide)).fails fun _ h => h.drop) ?_
  refine Triple.bind (spawn_spec (by decide) (by decide)) fun res => ?_
  cases res with
  | error e => exact spawnFailed_spec.pre fun _ h => h.1
  | ok pid =>
    refine Triple.pre ?_ fun s h => h.1
    exact Triple.seq hold_spec (Triple.seq insertIo_spec (update_spec (by simp)))

/-- `start_container` gets as far as moving the descriptor of a network namespace into a closure. -/
def StartOpens (c : Cache) (o : Oracle) (id : ContainerId) : Prop :=
  ∃ r, c.containers[id]? = some r ∧ r.state = .created ∧
    ((sandboxInfo c r.sandbox).logDirectory = "" ∨ r.config.logPath = "" ∨ o.log = none) ∧
    (r.config.tty = true → o.openpty = none ∧ o.dup 0 = none ∧ o.dup 1 = none) ∧
    NetOpen o (sandboxInfo c r.sandbox).netnsPath

theorem writeSandboxResolvConf_spec {dns : Option DnsConfig} :
    Triple (During base ids [] leak) (writeSandboxResolvConf dns)
      (fun _ => During base ids [] leak) E := by
  cases dns with
  | none => exact .pure fun _ h => h
  | some dns =>
    exact Triple.seq acquire_spec (Triple.seq release_nil_spec (.pure fun _ h => h))

theorem openCriLog_spec {logDir logPath : String} :
    Triple (During base ids [] leak) (openCriLog o logDir logPath)
      (fun _ s => (logDir = "" ∨ logPath = "" ∨ o.log = none) ∧ During base ids [] leak s)
      (fun s => ¬(logDir = "" ∨ logPath = "" ∨ o.log = none) ∧ During base ids [] leak s) := by
  unfold openCriLog
  split
  case isTrue hnone => exact .pure fun s h => ⟨by tauto, h⟩
  case isFalse hnone =>
    refine tryAcquire_spec.weaken (fun _ h => h) (fun _ s h => ?_) fun s h => ⟨by tauto, h.2⟩
    exact ⟨.inr (.inr h.1), h.2.drop⟩

theorem startContainer_spec {c : Cache} :
    Triple (fun s => During base [] [] leak s ∧ s.cache = c ∧ id ∈ s.started)
      (startContainer o k id)
      (fun _ => During base [] [] (leak ∨ StartOpens c o id))
      (During base [] [] (leak ∨ StartOpens c o id)) := by
  refine Triple.get_bind ?_
  rintro s ⟨h, rfl, hstarted⟩
  have hnot (hno : ¬StartOpens s.cache o id) :
      During base [] [] (leak ∨ StartOpens s.cache o id) s :=
    h.mono (fun _ hw => hw) (by simp [hno])
  cases hrec : s.cache.containers[id]? with
  | none =>
    refine .throw ?_
    rintro t rfl
    refine hnot ?_
    rintro ⟨r, hr, -⟩
    rw [hrec] at hr
    cases hr
  | some r =>
    dsimp only
    generalize hinfo : sandboxInfo s.cache r.sandbox = info
    have hiff : StartOpens s.cache o id ↔ r.state = .created ∧
        (info.logDirectory = "" ∨ r.config.logPath = "" ∨ o.log = none) ∧
        (r.config.tty = true → o.openpty = none ∧ o.dup 0 = none ∧ o.dup 1 = none) ∧
        NetOpen o info.netnsPath := by
      subst hinfo
      constructor
      · rintro ⟨r', hr', hrest⟩
        obtain rfl := Option.some.inj (hrec.symm.trans hr')
        exact hrest
      · exact fun hrest => ⟨r, hrec, hrest⟩
    split
    case isTrue hstate =>
      refine .throw ?_
      rintro t rfl
      exact hnot fun hopen => hstate (hiff.mp hopen).1
    case isFalse hstate =>
      have hforget {l : Prop} {t : Server} (ht : During base [id] [] l t)
          (hl : l ↔ leak ∨ StartOpens s.cache o id) :
          During base [] [] (leak ∨ StartOpens s.cache o id) t :=
        { ht.mono (fun _ hw => hw) hl with target := fun _ hi => absurd hi List.not_mem_nil }
      have hfound : During base [id] [] leak s := by
        refine { h with target := fun i hi => ?_ }
        obtain rfl := List.mem_singleton.mp hi
        exact ⟨hstarted, by rw [hrec]; rfl⟩
      refine Triple.pre (P := During base [id] [] leak) ?_ fun t (ht : t = s) => ht ▸ hfound
      refine Triple.seq writeSandboxResolvConf_spec ?_
      refine (openCriLog_spec.fails fun t ht => ?_).bind fun _ => .of_fact fun hlog => ?_
      · exact hforget ht.2 (by simp [hiff, ht.1])
      cases htty : r.config.tty with
      | true =>
        have hopens : TtyOpens o info ↔ StartOpens s.cache o id := by
          simp [hiff, TtyOpens, not_not.mp hstate, hlog, htty]
        exact startContainerTty_spec.weaken (fun _ h => h)
          (fun _ t ht => hforget ht (by rw [hopens])) fun t ht => hforget ht (by rw [hopens])
      | false =>
        have hopens : NetOpen o info.netnsPath ↔ StartOpens s.cache o id := by
          simp [hiff, not_not.mp hstate, hlog, htty]
        refine Triple.seq ((joinNetns_spec (by simp)).fails fun t ht => hforget ht (by rw [hopens]))
          (startContainerPipeMode_spec.weaken (fun _ h => h) ?_ ?_)
        · exact fun _ t ht => hforget ht (by rw [hopens])
        · exact fun t ht => hforget ht (by rw [hopens])

/-! ## Steps -/

/-- The call moves the descriptor of a namespace into a closure. -/
def Call.Opens (c : Cache) (o : Oracle) : Call → Prop
  | .execSync id cmd _ => ExecOpens c o id cmd
  | .openExec id cmd _ _ => ExecOpens c o id cmd
  | .startContainer id => StartOpens c o id

/-- The step is a call that opens namespaces. -/
def Label.Opens (s : Server) : Label → Prop
  | .call c o => c.Opens s.cache o
  | _ => False

theorem Call.spec {c : Cache} (x : Call) :
    Triple (fun s => During base [] [] leak s ∧ s.cache = c ∧ ∀ i ∈ x.starts, i ∈ s.started)
      (x.prog o k) (fun _ => During base [] [] (leak ∨ x.Opens c o))
      (During base [] [] (leak ∨ x.Opens c o)) := by
  cases x with
  | execSync id cmd timeout => exact execSync_spec.pre fun s h => ⟨h.1, h.2.1⟩
  | openExec id cmd tty stdin => exact openExec_spec.pre fun s h => ⟨h.1, h.2.1⟩
  | startContainer id =>
    exact startContainer_spec.pre fun s h => ⟨h.1, h.2.1, h.2.2 id List.mem_cons_self⟩

/-- Between two calls no variable owns a descriptor. -/
structure Idle (base : List Nat) (leak : Prop) (s : Server) : Prop
    extends During base [] [] leak s where
  noVar : ∀ v, .var v ∉ s.fds.owners

/-- Owners end together with their descriptors. -/
theorem Idle.closeIf {s' : Server} {p : Owner → Bool} (h : Idle base leak s)
    (hfds : s'.fds = s.fds.closeIf p) (hbefore : p .before = false)
    (hraw : ∀ k, p (.raw k) = false) (howned : ∀ a, s.Has a → p a = false → s'.Has a)
    (htees : ∀ x ∈ s'.tees, x ∈ s.tees ∧ p (.tee x) = false)
    (hknown : ∀ id, (s'.ioTable[id]?).isSome → s'.Knows id) (hchildren : s'.children = s.children) :
    Idle base leak s' where
  before := by rw [hfds, Table.held_closeIf hbefore, h.before]
  owned := by
    intro a ha
    obtain ⟨ha, hp⟩ := (Table.mem_owners_closeIf _).mp (hfds ▸ ha)
    exact howned a (h.owned a ha) hp
  reading := by
    intro x hx
    obtain ⟨hx, hp⟩ := htees x hx
    rw [hfds]
    exact (Table.mem_owners_closeIf _).mpr ⟨h.reading x hx, hp⟩
  known := hknown
  child := hchildren ▸ h.child
  live := fun _ hv => absurd hv List.not_mem_nil
  target := fun _ hi => absurd hi List.not_mem_nil
  raw := by
    rw [hfds]
    simp [hraw, h.raw]
  noVar := by
    intro v hv
    exact h.noVar v ((Table.mem_owners_closeIf _).mp (hfds ▸ hv)).1

/-- A call keeps the balance, up to the namespaces. -/
theorem Idle.call {c : Call} (h : Idle base leak s) :
    Idle base (leak ∨ c.Opens s.cache o)
      ((c.prog o k).exec { s with started := c.starts ++ s.started }).2.return_ := by
  have hbegin : During base [] [] leak { s with started := c.starts ++ s.started } :=
    { h.toDuring with
      owned := h.owned
      known := fun id hid =>
        ⟨List.mem_append_right _ (h.known id hid).1, (h.known id hid).2⟩
      target := fun _ hi => absurd hi List.not_mem_nil }
  have hend := (c.spec (o := o) (k := k)).final ⟨hbegin, rfl, fun i hi => List.mem_append_left _ hi⟩
  generalize ((c.prog o k).exec { s with started := c.starts ++ s.started }).2 = t at hend ⊢
  have hclosed : During base [] [] (leak ∨ c.Opens s.cache o)
      { t with fds := t.fds.closeIf Owner.isVar } :=
    hend.closeIf rfl (fun _ => rfl) (fun _ => rfl) fun _ hw => absurd hw List.not_mem_nil
  refine { hclosed with
    owned := hclosed.owned, known := hclosed.known, target := hclosed.target, noVar := ?_ }
  intro v hv
  cases ((Table.mem_owners_closeIf _).mp hv).2

theorem Idle.dropIo (h : Idle base leak s) (id : ContainerId) : Idle base leak (s.dropIo id) := by
  have hio (i : ContainerId) :
      ((s.ioTable.erase id)[i]?).isSome ↔ i ≠ id ∧ (s.ioTable[i]?).isSome := by
    rw [Std.ExtTreeMap.getElem?_erase]
    by_cases hi : i = id
    · simp [hi]
    · simp [hi, Ne.symm hi]
  refine h.closeIf (p := (· = .io id)) rfl (by simp) (by simp) (fun a ha hp => ?_)
    (fun x hx => ⟨hx, by simp⟩) (fun i hi => h.known i ((hio i).mp hi).2) rfl
  cases a with
  | io i => exact (hio i).mpr ⟨fun hid => by simp [hid] at hp, ha⟩
  | _ => exact ha

theorem Idle.endTee (h : Idle base leak s) (x : Nat × Output) : Idle base leak (s.endTee x) := by
  refine h.closeIf (p := fun a => a = .tee x ∨ (a = .log x.1 ∧
    ∀ y ∈ s.tees.filter (· ≠ x), y.1 ≠ x.1)) rfl (by simp) (by simp) (fun a ha hp => ?_)
    (fun y hy => ?_) h.known rfl
  · cases a with
    | tee y =>
      have hne : y ≠ x := by simpa using hp
      exact List.mem_filter.mpr ⟨ha, by simpa using hne⟩
    | log j =>
      obtain ⟨out, hout⟩ := ha
      by_cases hj : j = x.1
      · -- another thread of the same container
        subst hj
        have hother : ∃ y ∈ s.tees.filter (· ≠ x), y.1 = x.1 := by simpa using hp
        obtain ⟨y, hy, hyx⟩ := hother
        exact ⟨y.2, hyx ▸ hy⟩
      · refine ⟨out, List.mem_filter.mpr ⟨hout, ?_⟩⟩
        simp only [decide_eq_true_eq]
        rintro rfl
        exact hj rfl
    | _ => exact ha
  · obtain ⟨hy, hne⟩ := List.mem_filter.mp hy
    exact ⟨hy, by simpa using hne⟩

/-- **The step lemma.** -/
theorem Idle.step {s' : Server} {l : Label} (h : Idle base leak s)
    (hstep : Descriptors.step s l = some s') : Idle base (leak ∨ l.Opens s) s' := by
  have hquiet {t : Server} (ht : Idle base leak t) : Idle base (leak ∨ False) t :=
    { ht with raw := by rw [ht.raw, or_false] }
  cases l with
  | call c o =>
    obtain rfl := Option.some.inj hstep
    exact h.call
  | dropSession k =>
    obtain ⟨-, hstep⟩ := Option.ite_none_right_eq_some.mp hstep
    obtain rfl := Option.some.inj hstep
    refine hquiet (h.closeIf (p := (· = .session k)) rfl (by simp) (by simp) (fun a ha hp => ?_)
      (fun x hx => ⟨hx, by simp⟩) h.known rfl)
    cases a with
    | session j =>
      have hne : j ≠ k := by simpa using hp
      exact List.mem_filter.mpr ⟨ha, by simpa using hne⟩
    | _ => exact ha
  | removeContainer id =>
    simp only [Descriptors.step] at hstep
    split at hstep
    · obtain rfl := Option.some.inj hstep
      exact hquiet h
    · obtain rfl := Option.some.inj hstep
      have hdrop := h.dropIo id
      refine hquiet { hdrop with
        owned := hdrop.owned
        target := fun _ hi => absurd hi List.not_mem_nil
        known := fun i hi => ?_ }
      obtain ⟨hstarted, hrec⟩ := hdrop.known i hi
      -- the entry of the removed container is gone
      have hne : i ≠ id := by
        rintro rfl
        simp [Server.dropIo] at hi
      refine ⟨hstarted, ?_⟩
      rw [containers_eraseContainer, if_neg hne]
      exact hrec
  | reap id =>
    obtain rfl := Option.some.inj hstep
    exact hquiet (h.dropIo id)
  | setContainer r =>
    obtain rfl := Option.some.inj hstep
    exact hquiet { h.toDuring.setContainer r.id r with noVar := h.noVar }
  | setSandbox r =>
    obtain rfl := Option.some.inj hstep
    exact hquiet { h with owned := h.owned, known := h.known, target := h.target }
  | eraseSandbox id =>
    obtain rfl := Option.some.inj hstep
    exact hquiet { h with owned := h.owned, known := h.known, target := h.target }
  | fork x =>
    obtain ⟨-, hstep⟩ := Option.ite_none_right_eq_some.mp hstep
    obtain rfl := Option.some.inj hstep
    exact hquiet { h with owned := h.owned, known := h.known, target := h.target }
  | letGo x =>
    obtain ⟨-, hstep⟩ := Option.ite_none_right_eq_some.mp hstep
    obtain rfl := Option.some.inj hstep
    exact hquiet { h with owned := h.owned, known := h.known, target := h.target }
  | eof x =>
    obtain ⟨-, hstep⟩ := Option.ite_none_right_eq_some.mp hstep
    obtain rfl := Option.some.inj hstep
    exact hquiet (h.endTee x)

theorem Idle.run {s' : Server} {ls : List Label} (h : Idle base leak s)
    (hrun : Foundations.run Descriptors.step s ls = some s') :
    Idle base (leak ∨ ¬Along Descriptors.step (fun s l => ¬l.Opens s) s ls) s' := by
  induction ls generalizing s leak with
  | nil =>
    obtain rfl := Option.some.inj hrun
    exact { h with raw := by simp [h.raw, Along] }
  | cons l ls ih =>
    obtain ⟨s₁, h₁, h₂⟩ := run_cons_eq_some.mp hrun
    have hend := ih (h.step h₁) h₂
    refine { hend with raw := hend.raw.trans ?_ }
    have halong : Along Descriptors.step (fun s l => ¬l.Opens s) s (l :: ls) ↔
        ¬l.Opens s ∧ Along Descriptors.step (fun s l => ¬l.Opens s) s₁ ls :=
      and_congr_right fun _ => ⟨fun hall => hall s₁ h₁, fun hs t ht => by
        obtain rfl := Option.some.inj (h₁.symm.trans ht)
        exact hs⟩
    rw [halong]
    tauto

theorem idle_init (t : Table Unit) (cache : Cache) : Idle t.numbers False (init t cache) := by
  have howners (a : Owner) (ha : a ∈ (init t cache).fds.owners) : a = .before := by
    rw [init, Table.owners_relabel] at ha
    obtain ⟨-, -, rfl⟩ := List.mem_map.mp ha
    rfl
  exact
    { before := t.held_relabel_const Owner.before
      owned := fun a ha => howners a ha ▸ True.intro
      reading := fun _ hx => absurd hx List.not_mem_nil
      known := fun id hid => by simp [init] at hid
      child := fun _ hc => absurd hc List.not_mem_nil
      live := fun _ hv => absurd hv List.not_mem_nil
      target := fun _ hi => absurd hi List.not_mem_nil
      raw := iff_of_false (fun ⟨_, hk⟩ => Owner.noConfusion (howners _ hk)) id
      noVar := fun _ hv => Owner.noConfusion (howners _ hv) }

/-! ## The balance -/

/-- The sessions have been dropped and the started containers removed, and the threads have ended
that are at the end of their output. -/
structure Server.Settled (s : Server) : Prop where
  sessions : s.sessions = []
  removed : ∀ id ∈ s.started, s.cache.containers[id]? = none
  tees : ∀ x ∈ s.tees, x ∈ s.holders

theorem Idle.numbers_iff (h : Idle base leak s) (hs : s.Settled) :
    (∀ n, n ∈ s.fds.numbers ↔ n ∈ base) ↔ ¬leak ∧ ∀ x ∈ s.tees, x ∉ s.holders := by
  rw [← h.before, Table.numbers_iff_owners]
  constructor
  · intro hall
    refine ⟨fun hleak => ?_, fun x hx => ?_⟩
    · obtain ⟨k, hk⟩ := h.raw.mpr hleak
      cases hall _ hk
    · cases hall _ (h.reading x hx)
  · rintro ⟨hleak, hheld⟩ a ha
    have hnotee (x : Nat × Output) (hx : x ∈ s.tees) : False := hheld x hx (hs.tees x hx)
    have hhas := h.owned a ha
    cases a with
    | before => rfl
    | var v => exact absurd ha (h.noVar v)
    | raw k => exact absurd (h.raw.mp ⟨k, ha⟩) hleak
    | session k =>
      have hmem : k ∈ s.sessions := hhas
      rw [hs.sessions] at hmem
      cases hmem
    | io id =>
      obtain ⟨hstarted, hrec⟩ := h.known id hhas
      rw [hs.removed id hstarted] at hrec
      cases hrec
    | tee x => exact (hnotee x hhas).elim
    | log k =>
      obtain ⟨out, hout⟩ := hhas
      exact (hnotee _ hout).elim

/-- In the child of a call its closures have closed the descriptors of the namespaces, whatever
happens to those of the listener. -/
theorem children_closed {t : Table Unit} {cache : Cache} {ls : List Label}
    (hrun : Foundations.run step (init t cache) ls = some s) :
    ∀ c ∈ s.children, .raw c.1 ∉ c.2.owners :=
  ((idle_init t cache).run hrun).child

/-- **Balance of descriptors.** When the calls have returned, the sessions have been dropped and the
started containers removed, the listener has the descriptors open that it had before, exactly if no
call has moved the descriptor of a namespace into a closure, and no process holds an output that is
still read. -/
theorem descriptors_balanced_iff {t : Table Unit} {cache : Cache} {ls : List Label}
    (hrun : Foundations.run step (init t cache) ls = some s) (hs : s.Settled) :
    (∀ n, n ∈ s.fds.numbers ↔ n ∈ t.numbers) ↔
      Along step (fun s l => ¬l.Opens s) (init t cache) ls ∧ ∀ x ∈ s.tees, x ∉ s.holders := by
  rw [((idle_init t cache).run hrun).numbers_iff hs, false_or, not_not]

/-- A container on the network of the host, in a given state. -/
def hostContainer (state : ContainerState) (pid : Nat) : ContainerRecord :=
  ⟨⟨"ct-1-0"⟩, ⟨"sb-1-0"⟩, { name := "web", imageRef := "nginx" }, state, 1, 0, 0, 0, "", "", pid⟩

/-- The standard streams. -/
def standardStreams : Table Unit := ⟨[(2, ()), (1, ()), (0, ())], by decide⟩

/-- The listener with that container. -/
def hostServer (state : ContainerState) (pid : Nat) : Server :=
  init standardStreams (Cache.empty.setContainer ⟨"ct-1-0"⟩ (hostContainer state pid))

/-- The container is started, its process ends, and it is removed. -/
def startedAndRemoved : List Label :=
  [.call (.startContainer ⟨"ct-1-0"⟩) {}, .letGo (0, .stdout), .letGo (0, .stderr),
    .eof (0, .stdout), .eof (0, .stderr), .reap ⟨"ct-1-0"⟩, .removeContainer ⟨"ct-1-0"⟩]

theorem descriptors_balanced_iff_host : ∃ s,
    Foundations.run step (hostServer .created 0) startedAndRemoved = some s ∧
      ((∀ n, n ∈ s.fds.numbers ↔ n ∈ [2, 1, 0]) ↔
        Along step (fun s l => ¬l.Opens s) (hostServer .created 0) startedAndRemoved ∧
          ∀ x ∈ s.tees, x ∉ s.holders) := by
  have hrun : (Foundations.run step (hostServer .created 0) startedAndRemoved).any fun s =>
      s.sessions = [] ∧ s.started = [⟨"ct-1-0"⟩] ∧
        (s.cache.containers[(⟨"ct-1-0"⟩ : ContainerId)]?).isNone ∧ s.tees = [] := by decide
  obtain ⟨s, hs, hend⟩ := (Option.any_eq_true _ _).mp hrun
  obtain ⟨hsessions, hstarted, hremoved, htees⟩ := of_decide_eq_true hend
  refine ⟨s, hs, descriptors_balanced_iff hs ⟨hsessions, fun id hid => ?_, fun x hx => by simp [htees] at hx⟩⟩
  rw [hstarted] at hid
  obtain rfl := List.mem_singleton.mp hid
  exact Option.isNone_iff_eq_none.mp hremoved

/-- One `exec_sync` that succeeds. -/
def execTrue : List Label := [.call (.execSync ⟨"ct-1-0"⟩ ["true"] 10) {}]

/-- **A successful `exec_sync` leaves two descriptors**: those of the mount and UTS namespaces. -/
theorem execSync_leaks :
    ¬ ∀ (t : Table Unit) (cache : Cache) (ls : List Label) (s : Server),
      Foundations.run step (init t cache) ls = some s → s.Settled →
        ∀ n, n ∈ s.fds.numbers ↔ n ∈ t.numbers := by
  intro h
  have hrun : (Foundations.run step (hostServer .running 100) execTrue).any fun s =>
      s.fds.numbers = [4, 3, 2, 1, 0] ∧ s.sessions = [] ∧ s.started = [] ∧ s.tees = [] := by
    decide
  obtain ⟨s, hs, hend⟩ := (Option.any_eq_true _ _).mp hrun
  obtain ⟨hnumbers, hsessions, hstarted, htees⟩ := of_decide_eq_true hend
  have hsettled : s.Settled :=
    ⟨hsessions, fun id hid => by simp [hstarted] at hid, fun x hx => by simp [htees] at hx⟩
  have hmem := (h _ _ _ s hs hsettled 3).mp (by rw [hnumbers]; decide)
  revert hmem
  decide

end LightrCri.Fake.Descriptors

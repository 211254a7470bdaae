import LightrCri.Fake.Launch

/-!
# At most one start

Concurrent `start_container` calls on one container. The Created check and the write of the
Running intent are two critical sections, so a second call can pass the check before the first
one writes its intent; both then spawn a process (`start_twice`). This is the only way to start
twice: when every intent is written over a record that is still Created, at most one call gets
past its intent, and so at most one process is spawned, at most one call returns Ok and the state
of the record only moves forward (`start_at_most_once`).
-/

namespace LightrCri.Fake

open Backend Foundations

/-! ## What is counted -/

/-- The place of a state along Created, Running, Exited. -/
def rank : ContainerState → Nat
  | .running => 1
  | .exited => 2
  | _ => 0

/-- A record that only moved forward, and was neither made nor dropped. -/
def Forward (r r' : Option ContainerRecord) : Prop :=
  r'.isSome = r.isSome ∧ ∀ x ∈ r, ∀ x' ∈ r', rank x.state ≤ rank x'.state

theorem Forward.refl (r : Option ContainerRecord) : Forward r r :=
  ⟨rfl, fun _ hx _ hx' => Option.mem_unique hx hx' ▸ Nat.le_refl _⟩

theorem Forward.trans {a b c : Option ContainerRecord} (h : Forward a b) (h' : Forward b c) :
    Forward a c := by
  refine ⟨h'.1.trans h.1, fun x hx z hz => ?_⟩
  have hb : b.isSome := by rw [h.1, Option.isSome_iff_exists.mpr ⟨x, hx⟩]
  obtain ⟨y, hy⟩ := Option.isSome_iff_exists.mp hb
  exact Nat.le_trans (h.2 x hx y hy) (h'.2 y hy z hz)

/-- The processes spawned for a container. -/
def World.spawned (w : World) (id : ContainerId) : Nat :=
  w.procs.countP fun p => p.owner = some id

/-- A `start_container(id)` call that returned Ok. -/
def Started (id : ContainerId) (t : Thread) : Bool :=
  match t.tag, t.result with
  | .call c, some (.ok _) => c = .startContainer id
  | _, _ => false

/-- The `start_container(id)` calls that returned Ok. -/
def startedCalls (s : State) (id : ContainerId) : Nat := s.tasks.countP (Started id)

/-- A step of `start_container(id)` calls, of reapers or of processes. -/
def startsOnly (id : ContainerId) : Label → Bool
  | .invoke c => c = .startContainer id
  | .restart _ => false
  | _ => true

/-- If the step writes a start intent, the record is still Created. -/
def intentOnCreated (s : State) : Label → Bool
  | .step i _ =>
    match s.top i with
    | some (.crit (.startIntent id)) =>
      s.shared.cache.containers[id]?.all fun r => r.state = .created
    | _ => true
  | _ => true

/-- At most one start of `id` since `s₀`; `s₁` is a state on the way to `s₂`. -/
structure StartedOnce (id : ContainerId) (s₀ s₁ s₂ : State) : Prop where
  spawned : s₂.shared.spawned id ≤ s₀.shared.spawned id + 1
  started : startedCalls s₂ id ≤ startedCalls s₀ id + 1
  forward : Forward s₁.shared.cache.containers[id]? s₂.shared.cache.containers[id]?

/-! ## Steps seen from one record -/

theorem forward_setContainer {c : Cache} {id : ContainerId} {r r' : ContainerRecord}
    (hr : c.containers[id]? = some r) (hle : rank r.state ≤ rank r'.state) (id' : ContainerId) :
    Forward c.containers[id']? (c.setContainer id r').containers[id']? := by
  rw [containers_setContainer]
  split
  · subst id'
    rw [hr]
    exact ⟨rfl, by rintro _ ⟨⟩ _ ⟨⟩; exact hle⟩
  · exact Forward.refl _

theorem rank_le_two (st : ContainerState) : rank st ≤ 2 := by
  cases st <;> decide

theorem StartStep.forward {id : ContainerId} {o : Oracle} {f : Frame} {w w' : World}
    {ph ph' : StartPhase} (h : StartStep id o f w w' ph ph')
    (hi : f = .crit (.startIntent id) → ∀ r ∈ w.cache.containers[id]?, r.state = .created) :
    Forward w.cache.containers[id]? w'.cache.containers[id]? := by
  cases h with
  | quiet _ hc | giveUp hc | spawn _ _ _ _ _ _ hc | lost _ _ _ hc =>
    rw [hc]
    exact Forward.refl _
  | intent r t hf hr hc =>
    rw [hc]
    refine forward_setContainer hr ?_ id
    rw [hi hf r hr]
    exact Nat.zero_le _
  | spawnFailed r t e hf hr hc =>
    rw [hc]
    exact forward_setContainer hr (rank_le_two _) id
  | persistPid q pid r hf hr hc =>
    rw [hc]
    refine forward_setContainer hr ?_ id
    exact Nat.le_refl _

theorem ReaperStep.forward {cid id : ContainerId} {q : Nat} {w w' : World} {b b' : Bool}
    (h : ReaperStep cid q w w' b b') :
    Forward w.cache.containers[id]? w'.cache.containers[id]? := by
  cases h with
  | quiet _ hc | wait _ _ _ _ hc =>
    rw [hc]
    exact Forward.refl _
  | reap r t code reason hr hrun hc =>
    rw [hc]
    exact forward_setContainer hr (rank_le_two _) id

/-- A process that changes its state keeps its owner. -/
theorem spawned_set {w : World} {q : Nat} {p : Proc} (p' : Proc) (hp : w.procs[q]? = some p)
    (ho : p'.owner = p.owner) (id : ContainerId) :
    ({ w with procs := w.procs.set q p' } : World).spawned id = w.spawned id := by
  obtain ⟨hq, rfl⟩ := List.getElem?_eq_some_iff.mp hp
  simp only [World.spawned]
  rw [List.countP_set hq, ho]
  split
  · rename_i h
    have : 0 < w.procs.countP fun p => p.owner = some id :=
      List.countP_pos_iff.mpr ⟨_, List.getElem_mem hq, h⟩
    omega
  · rfl

theorem spawned_append (w : World) (p : Proc) (id : ContainerId) :
    ({ w with procs := w.procs ++ [p] } : World).spawned id =
      w.spawned id + if p.owner = some id then 1 else 0 := by
  simp [World.spawned, List.countP_append, List.countP_cons]

/-! ## The invariant -/

/-- Whether a process is spawned by the phase. -/
def StartPhase.spawned : StartPhase → Nat
  | .launched _ _ _ => 1
  | _ => 0

/-- The tasks that have not passed an intent of `id`: starts that have not come so far, calls of
the past and reapers. -/
inductive Bystander (id : ContainerId) (t : Thread) : Prop
  | start (tag : t.tag = .call (.startContainer id))
    (stage : StartTask id .checking t.frames t.result)
  | ended (c : Call) (tag : t.tag = .call c) (frames : t.frames = [])
  | reaper (cid : ContainerId) (q : Nat) (b : Bool) (tag : t.tag = .reaper cid q)
    (stage : ReaperTask cid q b t.frames)

/-- The start `t`, in phase `ph`, is the only one past its intent. -/
structure Leader (id : ContainerId) (s₀ s : State) (i : Nat) (t : Thread) (ph : StartPhase) :
    Prop where
  task : s.tasks[i]? = some t
  tag : t.tag = .call (.startContainer id)
  stage : StartTask id ph t.frames t.result
  past : ph ≠ .checking
  others : ∀ j u, s.tasks[j]? = some u → j ≠ i → Bystander id u
  record : ∀ r ∈ s.shared.cache.containers[id]?, 0 < rank r.state
  spawned : s.shared.spawned id ≤ s₀.shared.spawned id + ph.spawned
  started : startedCalls s id ≤ startedCalls s₀ id + if Started id t then 1 else 0

/-- At most one start has passed its intent. -/
inductive OneStart (id : ContainerId) (s₀ s : State) : Prop
  | unled (tasks : ∀ t ∈ s.tasks, Bystander id t)
    (spawned : s.shared.spawned id = s₀.shared.spawned id)
    (started : startedCalls s id = startedCalls s₀ id)
  | led (i : Nat) (t : Thread) (ph : StartPhase) (leader : Leader id s₀ s i t ph)

/-- Only a start that spawned a process returns Ok. -/
theorem StartTask.started_eq_false {id : ContainerId} {ph : StartPhase} {t : Thread}
    (h : StartTask id ph t.frames t.result) (hph : ph.spawned = 0) : Started id t = false := by
  obtain ⟨tag, frames, result⟩ := t
  cases tag with
  | reaper => rfl
  | call c => cases h <;> first | rfl | cases hph

/-- A record that moved forward from a state after Created is not Created. -/
theorem Forward.ne_created {r r' : Option ContainerRecord} (h : Forward r r')
    (hr : ∀ x ∈ r, 0 < rank x.state) : ∀ x ∈ r', 0 < rank x.state := by
  intro x' hx'
  obtain ⟨x, hx⟩ := Option.isSome_iff_exists.mp (h.1 ▸ Option.isSome_iff_exists.mpr ⟨x', hx'⟩)
  exact Nat.lt_of_lt_of_le (hr x hx) (h.2 x hx x' hx')

/-- A task that has a frame to execute has not returned. -/
theorem StartTask.result_eq_none {id : ContainerId} {ph : StartPhase} {f : Frame}
    {k : List Frame} {res : Option Result} (h : StartTask id ph (f :: k) res) : res = none := by
  cases h <;> rfl

theorem Bystander.not_started {id : ContainerId} {t : Thread} {f : Frame} {k : List Frame}
    (h : Bystander id t) (hf : t.frames = f :: k) : Started id t = false := by
  cases h with
  | start tag stage => exact stage.started_eq_false rfl
  | ended c tag frames => exact absurd hf (by simp [frames])
  | reaper cid q b tag stage => simp [Started, tag]

theorem Bystander.of_child (id : ContainerId) {s s' : State} {i : Nat} {o : Oracle} {t : Thread}
    {f : Frame} {k : List Frame} {out : Out} (hadv : Pool.Advance exec s i o s' t f k out)
    {u : Thread} (hu : u ∈ out.children) : Bystander id u ∧ Started id u = false := by
  obtain ⟨cid, q, -, rfl⟩ := children_reaper hadv hu
  exact ⟨.reaper cid q false rfl .wait, rfl⟩

theorem Bystander.startedCalls_eq {id : ContainerId} {s s' : State} {i : Nat} {o : Oracle}
    {t : Thread} {f : Frame} {k : List Frame} {out : Out} (hb : Bystander id t)
    (hadv : Pool.Advance exec s i o s' t f k out) (hres : Started id (t.resume k out) = false) :
    startedCalls s' id = startedCalls s id := by
  have h := hadv.countP_tasks (hb.not_started hadv.frames) fun u hu =>
    (Bystander.of_child id hadv hu).2
  rw [hres] at h
  exact h

/-- What a step of a bystander leaves: a bystander, or a start that wrote its intent over a
Created record. -/
theorem Bystander.step {id : ContainerId} {s s' : State} {i : Nat} {o : Oracle} {t : Thread}
    {f : Frame} {k : List Frame} {out : Out} (hb : Bystander id t)
    (hadv : Pool.Advance exec s i o s' t f k out)
    (hi : f = .crit (.startIntent id) →
      ∀ r ∈ s.shared.cache.containers[id]?, r.state = .created) :
    s'.shared.spawned id = s.shared.spawned id ∧ Started id (t.resume k out) = false ∧
      Forward s.shared.cache.containers[id]? s'.shared.cache.containers[id]? ∧
      (Bystander id (t.resume k out) ∨
        (∃ r ∈ s.shared.cache.containers[id]?, r.state = .created) ∧
          t.tag = .call (.startContainer id) ∧
          StartTask id .launching (t.resume k out).frames (t.resume k out).result ∧
          ∀ r ∈ s'.shared.cache.containers[id]?, 0 < rank r.state) := by
  cases hb with
  | start tag stage =>
    obtain ⟨ph', hst, hstep⟩ := stage.step hadv.frames hadv.exec
    have hfwd := hstep.forward hi
    cases hstep with
    | quiet _ _ hp =>
      exact ⟨by rw [World.spawned, hp, World.spawned], hst.started_eq_false rfl, hfwd,
        Or.inl (.start (by simpa) hst)⟩
    | intent r x hf hr hc hp =>
      refine ⟨by rw [World.spawned, hp, World.spawned], hst.started_eq_false rfl, hfwd,
        Or.inr ⟨⟨r, hr, hi hf r hr⟩, tag, hst, ?_⟩⟩
      intro r' hr'
      rw [hc, containers_setContainer, if_pos rfl] at hr'
      obtain rfl := Option.some.inj hr'
      exact Nat.one_pos
  | ended c tag frames => exact absurd hadv.frames (by simp [frames])
  | reaper cid q b tag stage =>
    obtain ⟨b', hst, hstep⟩ := stage.step hadv.frames hadv.exec
    refine ⟨?_, by simp [Started, tag], hstep.forward, Or.inl (.reaper cid q b' (by simpa) hst)⟩
    cases hstep with
    | quiet _ _ hp | reap _ _ _ _ _ _ _ hp => rw [World.spawned, hp, World.spawned]
    | wait p st hproc _ _ hp =>
      rw [World.spawned, hp]
      exact spawned_set { p with state := .gone } hproc rfl id

theorem StartStep.spawned {id : ContainerId} {o : Oracle} {f : Frame} {w w' : World}
    {ph ph' : StartPhase} (h : StartStep id o f w w' ph ph') :
    w'.spawned id + ph.spawned = w.spawned id + ph'.spawned := by
  cases h with
  | quiet _ _ hp => rw [World.spawned, hp, World.spawned]
  | intent _ _ _ _ _ hp | giveUp _ hp | spawnFailed _ _ _ _ _ _ hp | persistPid _ _ _ _ _ _ hp
  | lost _ _ _ _ hp =>
    simp only [World.spawned, hp, StartPhase.spawned]
  | spawn io pid _ _ _ _ _ hp =>
    rw [World.spawned, hp]
    exact (congrArg (· + 0) (spawned_append w _ id)).trans (by simp [StartPhase.spawned])

theorem StartStep.past {id : ContainerId} {o : Oracle} {f : Frame} {w w' : World}
    {ph ph' : StartPhase} (h : StartStep id o f w w' ph ph') (hph : ph ≠ .checking) : ph' ≠ .checking := by
  cases h <;> first | exact hph | simp

/-- The leader moves on. -/
theorem Leader.own {id : ContainerId} {s₀ s s' : State} {i : Nat} {o : Oracle} {t : Thread}
    {ph : StartPhase} {f : Frame} {k : List Frame} {out : Out} (h : Leader id s₀ s i t ph)
    (hadv : Pool.Advance exec s i o s' t f k out)
    (hi : f = .crit (.startIntent id) →
      ∀ r ∈ s.shared.cache.containers[id]?, r.state = .created) :
    (∃ ph', Leader id s₀ s' i (t.resume k out) ph') ∧
      Forward s.shared.cache.containers[id]? s'.shared.cache.containers[id]? := by
  obtain ⟨ph', hst, hstep⟩ := h.stage.step hadv.frames hadv.exec
  have hfwd := hstep.forward hi
  have hnot : Started id t = false := by
    have hres : t.result = none := StartTask.result_eq_none (hadv.frames ▸ h.stage)
    simp [Started, h.tag, hres]
  have hcount : startedCalls s' id = startedCalls s id + if Started id (t.resume k out) then 1 else 0 :=
    hadv.countP_tasks hnot fun u hu => (Bystander.of_child id hadv hu).2
  refine ⟨⟨ph', ?_⟩, hfwd⟩
  constructor
  case task => exact hadv.getElem?_self
  case tag => rw [Task.resume_tag, h.tag]
  case stage => exact hst
  case past => exact hstep.past h.past
  case others =>
    intro j u hu hj
    rcases hadv.cases hu with ⟨rfl, -⟩ | ⟨-, hu⟩ | ⟨-, hu⟩
    · exact absurd rfl hj
    · exact h.others j u hu hj
    · exact (Bystander.of_child id hadv hu).1
  case record => exact hfwd.ne_created h.record
  case spawned =>
    have h₁ := hstep.spawned
    have h₂ := h.spawned
    omega
  case started =>
    have h₂ := h.started
    rw [hnot] at h₂
    rw [hcount]
    simpa using h₂

/-- **A step keeps at most one start past its intent.** -/
theorem OneStart.step {id : ContainerId} {s₀ s s' : State} {l : Label} (h : OneStart id s₀ s)
    (honly : startsOnly id l) (hint : intentOnCreated s l) (hstep : step s l = some s') :
    OneStart id s₀ s' ∧
      Forward s.shared.cache.containers[id]? s'.shared.cache.containers[id]? := by
  cases l with
  | restart rs => simp [startsOnly] at honly
  | invoke c =>
    obtain rfl : c = .startContainer id := by simpa [startsOnly] using honly
    obtain rfl := Option.some.inj hstep
    have hnew : Bystander id ⟨.call (.startContainer id), Call.frames (.startContainer id), none⟩ :=
      .start rfl .check
    have hcount : startedCalls (s.start (.call (.startContainer id)) (Call.frames (.startContainer id)))
        id = startedCalls s id := by
      simp [startedCalls, Pool.start, Started]
    refine ⟨?_, Forward.refl _⟩
    cases h with
    | unled tasks spawned hst =>
      refine .unled ?_ spawned (hcount.trans hst)
      intro u hu
      rcases Pool.mem_tasks_start.mp hu with hu | rfl
      · exact tasks u hu
      · exact hnew
    | led i t ph h =>
      have hi := (List.getElem?_eq_some_iff.mp h.task).1
      refine .led i t ph { h with task := ?_, others := ?_, started := hcount ▸ h.started }
      · rw [Pool.start, List.getElem?_append_left hi, h.task]
      · intro j u hu hj
        rw [Pool.start, List.getElem?_append] at hu
        split at hu
        · exact h.others j u hu hj
        · rw [List.getElem?_singleton] at hu
          split at hu
          · obtain rfl := Option.some.inj hu
            exact hnew
          · simp at hu
  | exit q st =>
    obtain ⟨p, hp, rfl⟩ := step_exit hstep
    have hsp := spawned_set (p.exit st) hp (by unfold Proc.exit; split <;> rfl) id
    refine ⟨?_, Forward.refl _⟩
    cases h with
    | unled tasks spawned hst => exact .unled tasks (hsp.trans spawned) hst
    | led i t ph h => exact .led i t ph { h with spawned := hsp ▸ h.spawned }
  | foreign pid =>
    obtain ⟨-, -, rfl⟩ := step_foreign hstep
    have hsp := spawned_append s.shared ⟨pid, none, false, .alive⟩ id
    rw [if_neg (by simp), Nat.add_zero] at hsp
    refine ⟨?_, Forward.refl _⟩
    cases h with
    | unled tasks spawned hst => exact .unled tasks (hsp.trans spawned) hst
    | led i t ph h => exact .led i t ph { h with spawned := hsp ▸ h.spawned }
  | step i o =>
    obtain ⟨t, f, k, out, hadv⟩ := Pool.advance_eq_some hstep
    have hi : f = .crit (.startIntent id) →
        ∀ r ∈ s.shared.cache.containers[id]?, r.state = .created := by
      rintro rfl r hr
      simpa [intentOnCreated, hadv.top_eq, Option.mem_def.mp hr] using hint
    cases h with
    | unled tasks spawned hst =>
      have hb := tasks t hadv.mem
      obtain ⟨hsp, hst', hfwd, hcase⟩ := hb.step hadv hi
      have hcount : startedCalls s' id = startedCalls s id := hb.startedCalls_eq hadv hst'
      refine ⟨?_, hfwd⟩
      rcases hcase with hb' | ⟨-, htag, hstage, hrec⟩
      · refine .unled ?_ (hsp.trans spawned) (hcount.trans hst)
        intro u hu
        rcases hadv.mem_cases hu with rfl | hu | hu
        · exact hb'
        · exact tasks u hu
        · exact (Bystander.of_child id hadv hu).1
      · refine .led i (t.resume k out) .launching
          ⟨hadv.getElem?_self, by simpa, hstage, by simp, ?_, hrec, by omega, by omega⟩
        intro j u hu hj
        rcases hadv.cases hu with ⟨rfl, -⟩ | ⟨-, hu⟩ | ⟨-, hu⟩
        · exact absurd rfl hj
        · exact tasks u (List.mem_of_getElem? hu)
        · exact (Bystander.of_child id hadv hu).1
    | led j u ph h =>
      by_cases hji : i = j
      · subst hji
        obtain rfl : u = t := Option.some.inj (h.task.symm.trans hadv.task)
        obtain ⟨⟨ph', h'⟩, hfwd⟩ := h.own hadv hi
        exact ⟨.led i _ ph' h', hfwd⟩
      · have hb := h.others i t hadv.task hji
        obtain ⟨hsp, hst', hfwd, hcase⟩ := hb.step hadv hi
        have hcount : startedCalls s' id = startedCalls s id := hb.startedCalls_eq hadv hst'
        rcases hcase with hb' | ⟨⟨r, hr, hcreated⟩, -⟩
        · refine ⟨.led j u ph ?_, hfwd⟩
          refine { h with
            task := hadv.getElem?_of_some (Ne.symm hji) h.task
            others := ?_
            record := hfwd.ne_created h.record
            spawned := hsp ▸ h.spawned
            started := hcount ▸ h.started }
          intro m v hv hm
          rcases hadv.cases hv with ⟨rfl, rfl⟩ | ⟨-, hv⟩ | ⟨-, hv⟩
          · exact hb'
          · exact h.others m v hv hm
          · exact (Bystander.of_child id hadv hv).1
        · have := h.record r hr
          simp [hcreated, rank] at this

/-! ## Runs -/

theorem OneStart.of_noCall {id : ContainerId} {s : State} (hr : Reapers s) (hn : NoCall s) :
    OneStart id s s := by
  refine .unled (fun t ht => ?_) rfl rfl
  cases h : t.tag with
  | call c => exact .ended c h (hn t ht (by rw [h]; rfl))
  | reaper cid q =>
    obtain ⟨b, hb⟩ := hr t ht cid q h
    exact .reaper cid q b h hb

theorem OneStart.startedOnce {id : ContainerId} {s₀ s₁ s₂ : State} (h : OneStart id s₀ s₂)
    (hfwd : Forward s₁.shared.cache.containers[id]? s₂.shared.cache.containers[id]?) :
    StartedOnce id s₀ s₁ s₂ := by
  cases h with
  | unled _ hsp hst => exact ⟨by omega, by omega, hfwd⟩
  | led i t ph h =>
    have hsp := h.spawned
    have hst := h.started
    have hone : ph.spawned ≤ 1 := by cases ph <;> simp [StartPhase.spawned]
    refine ⟨by omega, ?_, hfwd⟩
    split at hst <;> omega

/-- **At most one start.** Take any reachable state with no call in flight, any number of
concurrent starts of one container from there and any steps of reapers and processes. If each
intent is written over a record that is still Created, the starts spawn at most one process, at
most one of them returns Ok, and between any two states of the run the record moves forward. -/
theorem start_at_most_once {listener : Nat} {blake3 : String → String} {id : ContainerId}
    {ls₀ ls₁ ls₂ : List Label} {s₀ s₁ s₂ : State}
    (hreach : run step (init listener blake3) ls₀ = some s₀) (hidle : NoCall s₀)
    (honly : ∀ l ∈ ls₁ ++ ls₂, startsOnly id l)
    (hintent : Along step (fun s l => intentOnCreated s l) s₀ (ls₁ ++ ls₂))
    (h₁ : run step s₀ ls₁ = some s₁) (h₂ : run step s₁ ls₂ = some s₂) :
    StartedOnce id s₀ s₁ s₂ := by
  obtain ⟨hP₁, hP₂⟩ := (hintent.and_labels honly).append h₁
  have hone₁ : OneStart id s₀ s₁ :=
    invariant_run (fun s l s' hs hP hl => (hs.step hP.1 hP.2 hl).1)
      (OneStart.of_noCall (reapers_run hreach) hidle) hP₁ h₁
  have hone₂ : OneStart id s₀ s₂ :=
    invariant_run (fun s l s' hs hP hl => (hs.step hP.1 hP.2 hl).1) hone₁ hP₂ h₂
  refine hone₂.startedOnce ?_
  exact relation_run (R := fun s s' => Forward s.shared.cache.containers[id]?
      s'.shared.cache.containers[id]?) (fun s => Forward.refl _) (fun a b c => Forward.trans)
    (fun s l s' hs hP hl => hs.step hP.1 hP.2 hl) hone₁ hP₂ h₂

/-! ## Two runs -/

/-- Two starts pass the check, the first runs to its end and so does its process. -/
def racedStart : List Label :=
  [Label.invoke (.startContainer podContainer), .invoke (.startContainer podContainer),
    .step 2 {}, .step 3 {}] ++ steps 2 13 ++ Label.exit 0 (.exited 0) :: steps 4 6

/-- The second start goes on. -/
def secondStart : List Label := steps 3 5 ++ Label.step 3 { spawn := .ok 101 } :: steps 3 7

/-- **Starting twice.** Two concurrent starts both return Ok and spawn a process each, and the
second one takes the record from Exited back to Running. -/
theorem start_twice :
    ¬ ∀ (listener : Nat) (blake3 : String → String) (id : ContainerId)
      (ls₀ ls₁ ls₂ : List Label) (s₀ s₁ s₂ : State),
      run step (init listener blake3) ls₀ = some s₀ → NoCall s₀ →
      (∀ l ∈ ls₁ ++ ls₂, startsOnly id l) → run step s₀ ls₁ = some s₁ →
      run step s₁ ls₂ = some s₂ → StartedOnce id s₀ s₁ s₂ := by
  intro h
  have hrun : (run step podState (racedStart ++ secondStart)).any
      fun s => s.shared.spawned podContainer = 2 := by decide
  obtain ⟨s₂, hs₂, hspawned⟩ := (Option.any_eq_true _ _).mp hrun
  obtain ⟨s₁, h₁, h₂⟩ := run_append_eq_some.mp hs₂
  have honce := h 1 id podContainer podRun racedStart secondStart podState s₁ s₂ run_podRun
    (by decide) (by decide) h₁ h₂
  have hle := honce.spawned
  rw [of_decide_eq_true hspawned] at hle
  exact absurd hle (by decide)

/-- The first start spawns its process; then a second one is called, is refused by the check, and
the first one returns. -/
theorem start_at_most_once_pod : ∃ s₁ s₂,
    run step podState (.invoke (.startContainer podContainer) :: steps 2 7) = some s₁ ∧
      run step s₁ (.invoke (.startContainer podContainer) :: steps 3 1 ++ steps 2 7) = some s₂ ∧
      s₂.shared.spawned podContainer = 1 ∧ StartedOnce podContainer podState s₁ s₂ := by
  have hrun : (run step podState ((.invoke (.startContainer podContainer) :: steps 2 7) ++
      (.invoke (.startContainer podContainer) :: steps 3 1 ++ steps 2 7))).any
      fun s => s.shared.spawned podContainer = 1 := by decide
  obtain ⟨s₂, hs₂, hspawned⟩ := (Option.any_eq_true _ _).mp hrun
  obtain ⟨s₁, h₁, h₂⟩ := run_append_eq_some.mp hs₂
  exact ⟨s₁, s₂, h₁, h₂, of_decide_eq_true hspawned,
    start_at_most_once run_podRun (by decide) (by decide) (by decide) h₁ h₂⟩

end LightrCri.Fake

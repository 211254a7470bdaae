import LightrCri.Fake.ExitCodes
import LightrCri.Fake.Netns
import LightrCri.Fake.Progress
import LightrCri.Fake.Serial
import LightrCri.Fake.Start

/-!
# The times of a container

`created_at`, `started_at` and `finished_at` are readings of one clock, made by different tasks and
by different listeners. If the clock does not go back, they are in this order in every record that
is cached, stored or about to be written (`times_in_order`), as long as each start intent is written
over a record that is still Created. That it is needed shows `finished_before_started`: a second
start that has passed its check writes its time into a record whose reaper has read the clock
before.

A record is dated by the steps that make it (`Makes`). The time that a reaper carries is later than
that of the start, because the start cannot be written once there is a reaper (`Follows`), and the
id of a container is not used again (`Dated`).
-/

namespace LightrCri.Fake

open Backend Foundations

/-! ## Clocks and records -/

/-- The clock of the machine: its last reading, and that at which the listener was opened. -/
structure Clock where
  opened : Int
  now : Int
  deriving DecidableEq, Repr

/-- A clock that does not go back; the next listener reads a strictly later time. -/
def Clock.tick (c : Clock) : Label → Option Clock
  | .step _ o =>
    if c.now ≤ o.clock ∧ o.clock ≤ o.stamp then some { c with now := o.stamp } else none
  | .restart rs => if c.now < rs.clock then some ⟨rs.clock, rs.clock⟩ else none
  | _ => some c

theorem Clock.tick_step {c c' : Clock} {i : Nat} {o : Oracle} (h : c.tick (.step i o) = some c') :
    (c.now ≤ o.clock ∧ o.clock ≤ o.stamp) ∧ c' = ⟨c.opened, o.stamp⟩ := by
  simp only [Clock.tick] at h
  split at h
  · rename_i hon
    exact ⟨hon, (Option.some.inj h).symm⟩
  · cases h

theorem Clock.tick_restart {c c' : Clock} {rs : Restart} (h : c.tick (.restart rs) = some c') :
    c.now < rs.clock ∧ c' = ⟨rs.clock, rs.clock⟩ := by
  simp only [Clock.tick] at h
  split at h
  · rename_i hlater
    exact ⟨hlater, (Option.some.inj h).symm⟩
  · cases h

/-- The times of the record are in order, and not later than `now`. -/
structure ContainerRecord.InOrder (now : Int) (r : ContainerRecord) : Prop where
  created : r.createdAtNanos ≤ now
  unstarted : r.state = .created → r.startedAtNanos = 0 ∧ r.finishedAtNanos = 0
  started : r.state ≠ .created → r.createdAtNanos ≤ r.startedAtNanos ∧ r.startedAtNanos ≤ now
  running : r.state = .running → r.finishedAtNanos = 0
  finished : r.state = .exited → r.startedAtNanos ≤ r.finishedAtNanos ∧ r.finishedAtNanos ≤ now

namespace ContainerRecord.InOrder

variable {now now' : Int} {r : ContainerRecord}

theorem mono (h : r.InOrder now) (hle : now ≤ now') : r.InOrder now' where
  created := Int.le_trans h.created hle
  unstarted := h.unstarted
  started hne := ⟨(h.started hne).1, Int.le_trans (h.started hne).2 hle⟩
  running := h.running
  finished hex := ⟨(h.finished hex).1, Int.le_trans (h.finished hex).2 hle⟩

theorem new (hcreated : r.state = .created) (hle : r.createdAtNanos ≤ now)
    (hstarted : r.startedAtNanos = 0) (hfinished : r.finishedAtNanos = 0) : r.InOrder now where
  created := hle
  unstarted _ := ⟨hstarted, hfinished⟩
  started hne := absurd hcreated hne
  running _ := hfinished
  finished hno := by
    rw [hcreated] at hno
    cases hno

theorem starting (h : r.InOrder now) (hle : now ≤ now') (hcreated : r.state = .created) :
    (r.starting now').InOrder now' where
  created := Int.le_trans h.created hle
  unstarted hno := by cases hno
  started _ := ⟨Int.le_trans h.created hle, Int.le_refl _⟩
  running _ := (h.unstarted hcreated).2
  finished hno := by cases hno

theorem toExited (h : r.InOrder now) (hne : r.state ≠ .created) {finishedAt code : Int}
    {reason : String} (hat : r.startedAtNanos ≤ finishedAt) (hle : finishedAt ≤ now) :
    (r.toExited finishedAt code reason).InOrder now where
  created := h.created
  unstarted hno := by cases hno
  started _ := h.started hne
  running hno := by cases hno
  finished _ := ⟨hat, hle⟩

theorem recover (h : r.InOrder now) (hle : now ≤ now') (alive : Nat → Bool) :
    (recover alive now' r).InOrder now' := by
  have hexited : r.state = .running → ∀ reason, (r.toExited now' (-1) reason).InOrder now' :=
    fun hrun reason => by
      have hne : r.state ≠ .created := by rw [hrun]; decide
      exact (h.mono hle).toExited hne (Int.le_trans (h.started hne).2 hle) (Int.le_refl _)
  unfold Fake.recover
  split
  · rename_i hrun
    split
    · exact hexited hrun _
    · split
      · exact hexited hrun _
      · exact h.mono hle
  · exact h.mono hle

end ContainerRecord.InOrder

/-! ## Ids -/

/-- The id was made before the listener was opened, or from a counter value already given out. -/
def Dated (pre : String) (c : Clock) (counter : Nat) (id : String) : Prop :=
  ∃ n k, id = newId pre n k ∧ n ≤ c.now ∧ (n < c.opened ∨ k < counter)

/-- An id determines its reading of the clock. -/
theorem newId_clock {pre : String} {n n' : Int} {k : Nat} (h : newId pre n k = newId pre n' k) :
    n = n' := by
  have hl := congrArg String.toList h
  rw [toList_newId, toList_newId] at hl
  exact toString_int_injective (List.append_cancel_left (List.append_cancel_right hl))

/-- **A new id was not made before.** -/
theorem not_dated_newId {pre : String} {c : Clock} {counter : Nat} {n : Int} (hn : c.opened ≤ n) :
    ¬ Dated pre c counter (newId pre n counter) := by
  rintro ⟨n', k, hid, -, hold⟩
  obtain rfl := newId_counter hid
  obtain rfl := newId_clock hid
  omega

theorem Dated.mono {pre id : String} {c c' : Clock} {m m' : Nat} (h : Dated pre c m id)
    (hopened : c.opened = c'.opened) (hnow : c.now ≤ c'.now) (hm : m ≤ m') :
    Dated pre c' m' id := by
  obtain ⟨n, k, hid, hn, hold⟩ := h
  exact ⟨n, k, hid, Int.le_trans hn hnow,
    hold.imp (fun hlt => hopened ▸ hlt) fun hlt => Nat.lt_of_lt_of_le hlt hm⟩

/-- The next listener makes no id of the one before it. -/
theorem Dated.reopened {pre id : String} {c : Clock} {m : Nat} (h : Dated pre c m id) {now : Int}
    (hlt : c.now < now) (m' : Nat) : Dated pre ⟨now, now⟩ m' id := by
  obtain ⟨n, k, hid, hn, -⟩ := h
  have hlater : n < now := Int.lt_of_le_of_lt hn hlt
  exact ⟨n, k, hid, Int.le_of_lt hlater, .inl hlater⟩

/-! ## Starts and reapers -/

/-- Where a task is: a start and a reaper at one of their stages, and another call apart from
both. -/
inductive Staged (t : Thread) : Prop
  | start (id) (ph) (tag : t.tag = .call (.startContainer id))
    (stage : StartTask id ph t.frames t.result)
  | call (c) (tag : t.tag = .call c) (other : ∀ id, c ≠ .startContainer id)
    (apart : ∀ id, Apart id t)
  | reaper (id q b) (tag : t.tag = .reaper id q) (stage : ReaperTask id q b t.frames)

/-- The task is at work, and the start of the container has written its intent. -/
inductive Follows (id : ContainerId) (t : Thread) : Prop
  | start (ph) (tag : t.tag = .call (.startContainer id))
    (stage : StartTask id ph t.frames t.result) (past : ph ≠ .checking) (working : t.frames ≠ [])
  | reaper (q) (tag : t.tag = .reaper id q) (working : t.frames ≠ [])

/-- The new records of the container that a frame will put into the cache. -/
def Frame.inserting (id : ContainerId) : Frame → Nat
  | .crit (.insertContainer r) => if r.id = id then 1 else 0
  | _ => 0

section Tasks

variable {s s' : State} {i self n : Nat} {o : Oracle} {t u : Thread} {f : Frame} {k : List Frame}
  {w w' : World} {out : Out} {id : ContainerId}

theorem Staged.of_call (c : Call) : Staged ⟨.call c, c.frames, none⟩ := by
  by_cases hc : ∃ id, c = .startContainer id
  · obtain ⟨id, rfl⟩ := hc
    exact .start id .checking rfl .check
  · have hne : ∀ id, c ≠ .startContainer id := fun id h => hc ⟨id, h⟩
    exact .call c rfl hne fun id => callFrames_starts (hne id)

theorem not_follows_of_call (c : Call) : ¬ Follows id ⟨.call c, c.frames, none⟩ := by
  intro h
  cases h with
  | start ph tag stage past =>
    obtain rfl := Tag.call.inj tag
    cases stage
    exact past rfl
  | reaper q tag => cases tag

theorem Staged.resume (h : Staged t) (hf : t.frames = f :: k)
    (hex : exec self n o f w = some (w', out)) : Staged (t.resume k out) := by
  cases h with
  | start id ph tag stage =>
    obtain ⟨ph', stage', -⟩ := stage.step hf hex
    exact .start id ph' (by rw [Task.resume_tag, tag]) stage'
  | call c tag other apart =>
    exact .call c (by rw [Task.resume_tag, tag]) other fun id => (apart id).resume hf hex
  | reaper id q b tag stage =>
    obtain ⟨b', stage', -⟩ := stage.step hf hex
    exact .reaper id q b' (by rw [Task.resume_tag, tag]) stage'

/-- The frames of a start say whether it has written its intent. -/
theorem StartTask.checking_unique {ph : StartPhase} {fs : List Frame} {res : Option Result}
    (h : StartTask id .checking fs res) (hne : fs ≠ []) (h' : StartTask id ph fs res) :
    ph = .checking := by
  cases h with
  | refused => exact absurd rfl hne
  | check | fetch | prepare | intent => cases h'; rfl

/-- A task follows a start that did so before, or that has just written its intent. -/
theorem Follows.of_resume (hst : Staged t) (hf : t.frames = f :: k)
    (hex : exec self n o f w = some (w', out)) (h : Follows id (t.resume k out)) :
    Follows id t ∨ f = .crit (.startIntent id) ∧ ∃ r, w.cache.containers[id]? = some r := by
  have hworking : t.frames ≠ [] := by
    rw [hf]
    exact List.cons_ne_nil f k
  cases h with
  | reaper q tag =>
    rw [Task.resume_tag] at tag
    exact .inl (.reaper q tag hworking)
  | start ph' tag stage' past working =>
    rw [Task.resume_tag] at tag
    cases hst with
    | call c htag other => exact absurd (Tag.call.inj (htag.symm.trans tag)) (other id)
    | reaper id' q b htag => rw [htag] at tag; cases tag
    | start id' ph htag stage =>
      obtain rfl := Call.startContainer.inj (Tag.call.inj (htag.symm.trans tag))
      obtain ⟨ph₁, stage₁, hstep⟩ := stage.step hf hex
      by_cases hph : ph = .checking
      · subst hph
        cases hstep with
        | quiet => exact absurd (stage₁.checking_unique working stage') past
        | intent r _ frame present => exact .inr ⟨frame, r, present⟩
      · exact .inl (.start ph tag stage hph hworking)

/-- A reaper that is started follows the start that starts it. -/
theorem Staged.child (hst : Staged t) (hadv : Pool.Advance exec s i o s' t f k out)
    (hu : u ∈ out.children) : Staged u ∧ ∀ id, Follows id u → Follows id t := by
  obtain ⟨id', q, rfl, rfl⟩ := children_reaper hadv hu
  refine ⟨.reaper id' q false rfl .wait, fun id h => ?_⟩
  obtain rfl : id' = id := by
    cases h with
    | start ph tag => cases tag
    | reaper q' tag =>
      cases tag
      rfl
  have hfs : t.frames = .sys (.spawnReaper id' q) :: k := hadv.frames
  have hworking : t.frames ≠ [] := by
    rw [hfs]
    exact List.cons_ne_nil _ _
  cases hst with
  | call c tag other apart =>
    have hmem : Frame.sys (.spawnReaper id' q) ∈ t.frames := by
      rw [hfs]
      exact List.mem_cons_self
    exact absurd (apart id' _ hmem) (by simp [Frame.starts])
  | reaper id q b tag stage =>
    rw [hfs] at stage
    cases stage
  | start id ph tag stage =>
    have hstage := stage
    rw [hfs] at stage
    generalize t.result = res at stage
    cases stage with
    | spawnReaper q pid => exact .start _ tag hstage (by simp) hworking

/-- The frames of a start that has written its intent, and of a reaper, which say when the process
of the container has ended. -/
def Frame.late (id : ContainerId) : Frame → Bool
  | .crit (.spawnFailed id' _) => id' = id
  | .crit (.reap id' _ _) => id' = id
  | .sys (.wait id' _) => id' = id
  | _ => false

theorem StartTask.past_of_late {id' : ContainerId} {ph : StartPhase} {fs : List Frame}
    {res : Option Result} (h : StartTask id' ph fs res) {g : Frame} (hg : g ∈ fs)
    (hlate : g.late id) : ph ≠ .checking ∧ id' = id := by
  cases h <;> simp only [List.mem_cons, List.not_mem_nil, or_false] at hg
  all_goals
    rcases hg with rfl | rfl | rfl | rfl | rfl <;>
      first
        | exact ⟨by simp, of_decide_eq_true hlate⟩
        | cases hlate

theorem Staged.follows (hst : Staged t) {g : Frame} (hg : g ∈ t.frames) (hlate : g.late id) :
    Follows id t := by
  have hworking : t.frames ≠ [] := List.ne_nil_of_mem hg
  cases hst with
  | start id' ph tag stage =>
    obtain ⟨hph, rfl⟩ := stage.past_of_late hg hlate
    exact .start ph tag stage hph hworking
  | call c tag other apart =>
    have hstarts : g.starts id := by
      cases g with
      | crit c => cases c <;> first | exact hlate | cases hlate
      | sys s => cases s <;> first | exact hlate | cases hlate
      | _ => cases hlate
    rw [apart id g hg] at hstarts
    cases hstarts
  | reaper id' q b tag stage =>
    obtain rfl : id' = id := by
      generalize t.frames = fs at stage hg
      cases stage <;> simp only [List.mem_cons, List.not_mem_nil, or_false] at hg
      all_goals
        rcases hg with rfl | rfl <;>
          first
            | exact of_decide_eq_true hlate
            | cases hlate
    exact .reaper q tag hworking

/-- **Only the making of a container leads to its insertion.** -/
theorem exec_inserting (id : ContainerId) (hex : exec self n o f w = some (w', out)) :
    out.weight (Frame.inserting id) = 0 ∨ w'.cache = w.cache ∧
      out.weight (Frame.inserting id) = 1 ∧ id = ⟨newId "ct-" o.clock w.counter⟩ ∧
        ∃ sb cfg, f = .sys (.newContainer sb cfg) := by
  by_cases hf : ∃ sb cfg, f = .sys (.newContainer sb cfg)
  · obtain ⟨sb, cfg, rfl⟩ := hf
    obtain ⟨rfl, rfl⟩ := Prod.mk.inj (Option.some.inj hex)
    by_cases hid : (⟨newId "ct-" o.clock w.counter⟩ : ContainerId) = id
    · exact .inr ⟨rfl, by simp [Frame.inserting, hid], hid.symm, sb, cfg, rfl⟩
    · exact .inl (by simp [Frame.inserting, hid])
  · left
    rcases exec_weight (Frame.inserting id) hex with hout | ⟨id', q, -, hout⟩
    · rw [hout]
      rcases exec_pushes hex with h | h
      · rw [h]
        rfl
      · refine Nat.eq_zero_of_not_pos fun hpos => ?_
        obtain ⟨g, hg, hpos⟩ := weigh_pos_iff.mp hpos
        generalize out.pushed = fs at h hg
        have hzero : Frame.inserting id g = 0 := by
          cases h with
          | collectContainers =>
            exact forall_mem_collect (P := fun g => Frame.inserting id g = 0) (fun _ => rfl)
              (fun _ => rfl) rfl g hg
          | newContainer sb cfg => exact absurd ⟨sb, cfg, rfl⟩ hf
          | _ =>
            simp only [List.mem_cons, List.not_mem_nil, or_false] at hg
            rcases hg with rfl | rfl | rfl | rfl <;> rfl
        omega
    · rw [hout]
      rfl

theorem exec_counter_le (hex : exec self n o f w = some (w', out)) : w.counter ≤ w'.counter := by
  cases f with
  | crit c =>
    obtain ⟨-, hex⟩ := exec_crit_eq_some.mp hex
    cases c <;> simp only [Crit.exec] at hex <;> (repeat' split at hex)
    all_goals
      obtain ⟨rfl, -⟩ := Prod.mk.inj hex
      exact Nat.le_refl _
  | file g =>
    obtain ⟨rfl, -⟩ := exec_file_eq_some.mp hex
    exact Nat.le_of_eq (by rw [g.exec_eq o w])
  | sys s =>
    cases s <;> simp only [exec_sys, Sys.exec] at hex <;> (repeat' split at hex)
    all_goals first
      | cases hex
        done
      | obtain ⟨rfl, -⟩ := Prod.mk.inj (Option.some.inj hex)
        first
          | exact Nat.le_refl _
          | exact Nat.le_succ _
  | unlock | ret v | fail e =>
    obtain ⟨rfl, -⟩ := Prod.mk.inj (Option.some.inj hex)
    exact Nat.le_refl _

theorem inserting_pos {g : Frame} (h : 0 < g.inserting id) :
    ∃ r, g = .crit (.insertContainer r) ∧ r.id = id := by
  cases g with
  | crit c =>
    cases c with
    | insertContainer r =>
      refine ⟨r, rfl, ?_⟩
      by_contra hne
      rw [Frame.inserting, if_neg hne] at h
      exact absurd h (Nat.lt_irrefl 0)
    | _ => exact absurd h (Nat.lt_irrefl 0)
  | _ => exact absurd h (Nat.lt_irrefl 0)

/-- A reaper reads the clock when it has waited for its process. -/
theorem exec_reap {finishedAt : Int} {st : Except String WaitStatus}
    (hex : exec self n o f w = some (w', out))
    (hg : .crit (.reap id finishedAt st) ∈ out.pushed) :
    finishedAt = o.clock ∧ w'.cache = w.cache ∧ ∃ q, f = .sys (.wait id q) := by
  obtain ⟨q, rfl⟩ : ∃ q, f = .sys (.wait id q) := by
    rcases exec_pushes hex with h | h
    · rw [h] at hg
      cases hg
    · generalize out.pushed = fs at h hg
      cases h with
      | wait id' q t st' =>
        simp only [List.mem_cons, List.not_mem_nil, or_false, reduceCtorEq, false_or,
          Frame.crit.injEq, Crit.reap.injEq] at hg
        exact ⟨q, by rw [hg.1]⟩
      | collectContainers id' ids =>
        exact absurd rfl (forall_mem_collect (P := fun g => g ≠ .crit (.reap id finishedAt st))
          (by simp) (by simp) (by simp) _ hg)
      | _ => simp at hg
  simp only [exec_sys, Sys.exec] at hex
  split at hex
  · cases hex
  · split at hex
    · obtain ⟨rfl, rfl⟩ := Prod.mk.inj (Option.some.inj hex)
      simp only [Outcome.pushed, List.mem_cons, List.not_mem_nil, or_false, reduceCtorEq, false_or,
        Frame.crit.injEq, Crit.reap.injEq] at hg
      exact ⟨hg.2.1, rfl, q, rfl⟩
    · cases hex

/-- **Only a start intent changes when a container has started.** -/
theorem exec_startedAt {r' : ContainerRecord} (hex : exec self n o f w = some (w', out))
    (hr' : w'.cache.containers[id]? = some r') :
    (∃ r, w.cache.containers[id]? = some r ∧ r'.startedAtNanos = r.startedAtNanos) ∨
      f = .crit (.startIntent id) ∨ ∃ r, f = .crit (.insertContainer r) ∧ r.id = id := by
  have hmade : (∃ r, w.cache.containers[id]? = some r ∧ r'.startedAtNanos = r.startedAtNanos) ∨
      .container r' ∈ f.records ∨ Makes o w f (.container r') := by
    refine ((exec_derives hex).cached _ _ (Cache.get_container_eq_some hr')).imp_left fun hget => ?_
    obtain ⟨r, hr, hrec⟩ := Option.map_eq_some_iff.mp hget
    obtain rfl := DiskRecord.container.inj hrec
    exact ⟨r, hr, rfl⟩
  cases exec_record id hex with
  | same record => exact .inl ⟨r', record ▸ hr', rfl⟩
  | intent r t frame => exact .inr (.inl frame)
  | inserted r frame key => exact .inr (.inr ⟨r, frame, key⟩)
  | persistPid r pid frame old new =>
    obtain rfl := Option.some.inj (new.symm.trans hr')
    exact .inl ⟨r, old, rfl⟩
  | dropped frame new =>
    rw [new] at hr'
    cases hr'
  | spawnFailed _ _ e frame =>
    subst frame
    rcases hmade with hsame | hmem | hm
    · exact .inl hsame
    · cases hmem
    · cases hm with
      | born _ _ new => cases new
      | spawnFailed _ _ r cached => exact .inl ⟨r, cached, rfl⟩
  | stopped _ _ grace frame =>
    subst frame
    rcases hmade with hsame | hmem | hm
    · exact .inl hsame
    · cases hmem
    · cases hm with
      | born _ _ new => cases new
      | recordStopped _ _ r cached => exact .inl ⟨r, cached, rfl⟩
  | reaped _ _ t st frame =>
    subst frame
    rcases hmade with hsame | hmem | hm
    · exact .inl hsame
    · cases hmem
    · cases hm with
      | born _ _ new => cases new
      | reap _ _ _ r cached => exact .inl ⟨r, cached, rfl⟩

end Tasks

/-! ## The invariant -/

/-- The times of the records, and what the tasks know of them. -/
structure Timely (c : Clock) (s : State) : Prop where
  opened : c.opened ≤ c.now
  keyed : s.shared.cache.Keyed
  staged : ∀ t ∈ s.tasks, Staged t
  records : ∀ r, Known s (.container r) → r.InOrder c.now ∧
    Dated "ct-" c s.shared.counter r.id.val
  /-- A container is not Created once its start has written the intent. -/
  followed : ∀ t ∈ s.tasks, ∀ id, Follows id t → Dated "ct-" c s.shared.counter id.val ∧
    ∀ r, s.shared.cache.containers[id]? = some r → r.state ≠ .created
  /-- A reaper has read the clock after the start. -/
  reaps : ∀ t ∈ s.tasks, ∀ id finishedAt st, .crit (.reap id finishedAt st) ∈ t.frames →
    finishedAt ≤ c.now ∧
      ∀ r, s.shared.cache.containers[id]? = some r → r.startedAtNanos ≤ finishedAt
  /-- A new container is inserted once, and not started before. -/
  fresh : ∀ id, s.weight (Frame.inserting id) = 0 ∨ s.weight (Frame.inserting id) = 1 ∧
    s.shared.cache.containers[id]? = none ∧ ∀ t ∈ s.tasks, ¬ Follows id t

section Step

variable {c c' : Clock} {s s' : State} {i : Nat} {o : Oracle} {t : Thread} {f : Frame}
  {k : List Frame} {out : Out}

theorem Timely.cached (h : Timely c s) {id : ContainerId} {r : ContainerRecord}
    (hr : s.shared.cache.containers[id]? = some r) :
    r.InOrder c.now ∧ Dated "ct-" c s.shared.counter r.id.val :=
  h.records r (.cached _ (Cache.get_container_eq_some hr))

/-- The records that a step makes. -/
theorem Timely.makes (h : Timely c s) (hadv : Pool.Advance exec s i o s' t f k out)
    (hclock : c.now ≤ o.clock) (hstamp : o.clock ≤ o.stamp)
    (hint : intentOnCreated s (.step i o)) {r : ContainerRecord}
    (hm : Makes o s.shared f (.container r)) :
    r.InOrder o.stamp ∧ Dated "ct-" ⟨c.opened, o.stamp⟩ s'.shared.counter r.id.val := by
  have hf : f ∈ t.frames := by
    rw [hadv.frames]
    exact List.mem_cons_self
  have hmono : s.shared.counter ≤ s'.shared.counter := exec_counter_le hadv.exec
  have hnow : c.now ≤ o.stamp := Int.le_trans hclock hstamp
  have hcached : ∀ {id} {r₀ : ContainerRecord}, s.shared.cache.containers[id]? = some r₀ →
      r₀.InOrder c.now ∧ Dated "ct-" ⟨c.opened, o.stamp⟩ s'.shared.counter r₀.id.val := fun hr₀ =>
    ⟨(h.cached hr₀).1, (h.cached hr₀).2.mono rfl hnow hmono⟩
  cases hm with
  | born _ _ new =>
    cases f with
    | sys y =>
      cases y with
      | newContainer sb cfg =>
        obtain rfl := DiskRecord.container.inj (Option.some.inj new)
        refine ⟨.new rfl (Int.le_refl _) rfl rfl, ?_⟩
        have hcounter : s'.shared.counter = s.shared.counter + 1 := by
          have hex := hadv.exec
          obtain ⟨hw, -⟩ := Prod.mk.inj (Option.some.inj hex)
          rw [← hw]
        exact ⟨o.clock, s.shared.counter, rfl, hstamp, .inr (by omega)⟩
      | runSandbox cfg =>
        obtain ⟨n, -, hno⟩ := Option.map_eq_some_iff.mp new
        cases hno
      | pullImage ref =>
        simp only [Frame.born] at new
        split at new <;> cases new
      | _ => cases new
    | _ => cases new
  | startIntent id r₀ cached =>
    have hcreated : r₀.state = .created := by
      simpa [intentOnCreated, hadv.top_eq, cached] using hint
    obtain ⟨horder, hdated⟩ := hcached cached
    exact ⟨(horder.starting hclock hcreated).mono hstamp, hdated⟩
  | spawnFailed id e r₀ cached =>
    obtain ⟨horder, hdated⟩ := hcached cached
    have hfollows : Follows id t :=
      (h.staged t hadv.mem).follows hf (decide_eq_true rfl)
    have hne : r₀.state ≠ .created := (h.followed t hadv.mem id hfollows).2 r₀ cached
    have hexited : (r₀.toExited o.clock (-1) "spawn-failed").InOrder o.stamp :=
      (horder.mono hnow).toExited hne (Int.le_trans (horder.started hne).2 hclock) hstamp
    exact ⟨⟨hexited.created, hexited.unstarted, hexited.started, hexited.running,
      hexited.finished⟩, hdated⟩
  | persistPid id pid r₀ cached =>
    obtain ⟨horder, hdated⟩ := hcached cached
    have hlater := horder.mono hnow
    exact ⟨⟨hlater.created, hlater.unstarted, hlater.started, hlater.running, hlater.finished⟩,
      hdated⟩
  | recordStopped id grace r₀ cached running =>
    obtain ⟨horder, hdated⟩ := hcached cached
    have hne : r₀.state ≠ .created := by rw [running]; decide
    exact ⟨(horder.mono hnow).toExited hne (Int.le_trans (horder.started hne).2 hclock) hstamp,
      hdated⟩
  | reap id finishedAt st r₀ cached running =>
    obtain ⟨horder, hdated⟩ := hcached cached
    have hne : r₀.state ≠ .created := by rw [running]; decide
    obtain ⟨hread, hlate⟩ := h.reaps t hadv.mem id finishedAt st hf
    exact ⟨(horder.mono hnow).toExited hne (hlate r₀ cached) (Int.le_trans hread hnow), hdated⟩

/-- A start that has written its intent had before, or finds the record and makes it Running. -/
theorem Timely.follows (h : Timely c s) (hadv : Pool.Advance exec s i o s' t f k out) {u : Thread}
    {id : ContainerId} (hu : u ∈ s'.tasks) (hfollows : Follows id u) :
    (∃ v ∈ s.tasks, Follows id v) ∨
      f = .crit (.startIntent id) ∧ ∃ r, s.shared.cache.containers[id]? = some r := by
  rcases hadv.mem_cases hu with rfl | hu | hu
  · exact (hfollows.of_resume (h.staged t hadv.mem) hadv.frames hadv.exec).imp_left fun hold =>
      ⟨t, hadv.mem, hold⟩
  · exact .inl ⟨u, hu, hfollows⟩
  · exact .inl ⟨t, hadv.mem, ((h.staged t hadv.mem).child hadv hu).2 id hfollows⟩

/-- A container with a start that has written its intent is not inserted. -/
theorem Timely.not_inserted (h : Timely c s) (hadv : Pool.Advance exec s i o s' t f k out)
    {v : Thread} {id : ContainerId} (hv : v ∈ s.tasks) (hfollows : Follows id v)
    (r : ContainerRecord) (hf : f = .crit (.insertContainer r)) : r.id ≠ id := by
  rintro rfl
  have hpos : 0 < s.weight (Frame.inserting r.id) := by
    refine Pool.weight_pos_iff.mpr ⟨t, hadv.mem, f, ?_, ?_⟩
    · rw [hadv.frames]
      exact List.mem_cons_self
    · rw [hf, Frame.inserting, if_pos rfl]
      exact Nat.one_pos
  rcases h.fresh r.id with hzero | ⟨-, -, hnone⟩
  · omega
  · exact hnone v hv hfollows

theorem Timely.followed_advance (h : Timely c s) (hadv : Pool.Advance exec s i o s' t f k out)
    (hnow : c.now ≤ o.stamp) {u : Thread} {id : ContainerId} (hu : u ∈ s'.tasks)
    (hfollows : Follows id u) : Dated "ct-" ⟨c.opened, o.stamp⟩ s'.shared.counter id.val ∧
      ∀ r, s'.shared.cache.containers[id]? = some r → r.state ≠ .created := by
  have hmono : s.shared.counter ≤ s'.shared.counter := exec_counter_le hadv.exec
  rcases h.follows hadv hu hfollows with ⟨v, hv, hold⟩ | ⟨rfl, r, hr⟩
  · obtain ⟨hdated, hne⟩ := h.followed v hv id hold
    exact ⟨hdated.mono rfl hnow hmono,
      exec_not_created hadv.exec (h.not_inserted hadv hv hold) hne⟩
  · refine ⟨?_, fun r' hr' => ?_⟩
    · rw [← h.keyed.container hr]
      exact (h.cached hr).2.mono rfl hnow hmono
    · obtain ⟨-, hex⟩ := exec_crit_eq_some.mp hadv.exec
      simp only [Crit.exec, hr] at hex
      obtain ⟨hw, -⟩ := Prod.mk.inj hex
      rw [← hw] at hr'
      rw [World.setContainer, containers_setContainer, if_pos rfl] at hr'
      obtain rfl := Option.some.inj hr'
      exact ContainerState.noConfusion

theorem Timely.reaps_advance (h : Timely c s) (hadv : Pool.Advance exec s i o s' t f k out)
    (hclock : c.now ≤ o.clock) (hstamp : o.clock ≤ o.stamp)
    (hint : intentOnCreated s (.step i o)) {u : Thread} {id : ContainerId} {finishedAt : Int}
    {st : Except String WaitStatus} (hu : u ∈ s'.tasks)
    (hreap : .crit (.reap id finishedAt st) ∈ u.frames) : finishedAt ≤ o.stamp ∧
      ∀ r, s'.shared.cache.containers[id]? = some r → r.startedAtNanos ≤ finishedAt := by
  have hold : ∀ v ∈ s.tasks, .crit (.reap id finishedAt st) ∈ v.frames → finishedAt ≤ o.stamp ∧
      ∀ r, s'.shared.cache.containers[id]? = some r → r.startedAtNanos ≤ finishedAt := by
    intro v hv hmem
    obtain ⟨hread, hlate⟩ := h.reaps v hv id finishedAt st hmem
    have hfollows : Follows id v := (h.staged v hv).follows hmem (decide_eq_true rfl)
    refine ⟨Int.le_trans hread (Int.le_trans hclock hstamp), fun r' hr' => ?_⟩
    rcases exec_startedAt hadv.exec hr' with ⟨r, hr, hsame⟩ | rfl | ⟨r, hf, hkey⟩
    · rw [hsame]
      exact hlate r hr
    · obtain ⟨-, hex⟩ := exec_crit_eq_some.mp hadv.exec
      cases hr : s.shared.cache.containers[id]? with
      | none =>
        simp only [Crit.exec, hr] at hex
        obtain ⟨hw, -⟩ := Prod.mk.inj hex
        rw [← hw, hr] at hr'
        cases hr'
      | some r =>
        have hcreated : r.state = .created := by
          simpa [intentOnCreated, hadv.top_eq, hr] using hint
        exact absurd hcreated ((h.followed v hv id hfollows).2 r hr)
    · exact absurd hkey (h.not_inserted hadv hv hfollows r hf)
  rcases hadv.mem_cases hu with rfl | hu | hu
  · rcases Task.mem_resume hreap with hpushed | hk
    · obtain ⟨rfl, hcache, q, rfl⟩ := exec_reap hadv.exec hpushed
      have hwait : .sys (.wait id q) ∈ t.frames := by
        rw [hadv.frames]
        exact List.mem_cons_self
      have hfollows : Follows id t := (h.staged t hadv.mem).follows hwait (decide_eq_true rfl)
      refine ⟨hstamp, fun r hr => ?_⟩
      rw [hcache] at hr
      have hne : r.state ≠ .created := (h.followed t hadv.mem id hfollows).2 r hr
      exact Int.le_trans ((h.cached hr).1.started hne).2 hclock
    · refine hold t hadv.mem ?_
      rw [hadv.frames]
      exact List.mem_cons_of_mem f hk
  · exact hold u hu hreap
  · obtain ⟨id', q, -, rfl⟩ := children_reaper hadv hu
    cases List.mem_singleton.mp hreap

theorem Timely.fresh_advance (h : Timely c s) (hadv : Pool.Advance exec s i o s' t f k out)
    (hclock : c.now ≤ o.clock) (id : ContainerId) :
    s'.weight (Frame.inserting id) = 0 ∨ s'.weight (Frame.inserting id) = 1 ∧
      s'.shared.cache.containers[id]? = none ∧ ∀ u ∈ s'.tasks, ¬ Follows id u := by
  have hweight := hadv.weight_add_le (Frame.inserting id)
  rcases exec_inserting id hadv.exec with hout | ⟨hcache, hout, rfl, sb, cfg, rfl⟩
  · rcases h.fresh id with hzero | ⟨hone, hnone, hnot⟩
    · exact .inl (by omega)
    · by_cases hgone : s'.weight (Frame.inserting id) = 0
      · exact .inl hgone
      · refine .inr ⟨by omega, ?_, fun u hu hfollows => ?_⟩
        · cases exec_record id hadv.exec with
          | same record => rw [record, hnone]
          | dropped _ new => exact new
          | inserted r frame key =>
            rw [frame, Frame.inserting, if_pos key] at hweight
            omega
          | intent _ _ _ old | spawnFailed _ _ _ _ old | persistPid _ _ _ old
          | stopped _ _ _ _ old | reaped _ _ _ _ _ old =>
            rw [hnone] at old
            cases old
        · rcases h.follows hadv hu hfollows with ⟨v, hv, hold⟩ | ⟨-, r, hr⟩
          · exact hnot v hv hold
          · rw [hnone] at hr
            cases hr
  · have hnew : ∀ id : ContainerId, id = ⟨newId "ct-" o.clock s.shared.counter⟩ →
        ¬ Dated "ct-" c s.shared.counter id.val := by
      rintro _ rfl
      exact not_dated_newId (Int.le_trans h.opened hclock)
    have hzero : s.weight (Frame.inserting ⟨newId "ct-" o.clock s.shared.counter⟩) = 0 := by
      refine Nat.eq_zero_of_not_pos fun hpos => ?_
      obtain ⟨v, hv, g, hg, hinsert⟩ := Pool.weight_pos_iff.mp hpos
      obtain ⟨r, rfl, hkey⟩ := inserting_pos hinsert
      exact hnew r.id hkey (h.records r (.carried v _ hv hg List.mem_cons_self)).2
    by_cases hgone : s'.weight (Frame.inserting ⟨newId "ct-" o.clock s.shared.counter⟩) = 0
    · exact .inl hgone
    · refine .inr ⟨by omega, ?_, fun u hu hfollows => ?_⟩
      · rw [hcache]
        refine Option.eq_none_iff_forall_ne_some.mpr fun r hr => ?_
        exact hnew r.id (h.keyed.container hr) (h.cached hr).2
      · rcases h.follows hadv hu hfollows with ⟨v, hv, hold⟩ | ⟨hno, -⟩
        · exact hnew _ rfl (h.followed v hv _ hold).1
        · cases hno

theorem Timely.advance (h : Timely c s) (hadv : Pool.Advance exec s i o s' t f k out)
    (hstep : Fake.step s (.step i o) = some s') (hclock : c.now ≤ o.clock)
    (hstamp : o.clock ≤ o.stamp) (hint : intentOnCreated s (.step i o)) :
    Timely ⟨c.opened, o.stamp⟩ s' where
  opened := Int.le_trans h.opened (Int.le_trans hclock hstamp)
  keyed := exec_keyed h.keyed hadv.exec
  staged u hu := by
    rcases hadv.mem_cases hu with rfl | hu | hu
    · exact (h.staged t hadv.mem).resume hadv.frames hadv.exec
    · exact h.staged u hu
    · exact ((h.staged t hadv.mem).child hadv hu).1
  records r hr := by
    rcases known_step (l := .step i o) True.intro hstep hr with
      hold | ⟨i', o', f', heq, htop, hm⟩ | ⟨rs, r₀, heq, -⟩
    · obtain ⟨horder, hdated⟩ := h.records r hold
      have hnow := Int.le_trans hclock hstamp
      exact ⟨horder.mono hnow, hdated.mono rfl hnow (exec_counter_le hadv.exec)⟩
    · obtain ⟨rfl, rfl⟩ := Label.step.inj heq
      obtain rfl := Option.some.inj (hadv.top_eq.symm.trans htop)
      exact h.makes hadv hclock hstamp hint hm
    · cases heq
  followed u hu id hfollows :=
    h.followed_advance hadv (Int.le_trans hclock hstamp) hu hfollows
  reaps u hu id finishedAt st hreap := h.reaps_advance hadv hclock hstamp hint hu hreap
  fresh id := h.fresh_advance hadv hclock id

/-- A step that leaves the tasks, the cache and the files. -/
theorem Timely.of_same (h : Timely c s) (htasks : s'.tasks = s.tasks)
    (hcache : s'.shared.cache = s.shared.cache)
    (hcounter : s'.shared.counter = s.shared.counter)
    (hknown : ∀ r, Known s' r → Known s r) : Timely c s' where
  opened := h.opened
  keyed := hcache ▸ h.keyed
  staged := htasks ▸ h.staged
  records r hr := hcounter ▸ h.records r (hknown _ hr)
  followed := by
    rw [htasks, hcache, hcounter]
    exact h.followed
  reaps := by
    rw [htasks, hcache]
    exact h.reaps
  fresh id := by
    rw [Pool.weight, htasks, hcache]
    exact h.fresh id

theorem Timely.invoke (h : Timely c s) (call : Call) :
    Timely c (s.start (.call call) call.frames) where
  opened := h.opened
  keyed := h.keyed
  staged u hu := by
    rcases Pool.mem_tasks_start.mp hu with hu | rfl
    · exact h.staged u hu
    · exact .of_call call
  records r hr :=
    h.records r (known_of_outside (l := .invoke call) True.intro rfl (by simp) (by simp) hr)
  followed u hu id hfollows := by
    rcases Pool.mem_tasks_start.mp hu with hu | rfl
    · exact h.followed u hu id hfollows
    · exact absurd hfollows (not_follows_of_call call)
  reaps u hu id finishedAt st hreap := by
    rcases Pool.mem_tasks_start.mp hu with hu | rfl
    · exact h.reaps u hu id finishedAt st hreap
    · cases call <;> simp [Call.frames] at hreap
  fresh id := by
    have hzero : weigh (Frame.inserting id) call.frames = 0 := by cases call <;> rfl
    rw [Pool.weight_start, hzero, Nat.add_zero]
    refine (h.fresh id).imp_right fun hone => ⟨hone.1, hone.2.1, fun u hu => ?_⟩
    rcases Pool.mem_tasks_start.mp hu with hu | rfl
    · exact hone.2.2 u hu
    · exact not_follows_of_call call

theorem Timely.restart (h : Timely c s) {rs : Restart} (hreads : ReadsDisk s (.restart rs))
    (hlater : c.now < rs.clock) : Timely ⟨rs.clock, rs.clock⟩ ⟨s.shared.restart rs, []⟩ where
  opened := Int.le_refl _
  keyed := keyed_restart rs s.shared
  staged u hu := by cases hu
  records r hr := by
    rcases known_step (l := .restart rs) hreads rfl hr with
      hold | ⟨i, o, f, heq, -⟩ | ⟨rs', r₀, heq, hold, hrec⟩
    · obtain ⟨horder, hdated⟩ := h.records r hold
      exact ⟨horder.mono (Int.le_of_lt hlater), hdated.reopened hlater _⟩
    · cases heq
    · obtain rfl := Label.restart.inj heq
      obtain rfl := DiskRecord.container.inj hrec
      obtain ⟨horder, hdated⟩ := h.records r₀ hold
      refine ⟨horder.recover (Int.le_of_lt hlater) _, ?_⟩
      rw [recover_id]
      exact hdated.reopened hlater _
  followed u hu := by cases hu
  reaps u hu := by cases hu
  fresh id := .inl rfl

theorem Timely.step {l : Label} (h : Timely c s) (hreads : ReadsDisk s l)
    (hint : intentOnCreated s l) (htick : c.tick l = some c') (hstep : Fake.step s l = some s') :
    Timely c' s' := by
  cases l with
  | invoke call =>
    obtain rfl := Option.some.inj htick
    obtain rfl := Option.some.inj hstep
    exact h.invoke call
  | step i o =>
    obtain ⟨⟨hclock, hstamp⟩, rfl⟩ := Clock.tick_step htick
    obtain ⟨t, f, k, out, hadv⟩ := Pool.advance_eq_some hstep
    exact h.advance hadv hstep hclock hstamp hint
  | exit q st =>
    obtain rfl := Option.some.inj htick
    have hsame := fun r => known_of_outside (r := r) hreads hstep (by simp) (by simp)
    obtain ⟨p, -, rfl⟩ := step_exit hstep
    exact h.of_same rfl rfl rfl hsame
  | foreign pid =>
    obtain rfl := Option.some.inj htick
    have hsame := fun r => known_of_outside (r := r) hreads hstep (by simp) (by simp)
    obtain ⟨-, -, rfl⟩ := step_foreign hstep
    exact h.of_same rfl rfl rfl hsame
  | restart rs =>
    obtain ⟨hlater, rfl⟩ := Clock.tick_restart htick
    obtain rfl := Option.some.inj hstep
    exact h.restart hreads hlater

end Step

/-! ## Runs -/

theorem Timely.init (c : Clock) (hopened : c.opened ≤ c.now) (listener : Nat)
    (blake3 : String → String) : Timely c (init listener blake3) where
  opened := hopened
  keyed ob r h := by simp [Fake.init] at h
  staged u hu := by cases hu
  records r hr := absurd hr (not_known_init listener blake3)
  followed u hu := by cases hu
  reaps u hu := by cases hu
  fresh id := .inl rfl

/-- **The times of a container are in order**, over every run whose clock does not go back and in
which each start intent is written over a Created record: in every record that is cached, stored or
about to be written, and in the status that the backend shows. -/
theorem times_in_order {listener : Nat} {blake3 : String → String} {ls : List Label}
    {opened : Int} {c : Clock} {s : State}
    (hreads : Along step ReadsDisk (init listener blake3) ls)
    (hintent : Along step (fun s l => intentOnCreated s l) (init listener blake3) ls)
    (hclock : run Clock.tick ⟨opened, opened⟩ ls = some c)
    (hrun : run step (init listener blake3) ls = some s) :
    (∀ r, Known s (.container r) → r.InOrder c.now) ∧
      ∀ id st, containerStatus s.shared.cache id = .ok st →
        (st.state ≠ .created → st.createdAtNanos ≤ st.startedAtNanos) ∧
          (st.state = .exited → st.startedAtNanos ≤ st.finishedAtNanos) := by
  have htimely : Timely c s := by
    refine invariant_run_both (I := Timely) ?_
      (.init ⟨opened, opened⟩ (Int.le_refl _) listener blake3) (hreads.and hintent) hclock hrun
    intro c s l c' s' h hP htick hstep
    exact h.step hP.1 hP.2 htick hstep
  refine ⟨fun r hr => (htimely.records r hr).1, fun id st hst => ?_⟩
  unfold containerStatus at hst
  split at hst
  · cases hst
  · rename_i r hr
    obtain rfl := Except.ok.inj hst
    have horder := (htimely.cached hr).1
    exact ⟨fun hne => (horder.started hne).1, fun hex => (horder.finished hex).1⟩

/-! ## Two runs -/

/-- Task `i` takes `n` steps at the time `now`. -/
def stepsAt (now : Int) (i n : Nat) : List Label :=
  List.replicate n (.step i { clock := now, stamp := now })

def timedContainer : ContainerId := ⟨"ct-2-1"⟩

/-- A container is created at the time 2, started at 3, and ends at 4. -/
def timedRun : List Label :=
  .invoke (.runSandbox { name := "pod" }) :: stepsAt 1 0 5 ++
    .invoke (.createContainer ⟨"sb-1-0"⟩ { name := "main", imageRef := "img" }) :: stepsAt 2 1 6 ++
    .invoke (.startContainer timedContainer) :: stepsAt 3 2 14 ++
    .exit 0 (.exited 3) :: stepsAt 4 3 6

theorem times_in_order_timedRun : ∃ c s st, run Clock.tick ⟨0, 0⟩ timedRun = some c ∧
    run step (init 1 id) timedRun = some s ∧
      containerStatus s.shared.cache timedContainer = .ok st ∧ st.state = .exited ∧
        st.createdAtNanos ≤ st.startedAtNanos ∧ st.startedAtNanos ≤ st.finishedAtNanos := by
  obtain ⟨c, hc⟩ : ∃ c, run Clock.tick ⟨0, 0⟩ timedRun = some c :=
    Option.isSome_iff_exists.mp (by decide)
  have hrun : (run step (init 1 id) timedRun).any fun s =>
      (containerStatus s.shared.cache timedContainer).toOption.any fun st =>
        st.state = .exited := by decide
  obtain ⟨s, hs, hend⟩ := (Option.any_eq_true _ _).mp hrun
  obtain ⟨st, hst, hend⟩ := (Option.any_eq_true _ _).mp hend
  have hexited := of_decide_eq_true hend
  have hok := toOption_eq_some hst
  have horder := (times_in_order (by decide) (by decide) hc hs).2 _ _ hok
  exact ⟨c, s, st, hc, hs, hok, hexited, horder.1 (by rw [hexited]; decide), horder.2 hexited⟩

/-- Two starts pass the check, and the process of the first one has ended at the time 1; then the
second one writes its intent, at the time 2, and the reaper its record. -/
def racedTimes : List Label :=
  podRun ++ [Label.invoke (.startContainer podContainer), .invoke (.startContainer podContainer),
    .step 2 {}, .step 3 {}] ++ steps 2 13 ++ Label.exit 0 (.exited 0) :: stepsAt 1 4 1 ++
    stepsAt 2 3 5 ++ stepsAt 3 4 5

/-- **Finished before it started.** Of two starts that race, the later one dates the record that the
reaper of the first one is about to end. -/
theorem finished_before_started :
    ¬ ∀ (listener : Nat) (blake3 : String → String) (ls : List Label) (opened : Int) (c : Clock)
      (s : State), Along step ReadsDisk (init listener blake3) ls →
      run Clock.tick ⟨opened, opened⟩ ls = some c → run step (init listener blake3) ls = some s →
      ∀ id st, containerStatus s.shared.cache id = .ok st → st.state = .exited →
        st.startedAtNanos ≤ st.finishedAtNanos := by
  intro h
  obtain ⟨c, hc⟩ : ∃ c, run Clock.tick ⟨0, 0⟩ racedTimes = some c :=
    Option.isSome_iff_exists.mp (by decide)
  have hrun : (run step (init 1 id) racedTimes).any fun s =>
      (containerStatus s.shared.cache podContainer).toOption.any fun st =>
        st.state = .exited ∧ st.finishedAtNanos < st.startedAtNanos := by decide
  obtain ⟨s, hs, hend⟩ := (Option.any_eq_true _ _).mp hrun
  obtain ⟨st, hst, hend⟩ := (Option.any_eq_true _ _).mp hend
  obtain ⟨hexited, hlt⟩ := of_decide_eq_true hend
  have hle := h 1 id racedTimes 0 c s (by decide) hc hs _ _ (toOption_eq_some hst) hexited
  omega

end LightrCri.Fake

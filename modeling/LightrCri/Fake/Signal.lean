import LightrCri.Fake.Reopen
import LightrCri.Fake.Stop

/-!
# Signals and reused process ids

A stop reads the process id of the container from its record, gives up the lock and signals that
number, up to two times. In between the process may end and be waited for, and the kernel give its
number to another. A listener that reopens the state root takes the numbers from the files, and asks
of a number only whether any process has it.

`signals_own` says that every signal reaches the process of the container or none, in all runs in
which no number that the backend still holds for a container goes to another process
(`Unreused`). `signalled_foreign` is a run in which one does.
-/

namespace LightrCri.Fake

open Backend Foundations

/-! ## What is held -/

/-- Every process that has the number was spawned for the container. -/
def World.Owns (w : World) (pid : Nat) (id : ContainerId) : Prop :=
  ∀ p ∈ w.procs, p.pid = pid → p.state ≠ .gone → p.owner = some id

/-- The container whose end a stop waits for. -/
def Frame.awaits : Frame → Option ContainerId
  | .crit (.waitGrace id _) => some id
  | .crit (.waitKilled id) => some id
  | _ => none

/-- The numbers that a stack holds, each with the container that it was read from. A kill is for the
container that is waited for after it. -/
def held : List Frame → List (ContainerId × Nat)
  | [] => []
  | .sys (.kill pid _) :: k => ((k.head?.bind Frame.awaits).map (·, pid)).toList ++ held k
  | .crit (.waitGrace id pid) :: k => (id, pid) :: held k
  | .crit (.persistPid id pid) :: k => (id, pid) :: held k
  | _ :: k => held k

/-- The frame holds no number. -/
def Frame.free : Frame → Bool
  | .sys (.kill _ _) => false
  | .crit (.waitGrace _ _) => false
  | .crit (.persistPid _ _) => false
  | _ => true

theorem held_cons_of_free {f : Frame} (h : f.free = true) (k : List Frame) :
    held (f :: k) = held k := by
  cases f with
  | crit c => cases c <;> first | rfl | cases h
  | sys s => cases s <;> first | rfl | cases h
  | _ => rfl

theorem held_append_of_free {fs : List Frame} (h : ∀ f ∈ fs, f.free = true) (k : List Frame) :
    held (fs ++ k) = held k := by
  induction fs with
  | nil => rfl
  | cons f fs ih =>
    rw [List.cons_append, held_cons_of_free (h f List.mem_cons_self)]
    exact ih fun g hg => h g (List.mem_cons_of_mem _ hg)

theorem held_subset (f : Frame) (k : List Frame) : ∀ h ∈ held k, h ∈ held (f :: k) := by
  intro h hh
  cases f with
  | crit c => cases c <;> first | exact hh | exact List.mem_cons_of_mem _ hh
  | sys s => cases s <;> first | exact hh | exact List.mem_append_right _ hh
  | _ => exact hh

/-- A kill is followed by the wait for the end of a container. -/
def Followed : List Frame → Prop
  | [] => True
  | .sys (.kill _ _) :: k => (k.head?.bind Frame.awaits).isSome = true ∧ Followed k
  | _ :: k => Followed k

theorem followed_cons_of_free {f : Frame} (h : f.free = true) (k : List Frame) :
    Followed (f :: k) ↔ Followed k := by
  cases f with
  | crit c => exact Iff.rfl
  | sys s => cases s <;> first | exact Iff.rfl | cases h
  | _ => exact Iff.rfl

theorem followed_append_of_free {fs : List Frame} (h : ∀ f ∈ fs, f.free = true) (k : List Frame) :
    Followed (fs ++ k) ↔ Followed k := by
  induction fs with
  | nil => exact Iff.rfl
  | cons f fs ih =>
    rw [List.cons_append, followed_cons_of_free (h f List.mem_cons_self)]
    exact ih fun g hg => h g (List.mem_cons_of_mem _ hg)

theorem Followed.tail {f : Frame} {k : List Frame} (h : Followed (f :: k)) : Followed k := by
  cases f with
  | sys s => cases s <;> first | exact h | exact h.2
  | _ => exact h

theorem free_cascade (ids : List ContainerId) : ∀ f ∈ cascade ids, f.free = true := by
  intro f hf
  obtain ⟨cid, -, hf⟩ := List.mem_flatMap.mp hf
  rcases List.mem_cons.mp hf with rfl | hf
  · rfl
  · rw [List.mem_singleton.mp hf]
    rfl

theorem free_call (c : Call) : ∀ f ∈ c.frames, f.free = true := by
  cases c <;> simp [Call.frames, Frame.free]

/-! ## What a step holds -/

variable {self n : Nat} {o : Oracle} {f : Frame} {w w' : World} {out : Out} {k : List Frame}

/-- The frames that a step pushes hold only a number that they had, that of a Running record, or
that of the process that is spawned. -/
structure Aim (f : Frame) (o : Oracle) (w : World) (out : Out) : Prop where
  held : ∀ k, ∀ h ∈ held (out.pushed ++ k), h ∈ Fake.held (f :: k) ∨
    (∃ r, w.cache.containers[h.1]? = some r ∧ r.state = .running ∧ 0 < h.2 ∧ r.pid = h.2) ∨
    ∃ io, f = .sys (.spawn h.1 io) ∧ o.spawn = .ok h.2 ∧ 0 < h.2 ∧ w.pidAlive h.2 = false
  followed : ∀ k, Followed (f :: k) → Followed (out.pushed ++ k)

theorem Aim.of_free (h : ∀ g ∈ out.pushed, g.free = true) : Aim f o w out where
  held k x hx := by
    rw [held_append_of_free h] at hx
    exact .inl (held_subset f k x hx)
  followed k hf := (followed_append_of_free h k).mpr hf.tail

theorem Crit.exec_aim {c : Crit} (hex : c.exec self o w = (w', out)) : Aim (.crit c) o w out := by
  cases c with
  | stopContainer id grace =>
    simp only [Crit.exec] at hex
    split at hex
    · obtain ⟨-, rfl⟩ := Prod.mk.inj hex
      exact .of_free (by simp [Outcome.pushed])
    · rename_i r hr
      split at hex
      · rename_i hrun
        split at hex
        · rename_i hpos
          split at hex
          · obtain ⟨-, rfl⟩ := Prod.mk.inj hex
            refine ⟨fun k x hx => ?_, fun k hf => ⟨rfl, hf⟩⟩
            rcases List.mem_cons.mp hx with rfl | hx
            · exact .inr (.inl ⟨r, hr, hrun, hpos, rfl⟩)
            · rcases List.mem_cons.mp hx with rfl | hx
              · exact .inr (.inl ⟨r, hr, hrun, hpos, rfl⟩)
              · exact .inl hx
          · obtain ⟨-, rfl⟩ := Prod.mk.inj hex
            refine ⟨fun k x hx => ?_, fun k hf => ⟨rfl, hf⟩⟩
            rcases List.mem_cons.mp hx with rfl | hx
            · exact .inr (.inl ⟨r, hr, hrun, hpos, rfl⟩)
            · exact .inl hx
        · obtain ⟨-, rfl⟩ := Prod.mk.inj hex
          exact .of_free (by simp [Outcome.pushed, Frame.free])
      · obtain ⟨-, rfl⟩ := Prod.mk.inj hex
        exact .of_free (by simp [Outcome.pushed])
  | waitGrace id pid =>
    simp only [Crit.exec] at hex
    split at hex
    · obtain ⟨-, rfl⟩ := Prod.mk.inj hex
      exact .of_free (by simp [Outcome.pushed])
    · split at hex
      · split at hex
        · obtain ⟨-, rfl⟩ := Prod.mk.inj hex
          exact ⟨fun k x hx => .inl hx, fun k hf => ⟨rfl, hf⟩⟩
        · obtain ⟨-, rfl⟩ := Prod.mk.inj hex
          exact ⟨fun k x hx => .inl hx, fun k hf => hf⟩
      · obtain ⟨-, rfl⟩ := Prod.mk.inj hex
        exact .of_free (by simp [Outcome.pushed])
  | collectContainers id =>
    simp only [Crit.exec] at hex
    split at hex
    · obtain ⟨-, rfl⟩ := Prod.mk.inj hex
      exact .of_free (by simp [Outcome.pushed])
    · obtain ⟨-, rfl⟩ := Prod.mk.inj hex
      refine .of_free fun g hg => ?_
      rcases List.mem_append.mp hg with hg | hg
      · exact free_cascade _ g hg
      · rw [List.mem_singleton.mp hg]
        rfl
  | _ =>
    simp only [Crit.exec] at hex
    repeat' split at hex
    all_goals
      obtain ⟨-, rfl⟩ := Prod.mk.inj hex
      exact .of_free (by simp [Outcome.pushed, Frame.free])

/-- **What a step may signal.** -/
theorem exec_aim (hex : exec self n o f w = some (w', out)) : Aim f o w out := by
  cases f with
  | crit c => exact Crit.exec_aim (exec_crit_eq_some.mp hex).2
  | file g =>
    obtain ⟨-, rfl⟩ := exec_file_eq_some.mp hex
    refine .of_free fun x hx => ?_
    obtain ⟨f', rfl⟩ := FileOp.pushed_file hx
    rfl
  | sys s =>
    cases s with
    | spawn id io =>
      simp only [exec_sys, Sys.exec] at hex
      split at hex
      · obtain ⟨-, rfl⟩ := Prod.mk.inj (Option.some.inj hex)
        exact .of_free (by simp [Outcome.pushed, Frame.free])
      · rename_i pid hpid
        split at hex
        · rename_i hfresh
          obtain ⟨-, rfl⟩ := Prod.mk.inj (Option.some.inj hex)
          have hheld (fs : List Frame) (hfs : ∀ k, held (fs ++ k) = (id, pid) :: held k) (k)
              (x) (hx : x ∈ held (fs ++ k)) : x ∈ held (.sys (.spawn id io) :: k) ∨
              (∃ r, w.cache.containers[x.1]? = some r ∧ r.state = .running ∧ 0 < x.2 ∧
                r.pid = x.2) ∨
              ∃ io', Frame.sys (.spawn id io) = .sys (.spawn x.1 io') ∧ o.spawn = .ok x.2 ∧
                0 < x.2 ∧ w.pidAlive x.2 = false := by
            rw [hfs] at hx
            rcases List.mem_cons.mp hx with rfl | hx
            · exact .inr (.inr ⟨io, rfl, hpid, hfresh⟩)
            · exact .inl hx
          cases io.tty with
          | true => exact ⟨hheld _ fun _ => rfl, fun k hf => hf⟩
          | false => exact ⟨hheld _ fun _ => rfl, fun k hf => hf⟩
        · cases hex
    | _ =>
      simp only [exec_sys, Sys.exec] at hex
      repeat' split at hex
      all_goals first
        | (obtain ⟨-, rfl⟩ := Prod.mk.inj (Option.some.inj hex)
           exact .of_free (by simp [Outcome.pushed, Frame.free]))
        | cases hex
  | unlock | ret v | fail e =>
    obtain ⟨-, rfl⟩ := Prod.mk.inj (Option.some.inj hex)
    exact .of_free (by simp [Outcome.pushed])

/-! ## The processes -/

/-- What a step does to the processes that have a number: they had it before, or one is spawned. -/
theorem exec_numbers (hex : exec self n o f w = some (w', out)) :
    (∀ p' ∈ w'.procs, p'.state ≠ .gone →
      ∃ p ∈ w.procs, p.pid = p'.pid ∧ p.owner = p'.owner ∧ p.state ≠ .gone) ∨
    ∃ id io pid, f = .sys (.spawn id io) ∧ o.spawn = .ok pid ∧
      w'.procs = w.procs ++ [⟨pid, some id, true, .alive⟩] := by
  have hsame (h : w'.procs = w.procs) : ∀ p' ∈ w'.procs, p'.state ≠ .gone →
      ∃ p ∈ w.procs, p.pid = p'.pid ∧ p.owner = p'.owner ∧ p.state ≠ .gone :=
    fun p' hp' hstate => ⟨p', h ▸ hp', rfl, rfl, hstate⟩
  cases f with
  | crit c =>
    obtain ⟨-, hex⟩ := exec_crit_eq_some.mp hex
    exact .inl (hsame (by simpa only [hex] using c.exec_procs self o w))
  | file g =>
    obtain ⟨rfl, -⟩ := exec_file_eq_some.mp hex
    exact .inl (hsame (FileOp.exec_cache_procs o w g).2)
  | sys s =>
    cases s with
    | spawn id io =>
      simp only [exec_sys, Sys.exec] at hex
      split at hex
      · obtain ⟨rfl, -⟩ := Prod.mk.inj (Option.some.inj hex)
        exact .inl (hsame rfl)
      · rename_i pid hpid
        split at hex
        · obtain ⟨rfl, -⟩ := Prod.mk.inj (Option.some.inj hex)
          exact .inr ⟨id, io, pid, rfl, hpid, rfl⟩
        · cases hex
    | kill pid sig =>
      obtain ⟨rfl, -⟩ := Prod.mk.inj (Option.some.inj hex)
      left
      intro p' hp' hstate
      obtain ⟨p, hp, rfl⟩ := List.mem_map.mp hp'
      split at hstate
      · rename_i hcond
        rw [if_pos hcond]
        refine ⟨p, hp, (p.exit_kept _).1.symm, (p.exit_kept _).2.1.symm, fun hgone => ?_⟩
        apply hstate
        unfold Proc.exit
        have hdead : p.state ≠ .alive := fun halive => by cases hgone.symm.trans halive
        rw [if_neg hdead]
        exact hgone
      · rename_i hcond
        rw [if_neg hcond]
        exact ⟨p, hp, rfl, rfl, hstate⟩
    | wait id q =>
      simp only [exec_sys, Sys.exec] at hex
      split at hex
      · cases hex
      · rename_i p hp
        split at hex
        · obtain ⟨rfl, -⟩ := Prod.mk.inj (Option.some.inj hex)
          left
          intro p' hp' hstate
          rcases List.mem_or_eq_of_mem_set hp' with hp' | rfl
          · exact ⟨p', hp', rfl, rfl, hstate⟩
          · exact absurd rfl hstate
        · cases hex
    | _ =>
      have h : w'.procs = w.procs := by
        simp only [exec_sys, Sys.exec] at hex
        repeat' split at hex
        all_goals
          obtain ⟨rfl, -⟩ := Prod.mk.inj (Option.some.inj hex)
          rfl
      exact .inl (hsame h)
  | unlock | ret v | fail e =>
    obtain ⟨rfl, -⟩ := Prod.mk.inj (Option.some.inj hex)
    exact .inl (hsame rfl)

theorem World.Owns.mono {pid : Nat} {id : ContainerId} (h : w.Owns pid id)
    (hprocs : ∀ p' ∈ w'.procs, p'.state ≠ .gone →
      ∃ p ∈ w.procs, p.pid = p'.pid ∧ p.owner = p'.owner ∧ p.state ≠ .gone) : w'.Owns pid id := by
  intro p' hp' hpid hstate
  obtain ⟨p, hp, hpid', howner, hstate'⟩ := hprocs p' hp' hstate
  rw [← howner]
  exact h p hp (hpid'.trans hpid) hstate'

theorem World.Owns.append {pid : Nat} {id : ContainerId} {p : Proc} (h : w.Owns pid id)
    (hprocs : w'.procs = w.procs ++ [p]) (hp : p.pid = pid → p.owner = some id) :
    w'.Owns pid id := by
  intro p' hp' hpid hstate
  rw [hprocs] at hp'
  rcases List.mem_append.mp hp' with hp' | hp'
  · exact h p' hp' hpid hstate
  · obtain rfl := List.mem_singleton.mp hp'
    exact hp hpid

/-- A number that was free has only the process that takes it. -/
theorem owns_of_fresh {pid : Nat} {id : ContainerId} {p : Proc} (hfree : w.pidAlive pid = false)
    (hprocs : w'.procs = w.procs ++ [p]) (hp : p.owner = some id) : w'.Owns pid id := by
  have hnone : w.Owns pid id := by
    intro p' hp' hpid hstate
    have := List.any_eq_false.mp hfree p' hp'
    exact absurd (decide_eq_true ⟨hpid, hstate⟩) this
  exact hnone.append hprocs fun _ => hp

/-! ## The condition -/

/-- Nothing holds the number for another container. -/
def Vacant (s : State) (pid : Nat) (owner : Option ContainerId) : Prop :=
  (∀ e ∈ s.shared.cache.containers.toList, e.2.state = .running → e.2.pid = pid →
    owner = some e.1) ∧
  ∀ t ∈ s.tasks, ∀ h ∈ held t.frames, h.2 = pid → owner = some h.1

instance (s : State) (pid : Nat) (owner : Option ContainerId) : Decidable (Vacant s pid owner) :=
  letI (t : Thread) : Decidable (∀ h ∈ held t.frames, h.2 = pid → owner = some h.1) :=
    List.decidableBAll _ _
  letI : Decidable (∀ t ∈ s.tasks, ∀ h ∈ held t.frames, h.2 = pid → owner = some h.1) :=
    List.decidableBAll _ _
  letI : Decidable (∀ e ∈ s.shared.cache.containers.toList, e.2.state = .running →
      e.2.pid = pid → owner = some e.1) := List.decidableBAll _ _
  instDecidableAnd

/-- The number that a process gets in this step, and the container that it is spawned for. -/
def taken (s : State) : Label → Option (Nat × Option ContainerId)
  | .foreign pid => some (pid, none)
  | .step i o =>
    match s.top i, o.spawn with
    | some (.sys (.spawn id _)), .ok pid => some (pid, some id)
    | _, _ => none
  | _ => none

/-- No number that is held for a container goes to another process, and no Running record that is
read back has the number of one. -/
def Unreused (s : State) (l : Label) : Prop :=
  (∀ x ∈ taken s l, Vacant s x.1 x.2) ∧
    match l with
    | .restart rs => ∀ r ∈ listedContainers (rs.listing .containers), r.state = .running →
        ∀ p ∈ s.shared.procs, p.pid = r.pid → p.state = .alive → p.owner = some r.id
    | _ => True

instance (s : State) (l : Label) : Decidable (Unreused s l) :=
  letI : Decidable (∀ x ∈ taken s l, Vacant s x.1 x.2) := Option.decidableForallMem _
  match l with
  | .restart rs =>
    letI (r : ContainerRecord) : Decidable (∀ p ∈ s.shared.procs, p.pid = r.pid →
        p.state = .alive → p.owner = some r.id) := List.decidableBAll _ _
    letI : Decidable (∀ r ∈ listedContainers (rs.listing .containers), r.state = .running →
        ∀ p ∈ s.shared.procs, p.pid = r.pid → p.state = .alive → p.owner = some r.id) :=
      List.decidableBAll _ _
    instDecidableAnd
  | .invoke _ | .step _ _ | .exit _ _ | .foreign _ => instDecidableAnd

/-! ## The invariant -/

/-- The numbers in the Running records and those that calls hold are those of their containers. -/
structure Aimed (s : State) : Prop where
  records : ∀ id r, s.shared.cache.containers[id]? = some r → r.state = .running → 0 < r.pid →
    s.shared.Owns r.pid id
  tasks : ∀ t ∈ s.tasks, ∀ h ∈ held t.frames, s.shared.Owns h.2 h.1
  followed : ∀ t ∈ s.tasks, Followed t.frames
  newborn : Newborn s

variable {s s' : State} {l : Label}

theorem Vacant.record {pid : Nat} {owner : Option ContainerId} (h : Vacant s pid owner)
    {id : ContainerId} {r : ContainerRecord} (hr : s.shared.cache.containers[id]? = some r)
    (hrun : r.state = .running) (hpid : r.pid = pid) : owner = some id :=
  h.1 (id, r) (Std.ExtTreeMap.mem_toList_iff_getElem?_eq_some.mpr hr) hrun hpid

theorem Aimed.invoke (h : Aimed s) (c : Call) : Aimed (s.start (.call c) c.frames) where
  records := h.records
  tasks t ht x hx := by
    rcases Pool.mem_tasks_start.mp ht with ht | rfl
    · exact h.tasks t ht x hx
    · have := held_append_of_free (free_call c) []
      rw [List.append_nil] at this
      rw [show held _ = [] from this] at hx
      exact absurd hx List.not_mem_nil
  followed t ht := by
    rcases Pool.mem_tasks_start.mp ht with ht | rfl
    · exact h.followed t ht
    · have := followed_append_of_free (free_call c) []
      rw [List.append_nil] at this
      exact this.mpr True.intro
  newborn := h.newborn.step (l := .invoke c) rfl

/-- The processes change, and nothing else. -/
theorem Aimed.procs (h : Aimed s) {procs : List Proc}
    (howns : ∀ pid id, (∃ r, s.shared.cache.containers[id]? = some r ∧ r.state = .running ∧
      r.pid = pid) ∨ (∃ t ∈ s.tasks, (id, pid) ∈ held t.frames) → s.shared.Owns pid id →
        { s.shared with procs := procs }.Owns pid id) :
    Aimed { s with shared := { s.shared with procs := procs } } where
  records id r hr hrun hpos := howns r.pid id (.inl ⟨r, hr, hrun, rfl⟩) (h.records id r hr hrun hpos)
  tasks t ht x hx := howns x.2 x.1 (.inr ⟨t, ht, hx⟩) (h.tasks t ht x hx)
  followed := h.followed
  newborn := h.newborn

/-- The records after a step of a task. -/
theorem Aimed.records_step (h : Aimed s) {i : Nat} {t : Thread} (ht : t ∈ s.tasks)
    (hframes : t.frames = f :: k) (hex : exec i n o f s.shared = some (w', out))
    (hmono : ∀ pid id, s.shared.Owns pid id →
      ((∃ r, s.shared.cache.containers[id]? = some r ∧ r.state = .running ∧ r.pid = pid) ∨
        (id, pid) ∈ held t.frames) → w'.Owns pid id) (id : ContainerId) (r' : ContainerRecord)
    (hr' : w'.cache.containers[id]? = some r') (hrun : r'.state = .running) (hpos : 0 < r'.pid) :
    w'.Owns r'.pid id := by
  cases exec_record id hex with
  | same record =>
    rw [record] at hr'
    exact hmono _ _ (h.records id r' hr' hrun hpos) (.inl ⟨r', hr', hrun, rfl⟩)
  | intent r t frame old new =>
    obtain rfl := Option.some.inj (new.symm.trans hr')
    exact absurd hpos (Nat.lt_irrefl 0)
  | persistPid r pid frame old new =>
    obtain rfl := Option.some.inj (new.symm.trans hr')
    have hmem : (id, pid) ∈ held t.frames := by
      rw [hframes, frame]
      exact List.mem_cons_self
    exact hmono pid id (h.tasks t ht _ hmem) (.inr hmem)
  | inserted r frame key new =>
    obtain rfl := Option.some.inj (new.symm.trans hr')
    have hborn := h.newborn t ht f (by rw [hframes]; exact List.mem_cons_self)
    rw [frame] at hborn
    cases hborn.symm.trans hrun
  | dropped frame new => cases new.symm.trans hr'
  | spawnFailed _ r _ _ _ new exited | stopped _ r _ _ _ _ new exited
  | reaped _ r _ _ _ _ _ new exited =>
    obtain rfl := Option.some.inj (new.symm.trans hr')
    cases exited.symm.trans hrun

/-- **Every step keeps the numbers where they belong.** -/
theorem Aimed.step (h : Aimed s) (hl : Unreused s l) (hstep : Fake.step s l = some s') :
    Aimed s' := by
  cases l with
  | invoke c =>
    obtain rfl := Option.some.inj hstep
    exact h.invoke c
  | exit q st =>
    obtain ⟨p, hp, rfl⟩ := step_exit hstep
    refine h.procs fun pid id _ howns => howns.mono fun p' hp' hstate => ?_
    rcases List.mem_or_eq_of_mem_set hp' with hp' | rfl
    · exact ⟨p', hp', rfl, rfl, hstate⟩
    · refine ⟨p, List.mem_of_getElem? hp, (p.exit_kept st).1.symm, (p.exit_kept st).2.1.symm,
        fun hgone => hstate ?_⟩
      unfold Proc.exit
      rw [if_neg (by rw [hgone]; exact nofun)]
      exact hgone
  | foreign pid =>
    obtain ⟨-, -, rfl⟩ := step_foreign hstep
    have hvacant : Vacant s pid none := hl.1 (pid, none) rfl
    refine h.procs fun pid' id hheld howns => howns.append rfl ?_
    rintro rfl
    rcases hheld with ⟨r, hr, hrun, hpid⟩ | ⟨t, ht, hmem⟩
    · cases hvacant.record hr hrun hpid
    · cases hvacant.2 t ht _ hmem rfl
  | restart rs =>
    obtain rfl := Option.some.inj hstep
    refine ⟨fun id r' hr' hrun hpos => ?_, fun _ h => absurd h List.not_mem_nil,
      fun _ h => absurd h List.not_mem_nil, fun _ h => absurd h List.not_mem_nil⟩
    obtain ⟨e, he, hrec, hid⟩ := mem_of_rebuild hr'
    unfold entryRecord at hrec
    split at hrec
    · rename_i hext
      obtain ⟨d, hparse, hd⟩ := Option.bind_eq_some_iff.mp hrec
      obtain ⟨r, hcontainer, hrecover⟩ := Option.map_eq_some_iff.mp hd
      have hlisted : r ∈ listedContainers (rs.listing .containers) := by
        refine List.mem_filterMap.mpr ⟨e, he, ?_⟩
        rw [if_pos hext, hparse]
        exact hcontainer
      have heq : r' = r := by
        rcases recover_cases (World.pidAlive { s.shared with procs := s.shared.procs.map Proc.orphan })
          rs.clock r with hsame | ⟨-, -, hexited, -⟩
        · exact hrecover.symm.trans hsame
        · rw [hrecover] at hexited
          cases hexited.symm.trans hrun
      subst heq
      intro p' hp' hpid hstate
      obtain ⟨p, hp, rfl⟩ := List.mem_map.mp hp'
      have halive : p.state = .alive := by
        cases hst : p.state with
        | alive => rfl
        | zombie st => exact absurd (by unfold Proc.orphan; dsimp only; rw [hst]) hstate
        | gone => exact absurd (by unfold Proc.orphan; dsimp only; rw [hst]) hstate
      have howner := hl.2 r' hlisted hrun p hp hpid halive
      rw [hid] at howner
      exact howner
    · cases hrec
  | step i o =>
    obtain ⟨t, f, k, out, hadv⟩ := Pool.advance_eq_some hstep
    have haim := exec_aim hadv.exec
    have ht := hadv.mem
    -- what is held stays where it belongs, whichever task holds it
    have hmono (pid : Nat) (id : ContainerId) (howns : s.shared.Owns pid id)
        (hheld : (∃ r, s.shared.cache.containers[id]? = some r ∧ r.state = .running ∧
          r.pid = pid) ∨ ∃ u ∈ s.tasks, (id, pid) ∈ held u.frames) : s'.shared.Owns pid id := by
      rcases exec_numbers hadv.exec with hprocs | ⟨id', io, pid', hf, hspawn, hprocs⟩
      · exact howns.mono hprocs
      · refine howns.append hprocs ?_
        rintro rfl
        have htaken : taken s (.step i o) = some (pid', some id') := by
          unfold taken
          dsimp only
          rw [hadv.top_eq, hf, hspawn]
        have hvacant : Vacant s pid' (some id') := hl.1 (pid', some id') htaken
        rcases hheld with ⟨r, hr, hrun, hpid⟩ | ⟨u, hu, hmem⟩
        · exact hvacant.record hr hrun hpid
        · exact hvacant.2 u hu _ hmem rfl
    have hspawned (id : ContainerId) (io : ContainerIo) (pid : Nat)
        (hf : f = .sys (.spawn id io)) (hpid : o.spawn = .ok pid)
        (hfree : s.shared.pidAlive pid = false) (hpos : 0 < pid) : s'.shared.Owns pid id := by
      have hex := hadv.exec
      rw [hf] at hex
      simp only [exec_sys, Sys.exec, hpid] at hex
      rw [if_pos ⟨hpos, hfree⟩] at hex
      obtain ⟨hw, -⟩ := Prod.mk.inj (Option.some.inj hex)
      exact owns_of_fresh hfree (by rw [← hw]) rfl
    refine ⟨?_, ?_, ?_, h.newborn.step hstep⟩
    · exact h.records_step ht hadv.frames hadv.exec fun pid id howns hheld =>
        hmono pid id howns (hheld.imp_right fun hmem => ⟨t, ht, hmem⟩)
    · refine hadv.forall_tasks (J := fun u => u ∈ s.tasks) (fun u hu => hu) (fun _ x hx => ?_)
        (fun u hu x hx => hmono _ _ (h.tasks u hu x hx) (.inr ⟨u, hu, hx⟩)) fun _ u hu x hx => ?_
      · have hx' : x ∈ held (out.pushed ++ k) := by
          rcases Task.frames_resume t k out with heq | heq
          · rwa [heq] at hx
          · rw [heq] at hx
            exact absurd hx List.not_mem_nil
        rcases haim.held k x hx' with hmem | ⟨r, hr, hrun, hpos, hpid⟩ |
          ⟨io, hf, hspawn, hpos, hfree⟩
        · rw [← hadv.frames] at hmem
          exact hmono _ _ (h.tasks t ht x hmem) (.inr ⟨t, ht, hmem⟩)
        · have howns := h.records x.1 r hr hrun (hpid ▸ hpos)
          rw [hpid] at howns
          exact hmono _ _ howns (.inl ⟨r, hr, hrun, hpid⟩)
        · exact hspawned x.1 io x.2 hf hspawn hfree hpos
      · obtain ⟨_, _, -, rfl⟩ := children_reaper hadv hu
        exact absurd hx List.not_mem_nil
    · refine hadv.forall_tasks h.followed (fun hfol => ?_) (fun _ hu => hu) fun _ u hu => ?_
      · rcases Task.frames_resume t k out with heq | heq
        · rw [heq]
          exact haim.followed k (hadv.frames ▸ hfol)
        · rw [heq]
          exact True.intro
      · obtain ⟨_, _, -, rfl⟩ := children_reaper hadv hu
        exact True.intro

theorem Aimed.init (listener : Nat) (blake3 : String → String) : Aimed (init listener blake3) where
  records id r hr := by simp [Fake.init, Cache.empty] at hr
  tasks _ h := absurd h List.not_mem_nil
  followed _ h := absurd h List.not_mem_nil
  newborn _ h := absurd h List.not_mem_nil

/-- **Signals**: in a run in which no number that is held for a container goes to another process, a
signal reaches the process of its container, or none. -/
theorem signals_own {listener : Nat} {blake3 : String → String} {ls : List Label} {s : State}
    (hP : Along Fake.step Unreused (init listener blake3) ls)
    (hrun : run Fake.step (init listener blake3) ls = some s) {i pid sig : Nat} {k : List Frame}
    (hstack : s.stack i = .sys (.kill pid sig) :: k) :
    ∃ id, k.head?.bind Frame.awaits = some id ∧
      ∀ p ∈ s.shared.procs, p.pid = pid → p.state ≠ .gone → p.owner = some id := by
  have h : Aimed s := invariant_run (fun _ _ _ h hl hstep => h.step hl hstep) (Aimed.init _ _) hP hrun
  obtain ⟨t, ht, hframes⟩ : ∃ t ∈ s.tasks, t.frames = .sys (.kill pid sig) :: k := by
    unfold Pool.stack at hstack
    cases htask : s.tasks[i]? with
    | none =>
      rw [htask] at hstack
      cases hstack
    | some t =>
      rw [htask] at hstack
      exact ⟨t, List.mem_of_getElem? htask, hstack⟩
  have hfollowed := h.followed t ht
  rw [hframes] at hfollowed
  obtain ⟨id, hid⟩ := Option.isSome_iff_exists.mp hfollowed.1
  refine ⟨id, hid, h.tasks t ht (id, pid) ?_⟩
  rw [hframes]
  show (id, pid) ∈ ((k.head?.bind Frame.awaits).map (·, pid)).toList ++ held k
  rw [hid]
  exact List.mem_cons_self

/-! ## Two stops -/

/-- The next instruction sends the signal to the process. -/
def Frame.aims (pid sig : Nat) : Frame → Bool
  | .sys (.kill p n) => p = pid ∧ n = sig
  | _ => false

theorem Frame.aims_eq_true {pid sig : Nat} {f : Frame} :
    f.aims pid sig = true ↔ f = .sys (.kill pid sig) := by
  constructor
  · intro h
    unfold Frame.aims at h
    split at h
    · obtain ⟨rfl, rfl⟩ := of_decide_eq_true h
      rfl
    · cases h
  · rintro rfl
    exact decide_eq_true ⟨rfl, rfl⟩

/-- A stop has read the process id of the container. -/
def stoppingRun : List Label :=
  startedRun ++ Label.invoke (.stopContainer podContainer 0) :: steps 4 1

/-- Then the process ends and is waited for, and its number goes to another. -/
def reusedRun : List Label :=
  stoppingRun ++ [Label.exit 0 (.exited 0)] ++ steps 3 1 ++ [Label.foreign 100]

theorem signals_own_stopping : ∃ s k, run Fake.step (init 1 id) stoppingRun = some s ∧
    s.stack 4 = .sys (.kill 100 SIGKILL) :: k ∧ ∃ id, k.head?.bind Frame.awaits = some id ∧
      ∀ p ∈ s.shared.procs, p.pid = 100 → p.state ≠ .gone → p.owner = some id := by
  have hrun : (run Fake.step (init 1 id) stoppingRun).any fun s =>
      (s.stack 4).head?.any (Frame.aims 100 SIGKILL) := by decide
  obtain ⟨s, hs, hhead⟩ := (Option.any_eq_true _ _).mp hrun
  obtain ⟨f, hf, hkill⟩ := (Option.any_eq_true _ _).mp hhead
  obtain ⟨k, hk⟩ := List.head?_eq_some_iff.mp hf
  obtain rfl := Frame.aims_eq_true.mp hkill
  exact ⟨s, k, hs, hk, signals_own (by decide) hs hk⟩

/-- **A signal that goes astray**: SIGKILL reaches a process that has nothing to do with the
backend. -/
theorem signalled_foreign :
    ¬ ∀ (listener : Nat) (blake3 : String → String) (ls : List Label) (s : State)
      (i pid sig : Nat) (k : List Frame), run Fake.step (init listener blake3) ls = some s →
      s.stack i = .sys (.kill pid sig) :: k →
      ∃ id, k.head?.bind Frame.awaits = some id ∧
        ∀ p ∈ s.shared.procs, p.pid = pid → p.state ≠ .gone → p.owner = some id := by
  intro h
  have hrun : (run Fake.step (init 1 id) reusedRun).any fun s =>
      (s.stack 4).head?.any (Frame.aims 100 SIGKILL) ∧ s.shared.procs.any fun p =>
        p.pid = 100 ∧ p.state = .alive ∧ p.owner = none := by decide
  obtain ⟨s, hs, hend⟩ := (Option.any_eq_true _ _).mp hrun
  obtain ⟨hhead, hproc⟩ := of_decide_eq_true hend
  obtain ⟨f, hf, hkill⟩ := (Option.any_eq_true _ _).mp hhead
  obtain ⟨p, hp, hforeign⟩ := List.any_eq_true.mp hproc
  obtain ⟨hpid, halive, howner⟩ := of_decide_eq_true hforeign
  obtain ⟨k, hk⟩ := List.head?_eq_some_iff.mp hf
  obtain rfl := Frame.aims_eq_true.mp hkill
  obtain ⟨id, -, hown⟩ := h 1 _ reusedRun s 4 100 SIGKILL k hs hk
  have hlive : p.state ≠ .gone := fun hgone => by cases halive.symm.trans hgone
  cases howner.symm.trans (hown p hp hpid hlive)

end LightrCri.Fake

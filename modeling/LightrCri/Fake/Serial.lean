import LightrCri.Fake.Launch
import LightrCri.Fake.Ledger

/-!
# Serialized calls

Runs in which a call begins only when no other is in flight, with reapers and exits anywhere. At
most one call is at work (`Serial.one`); a container that is being started has no reaper yet
(`Serial.window`), so between the start intent and the write of the process number its record is
Running without a process (`Serial.launching`); and a Running record is written by its start alone
(`Serial.running`).
-/

namespace LightrCri.Fake

open Backend Foundations

/-- A call begins only when no other call is in flight. -/
def serialized (s : State) : Label → Bool
  | .invoke _ => decide (NoCall s)
  | _ => true

/-! ## The frames of a start, in more detail -/

/-- The frame belongs to a start of the container that has passed its check. -/
def Frame.launches (id : ContainerId) : Frame → Bool
  | .crit (.fetchSandbox id' _) => id' = id
  | .crit (.startIntent id') => id' = id
  | .crit (.spawnFailed id' _) => id' = id
  | .crit (.persistPid id' _) => id' = id
  | .sys (.prepare id' _ _) => id' = id
  | .sys (.spawn id' _) => id' = id
  | .sys (.spawnReaper id' _) => id' = id
  | _ => false

/-- The frame comes between the intent and the write of the process number, or is that write. -/
def Frame.pending (id : ContainerId) : Frame → Bool
  | .crit (.spawnFailed id' _) => id' = id
  | .crit (.persistPid id' _) => id' = id
  | .sys (.spawn id' _) => id' = id
  | _ => false

def Frame.isIntent : Frame → Bool
  | .crit (.startIntent _) => true
  | _ => false

def Frame.spawnsReaper (id : ContainerId) : Frame → Bool
  | .sys (.spawnReaper id' _) => id' = id
  | _ => false

/-- The frame writes a Running record of the container. -/
def Frame.writesRunning (id : ContainerId) : Frame → Bool
  | .file (.write (.container r) _) => r.id = id ∧ r.state = .running
  | .file (.rename _ _ (.container r) _) => r.id = id ∧ r.state = .running
  | _ => false

/-- The start has written its intent into the cache, and not yet the number of its process. -/
def Launching (id : ContainerId) (fs : List Frame) : Bool :=
  fs.any (Frame.pending id) && !fs.any Frame.isIntent

section Pushes

variable {self n : Nat} {o : Oracle} {f g : Frame} {w w' : World} {out : Out} {id : ContainerId}

theorem exec_launches (hex : exec self n o f w = some (w', out)) :
    ∀ g ∈ out.pushed, g.launches id → f.launches id ∨ (f = .crit (.startContainer id) ∧
      ∃ r, w.cache.containers[id]? = some r ∧ r.state = .created) := by
  rcases exec_pushes hex with h | h
  · simp [h]
  · generalize out.pushed = fs at h
    cases h with
    | collectContainers =>
      exact forall_mem_collect (by simp [Frame.launches]) (by simp [Frame.launches])
        (by simp [Frame.launches])
    | startContainer id' r present created =>
      intro g hg hl
      obtain rfl := List.mem_singleton.mp hg
      obtain rfl : id' = id := by simpa [Frame.launches] using hl
      exact Or.inr ⟨rfl, r, present, created⟩
    | _ => simp_all [Frame.launches]

theorem exec_pending (hex : exec self n o f w = some (w', out)) :
    ∀ g ∈ out.pushed, g.pending id → (∃ io, f = .sys (.spawn id io)) ∨
      ∃ r info, f = .sys (.prepare id r info) := by
  rcases exec_pushes hex with h | h
  · simp [h]
  · generalize out.pushed = fs at h
    cases h with
    | collectContainers =>
      exact forall_mem_collect (by simp [Frame.pending]) (by simp [Frame.pending])
        (by simp [Frame.pending])
    | _ => simp_all [Frame.pending]

theorem exec_spawnsReaper (hex : exec self n o f w = some (w', out)) :
    ∀ g ∈ out.pushed, g.spawnsReaper id → ∃ io, f = .sys (.spawn id io) := by
  rcases exec_pushes hex with h | h
  · simp [h]
  · generalize out.pushed = fs at h
    cases h with
    | collectContainers =>
      exact forall_mem_collect (by simp [Frame.spawnsReaper]) (by simp [Frame.spawnsReaper])
        (by simp [Frame.spawnsReaper])
    | _ => simp_all [Frame.spawnsReaper]

theorem exec_writesRunning (hk : w.cache.Keyed) (hex : exec self n o f w = some (w', out)) :
    ∀ g ∈ out.pushed, g.writesRunning id → f.writesRunning id ∨ f = .crit (.startIntent id) ∨
      ∃ pid, f = .crit (.persistPid id pid) := by
  rcases exec_pushes hex with h | h
  · simp [h]
  · generalize out.pushed = fs at h
    cases h with
    | collectContainers =>
      exact forall_mem_collect (by simp [Frame.writesRunning]) (by simp [Frame.writesRunning])
        (by simp [Frame.writesRunning])
    | startIntent id' r t present =>
      have hid := hk.container present
      simp [Frame.writesRunning, ContainerRecord.starting, hid]
    | persistPid id' pid r present =>
      have hid := hk.container present
      simp +contextual [Frame.writesRunning, ContainerRecord.withPid, hid]
    | write r strict p n =>
      cases r <;> simp [Frame.writesRunning]
    | reap => simp [Frame.writesRunning, ContainerRecord.toExited]
    | _ => simp_all [Frame.writesRunning]

theorem Frame.launches_of_pending (h : f.pending id) : f.launches id := by
  cases f with
  | crit c => cases c <;> simp_all [Frame.pending, Frame.launches]
  | sys s => cases s <;> simp_all [Frame.pending, Frame.launches]
  | _ => cases h

theorem Frame.launches_of_spawnsReaper (h : f.spawnsReaper id) : f.launches id := by
  cases f with
  | sys s => cases s <;> simp_all [Frame.spawnsReaper, Frame.launches]
  | _ => cases h

theorem Frame.starts_of_launches (h : f.launches id) : f.starts id := by
  cases f with
  | crit c => cases c <;> simp_all [Frame.starts, Frame.launches]
  | sys s => cases s <;> simp_all [Frame.starts, Frame.launches]
  | _ => cases h

end Pushes

/-! ## The invariant -/

/-- What holds of a state after serialized calls. -/
structure Serial (s : State) : Prop where
  sound : Sound s
  reapers : Reapers s
  /-- At most one call is at work. -/
  one : ∀ (i j : Nat) (t u : Thread), s.tasks[i]? = some t → s.tasks[j]? = some u →
    t.tag.isCall → u.tag.isCall → t.frames ≠ [] → u.frames ≠ [] → i = j
  starts : ∀ t ∈ s.tasks, ∀ id, t.tag = .call (.startContainer id) →
    ∃ ph, StartTask id ph t.frames t.result
  apart : ∀ t ∈ s.tasks, t.tag.isCall → ∀ id, t.tag ≠ .call (.startContainer id) → Apart id t
  /-- A container with a reaper is not Created, and will not be again. -/
  reaped : ∀ t ∈ s.tasks, ∀ id q, t.tag = .reaper id q →
    Minted s.shared.counter (.container id) ∧
      ∀ r, s.shared.cache.containers[id]? = some r → r.state ≠ .created
  issued : ∀ t ∈ s.tasks, ∀ u ∈ s.tasks, ∀ r b id q, Stack (.issues r b) t.frames →
    u.tag = .reaper id q → r.obj ≠ .container id
  /-- A container that is being started has no reaper yet. -/
  window : ∀ t ∈ s.tasks, t.tag.isCall → ∀ id, t.frames.any (Frame.launches id) →
    Minted s.shared.counter (.container id) ∧ ∀ u ∈ s.tasks, ∀ q, u.tag ≠ .reaper id q
  launching : ∀ t ∈ s.tasks, t.tag.isCall → ∀ id, Launching id t.frames →
    ∀ r, s.shared.cache.containers[id]? = some r → r.state = .running ∧ r.pid = 0
  launched : ∀ t ∈ s.tasks, t.tag.isCall → ∀ id, t.frames.any (Frame.spawnsReaper id) →
    ∀ r, s.shared.cache.containers[id]? = some r → r.state ≠ .created
  /-- A Running record is written by its start. -/
  running : ∀ t ∈ s.tasks, t.tag.isCall → ∀ id, t.frames.any (Frame.writesRunning id) →
    t.frames.any (Frame.launches id)

/-! ## Steps -/

section Steps

variable {id : ContainerId} {s s' : State} {i : Nat} {t : Thread} {o : Oracle} {f : Frame}
  {k : List Frame} {out : Out}

/-- A record that is not Created does not become so, unless it is inserted. -/
theorem exec_not_created {self n : Nat} {w w' : World} (hex : exec self n o f w = some (w', out))
    (hins : ∀ r, f = .crit (.insertContainer r) → r.id ≠ id)
    (h : ∀ r, w.cache.containers[id]? = some r → r.state ≠ .created) :
    ∀ r, w'.cache.containers[id]? = some r → r.state ≠ .created := by
  intro r' hr'
  cases exec_record id hex with
  | same record => exact h r' (record ▸ hr')
  | intent r t _ _ new =>
    obtain rfl := Option.some.inj (new.symm.trans hr')
    simp [ContainerRecord.starting]
  | spawnFailed _ r _ _ _ new exited =>
    obtain rfl := Option.some.inj (new.symm.trans hr')
    simp [exited]
  | stopped _ r _ _ _ _ new exited | reaped _ r _ _ _ _ _ new exited =>
    obtain rfl := Option.some.inj (new.symm.trans hr')
    simp [exited]
  | persistPid r _ _ old new =>
    obtain rfl := Option.some.inj (new.symm.trans hr')
    exact h r old
  | dropped _ new =>
    rw [new] at hr'
    cases hr'
  | inserted r frame key => exact absurd key (hins r frame)

/-- A start that has given up is not launching any more after its next step. -/
theorem StartTask.failed_not_launching {self n : Nat} {w w' : World}
    (h : StartTask id .failed t.frames t.result) (hf : t.frames = f :: k)
    (hex : exec self n o f w = some (w', out)) : Launching id (t.resume k out).frames = false := by
  have hnone : ∀ g ∈ (t.resume k out).frames, g.pending id = false := by
    intro g hg
    rw [hf] at h
    by_contra hp
    rw [Bool.not_eq_false] at hp
    rcases Task.mem_resume hg with hg | hg
    · rcases exec_pending hex g hg hp with ⟨io, rfl⟩ | ⟨r, info, rfl⟩ <;>
        (generalize t.result = res at h; cases h)
    · generalize t.result = res at h
      cases h <;> simp at hg <;> rcases hg with rfl | rfl <;> cases hp
  rw [Launching, Bool.and_eq_false_imp]
  intro hany
  obtain ⟨g, hg, hp⟩ := List.any_eq_true.mp hany
  rw [hnone g hg] at hp
  cases hp

theorem StartTask.launching {ph : StartPhase} {fs : List Frame} {res : Option Result}
    (h : StartTask id ph fs res) (hph : ph = .launching ∨ ∃ q pid, ph = .launched q pid true) :
    Launching id fs := by
  cases h <;> first
    | (simp [Launching, Frame.pending, Frame.isIntent]; done)
    | simp at hph

theorem StartTask.not_launching {ph : StartPhase} {fs : List Frame} {res : Option Result}
    (h : StartTask id ph fs res) (hph : ph = .checking ∨ ∃ q pid, ph = .launched q pid false) :
    Launching id fs = false := by
  cases h <;> first
    | (simp [Launching, Frame.pending, Frame.isIntent]; done)
    | simp at hph

/-- Between its intent and the write of its process number, a start finds the record Running
without a process. -/
theorem StartTask.launching_step {self n : Nat} {w w' : World} {ph ph' : StartPhase}
    (h : StartTask id ph t.frames t.result) (hf : t.frames = f :: k)
    (hex : exec self n o f w = some (w', out))
    (h' : StartTask id ph' (t.resume k out).frames (t.resume k out).result)
    (hstep : StartStep id o f w w' ph ph')
    (hold : Launching id t.frames → ∀ r, w.cache.containers[id]? = some r →
      r.state = .running ∧ r.pid = 0)
    (hl : Launching id (t.resume k out).frames) :
    ∀ r, w'.cache.containers[id]? = some r → r.state = .running ∧ r.pid = 0 := by
  have hlate : ∀ q pid, ph' ≠ .launched q pid false := by
    rintro q pid rfl
    rw [h'.not_launching (Or.inr ⟨q, pid, rfl⟩)] at hl
    cases hl
  cases hstep with
  | quiet _ hc =>
    rw [hc]
    refine hold ?_
    cases ph with
    | checking =>
      rw [h'.not_launching (Or.inl rfl)] at hl
      cases hl
    | launching => exact h.launching (Or.inl rfl)
    | failed =>
      rw [h.failed_not_launching hf hex] at hl
      cases hl
    | launched q pid late =>
      cases late with
      | true => exact h.launching (Or.inr ⟨q, pid, rfl⟩)
      | false => exact absurd rfl (hlate q pid)
  | intent r t _ _ hc =>
    intro r' hr'
    rw [hc, containers_setContainer, if_pos rfl] at hr'
    obtain rfl := Option.some.inj hr'
    exact ⟨rfl, rfl⟩
  | giveUp hc =>
    rw [hc]
    exact hold (h.launching (Or.inl rfl))
  | spawnFailed =>
    rw [h.failed_not_launching hf hex] at hl
    cases hl
  | spawn io pid _ _ _ _ hc =>
    rw [hc]
    exact hold (h.launching (Or.inl rfl))
  | persistPid q pid | lost q pid => exact absurd rfl (hlate q pid)

/-- The tasks after a step, with the tag each had before it. -/
theorem tag_cases (hadv : Pool.Advance exec s i o s' t f k out) {u : Thread}
    (hu : u ∈ s'.tasks) : (∃ v ∈ s.tasks, v.tag = u.tag) ∨
      ∃ id q, f = .sys (.spawnReaper id q) ∧ u = ⟨.reaper id q, [.sys (.wait id q)], none⟩ := by
  rcases hadv.mem_cases hu with rfl | hu | hu
  · exact Or.inl ⟨t, hadv.mem, (Task.resume_tag t k out).symm⟩
  · exact Or.inl ⟨u, hu, rfl⟩
  · exact Or.inr (children_reaper hadv hu)

/-- Of the calls, only the one at work has frames. -/
theorem Serial.frames_nil (h : Serial s) (hadv : Pool.Advance exec s i o s' t f k out)
    (hcall : t.tag.isCall) {j : Nat} {u : Thread} (hj : j ≠ i) (hu : s.tasks[j]? = some u)
    (hucall : u.tag.isCall) : u.frames = [] := by
  by_contra hne
  exact hj (h.one j i u t hu hadv.task hucall hcall hne (by simp [hadv.frames]))

theorem Serial.one_advance (h : Serial s) (hadv : Pool.Advance exec s i o s' t f k out) :
    ∀ (j m : Nat) (u v : Thread), s'.tasks[j]? = some u → s'.tasks[m]? = some v →
      u.tag.isCall → v.tag.isCall → u.frames ≠ [] → v.frames ≠ [] → j = m := by
  have hold : ∀ (j : Nat) (u : Thread), s'.tasks[j]? = some u → u.tag.isCall → u.frames ≠ [] →
      ∃ v, s.tasks[j]? = some v ∧ v.tag.isCall ∧ v.frames ≠ [] := by
    intro j u hu hcall hne
    rcases hadv.cases hu with ⟨rfl, rfl⟩ | ⟨-, hu⟩ | ⟨-, hu⟩
    · rw [Task.resume_tag] at hcall
      exact ⟨t, hadv.task, hcall, by simp [hadv.frames]⟩
    · exact ⟨u, hu, hcall, hne⟩
    · obtain ⟨id, q, -, rfl⟩ := children_reaper hadv hu
      cases hcall
  intro j m u v hu hv hcu hcv hnu hnv
  obtain ⟨u', hu', hcu', hnu'⟩ := hold j u hu hcu hnu
  obtain ⟨v', hv', hcv', hnv'⟩ := hold m v hv hcv hnv
  exact h.one j m u' v' hu' hv' hcu' hcv' hnu' hnv'

/-- A call at work that has frames of a start of the container is that start. -/
theorem Serial.start_of_starts (h : Serial s) (ht : t ∈ s.tasks) (hcall : t.tag.isCall)
    {g : Frame} (hg : g ∈ t.frames) (hst : g.starts id) :
    t.tag = .call (.startContainer id) ∧ ∃ ph, StartTask id ph t.frames t.result := by
  by_cases htag : t.tag = .call (.startContainer id)
  · exact ⟨htag, h.starts t ht id htag⟩
  · rw [h.apart t ht hcall id htag g hg] at hst
    cases hst

/-- A reaper executes no frame but its own. -/
theorem ReaperTask.frame {id : ContainerId} {q : Nat} {b : Bool} {f : Frame} {k : List Frame}
    (h : ReaperTask id q b (f :: k)) : f = .sys (.wait id q) ∨ f = .sys (.removeIo id) ∨
      (∃ t st, f = .crit (.reap id t st)) ∨ f = .unlock ∨ ∃ g, f = .file g := by
  cases h <;> simp

/-- A step that spawns a reaper is one of the start of its container. -/
theorem Serial.spawner (h : Serial s) (hadv : Pool.Advance exec s i o s' t f k out) {q : Nat}
    (hf : f = .sys (.spawnReaper id q)) :
    t.tag = .call (.startContainer id) ∧ ∃ ph, StartTask id ph t.frames t.result := by
  cases htag : t.tag with
  | call c =>
    have hstarts : f.starts id := by simp [hf, Frame.starts]
    have hst := h.start_of_starts hadv.mem (by rw [htag]; rfl) (by simp [hadv.frames]) hstarts
    rwa [htag] at hst
  | reaper id' q' =>
    obtain ⟨b, hb⟩ := h.reapers t hadv.mem id' q' htag
    rw [hadv.frames, hf] at hb
    cases hb

theorem ReaperTask.not_issues {id : ContainerId} {q : Nat} {b b' : Bool} {fs : List Frame}
    {r : DiskRecord} (h : ReaperTask id q b fs) : ¬Stack (.issues r b') fs := by
  intro hst
  have hd := hst.dutyOf_eq
  rcases h.dutyOf with h | h | ⟨r', h⟩ <;> rw [h] at hd <;> cases hd

/-- The step does not insert a container that has a reaper. -/
theorem Serial.not_inserted (h : Serial s) (hadv : Pool.Advance exec s i o s' t f k out)
    {u : Thread} (hu : u ∈ s.tasks) {q : Nat} (htag : u.tag = .reaper id q) (r : ContainerRecord)
    (hf : f = .crit (.insertContainer r)) : r.id ≠ id := by
  obtain ⟨d, hd⟩ := h.sound.duties t hadv.mem
  have hduty : d = .issues (.container r) true := by
    rw [hadv.frames, hf] at hd
    exact hd.dutyOf_eq.symm
  have hne := h.issued t hadv.mem u hu (.container r) true id q (hduty ▸ hd) htag
  exact fun he => hne (congrArg Obj.container he)

theorem Serial.reaped_advance (h : Serial s) (hadv : Pool.Advance exec s i o s' t f k out)
    (hmono : s.shared.counter ≤ s'.shared.counter) {u : Thread} (hu : u ∈ s'.tasks) {q : Nat}
    (htag : u.tag = .reaper id q) : Minted s'.shared.counter (.container id) ∧
      ∀ r, s'.shared.cache.containers[id]? = some r → r.state ≠ .created := by
  rcases tag_cases hadv hu with ⟨v, hv, hvtag⟩ | ⟨id', q', hf, rfl⟩
  · obtain ⟨hm, hc⟩ := h.reaped v hv id q (hvtag.trans htag)
    refine ⟨hm.mono hmono, exec_not_created hadv.exec ?_ hc⟩
    exact h.not_inserted hadv hv (hvtag.trans htag)
  · obtain ⟨rfl, -⟩ := Tag.reaper.inj htag
    obtain ⟨hcall, -⟩ := h.spawner hadv hf
    have hmem : f ∈ t.frames := by simp [hadv.frames]
    have hany : t.frames.any (Frame.spawnsReaper id') :=
      List.any_eq_true.mpr ⟨f, hmem, by simp [hf, Frame.spawnsReaper]⟩
    have hlaunch : t.frames.any (Frame.launches id') :=
      List.any_eq_true.mpr ⟨f, hmem, by simp [hf, Frame.launches]⟩
    have hcall' : t.tag.isCall := by rw [hcall]; rfl
    refine ⟨(h.window t hadv.mem hcall' id' hlaunch).1.mono hmono, ?_⟩
    exact exec_not_created hadv.exec (by simp [hf]) (h.launched t hadv.mem hcall' id' hany)

theorem Serial.issued_advance (h : Serial s) (hadv : Pool.Advance exec s i o s' t f k out)
    {d d' : Duty} (hd : Stack d t.frames) (hd' : Stack d' (t.resume k out).frames)
    (hch : Change i o f s.shared s'.shared d d') {u v : Thread} (hu : u ∈ s'.tasks)
    (hv : v ∈ s'.tasks) {r : DiskRecord} {b : Bool} {q : Nat} (hst : Stack (.issues r b) u.frames)
    (htag : v.tag = .reaper id q) : r.obj ≠ .container id := by
  obtain ⟨j, hu⟩ := List.getElem?_of_mem hu
  rcases tag_cases hadv hv with ⟨v', hv', hvtag⟩ | ⟨id', q', hf, rfl⟩
  · rcases hadv.cases hu with ⟨-, rfl⟩ | ⟨-, hu⟩ | ⟨-, hu⟩
    · rcases hch.issues (hd'.unique hst) with ⟨⟨b', rfl⟩, -⟩ | ⟨new, -⟩
      · exact h.issued t hadv.mem v' hv' r b' id q hd (hvtag.trans htag)
      · intro he
        have hnew := new.not_minted (by rw [he]; rfl)
        rw [he] at hnew
        exact hnew (h.reaped v' hv' id q (hvtag.trans htag)).1
    · exact h.issued u (List.mem_of_getElem? hu) v' hv' r b id q hst (hvtag.trans htag)
    · obtain ⟨_, _, -, rfl⟩ := children_reaper hadv hu
      cases hst
  · obtain ⟨hcall, -⟩ := h.spawner hadv hf
    rcases hadv.cases hu with ⟨-, rfl⟩ | ⟨hj, hu⟩ | ⟨-, hu⟩
    · rcases hch.issues (hd'.unique hst) with ⟨⟨b', rfl⟩, -⟩ | ⟨new, -⟩
      · rw [hadv.frames, hf] at hd
        cases hd
      · intro he
        have hex := hadv.exec
        rw [hf, exec_sys, Sys.exec, Option.some.injEq, Prod.mk.injEq] at hex
        cases r with
        | container r =>
          have hcounter := new.1
          rw [← hex.1] at hcounter
          omega
        | _ => cases he
    · cases hut : u.tag with
      | call c =>
        have hnil := h.frames_nil hadv (by rw [hcall]; rfl) hj hu (by rw [hut]; rfl)
        rw [hnil] at hst
        cases hst
      | reaper id₂ q₂ =>
        obtain ⟨b₂, hb₂⟩ := h.reapers u (List.mem_of_getElem? hu) id₂ q₂ hut
        exact absurd hst hb₂.not_issues
    · obtain ⟨_, _, -, rfl⟩ := children_reaper hadv hu
      cases hst

theorem Serial.window_advance (h : Serial s) (hadv : Pool.Advance exec s i o s' t f k out)
    (hmono : s.shared.counter ≤ s'.shared.counter) {u : Thread} (hu : u ∈ s'.tasks)
    (hcall : u.tag.isCall) (hl : u.frames.any (Frame.launches id)) :
    Minted s'.shared.counter (.container id) ∧ ∀ v ∈ s'.tasks, ∀ q, v.tag ≠ .reaper id q := by
  obtain ⟨j, hu⟩ := List.getElem?_of_mem hu
  obtain ⟨g, hg, hgl⟩ := List.any_eq_true.mp hl
  have hbase : Minted s.shared.counter (.container id) ∧
      ∀ v ∈ s.tasks, ∀ q, v.tag ≠ .reaper id q := by
    rcases hadv.cases hu with ⟨-, rfl⟩ | ⟨-, hu⟩ | ⟨-, hu⟩
    · rw [Task.resume_tag] at hcall
      have hold : ∀ g ∈ t.frames, g.launches id → _ := fun g hg hgl =>
        h.window t hadv.mem hcall id (List.any_eq_true.mpr ⟨g, hg, hgl⟩)
      rcases Task.mem_resume hg with hg | hg
      · rcases exec_launches hadv.exec g hg hgl with hf | ⟨-, r, hr, hcreated⟩
        · exact hold f (by simp [hadv.frames]) hf
        · refine ⟨h.sound.cached _ rfl ?_, fun v hv q htag => ?_⟩
          · rw [Cache.get_container_eq_some hr]
            rfl
          · exact (h.reaped v hv id q htag).2 r hr hcreated
      · exact hold g (by simp [hadv.frames, hg]) hgl
    · exact h.window u (List.mem_of_getElem? hu) hcall id hl
    · obtain ⟨_, _, -, rfl⟩ := children_reaper hadv hu
      cases hcall
  refine ⟨hbase.1.mono hmono, fun v hv q htag => ?_⟩
  rcases tag_cases hadv hv with ⟨v', hv', hvtag⟩ | ⟨id', q', hf, rfl⟩
  · exact hbase.2 v' hv' q (hvtag.trans htag)
  · -- the start that has just spawned the reaper has only to return
    obtain ⟨rfl, -⟩ := Tag.reaper.inj htag
    obtain ⟨hstart, ph, hst⟩ := h.spawner hadv hf
    rcases hadv.cases hu with ⟨-, rfl⟩ | ⟨hj, hu⟩ | ⟨-, hu⟩
    · have hex := hadv.exec
      rw [hf, exec_sys, Sys.exec, Option.some.injEq, Prod.mk.injEq] at hex
      rw [hadv.frames, hf] at hst
      rw [← hex.2, Task.resume_fork] at hg
      generalize t.result = res at hst
      cases hst
      obtain rfl := List.mem_singleton.mp hg
      cases hgl
    · rw [h.frames_nil hadv (by rw [hstart]; rfl) hj hu hcall] at hg
      cases hg
    · obtain ⟨_, _, -, rfl⟩ := children_reaper hadv hu
      cases hcall

theorem Serial.launching_advance (h : Serial s) (hadv : Pool.Advance exec s i o s' t f k out)
    {u : Thread} (hu : u ∈ s'.tasks) (hcall : u.tag.isCall) (hl : Launching id u.frames) :
    ∀ r, s'.shared.cache.containers[id]? = some r → r.state = .running ∧ r.pid = 0 := by
  obtain ⟨j, hu⟩ := List.getElem?_of_mem hu
  obtain ⟨g, hg, hp⟩ : ∃ g ∈ u.frames, g.pending id := by
    rw [Launching, Bool.and_eq_true] at hl
    exact List.any_eq_true.mp hl.1
  rcases hadv.cases hu with ⟨-, rfl⟩ | ⟨hj, hu⟩ | ⟨-, hu⟩
  · rw [Task.resume_tag] at hcall
    by_cases htag : t.tag = .call (.startContainer id)
    · obtain ⟨ph, hst⟩ := h.starts t hadv.mem id htag
      obtain ⟨ph', hst', hstep⟩ := hst.step hadv.frames hadv.exec
      exact hst.launching_step hadv.frames hadv.exec hst' hstep (h.launching t hadv.mem hcall id) hl
    · have hapart := (h.apart t hadv.mem hcall id htag).resume hadv.frames hadv.exec
      have hstarts := Frame.starts_of_launches (Frame.launches_of_pending hp)
      rw [hapart g hg] at hstarts
      cases hstarts
  · cases htag : t.tag with
    | call c =>
      rw [h.frames_nil hadv (by rw [htag]; rfl) hj hu hcall] at hg
      cases hg
    | reaper id' q' =>
      obtain ⟨b, hb⟩ := h.reapers t hadv.mem id' q' htag
      obtain ⟨b', -, hstep⟩ := hb.step hadv.frames hadv.exec
      have hmem := List.mem_of_getElem? hu
      have hold := h.launching u hmem hcall id hl
      cases hstep with
      | quiet _ hc | wait _ _ _ _ hc => exact hc ▸ hold
      | reap r t' code reason _ _ hc =>
        have hany : u.frames.any (Frame.launches id) :=
          List.any_eq_true.mpr ⟨g, hg, Frame.launches_of_pending hp⟩
        have hne : id ≠ id' := by
          rintro rfl
          exact (h.window u hmem hcall id hany).2 t hadv.mem q' htag
        rw [hc, containers_setContainer, if_neg hne]
        exact hold
  · obtain ⟨_, _, -, rfl⟩ := children_reaper hadv hu
    cases hcall

theorem Serial.launched_advance (h : Serial s) (hadv : Pool.Advance exec s i o s' t f k out)
    {u : Thread} (hu : u ∈ s'.tasks) (hcall : u.tag.isCall)
    (hl : u.frames.any (Frame.spawnsReaper id)) :
    ∀ r, s'.shared.cache.containers[id]? = some r → r.state ≠ .created := by
  obtain ⟨j, hu⟩ := List.getElem?_of_mem hu
  obtain ⟨g, hg, hgs⟩ := List.any_eq_true.mp hl
  rcases hadv.cases hu with ⟨-, rfl⟩ | ⟨hj, hu⟩ | ⟨-, hu⟩
  · rw [Task.resume_tag] at hcall
    rcases Task.mem_resume hg with hg | hg
    · obtain ⟨io, hf⟩ := exec_spawnsReaper hadv.exec g hg hgs
      have hstarts : f.starts id := by simp [hf, Frame.starts]
      obtain ⟨-, ph, hst⟩ := h.start_of_starts hadv.mem hcall (by simp [hadv.frames]) hstarts
      have hlaunching : Launching id t.frames := by
        rw [hadv.frames, hf] at hst ⊢
        generalize t.result = res at hst
        cases hst
        simp [Launching, Frame.pending, Frame.isIntent]
      refine exec_not_created hadv.exec (by simp [hf]) fun r hr => ?_
      rw [(h.launching t hadv.mem hcall id hlaunching r hr).1]
      simp
    · have hmem : g ∈ t.frames := by simp [hadv.frames, hg]
      obtain ⟨-, ph, hst⟩ := h.start_of_starts hadv.mem hcall hmem
        (Frame.starts_of_launches (Frame.launches_of_spawnsReaper hgs))
      refine exec_not_created hadv.exec (fun r hf => ?_)
        (h.launched t hadv.mem hcall id (List.any_eq_true.mpr ⟨g, hmem, hgs⟩))
      rw [hadv.frames, hf] at hst
      generalize t.result = res at hst
      cases hst
  · cases htag : t.tag with
    | call c =>
      rw [h.frames_nil hadv (by rw [htag]; rfl) hj hu hcall] at hg
      cases hg
    | reaper id' q' =>
      obtain ⟨b, hb⟩ := h.reapers t hadv.mem id' q' htag
      refine exec_not_created hadv.exec (fun r hf => ?_)
        (h.launched u (List.mem_of_getElem? hu) hcall id hl)
      rw [hadv.frames, hf] at hb
      cases hb
  · obtain ⟨_, _, -, rfl⟩ := children_reaper hadv hu
    cases hcall

theorem Serial.running_advance (h : Serial s) (hadv : Pool.Advance exec s i o s' t f k out)
    {u : Thread} (hu : u ∈ s'.tasks) (hcall : u.tag.isCall)
    (hl : u.frames.any (Frame.writesRunning id)) : u.frames.any (Frame.launches id) := by
  rcases hadv.mem_cases hu with rfl | hu | hu
  · rw [Task.resume_tag] at hcall
    obtain ⟨g, hg, hgw⟩ := List.any_eq_true.mp hl
    have hframes : (t.resume k out).frames = out.pushed ++ k := by
      rcases Task.frames_resume t k out with he | he
      · exact he
      · rw [he] at hg
        cases hg
    -- a frame below the executed one is still there
    have hkeep : (∃ g' ∈ k, g'.launches id) → (t.resume k out).frames.any (Frame.launches id) := by
      rintro ⟨g', hg', hgl⟩
      exact List.any_eq_true.mpr ⟨g', by rw [hframes]; exact List.mem_append_right _ hg', hgl⟩
    have hold : ∀ g ∈ t.frames, g.writesRunning id → ∃ g' ∈ f :: k, g'.launches id := by
      intro g hg hgw
      have := h.running t hadv.mem hcall id (List.any_eq_true.mpr ⟨g, hg, hgw⟩)
      rw [hadv.frames] at this
      exact List.any_eq_true.mp this
    have hstart : f.starts id → ∃ ph, StartTask id ph (f :: k) t.result := by
      intro hst
      obtain ⟨-, ph, hst⟩ := h.start_of_starts hadv.mem hcall (by simp [hadv.frames]) hst
      exact ⟨ph, hadv.frames ▸ hst⟩
    rcases Task.mem_resume hg with hgp | hgk
    · rcases exec_writesRunning h.sound.keyed hadv.exec g hgp hgw with hf | hf | ⟨pid, hf⟩
      · obtain ⟨g', hg', hgl⟩ := hold f (by simp [hadv.frames]) hf
        rcases List.mem_cons.mp hg' with rfl | hg'
        · cases g' <;> first | cases hf | cases hgl
        · exact hkeep ⟨g', hg', hgl⟩
      · obtain ⟨ph, hst⟩ := hstart (by simp [hf, Frame.starts])
        rw [hf] at hst
        generalize t.result = res at hst
        cases hst
        exact hkeep ⟨_, List.mem_cons_self, by simp [Frame.launches]⟩
      · obtain ⟨ph, hst⟩ := hstart (by simp [hf, Frame.starts])
        rw [hf] at hst
        generalize t.result = res at hst
        cases hst
        exact hkeep ⟨_, List.mem_cons_self, by simp [Frame.launches]⟩
    · obtain ⟨g', hg', hgl⟩ := hold g (by simp [hadv.frames, hgk]) hgw
      rcases List.mem_cons.mp hg' with rfl | hg'
      · -- no frame of a start is above a write
        obtain ⟨ph, hst⟩ := hstart (Frame.starts_of_launches hgl)
        have hno : ∀ g ∈ k, g.writesRunning id = false := by
          generalize t.result = res at hst
          cases hst <;> simp [Frame.writesRunning]
        rw [hno g hgk] at hgw
        cases hgw
      · exact hkeep ⟨g', hg', hgl⟩
  · exact h.running u hu hcall id hl
  · obtain ⟨_, _, -, rfl⟩ := children_reaper hadv hu
    cases hcall

theorem Serial.advance (h : Serial s) (hadv : Pool.Advance exec s i o s' t f k out)
    (hstep : step s (.step i o) = some s') : Serial s' := by
  obtain ⟨d, hd⟩ := h.sound.duties t hadv.mem
  obtain ⟨d', hd', hch⟩ := hd.step hadv.frames h.sound.keyed hadv.exec
  constructor
  case sound => exact h.sound.advance hadv
  case reapers => exact h.reapers.step hstep
  case one => exact h.one_advance hadv
  case starts =>
    intro u hu id htag
    rcases hadv.mem_cases hu with rfl | hu | hu
    · rw [Task.resume_tag] at htag
      obtain ⟨ph, hst⟩ := h.starts t hadv.mem id htag
      obtain ⟨ph', hst', -⟩ := hst.step hadv.frames hadv.exec
      exact ⟨ph', hst'⟩
    · exact h.starts u hu id htag
    · obtain ⟨_, _, -, rfl⟩ := children_reaper hadv hu
      cases htag
  case apart =>
    intro u hu hcall id htag
    rcases hadv.mem_cases hu with rfl | hu | hu
    · rw [Task.resume_tag] at htag hcall
      exact (h.apart t hadv.mem hcall id htag).resume hadv.frames hadv.exec
    · exact h.apart u hu hcall id htag
    · obtain ⟨_, _, -, rfl⟩ := children_reaper hadv hu
      cases hcall
  case reaped => exact fun u hu id q htag => h.reaped_advance hadv hch.counter_le hu htag
  case issued => exact fun u hu v hv r b id q => h.issued_advance hadv hd hd' hch hu hv
  case window => exact fun u hu hcall id hl => h.window_advance hadv hch.counter_le hu hcall hl
  case launching => exact fun u hu hcall id hl => h.launching_advance hadv hu hcall hl
  case launched => exact fun u hu hcall id hl => h.launched_advance hadv hu hcall hl
  case running => exact fun u hu hcall id hl => h.running_advance hadv hu hcall hl

end Steps

/-- A call has not begun its work when it is made. -/
theorem callFrames_fresh (c : Call) (id : ContainerId) : ∀ f ∈ c.frames,
    f.launches id = false ∧ f.pending id = false ∧ f.spawnsReaper id = false ∧
      f.writesRunning id = false := by
  cases c <;>
    simp [Call.frames, Frame.launches, Frame.pending, Frame.spawnsReaper, Frame.writesRunning]

theorem Serial.invoke {s : State} {c : Call} (h : Serial s) (hno : NoCall s) :
    Serial (s.start (.call c) c.frames) := by
  have hnew : Stack .none c.frames := .plain _ fun f hf => (plain_callFrames c f hf).1
  have hfresh : ∀ (p : Frame → Bool), (∀ f ∈ c.frames, p f = false) → c.frames.any p = false := by
    intro p hp
    rw [List.any_eq_false]
    exact fun f hf => by rw [hp f hf]; simp
  constructor
  case sound => exact h.sound.invoke c
  case reapers => exact h.reapers.step (l := .invoke c) rfl
  case one =>
    have hlast : ∀ (j : Nat) (u : Thread), (s.start (.call c) c.frames).tasks[j]? = some u →
        u.tag.isCall → u.frames ≠ [] → j = s.tasks.length := by
      intro j u hu hcall hne
      rw [Pool.start, List.getElem?_append] at hu
      split at hu
      · exact absurd (hno u (List.mem_of_getElem? hu) hcall) hne
      · have hlt := (List.getElem?_eq_some_iff.mp hu).1
        rw [List.length_singleton] at hlt
        omega
    intro i j t u ht hu hct hcu hnt hnu
    rw [hlast i t ht hct hnt, hlast j u hu hcu hnu]
  case starts =>
    intro u hu id htag
    rcases Pool.mem_tasks_start.mp hu with hu | rfl
    · exact h.starts u hu id htag
    · obtain rfl := Tag.call.inj htag
      exact ⟨_, .check⟩
  case apart =>
    intro u hu hcall id htag
    rcases Pool.mem_tasks_start.mp hu with hu | rfl
    · exact h.apart u hu hcall id htag
    · exact callFrames_starts fun hc => htag (congrArg Tag.call hc)
  case reaped =>
    intro u hu id q htag
    rcases Pool.mem_tasks_start.mp hu with hu | rfl
    · exact h.reaped u hu id q htag
    · cases htag
  case issued =>
    intro u hu v hv r b id q hst htag
    rcases Pool.mem_tasks_start.mp hv with hv | rfl
    · rcases Pool.mem_tasks_start.mp hu with hu | rfl
      · exact h.issued u hu v hv r b id q hst htag
      · cases hnew.unique hst
    · cases htag
  case window =>
    intro u hu hcall id hl
    rcases Pool.mem_tasks_start.mp hu with hu | rfl
    · obtain ⟨hm, hnone⟩ := h.window u hu hcall id hl
      refine ⟨hm, fun v hv q htag => ?_⟩
      rcases Pool.mem_tasks_start.mp hv with hv | rfl
      · exact hnone v hv q htag
      · cases htag
    · rw [hfresh _ fun f hf => (callFrames_fresh c id f hf).1] at hl
      cases hl
  case launching =>
    intro u hu hcall id hl
    rcases Pool.mem_tasks_start.mp hu with hu | rfl
    · exact h.launching u hu hcall id hl
    · rw [Launching, hfresh _ fun f hf => (callFrames_fresh c id f hf).2.1] at hl
      cases hl
  case launched =>
    intro u hu hcall id hl
    rcases Pool.mem_tasks_start.mp hu with hu | rfl
    · exact h.launched u hu hcall id hl
    · rw [hfresh _ fun f hf => (callFrames_fresh c id f hf).2.2.1] at hl
      cases hl
  case running =>
    intro u hu hcall id hl
    rcases Pool.mem_tasks_start.mp hu with hu | rfl
    · exact h.running u hu hcall id hl
    · rw [hfresh _ fun f hf => (callFrames_fresh c id f hf).2.2.2] at hl
      cases hl

/-- **A serialized step keeps the calls serial.** -/
theorem Serial.step {s s' : State} {l : Label} (h : Serial s) (hl : noRestart l)
    (hserial : serialized s l) (hstep : step s l = some s') : Serial s' := by
  cases l with
  | invoke c =>
    obtain rfl := Option.some.inj hstep
    exact h.invoke (of_decide_eq_true hserial)
  | step i o =>
    obtain ⟨t, f, k, out, hadv⟩ := Pool.advance_eq_some hstep
    exact h.advance hadv hstep
  | exit q st =>
    obtain ⟨p, -, rfl⟩ := step_exit hstep
    exact { h with sound := { h.sound with } }
  | foreign pid =>
    obtain ⟨-, -, rfl⟩ := step_foreign hstep
    exact { h with sound := { h.sound with } }
  | restart rs => cases hl

theorem Serial.init (listener : Nat) (blake3 : String → String) :
    Serial (init listener blake3) := by
  constructor
  case sound => exact Sound.init listener blake3
  all_goals simp [Fake.init, Reapers]

end LightrCri.Fake

import LightrCri.Fake.Duty
import LightrCri.Fake.Origin
import LightrCri.Fake.Times

/-!
# An id is not used again

`new_id` makes an id of a reading of the clock and of a counter that starts again with each
listener. If the clock does not go back, and each listener reads a later time than the one before
it, a new id differs from all that were made before it, by this listener or another (`Numbered`).
So an id is one sandbox or one container for ever: two records that go by it, however far apart in a
run, are the same in what is fixed of them, and are what the call asked for that was answered with
the id (`ids_not_reused`). If a listener reads a time that one before it has read, it may give an id
again, and the record it makes takes the place of the old one (`id_reused`).
-/

namespace LightrCri.Fake

open Backend Foundations

/-- The id of the object was made before the listener was opened, or from a counter value already
given out. -/
def Obj.Dated (c : Clock) (counter : Nat) : Obj → Prop
  | .sandbox id => Fake.Dated "sb-" c counter id.val
  | .container id => Fake.Dated "ct-" c counter id.val
  | .image _ => True

theorem Obj.Dated.mono {c c' : Clock} {m m' : Nat} {ob : Obj} (h : ob.Dated c m)
    (hopened : c.opened = c'.opened) (hnow : c.now ≤ c'.now) (hm : m ≤ m') : ob.Dated c' m' := by
  cases ob with
  | sandbox id | container id => exact Fake.Dated.mono h hopened hnow hm
  | image id => exact True.intro

theorem Obj.Dated.reopened {c : Clock} {m : Nat} {ob : Obj} (h : ob.Dated c m) {now : Int}
    (hlt : c.now < now) (m' : Nat) : ob.Dated ⟨now, now⟩ m' := by
  cases ob with
  | sandbox id | container id => exact Fake.Dated.reopened h hlt m'
  | image id => exact True.intro

/-- The records that calls have made have ids of their own. -/
structure Numbered (c : Clock) (h : List (Call × DiskRecord)) (s : State) : Prop where
  opened : c.opened ≤ c.now
  dated : ∀ p ∈ h, p.2.obj.Dated c s.shared.counter
  unique : ∀ p ∈ h, ∀ q ∈ h, p.2.obj.minted → p.2.obj = q.2.obj → p = q

section Exec

variable {self n : Nat} {o : Oracle} {f : Frame} {w w' : World} {out : Out} {r : DiskRecord}

/-- A new record has an id from the counter. -/
theorem born_id (h : f.born o w = some r) (hr : r.obj.minted) :
    (∃ id : SandboxId, r.obj = .sandbox id ∧ id.val = newId "sb-" o.clock w.counter) ∨
      ∃ id : ContainerId, r.obj = .container id ∧ id.val = newId "ct-" o.clock w.counter := by
  cases f with
  | sys s =>
    cases s with
    | runSandbox cfg =>
      obtain ⟨net, -, rfl⟩ := Option.map_eq_some_iff.mp h
      exact .inl ⟨_, rfl, rfl⟩
    | newContainer sb cfg =>
      obtain rfl := Option.some.inj h
      exact .inr ⟨_, rfl, rfl⟩
    | pullImage ref =>
      simp only [Frame.born] at h
      split at h
      · cases h
      · obtain rfl := Option.some.inj h
        cases hr
    | _ => cases h
  | _ => cases h

/-- The counter is past the value that a new id is made of. -/
theorem exec_born_counter (hex : exec self n o f w = some (w', out)) (h : f.born o w = some r)
    (hr : r.obj.minted) : w.counter < w'.counter := by
  cases f with
  | sys s =>
    simp only [exec_sys] at hex
    cases s with
    | runSandbox cfg =>
      simp only [Sys.exec] at hex
      split at hex <;> obtain ⟨rfl, -⟩ := Prod.mk.inj (Option.some.inj hex) <;>
        exact Nat.lt_succ_self _
    | newContainer sb cfg =>
      obtain ⟨rfl, -⟩ := Prod.mk.inj (Option.some.inj hex)
      exact Nat.lt_succ_self _
    | pullImage ref =>
      simp only [Frame.born] at h
      split at h
      · cases h
      · obtain rfl := Option.some.inj h
        cases hr
    | _ => cases h
  | _ => cases h

/-- **A new id is not one that was made before.** -/
theorem born_fresh {c : Clock} {ob : Obj} (h : f.born o w = some r) (hr : r.obj.minted)
    (hclock : c.opened ≤ o.clock) (hdated : ob.Dated c w.counter) : ob ≠ r.obj := by
  rintro rfl
  rcases born_id h hr with ⟨id, hob, hid⟩ | ⟨id, hob, hid⟩
  all_goals
    rw [hob, Obj.Dated, hid] at hdated
    exact not_dated_newId hclock hdated

theorem born_dated {c : Clock} (hex : exec self n o f w = some (w', out))
    (h : f.born o w = some r) (hstamp : o.clock ≤ o.stamp) :
    r.obj.Dated ⟨c.opened, o.stamp⟩ w'.counter := by
  by_cases hr : r.obj.minted
  · have hcounter := exec_born_counter hex h hr
    rcases born_id h hr with ⟨id, hob, hid⟩ | ⟨id, hob, hid⟩
    all_goals
      rw [hob]
      exact ⟨o.clock, w.counter, hid, hstamp, .inr hcounter⟩
  · cases r with
    | image r => exact True.intro
    | sandbox r | container r => exact absurd rfl hr

end Exec

section Step

variable {c c' : Clock} {h : List (Call × DiskRecord)} {s s' : State}

theorem Numbered.advance {i : Nat} {o : Oracle} {t : Thread} {f : Frame} {k : List Frame}
    {out : Out} (H : Numbered c h s) (hadv : Pool.Advance exec s i o s' t f k out)
    (hclock : c.now ≤ o.clock) (hstamp : o.clock ≤ o.stamp) :
    Numbered ⟨c.opened, o.stamp⟩ (births h s (.step i o) s') s' := by
  have hmem : ∀ p : Call × DiskRecord, p ∈ births h s (.step i o) s' ↔
      p ∈ h ∨ t.tag = .call p.1 ∧ f.born o s.shared = some p.2 := fun p =>
    mem_births hadv.task hadv.frames
  have hopened : c.opened ≤ o.clock := Int.le_trans H.opened hclock
  refine ⟨Int.le_trans hopened hstamp, fun p hp => ?_, fun p hp q hq hminted heq => ?_⟩
  · rcases (hmem p).mp hp with hp | ⟨-, hborn⟩
    · exact (H.dated p hp).mono rfl (Int.le_trans hclock hstamp) (exec_counter_le hadv.exec)
    · exact born_dated hadv.exec hborn hstamp
  · rcases (hmem p).mp hp with hp | ⟨hcall, hborn⟩
    · rcases (hmem q).mp hq with hq | ⟨-, hborn'⟩
      · exact H.unique p hp q hq hminted heq
      · exact absurd heq (born_fresh hborn' (heq ▸ hminted) hopened (H.dated p hp))
    · rcases (hmem q).mp hq with hq | ⟨hcall', hborn'⟩
      · exact absurd heq.symm (born_fresh hborn hminted hopened (H.dated q hq))
      · have hr : p.2 = q.2 := Option.some.inj (hborn.symm.trans hborn')
        have hc : p.1 = q.1 := Tag.call.inj (hcall.symm.trans hcall')
        exact Prod.ext hc hr

/-- **The step of the invariant.** -/
theorem Numbered.step {l : Label} (H : Numbered c h s) (htick : c.tick l = some c')
    (hstep : Fake.step s l = some s') : Numbered c' (births h s l s') s' := by
  cases l with
  | step i o =>
    obtain ⟨⟨hclock, hstamp⟩, rfl⟩ := Clock.tick_step htick
    obtain ⟨t, f, k, out, hadv⟩ := Pool.advance_eq_some hstep
    exact H.advance hadv hclock hstamp
  | restart rs =>
    obtain ⟨hlater, rfl⟩ := Clock.tick_restart htick
    exact ⟨Int.le_refl _, fun p hp => (H.dated p hp).reopened hlater _, H.unique⟩
  | invoke call =>
    obtain rfl := Option.some.inj htick
    obtain rfl := Option.some.inj hstep
    exact ⟨H.opened, H.dated, H.unique⟩
  | exit q st =>
    obtain rfl := Option.some.inj htick
    obtain ⟨p, -, rfl⟩ := step_exit hstep
    exact ⟨H.opened, H.dated, H.unique⟩
  | foreign pid =>
    obtain rfl := Option.some.inj htick
    obtain ⟨-, -, rfl⟩ := step_foreign hstep
    exact ⟨H.opened, H.dated, H.unique⟩

theorem Numbered.init (c : Clock) (hopened : c.opened ≤ c.now) (s : State) : Numbered c [] s where
  opened := hopened
  dated p hp := by cases hp
  unique p hp := by cases hp

theorem births_grow {ls : List Label} {h' : List (Call × DiskRecord)}
    (hrun : run (withHistory Fake.step births) (h, s) ls = some (h', s')) : h <+: h' := by
  refine invariant_run (I := fun p : List (Call × DiskRecord) × State => h <+: p.1)
    (P := fun _ _ => True) ?_ (List.prefix_refl h) (Along.trivial _ _) hrun
  rintro p l p' hp - hstep
  obtain ⟨-, hh⟩ := withHistory_eq_some.mp hstep
  rw [hh]
  cases l with
  | step i o => exact hp.trans (List.prefix_append _ _)
  | _ => exact hp

end Step

/-! ## Records that go by one id -/

def Identity.obj : Identity → Obj
  | .sandbox id .. => .sandbox id
  | .container id .. => .container id
  | .image r => .image r.id

theorem obj_identity (r : DiskRecord) : r.identity.obj = r.obj := by
  cases r <;> rfl

theorem obj_eq_of_identity {r r' : DiskRecord} (h : r.identity = r'.identity) :
    r.obj = r'.obj := by
  rw [← obj_identity, h, obj_identity]

theorem Call.Asks.of_identity {call : Call} {r r' : DiskRecord} (h : call.Asks r)
    (heq : r.identity = r'.identity) : call.Asks r' := by
  cases r with
  | sandbox r =>
    cases r' with
    | sandbox r' =>
      cases call with
      | runSandbox cfg => exact (Identity.sandbox.inj heq).2.1.symm.trans h
      | _ => cases h
    | _ => cases heq
  | container r =>
    cases r' with
    | container r' =>
      obtain ⟨-, hsandbox, hconfig, -⟩ := Identity.container.inj heq
      cases call with
      | createContainer sb cfg => exact ⟨hsandbox.symm.trans h.1, hconfig.symm.trans h.2⟩
      | _ => cases h
    | _ => cases heq
  | image r =>
    cases r' with
    | image r' =>
      obtain rfl := Identity.image.inj heq
      exact h
    | _ => cases heq

theorem minted_of_value {v : Value} {ob : Obj} (h : v.obj = some ob) : ob.minted := by
  cases v with
  | sandbox id | container id =>
    obtain rfl := Option.some.inj h
    rfl
  | _ => cases h

/-- **An id is not used again**, over every run whose clock does not go back, across kills and
reopens: two records that go by one id are the same in what is fixed of them, and a record that goes
by the id that a call was answered with is what this call has asked for. -/
theorem ids_not_reused {listener : Nat} {blake3 : String → String} {ls₁ ls₂ : List Label}
    {opened : Int} {c : Clock} {s₁ s₂ : State}
    (hreads : Along step ReadsDisk (init listener blake3) (ls₁ ++ ls₂))
    (hclock : run Clock.tick ⟨opened, opened⟩ (ls₁ ++ ls₂) = some c)
    (hrun₁ : run step (init listener blake3) ls₁ = some s₁) (hrun₂ : run step s₁ ls₂ = some s₂) :
    (∀ r₁ r₂, Known s₁ r₁ → Known s₂ r₂ → r₁.obj.minted → r₁.obj = r₂.obj →
      r₁.identity = r₂.identity) ∧
      ∀ t ∈ s₁.tasks, ∀ call v r, t.tag = .call call → t.result = some (.ok v) →
        v.obj = some r.obj → Known s₂ r → call.Asks r := by
  obtain ⟨h₁, hhist₁⟩ := exists_history births [] hrun₁
  obtain ⟨h₂, hhist₂⟩ := exists_history births h₁ hrun₂
  have hhist : run (withHistory step births) ([], init listener blake3) (ls₁ ++ ls₂) =
      some (h₂, s₂) := run_append_eq_some.mpr ⟨(h₁, s₁), hhist₁, hhist₂⟩
  have H₁ : Origin h₁ s₁ := origin_run (hreads.append hrun₁).1 hhist₁
  have H₂ : Origin h₂ s₂ := origin_run hreads hhist
  have hsub : h₁ ⊆ h₂ := (births_grow hhist₂).subset
  have hnumbered : Numbered c h₂ s₂ := by
    refine invariant_run_both (P := fun _ _ => True)
      (I := fun c (p : List (Call × DiskRecord) × State) => Numbered c p.1 p.2) ?_
      (.init ⟨opened, opened⟩ (Int.le_refl _) _) (Along.trivial _ _) hclock hhist
    rintro c p l c' p' H - htick hstep
    obtain ⟨hs, hh⟩ := withHistory_eq_some.mp hstep
    exact hh ▸ H.step htick hs
  refine ⟨fun r₁ r₂ hr₁ hr₂ hminted heq => ?_, fun t ht call v r htag hres hv hr => ?_⟩
  · obtain ⟨call₁, b₁, hb₁, hid₁⟩ := H₁.held r₁ hr₁
    obtain ⟨call₂, b₂, hb₂, hid₂⟩ := H₂.held r₂ hr₂
    have hob₁ : b₁.obj = r₁.obj := obj_eq_of_identity hid₁
    have hob₂ : b₂.obj = r₂.obj := obj_eq_of_identity hid₂
    have hsame := hnumbered.unique _ (hsub hb₁) _ hb₂ (hob₁ ▸ hminted)
      (hob₁.trans (heq.trans hob₂.symm))
    rw [← hid₁, ← hid₂, (Prod.mk.inj hsame).2]
  · obtain ⟨b₁, hb₁, hob₁⟩ := H₁.answers t ht call htag v _ hv (.inr hres)
    obtain ⟨call₂, b₂, hb₂, hid₂⟩ := H₂.held r hr
    have hminted : r.obj.minted := minted_of_value hv
    have hsame := hnumbered.unique _ (hsub hb₁) _ hb₂ (hob₁ ▸ hminted)
      (hob₁.trans (obj_eq_of_identity hid₂).symm)
    obtain ⟨rfl, rfl⟩ := Prod.mk.inj hsame
    exact (H₂.asks _ _ hb₂).of_identity hid₂

/-- The state root is opened again at the time `now`, after `podRun`. -/
def reopenedAt (now : Int) : Restart where
  pid := 2
  clock := now
  listing sub := ((run step (init 1 id) podRun).elim ∅ fun s => s.shared.disk sub).toList

/-- The next listener runs a sandbox, at the time `now`. -/
def nextRun (now : Int) : List Label :=
  .restart (reopenedAt now) :: .invoke (.runSandbox { name := "other" }) :: stepsAt now 0 5

theorem ids_not_reused_nextRun : ∃ s r₁ r₂, run step podState (nextRun 1) = some s ∧
    podState.shared.cache.sandboxes[podSandbox]? = some r₁ ∧
      s.shared.cache.sandboxes[podSandbox]? = some r₂ ∧
        (DiskRecord.sandbox r₁).identity = (DiskRecord.sandbox r₂).identity := by
  have hpod : (podState.shared.cache.sandboxes[podSandbox]?).any fun r =>
      r.id = podSandbox := by decide +kernel
  have hrun : (run step podState (nextRun 1)).any fun s =>
      (s.shared.cache.sandboxes[podSandbox]?).any fun r => r.id = podSandbox := by decide +kernel
  obtain ⟨r₁, hr₁, hid₁⟩ := (Option.any_eq_true _ _).mp hpod
  obtain ⟨s, hs, hend⟩ := (Option.any_eq_true _ _).mp hrun
  obtain ⟨r₂, hr₂, hid₂⟩ := (Option.any_eq_true _ _).mp hend
  obtain ⟨c, hc⟩ : ∃ c, run Clock.tick ⟨0, 0⟩ (podRun ++ nextRun 1) = some c :=
    Option.isSome_iff_exists.mp (by decide +kernel)
  have hreads : Along step ReadsDisk (init 1 id) (podRun ++ nextRun 1) := by decide +kernel
  have hob : (DiskRecord.sandbox r₁).obj = (DiskRecord.sandbox r₂).obj :=
    congrArg Obj.sandbox ((of_decide_eq_true hid₁).trans (of_decide_eq_true hid₂).symm)
  exact ⟨s, r₁, r₂, hs, hr₁, hr₂, (ids_not_reused hreads hc run_podRun hs).1 _ _
    (.cached _ (Cache.get_sandbox_eq_some hr₁)) (.cached _ (Cache.get_sandbox_eq_some hr₂)) rfl hob⟩

/-- **An id that is used again.** If the next listener reads no later time than the one before it,
the record of its first sandbox takes the place of an old one. -/
theorem id_reused :
    ¬ ∀ (listener : Nat) (blake3 : String → String) (ls₁ ls₂ : List Label) (s₁ s₂ : State),
      Along step ReadsDisk (init listener blake3) (ls₁ ++ ls₂) →
      run step (init listener blake3) ls₁ = some s₁ → run step s₁ ls₂ = some s₂ →
      ∀ r₁ r₂, Known s₁ r₁ → Known s₂ r₂ → r₁.obj.minted → r₁.obj = r₂.obj →
        r₁.identity = r₂.identity := by
  intro h
  have hrun : (run step podState (nextRun 0)).any fun s =>
      (s.shared.cache.sandboxes[podSandbox]?).any fun r =>
        r.id = podSandbox ∧ r.config.name = "other" := by decide +kernel
  have hpod : (podState.shared.cache.sandboxes[podSandbox]?).any fun r =>
      r.id = podSandbox ∧ r.config.name = "pod" := by decide +kernel
  obtain ⟨s, hs, hend⟩ := (Option.any_eq_true _ _).mp hrun
  obtain ⟨r₂, hr₂, hother⟩ := (Option.any_eq_true _ _).mp hend
  obtain ⟨r₁, hr₁, hpod⟩ := (Option.any_eq_true _ _).mp hpod
  obtain ⟨hid₁, hname₁⟩ := of_decide_eq_true hpod
  obtain ⟨hid₂, hname₂⟩ := of_decide_eq_true hother
  have hreads : Along step ReadsDisk (init 1 id) (podRun ++ nextRun 0) := by decide +kernel
  have hsame := h 1 id podRun (nextRun 0) podState s hreads run_podRun hs
    (.sandbox r₁) (.sandbox r₂) (.cached _ (Cache.get_sandbox_eq_some hr₁))
    (.cached _ (Cache.get_sandbox_eq_some hr₂)) rfl
    (congrArg Obj.sandbox (hid₁.trans hid₂.symm))
  rw [← (Identity.sandbox.inj hsame).2.1, hname₁] at hname₂
  exact absurd hname₂ (by decide)

end LightrCri.Fake

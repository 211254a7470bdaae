import LightrCri.Fake.Provenance
import LightrCri.Fake.Stop

/-!
# What a record never changes

The id of a record, its configuration, its creation time, and the network of a sandbox or the
sandbox of a container are fixed when the record is made (`Identity`). `births` remembers the
records that calls have made. Over every run, with any interleaving, failing file operations, kills
and reopens, what the backend holds is one of these in its fixed part (`record_origin`): a status
shows what some call asked for, and an id that a call has returned is that of a record it made.
-/

namespace LightrCri.Fake

open Backend Foundations

/-- What of a record is fixed when it is made. -/
inductive Identity
  | sandbox (id : SandboxId) (config : SandboxConfig) (createdAtNanos : Int)
    (ip netnsPath : Option String)
  | container (id : ContainerId) (sandbox : SandboxId) (config : ContainerConfig)
    (createdAtNanos : Int)
  | image (r : ImageDiskRecord)
  deriving DecidableEq, Repr

def DiskRecord.identity : DiskRecord → Identity
  | .sandbox r => .sandbox r.id r.config r.createdAtNanos r.ip r.netnsPath
  | .container r => .container r.id r.sandbox r.config r.createdAtNanos
  | .image r => .image r

/-- The call asks for the record. -/
def Call.Asks : Call → DiskRecord → Prop
  | .runSandbox cfg, .sandbox r => r.config = cfg
  | .createContainer sb cfg, .container r => r.sandbox = sb ∧ r.config = cfg
  | .pullImage ref, .image r => r.refName = ref
  | _, _ => False

/-- The object a call has answered with. -/
def Value.obj : Value → Option Obj
  | .sandbox id => some (.sandbox id)
  | .container id => some (.container id)
  | _ => none

/-- The record that the step of task `i` makes, with the call of the task. -/
def birth (s : State) (i : Nat) (o : Oracle) : Option (Call × DiskRecord) :=
  s.tasks[i]?.bind fun t =>
    match t.tag with
    | .call c => (t.frames.head?.bind fun f => f.born o s.shared).map fun r => (c, r)
    | .reaper _ _ => none

/-- The records that calls have made. -/
def births (h : List (Call × DiskRecord)) (s : State) (l : Label) (_ : State) :
    List (Call × DiskRecord) :=
  match l with
  | .step i o => h ++ (birth s i o).toList
  | _ => h

/-! ## The calls of the frames -/

/-- The call that a frame makes a record for. -/
def Frame.request : Frame → Option Call
  | .sys (.runSandbox cfg) => some (.runSandbox cfg)
  | .crit (.createContainer sb cfg) => some (.createContainer sb cfg)
  | .sys (.newContainer sb cfg) => some (.createContainer sb cfg)
  | .sys (.pullImage ref) => some (.pullImage ref)
  | _ => none

section Exec

variable {self n : Nat} {o : Oracle} {f g : Frame} {w w' : World} {out : Out} {r : DiskRecord}

/-- A record is made for the call of its frame. -/
theorem request_of_born (h : f.born o w = some r) : ∃ c, f.request = some c ∧ c.Asks r := by
  cases f with
  | sys s =>
    cases s with
    | runSandbox cfg =>
      obtain ⟨net, -, rfl⟩ := Option.map_eq_some_iff.mp h
      exact ⟨_, rfl, rfl⟩
    | newContainer sb cfg =>
      obtain rfl := Option.some.inj h
      exact ⟨_, rfl, rfl, rfl⟩
    | pullImage ref =>
      simp only [Frame.born] at h
      split at h
      · cases h
      · obtain rfl := Option.some.inj h
        exact ⟨_, rfl, rfl⟩
    | _ => cases h
  | _ => cases h

/-- A frame is pushed for the call of the one that pushes it. -/
theorem exec_request {c : Call} (hex : exec self n o f w = some (w', out)) (hg : g ∈ out.pushed)
    (hc : g.request = some c) : f.request = some c := by
  cases f with
  | crit cr =>
    obtain ⟨-, hex⟩ := exec_crit_eq_some.mp hex
    cases cr with
    | createContainer sb cfg =>
      simp only [Crit.exec] at hex
      repeat' split at hex
      all_goals obtain ⟨-, rfl⟩ := Prod.mk.inj hex
      · cases hg
      · obtain rfl := List.mem_singleton.mp hg
        exact hc
      · cases hg
    | collectContainers id =>
      simp only [Crit.exec] at hex
      split at hex <;> obtain ⟨-, rfl⟩ := Prod.mk.inj hex
      · cases hg
      · rcases List.mem_append.mp hg with hg | hg
        · obtain ⟨cid, -, hg⟩ := List.mem_flatMap.mp hg
          simp only [List.mem_cons, List.not_mem_nil, or_false] at hg
          rcases hg with rfl | rfl <;> cases hc
        · obtain rfl := List.mem_singleton.mp hg
          cases hc
    | _ =>
      have hplain : ∀ g ∈ out.pushed, g.request = none := by
        simp only [Crit.exec] at hex
        repeat' split at hex
        all_goals
          obtain ⟨-, rfl⟩ := Prod.mk.inj hex
          simp [Outcome.pushed, Frame.request]
      rw [hplain g hg] at hc
      cases hc
  | file op =>
    obtain ⟨-, rfl⟩ := exec_file_eq_some.mp hex
    obtain ⟨op', rfl⟩ := FileOp.pushed_file hg
    cases hc
  | sys s =>
    simp only [exec_sys] at hex
    have hplain : ∀ g ∈ out.pushed, g.request = none := by
      cases s <;> simp only [Sys.exec] at hex <;> (repeat' split at hex)
      all_goals first
        | (obtain ⟨-, rfl⟩ := Prod.mk.inj (Option.some.inj hex)
           simp [Outcome.pushed, Frame.request])
        | cases hex
    rw [hplain g hg] at hc
    cases hc
  | unlock | ret v | fail e =>
    obtain ⟨-, rfl⟩ := Prod.mk.inj (Option.some.inj hex)
    cases hg

/-- The object that a call will answer with is that of the record it makes. -/
theorem exec_ret_obj {v : Value} {ob : Obj} (hex : exec self n o f w = some (w', out))
    (hg : .ret v ∈ out.pushed) (hv : v.obj = some ob) : ∃ r, f.born o w = some r ∧ r.obj = ob := by
  cases f with
  | crit cr =>
    obtain ⟨-, hex⟩ := exec_crit_eq_some.mp hex
    exfalso
    cases cr with
    | collectContainers id =>
      simp only [Crit.exec] at hex
      split at hex <;> obtain ⟨-, rfl⟩ := Prod.mk.inj hex
      · cases hg
      · rcases List.mem_append.mp hg with hg | hg
        · obtain ⟨cid, -, hg⟩ := List.mem_flatMap.mp hg
          simp at hg
        · simp at hg
    | _ =>
      simp only [Crit.exec] at hex
      repeat' split at hex
      all_goals
        obtain ⟨-, rfl⟩ := Prod.mk.inj hex
        simp [Outcome.pushed] at hg
  | file op =>
    obtain ⟨-, rfl⟩ := exec_file_eq_some.mp hex
    obtain ⟨op', hop⟩ := FileOp.pushed_file hg
    cases hop
  | sys s =>
    simp only [exec_sys] at hex
    cases s with
    | runSandbox cfg =>
      obtain ⟨-, ⟨e, rfl⟩ | ⟨r, hnew, rfl⟩⟩ := exec_runSandbox_born hex
      · cases hg
      · obtain rfl : v = .sandbox r.id := by simpa [Outcome.pushed] using hg
        exact ⟨.sandbox r, hnew, Option.some.inj hv⟩
    | newContainer sb cfg =>
      obtain ⟨-, rfl⟩ := Prod.mk.inj (Option.some.inj hex)
      obtain rfl : v = .container ⟨newId "ct-" o.clock w.counter⟩ := by
        simpa [Outcome.pushed] using hg
      exact ⟨_, rfl, Option.some.inj hv⟩
    | pullImage ref =>
      simp only [Sys.exec] at hex
      split at hex <;> obtain ⟨-, rfl⟩ := Prod.mk.inj (Option.some.inj hex)
      · cases hg
      · obtain rfl : v = .image ⟨ref, w.blake3 ref, (imageRecord w.blake3 ref).size⟩ := by
          simpa [Outcome.pushed] using hg
        cases hv
    | _ =>
      exfalso
      simp only [Sys.exec] at hex
      repeat' split at hex
      all_goals first
        | (obtain ⟨-, rfl⟩ := Prod.mk.inj (Option.some.inj hex)
           simp [Outcome.pushed] at hg)
        | cases hex
  | unlock | ret v | fail e =>
    obtain ⟨-, rfl⟩ := Prod.mk.inj (Option.some.inj hex)
    cases hg

/-- A task returns the value of its frame. -/
theorem exec_halt_ok {v : Value} (hex : exec self n o f w = some (w', .halt (.ok v))) :
    f = .ret v := by
  cases f with
  | crit cr =>
    obtain ⟨-, hex⟩ := exec_crit_eq_some.mp hex
    cases cr <;> simp only [Crit.exec] at hex <;> (repeat' split at hex) <;> simp at hex
  | file op =>
    obtain ⟨-, hex⟩ := exec_file_eq_some.mp hex
    cases op <;> simp only [FileOp.exec, ioError] at hex <;> (repeat' split at hex) <;> simp at hex
  | sys s =>
    simp only [exec_sys] at hex
    cases s <;> simp only [Sys.exec] at hex <;> (repeat' split at hex) <;> simp at hex
  | ret v' =>
    obtain ⟨-, hv⟩ := Prod.mk.inj (Option.some.inj hex)
    rw [Except.ok.inj (Outcome.halt.inj hv)]
  | unlock | fail e => simp at hex

/-- Records stay under their ids. -/
theorem exec_keyed (hk : w.cache.Keyed) (hex : exec self n o f w = some (w', out)) :
    w'.cache.Keyed := by
  cases f with
  | crit c =>
    obtain ⟨-, hex⟩ := exec_crit_eq_some.mp hex
    by_cases hp : (Frame.crit c).plain
    · have hs : CritStep self c w w' out := by
        simpa only [hex] using Crit.exec_step self o w c hk hp
      cases hs with
      | decide _ _ _ same | refuse _ same => exact same ▸ hk
      | update r _ _ change | land r _ change => exact change ▸ hk.put r
      | dropIo id _ change => exact change ▸ hk.erase (.container id)
      | drop ob _ _ change => exact change ▸ hk.erase ob
    · have hw : (c.exec self o w).1 = w' := by rw [hex]
      cases c with
      | insertSandbox r => exact hw ▸ hk.put (.sandbox r)
      | insertContainer r => exact hw ▸ hk.put (.container r)
      | insertImage r => exact hw ▸ hk.put (.image r)
      | _ => exact absurd rfl hp
  | file g =>
    obtain ⟨rfl, -⟩ := exec_file_eq_some.mp hex
    rw [(FileOp.exec_cache_procs o w g).1]
    exact hk
  | sys s =>
    have hc : w'.cache = w.cache := by
      simp only [exec_sys] at hex
      cases s <;> simp only [Sys.exec] at hex <;> (repeat' split at hex)
      all_goals first
        | (obtain ⟨rfl, -⟩ := Prod.mk.inj (Option.some.inj hex)
           rfl)
        | cases hex
    rw [hc]
    exact hk
  | unlock | ret v | fail e =>
    obtain ⟨rfl, -⟩ := Prod.mk.inj (Option.some.inj hex)
    exact hk

end Exec

theorem keyed_restart (rs : Restart) (w : World) : (w.restart rs).cache.Keyed := by
  intro ob r h
  cases ob with
  | sandbox id =>
    obtain ⟨a, ha, rfl⟩ := Option.map_eq_some_iff.mp h
    obtain ⟨-, -, -, hkey⟩ := mem_of_rebuild ha
    exact congrArg Obj.sandbox hkey
  | container id =>
    obtain ⟨a, ha, rfl⟩ := Option.map_eq_some_iff.mp h
    obtain ⟨-, -, -, hkey⟩ := mem_of_rebuild ha
    exact congrArg Obj.container hkey
  | image id =>
    obtain ⟨a, ha, rfl⟩ := Option.map_eq_some_iff.mp h
    obtain ⟨-, -, -, hkey⟩ := mem_of_rebuild ha
    exact congrArg Obj.image hkey

/-- **Records are under their ids**, after every step. -/
theorem keyed_step {s s' : State} {l : Label} (hk : s.shared.cache.Keyed)
    (hstep : step s l = some s') : s'.shared.cache.Keyed := by
  cases l with
  | invoke c =>
    obtain rfl := Option.some.inj hstep
    exact hk
  | step i o =>
    obtain ⟨t, f, k, out, hadv⟩ := Pool.advance_eq_some hstep
    exact exec_keyed hk hadv.exec
  | exit q st =>
    obtain ⟨p, -, rfl⟩ := step_exit hstep
    exact hk
  | foreign pid =>
    obtain ⟨-, -, rfl⟩ := step_foreign hstep
    exact hk
  | restart rs =>
    obtain rfl := Option.some.inj hstep
    exact keyed_restart rs s.shared

/-! ## The invariant -/

theorem identity_recover (alive : Nat → Bool) (now : Int) (r : ContainerRecord) :
    (DiskRecord.container (recover alive now r)).identity = (DiskRecord.container r).identity := by
  unfold recover
  split_ifs <;> rfl

/-- What is made of a cached record has its identity. -/
theorem Makes.identity {o : Oracle} {f : Frame} {s : State} {r : DiskRecord}
    (h : Makes o s.shared f r) :
    f.born o s.shared = some r ∨ ∃ r₀, Known s r₀ ∧ r₀.identity = r.identity := by
  cases h with
  | born _ _ new => exact .inl new
  | stopSandbox id r cached =>
    exact .inr ⟨.sandbox r, .cached (.sandbox id) (Cache.get_sandbox_eq_some cached), rfl⟩
  | startIntent id r cached | spawnFailed id _ r cached | persistPid id _ r cached
  | recordStopped id _ r cached | reap id _ _ r cached =>
    exact .inr ⟨.container r, .cached (.container id) (Cache.get_container_eq_some cached), rfl⟩

/-- The history knows every record and every answer. -/
structure Origin (h : List (Call × DiskRecord)) (s : State) : Prop where
  keyed : s.shared.cache.Keyed
  asks : ∀ c r, (c, r) ∈ h → c.Asks r
  held : ∀ r, Known s r → ∃ c b, (c, b) ∈ h ∧ b.identity = r.identity
  asked : ∀ t ∈ s.tasks, ∀ f ∈ t.frames, ∀ c, f.request = some c → t.tag = .call c
  answers : ∀ t ∈ s.tasks, ∀ c, t.tag = .call c → ∀ v ob, v.obj = some ob →
    (.ret v ∈ t.frames ∨ t.result = some (.ok v)) → ∃ b, (c, b) ∈ h ∧ b.obj = ob

theorem Origin.init (listener : Nat) (blake3 : String → String) :
    Origin [] (init listener blake3) where
  keyed ob r h := by simp [Fake.init] at h
  asks c r h := by cases h
  held r h := absurd h (not_known_init listener blake3)
  asked t ht := by cases ht
  answers t ht := by cases ht

theorem Call.frames_request {c c' : Call} {f : Frame} (hf : f ∈ c.frames)
    (hc : f.request = some c') : c = c' := by
  cases c <;> simp only [Call.frames, List.mem_cons, List.not_mem_nil, or_false] at hf
  all_goals
    rcases hf with rfl | rfl | rfl
    all_goals first
      | exact Option.some.inj hc
      | cases hc

theorem Call.frames_ret {c : Call} {v : Value} {ob : Obj} (hf : .ret v ∈ c.frames)
    (hv : v.obj = some ob) : False := by
  cases c <;> simp [Call.frames] at hf <;> subst hf <;> cases hv

section Step

variable {h : List (Call × DiskRecord)} {s s' : State}

theorem mem_births {i : Nat} {o : Oracle} {t : Thread} {f : Frame} {k : List Frame} {c : Call}
    {r : DiskRecord} (ht : s.tasks[i]? = some t) (hf : t.frames = f :: k) :
    (c, r) ∈ births h s (.step i o) s' ↔
      (c, r) ∈ h ∨ t.tag = .call c ∧ f.born o s.shared = some r := by
  have hbirth : birth s i o = some (c, r) ↔ t.tag = .call c ∧ f.born o s.shared = some r := by
    rw [birth, ht, Option.bind_some, hf]
    cases htag : t.tag with
    | call c' =>
      simp only [List.head?_cons, Option.bind_some, Option.map_eq_some_iff, Prod.mk.injEq,
        Tag.call.injEq]
      constructor
      · rintro ⟨r', hr, rfl, rfl⟩
        exact ⟨rfl, hr⟩
      · rintro ⟨rfl, hr⟩
        exact ⟨r, hr, rfl, rfl⟩
    | reaper id q => simp
  simp only [births, List.mem_append, Option.mem_toList, hbirth]

/-- A step that leaves the tasks and the history. -/
theorem Origin.of_tasks {l : Label} (H : Origin h s) (hl : ReadsDisk s l)
    (hstep : Fake.step s l = some s') (hnot : ∀ i o, l ≠ .step i o)
    (htasks : ∀ t ∈ s'.tasks, t ∈ s.tasks) : Origin h s' where
  keyed := keyed_step H.keyed hstep
  asks := H.asks
  held r hr := by
    rcases known_step hl hstep hr with hr | ⟨i, o, f, rfl, -⟩ | ⟨rs, r₀, -, hr₀, rfl⟩
    · exact H.held r hr
    · exact absurd rfl (hnot i o)
    · rw [identity_recover]
      exact H.held _ hr₀
  asked t ht := H.asked t (htasks t ht)
  answers t ht := H.answers t (htasks t ht)

/-- **The step of the invariant.** -/
theorem Origin.step {l : Label} (H : Origin h s) (hl : ReadsDisk s l)
    (hstep : Fake.step s l = some s') : Origin (births h s l s') s' := by
  cases l with
  | invoke c =>
    have hkeyed := keyed_step H.keyed hstep
    have hheld : ∀ r, Known s' r → Known s r := fun r hr =>
      known_of_outside hl hstep (by simp) (by simp) hr
    obtain rfl := Option.some.inj hstep
    refine ⟨hkeyed, H.asks, fun r hr => H.held r (hheld r hr), fun t ht f hf c' hc => ?_,
      fun t ht c' hc v ob hv hor => ?_⟩
    · rcases Pool.mem_tasks_start.mp ht with ht | rfl
      · exact H.asked t ht f hf c' hc
      · rw [Call.frames_request hf hc]
    · rcases Pool.mem_tasks_start.mp ht with ht | rfl
      · exact H.answers t ht c' hc v ob hv hor
      · rcases hor with hret | hret
        · exact (Call.frames_ret hret hv).elim
        · cases hret
  | step i o =>
    have hkeyed := keyed_step H.keyed hstep
    have hcases := fun r => known_step (r := r) hl hstep
    obtain ⟨t, f, k, out, hadv⟩ := Pool.advance_eq_some hstep
    have hmem : ∀ c r, (c, r) ∈ births h s (.step i o) s' ↔
        (c, r) ∈ h ∨ t.tag = .call c ∧ f.born o s.shared = some r := fun c r =>
      mem_births hadv.task hadv.frames
    have hf : f ∈ t.frames := by
      rw [hadv.frames]
      exact List.mem_cons_self
    have hk : ∀ g ∈ k, g ∈ t.frames := fun g hg => by
      rw [hadv.frames]
      exact List.mem_cons_of_mem _ hg
    refine ⟨hkeyed, fun c r hcr => ?_, fun r hr => ?_, ?_, ?_⟩
    · rcases (hmem c r).mp hcr with hcr | ⟨htag, hborn⟩
      · exact H.asks c r hcr
      · obtain ⟨c', hc', hasks⟩ := request_of_born hborn
        obtain rfl := Tag.call.inj (htag.symm.trans (H.asked t hadv.mem f hf c' hc'))
        exact hasks
    · rcases hcases r hr with hr | ⟨i', o', f', heq, htop, hm⟩ | ⟨rs, r₀, heq, -⟩
      · obtain ⟨c, b, hb, hid⟩ := H.held r hr
        exact ⟨c, b, (hmem c b).mpr (.inl hb), hid⟩
      · obtain ⟨rfl, rfl⟩ := Label.step.inj heq
        obtain rfl := Option.some.inj (hadv.top_eq.symm.trans htop)
        rcases hm.identity with hborn | ⟨r₀, hr₀, hid⟩
        · obtain ⟨c, hc, -⟩ := request_of_born hborn
          exact ⟨c, r, (hmem c r).mpr (.inr ⟨H.asked t hadv.mem f hf c hc, hborn⟩), rfl⟩
        · obtain ⟨c, b, hb, hid'⟩ := H.held r₀ hr₀
          exact ⟨c, b, (hmem c b).mpr (.inl hb), hid'.trans hid⟩
      · cases heq
    · refine hadv.forall_tasks H.asked (fun hown g hg c hc => ?_) (fun _ hu => hu)
        fun _ u hu g hg c hc => ?_
      · rw [Task.resume_tag]
        rcases Task.mem_resume hg with hg | hg
        · exact hown f hf c (exec_request hadv.exec hg hc)
        · exact hown g (hk g hg) c hc
      · obtain ⟨id, q, -, rfl⟩ := children_reaper hadv hu
        obtain rfl := List.mem_singleton.mp hg
        cases hc
    · refine hadv.forall_tasks H.answers (fun hown c hc v ob hv hor => ?_)
        (fun u hu c hc v ob hv hor => ?_) fun _ u hu c hc => ?_
      · rw [Task.resume_tag] at hc
        have hold : (.ret v ∈ t.frames ∨ t.result = some (.ok v)) →
            ∃ b, (c, b) ∈ births h s (.step i o) s' ∧ b.obj = ob := fun hor => by
          obtain ⟨b, hb, hob⟩ := hown c hc v ob hv hor
          exact ⟨b, (hmem c b).mpr (.inl hb), hob⟩
        rcases hor with hret | hret
        · rcases Task.mem_resume hret with hret | hret
          · obtain ⟨r, hborn, hob⟩ := exec_ret_obj hadv.exec hret hv
            exact ⟨r, (hmem c r).mpr (.inr ⟨hc, hborn⟩), hob⟩
          · exact hold (.inl (hk _ hret))
        · cases hout : out with
          | next fs =>
            rw [hout] at hret
            exact hold (.inr hret)
          | fork tag child =>
            rw [hout] at hret
            exact hold (.inr hret)
          | halt res =>
            rw [hout] at hret
            obtain rfl := Option.some.inj hret
            obtain rfl := exec_halt_ok (hout ▸ hadv.exec)
            exact hold (.inl hf)
      · obtain ⟨b, hb, hob⟩ := hu c hc v ob hv hor
        exact ⟨b, (hmem c b).mpr (.inl hb), hob⟩
      · obtain ⟨id, q, -, rfl⟩ := children_reaper hadv hu
        cases hc
  | exit q st =>
    refine H.of_tasks hl hstep (by simp) fun t ht => ?_
    obtain ⟨p, -, rfl⟩ := step_exit hstep
    exact ht
  | foreign pid =>
    refine H.of_tasks hl hstep (by simp) fun t ht => ?_
    obtain ⟨-, -, rfl⟩ := step_foreign hstep
    exact ht
  | restart rs =>
    refine H.of_tasks hl hstep (by simp) fun t ht => ?_
    obtain rfl := Option.some.inj hstep
    cases ht

theorem origin_run {listener : Nat} {blake3 : String → String} {ls : List Label}
    (hreads : Along Fake.step ReadsDisk (init listener blake3) ls)
    (hrun : run (withHistory Fake.step births) ([], init listener blake3) ls = some (h, s)) :
    Origin h s := by
  refine invariant_run (I := fun p : List (Call × DiskRecord) × State => Origin p.1 p.2) ?_
    (.init listener blake3) (hreads.withHistory []) hrun
  rintro p l p' hp hl hstep
  obtain ⟨hs, hh⟩ := withHistory_eq_some.mp hstep
  exact hh ▸ hp.step hl hs

end Step

/-- **Where records come from**, over every run: a record that is cached, stored or about to be
written is, in what is fixed of it, one that a call has made, and it is what that call asked for; an
id that a call has answered with is that of a record it made. -/
theorem record_origin {listener : Nat} {blake3 : String → String} {ls : List Label}
    {h : List (Call × DiskRecord)} {s : State}
    (hreads : Along step ReadsDisk (init listener blake3) ls)
    (hrun : run (withHistory step births) ([], init listener blake3) ls = some (h, s)) :
    (∀ r, Known s r → ∃ c b, (c, b) ∈ h ∧ c.Asks b ∧ b.identity = r.identity) ∧
      ∀ t ∈ s.tasks, ∀ c v ob, t.tag = .call c → t.result = some (.ok v) → v.obj = some ob →
        ∃ b, (c, b) ∈ h ∧ c.Asks b ∧ b.obj = ob := by
  have H := origin_run hreads hrun
  refine ⟨fun r hr => ?_, fun t ht c v ob htag hres hv => ?_⟩
  · obtain ⟨c, b, hb, hid⟩ := H.held r hr
    exact ⟨c, b, hb, H.asks c b hb, hid⟩
  · obtain ⟨b, hb, hob⟩ := H.answers t ht c htag v ob hv (.inr hres)
    exact ⟨b, hb, H.asks c b hb, hob⟩

/-- A container that is started, and found again by the next listener. -/
theorem record_origin_reopenedRun : ∃ h s r c b,
    run (withHistory step births) ([], init 1 id) reopenedRun = some (h, s) ∧
      s.shared.cache.containers[podContainer]? = some r ∧ (c, b) ∈ h ∧ c.Asks b ∧
        b.identity = (DiskRecord.container r).identity := by
  have hrun : (run (withHistory step births) ([], init 1 id) reopenedRun).any fun p =>
      (p.2.shared.cache.containers[podContainer]?).isSome := by decide
  obtain ⟨⟨h, s⟩, hs, hend⟩ := (Option.any_eq_true _ _).mp hrun
  obtain ⟨r, hr⟩ := Option.isSome_iff_exists.mp hend
  have hheld : Known s (.container r) := .cached _ (Cache.get_container_eq_some hr)
  obtain ⟨c, b, hb, hasks, hid⟩ := (record_origin (by decide) hs).1 _ hheld
  exact ⟨h, s, r, c, b, hs, hr, hb, hasks, hid⟩

end LightrCri.Fake

import LightrCri.Fake.Durable

/-!
# Crash recovery

What `open` finds after a kill at any point of serialized calls (`crash_recovery`). While a call is
at work, an object comes back with the record it had before the call, or the step of a removal, or
with the record that the call would have left (`Leaves`), or it is the container of a start and has
exited. Two writes that share the name of their temporary file break this (`crash_loses_container`).
-/

namespace LightrCri.Fake

open Backend Foundations

/-! ## The rest of a call -/

/-- The frame does not change the record of the object, and leads to no frame that does before the
next step of a removal. -/
def Frame.settles (ob : Obj) : Frame → Bool
  | .file _ => true
  | .unlock => true
  | .ret _ => true
  | .fail _ => true
  | .sys (.removeIo _) => true
  | .sys (.spawnReaper _ _) => true
  | .sys .dupPipes => true
  | .sys (.insertIo _ _) => true
  | .crit (.collectContainers _) => true
  | f => f.inserts.any fun r => r.obj ≠ ob

/-- What remains of the call, or of the step of a removal, does not change the record of the
object. -/
def Spent (ob : Obj) : List Frame → Prop
  | [] => True
  | f :: k => f.begins ∨ f.settles ob ∧ Spent ob k

/-- The continuation of the run: no other call, and the call `i` goes no further than to the end of
the step it is at. -/
def within (i : Nat) (s : State) : Label → Bool
  | .invoke _ => false
  | .restart _ => false
  | .step j o => j ≠ i || !begins s (.step j o)
  | _ => true

/-- Unless a reaper takes up the object, its record is `x` when the call `i`, or the step of a
removal that it is at, has ended. -/
def Leaves (s : State) (i : Nat) (ob : Obj) (x : Option DiskRecord) : Prop :=
  ∀ ls s', run step s ls = some s' →
    Along step (fun s l => within i s l ∧ landing s ob = false) s ls → landing s' ob = false →
    (s'.top i).all Frame.begins → s'.shared.cache.get ob = x

section Spent

variable {self n : Nat} {o : Oracle} {f : Frame} {k : List Frame} {w w' : World} {out : Out}
  {ob : Obj} {t : Thread}

theorem Spent.of_begins {fs : List Frame} (h : fs.head?.any Frame.begins) : Spent ob fs := by
  cases fs with
  | nil => cases h
  | cons f k => exact Or.inl h

theorem cascade_begins (ids : List ContainerId) (id : SandboxId) (k : List Frame) :
    (cascade ids ++ [Frame.crit (.deleteSandbox id)] ++ k).head?.any Frame.begins := by
  cases ids <;> rfl

/-- A step that changes nothing about the object leaves the task spent. -/
theorem Spent.resume (h : Spent ob t.frames) (hf : t.frames = f :: k) (hb : f.begins = false)
    (hex : exec self n o f w = some (w', out)) :
    Spent ob (t.resume k out).frames ∧ w'.cache.get ob = w.cache.get ob := by
  rw [hf] at h
  obtain ⟨hset, hk⟩ := h.resolve_left (by rw [hb]; simp)
  have hpushed : ∀ fs, out.pushed = fs → Spent ob (fs ++ k) →
      Spent ob (t.resume k out).frames := by
    rintro fs rfl hs
    rcases Task.frames_resume t k out with he | he <;> rw [he]
    · exact hs
    · exact True.intro
  cases f with
  | file g =>
    obtain ⟨rfl, rfl⟩ := exec_file_eq_some.mp hex
    refine ⟨?_, by rw [(FileOp.exec_cache_procs o w g).1]⟩
    have hall : ∀ fs : List Frame, (∀ x ∈ fs, ∃ f', x = .file f') → Spent ob (fs ++ k) := by
      intro fs
      induction fs with
      | nil => exact fun _ => hk
      | cons x fs ih =>
        intro hfs
        obtain ⟨f', rfl⟩ := hfs x List.mem_cons_self
        exact Or.inr ⟨rfl, ih fun y hy => hfs y (List.mem_cons_of_mem _ hy)⟩
    exact hpushed _ rfl (hall _ fun x hx => FileOp.pushed_file hx)
  | unlock =>
    obtain ⟨rfl, rfl⟩ := Prod.mk.inj (Option.some.inj (exec_unlock.symm.trans hex))
    exact ⟨hpushed [] rfl hk, rfl⟩
  | ret v =>
    obtain ⟨rfl, rfl⟩ := Prod.mk.inj (Option.some.inj ((exec_ret v).symm.trans hex))
    exact ⟨True.intro, rfl⟩
  | fail e =>
    obtain ⟨rfl, rfl⟩ := Prod.mk.inj (Option.some.inj ((exec_fail e).symm.trans hex))
    exact ⟨True.intro, rfl⟩
  | sys s =>
    cases s with
    | removeIo id =>
      obtain ⟨rfl, rfl⟩ := Prod.mk.inj (Option.some.inj hex)
      exact ⟨hpushed [] rfl hk, rfl⟩
    | spawnReaper id q =>
      obtain ⟨rfl, rfl⟩ := Prod.mk.inj (Option.some.inj hex)
      exact ⟨hk, rfl⟩
    | insertIo id io =>
      obtain ⟨rfl, rfl⟩ := Prod.mk.inj (Option.some.inj hex)
      exact ⟨hpushed [] rfl hk, rfl⟩
    | dupPipes =>
      simp only [exec_sys, Sys.exec] at hex
      split at hex <;> obtain ⟨rfl, rfl⟩ := Prod.mk.inj (Option.some.inj hex)
      · exact ⟨hpushed [] rfl hk, rfl⟩
      · exact ⟨True.intro, rfl⟩
    | _ => cases hset
  | crit c =>
    obtain ⟨-, hex⟩ := exec_crit_eq_some.mp hex
    cases c with
    | collectContainers id =>
      simp only [Crit.exec] at hex
      split at hex <;> obtain ⟨rfl, rfl⟩ := Prod.mk.inj hex
      · exact ⟨hpushed [] rfl hk, rfl⟩
      · exact ⟨hpushed _ rfl (.of_begins (cascade_begins _ id k)), rfl⟩
    | insertSandbox r | insertContainer r | insertImage r =>
      obtain ⟨rfl, rfl⟩ := Prod.mk.inj hex
      have hne := of_decide_eq_true hset
      refine ⟨hpushed [] rfl hk, ?_⟩
      first
        | exact (Cache.get_put w.cache (.sandbox r) ob).trans (if_neg fun h => hne h.symm)
        | exact (Cache.get_put w.cache (.container r) ob).trans (if_neg fun h => hne h.symm)
        | exact (Cache.get_put w.cache (.image r) ob).trans (if_neg fun h => hne h.symm)
    | _ => cases hset

end Spent

section Leaves

variable {s s' : State} {i : Nat} {t : Thread} {o : Oracle} {f : Frame} {k : List Frame}
  {out : Out} {ob : Obj} {x : Option DiskRecord}

/-- What the rest of the call makes of the record of the object: it is `x` already, or the next
action inserts it, or the call is a start of another container, or of one that is gone. -/
inductive Fate (ob : Obj) (x : Option DiskRecord) (c : Cache) (t : Thread) : Prop
  | spent (spent : Spent ob t.frames) (cached : c.get ob = x)
  | inserts (r : DiskRecord) (k : List Frame) (frames : t.frames = .crit r.insert :: k)
    (spent : Spent ob k) (obj : r.obj = ob) (record : x = some r)
  | starts (id : ContainerId) (ph : StartPhase) (start : StartTask id ph t.frames t.result)
    (other : ob ≠ .container id ∨ x = none) (cached : c.get ob = x)

/-- The invariant behind `Leaves`: the call `i` is the only one at work. -/
structure Ends (i : Nat) (ob : Obj) (x : Option DiskRecord) (s : State) : Prop where
  sound : Sound s
  reapers : Reapers s
  alone : ∀ j u, s.tasks[j]? = some u → u.tag.isCall → j ≠ i → u.frames = []
  fate : ∃ t, s.tasks[i]? = some t ∧ t.tag.isCall ∧ Fate ob x s.shared.cache t

/-- A start of another container leaves the record alone, and so does one of a container that is
gone. -/
theorem StartStep.get {id : ContainerId} {w w' : World} {ph ph' : StartPhase}
    (h : StartStep id o f w w' ph ph') (hob : ob ≠ .container id ∨ w.cache.get ob = none) :
    w'.cache.get ob = w.cache.get ob := by
  have hne : ∀ r, w.cache.containers[id]? = some r → ob ≠ .container id := by
    rintro r hr rfl
    rcases hob with hob | hob
    · exact hob rfl
    · rw [Cache.get_container_eq_some hr] at hob
      cases hob
  cases h with
  | intent r _ _ hr hc | spawnFailed r _ _ _ hr hc | persistPid _ _ r _ hr hc =>
    rw [hc, Cache.get_setContainer, if_neg (hne r hr)]
  | quiet _ hc | giveUp hc | spawn _ _ _ _ _ _ hc | lost _ _ _ hc => rw [hc]

theorem Fate.resume {self n : Nat} {w w' : World} (h : Fate ob x w.cache t) (hf : t.frames = f :: k)
    (hb : f.begins = false) (hex : exec self n o f w = some (w', out)) :
    Fate ob x w'.cache (t.resume k out) := by
  cases h with
  | spent hspent hc =>
    obtain ⟨hspent', hsame⟩ := hspent.resume hf hb hex
    exact .spent hspent' (hsame.trans hc)
  | inserts r k' hframes hspent hob hx =>
    obtain ⟨rfl, rfl⟩ := List.cons.inj (hf.symm.trans hframes)
    have hput : w'.cache = w.cache.put r ∧ out = .next [] := by
      obtain ⟨-, hex⟩ := exec_crit_eq_some.mp hex
      cases r <;> obtain ⟨rfl, rfl⟩ := Prod.mk.inj hex <;> exact ⟨rfl, rfl⟩
    refine .spent ?_ ?_
    · rw [hput.2]
      exact hspent
    · rw [hput.1, Cache.get_put, if_pos hob.symm, hx]
  | starts id ph hstart hob hc =>
    obtain ⟨ph', hstart', hstep⟩ := hstart.step hf hex
    exact .starts id ph' hstart' hob ((hstep.get (hob.imp_right fun hx => hc.trans hx)).trans hc)

/-- A step of a reaper changes the record of an object only to land it. -/
theorem ReaperTask.get {id : ContainerId} {q : Nat} {b : Bool} (h : ReaperTask id q b t.frames)
    (hadv : Pool.Advance exec s i o s' t f k out) (hs : Sound s) (hl : landing s' ob = false) :
    s'.shared.cache.get ob = s.shared.cache.get ob := by
  obtain ⟨d, hd⟩ := hs.duties t hadv.mem
  obtain ⟨d', hd', hch⟩ := hd.step hadv.frames hs.keyed hadv.exec
  obtain ⟨b', h', -⟩ := h.step hadv.frames hadv.exec
  have hduty := h.dutyOf
  rw [hd.dutyOf_eq] at hduty
  have hduty' := h'.dutyOf
  rw [hd'.dutyOf_eq] at hduty'
  cases hch with
  | quiet _ hc | write _ _ _ _ _ hc | abandon _ _ _ _ _ hc | rename _ _ _ _ _ _ hc
  | store _ _ _ _ _ hc | unlink _ _ hc | keep _ _ _ hc | release hc | issue _ _ hc => rw [hc]
  | update | drop => simp at hduty'
  | insert => simp at hduty
  | land r _ _ hc =>
    have hne : ob ≠ r.obj := by
      rintro rfl
      have : landing s' r.obj := by
        refine List.any_eq_true.mpr ⟨_, List.mem_of_getElem? hadv.getElem?_self, ?_⟩
        rw [hd'.dutyOf_eq]
        exact decide_eq_true rfl
      rw [hl] at this
      cases this
    rw [hc, Cache.get_put, if_neg hne]

theorem Ends.advance (h : Ends i ob x s) {j : Nat} (hadv : Pool.Advance exec s j o s' t f k out)
    (hw : within i s (.step j o)) (hreapers : Reapers s') (hl : landing s' ob = false) :
    Ends i ob x s' := by
  obtain ⟨t₀, ht₀, hcall, hfate⟩ := h.fate
  have halone : ∀ m u, s'.tasks[m]? = some u → u.tag.isCall → m ≠ i → u.frames = [] := by
    intro m u hu hucall hm
    rcases hadv.cases hu with ⟨rfl, rfl⟩ | ⟨-, hu⟩ | ⟨-, hu⟩
    · rw [Task.resume_tag] at hucall
      have hnil := h.alone m t hadv.task hucall hm
      rw [hadv.frames] at hnil
      cases hnil
    · exact h.alone m u hu hucall hm
    · obtain ⟨id, q, -, rfl⟩ := children_reaper hadv hu
      cases hucall
  refine ⟨h.sound.advance hadv, hreapers, halone, ?_⟩
  by_cases hj : j = i
  · subst hj
    obtain rfl := Option.some.inj (ht₀.symm.trans hadv.task)
    have hb : f.begins = false := by simpa [within, begins_step hadv] using hw
    exact ⟨_, hadv.getElem?_self, by rwa [Task.resume_tag], hfate.resume hadv.frames hb hadv.exec⟩
  · refine ⟨t₀, hadv.getElem?_of_some (Ne.symm hj) ht₀, hcall, ?_⟩
    -- the task at work is a reaper
    cases htag : t.tag with
    | call c =>
      have hnil := h.alone j t hadv.task (by rw [htag]; rfl) hj
      rw [hadv.frames] at hnil
      cases hnil
    | reaper id q =>
      obtain ⟨b, hb⟩ := h.reapers t hadv.mem id q htag
      have hsame := hb.get hadv h.sound hl
      cases hfate with
      | spent hspent hc => exact .spent hspent (hsame.trans hc)
      | inserts r k hf hspent hob hx => exact .inserts r k hf hspent hob hx
      | starts id ph hstart hob hc => exact .starts id ph hstart hob (hsame.trans hc)

theorem Ends.step {l : Label} (h : Ends i ob x s) (hw : within i s l)
    (hstep : step s l = some s') (hl : landing s' ob = false) : Ends i ob x s' := by
  have hreapers := h.reapers.step hstep
  cases l with
  | invoke | restart => cases hw
  | step j o =>
    obtain ⟨t, f, k, out, hadv⟩ := Pool.advance_eq_some hstep
    exact h.advance hadv hw hreapers hl
  | exit q st =>
    have hsound := h.sound.step rfl hstep
    obtain ⟨p, -, rfl⟩ := step_exit hstep
    exact ⟨hsound, hreapers, h.alone, h.fate⟩
  | foreign pid =>
    have hsound := h.sound.step rfl hstep
    obtain ⟨-, -, rfl⟩ := step_foreign hstep
    exact ⟨hsound, hreapers, h.alone, h.fate⟩

/-- **The record that the rest of the call leaves.** -/
theorem Ends.leaves (h : Ends i ob x s) : Leaves s i ob x := by
  intro ls s' hrun hls hl hend
  have hinv : landing s' ob = false → Ends i ob x s' := by
    refine invariant_run (I := fun s => landing s ob = false → Ends i ob x s) ?_ (fun _ => h) hls
      hrun
    intro s l s' hs hP hstep hl'
    exact (hs hP.2).step hP.1 hstep hl'
  obtain ⟨t, ht, -, hfate⟩ := (hinv hl).fate
  have htop : s'.top i = t.frames.head? := by rw [Pool.top, Pool.stack, ht, Option.elim_some]
  cases hfate with
  | spent _ hc | starts _ _ _ _ hc => exact hc
  | inserts r k hf =>
    rw [htop, hf] at hend
    cases r <;> cases hend

end Leaves

/-! ## The files at a kill -/

section Kill

variable {h : Marks} {s : State} {i : Nat} {t : Thread} {ob : Obj} {d : Duty}

/-- A frame that inserts a record is on the stack of a task that issues it. -/
theorem Stack.issues_of_inserts {fs : List Frame} {g : Frame} {r : DiskRecord} (hst : Stack d fs)
    (hg : g ∈ fs) (hr : g.inserts = some r) : d.obj = some r.obj := by
  have hplain : ∀ k : List Frame, (∀ f ∈ k, f.plain) → g ∉ k := by
    intro k hk hg
    rw [inserts_of_plain (hk g hg)] at hr
    cases hr
  cases hst with
  | plain k hk => exact absurd hg (hplain _ hk)
  | write _ _ k hk | rename _ _ _ _ k hk | unlock k hk | unlink _ k hk =>
    rcases List.mem_cons.mp hg with rfl | hg
    · cases hr
    · exact absurd hg (hplain _ hk)
  | landWrite _ k hk | landRename _ _ _ k hk | removeIo _ _ k hk =>
    simp only [List.mem_cons] at hg
    rcases hg with rfl | rfl | hg
    · cases hr
    · cases hr
    · exact absurd hg (hplain _ hk)
  | issueWrite r' k hk | issueRename _ _ r' k hk =>
    simp only [List.mem_cons] at hg
    rcases hg with rfl | rfl | hg
    · cases hr
    · rw [inserts_insert] at hr
      exact congrArg (fun r => some r.obj) (Option.some.inj hr)
    · exact absurd hg (hplain _ hk)
  | insert r' k hk =>
    rcases List.mem_cons.mp hg with rfl | hg
    · rw [inserts_insert] at hr
      exact congrArg (fun r => some r.obj) (Option.some.inj hr)
    · exact absurd hg (hplain _ hk)

theorem Frame.pristine_of_isKill {f : Frame} (h : f.isKill) : f.pristine := by
  cases f with
  | sys s => cases s <;> first | rfl | cases h
  | _ => cases h

theorem Frame.pristine_of_stops {f : Frame} (h : f.stops) : f.pristine ∨ f.begins := by
  cases f with
  | crit c => cases c <;> first | exact Or.inl rfl | exact Or.inr rfl | cases h
  | _ => cases h

/-- After a change, only the insertion of a new record and the frames of a start change another
record. -/
theorem Frame.settles_of_not_pristine {f : Frame} (hp : f.pristine = false)
    (hb : f.begins = false) (hstart : ∀ id, f.starts id = false)
    (hins : ∀ r, f.inserts = some r → r.obj ≠ ob) : f.settles ob := by
  cases f with
  | crit c =>
    cases c with
    | insertSandbox r => exact decide_eq_true (hins (.sandbox r) rfl)
    | insertContainer r => exact decide_eq_true (hins (.container r) rfl)
    | insertImage r => exact decide_eq_true (hins (.image r) rfl)
    | spawnFailed id | persistPid id | reap id =>
      have := hstart id
      simp [Frame.starts] at this
    | collectContainers => rfl
    | _ => first | (cases hp; done) | cases hb
  | sys s =>
    cases s with
    | spawn id | wait id =>
      have := hstart id
      simp [Frame.starts] at this
    | dupPipes | insertIo | spawnReaper | removeIo => rfl
    | _ => cases hp
  | _ => rfl

/-- After its intent, a start that is not between the intent and its process changes nothing
more. -/
theorem StartTask.spent {id : ContainerId} {ph : StartPhase} {fs : List Frame}
    {res : Option Result} (h : StartTask id ph fs res) (hp : fs.head?.any Frame.pristine = false)
    (hl : Launching id fs = false) : Spent ob fs := by
  cases h <;> first
    | (simp [Spent, Frame.settles, Frame.begins]; done)
    | (cases hp; done)
    | simp [Launching, Frame.pending, Frame.isIntent] at hl

/-- What is below a frame that changes nothing more, or has just changed something, is spent. -/
theorem spent_of_chain {f : Frame} {k : List Frame} (hchain : (f :: k).IsChain Above)
    (hapart : ∀ g ∈ k, ∀ id, g.starts id = false)
    (hins : ∀ g ∈ k, ∀ r, g.inserts = some r → r.obj ≠ ob) (hf : f.pristine = false)
    (hb : f.begins = false) : Spent ob k := by
  induction k generalizing f with
  | nil => exact True.intro
  | cons g k ih =>
    have hg : g.pristine = false := by
      rw [← Bool.not_eq_true]
      intro hp
      rcases hchain.rel hp with hkill | ⟨hstops, -⟩
      · rw [Frame.pristine_of_isKill hkill] at hf
        cases hf
      · rcases Frame.pristine_of_stops hstops with hp | hp
        · rw [hp] at hf
          cases hf
        · rw [hp] at hb
          cases hb
    by_cases hgb : g.begins
    · exact Or.inl hgb
    · have hrest := ih hchain.tail (fun g hg => hapart g (List.mem_cons_of_mem _ hg))
        (fun g hg => hins g (List.mem_cons_of_mem _ hg)) hg (Bool.eq_false_iff.mpr hgb)
      exact Or.inr ⟨Frame.settles_of_not_pristine hg (Bool.eq_false_iff.mpr hgb)
        (hapart g List.mem_cons_self) (hins g List.mem_cons_self), hrest⟩

/-- The record that an object comes back with when the call `i` is interrupted: the one it had
before, or the one that the call leaves, or that of an intent to start it. -/
theorem Durable.interrupted (H : Durable h s) (ht : s.tasks[i]? = some t) (hcall : t.tag.isCall)
    (hne : t.frames ≠ []) (ob : Obj) :
    s.shared.disk.load ob = h ob ∨ Leaves s i ob (s.shared.disk.load ob) ∨ Intended s t ob := by
  have hmem := List.mem_of_getElem? ht
  have halone : ∀ (j : Nat) (u : Thread), s.tasks[j]? = some u → u.tag.isCall → j ≠ i →
      u.frames = [] := by
    intro j u hu hucall hj
    by_contra hnu
    exact hj (H.serial.one j i u t hu ht hucall hcall hnu hne)
  have hapart : (∀ id, t.tag ≠ .call (.startContainer id)) → ∀ g ∈ t.frames, ∀ id,
      g.starts id = false := fun hno g hg id => H.serial.apart t hmem hcall id (hno id) g hg
  have hends : ∀ {x}, Fate ob x s.shared.cache t → Leaves s i ob x := fun hfate =>
    Ends.leaves ⟨H.serial.sound, H.serial.reapers, halone, t, ht, hcall, hfate⟩
  by_cases howed : ∃ (j : Nat) (u : Thread) (d : Duty), s.tasks[j]? = some u ∧
      Stack d u.frames ∧ d.obj = some ob
  · obtain ⟨j, u, d, hu, hd, hob⟩ := howed
    have hsame : u.tag.isCall → u.frames ≠ [] → u = t := by
      intro hucall hnu
      obtain rfl := H.serial.one j i u t hu ht hucall hcall hnu hne
      exact Option.some.inj (hu.symm.trans ht)
    have hnu : u.frames ≠ [] := by
      intro hnil
      rw [hnil] at hd
      rw [hd.unique (.plain [] (by simp))] at hob
      cases hob
    cases H.owed u (List.mem_of_getElem? hu) d ob hd hob with
    | persists r l _ before =>
      rcases before with before | ⟨-, hi⟩
      · exact Or.inl before
      · obtain ⟨id, -, htag, -⟩ := id hi
        obtain rfl := hsame (by rw [htag]; rfl) hnu
        exact Or.inr (Or.inr hi)
    | removes _ before | issues _ _ before => exact Or.inl before
    | stored r stored =>
      have hucall : u.tag.isCall := by
        by_contra hno
        have hlands := (H.reaper_duty hu (Bool.eq_false_iff.mpr hno) hd hob).2.1
        cases hlands
      obtain rfl := hsame hucall hnu
      have hchain := H.chained u hmem hcall
      generalize hfs : u.frames = fs at hd hchain
      cases hd with
      | insert _ k hk =>
        have hno : ∀ id, u.tag ≠ .call (.startContainer id) := by
          intro id htag
          obtain ⟨ph, hst⟩ := H.serial.starts u hmem id htag
          rw [hfs] at hst
          generalize u.result = res at hst
          cases r <;> cases hst
        have hspent : Spent ob k := by
          refine spent_of_chain hchain (fun g hg => hapart hno g ?_) (fun g hg r' hr' => ?_) ?_ ?_
          · rw [hfs]
            exact List.mem_cons_of_mem _ hg
          · rw [inserts_of_plain (hk g hg)] at hr'
            cases hr'
          · cases r <;> rfl
          · cases r <;> rfl
        rw [stored]
        exact Or.inr (Or.inl (hends (.inserts r k hfs hspent (Option.some.inj hob) rfl)))
  · have hload := H.settled ob fun u hu d hd hob => by
      obtain ⟨j, hj⟩ := List.getElem?_of_mem hu
      exact howed ⟨j, u, d, hj, hd, hob⟩
    have hland : landing s ob = false := by
      rw [← Bool.not_eq_true, landing_eq_true H.serial.sound]
      rintro ⟨u, hu, r, hst, hr⟩
      obtain ⟨j, hj⟩ := List.getElem?_of_mem hu
      exact howed ⟨j, u, _, hj, hst, congrArg some hr⟩
    have hpristine : t.frames.head?.any Frame.pristine → s.shared.disk.load ob = h ob := by
      intro hp
      obtain ⟨g, hg, hgp⟩ := (Option.any_eq_true _ _).mp hp
      rw [hload]
      exact H.untouched t hmem hcall g hg hgp ob hland
    by_cases hp : t.frames.head?.any Frame.pristine
    · exact Or.inl (hpristine hp)
    · have hp' := Bool.eq_false_iff.mpr hp
      right
      by_cases hstart : ∃ id, t.tag = .call (.startContainer id)
      · obtain ⟨id, htag⟩ := hstart
        obtain ⟨ph, hst⟩ := H.serial.starts t hmem id htag
        by_cases hob : ob ≠ .container id ∨ s.shared.cache.get ob = none
        · rw [hload]
          exact Or.inl (hends (.starts id ph hst hob rfl))
        · obtain ⟨hob, hsome⟩ := not_or.mp hob
          rw [not_not] at hob
          cases hl : Launching id t.frames with
          | false =>
            rw [hload]
            exact Or.inl (hends (.spent (hst.spent hp' hl) rfl))
          | true =>
            right
            rw [hob] at hsome hload
            cases hr : s.shared.cache.containers[id]? with
            | none =>
              rw [Cache.get, hr] at hsome
              exact absurd rfl hsome
            | some r =>
              obtain ⟨hrun, hpid⟩ := H.serial.launching t hmem hcall id hl r hr
              refine ⟨id, r, htag, hob, ?_, hrun, hpid⟩
              rw [hob, hload, Cache.get_container_eq_some hr]
      · have hno : ∀ id, t.tag ≠ .call (.startContainer id) := fun id htag => hstart ⟨id, htag⟩
        rw [hload]
        refine Or.inl (hends (.spent ?_ rfl))
        have hchain := H.chained t hmem hcall
        have hins : ∀ g ∈ t.frames, ∀ r, g.inserts = some r → r.obj ≠ ob := by
          intro g hg r hr hrob
          obtain ⟨d, hd⟩ := H.serial.sound.duties t hmem
          refine howed ⟨i, t, d, ht, hd, ?_⟩
          rw [hd.issues_of_inserts hg hr, hrob]
        have hstarts := hapart hno
        generalize t.frames = fs at hne hp' hchain hins hstarts
        cases fs with
        | nil => exact absurd rfl hne
        | cons f k =>
          by_cases hb : f.begins
          · exact Or.inl hb
          · have hb' := Bool.eq_false_iff.mpr hb
            have hf : f.pristine = false := hp'
            refine Or.inr ⟨Frame.settles_of_not_pristine hf hb' (hstarts f List.mem_cons_self)
              (hins f List.mem_cons_self), ?_⟩
            exact spent_of_chain hchain (fun g hg => hstarts g (List.mem_cons_of_mem _ hg))
              (fun g hg => hins g (List.mem_cons_of_mem _ hg)) hf hb'

end Kill

/-! ## Recovery -/

/-- What `open` makes of the state root of a listener that is killed in `s`, with the records `h`
remembered. -/
structure Recovered (h : Marks) (s : State) (rs : Restart) : Prop where
  /-- Of what a call at work is about, an object comes back as it was before, or as the call leaves
  it; the container of a start may also come back Exited. -/
  interrupted : ∀ (i : Nat) (t : Thread), s.tasks[i]? = some t → t.tag.isCall → t.frames ≠ [] →
    ∀ ob, (s.shared.restart rs).cache.get ob = (h ob).map (.reopen s.shared.procsAlive rs.clock) ∨
      (∃ x, Leaves s i ob x ∧
        (s.shared.restart rs).cache.get ob = x.map (.reopen s.shared.procsAlive rs.clock)) ∨
      ∃ id r, t.tag = .call (.startContainer id) ∧ ob = .container id ∧
        (s.shared.restart rs).cache.get ob = some (.container r) ∧ r.state = .exited ∧
        r.exitCode = -1
  /-- What calls that have returned have done is there, and what they removed is not. -/
  returned : NoCall s → ∀ ob, landing s ob = false → (s.shared.restart rs).cache.get ob =
    (s.shared.cache.get ob).map (.reopen s.shared.procsAlive rs.clock)
  /-- A reaper that is interrupted leaves the record before the exit. -/
  landing : ∀ ob, landing s ob → (s.shared.restart rs).cache.get ob =
    (h ob).map (.reopen s.shared.procsAlive rs.clock)
  /-- An object comes back from its own file alone. -/
  stored : ∀ ob, (s.shared.restart rs).cache.get ob =
    (s.shared.disk.load ob).map (.reopen s.shared.procsAlive rs.clock)
  /-- The records changed are Running containers without a live process. -/
  changed : ∀ ob r, s.shared.disk.load ob = some r → (s.shared.restart rs).cache.get ob = some r ∨
    ∃ c c' : ContainerRecord, r = .container c ∧ c.state = .running ∧
      (c.pid = 0 ∨ s.shared.procsAlive c.pid = false) ∧
      (s.shared.restart rs).cache.get ob = some (.container c') ∧ c'.state = .exited ∧
      c'.exitCode = -1
  /-- A second open changes nothing. -/
  again : ∀ rs' : Restart, rs'.Lists (s.shared.restart rs).disk → ∀ ob,
    ((s.shared.restart rs).restart rs').cache.get ob = (s.shared.restart rs).cache.get ob ∧
      ((s.shared.restart rs).restart rs').disk.load ob = (s.shared.restart rs).disk.load ob

theorem durable_run {listener : Nat} {blake3 : String → String} {ls : List Label} {h : Marks}
    {s : State} (hls : ∀ l ∈ ls, noRestart l)
    (hserial : Along step (fun s l => serialized s l) (init listener blake3) ls)
    (hfiles : Along step (fun s l => filesSucceed s l) (init listener blake3) ls)
    (hown : Along step (fun s l => ownsTemp (fun _ => true) s l) (init listener blake3) ls)
    (hstop : Along step (fun s l => removesStopped s l) (init listener blake3) ls)
    (hrun : run (withHistory step remember) (fun _ => none, init listener blake3) ls =
      some (h, s)) : Durable h s := by
  have hall := ((hserial.and hfiles).and (hown.and hstop)).and_labels hls
  refine invariant_run (I := fun p : Marks × State => Durable p.1 p.2) ?_
    (Durable.init listener blake3) (hall.withHistory _) hrun
  rintro p l p' H ⟨hl, ⟨hser, hfile⟩, ho, hst⟩ hstep
  obtain ⟨hstep, hmarks⟩ := withHistory_eq_some.mp hstep
  show Durable p'.1 p'.2
  rw [hmarks]
  exact H.step hl hser hfile ho hst hstep

/-- **Crash recovery.** Take any serialized calls from an empty state root, with reapers and exits
anywhere, and kill the listener at any point. No operation on the files fails, no two writes in
flight share a temporary file, and no removal has to stop a container without a process. -/
theorem crash_recovery {listener : Nat} {blake3 : String → String} {ls : List Label} {h : Marks}
    {s : State} {rs : Restart} (hls : ∀ l ∈ ls, noRestart l)
    (hserial : Along step (fun s l => serialized s l) (init listener blake3) ls)
    (hfiles : Along step (fun s l => filesSucceed s l) (init listener blake3) ls)
    (hown : Along step (fun s l => ownsTemp (fun _ => true) s l) (init listener blake3) ls)
    (hstop : Along step (fun s l => removesStopped s l) (init listener blake3) ls)
    (hrun : run (withHistory step remember) (fun _ => none, init listener blake3) ls =
      some (h, s)) (hlist : rs.Lists s.shared.disk) : Recovered h s rs := by
  have H := durable_run hls hserial hfiles hown hstop hrun
  have hget := cache_restart (w := s.shared) H.tidy hlist
  have hfree : ∀ ob, landing s ob = false → ∀ t ∈ s.tasks, t.tag.isCall = false → ∀ d,
      Stack d t.frames → d.obj ≠ some ob := by
    intro ob hl t ht hcall d hd hob
    obtain ⟨j, hj⟩ := List.getElem?_of_mem ht
    obtain ⟨-, hlands, -⟩ := H.reaper_duty hj hcall hd hob
    have : landing s ob := by
      refine List.any_eq_true.mpr ⟨t, ht, ?_⟩
      rw [hd.dutyOf_eq]
      exact hlands
    rw [hl] at this
    cases this
  constructor
  case stored => exact hget
  case again => exact fun rs' hl' => restart_again H.tidy hlist hl'
  case interrupted =>
    intro i t ht hcall hne ob
    rw [hget]
    rcases H.interrupted ht hcall hne ob with hl | hl | ⟨id, r, htag, hob, hr, hrun', hpid⟩
    · exact Or.inl (by rw [hl])
    · exact Or.inr (Or.inl ⟨_, hl, rfl⟩)
    · refine Or.inr (Or.inr ⟨id, recover s.shared.procsAlive rs.clock r, htag, hob, ?_, ?_⟩)
      · rw [hr]
        rfl
      · unfold recover
        simp [hrun', hpid, ContainerRecord.toExited]
  case returned =>
    intro hno ob hl
    rw [hget, H.settled ob]
    intro t ht d hd hob
    cases hcall : t.tag.isCall with
    | false => exact hfree ob hl t ht hcall d hd hob
    | true =>
      have hnil := hno t ht hcall
      rw [hnil] at hd
      rw [hd.unique (.plain [] (by simp))] at hob
      cases hob
  case landing =>
    intro ob hl
    obtain ⟨t, ht, r, hst, hr⟩ := (landing_eq_true H.serial.sound).mp hl
    rw [hget]
    cases H.owed t ht _ ob hst (congrArg some hr) with
    | persists _ _ _ before =>
      rcases before with hb | ⟨hfalse, -⟩
      · rw [hb]
      · cases hfalse
  case changed =>
    intro ob r hr
    rw [hget, hr]
    cases r with
    | container c =>
      rcases recover_cases s.shared.procsAlive rs.clock c with hsame | ⟨hrun', hdead, hexit, hcode⟩
      · exact Or.inl (congrArg (fun c => some (DiskRecord.container c)) hsame)
      · exact Or.inr ⟨c, _, rfl, hrun', hdead, rfl, hexit, hcode⟩
    | _ => exact Or.inl rfl

/-! ## Two kills -/

/-- The state root is opened by another listener. -/
def State.reopening (s : State) : Restart where
  pid := 2
  listing sub := (s.shared.disk sub).toList

theorem lists_reopening (s : State) : s.reopening.Lists s.shared.disk := fun _ => .refl _

def sideContainer : ContainerId := ⟨"ct-0-2"⟩

/-- A second container is created, the first one is started and its process exits. -/
def exitedRun : List Label :=
  podRun ++ Label.invoke (.createContainer podSandbox { name := "side", imageRef := "img" }) ::
    steps 2 6 ++ Label.invoke (.startContainer podContainer) :: steps 3 14 ++
    [Label.exit 0 (.exited 0)]

/-- The start of the second container is interrupted when its intent is on disk. -/
def interruptedRun : List Label :=
  exitedRun ++ Label.invoke (.startContainer sideContainer) :: steps 5 6

theorem crash_recovery_interruptedRun : ∃ h s,
    run (withHistory step remember) (fun _ => none, init 1 id) interruptedRun = some (h, s) ∧
      Recovered h s s.reopening := by
  have hrun : (run (withHistory step remember) (fun _ => none, init 1 id)
      interruptedRun).isSome := by decide
  obtain ⟨⟨h, s⟩, hs⟩ := Option.isSome_iff_exists.mp hrun
  exact ⟨h, s, hs, crash_recovery (by decide) (by decide) (by decide) (by decide) (by decide) hs
    (lists_reopening s)⟩

/-- The start of the second container has written its intent to the temporary file when the reaper
of the first writes the exit to a file of the same name, which the start then renames. -/
def sharedTemp : List Label :=
  exitedRun ++ Label.invoke (.startContainer sideContainer) :: steps 5 5 ++ steps 4 4 ++ steps 5 1

/-- The rest of the reaper and of the start. -/
def sharedTempRest : List Label := steps 4 2 ++ steps 5 8

/-- **A container lost.** The container whose start is interrupted is gone after the open, with no
failed operation. -/
theorem crash_loses_container :
    ¬ ∀ (listener : Nat) (blake3 : String → String) (ls : List Label) (h : Marks) (s : State)
      (rs : Restart), (∀ l ∈ ls, noRestart l) →
      Along step (fun s l => serialized s l) (init listener blake3) ls →
      Along step (fun s l => filesSucceed s l) (init listener blake3) ls →
      run (withHistory step remember) (fun _ => none, init listener blake3) ls = some (h, s) →
      rs.Lists s.shared.disk → Recovered h s rs := by
  intro hall
  have hrun : (run (withHistory step remember) (fun _ => none, init 1 id) sharedTemp).any
      fun p : Marks × State => (p.1 (.container sideContainer)).isSome ∧
        (p.2.shared.restart p.2.reopening).cache.get (.container sideContainer) = none ∧
        (p.2.tasks[5]?.any fun t : Thread => t.tag.isCall ∧ t.frames ≠ []) ∧
        Along step (fun s l => within 5 s l ∧ landing s (.container sideContainer) = false) p.2
          sharedTempRest ∧
        (run step p.2 sharedTempRest).any fun s => landing s (.container sideContainer) = false ∧
          (s.top 5).all Frame.begins ∧
          (s.shared.cache.get (.container sideContainer)).isSome := by decide
  obtain ⟨⟨h, s⟩, hs, hend⟩ := (Option.any_eq_true _ _).mp hrun
  obtain ⟨hbefore, hlost, htask, hwithin, hrest⟩ := of_decide_eq_true hend
  obtain ⟨t, ht, htcall⟩ := (Option.any_eq_true _ _).mp htask
  obtain ⟨hcall, hne⟩ := of_decide_eq_true htcall
  obtain ⟨s', hs', hend⟩ := (Option.any_eq_true _ _).mp hrest
  obtain ⟨hl, htop, hthere⟩ := of_decide_eq_true hend
  have hrec := hall 1 id sharedTemp h s s.reopening (by decide) (by decide) (by decide) hs
    (lists_reopening s)
  rcases hrec.interrupted 5 t ht hcall hne (.container sideContainer) with
    hb | ⟨x, hleaves, hx⟩ | ⟨_, r, -, -, hr, -⟩
  · -- the record from before the start
    have hnone : h (.container sideContainer) = none :=
      Option.map_eq_none_iff.mp (hb.symm.trans hlost)
    have hsome : (h (.container sideContainer)).isSome := hbefore
    rw [hnone] at hsome
    cases hsome
  · -- the record that the start leaves
    rw [hleaves sharedTempRest s' hs' hwithin hl htop,
      Option.map_eq_none_iff.mp (hx.symm.trans hlost)] at hthere
    cases hthere
  · cases hlost.symm.trans hr

end LightrCri.Fake

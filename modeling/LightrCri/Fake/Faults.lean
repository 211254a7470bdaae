import LightrCri.Fake.Alone
import LightrCri.Fake.Images
import LightrCri.Fake.Reopen

/-!
# Failing file operations

Each call of the backend, executed alone in any state of any run, with any of its file operations
failing. `Clean` is what it is to leave behind: after an error the records and files are as before,
and after Ok the files of the objects it reports on hold the cached records.

The calls that create an object write before they insert, and are clean whatever fails. The others
change the cache first and do not take it back, and ignore what `remove_file` returns: a call is
clean exactly if no write of its fails, the files it removes go or were not there, and what it finds
settled is settled on disk too (`call_clean_iff`).

The calls that stop and remove are followed frame by frame: `Passes` says that the frames on top of
a stack come to their end, and how, or that the call is spoilt in them.
-/

namespace LightrCri.Fake

open Backend Foundations

/-! ## Which operations fail -/

/-- A step in the writing of a record file, or the duplication of descriptors. -/
def Frame.writes : Frame → Bool
  | .file (.write _ _) => true
  | .file (.rename _ _ _ _) => true
  | .sys .dupPipes => true
  | _ => false

/-- The removal of the file of the object. -/
def Frame.unlinks (ob : Obj) : Frame → Bool
  | .file (.unlink ob') => ob' = ob
  | _ => false

/-- No operation that `p` selects fails. -/
def Sure (p : Frame → Bool) (tr : List (Frame × Oracle)) : Prop :=
  ∀ e ∈ tr, p e.1 → e.2.fault = none

section

variable {p : Frame → Bool} {tr tr' : List (Frame × Oracle)} {f : Frame} {o : Oracle}

@[simp] theorem sure_nil : Sure p [] := fun _ h => absurd h List.not_mem_nil

@[simp] theorem sure_cons : Sure p ((f, o) :: tr) ↔ (p f → o.fault = none) ∧ Sure p tr := by
  simp [Sure]

@[simp] theorem sure_append : Sure p (tr ++ tr') ↔ Sure p tr ∧ Sure p tr' := by
  simp [Sure, or_imp, forall_and]

end

/-! ## What a call is to leave behind -/

/-- The file of the object holds its cached record. -/
def Agrees (w : World) (ob : Obj) : Prop := w.disk.load ob = w.cache.get ob

/-- The object belongs to the sandbox, or the image to the reference, by its cached or its stored
record. -/
def World.records (w : World) (p : DiskRecord → Prop) (ob : Obj) : Prop :=
  ∃ r, p r ∧ (w.cache.get ob = some r ∨ w.disk.load ob = some r)

def DiskRecord.refName? : DiskRecord → Option String
  | .image r => some r.refName
  | _ => none

/-- The objects that a call of the state names. -/
def Call.names (w : World) : Call → Obj → Prop
  | .stopSandbox id, ob => ob = .sandbox id
  | .removeSandbox id, ob => ob = .sandbox id ∨ w.records (fun r => r.parent = some id) ob
  | .startContainer id, ob => ob = .container id
  | .stopContainer id _, ob => ob = .container id
  | .removeContainer id, ob => ob = .container id
  | .removeImage ref, ob => w.records (fun r => r.refName? = some ref) ob
  | _, _ => False

/-- The objects whose state a call reports that was made in `w` and returned `v`. -/
def Call.reports (w : World) (c : Call) : Value → Obj → Prop
  | .sandbox id, ob => ob = .sandbox id
  | .container id, ob => ob = .container id
  | .image img, ob => ob = .image (imageRecord w.blake3 img.refName).id
  | .unit, ob => c.names w ob

/-- The container of a start whose process could not be spawned: it is Exited, in the cache and on
disk. -/
def SpawnFailed (c : Call) (tr : List (Frame × Oracle)) (w' : World) (ob : Obj) : Prop :=
  ∃ id io o e r, c = .startContainer id ∧ ob = .container id ∧ (.sys (.spawn id io), o) ∈ tr ∧
    o.spawn = .error e ∧ r.state = .exited ∧ w'.cache.get ob = some (.container r) ∧
    w'.disk.load ob = some (.container r)

/-- A cached record names the process, and a reaper waits for it. -/
def Watched (s : State) (q : Nat) (p : Proc) : Prop :=
  ∃ id r, s.shared.cache.containers[id]? = some r ∧ r.pid = p.pid ∧
    ∃ t ∈ s.tasks, t.tag = .reaper id q ∧ t.frames = [.sys (.wait id q)]

/-- **No trace of a failure.** After an error the records in the cache and on disk are as before, up
to the container of a failed spawn, and the processes that were spawned are watched; after Ok what
is reported is on disk. -/
def Clean (s s' : State) (c : Call) (tr : List (Frame × Oracle)) : Result → Prop
  | .error _ =>
    (∀ ob, s'.shared.cache.get ob = s.shared.cache.get ob ∧
        s'.shared.disk.load ob = s.shared.disk.load ob ∨ SpawnFailed c tr s'.shared ob) ∧
      ∀ (q : Nat) (p : Proc), s.shared.procs.length ≤ q → s'.shared.procs[q]? = some p →
        Watched s' q p
  | .ok v => ∀ ob, c.reports s.shared v ob → Agrees s'.shared ob

/-! ## The condition -/

/-- A stop of the object has its record written: the sandbox is Ready, or the container is Running
without a process. -/
def DiskRecord.stopWrites : DiskRecord → Bool
  | .sandbox r => r.state = .ready
  | .container r => r.state = .running ∧ r.pid = 0
  | .image _ => false

def World.stopWrites (w : World) (ob : Obj) : Bool := (w.cache.get ob).any DiskRecord.stopWrites

/-- The objects that a call takes out of the cache. -/
def Call.takes (w : World) : Call → Obj → Prop
  | .removeSandbox id, ob =>
    (w.cache.get (.sandbox id)).isSome ∧
      (ob = .sandbox id ∨ ∃ r, w.cache.get ob = some r ∧ r.parent = some id)
  | .removeContainer id, ob => ob = .container id ∧ (w.cache.get ob).isSome
  | .removeImage ref, ob => ∃ r, w.cache.imageNamed ref = some r ∧ ob = .image r.id
  | _, _ => False

/-- `remove_image` refuses. -/
def Call.refused (w : World) : Call → Prop
  | .removeImage ref => (w.cache.imageNamed ref).isSome ∧ (w.cache.userOf ref).isSome
  | _ => False

/-- The condition on the state before a call and on which of its file operations fail. -/
def FaultsHarmless (w : World) (tr : List (Frame × Oracle)) (c : Call) : Prop :=
  match c with
  | .runSandbox _ | .createContainer _ _ | .pullImage _ => True
  | .startContainer _ => Sure Frame.writes tr
  | .stopSandbox _ | .stopContainer _ _ =>
    Sure Frame.writes tr ∧ ∀ ob, c.names w ob → w.stopWrites ob ∨ Agrees w ob
  | .removeSandbox _ | .removeContainer _ | .removeImage _ =>
    Sure Frame.writes tr ∧ (c.refused w ∨ ∀ ob, c.names w ob →
      (c.takes w ob → Sure (Frame.unlinks ob) tr ∨
        w.disk.load ob = none ∧ w.stopWrites ob = false) ∧
      (¬ c.takes w ob → Agrees w ob))

/-! ## Executions -/

variable {i n : Nat} {w w' : World} {k : List Frame} {tr : List (Frame × Oracle)}
  {cs : List Thread} {res : Result}

/-- A write that is given up: it ends the call, or its error is ignored. -/
theorem performs_ioError {strict : Bool} {g : FileOp} {o : Oracle}
    (hout : ∃ e, (g.exec o w).2 = ioError strict e)
    (h : (∃ fs, (g.exec o w).2 = .next fs ∧
        Performs exec i n (g.exec o w).1 (fs ++ k) tr w' cs res) ∨
      (g.exec o w).2 = .halt res ∧ w' = (g.exec o w).1 ∧ tr = [] ∧ cs = []) :
    (strict = true ∧ (∃ e, res = .error e) ∧ w' = (g.exec o w).1 ∧ tr = [] ∧ cs = []) ∨
      strict = false ∧ Performs exec i n (g.exec o w).1 k tr w' cs res := by
  obtain ⟨e, he⟩ := hout
  rw [he] at h
  cases strict with
  | true =>
    obtain ⟨fs, hfs, -⟩ | ⟨hr, hrest⟩ := h
    · cases hfs
    · exact .inl ⟨rfl, ⟨_, (Outcome.halt.inj hr).symm⟩, hrest⟩
  | false =>
    obtain ⟨fs, hfs, hperf⟩ | ⟨hr, -⟩ := h
    · cases hfs
      exact .inr ⟨rfl, hperf⟩
    · cases hr

theorem exec_rename_fault {p m : Nat} {x : DiskRecord} {strict : Bool} {o : Oracle} {e : String}
    (h : o.fault = some e) :
    ∃ e, ((FileOp.rename p m x strict).exec o w).2 = ioError strict e :=
  ⟨e, by simp only [FileOp.exec, h]⟩

/-- The frames are steps in the writing of record files. -/
def Writing (tr : List (Frame × Oracle)) : Prop :=
  ∀ e ∈ tr, e.1.writes ∧ ∀ ob, e.1.unlinks ob = false

theorem Writing.sure_unlinks (h : Writing tr) (ob : Obj) : Sure (Frame.unlinks ob) tr := by
  intro e he hob
  rw [(h e he).2 ob] at hob
  cases hob

/-- **A record file that is written**: the temporary file is created, written and renamed, or the
write is given up. -/
theorem performs_write {x : DiskRecord} {strict : Bool}
    (h : Performs exec i n w (.file (.write x strict) :: k) tr w' cs res) :
    ∃ d tr₁ tr₂, tr = tr₁ ++ tr₂ ∧ Writing tr₁ ∧
      (Sure Frame.writes tr₁ ∧ (∀ ob, d.load ob = if ob = x.obj then some x else w.disk.load ob) ∧
          Performs exec i n { w with disk := d } k tr₂ w' cs res ∨
        ¬ Sure Frame.writes tr₁ ∧ d.load = w.disk.load ∧
          (strict = true ∧ (∃ e, res = .error e) ∧ w' = { w with disk := d } ∧ tr₂ = [] ∧ cs = [] ∨
            strict = false ∧ Performs exec i n { w with disk := d } k tr₂ w' cs res)) := by
  obtain ⟨o, tr₁, rfl, hwrite⟩ := performs_file h
  cases hfault : o.fault with
  | some e =>
    have hload : ((FileOp.write x strict).exec o w).1.disk.load = w.disk.load := by
      funext ob
      simp only [FileOp.exec, hfault]
      split
      · exact Disk.load_put_tmpName ..
      · rfl
    have hgiven : ∃ e, ((FileOp.write x strict).exec o w).2 = ioError strict e :=
      ⟨e, by simp only [FileOp.exec, hfault]⟩
    have hout := performs_ioError hgiven hwrite
    rw [(FileOp.write x strict).exec_eq o w] at hout
    refine ⟨_, [(.file (.write x strict), o)], tr₁, rfl, ?_, .inr ⟨?_, hload, hout⟩⟩
    · simp [Writing, Frame.writes, Frame.unlinks]
    · simp [Frame.writes, hfault]
  | none =>
    simp only [FileOp.exec, hfault] at hwrite
    obtain ⟨fs, hfs, hperf⟩ | ⟨hhalt, -⟩ := hwrite
    · cases hfs
      obtain ⟨o', tr₂, rfl, hrename⟩ := performs_file hperf
      have hwriting : Writing [(.file (.write x strict), o),
          (.file (.rename w.listener o.tmpNanos x strict), o')] := by
        simp [Writing, Frame.writes, Frame.unlinks]
      have hread : (w.disk.put x.obj.subdir (tmpName w.listener o.tmpNanos) (.whole x)).read
          x.obj.subdir (tmpName w.listener o.tmpNanos) = some (.whole x) := by
        rw [Disk.read_put, if_pos ⟨rfl, rfl⟩]
      cases hfault' : o'.fault with
      | some e =>
        have hout := performs_ioError (exec_rename_fault hfault') hrename
        simp only [FileOp.exec, hfault'] at hout
        refine ⟨_, [_, _], tr₂, rfl, hwriting, .inr ⟨?_, ?_, hout⟩⟩
        · simp [Frame.writes, hfault']
        · funext ob
          exact Disk.load_put_tmpName ..
      | none =>
        obtain ⟨d, hd⟩ : ∃ d, (w.disk.put x.obj.subdir (tmpName w.listener o.tmpNanos)
            (.whole x)).rename x.obj.subdir (tmpName w.listener o.tmpNanos) x.obj.file = some d := by
          rw [Disk.rename, hread]
          exact ⟨_, rfl⟩
        simp only [FileOp.exec, hfault', hd] at hrename
        obtain ⟨fs, hfs, hperf⟩ | ⟨hhalt, -⟩ := hrename
        · cases hfs
          refine ⟨d, [_, _], tr₂, rfl, hwriting, .inl ⟨?_, fun ob => ?_, hperf⟩⟩
          · simp [Frame.writes, hfault, hfault']
          · rw [Disk.load_rename hread hd, Disk.load_put_tmpName]
            rfl
        · cases hhalt
    · cases hhalt

/-! ## Stops and removals -/

/-- The call is spoilt: a write fails, and a record that a stop has changed is no longer as it was.
-/
def Spoilt (w w' : World) (tr : List (Frame × Oracle)) : Prop :=
  ¬ Sure Frame.writes tr ∧ ∃ ob, w.stopWrites ob ∧ w'.cache.get ob ≠ w.cache.get ob

/-- The frames on top of `k` come to their end, with `P` for the state there and what was executed
until then, or the call is spoilt in them. -/
def Passes (i n : Nat) (w : World) (k : List Frame) (tr : List (Frame × Oracle)) (w' : World)
    (cs : List Thread) (res : Result) (P : World → List (Frame × Oracle) → Prop) : Prop :=
  (∃ w₁ tr₁ tr₂, tr = tr₁ ++ tr₂ ∧ P w₁ tr₁ ∧ Performs exec i n w₁ k tr₂ w' cs res) ∨
    Spoilt w w' tr ∧ ∃ e, res = .error e

theorem Passes.cons {P : World → List (Frame × Oracle) → Prop} {f : Frame} {o : Oracle}
    (h : Passes i n w k tr w' cs res P) (hw : f.writes = false)
    (hP : ∀ w₁ tr, P w₁ tr → P w₁ ((f, o) :: tr)) : Passes i n w k ((f, o) :: tr) w' cs res P := by
  obtain ⟨w₁, tr₁, tr₂, rfl, hp, hrest⟩ | ⟨⟨hfault, hob⟩, he⟩ := h
  · exact .inl ⟨w₁, _ :: tr₁, tr₂, rfl, hP w₁ tr₁ hp, hrest⟩
  · refine .inr ⟨⟨?_, hob⟩, he⟩
    simp [hfault, hw]

/-- One stack of frames after the other. What is spoilt after the first was so before it. -/
theorem Passes.bind {P R : World → List (Frame × Oracle) → Prop}
    {Q : World → World → List (Frame × Oracle) → Prop} {k₁ : List Frame}
    (h : Passes i n w k₁ tr w' cs res P)
    (next : ∀ w₁ tr₁ tr₂, P w₁ tr₁ → Performs exec i n w₁ k₁ tr₂ w' cs res →
      Passes i n w₁ k tr₂ w' cs res (Q w₁))
    (trans : ∀ w₁ w₂ tr₁ tr₂, P w₁ tr₁ → Q w₁ w₂ tr₂ → R w₂ (tr₁ ++ tr₂))
    (back : ∀ w₁ tr₁ ob, P w₁ tr₁ → w₁.stopWrites ob →
      w.stopWrites ob ∧ w₁.cache.get ob = w.cache.get ob) : Passes i n w k tr w' cs res R := by
  obtain ⟨w₁, tr₁, tr₂, rfl, hp, hrest⟩ | ⟨hspoilt, he⟩ := h
  · obtain ⟨w₂, tr₂, tr₃, rfl, hq, hrest⟩ | ⟨⟨hfault, ob, hold, hne⟩, he⟩ := next w₁ tr₁ tr₂ hp hrest
    · exact .inl ⟨w₂, tr₁ ++ tr₂, tr₃, (List.append_assoc ..).symm, trans w₁ w₂ tr₁ tr₂ hp hq, hrest⟩
    · obtain ⟨hold', hsame⟩ := back w₁ tr₁ ob hp hold
      exact .inr ⟨⟨fun hsure => hfault (sure_append.mp hsure).2, ob, hold', hsame ▸ hne⟩, he⟩
  · exact .inr ⟨hspoilt, he⟩

/-- What a stop of the object does: it finds nothing to record, or records it. -/
inductive Stops (ob : Obj) (w w₁ : World) : Prop
  | still (settled : w.stopWrites ob = false) (cache : w₁.cache = w.cache) (disk : w₁.disk = w.disk)
  | written (x : DiskRecord) (obj : x.obj = ob) (old : w.stopWrites ob) (new : x.stopWrites = false)
    (cache : ∀ ob', w₁.cache.get ob' = if ob' = ob then some x else w.cache.get ob')
    (disk : ∀ ob', w₁.disk.load ob' = if ob' = ob then some x else w.disk.load ob')

/-- No write fails and no file is removed. -/
def Smooth (tr : List (Frame × Oracle)) : Prop :=
  Sure Frame.writes tr ∧ ∀ ob, Sure (Frame.unlinks ob) tr


@[simp] theorem smooth_nil : Smooth [] := ⟨sure_nil, fun _ => sure_nil⟩

theorem Smooth.cons {f : Frame} {o : Oracle} (h : Smooth tr) (hw : f.writes = false)
    (hu : ∀ ob, f.unlinks ob = false) : Smooth ((f, o) :: tr) := by
  refine ⟨sure_cons.mpr ⟨fun hf => ?_, h.1⟩, fun ob => sure_cons.mpr ⟨fun hf => ?_, h.2 ob⟩⟩
  · rw [hw] at hf
    cases hf
  · rw [hu ob] at hf
    cases hf

theorem performs_kill {pid sig : Nat}
    (h : Performs exec i n w (.sys (.kill pid sig) :: k) tr w' cs res) :
    ∃ o tr', tr = (.sys (.kill pid sig), o) :: tr' ∧
      Performs exec i n (w.kill pid sig) k tr' w' cs res :=
  performs_next h fun _ => (rfl : exec _ _ _ _ _ = some (_, .next []))

/-- The wait for a killed process comes to an end. -/
theorem performs_waitKilled {id : ContainerId}
    (h : Performs exec i n w (.crit (.waitKilled id) :: k) tr w' cs res) :
    ∃ tr₁ tr₂, tr = tr₁ ++ tr₂ ∧ Smooth tr₁ ∧ Performs exec i n w k tr₂ w' cs res := by
  induction tr with
  | nil =>
    obtain ⟨o, tr', htr, -⟩ := performs_crit h
    cases htr
  | cons e tr ih =>
    have hexec (o : Oracle) : ∃ fs, (Crit.waitKilled id).exec i o w = (w, .next fs) ∧
        (fs = [] ∨ fs = [.crit (.waitKilled id)]) := by
      simp only [Crit.exec]
      repeat' split
      all_goals first
        | exact ⟨_, rfl, .inl rfl⟩
        | exact ⟨_, rfl, .inr rfl⟩
    obtain ⟨o, tr', htr, -, hgoes⟩ := performs_crit h
    obtain ⟨rfl, rfl⟩ := List.cons.inj htr
    obtain ⟨fs, hfs, hcases⟩ := hexec o
    rw [hfs] at hgoes
    obtain ⟨fs', hfs', hperf⟩ | ⟨hhalt, -⟩ := hgoes
    · cases hfs'
      rcases hcases with rfl | rfl
      · exact ⟨[_], tr, rfl, smooth_nil.cons rfl fun _ => rfl, hperf⟩
      · obtain ⟨tr₁, tr₂, rfl, hsmooth, hrest⟩ := ih hperf
        exact ⟨_ :: tr₁, tr₂, rfl, hsmooth.cons rfl fun _ => rfl, hrest⟩
    · cases hhalt

/-- The grace period comes to an end. -/
theorem performs_waitGrace {id : ContainerId} {pid : Nat}
    (h : Performs exec i n w (.crit (.waitGrace id pid) :: k) tr w' cs res) :
    ∃ w₁ tr₁ tr₂, tr = tr₁ ++ tr₂ ∧ Smooth tr₁ ∧ w₁.cache = w.cache ∧ w₁.disk = w.disk ∧
      Performs exec i n w₁ k tr₂ w' cs res := by
  induction tr with
  | nil =>
    obtain ⟨o, tr', htr, -⟩ := performs_crit h
    cases htr
  | cons e tr ih =>
    have hexec (o : Oracle) : ∃ fs, (Crit.waitGrace id pid).exec i o w = (w, .next fs) ∧
        (fs = [] ∨ fs = [.crit (.waitGrace id pid)] ∨
          fs = [.sys (.kill pid SIGKILL), .crit (.waitKilled id)]) := by
      simp only [Crit.exec]
      repeat' split
      all_goals first
        | exact ⟨_, rfl, .inl rfl⟩
        | exact ⟨_, rfl, .inr (.inl rfl)⟩
        | exact ⟨_, rfl, .inr (.inr rfl)⟩
    obtain ⟨o, tr', htr, -, hgoes⟩ := performs_crit h
    obtain ⟨rfl, rfl⟩ := List.cons.inj htr
    obtain ⟨fs, hfs, hcases⟩ := hexec o
    rw [hfs] at hgoes
    obtain ⟨fs', hfs', hperf⟩ | ⟨hhalt, -⟩ := hgoes
    · cases hfs'
      rcases hcases with rfl | rfl | rfl
      · exact ⟨w, [_], tr, rfl, smooth_nil.cons rfl fun _ => rfl, rfl, rfl, hperf⟩
      · obtain ⟨w₁, tr₁, tr₂, rfl, hsmooth, hcache, hdisk, hrest⟩ := ih hperf
        exact ⟨w₁, _ :: tr₁, tr₂, rfl, hsmooth.cons rfl fun _ => rfl, hcache, hdisk, hrest⟩
      · obtain ⟨o', tr, rfl, hkilled⟩ := performs_kill hperf
        obtain ⟨tr₁, tr₂, rfl, hsmooth, hrest⟩ := performs_waitKilled hkilled
        exact ⟨w.kill pid SIGKILL, _ :: _ :: tr₁, tr₂, rfl,
          (hsmooth.cons rfl fun _ => rfl).cons rfl fun _ => rfl, rfl, rfl, hrest⟩
    · cases hhalt

/-- The write that records a stop, after the record is changed in the cache. -/
theorem performs_recorded {x : DiskRecord} {w₁ : World} {o : Oracle} {f : Frame}
    (h : Performs exec i n w₁ (.file (.write x true) :: k) tr w' cs res)
    (hw : f.writes = false) (hu : ∀ ob, f.unlinks ob = false)
    (old : w.stopWrites x.obj) (new : x.stopWrites = false)
    (hcache : ∀ ob', w₁.cache.get ob' = if ob' = x.obj then some x else w.cache.get ob')
    (hdisk : w₁.disk = w.disk) :
    Passes i n w k ((f, o) :: tr) w' cs res fun w₁ tr => Stops x.obj w w₁ ∧ Smooth tr := by
  obtain ⟨d, tr₁, tr₂, rfl, hwriting, hcases⟩ := performs_write h
  obtain ⟨hsure, hload, hperf⟩ | ⟨hfault, hload, ⟨-, he, hw', rfl, rfl⟩ | ⟨hfalse, -⟩⟩ := hcases
  · refine .inl ⟨{ w₁ with disk := d }, (f, o) :: tr₁, tr₂, rfl,
      ⟨.written x rfl old new hcache fun ob' => ?_, ?_⟩, hperf⟩
    · rw [hload ob', hdisk]
    · exact Smooth.cons ⟨hsure, hwriting.sure_unlinks⟩ hw hu
  · refine .inr ⟨⟨?_, x.obj, old, ?_⟩, he⟩
    · simp [hfault, hw]
    · rw [hw', hcache, if_pos rfl]
      intro hsame
      rw [World.stopWrites, ← hsame, Option.any_some, new] at old
      cases old
  · cases hfalse

/-- A critical section that goes on. -/
theorem performs_crit_next {c : Crit} {g : Oracle → World} {fs : Oracle → List Frame}
    (h : Performs exec i n w (.crit c :: k) tr w' cs res)
    (hex : ∀ o, c.exec i o w = (g o, .next (fs o))) :
    ∃ o tr', tr = (.crit c, o) :: tr' ∧ Performs exec i n (g o) (fs o ++ k) tr' w' cs res := by
  obtain ⟨o, tr', rfl, -, hgoes⟩ := performs_crit h
  rw [hex o] at hgoes
  obtain ⟨fs', hfs, hperf⟩ | ⟨hhalt, -⟩ := hgoes
  · cases hfs
    exact ⟨o, tr', rfl, hperf⟩
  · cases hhalt

/-- A critical section that finds nothing to stop. -/
theorem performs_still {c : Crit} {ob : Obj}
    (h : Performs exec i n w (.crit c :: k) tr w' cs res) (hex : ∀ o, c.exec i o w = (w, .next []))
    (hsettled : w.stopWrites ob = false) :
    Passes i n w k tr w' cs res fun w₁ tr => Stops ob w w₁ ∧ Smooth tr := by
  obtain ⟨o, tr', rfl, hperf⟩ := performs_crit_next h hex
  exact .inl ⟨w, [_], tr', rfl, ⟨.still hsettled rfl rfl, smooth_nil.cons rfl fun _ => rfl⟩, hperf⟩

/-- `stop_sandbox`, up to its return. -/
theorem performs_stopSandbox {id : SandboxId} (hk : w.cache.Keyed)
    (h : Performs exec i n w (.crit (.stopSandbox id) :: k) tr w' cs res) :
    Passes i n w k tr w' cs res fun w₁ tr => Stops (.sandbox id) w w₁ ∧ Smooth tr := by
  cases hr : w.cache.sandboxes[id]? with
  | none =>
    refine performs_still h (fun o => ?_) ?_
    · simp only [Crit.exec, hr]
    · simp [World.stopWrites, Cache.get, hr]
  | some r =>
    by_cases hstate : r.state = .notReady
    · refine performs_still h (fun o => ?_) ?_
      · simp only [Crit.exec, hr, hstate, if_true]
      · simp [World.stopWrites, Cache.get, hr, DiskRecord.stopWrites, hstate]
    · have hready : r.state = .ready := by
        cases hs : r.state with
        | ready => rfl
        | notReady => exact absurd hs hstate
      have hid := hk.sandbox hr
      have hex (o : Oracle) : (Crit.stopSandbox id).exec i o w =
          ({ w with cache := w.cache.setSandbox id { r with state := .notReady } },
            .next [.file (.write (.sandbox { r with state := .notReady }) true)]) := by
        simp only [Crit.exec, hr, hready, reduceCtorEq, if_false]
      obtain ⟨o, tr', rfl, hperf⟩ := performs_crit_next h hex
      rw [← hid]
      refine performs_recorded hperf rfl (fun _ => rfl) ?_ rfl (fun ob' => ?_) rfl
      · simp [World.stopWrites, Cache.get, hid, hr, DiskRecord.stopWrites, hready]
      · simp [Cache.get_setSandbox, hid]

/-- `stop_container`, up to its return. -/
theorem performs_stopContainer {id : ContainerId} {grace : Int} (hk : w.cache.Keyed)
    (h : Performs exec i n w (.crit (.stopContainer id grace) :: k) tr w' cs res) :
    Passes i n w k tr w' cs res fun w₁ tr => Stops (.container id) w w₁ ∧ Smooth tr := by
  cases hr : w.cache.containers[id]? with
  | none =>
    refine performs_still h (fun o => ?_) ?_
    · simp only [Crit.exec, hr]
    · simp [World.stopWrites, Cache.get, hr]
  | some r =>
    by_cases hrun : r.state = .running
    · by_cases hpid : 0 < r.pid
      · have hsettled : w.stopWrites (.container id) = false := by
          simp [World.stopWrites, Cache.get, hr, DiskRecord.stopWrites, Nat.ne_of_gt hpid]
        by_cases hgrace : 0 < grace
        · have hex (o : Oracle) : (Crit.stopContainer id grace).exec i o w =
              (w, .next [.sys (.kill r.pid SIGTERM), .crit (.waitGrace id r.pid)]) := by
            simp only [Crit.exec, hr, hrun, hpid, hgrace, if_true]
          obtain ⟨o, tr', rfl, hperf⟩ := performs_crit_next h hex
          obtain ⟨o', tr'', rfl, hkilled⟩ := performs_kill hperf
          obtain ⟨w₁, tr₁, tr₂, rfl, hsmooth, hcache, hdisk, hrest⟩ := performs_waitGrace hkilled
          exact .inl ⟨w₁, _ :: _ :: tr₁, tr₂, rfl, ⟨.still hsettled hcache hdisk,
            (hsmooth.cons rfl fun _ => rfl).cons rfl fun _ => rfl⟩, hrest⟩
        · have hex (o : Oracle) : (Crit.stopContainer id grace).exec i o w =
              (w, .next [.sys (.kill r.pid SIGKILL), .crit (.waitKilled id)]) := by
            simp only [Crit.exec, hr, hrun, hpid, hgrace, if_true, if_false]
          obtain ⟨o, tr', rfl, hperf⟩ := performs_crit_next h hex
          obtain ⟨o', tr'', rfl, hkilled⟩ := performs_kill hperf
          obtain ⟨tr₁, tr₂, rfl, hsmooth, hrest⟩ := performs_waitKilled hkilled
          exact .inl ⟨w.kill r.pid SIGKILL, _ :: _ :: tr₁, tr₂, rfl, ⟨.still hsettled rfl rfl,
            (hsmooth.cons rfl fun _ => rfl).cons rfl fun _ => rfl⟩, hrest⟩
      · have hzero : r.pid = 0 := Nat.eq_zero_of_not_pos hpid
        have hid := hk.container hr
        have hex (o : Oracle) : (Crit.stopContainer id grace).exec i o w =
            (w, .next [.crit (.recordStopped id grace)]) := by
          simp only [Crit.exec, hr, hrun, hpid, if_true, if_false]
        obtain ⟨o, tr', rfl, hperf⟩ := performs_crit_next h hex
        have hex' (o : Oracle) : (Crit.recordStopped id grace).exec i o w =
            (w.setContainer id (r.toExited o.clock (if 0 < grace then 128 + 15 else 128 + 9) "stopped"),
              .next [.file (.write (.container
                (r.toExited o.clock (if 0 < grace then 128 + 15 else 128 + 9) "stopped")) true)]) := by
          simp only [Crit.exec, hr, hrun, if_true]
        obtain ⟨o', tr'', rfl, hrecord⟩ := performs_crit_next hperf hex'
        have hobj : (DiskRecord.container (r.toExited o'.clock
            (if 0 < grace then 128 + 15 else 128 + 9) "stopped")).obj = .container id :=
          congrArg Obj.container hid
        have hrecorded : Passes i n w k ((.crit (.recordStopped id grace), o') :: tr'') w' cs res
            fun w₁ tr => Stops (.container id) w w₁ ∧ Smooth tr := by
          rw [← hobj]
          refine performs_recorded hrecord rfl (fun _ => rfl) ?_ rfl (fun ob' => ?_) rfl
          · rw [hobj]
            simp [World.stopWrites, Cache.get, hr, DiskRecord.stopWrites, hrun, hzero]
          · rw [hobj]
            exact Cache.get_setContainer ..
        exact hrecorded.cons rfl fun w₁ tr h => ⟨h.1, h.2.cons rfl fun _ => rfl⟩
    · refine performs_still h (fun o => ?_) ?_
      · simp only [Crit.exec, hr, hrun, if_false]
      · simp [World.stopWrites, Cache.get, hr, DiskRecord.stopWrites, hrun]

/-- After a stop there is nothing to record. -/
theorem Stops.settled {ob : Obj} {w₁ : World} (h : Stops ob w w₁) : w₁.stopWrites ob = false := by
  cases h with
  | still settled cache disk => rw [World.stopWrites, cache, ← World.stopWrites, settled]
  | written x obj old new cache disk => rw [World.stopWrites, cache, if_pos rfl, Option.any_some, new]

theorem Stops.get_of_ne {ob ob' : Obj} {w₁ : World} (h : Stops ob w w₁) (hne : ob' ≠ ob) :
    w₁.cache.get ob' = w.cache.get ob' := by
  cases h with
  | still settled cache disk => rw [cache]
  | written x obj old new cache disk => rw [cache, if_neg hne]

theorem Stops.load_of_ne {ob ob' : Obj} {w₁ : World} (h : Stops ob w w₁) (hne : ob' ≠ ob) :
    w₁.disk.load ob' = w.disk.load ob' := by
  cases h with
  | still settled cache disk => rw [disk]
  | written x obj old new cache disk => rw [disk, if_neg hne]

theorem Stops.isSome_get {ob ob' : Obj} {w₁ : World} (h : Stops ob w w₁) :
    (w₁.cache.get ob').isSome = (w.cache.get ob').isSome := by
  by_cases hob : ob' = ob
  · subst hob
    cases h with
    | still settled cache disk => rw [cache]
    | written x obj old new cache disk =>
      obtain ⟨r, hr, -⟩ := (Option.any_eq_true _ _).mp old
      rw [cache, if_pos rfl, hr]
      rfl
  · rw [h.get_of_ne hob]

theorem Stops.keyed {ob : Obj} {w₁ : World} (h : Stops ob w w₁) (hk : w.cache.Keyed) :
    w₁.cache.Keyed := by
  cases h with
  | still settled cache disk => exact cache ▸ hk
  | written x obj old new cache disk =>
    intro ob' r hr
    rw [cache] at hr
    split at hr
    · rename_i hob
      rw [← Option.some.inj hr, obj, hob]
    · exact hk ob' r hr

/-- What was to be recorded after a stop was so before it. -/
theorem Stops.back {ob ob' : Obj} {w₁ : World} (h : Stops ob w w₁) (hold : w₁.stopWrites ob') :
    w.stopWrites ob' ∧ w₁.cache.get ob' = w.cache.get ob' := by
  have hne : ob' ≠ ob := by
    rintro rfl
    rw [h.settled] at hold
    cases hold
  have hget := h.get_of_ne hne
  exact ⟨by rw [World.stopWrites, ← hget]; exact hold, hget⟩

/-- The objects of `p` are taken out of the cache, and their files are removed if that works. -/
structure Removed (p : Obj → Prop) (w w₁ : World) (tr : List (Frame × Oracle)) : Prop where
  gone : ∀ ob, p ob → w₁.cache.get ob = none
  others : ∀ ob, ¬ p ob → w₁.cache.get ob = w.cache.get ob
  kept : ∀ ob, ¬ (p ob ∧ (w.cache.get ob).isSome) →
    w₁.disk.load ob = w.disk.load ob ∧ Sure (Frame.unlinks ob) tr
  file : ∀ ob, p ob → (w.cache.get ob).isSome → (w₁.disk.load ob = none ↔
    Sure (Frame.unlinks ob) tr ∨ w.disk.load ob = none ∧ w.stopWrites ob = false)
  sure : Sure Frame.writes tr

section Removed

variable {p q : Obj → Prop} {w₁ w₂ : World} {tr₁ tr₂ : List (Frame × Oracle)} {ob : Obj}

/-- Nothing is there to be removed. -/
theorem Removed.still (hnone : ∀ ob, p ob → w.cache.get ob = none) (htr : Smooth tr) :
    Removed p w w tr where
  gone := hnone
  others _ _ := rfl
  kept ob _ := ⟨rfl, htr.2 ob⟩
  file ob hp hsome := by
    rw [hnone ob hp] at hsome
    cases hsome
  sure := htr.1

theorem Removed.keyed (h : Removed p w w₁ tr) (hk : w.cache.Keyed) : w₁.cache.Keyed := by
  intro ob r hr
  by_cases hp : p ob
  · rw [h.gone ob hp] at hr
    cases hr
  · exact hk ob r ((h.others ob hp).symm.trans hr)

theorem Removed.back (h : Removed p w w₁ tr) (hold : w₁.stopWrites ob) :
    w.stopWrites ob ∧ w₁.cache.get ob = w.cache.get ob := by
  have hp : ¬ p ob := fun hp => by
    rw [World.stopWrites, h.gone ob hp] at hold
    cases hold
  have hget := h.others ob hp
  exact ⟨by rw [World.stopWrites, ← hget]; exact hold, hget⟩

theorem Removed.trans (h₁ : Removed p w w₁ tr₁) (h₂ : Removed q w₁ w₂ tr₂) :
    Removed (fun ob => p ob ∨ q ob) w w₂ (tr₁ ++ tr₂) where
  gone ob hpq := by
    by_cases hq : q ob
    · exact h₂.gone ob hq
    · rw [h₂.others ob hq, h₁.gone ob (hpq.resolve_right hq)]
  others ob hpq := by
    rw [h₂.others ob fun hq => hpq (.inr hq), h₁.others ob fun hp => hpq (.inl hp)]
  kept ob hpq := by
    obtain ⟨hload₁, hsure₁⟩ := h₁.kept ob fun hp => hpq ⟨.inl hp.1, hp.2⟩
    obtain ⟨hload₂, hsure₂⟩ := h₂.kept ob fun hq => by
      by_cases hp : p ob
      · rw [h₁.gone ob hp] at hq
        cases hq.2
      · rw [h₁.others ob hp] at hq
        exact hpq ⟨.inr hq.1, hq.2⟩
    exact ⟨hload₂.trans hload₁, sure_append.mpr ⟨hsure₁, hsure₂⟩⟩
  file ob hpq hsome := by
    by_cases hp : p ob
    · obtain ⟨hload, hsure⟩ := h₂.kept ob fun hq => by
        rw [h₁.gone ob hp] at hq
        cases hq.2
      rw [hload, h₁.file ob hp hsome, sure_append, and_iff_left hsure]
    · obtain ⟨hload, hsure⟩ := h₁.kept ob fun h => hp h.1
      have hget := h₁.others ob hp
      have hstop : w₁.stopWrites ob = w.stopWrites ob := by rw [World.stopWrites, hget, World.stopWrites]
      rw [h₂.file ob (hpq.resolve_left hp) (by rw [hget]; exact hsome), hload, hstop, sure_append,
        and_iff_right hsure]
  sure := sure_append.mpr ⟨h₁.sure, h₂.sure⟩

/-- An object that is stopped first, and removed if its record was written. -/
theorem Stops.removed (hs : Stops ob w w₁) (htr : Smooth tr₁) (h : Removed p w₁ w₂ tr₂)
    (hp : w.stopWrites ob → p ob) : Removed p w w₂ (tr₁ ++ tr₂) := by
  have hsure : Sure Frame.writes (tr₁ ++ tr₂) := sure_append.mpr ⟨htr.1, h.sure⟩
  have hunlinks (ob' : Obj) :
      Sure (Frame.unlinks ob') (tr₁ ++ tr₂) ↔ Sure (Frame.unlinks ob') tr₂ := by
    rw [sure_append, and_iff_right (htr.2 ob')]
  cases hs with
  | still settled cache disk =>
    have hstop (ob' : Obj) : w₁.stopWrites ob' = w.stopWrites ob' := by
      rw [World.stopWrites, cache, World.stopWrites]
    constructor
    case gone => exact h.gone
    case others => simpa only [cache] using h.others
    case kept => simpa only [cache, disk, hunlinks] using h.kept
    case file => simpa only [cache, disk, hunlinks, hstop] using h.file
    case sure => exact hsure
  | written x obj old new cache disk =>
    have hs : Stops ob w w₁ := .written x obj old new cache disk
    have hne {ob' : Obj} (hp' : ¬ p ob') : ob' ≠ ob := by
      rintro rfl
      exact hp' (hp old)
    constructor
    case gone => exact h.gone
    case others => exact fun ob' hp' => (h.others ob' hp').trans (hs.get_of_ne (hne hp'))
    case kept =>
      intro ob' hp'
      rw [← hs.isSome_get] at hp'
      obtain ⟨hload, hsure'⟩ := h.kept ob' hp'
      refine ⟨hload.trans (hs.load_of_ne ?_), (hunlinks ob').mpr hsure'⟩
      rintro rfl
      exact hp' ⟨hp old, by rw [cache, if_pos rfl]; rfl⟩
    case file =>
      intro ob' hp' hsome
      rw [h.file ob' hp' (by rw [hs.isSome_get]; exact hsome), hunlinks]
      by_cases hob : ob' = ob
      · subst hob
        simp [disk, old]
      · rw [hs.load_of_ne hob, World.stopWrites, hs.get_of_ne hob, World.stopWrites]
    case sure => exact hsure

end Removed

/-! ## Removals -/

/-- A file that is removed, after its object has been taken out of the cache. -/
theorem removed_unlink {ob : Obj} {v : World} {o : Oracle} (hsome : (w.cache.get ob).isSome)
    (hsettled : w.stopWrites ob = false) (hcache : v.cache = w.cache.erase ob)
    (hdisk : v.disk = if o.fault = none then w.disk.unlink ob.subdir ob.file else w.disk) :
    Removed (fun ob' => ob' = ob) w v [(.file (.unlink ob), o)] where
  gone ob' hob := by rw [hcache, Cache.get_erase, if_pos hob]
  others ob' hob := by rw [hcache, Cache.get_erase, if_neg hob]
  kept ob' hob := by
    have hne : ob' ≠ ob := by
      rintro rfl
      exact hob ⟨rfl, hsome⟩
    refine ⟨?_, sure_cons.mpr ⟨fun h => absurd (of_decide_eq_true h).symm hne, sure_nil⟩⟩
    rw [hdisk]
    split
    · rw [Disk.load_unlink, if_neg hne]
    · rfl
  file ob' hob _ := by
    subst hob
    rw [hdisk]
    by_cases hfault : o.fault = none
    · simp [hfault, Disk.load_unlink]
    · simp [hfault, Frame.unlinks, hsettled]
  sure := sure_cons.mpr ⟨fun h => (by cases h), sure_nil⟩

/-- Frames that concern no file, before a removal. -/
theorem Removed.cons {p : Obj → Prop} {w₁ : World} {f : Frame} {o : Oracle}
    (h : Removed p w w₁ tr) (hw : f.writes = false) (hu : ∀ ob, f.unlinks ob = false) :
    Removed p w w₁ ((f, o) :: tr) where
  gone := h.gone
  others := h.others
  kept ob hob := by
    obtain ⟨hload, hsure⟩ := h.kept ob hob
    exact ⟨hload, by simp [hu, hsure]⟩
  file ob hp hsome := by simp [h.file ob hp hsome, hu]
  sure := by simp [hw, h.sure]

theorem Removed.congr {p q : Obj → Prop} {w₁ : World} (h : Removed p w w₁ tr)
    (hpq : ∀ ob, p ob ↔ q ob) : Removed q w w₁ tr := by
  have : p = q := funext fun ob => propext (hpq ob)
  exact this ▸ h

/-- The last part of `remove_container`. -/
theorem performs_dropContainer {id : ContainerId} (hsome : (w.cache.get (.container id)).isSome)
    (hsettled : w.stopWrites (.container id) = false)
    (h : Performs exec i n w (.crit (.dropContainer id) :: k) tr w' cs res) :
    Passes i n w k tr w' cs res (Removed (fun ob => ob = .container id) w) := by
  obtain ⟨o, tr₁, rfl, hperf⟩ := performs_crit_next h fun _ => rfl
  obtain ⟨o₁, tr₂, rfl, hunlink⟩ := performs_next hperf
    fun _ => (rfl : exec _ _ _ _ _ = some (_, .next []))
  obtain ⟨o₂, tr₃, rfl, hrest⟩ := performs_unlink hunlink
  refine .inl ⟨_, [_, _, _], tr₃, rfl, ?_, hrest⟩
  exact ((removed_unlink hsome hsettled rfl rfl).cons rfl fun _ => rfl).cons rfl fun _ => rfl

/-- `remove_container`, up to its return. -/
theorem performs_removeContainer {id : ContainerId} (hk : w.cache.Keyed)
    (h : Performs exec i n w (.crit (.removeContainer id) :: k) tr w' cs res) :
    Passes i n w k tr w' cs res (Removed (fun ob => ob = .container id) w) := by
  cases hr : w.cache.containers[id]? with
  | none =>
    have hex (o : Oracle) : (Crit.removeContainer id).exec i o w = (w, .next []) := by
      simp only [Crit.exec, hr]
    obtain ⟨o, tr₁, rfl, hrest⟩ := performs_crit_next h hex
    refine .inl ⟨w, [_], tr₁, rfl, .still ?_ (smooth_nil.cons rfl fun _ => rfl), hrest⟩
    rintro ob rfl
    simp [Cache.get, hr]
  | some r =>
    have hsome : (w.cache.get (.container id)).isSome := by simp [Cache.get, hr]
    by_cases hrun : r.state = .running
    · have hex (o : Oracle) : (Crit.removeContainer id).exec i o w =
          (w, .next [.crit (.stopContainer id 0), .crit (.dropContainer id)]) := by
        simp only [Crit.exec, hr, hrun, if_true]
      obtain ⟨o, tr₁, rfl, hperf⟩ := performs_crit_next h hex
      refine Passes.cons ?_ rfl fun w₁ tr h => h.cons rfl fun _ => rfl
      refine (performs_stopContainer hk hperf).bind (fun w₁ tr₁ tr₂ hs hrest => ?_)
        (fun w₁ w₂ tr₁ tr₂ hs hremoved => hs.1.removed hs.2 hremoved fun _ => rfl)
        fun w₁ tr₁ ob hs => hs.1.back
      exact performs_dropContainer (by rw [hs.1.isSome_get]; exact hsome) hs.1.settled hrest
    · have hex (o : Oracle) : (Crit.removeContainer id).exec i o w =
          (w, .next [.crit (.dropContainer id)]) := by
        simp only [Crit.exec, hr, hrun, if_false]
      obtain ⟨o, tr₁, rfl, hperf⟩ := performs_crit_next h hex
      refine Passes.cons ?_ rfl fun w₁ tr h => h.cons rfl fun _ => rfl
      refine performs_dropContainer hsome ?_ hperf
      simp [World.stopWrites, Cache.get, hr, DiskRecord.stopWrites, hrun]

/-- The containers of a sandbox are stopped and removed. -/
theorem performs_cascade {ids : List ContainerId} (hk : w.cache.Keyed)
    (h : Performs exec i n w (cascade ids ++ k) tr w' cs res) :
    Passes i n w k tr w' cs res (Removed (fun ob => ∃ id ∈ ids, ob = .container id) w) := by
  induction ids generalizing w tr with
  | nil => exact .inl ⟨w, [], tr, rfl, .still (by simp) smooth_nil, h⟩
  | cons id ids ih =>
    have hfirst : Passes i n w (cascade ids ++ k) tr w' cs res
        (Removed (fun ob => ob = .container id) w) :=
      (performs_stopContainer (k := .crit (.removeContainer id) :: (cascade ids ++ k)) hk h).bind
        (fun w₁ tr₁ tr₂ hs hrest => performs_removeContainer (hs.1.keyed hk) hrest)
        (fun w₁ w₂ tr₁ tr₂ hs hremoved => hs.1.removed hs.2 hremoved fun _ => rfl)
        fun w₁ tr₁ ob hs => hs.1.back
    refine hfirst.bind (fun w₁ tr₁ tr₂ hr hrest => ih (hr.keyed hk) hrest)
      (fun w₁ w₂ tr₁ tr₂ h₁ h₂ => (h₁.trans h₂).congr fun ob => ?_) fun w₁ tr₁ ob h₁ => h₁.back
    simp

/-! ## The calls that stop and remove -/

section Calls

variable {s s' : State} {c : Call} {r : Result}

theorem not_clean_of_spoilt (h : Spoilt s.shared s'.shared tr) (hr : ∃ e, r = .error e)
    (hc : ∀ id, c ≠ .startContainer id) : ¬ Clean s s' c tr r := by
  obtain ⟨e, rfl⟩ := hr
  obtain ⟨-, ob, -, hne⟩ := h
  intro hclean
  rcases hclean.1 ob with ⟨hsame, -⟩ | ⟨id, _, _, _, _, hstart, -⟩
  · exact hne hsame
  · exact hc id hstart

/-- After an error that comes before any change. -/
theorem clean_error (e : BackendError) (hcache : s'.shared.cache = s.shared.cache)
    (hload : s'.shared.disk.load = s.shared.disk.load) (hprocs : s'.shared.procs = s.shared.procs) :
    Clean s s' c tr (.error e) := by
  refine ⟨fun ob => .inl ⟨by rw [hcache], by rw [hload]⟩, fun q p hq hp => ?_⟩
  have hlt := (List.getElem?_eq_some_iff.mp hp).1
  rw [hprocs] at hlt
  exact absurd hlt (Nat.not_lt_of_le hq)

/-- A call that stops an object. -/
theorem clean_of_stops {ob : Obj} (hc : ∀ id, c ≠ .startContainer id)
    (hnames : ∀ ob', c.names s.shared ob' ↔ ob' = ob)
    (h : Passes i n s.shared [.ret .unit] tr s'.shared cs r fun w₁ tr =>
      Stops ob s.shared w₁ ∧ Smooth tr) :
    Clean s s' c tr r ↔ Sure Frame.writes tr ∧ ∀ ob', c.names s.shared ob' →
      s.shared.stopWrites ob' ∨ Agrees s.shared ob' := by
  obtain ⟨w₁, tr₁, tr₂, rfl, ⟨hs, hsmooth⟩, hret⟩ | ⟨hspoilt, hr⟩ := h
  · obtain ⟨o, rfl, hw, -, rfl⟩ := performs_ret hret
    have hsure : Sure Frame.writes (tr₁ ++ [(Frame.ret .unit, o)]) :=
      sure_append.mpr ⟨hsmooth.1, sure_cons.mpr ⟨fun h => (by cases h), sure_nil⟩⟩
    have hagrees : Agrees s'.shared ob ↔ s.shared.stopWrites ob ∨ Agrees s.shared ob := by
      rw [hw]
      cases hs with
      | still settled cache disk => simp [Agrees, cache, disk, settled]
      | written x obj old new cache disk => simp [Agrees, cache, disk, old]
    simp only [Clean, Call.reports, hnames, forall_eq, hsure, true_and, hagrees]
  · exact iff_of_false (not_clean_of_spoilt hspoilt hr hc) fun h => hspoilt.1 h.1

/-- What the removal of objects leaves behind. -/
theorem agrees_of_removed {p : Obj → Prop} {w w₁ : World} {ob : Obj} (h : Removed p w w₁ tr) :
    Agrees w₁ ob ↔
      (p ob ∧ (w.cache.get ob).isSome → Sure (Frame.unlinks ob) tr ∨
        w.disk.load ob = none ∧ w.stopWrites ob = false) ∧
      (¬ (p ob ∧ (w.cache.get ob).isSome) → Agrees w ob) := by
  by_cases htaken : p ob ∧ (w.cache.get ob).isSome
  · simp only [htaken, and_self, true_implies, not_true_eq_false, false_implies, and_true]
    rw [← h.file ob htaken.1 htaken.2, Agrees, h.gone ob htaken.1]
  · simp only [htaken, false_implies, not_false_eq_true, true_implies, true_and]
    rw [Agrees, Agrees, (h.kept ob htaken).1]
    by_cases hp : p ob
    · have hnone : w.cache.get ob = none := by
        rw [← Option.not_isSome_iff_eq_none]
        exact fun hsome => htaken ⟨hp, hsome⟩
      rw [h.gone ob hp, hnone]
    · rw [h.others ob hp]

/-- A call that removes objects. -/
theorem clean_of_removed {p : Obj → Prop} (hc : ∀ id, c ≠ .startContainer id)
    (hrefused : ¬ c.refused s.shared)
    (htakes : ∀ ob, c.takes s.shared ob ↔ p ob ∧ (s.shared.cache.get ob).isSome)
    (h : Passes i n s.shared [.ret .unit] tr s'.shared cs r (Removed p s.shared)) :
    Clean s s' c tr r ↔ Sure Frame.writes tr ∧ (c.refused s.shared ∨
      ∀ ob, c.names s.shared ob →
        (c.takes s.shared ob → Sure (Frame.unlinks ob) tr ∨
          s.shared.disk.load ob = none ∧ s.shared.stopWrites ob = false) ∧
        (¬ c.takes s.shared ob → Agrees s.shared ob)) := by
  obtain ⟨w₁, tr₁, tr₂, rfl, hremoved, hret⟩ | ⟨hspoilt, hr⟩ := h
  · obtain ⟨o, rfl, hw, -, rfl⟩ := performs_ret hret
    have hsure (p : Frame → Bool) (hp : p (.ret .unit) = false) :
        Sure p (tr₁ ++ [(Frame.ret .unit, o)]) ↔ Sure p tr₁ := by simp [hp]
    simp only [Clean, Call.reports, hw, hrefused, htakes, agrees_of_removed hremoved, false_or,
      (hsure _ rfl).mpr hremoved.sure, true_and, hsure (Frame.unlinks _) rfl]
  · exact iff_of_false (not_clean_of_spoilt hspoilt hr hc) fun h => hspoilt.1 h.1

end Calls

/-- The containers that `remove_sandbox` lists. -/
theorem mem_containersOf {c : Cache} (hk : c.Keyed) {id : SandboxId} {cid : ContainerId} :
    cid ∈ c.containersOf id ↔
      ∃ r, c.get (.container cid) = some (.container r) ∧ r.sandbox = id := by
  simp only [Cache.containersOf, List.mem_map, List.mem_filter, decide_eq_true_eq, Prod.exists,
    Std.ExtTreeMap.mem_toList_iff_getElem?_eq_some]
  constructor
  · rintro ⟨cid', r, ⟨hr, hsb⟩, hcid⟩
    obtain rfl := (hk.container hr).symm.trans hcid
    exact ⟨r, Cache.get_container_eq_some hr, hsb⟩
  · rintro ⟨r, hr, hsb⟩
    have hr' : c.containers[cid]? = some r := by simpa [Cache.get] using hr
    exact ⟨cid, r, ⟨hr', hsb⟩, hk.container hr'⟩

/-- The sandbox and its containers, if the sandbox is there. -/
def Cache.heldBy (c : Cache) (id : SandboxId) (ob : Obj) : Prop :=
  (c.get (.sandbox id)).isSome ∧
    (ob = .sandbox id ∨ ∃ cid ∈ c.containersOf id, ob = .container cid)

/-- The deletion of a sandbox. -/
theorem performs_deleteSandbox {id : SandboxId} (hsome : (w.cache.get (.sandbox id)).isSome)
    (hsettled : w.stopWrites (.sandbox id) = false)
    (h : Performs exec i n w (.crit (.deleteSandbox id) :: k) tr w' cs res) :
    Passes i n w k tr w' cs res (Removed (fun ob => ob = .sandbox id) w) := by
  cases hr : w.cache.sandboxes[id]? with
  | none => simp [Cache.get, hr] at hsome
  | some r =>
    have hex (o : Oracle) : (Crit.deleteSandbox id).exec i o w =
        ({ w with cache := w.cache.eraseSandbox id }, .next [.file (.unlink (.sandbox id))]) := by
      simp only [Crit.exec, hr]
    obtain ⟨o, tr₁, rfl, hunlink⟩ := performs_crit_next h hex
    obtain ⟨o₁, tr₂, rfl, hrest⟩ := performs_unlink hunlink
    refine .inl ⟨_, [_, _], tr₂, rfl, ?_, hrest⟩
    exact (removed_unlink hsome hsettled rfl rfl).cons rfl fun _ => rfl

/-- What `remove_sandbox` does to a sandbox that has been stopped. -/
theorem performs_collectContainers {id : SandboxId} (hk : w.cache.Keyed)
    (hsettled : w.stopWrites (.sandbox id) = false)
    (h : Performs exec i n w (.crit (.collectContainers id) :: k) tr w' cs res) :
    Passes i n w k tr w' cs res (Removed (w.cache.heldBy id) w) := by
  cases hr : w.cache.sandboxes[id]? with
  | none =>
    have hex (o : Oracle) : (Crit.collectContainers id).exec i o w = (w, .next []) := by
      simp only [Crit.exec, hr]
    obtain ⟨o, tr₁, rfl, hrest⟩ := performs_crit_next h hex
    refine .inl ⟨w, [_], tr₁, rfl, .still ?_ (smooth_nil.cons rfl fun _ => rfl), hrest⟩
    rintro ob ⟨hsome, -⟩
    simp [Cache.get, hr] at hsome
  | some r =>
    have hsome : (w.cache.get (.sandbox id)).isSome := by simp [Cache.get, hr]
    have hex (o : Oracle) : (Crit.collectContainers id).exec i o w =
        (w, .next (cascade (w.cache.containersOf id) ++ [Frame.crit (.deleteSandbox id)])) := by
      simp only [Crit.exec, hr]
    obtain ⟨o, tr₁, rfl, hperf⟩ := performs_crit_next h hex
    rw [List.append_assoc] at hperf
    refine Passes.cons ?_ rfl fun w₁ tr h => h.cons rfl fun _ => rfl
    have hcascade := performs_cascade hk hperf
    refine hcascade.bind (k := k) (Q := fun w₁ => Removed (fun ob => ob = .sandbox id) w₁)
      (fun w₁ tr₁ tr₂ hremoved hrest => ?_)
      (fun w₁ w₂ tr₁ tr₂ h₁ h₂ => (h₁.trans h₂).congr fun ob => ?_) fun w₁ tr₁ ob h₁ => h₁.back
    · have hget := hremoved.others (.sandbox id) (by simp)
      refine performs_deleteSandbox (by rw [hget]; exact hsome) ?_ hrest
      rw [World.stopWrites, hget, ← World.stopWrites, hsettled]
    · rw [Cache.heldBy, and_iff_right hsome, or_comm]

/-- `remove_sandbox`, up to its return. -/
theorem performs_removeSandbox {id : SandboxId} (hk : w.cache.Keyed)
    (h : Performs exec i n w (.crit (.stopSandbox id) :: .crit (.collectContainers id) :: k) tr w' cs
      res) :
    Passes i n w k tr w' cs res (Removed (w.cache.heldBy id) w) := by
  refine (performs_stopSandbox hk h).bind
    (Q := fun w₁ => Removed (w₁.cache.heldBy id) w₁)
    (fun w₁ tr₁ tr₂ hs hrest => performs_collectContainers (hs.1.keyed hk) hs.1.settled hrest)
    (fun w₁ w₂ tr₁ tr₂ hs hremoved => ?_) fun w₁ tr₁ ob hs => hs.1.back
  have hmem (cid : ContainerId) : cid ∈ w₁.cache.containersOf id ↔ cid ∈ w.cache.containersOf id := by
    rw [mem_containersOf (hs.1.keyed hk), mem_containersOf hk, hs.1.get_of_ne (by simp)]
  have hheld (ob : Obj) : w₁.cache.heldBy id ob ↔ w.cache.heldBy id ob := by
    simp only [Cache.heldBy, hs.1.isSome_get, hmem]
  have hremoved' := hremoved.congr hheld
  refine hs.1.removed hs.2 hremoved' fun hold => ⟨?_, .inl rfl⟩
  obtain ⟨r, hr, -⟩ := (Option.any_eq_true _ _).mp hold
  rw [hr]
  rfl

/-! ## Starts -/

/-- A start that has made its container Running comes to an end with the record on disk, or is
spoilt. -/
def Launches (id : ContainerId) (w' : World) (tr : List (Frame × Oracle)) (res : Result) : Prop :=
  (¬ Sure Frame.writes tr ∧ (∃ e, res = .error e) ∧
      ∃ x, w'.cache.containers[id]? = some x ∧ x.state = .running) ∨
    Sure Frame.writes tr ∧ res = .ok .unit ∧ Agrees w' (.container id)

theorem Launches.cons {id : ContainerId} {f : Frame} {o : Oracle} (h : Launches id w' tr res)
    (hf : f.writes = false ∨ o.fault = none) : Launches id w' ((f, o) :: tr) res := by
  have hsure : Sure Frame.writes ((f, o) :: tr) ↔ Sure Frame.writes tr := by
    rw [sure_cons]
    rcases hf with hf | hf <;> simp [hf]
  rwa [Launches, hsure]

theorem get_container {c : Cache} {id : ContainerId} {x : ContainerRecord} :
    c.get (.container id) = some (.container x) ↔ c.containers[id]? = some x := by
  simp [Cache.get]

theorem performs_persistPid {id : ContainerId} {pid q : Nat} {x : ContainerRecord}
    (hx : w.cache.containers[id]? = some x) (hid : x.id = id) (hrun : x.state = .running)
    (h : Performs exec i n w [.crit (.persistPid id pid), .sys (.spawnReaper id q), .ret .unit] tr w'
      cs res) : Launches id w' tr res := by
  have hex (o : Oracle) : (Crit.persistPid id pid).exec i o w =
      (w.setContainer id (x.withPid pid),
        .next [.file (.write (.container (x.withPid pid)) true)]) := by
    simp only [Crit.exec, hx, ContainerRecord.withPid]
  obtain ⟨o, tr₁, rfl, hwrite⟩ := performs_crit_next h hex
  refine Launches.cons ?_ (.inl rfl)
  have hcache : (w.cache.setContainer id (x.withPid pid)).containers[id]? = some (x.withPid pid) := by
    rw [containers_setContainer, if_pos rfl]
  obtain ⟨d, tr₁, tr₂, rfl, hwriting, ⟨hsure, hload, hperf⟩ |
    ⟨hfault, -, ⟨-, he, rfl, rfl, -⟩ | ⟨hfalse, -⟩⟩⟩ := performs_write hwrite
  · obtain ⟨o₁, tr₂, rfl, ⟨hdone, -⟩ | ⟨w₁, fs, hgoes, -⟩ | ⟨w₁, tag, child, cs', hforks, -, hret⟩⟩ :=
      performs_cons hperf
    · cases hdone
    · cases hgoes
    · cases hforks
      obtain ⟨o₂, rfl, rfl, -, rfl⟩ := performs_ret hret
      refine .inr ⟨?_, rfl, ?_⟩
      · exact sure_append.mpr ⟨hsure, by simp [Frame.writes]⟩
      · have hobj : (DiskRecord.container (x.withPid pid)).obj = .container id :=
          congrArg Obj.container hid
        rw [Agrees, hload, if_pos hobj.symm]
        exact (get_container.mpr hcache).symm
  · exact .inl ⟨fun h => hfault (sure_append.mp h).1, he, x.withPid pid, hcache, hrun⟩
  · cases hfalse

/-- What a start does with the process it has spawned. -/
theorem performs_spawned {id : ContainerId} {io : ContainerIo} {pid q : Nat} {x : ContainerRecord}
    (hx : w.cache.containers[id]? = some x) (hid : x.id = id) (hrun : x.state = .running)
    (h : Performs exec i n w ((if io.tty then
        [Frame.sys (.insertIo id io), .crit (.persistPid id pid), .sys (.spawnReaper id q)]
      else [.sys .dupPipes, .sys (.insertIo id io), .crit (.persistPid id pid),
        .sys (.spawnReaper id q)]) ++ [Frame.ret .unit]) tr w' cs res) :
    Launches id w' tr res := by
  have hinsert {tr : List (Frame × Oracle)} (h : Performs exec i n w [.sys (.insertIo id io),
      .crit (.persistPid id pid), .sys (.spawnReaper id q), .ret .unit] tr w' cs res) :
      Launches id w' tr res := by
    obtain ⟨o, tr₁, rfl, hpersist⟩ := performs_next h
      fun _ => (rfl : exec _ _ _ _ _ = some (_, .next []))
    have hpid := performs_persistPid (w := { w with ioTable := w.ioTable.insert id io }) hx hid hrun
      hpersist
    exact hpid.cons (.inl rfl)
  split at h
  · exact hinsert h
  · obtain ⟨o, tr₁, rfl, ⟨hdone, rfl, -⟩ | ⟨w₁, fs, hgoes, hrest⟩ | ⟨w₁, tag, child, cs', hforks, -⟩⟩ :=
      performs_cons h
    · rw [exec_sys, Sys.exec] at hdone
      split at hdone
      · cases hdone
      · rename_i e hfault
        cases hdone
        exact .inl ⟨by simp [Frame.writes, hfault], ⟨_, rfl⟩, x, hx, hrun⟩
    · rw [exec_sys, Sys.exec] at hgoes
      split at hgoes
      · rename_i hfault
        cases hgoes
        exact (hinsert hrest).cons (.inr hfault)
      · cases hgoes
    · rw [exec_sys, Sys.exec] at hforks
      split at hforks <;> cases hforks

/-- A start that has been spoilt after its intent. -/
theorem not_clean_of_running {s s' : State} {id : ContainerId} {r x : ContainerRecord} {e : BackendError}
    (hr : s.shared.cache.containers[id]? = some r) (hcreated : r.state = .created)
    (hx : s'.shared.cache.containers[id]? = some x) (hrun : x.state = .running) :
    ¬ Clean s s' (.startContainer id) tr (.error e) := by
  intro hclean
  rcases hclean.1 (.container id) with ⟨hsame, -⟩ | ⟨id', _, _, _, y, hstart, hob, -, -, hexited, hget, -⟩
  · rw [get_container.mpr hr, get_container.mpr hx] at hsame
    obtain rfl := DiskRecord.container.inj (Option.some.inj hsame)
    rw [hcreated] at hrun
    cases hrun
  · obtain rfl := Obj.container.inj hob
    rw [get_container.mpr hx] at hget
    obtain rfl := DiskRecord.container.inj (Option.some.inj hget)
    rw [hexited] at hrun
    cases hrun

/-- A spawn that fails, after the intent `x` has been written. -/
theorem clean_of_spawnFailed {s s' : State} {id : ContainerId} {r x : ContainerRecord} {e : String}
    {e' : BackendError} {io : ContainerIo} {o : Oracle} {r' : Result}
    (hr : s.shared.cache.containers[id]? = some r) (hcreated : r.state = .created)
    (hid : x.id = id) (hrun : x.state = .running)
    (hcache : w.cache = s.shared.cache.setContainer id x)
    (hload : ∀ ob, w.disk.load ob = if ob = .container id then some (.container x)
      else s.shared.disk.load ob)
    (hprocs : w.procs = s.shared.procs) {tr₀ : List (Frame × Oracle)} (htr₀ : Sure Frame.writes tr₀)
    (hspawn : (.sys (.spawn id io), o) ∈ tr₀ ∧ o.spawn = .error e)
    (h : Performs exec i n w [.crit (.spawnFailed id e), .fail e', .ret .unit] tr s'.shared cs r') :
    Clean s s' (.startContainer id) (tr₀ ++ tr) r' ↔ Sure Frame.writes (tr₀ ++ tr) := by
  have hx : w.cache.containers[id]? = some x := by
    rw [hcache, containers_setContainer, if_pos rfl]
  have hex (o : Oracle) : (Crit.spawnFailed id e).exec i o w =
      (w.setContainer id { x.toExited o.clock (-1) "spawn-failed" with message := e },
        .next [.file (.write (.container
          { x.toExited o.clock (-1) "spawn-failed" with message := e }) false)]) := by
    simp only [Crit.exec, hx]
  obtain ⟨o₁, tr₁, rfl, hwrite⟩ := performs_crit_next h hex
  generalize hy : { x.toExited o₁.clock (-1) "spawn-failed" with message := e } = y at hwrite
  have hexited : y.state = .exited := hy ▸ rfl
  have hyid : (DiskRecord.container y).obj = .container id := by
    rw [← hy]
    exact congrArg Obj.container hid
  have hget (ob : Obj) : (w.setContainer id y).cache.get ob =
      if ob = .container id then some (.container y) else s.shared.cache.get ob := by
    rw [World.setContainer, hcache, Cache.get_setContainer, Cache.get_setContainer]
    split <;> rfl
  obtain ⟨d, tr₁, tr₂, rfl, hwriting, ⟨hsure, hload', hfail⟩ |
    ⟨hfault, hload', ⟨htrue, -⟩ | ⟨-, hfail⟩⟩⟩ := performs_write hwrite
  · obtain ⟨o₂, rfl, hw, -, rfl⟩ := performs_halt hfail fun _ => exec_fail e'
    refine iff_of_true ⟨fun ob => ?_, fun q p hq hp => ?_⟩ ?_
    · by_cases hob : ob = .container id
      · refine .inr ⟨id, io, o, e, y, rfl, hob, by simp [hspawn.1], hspawn.2, hexited, ?_, ?_⟩
        · rw [hw, hget, if_pos hob]
        · rw [hw, hload', if_pos (hob.trans hyid.symm)]
      · refine .inl ⟨by rw [hw, hget, if_neg hob], ?_⟩
        rw [hw, hload', if_neg fun h => hob (h.trans hyid)]
        exact (hload ob).trans (if_neg hob)
    · have hlt := (List.getElem?_eq_some_iff.mp hp).1
      have hlen : s'.shared.procs.length = s.shared.procs.length := by
        rw [hw, ← hprocs]
        rfl
      omega
    · simp [htr₀, hsure, Frame.writes]
  · cases htrue
  · obtain ⟨o₂, rfl, hw, -, rfl⟩ := performs_halt hfail fun _ => exec_fail e'
    refine iff_of_false (fun hclean => ?_) fun hsure => ?_
    · rcases hclean.1 (.container id) with ⟨hsame, -⟩ | ⟨_, _, _, _, z, -, -, -, -, hz, -, hzload⟩
      · rw [hw, hget, if_pos rfl, get_container.mpr hr] at hsame
        rw [DiskRecord.container.inj (Option.some.inj hsame), hcreated] at hexited
        cases hexited
      · rw [hw, hload'] at hzload
        obtain rfl := DiskRecord.container.inj (Option.some.inj
          (((hload (.container id)).trans (if_pos rfl)).symm.trans hzload))
        rw [hrun] at hz
        cases hz
    · exact hfault (sure_append.mp (sure_cons.mp (sure_append.mp hsure).2).2).1

/-- `start_container`, from the write of its intent `x` on. -/
theorem clean_of_intent {s s' : State} {id : ContainerId} {r x : ContainerRecord} {io : ContainerIo}
    {r' : Result} (hr : s.shared.cache.containers[id]? = some r) (hcreated : r.state = .created)
    (hid : x.id = id) (hrun : x.state = .running)
    (hcache : w.cache = s.shared.cache.setContainer id x) (hdisk : w.disk = s.shared.disk)
    (hprocs : w.procs = s.shared.procs) {tr₀ : List (Frame × Oracle)} (htr₀ : Sure Frame.writes tr₀)
    (h : Performs exec i n w [.file (.write (.container x) true), .sys (.spawn id io), .ret .unit] tr
      s'.shared cs r') :
    Clean s s' (.startContainer id) (tr₀ ++ tr) r' ↔ Sure Frame.writes (tr₀ ++ tr) := by
  have hx : w.cache.containers[id]? = some x := by
    rw [hcache, containers_setContainer, if_pos rfl]
  have hobj : (DiskRecord.container x).obj = .container id := congrArg Obj.container hid
  obtain ⟨d, tr₁, tr₂, rfl, hwriting, ⟨hsure, hload, hspawn⟩ |
    ⟨hfault, -, ⟨-, ⟨e, rfl⟩, hw, rfl, -⟩ | ⟨hfalse, -⟩⟩⟩ := performs_write h
  · rw [hobj, hdisk] at hload
    obtain ⟨o, tr₃, rfl, ⟨hdone, -⟩ | ⟨w₁, fs, hgoes, hrest⟩ | ⟨w₁, tag, child, cs', hforks, -⟩⟩ :=
      performs_cons hspawn
    · rw [exec_sys, Sys.exec] at hdone
      split at hdone
      · cases (Prod.mk.inj (Option.some.inj hdone)).2
      · split at hdone
        · cases (Prod.mk.inj (Option.some.inj hdone)).2
        · cases hdone
    · have htr₁ : Sure Frame.writes (tr₀ ++ (tr₁ ++ [(Frame.sys (.spawn id io), o)])) := by
        simp [htr₀, hsure, Frame.writes]
      have htr : tr₀ ++ (tr₁ ++ (Frame.sys (.spawn id io), o) :: tr₃) =
          tr₀ ++ (tr₁ ++ [(Frame.sys (.spawn id io), o)]) ++ tr₃ := by simp
      rw [htr]
      rw [exec_sys, Sys.exec] at hgoes
      split at hgoes
      · rename_i e hfails
        cases hgoes
        have hmem : (Frame.sys (.spawn id io), o) ∈
            tr₀ ++ (tr₁ ++ [(Frame.sys (.spawn id io), o)]) := by simp
        exact clean_of_spawnFailed (w := { w with disk := d }) hr hcreated hid hrun hcache hload hprocs
          htr₁ ⟨hmem, hfails⟩ hrest
      · split at hgoes
        · cases hgoes
          have hlaunches : Launches id s'.shared tr₃ r' := by
            refine performs_spawned ?_ hid hrun hrest
            exact hx
          rcases hlaunches with ⟨hfault, ⟨e, rfl⟩, y, hy, hrun'⟩ | ⟨hsure', rfl, hagrees⟩
          · refine iff_of_false (not_clean_of_running hr hcreated hy hrun') fun hsure => ?_
            exact hfault (sure_append.mp hsure).2
          · refine iff_of_true (fun ob hob => ?_) (sure_append.mpr ⟨htr₁, hsure'⟩)
            obtain rfl : ob = .container id := hob
            exact hagrees
        · cases hgoes
    · rw [exec_sys, Sys.exec] at hforks
      split at hforks
      · cases (Prod.mk.inj (Option.some.inj hforks)).2
      · split at hforks
        · cases (Prod.mk.inj (Option.some.inj hforks)).2
        · cases hforks
  · refine iff_of_false ?_ fun hsure => hfault (sure_append.mp (sure_append.mp hsure).2).1
    refine not_clean_of_running hr hcreated ?_ hrun
    rw [hw]
    exact hx
  · cases hfalse

/-- What a start does before its intent. -/
theorem exec_prepare (id : ContainerId) (r : ContainerRecord) (info : SandboxInfo) (o : Oracle) :
    ∃ m, (Sys.prepare id r info).exec o w = some ({ w with rootFiles := m },
      o.prepareError.elim
        (.next [.crit (.startIntent id), .sys (.spawn id ⟨r.config.tty, r.config.stdin⟩)])
        fun e => .halt (.error e)) := by
  simp only [Sys.exec]
  cases info.dns <;> cases o.fault <;> cases o.prepareError <;> exact ⟨_, rfl⟩

/-- `start_container`. -/
theorem clean_startContainer {s s' : State} {id : ContainerId} {r' : Result}
    (hk : s.shared.cache.Keyed)
    (h : Performs exec i n s.shared (Call.startContainer id).frames tr s'.shared cs r') :
    Clean s s' (.startContainer id) tr r' ↔ Sure Frame.writes tr := by
  have hrefused (e : BackendError) {tr : List (Frame × Oracle)} (hw : s'.shared.cache = s.shared.cache)
      (hload : s'.shared.disk = s.shared.disk) (hprocs : s'.shared.procs = s.shared.procs)
      (htr : Sure Frame.writes tr) :
      Clean s s' (.startContainer id) tr (.error e) ↔ Sure Frame.writes tr :=
    iff_of_true (clean_error e hw (by rw [hload]) hprocs) htr
  obtain ⟨o, tr₁, rfl, -, hcheck⟩ := performs_crit h
  cases hr : s.shared.cache.containers[id]? with
  | none =>
    simp only [Crit.exec, hr] at hcheck
    obtain ⟨fs, hfs, -⟩ | ⟨hhalt, hw, rfl, -⟩ := hcheck
    · cases hfs
    · cases hhalt
      exact hrefused _ (by rw [hw]) (by rw [hw]) (by rw [hw]) (by simp [Frame.writes])
  | some r =>
    by_cases hcreated : r.state = .created
    · simp only [Crit.exec, hr, hcreated, if_true] at hcheck
      obtain ⟨fs, hfs, hfetch⟩ | ⟨hhalt, -⟩ := hcheck
      · cases hfs
        obtain ⟨o₁, tr₂, rfl, hprepare⟩ := performs_crit_next hfetch fun _ => rfl
        obtain ⟨o₂, tr₃, rfl, -, hnext, hhalt⟩ := performs_top hprepare
        obtain ⟨m, hm⟩ := @exec_prepare s.shared id r _ o₂
        cases herror : o₂.prepareError with
        | some e =>
          rw [herror] at hm
          obtain ⟨hw, rfl, rfl, -⟩ := hhalt _ _ hm
          exact hrefused _ (by rw [hw]) (by rw [hw]) (by rw [hw]) (by simp [Frame.writes])
        | none =>
          rw [herror] at hm
          have hintent := hnext _ _ hm
          have hex (o : Oracle) :
              (Crit.startIntent id).exec i o { s.shared with rootFiles := m } =
                (World.setContainer { s.shared with rootFiles := m } id (r.starting o.clock),
                  .next [.file (.write (.container (r.starting o.clock)) true)]) := by
            simp only [Crit.exec, hr, ContainerRecord.starting]
          obtain ⟨o₃, tr₄, rfl, hwrite⟩ := performs_crit_next hintent hex
          have htr₀ (info : SandboxInfo) : Sure Frame.writes [(.crit (.startContainer id), o),
              (.crit (.fetchSandbox id r), o₁), (.sys (.prepare id r info), o₂),
              (.crit (.startIntent id), o₃)] := by
            simp [Frame.writes]
          have hid := hk.container hr
          exact clean_of_intent (x := r.starting o₃.clock)
            (w := World.setContainer { s.shared with rootFiles := m } id (r.starting o₃.clock))
            hr hcreated hid rfl rfl rfl rfl (htr₀ _) hwrite
      · cases hhalt
    · simp only [Crit.exec, hr, hcreated, if_false] at hcheck
      obtain ⟨fs, hfs, -⟩ | ⟨hhalt, hw, rfl, -⟩ := hcheck
      · cases hfs
      · cases hhalt
        exact hrefused _ (by rw [hw]) (by rw [hw]) (by rw [hw]) (by simp [Frame.writes])

/-! ## The calls that create -/

section Issues

variable {s s' : State} {c : Call} {r : Result}

/-- A record that is written before it is inserted. -/
theorem clean_of_issue {x : DiskRecord} {v : Value}
    (hcache : w.cache = s.shared.cache) (hdisk : w.disk = s.shared.disk)
    (hprocs : w.procs = s.shared.procs) (hreports : ∀ ob, c.reports s.shared v ob → ob = x.obj)
    (h : Performs exec i n w [.file (.write x true), .crit x.insert, .ret v] tr s'.shared cs r)
    (tr₀ : List (Frame × Oracle)) : Clean s s' c (tr₀ ++ tr) r := by
  obtain ⟨d, tr₁, tr₂, rfl, -, ⟨-, hload, hinsert⟩ | ⟨-, hload, ⟨-, ⟨e, rfl⟩, hw, -⟩ | ⟨hfalse, -⟩⟩⟩ :=
    performs_write h
  · have hex (o : Oracle) : x.insert.exec i o { w with disk := d } =
        ({ w with cache := w.cache.put x, disk := d }, .next []) := by
      cases x <;> rfl
    obtain ⟨o, tr₂, rfl, hret⟩ := performs_crit_next hinsert hex
    obtain ⟨o₁, rfl, hw, -, rfl⟩ := performs_ret hret
    intro ob hob
    rw [hreports ob hob, Agrees, hw, hload, if_pos rfl, Cache.get_put, if_pos rfl]
  · refine clean_error e ?_ ?_ ?_
    · rw [hw, ← hcache]
    · rw [hw, ← hdisk]
      exact hload
    · rw [hw, ← hprocs]
  · cases hfalse

theorem exec_runSandbox_cases (cfg : SandboxConfig) (o : Oracle) :
    (∃ e, (Sys.runSandbox cfg).exec o w =
        some ({ w with counter := w.counter + 1 }, .halt (.error e))) ∨
      ∃ x, (Sys.runSandbox cfg).exec o w = some ({ w with counter := w.counter + 1 },
        .next [.file (.write (.sandbox x) true), .crit (.insertSandbox x), .ret (.sandbox x.id)]) := by
  simp only [Sys.exec]
  split
  · exact .inl ⟨_, rfl⟩
  · exact .inr ⟨_, rfl⟩

theorem clean_runSandbox {cfg : SandboxConfig}
    (h : Performs exec i n s.shared (Call.runSandbox cfg).frames tr s'.shared cs r) :
    Clean s s' (.runSandbox cfg) tr r := by
  obtain ⟨o, tr₁, rfl, -, hnext, hhalt⟩ := performs_top h
  rcases @exec_runSandbox_cases s.shared cfg o with ⟨e, he⟩ | ⟨x, hx⟩
  · obtain ⟨hw, rfl, -⟩ := hhalt _ _ he
    exact clean_error e (by rw [hw]) (by rw [hw]) (by rw [hw])
  · refine clean_of_issue (x := .sandbox x) (w := { s.shared with counter := s.shared.counter + 1 })
      rfl rfl rfl ?_ (hnext _ _ hx) [_]
    exact fun ob hob => hob

theorem clean_createContainer {sb : SandboxId} {cfg : ContainerConfig}
    (h : Performs exec i n s.shared (Call.createContainer sb cfg).frames tr s'.shared cs r) :
    Clean s s' (.createContainer sb cfg) tr r := by
  obtain ⟨o, tr₁, rfl, -, hcheck⟩ := performs_crit h
  have hrefused {e : BackendError} (hhalt : (s.shared, (Outcome.halt (.error e) : Out)).2 = .halt r)
      (hw : s'.shared = s.shared) : Clean s s' (.createContainer sb cfg)
        ((.crit (.createContainer sb cfg), o) :: tr₁) r := by
    obtain rfl := Outcome.halt.inj hhalt
    exact clean_error _ (by rw [hw]) (by rw [hw]) (by rw [hw])
  simp only [Crit.exec] at hcheck
  split at hcheck
  · obtain ⟨fs, hfs, -⟩ | ⟨hhalt, hw, -⟩ := hcheck
    · cases hfs
    · exact hrefused hhalt hw
  · split at hcheck
    · obtain ⟨fs, hfs, hrest⟩ | ⟨hhalt, -⟩ := hcheck
      · cases hfs
        obtain ⟨o₁, tr₂, rfl, -, hnext, -⟩ := performs_top hrest
        refine clean_of_issue (x := .container _)
          (w := { s.shared with counter := s.shared.counter + 1 }) rfl rfl rfl ?_ (hnext _ _ rfl) [_, _]
        exact fun ob hob => hob
      · cases hhalt
    · obtain ⟨fs, hfs, -⟩ | ⟨hhalt, hw, -⟩ := hcheck
      · cases hfs
      · exact hrefused hhalt hw

theorem clean_pullImage {ref : String}
    (h : Performs exec i n s.shared (Call.pullImage ref).frames tr s'.shared cs r) :
    Clean s s' (.pullImage ref) tr r := by
  obtain ⟨o, tr₁, rfl, -, hnext, hhalt⟩ := performs_top h
  by_cases hinvalid : ref = "" ∨ ref.toList.any isAsciiWhitespace
  · obtain ⟨hw, rfl, -⟩ := hhalt _ _ (if_pos hinvalid)
    exact clean_error _ (by rw [hw]) (by rw [hw]) (by rw [hw])
  · refine clean_of_issue (x := .image (imageRecord s.shared.blake3 ref)) (w := s.shared)
      rfl rfl rfl ?_ (hnext _ _ (if_neg hinvalid)) [_]
    exact fun ob hob => hob

end Issues

/-! ## Every call -/

/-- Every record of a run is kept under its own id, also after restarts. -/
theorem keyed_run {listener : Nat} {blake3 : String → String} {ls : List Label} {s : State}
    (hrun : run step (init listener blake3) ls = some s) : s.shared.cache.Keyed := by
  suffices hinv : s.shared.cache.Keyed ∧ ∀ t ∈ s.tasks, ∃ d, Stack d t.frames from hinv.1
  refine invariant_run (P := fun _ _ => True)
    (I := fun s : State => s.shared.cache.Keyed ∧ ∀ t ∈ s.tasks, ∃ d, Stack d t.frames) ?_ ?_
    (Along.trivial _ _) hrun
  · rintro s l s' ⟨hk, hduties⟩ - hstep
    cases l with
    | invoke c =>
      obtain rfl := Option.some.inj hstep
      refine ⟨hk, fun t ht => ?_⟩
      rcases Pool.mem_tasks_start.mp ht with ht | rfl
      · exact hduties t ht
      · exact ⟨_, .plain _ fun f hf => (plain_callFrames c f hf).1⟩
    | step i o =>
      obtain ⟨t, f, k, out, hadv⟩ := Pool.advance_eq_some hstep
      obtain ⟨d, hd⟩ := hduties t hadv.mem
      obtain ⟨d', hd', hch⟩ := hd.step hadv.frames hk hadv.exec
      refine ⟨hch.keyed hk, hadv.forall_tasks hduties (fun _ => ⟨d', hd'⟩) (fun _ h => h) ?_⟩
      intro _ u hu
      obtain ⟨id, q, -, rfl⟩ := children_reaper hadv hu
      exact ⟨.none, .plain _ (by simp [Frame.plain])⟩
    | exit q st =>
      obtain ⟨p, -, rfl⟩ := step_exit hstep
      exact ⟨hk, hduties⟩
    | foreign pid =>
      obtain ⟨-, -, rfl⟩ := step_foreign hstep
      exact ⟨hk, hduties⟩
    | restart rs =>
      obtain rfl := Option.some.inj hstep
      refine ⟨fun ob r hr => ?_, fun _ ht => absurd ht List.not_mem_nil⟩
      cases ob with
      | sandbox id =>
        obtain ⟨x, hx, rfl⟩ := Option.map_eq_some_iff.mp hr
        obtain ⟨-, -, -, rfl⟩ := mem_of_rebuild hx
        rfl
      | container id =>
        obtain ⟨x, hx, rfl⟩ := Option.map_eq_some_iff.mp hr
        obtain ⟨-, -, -, rfl⟩ := mem_of_rebuild hx
        rfl
      | image id =>
        obtain ⟨x, hx, rfl⟩ := Option.map_eq_some_iff.mp hr
        obtain ⟨-, -, -, rfl⟩ := mem_of_rebuild hx
        rfl
  · exact ⟨by simp [init, Cache.Keyed], by simp [init]⟩

/-- The image that is found is under its own id. -/
theorem isSome_imageNamed (hk : w.cache.Keyed) {ref : String} {img : ImageDiskRecord}
    (himg : w.cache.imageNamed ref = some img) : (w.cache.get (.image img.id)).isSome := by
  obtain ⟨id, hid⟩ := mem_values.mp (Cache.imageNamed_mem himg).1
  have hget : w.cache.get (.image id) = some (.image img) := by simp [Cache.get, hid]
  obtain rfl : img.id = id := by simpa using hk _ _ hget
  rw [hget]
  rfl

/-- `remove_image`, up to its return. -/
theorem performs_removeImage {ref : String} (hk : w.cache.Keyed)
    (hrefused : ¬ (Call.removeImage ref).refused w)
    (h : Performs exec i n w (.crit (.findImage ref) :: k) tr w' cs res) :
    Passes i n w k tr w' cs res
      (Removed (fun ob => ∃ img, w.cache.imageNamed ref = some img ∧ ob = .image img.id) w) := by
  obtain ⟨o, tr₁, rfl, hfind⟩ := performs_crit_next h fun o => @exec_findImage i o w ref
  cases himg : w.cache.imageNamed ref with
  | none =>
    rw [himg] at hfind
    exact .inl ⟨w, [_], tr₁, rfl, .still (by simp) (smooth_nil.cons rfl fun _ => rfl), hfind⟩
  | some img =>
    rw [himg] at hfind
    have hunused : w.cache.userOf ref = none := by
      cases huser : w.cache.userOf ref with
      | none => rfl
      | some x => exact absurd ⟨by rw [himg]; rfl, by rw [huser]; rfl⟩ hrefused
    have hsome := isSome_imageNamed hk himg
    have hex (o : Oracle) : (Crit.checkImageInUse ref img.id).exec i o w =
        (w, .next [.crit (.dropImage img.id)]) := by
      rw [exec_checkImageInUse, hunused]
      rfl
    obtain ⟨o₁, tr₂, rfl, hcheck⟩ := performs_crit_next hfind hex
    obtain ⟨o₂, tr₃, rfl, hdrop⟩ := performs_crit_next hcheck fun _ => rfl
    obtain ⟨o₃, tr₄, rfl, hrest⟩ := performs_unlink hdrop
    have hsettled : w.stopWrites (.image img.id) = false := by
      rw [World.stopWrites, Option.any_eq_false]
      intro r hr
      have hob := hk _ _ hr
      cases r <;> simp at hob
      rfl
    have hremoved := removed_unlink (o := o₃) hsome hsettled
      (v := { w with
        cache := w.cache.eraseImage img.id
        disk := if o₃.fault = none then
          w.disk.unlink (Obj.image img.id).subdir (Obj.image img.id).file else w.disk }) rfl rfl
    refine .inl ⟨_, [_, _, _, _], tr₄, rfl, ?_, hrest⟩
    refine (((hremoved.cons rfl fun _ => rfl).cons rfl fun _ => rfl).cons rfl fun _ => rfl).congr
      fun ob => ?_
    simp

/-- `remove_image` refuses, and changes nothing. -/
theorem clean_of_refused {s s' : State} {ref : String} {r : Result}
    (hrefused : (Call.removeImage ref).refused s.shared)
    (h : Performs exec i n s.shared (Call.removeImage ref).frames tr s'.shared cs r) :
    Clean s s' (.removeImage ref) tr r ∧ Sure Frame.writes tr := by
  obtain ⟨himg, huser⟩ := hrefused
  obtain ⟨img, himg⟩ := Option.isSome_iff_exists.mp himg
  obtain ⟨x, huser⟩ := Option.isSome_iff_exists.mp huser
  obtain ⟨o, tr₁, rfl, hfind⟩ := performs_crit_next h fun o => @exec_findImage i o s.shared ref
  rw [himg] at hfind
  obtain ⟨o₁, tr₂, rfl, -, hcheck⟩ := performs_crit hfind
  rw [exec_checkImageInUse, huser] at hcheck
  obtain ⟨fs, hfs, -⟩ | ⟨hhalt, hw, rfl, -⟩ := hcheck
  · cases hfs
  · cases hhalt
    exact ⟨clean_error _ (by rw [hw]) (by rw [hw]) (by rw [hw]), by simp [Frame.writes]⟩

theorem takes_removeSandbox (hk : w.cache.Keyed) (id : SandboxId) (ob : Obj) :
    (Call.removeSandbox id).takes w ob ↔ w.cache.heldBy id ob ∧ (w.cache.get ob).isSome := by
  unfold Call.takes Cache.heldBy
  constructor
  · rintro ⟨hsome, rfl | ⟨r, hr, hparent⟩⟩
    · exact ⟨⟨hsome, .inl rfl⟩, hsome⟩
    · refine ⟨⟨hsome, .inr ?_⟩, by rw [hr]; rfl⟩
      cases r with
      | container x =>
        have hob := hk _ _ hr
        rw [DiskRecord.obj_container] at hob
        subst hob
        exact ⟨x.id, (mem_containersOf hk).mpr ⟨x, hr, Option.some.inj hparent⟩, rfl⟩
      | sandbox x => cases hparent
      | image x => cases hparent
  · rintro ⟨⟨hsome, rfl | ⟨cid, hcid, rfl⟩⟩, -⟩
    · exact ⟨hsome, .inl rfl⟩
    · obtain ⟨x, hx, hsb⟩ := (mem_containersOf hk).mp hcid
      exact ⟨hsome, .inr ⟨_, hx, congrArg some hsb⟩⟩

/-- **A call leaves no trace of a failure** exactly if its failures are harmless. -/
theorem call_clean_iff {s s' : State} {c : Call} {r : Result} (hk : s.shared.cache.Keyed)
    (h : Returns s c tr s' r) : Clean s s' c tr r ↔ FaultsHarmless s.shared tr c := by
  obtain ⟨cs, -, hperf⟩ := h
  cases c with
  | runSandbox cfg => exact iff_of_true (clean_runSandbox hperf) trivial
  | createContainer sb cfg => exact iff_of_true (clean_createContainer hperf) trivial
  | pullImage ref => exact iff_of_true (clean_pullImage hperf) trivial
  | startContainer id => exact clean_startContainer hk hperf
  | stopSandbox id =>
    exact clean_of_stops (by simp) (fun _ => Iff.rfl) (performs_stopSandbox hk hperf)
  | stopContainer id grace =>
    exact clean_of_stops (by simp) (fun _ => Iff.rfl) (performs_stopContainer hk hperf)
  | removeSandbox id =>
    exact clean_of_removed (by simp) (fun h => h) (takes_removeSandbox hk id)
      (performs_removeSandbox hk hperf)
  | removeContainer id =>
    exact clean_of_removed (by simp) (fun h => h) (fun _ => Iff.rfl)
      (performs_removeContainer hk hperf)
  | removeImage ref =>
    by_cases hrefused : (Call.removeImage ref).refused s.shared
    · obtain ⟨hclean, hsure⟩ := clean_of_refused hrefused hperf
      exact iff_of_true hclean ⟨hsure, .inl hrefused⟩
    · refine clean_of_removed (by simp) hrefused (fun ob => ⟨fun htakes => ⟨htakes, ?_⟩, And.left⟩)
        (performs_removeImage hk hrefused hperf)
      obtain ⟨img, himg, rfl⟩ := htakes
      exact isSome_imageNamed hk himg

end LightrCri.Fake

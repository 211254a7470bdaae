import LightrCri.Fake.Machine

/-!
# Executing one frame

What the frames of each kind do, without unfolding `exec`: a critical section needs the lock
(`exec_crit_eq_some`), an effect on the files leaves the cache and the processes alone
(`FileOp.exec_cache_procs`) and goes on with its rename, or with an error, and only the step that
spawns a reaper starts a task (`exec_fork`). `podRun` is a run that later modules start from.
-/

namespace LightrCri.Fake

open Backend Foundations

/-- No client call is in flight. -/
def NoCall (s : State) : Prop := ∀ t ∈ s.tasks, t.tag.isCall → t.frames = []

instance (s : State) : Decidable (NoCall s) := by
  unfold NoCall
  infer_instance

variable {self n : Nat} {o : Oracle} {w w' : World} {out : Out}

/-- An effect on the files changes nothing but the files. -/
theorem FileOp.exec_eq (o : Oracle) (w : World) (f : FileOp) :
    (f.exec o w).1 = { w with disk := (f.exec o w).1.disk } := by
  cases f with
  | write r strict =>
    simp only [FileOp.exec]
    split
    · rfl
    · split <;> rfl
  | rename p n r strict =>
    simp only [FileOp.exec]
    split <;> rfl
  | unlink ob =>
    simp only [FileOp.exec]
    split <;> rfl

theorem FileOp.exec_cache_procs (o : Oracle) (w : World) (f : FileOp) :
    (f.exec o w).1.cache = w.cache ∧ (f.exec o w).1.procs = w.procs := by
  rw [f.exec_eq o w]
  exact ⟨rfl, rfl⟩

/-- Why a file was not written: the file operation failed, or the temporary file was gone. -/
def Lost (o : Oracle) (f : Frame) (w : World) : Prop :=
  (o.fault.isSome ∧ ∃ g, f = .file g) ∨ ∃ p n r strict, f = .file (.rename p n r strict) ∧
    w.disk.read r.obj.subdir (tmpName p n) = none

/-- What a write does: the temporary file is there and will be renamed, or the write is given
up. -/
theorem FileOp.exec_write_cases (o : Oracle) (w : World) (r : DiskRecord) (strict : Bool) :
    ((FileOp.write r strict).exec o w).1.disk =
          w.disk.put r.obj.subdir (tmpName w.listener o.tmpNanos) (.whole r) ∧
        ((FileOp.write r strict).exec o w).2 =
          .next [.file (.rename w.listener o.tmpNanos r strict)] ∨
      o.fault.isSome ∧
        (((FileOp.write r strict).exec o w).1.disk = w.disk ∨
          ((FileOp.write r strict).exec o w).1.disk =
            w.disk.put r.obj.subdir (tmpName w.listener o.tmpNanos) .torn) ∧
        ∃ e, ((FileOp.write r strict).exec o w).2 = ioError strict e := by
  simp only [FileOp.exec]
  split
  · exact Or.inl ⟨rfl, rfl⟩
  · rename_i e he
    refine Or.inr ⟨by rw [he]; rfl, ?_, e, rfl⟩
    split
    · exact Or.inr rfl
    · exact Or.inl rfl

/-- What a rename does: the file is there, or the write is given up. -/
theorem FileOp.exec_rename_cases (o : Oracle) (w : World) (p n : Nat) (r : DiskRecord)
    (strict : Bool) :
    w.disk.rename r.obj.subdir (tmpName p n) r.obj.file =
          some ((FileOp.rename p n r strict).exec o w).1.disk ∧
        ((FileOp.rename p n r strict).exec o w).2 = .next [] ∨
      Lost o (.file (.rename p n r strict)) w ∧
        ((FileOp.rename p n r strict).exec o w).1.disk = w.disk ∧
        ∃ e, ((FileOp.rename p n r strict).exec o w).2 = ioError strict e := by
  simp only [FileOp.exec]
  split
  · rename_i d _ hd
    exact Or.inl ⟨hd, rfl⟩
  · rename_i _ hd
    refine Or.inr ⟨Or.inr ⟨p, n, r, strict, rfl, ?_⟩, rfl, _, rfl⟩
    simpa [Disk.rename] using hd
  · rename_i he
    exact Or.inr ⟨Or.inl ⟨by rw [he]; rfl, _, rfl⟩, rfl, _, rfl⟩

theorem pushed_ioError (strict : Bool) (e : String) : (ioError strict e).pushed = [] := by
  cases strict <;> rfl

/-- An effect on the files goes on with effects on the files. -/
theorem FileOp.pushed_file {f : FileOp} {g : Frame} (h : g ∈ (f.exec o w).2.pushed) :
    ∃ f', g = .file f' := by
  cases f with
  | write r strict =>
    rcases FileOp.exec_write_cases o w r strict with ⟨-, he⟩ | ⟨-, -, e, he⟩ <;> rw [he] at h
    · exact ⟨_, List.mem_singleton.mp h⟩
    · simp [pushed_ioError] at h
  | rename p n r strict =>
    rcases FileOp.exec_rename_cases o w p n r strict with ⟨-, he⟩ | ⟨-, -, e, he⟩ <;> rw [he] at h
    · simp [Outcome.pushed] at h
    · simp [pushed_ioError] at h
  | unlink ob =>
    simp only [FileOp.exec] at h
    split at h <;> simp [Outcome.pushed] at h

theorem exec_file_eq_some {f : FileOp} :
    exec self n o (.file f) w = some (w', out) ↔ (f.exec o w).1 = w' ∧ (f.exec o w).2 = out := by
  simp only [exec, Option.some.injEq, Prod.ext_iff]

theorem exec_crit_eq_some {c : Crit} :
    exec self n o (.crit c) w = some (w', out) ↔
      w.lock = none ∧ c.exec self o w = (w', out) := by
  simp only [exec, Option.ite_none_right_eq_some, Option.some.injEq]

@[simp] theorem exec_sys (s : Sys) :
    exec self n o (.sys s) w = s.exec o w := rfl

/-- Only an effect on the files changes them. -/
theorem exec_disk (hex : exec self n o f w = some (w', out)) (hf : ∀ g, f ≠ .file g) :
    w'.disk = w.disk := by
  cases f with
  | crit c =>
    obtain ⟨-, hc⟩ := exec_crit_eq_some.mp hex
    have hdisk : (c.exec self o w).1.disk = w.disk := by
      cases c <;> simp only [Crit.exec] <;> (repeat' split) <;> rfl
    simpa only [hc] using hdisk
  | file g => exact absurd rfl (hf g)
  | sys s =>
    cases s <;> simp only [exec_sys, Sys.exec] at hex <;> (repeat' split at hex)
    all_goals first
      | (obtain ⟨rfl, -⟩ := Prod.mk.inj (Option.some.inj hex)
         rfl)
      | cases hex
  | unlock | ret v | fail e =>
    obtain ⟨rfl, -⟩ := Prod.mk.inj (Option.some.inj hex)
    rfl

@[simp] theorem exec_ret (v : Value) :
    exec self n o (.ret v) w = some (w, .halt (.ok v)) := rfl

@[simp] theorem exec_fail (e : BackendError) :
    exec self n o (.fail e) w = some (w, .halt (.error e)) := rfl

@[simp] theorem exec_unlock :
    exec self n o .unlock w = some ({ w with lock := none }, .next []) := rfl

/-- Only the step that starts its reaper starts a task. -/
theorem exec_fork {f : Frame} {tag : Tag} {child : List Frame}
    (hex : exec self n o f w = some (w', .fork tag child)) :
    ∃ id q, f = .sys (.spawnReaper id q) ∧ tag = .reaper id q ∧ child = [.sys (.wait id q)] := by
  cases f with
  | crit c =>
    obtain ⟨-, hex⟩ := exec_crit_eq_some.mp hex
    exfalso
    cases c <;> simp only [Crit.exec] at hex <;> (repeat' split at hex) <;> simp at hex
  | file f =>
    exfalso
    obtain ⟨-, hex⟩ := exec_file_eq_some.mp hex
    cases f <;> simp only [FileOp.exec, ioError] at hex <;>
      (repeat' split at hex) <;> simp at hex
  | sys s =>
    cases s with
    | spawnReaper id q =>
      simp only [exec_sys, Sys.exec, Option.some.injEq, Prod.mk.injEq, Outcome.fork.injEq] at hex
      exact ⟨id, q, rfl, hex.2.1.symm, hex.2.2.symm⟩
    | _ =>
      exfalso
      simp only [exec_sys, Sys.exec] at hex
      (repeat' split at hex) <;> simp at hex
  | _ => simp at hex

/-- The tasks that a step starts are reapers. -/
theorem children_reaper {s s' : State} {i : Nat} {t : Thread} {f : Frame} {k : List Frame}
    (h : Pool.Advance exec s i o s' t f k out) {u : Thread} (hu : u ∈ out.children) :
    ∃ id q, f = .sys (.spawnReaper id q) ∧ u = ⟨.reaper id q, [.sys (.wait id q)], none⟩ := by
  cases hout : out with
  | next fs => simp [hout] at hu
  | halt r => simp [hout] at hu
  | fork tag child =>
    obtain ⟨id, q, hf, rfl, rfl⟩ := exec_fork (hout ▸ h.exec)
    rw [hout, Outcome.children_fork, List.mem_singleton] at hu
    exact ⟨id, q, hf, hu⟩

theorem step_exit {s s' : State} {q : Nat} {st : WaitStatus}
    (h : step s (.exit q st) = some s') :
    ∃ p, s.shared.procs[q]? = some p ∧
      s' = { s with shared := { s.shared with procs := s.shared.procs.set q (p.exit st) } } := by
  simp only [step] at h
  split at h
  · simp at h
  · rename_i p hp
    exact ⟨p, hp, (Option.some.inj h).symm⟩

theorem step_foreign {s s' : State} {pid : Nat} (h : step s (.foreign pid) = some s') :
    0 < pid ∧ s.shared.pidAlive pid = false ∧
      s' = { s with
        shared := { s.shared with procs := s.shared.procs ++ [⟨pid, none, false, .alive⟩] } } := by
  simp only [step] at h
  split at h
  · rename_i hpid
    exact ⟨hpid.1, hpid.2, (Option.some.inj h).symm⟩
  · simp at h

/-- A restart reads the files that are there. -/
def ReadsDisk (s : State) : Label → Prop
  | .restart rs => rs.Lists s.shared.disk
  | _ => True

instance (rs : Restart) (d : Disk) : Decidable (rs.Lists d) :=
  decidable_of_iff
    ((rs.listing .sandboxes).Perm ((rs.crash d) .sandboxes).toList ∧
      (rs.listing .containers).Perm ((rs.crash d) .containers).toList ∧
      (rs.listing .images).Perm ((rs.crash d) .images).toList)
    ⟨fun h sub => match sub with
      | .sandboxes => h.1
      | .containers => h.2.1
      | .images => h.2.2,
      fun h => ⟨h _, h _, h _⟩⟩

instance (s : State) (l : Label) : Decidable (ReadsDisk s l) := by
  cases l <;> unfold ReadsDisk <;> infer_instance

/-! ## A first run -/

/-- Task `i` takes `n` steps. -/
def steps (i n : Nat) : List Label := List.replicate n (.step i {})

def podSandbox : SandboxId := ⟨"sb-0-0"⟩

/-- A sandbox is run and a container created in it. -/
def podRun : List Label :=
  .invoke (.runSandbox { name := "pod" }) :: steps 0 5 ++
    .invoke (.createContainer podSandbox { name := "main", imageRef := "img" }) :: steps 1 6

def podContainer : ContainerId := ⟨"ct-0-1"⟩

/-- The state after `podRun`. -/
def podState : State := (run step (init 1 id) podRun).get (by decide)

theorem run_podRun : run step (init 1 id) podRun = some podState :=
  (Option.some_get _).symm

end LightrCri.Fake

import LightrCri.Fake.Effects
import LightrCri.Fake.Ledger

/-!
# Temporary files

`atomic_write` names its temporary file by the process id and a clock reading, so two writes that
are in flight in one directory may use the same file. Then one of the two renames fails, sooner or
later: the state is contended, and stays so as long as every operation succeeds
(`Contended.step`). So a run that comes to a state without contention has moved, with every rename,
the record it was made for, and every temporary file that is left is about to be renamed
(`Owned`).
-/

namespace LightrCri.Fake

open Backend Foundations

/-- All file operations succeed: none reports an error, and every rename finds its file. The write
of the `resolv.conf` is one of them. -/
def opsSucceed (s : State) : Label → Bool
  | .step i o =>
    match s.top i with
    | some (.file (.rename p n r _)) =>
      o.fault.isNone && (s.shared.disk.read r.obj.subdir (tmpName p n)).isSome
    | some (.file _) => o.fault.isNone
    | some (.sys (.prepare _ _ _)) => o.fault.isNone
    | _ => true
  | _ => true

theorem filesSucceed_of_opsSucceed {s : State} {l : Label} (h : opsSucceed s l) :
    filesSucceed s l := by
  cases l with
  | step i o =>
    rw [filesSucceed]
    rw [opsSucceed] at h
    cases htop : s.top i with
    | none => rfl
    | some f =>
      rw [htop] at h
      cases f with
      | file g => cases g <;> simp_all
      | _ => rfl
  | _ => rfl

/-! ## What a step does to the files -/

section Step

variable {self n : Nat} {o : Oracle} {f : Frame} {w w' : World} {out : Out}

/-- What a step whose operations succeed does to the files, and what it goes on with. -/
inductive FileStep (o : Oracle) (f : Frame) (w w' : World) (out : Out) : Prop
  | same (frame : ∀ g, f ≠ .file g) (disk : w'.disk = w.disk)
  | write (r strict) (frame : f = .file (.write r strict))
    (disk : w'.disk = w.disk.put r.obj.subdir (tmpName w.listener o.tmpNanos) (.whole r))
    (next : out = .next [.file (.rename w.listener o.tmpNanos r strict)])
  | rename (p n r strict) (frame : f = .file (.rename p n r strict))
    (disk : w.disk.rename r.obj.subdir (tmpName p n) r.obj.file = some w'.disk)
    (next : out = .next [])
  | unlink (ob) (frame : f = .file (.unlink ob))
    (disk : w'.disk = w.disk.unlink ob.subdir ob.file) (next : out = .next [])

variable {s s' : State} {i : Nat} {t : Thread} {k : List Frame}

theorem exec_fileStep (hadv : Pool.Advance exec s i o s' t f k out)
    (hok : opsSucceed s (.step i o)) : FileStep o f s.shared s'.shared out := by
  have hex := hadv.exec
  cases f with
  | file g =>
    obtain ⟨hw, hout⟩ := exec_file_eq_some.mp hex
    have hfault : o.fault = none := by
      have := filesSucceed_of_opsSucceed hok
      simpa [filesSucceed, hadv.top_eq] using this
    cases g with
    | write r strict =>
      rcases FileOp.exec_write_cases o s.shared r strict with ⟨hd, he⟩ | ⟨hne, -⟩
      · exact .write r strict rfl (hw ▸ hd) (hout ▸ he)
      · rw [hfault] at hne
        cases hne
    | rename p m r strict =>
      rcases FileOp.exec_rename_cases o s.shared p m r strict with ⟨hd, he⟩ | ⟨hlost, -⟩
      · exact .rename p m r strict rfl (hw ▸ hd) (hout ▸ he)
      · have hread : (s.shared.disk.read r.obj.subdir (tmpName p m)).isSome := by
          simpa [opsSucceed, hadv.top_eq, hfault] using hok
        rcases hlost with ⟨hne, -⟩ | ⟨p', m', r', strict', hf, hnone⟩
        · rw [hfault] at hne
          cases hne
        · cases hf
          rw [hnone] at hread
          cases hread
    | unlink ob =>
      simp only [FileOp.exec, hfault] at hw hout
      exact .unlink ob rfl (by rw [← hw]) hout.symm
  | _ => exact .same (by simp) (exec_disk hex (by simp))

end Step

/-! ## Renames in flight -/

/-- The task is about to rename the file `name` of the directory, which it has written for the
record. -/
inductive Moves : Thread → Subdir → String → DiskRecord → Prop
  | intro (t : Thread) (p n r strict k) (frames : t.frames = .file (.rename p n r strict) :: k) :
    Moves t r.obj.subdir (tmpName p n) r

/-- A task is about to rename a file that is not there, or that another task is about to rename
too. -/
def Contended (s : State) : Prop :=
  ∃ (i : Nat) (t : Thread) (sub : Subdir) (name : String) (r : DiskRecord),
    s.tasks[i]? = some t ∧ Moves t sub name r ∧ (s.shared.disk.read sub name = none ∨
      ∃ (j : Nat) (u : Thread) (r' : DiskRecord), j ≠ i ∧ s.tasks[j]? = some u ∧
        Moves u sub name r')

section Steps

variable {s s' : State} {i : Nat} {t : Thread} {o : Oracle} {f : Frame} {k : List Frame}
  {out : Out} {sub : Subdir} {name : String} {r : DiskRecord}

/-- What a task that is about to rename a file executes. -/
theorem Moves.frame (h : Moves t sub name r) (hf : t.frames = f :: k) :
    ∃ p n strict, f = .file (.rename p n r strict) ∧ sub = r.obj.subdir ∧ name = tmpName p n := by
  cases h with
  | intro p n _ strict k' frames =>
    obtain ⟨rfl, -⟩ := List.cons.inj (hf.symm.trans frames)
    exact ⟨p, n, strict, rfl, rfl, rfl⟩

theorem Moves.tmp (h : Moves t sub name r) : ∃ p n, name = tmpName p n := by
  cases h with
  | intro p n => exact ⟨p, n, rfl⟩

/-- A file that is moved away is gone. -/
theorem read_renamed {d d' : Disk} {ob : Obj} {p n : Nat}
    (h : d.rename ob.subdir (tmpName p n) ob.file = some d') :
    d'.read ob.subdir (tmpName p n) = none := by
  rw [Disk.read_rename h, if_neg, if_pos ⟨rfl, rfl⟩]
  exact fun hname => tmpName_ne_fileName p n _ hname.2

/-- A rename leaves the other temporary files alone. -/
theorem read_tmp_rename {d d' : Disk} {ob : Obj} {p n p' n' : Nat}
    (h : d.rename ob.subdir (tmpName p n) ob.file = some d')
    (hne : ¬(sub = ob.subdir ∧ tmpName p' n' = tmpName p n)) :
    d'.read sub (tmpName p' n') = d.read sub (tmpName p' n') := by
  rw [Disk.read_rename h, if_neg, if_neg hne]
  exact fun hname => tmpName_ne_fileName p' n' _ hname.2

theorem read_tmp_unlink (d : Disk) (ob : Obj) (p n : Nat) :
    (d.unlink ob.subdir ob.file).read sub (tmpName p n) = d.read sub (tmpName p n) := by
  rw [Disk.read_unlink, if_neg]
  exact fun hname => tmpName_ne_fileName p n _ hname.2

/-- The task that has written a temporary file is about to rename it. -/
theorem moves_resume {p n : Nat} {strict : Bool} (t : Thread) (k : List Frame) :
    Moves (t.resume k (.next [.file (.rename p n r strict)])) r.obj.subdir (tmpName p n) r :=
  .intro _ p n r strict k rfl

/-- **Contention is not resolved without an error.** -/
theorem Contended.advance (h : Contended s) (hadv : Pool.Advance exec s i o s' t f k out)
    (hok : opsSucceed s (.step i o)) : Contended s' := by
  have hfile := exec_fileStep hadv hok
  obtain ⟨j, u, sub, name, r, hu, hmoves, hcase⟩ := h
  obtain ⟨p, n, rfl⟩ := hmoves.tmp
  by_cases hji : j = i
  · -- the task renames its file, and the other one has nothing to rename
    subst hji
    obtain rfl := Option.some.inj (hu.symm.trans hadv.task)
    obtain ⟨p', n', strict, rfl, rfl, hname⟩ := hmoves.frame hadv.frames
    cases hfile with
    | same frame => exact absurd rfl (frame _)
    | write r' strict' frame => cases frame
    | unlink ob frame => cases frame
    | rename p₁ n₁ r₁ strict₁ frame disk =>
      cases frame
      rcases hcase with hnone | ⟨m, v, r', hm, hv, hmoves'⟩
      · obtain ⟨x, hx, -⟩ := Disk.rename_eq_some.mp disk
        rw [hname, hx] at hnone
        cases hnone
      · refine ⟨m, v, _, _, r', hadv.getElem?_of_some hm hv, hmoves', Or.inl ?_⟩
        rw [hname]
        exact read_renamed disk
  · have hu' := hadv.getElem?_of_some hji hu
    rcases hcase with hnone | ⟨m, v, r', hm, hv, hmoves'⟩
    · -- the file is still missing, unless the step has written it for its own task
      refine ⟨j, u, sub, _, r, hu', hmoves, ?_⟩
      cases hfile with
      | same _ disk => exact Or.inl (by rw [disk, hnone])
      | write x strict frame disk next =>
        rw [disk, Disk.read_put]
        split
        · rename_i hsame
          refine Or.inr ⟨i, _, x, fun he => hji he.symm, hadv.getElem?_self, ?_⟩
          rw [next, hsame.1, hsame.2]
          exact moves_resume t k
        · exact Or.inl hnone
      | rename p' n' x strict frame disk =>
        refine Or.inl ?_
        by_cases hsame : sub = x.obj.subdir ∧ tmpName p n = tmpName p' n'
        · rw [hsame.1, hsame.2]
          exact read_renamed disk
        · rw [read_tmp_rename disk hsame, hnone]
      | unlink ob frame disk =>
        refine Or.inl ?_
        rw [disk, read_tmp_unlink, hnone]
    · by_cases hmi : m = i
      · -- the other task renames the file
        subst hmi
        obtain rfl := Option.some.inj (hv.symm.trans hadv.task)
        obtain ⟨p', n', strict, rfl, hsub, hname⟩ := hmoves'.frame hadv.frames
        refine ⟨j, u, sub, _, r, hu', hmoves, Or.inl ?_⟩
        cases hfile with
        | same frame => exact absurd rfl (frame _)
        | write x strict' frame => cases frame
        | unlink ob frame => cases frame
        | rename p₁ n₁ r₁ strict₁ frame disk =>
          cases frame
          rw [hname, hsub]
          exact read_renamed disk
      · exact ⟨j, u, sub, _, r, hu', hmoves,
          Or.inr ⟨m, v, r', hm, hadv.getElem?_of_some hmi hv, hmoves'⟩⟩

end Steps

theorem Contended.step {s s' : State} {l : Label} (h : Contended s) (hl : noRestart l)
    (hok : opsSucceed s l) (hstep : step s l = some s') : Contended s' := by
  cases l with
  | invoke c =>
    obtain rfl := Option.some.inj hstep
    have hkeep : ∀ (j : Nat) (u : Thread), s.tasks[j]? = some u →
        (s.start (.call c) c.frames).tasks[j]? = some u := by
      intro j u hu
      rw [Pool.start, List.getElem?_append_left (List.getElem?_eq_some_iff.mp hu).1, hu]
    obtain ⟨j, u, sub, name, r, hu, hmoves, hcase⟩ := h
    refine ⟨j, u, sub, name, r, hkeep j u hu, hmoves, ?_⟩
    rcases hcase with hnone | ⟨m, v, r', hm, hv, hmoves'⟩
    · exact Or.inl hnone
    · exact Or.inr ⟨m, v, r', hm, hkeep m v hv, hmoves'⟩
  | step i o =>
    obtain ⟨t, f, k, out, hadv⟩ := Pool.advance_eq_some hstep
    exact h.advance hadv hok
  | exit q st =>
    obtain ⟨p, -, rfl⟩ := step_exit hstep
    exact h
  | foreign pid =>
    obtain ⟨-, -, rfl⟩ := step_foreign hstep
    exact h
  | restart rs => cases hl

/-! ## Owned temporary files -/

/-- Every temporary file is one that a task is about to rename, and holds the record it was written
for. -/
structure Owned (s : State) : Prop where
  holds : ∀ t ∈ s.tasks, ∀ sub name r, Moves t sub name r →
    s.shared.disk.read sub name = some (.whole r)
  moved : ∀ sub p n x, s.shared.disk.read sub (tmpName p n) = some x →
    ∃ t ∈ s.tasks, ∃ r, Moves t sub (tmpName p n) r

/-- Below the top of a stack there is no rename. -/
theorem Stack.not_rename {d : Duty} {f : Frame} {k : List Frame} (h : Stack d (f :: k)) :
    ∀ p n r strict, .file (.rename p n r strict) ∉ k := by
  intro p n r strict hmem
  have hplain : ∀ (k : List Frame), (∀ g ∈ k, g.plain) → .file (.rename p n r strict) ∉ k :=
    fun k hk hm => by cases hk _ hm
  cases h with
  | plain _ hk => exact hplain _ (fun g hg => hk g (List.mem_cons_of_mem _ hg)) hmem
  | write _ _ _ hk | rename _ _ _ _ _ hk | unlock _ hk | unlink _ _ hk => exact hplain _ hk hmem
  | landWrite _ k hk | landRename _ _ _ k hk | removeIo _ _ k hk =>
    rcases List.mem_cons.mp hmem with he | hm
    · cases he
    · exact hplain _ hk hm
  | issueWrite _ k hk | issueRename _ _ _ k hk =>
    rcases List.mem_cons.mp hmem with he | hm
    · cases he
    · exact hplain _ hk hm
  | insert _ _ hk => exact hplain _ hk hmem

section Steps

variable {s s' : State} {i : Nat} {t : Thread} {o : Oracle} {f : Frame} {k : List Frame}
  {out : Out} {sub : Subdir} {name : String} {r : DiskRecord}

/-- A rename is pushed by the write, alone. -/
theorem exec_pushes_rename {self n p m : Nat} {w w' : World} {strict : Bool}
    (hex : exec self n o f w = some (w', out))
    (hg : .file (.rename p m r strict) ∈ out.pushed) :
    f = .file (.write r strict) ∧ out.pushed = [.file (.rename p m r strict)] := by
  rcases exec_pushes hex with hnil | hpush
  · rw [hnil] at hg
    cases hg
  · generalize out.pushed = fs at hpush hg
    cases hpush with
    | collectContainers id ids =>
      have hno : ∀ g ∈ cascade ids ++ [Frame.crit (.deleteSandbox id)],
          g ≠ .file (.rename p m r strict) :=
        forall_mem_collect (by simp) (by simp) (by simp)
      exact absurd rfl (hno _ hg)
    | write =>
      cases List.mem_singleton.mp hg
      exact ⟨rfl, rfl⟩
    | _ => simp at hg

/-- A task is about to rename a file after a step that has just written it. -/
theorem Moves.written {d : Duty} (h : Moves (t.resume k out) sub name r) (hd : Stack d (f :: k))
    (hex : exec i s.tasks.length o f s.shared = some (s'.shared, out)) :
    ∃ p n strict, f = .file (.write r strict) ∧ out.pushed = [.file (.rename p n r strict)] ∧
      sub = r.obj.subdir ∧ name = tmpName p n := by
  cases h with
  | intro p n _ strict k' frames =>
    have hmem : .file (.rename p n r strict) ∈ (t.resume k out).frames := by
      rw [frames]
      exact List.mem_cons_self
    rcases Task.mem_resume hmem with hpushed | hk
    · obtain ⟨hf, hpushed⟩ := exec_pushes_rename hex hpushed
      exact ⟨p, n, strict, hf, hpushed, rfl, rfl⟩
    · exact absurd hk (hd.not_rename p n r strict)

theorem Owned.advance {d : Duty} (h : Owned s) (hadv : Pool.Advance exec s i o s' t f k out)
    (hd : Stack d t.frames) (hok : opsSucceed s (.step i o)) (hs : ¬Contended s)
    (hs' : ¬Contended s') : Owned s' := by
  have hfile := exec_fileStep hadv hok
  have hchild : ∀ u ∈ out.children, ∀ sub name r, ¬Moves u sub name r := by
    intro u hu sub name r hmoves
    obtain ⟨id, q, -, rfl⟩ := children_reaper hadv hu
    obtain ⟨p, n, strict, hf, -⟩ := hmoves.frame rfl
    cases hf
  rw [hadv.frames] at hd
  constructor
  case holds =>
    intro u hu sub name r hmoves
    obtain ⟨j, hu⟩ := List.getElem?_of_mem hu
    rcases hadv.cases hu with ⟨rfl, rfl⟩ | ⟨hj, hold⟩ | ⟨-, hu⟩
    · obtain ⟨p, n, strict, hf, hpushed, rfl, rfl⟩ := hmoves.written hd hadv.exec
      cases hfile with
      | write x strict' frame disk next =>
        rw [next] at hpushed
        cases hpushed
        rw [disk, Disk.read_put, if_pos ⟨rfl, rfl⟩]
      | same frame => exact absurd hf (frame _)
      | rename _ _ _ _ frame | unlink _ frame => cases frame.symm.trans hf
    · have hread := h.holds u (List.mem_of_getElem? hold) sub name r hmoves
      obtain ⟨p, n, rfl⟩ := hmoves.tmp
      cases hfile with
      | same _ disk => rw [disk, hread]
      | write x strict frame disk next =>
        rw [disk, Disk.read_put, if_neg]
        · exact hread
        · -- two tasks would be about to rename the file
          rintro ⟨hsub, hname⟩
          refine hs' ⟨j, u, sub, _, r, hu, hmoves,
            Or.inr ⟨i, _, x, hj.symm, hadv.getElem?_self, ?_⟩⟩
          rw [next, hsub, hname]
          exact moves_resume t k
      | rename p' n' x strict frame disk =>
        rw [read_tmp_rename disk, hread]
        rintro ⟨hsub, hname⟩
        refine hs ⟨j, u, sub, _, r, hold, hmoves, Or.inr ⟨i, t, x, hj.symm, hadv.task, ?_⟩⟩
        rw [hsub, hname]
        exact .intro t p' n' x strict k (by rw [hadv.frames, frame])
      | unlink ob frame disk => rw [disk, read_tmp_unlink, hread]
    · exact absurd hmoves (hchild u hu sub name r)
  case moved =>
    intro sub p n x hx
    have hkeep : s.shared.disk.read sub (tmpName p n) = some x → (∀ p' n' y strict,
        f = .file (.rename p' n' y strict) → ¬(sub = y.obj.subdir ∧ tmpName p n = tmpName p' n')) →
        ∃ u ∈ s'.tasks, ∃ r, Moves u sub (tmpName p n) r := by
      intro hread hne
      obtain ⟨u, hu, r, hmoves⟩ := h.moved sub p n x hread
      obtain ⟨j, hu⟩ := List.getElem?_of_mem hu
      by_cases hj : j = i
      · subst hj
        obtain rfl := Option.some.inj (hu.symm.trans hadv.task)
        obtain ⟨p', n', strict, hf, hsub, hname⟩ := hmoves.frame hadv.frames
        exact absurd ⟨hsub, hname⟩ (hne p' n' r strict hf)
      · exact ⟨u, List.mem_of_getElem? (hadv.getElem?_of_some hj hu), r, hmoves⟩
    cases hfile with
    | same frame disk => exact hkeep (disk ▸ hx) fun _ _ _ _ hf => absurd hf (frame _)
    | write y strict frame disk next =>
      rw [disk, Disk.read_put] at hx
      split at hx
      · rename_i hsame
        refine ⟨_, List.mem_of_getElem? hadv.getElem?_self, y, ?_⟩
        rw [next, hsame.1, hsame.2]
        exact moves_resume t k
      · exact hkeep hx fun _ _ _ _ hf => by cases frame.symm.trans hf
    | rename p' n' y strict frame disk =>
      by_cases hsame : sub = y.obj.subdir ∧ tmpName p n = tmpName p' n'
      · rw [hsame.1, hsame.2, read_renamed disk] at hx
        cases hx
      · rw [read_tmp_rename disk hsame] at hx
        refine hkeep hx fun _ _ _ _ hf => ?_
        cases frame.symm.trans hf
        exact hsame
    | unlink ob frame disk =>
      rw [disk, read_tmp_unlink] at hx
      exact hkeep hx fun _ _ _ _ hf => by cases frame.symm.trans hf

end Steps

/-- **A step keeps the temporary files owned**, unless two writes meet in one of them. -/
theorem Owned.step {s s' : State} {l : Label} (h : Owned s) (hs : Sound s) (hl : noRestart l)
    (hok : opsSucceed s l) (hstep : step s l = some s') (hs' : ¬Contended s') : Owned s' := by
  have hfree : ¬Contended s := fun hc => hs' (hc.step hl hok hstep)
  cases l with
  | invoke c =>
    obtain rfl := Option.some.inj hstep
    constructor
    case holds =>
      intro u hu sub name r hmoves
      rcases Pool.mem_tasks_start.mp hu with hu | rfl
      · exact h.holds u hu sub name r hmoves
      · exfalso
        cases hmoves with
        | intro p n _ strict k frames =>
          have hframes : c.frames = .file (.rename p n r strict) :: k := frames
          have hmem : .file (.rename p n r strict) ∈ c.frames := hframes ▸ List.mem_cons_self
          cases (plain_callFrames c _ hmem).1
    case moved =>
      intro sub p n x hx
      obtain ⟨u, hu, r, hmoves⟩ := h.moved sub p n x hx
      exact ⟨u, Pool.mem_tasks_start.mpr (Or.inl hu), r, hmoves⟩
  | step i o =>
    obtain ⟨t, f, k, out, hadv⟩ := Pool.advance_eq_some hstep
    obtain ⟨d, hd⟩ := hs.duties t hadv.mem
    exact h.advance hadv hd hok hfree hs'
  | exit q st =>
    obtain ⟨p, -, rfl⟩ := step_exit hstep
    exact { h with }
  | foreign pid =>
    obtain ⟨-, -, rfl⟩ := step_foreign hstep
    exact { h with }
  | restart rs => cases hl

theorem Owned.init (listener : Nat) (blake3 : String → String) : Owned (init listener blake3) := by
  constructor
  · simp [Fake.init]
  · intro sub p n x hx
    simp [Fake.init] at hx

/-- In a state whose temporary files are owned, no rename is in flight for a file that is not
there. -/
theorem Owned.read_rename {s s' : State} {i : Nat} {o : Oracle} {t : Thread} {k : List Frame}
    {out : Out} {p n : Nat} {r : DiskRecord} {strict : Bool} (h : Owned s)
    (hadv : Pool.Advance exec s i o s' t (.file (.rename p n r strict)) k out) :
    s.shared.disk.read r.obj.subdir (tmpName p n) = some (.whole r) :=
  h.holds t hadv.mem _ _ r (.intro t p n r strict k hadv.frames)

end LightrCri.Fake

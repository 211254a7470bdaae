import LightrCri.Foundations.Pool

/-!
# A task that runs alone

`Performs` is the execution of a stack from its first frame to the end of the task while no other
task makes a step. The frames executed are kept with the oracles they were given.

`Performs.run` makes it a run of the pool and `performs_of_run` gets it back from one. The
inversions follow the stack: `performs_cons` and `performs_top` for its top frame, `performs_next`
and `performs_halt` for one whose outcome is known.
-/

namespace LightrCri.Foundations

variable {σ τ φ ρ ω : Type*}

/-- Task `i` executes the stack alone, from the state to the one after; `n` is the index that a task
started now would get. -/
inductive Performs (exec : ℕ → ℕ → ω → φ → σ → Option (σ × Outcome τ φ ρ)) (i : ℕ) :
    ℕ → σ → List φ → List (φ × ω) → σ → List (Task τ φ ρ) → ρ → Prop
  | halt {n s s' f k o r} (done : exec i n o f s = some (s', .halt r)) :
    Performs exec i n s (f :: k) [(f, o)] s' [] r
  | next {n s s₁ s' f k o fs tr cs r} (goes : exec i n o f s = some (s₁, .next fs))
    (rest : Performs exec i n s₁ (fs ++ k) tr s' cs r) :
    Performs exec i n s (f :: k) ((f, o) :: tr) s' cs r
  | fork {n s s₁ s' f k o tag child tr cs r}
    (forks : exec i n o f s = some (s₁, .fork tag child))
    (rest : Performs exec i (n + 1) s₁ k tr s' cs r) :
    Performs exec i n s (f :: k) ((f, o) :: tr) s' (⟨tag, child, none⟩ :: cs) r

variable {exec : ℕ → ℕ → ω → φ → σ → Option (σ × Outcome τ φ ρ)} {i n : ℕ} {s s' : σ} {f : φ}
  {k : List φ} {tr : List (φ × ω)} {cs : List (Task τ φ ρ)} {r : ρ}

/-- What the top frame does. -/
theorem performs_cons (h : Performs exec i n s (f :: k) tr s' cs r) :
    ∃ o tr', tr = (f, o) :: tr' ∧
      ((exec i n o f s = some (s', .halt r) ∧ tr' = [] ∧ cs = []) ∨
        (∃ s₁ fs, exec i n o f s = some (s₁, .next fs) ∧
          Performs exec i n s₁ (fs ++ k) tr' s' cs r) ∨
        ∃ s₁ tag child cs', exec i n o f s = some (s₁, .fork tag child) ∧
          cs = ⟨tag, child, none⟩ :: cs' ∧ Performs exec i (n + 1) s₁ k tr' s' cs' r) := by
  cases h with
  | halt done => exact ⟨_, _, rfl, .inl ⟨done, rfl, rfl⟩⟩
  | next goes rest => exact ⟨_, _, rfl, .inr (.inl ⟨_, _, goes, rest⟩)⟩
  | fork forks rest => exact ⟨_, _, rfl, .inr (.inr ⟨_, _, _, _, forks, rfl, rest⟩)⟩

/-- What the top frame does, by what its execution gives. -/
theorem performs_top (h : Performs exec i n s (f :: k) tr s' cs r) :
    ∃ o tr', tr = (f, o) :: tr' ∧ (exec i n o f s).isSome ∧
      (∀ s₁ fs, exec i n o f s = some (s₁, .next fs) →
        Performs exec i n s₁ (fs ++ k) tr' s' cs r) ∧
      ∀ s₁ r₁, exec i n o f s = some (s₁, .halt r₁) → s' = s₁ ∧ r = r₁ ∧ tr' = [] ∧ cs = [] := by
  obtain ⟨o, tr', rfl, ⟨hdone, rfl, rfl⟩ | ⟨s₂, fs, hgoes, hrest⟩ | ⟨s₂, tag, child, cs', hforks, -⟩⟩ :=
    performs_cons h
  · refine ⟨o, _, rfl, by rw [hdone]; rfl, fun s₁ fs hex => ?_, fun s₁ r₁ hex => ?_⟩
    · cases hdone.symm.trans hex
    · cases hdone.symm.trans hex
      exact ⟨rfl, rfl, rfl, rfl⟩
  · refine ⟨o, _, rfl, by rw [hgoes]; rfl, fun s₁ fs hex => ?_, fun s₁ r₁ hex => ?_⟩
    · cases hgoes.symm.trans hex
      exact hrest
    · cases hgoes.symm.trans hex
  · refine ⟨o, _, rfl, by rw [hforks]; rfl, fun s₁ fs hex => ?_, fun s₁ r₁ hex => ?_⟩
    · cases hforks.symm.trans hex
    · cases hforks.symm.trans hex

/-- A frame that only goes on. -/
theorem performs_next {s₁ : σ} {fs : List φ} (h : Performs exec i n s (f :: k) tr s' cs r)
    (hnext : ∀ o, exec i n o f s = some (s₁, .next fs)) :
    ∃ o tr', tr = (f, o) :: tr' ∧ Performs exec i n s₁ (fs ++ k) tr' s' cs r := by
  obtain ⟨o, tr', rfl, ⟨hdone, -⟩ | ⟨s₂, fs', hgoes, hrest⟩ | ⟨s₂, tag, child, cs', hforks, -⟩⟩ :=
    performs_cons h
  · cases (hnext o).symm.trans hdone
  · cases (hnext o).symm.trans hgoes
    exact ⟨o, tr', rfl, hrest⟩
  · cases (hnext o).symm.trans hforks

/-- A frame that ends the task. -/
theorem performs_halt {s₁ : σ} {r₁ : ρ} (h : Performs exec i n s (f :: k) tr s' cs r)
    (hhalt : ∀ o, exec i n o f s = some (s₁, .halt r₁)) :
    ∃ o, tr = [(f, o)] ∧ s' = s₁ ∧ cs = [] ∧ r = r₁ := by
  obtain ⟨o, tr', rfl, ⟨hdone, rfl, rfl⟩ | ⟨s₂, fs', hgoes, -⟩ | ⟨s₂, tag, child, cs', hforks, -⟩⟩ :=
    performs_cons h
  · cases (hhalt o).symm.trans hdone
    exact ⟨o, rfl, rfl, rfl, rfl⟩
  · cases (hhalt o).symm.trans hgoes
  · cases (hhalt o).symm.trans hforks

/-! ## As a run of the pool -/

/-- The task alone makes a run of the pool. -/
theorem Performs.run {p : Pool σ τ φ ρ} {t : Task τ φ ρ}
    (h : Performs exec i p.tasks.length p.shared t.frames tr s' cs r) (ht : p.tasks[i]? = some t) :
    Foundations.run (fun p o => p.advance exec i o) p (tr.map Prod.snd) =
      some ⟨s', p.tasks.set i { t with frames := [], result := some r } ++ cs⟩ := by
  generalize hfs : t.frames = fs at h
  generalize hn : p.tasks.length = n at h
  generalize hs : p.shared = s at h
  induction h generalizing p t with
  | halt done =>
    obtain rfl := hn
    obtain rfl := hs
    rw [List.map_singleton, run_cons, Pool.advance, ht]
    simp [hfs, done, Task.resume]
  | @next n s s₁ s' f k o fs tr cs r goes rest ih =>
    obtain rfl := hn
    obtain rfl := hs
    have hi := (List.getElem?_eq_some_iff.mp ht).1
    have hadv : p.advance exec i o = some ⟨s₁, p.tasks.set i { t with frames := fs ++ k }⟩ := by
      rw [Pool.advance, ht]
      simp [hfs, goes, Task.resume]
    rw [List.map_cons, run_cons, hadv, Option.bind_some]
    have hrest := @ih ⟨s₁, p.tasks.set i { t with frames := fs ++ k }⟩
      { t with frames := fs ++ k } (List.getElem?_set_self hi) rfl (List.length_set ..) rfl
    rw [hrest, List.set_set]
  | @fork n s s₁ s' f k o tag child tr cs r forks rest ih =>
    obtain rfl := hn
    obtain rfl := hs
    have hi := (List.getElem?_eq_some_iff.mp ht).1
    have hadv : p.advance exec i o =
        some ⟨s₁, p.tasks.set i { t with frames := k } ++ [⟨tag, child, none⟩]⟩ := by
      rw [Pool.advance, ht]
      simp [hfs, forks, Task.resume]
    have hset : (p.tasks.set i { t with frames := k } ++ [⟨tag, child, none⟩])[i]? =
        some { t with frames := k } := by
      rw [List.getElem?_append_left (by simpa using hi), List.getElem?_set_self hi]
    rw [List.map_cons, run_cons, hadv, Option.bind_some]
    have hrest := @ih ⟨s₁, p.tasks.set i { t with frames := k } ++ [⟨tag, child, none⟩]⟩
      { t with frames := k } hset rfl (by simp) rfl
    rw [hrest, List.set_append_left _ _ (by simpa using hi), List.set_set, List.append_assoc,
      List.singleton_append]

/-- A run in which only task `i` makes steps, and at the end of which it has a result, is the
execution of its stack. -/
theorem performs_of_run {p p' : Pool σ τ φ ρ} {os : List ω} {t u : Task τ φ ρ}
    (hrun : Foundations.run (fun p o => p.advance exec i o) p os = some p')
    (ht : p.tasks[i]? = some t) (hnew : t.result = none) (hu : p'.tasks[i]? = some u)
    (hr : u.result = some r) :
    ∃ tr cs, tr.map Prod.snd = os ∧ p'.tasks = p.tasks.set i { t with frames := [], result := some r } ++ cs ∧
      Performs exec i p.tasks.length p.shared t.frames tr p'.shared cs r := by
  induction os generalizing p t with
  | nil =>
    obtain rfl := Option.some.inj hrun
    obtain rfl := Option.some.inj (ht.symm.trans hu)
    cases hnew.symm.trans hr
  | cons o os ih =>
    obtain ⟨p₁, hstep, hrest⟩ := run_cons_eq_some.mp hrun
    obtain ⟨t', f, k, out, hadv⟩ := Pool.advance_eq_some hstep
    obtain rfl := Option.some.inj (hadv.task.symm.trans ht)
    have hi := hadv.lt_length
    have hself := hadv.getElem?_self
    rw [hadv.frames]
    cases out with
    | halt r' =>
      obtain rfl : os = [] := by
        cases os with
        | nil => rfl
        | cons o' os =>
          obtain ⟨p₂, hstep', -⟩ := run_cons_eq_some.mp hrest
          obtain ⟨t'', f', k', out', hadv'⟩ := Pool.advance_eq_some hstep'
          obtain rfl := Option.some.inj (hadv'.task.symm.trans hself)
          cases hadv'.frames
      obtain rfl := Option.some.inj hrest
      obtain rfl := Option.some.inj (hself.symm.trans hu)
      obtain rfl : r' = r := Option.some.inj hr
      exact ⟨[(f, o)], [], rfl, by simpa [Task.resume] using hadv.tasks, .halt hadv.exec⟩
    | next fs =>
      obtain ⟨tr, cs, rfl, htasks, hperf⟩ := ih hrest hself hnew
      rw [hadv.tasks] at htasks hperf
      refine ⟨(f, o) :: tr, cs, rfl, ?_, .next hadv.exec ?_⟩
      · rw [htasks]
        simp [Task.resume]
      · simpa using hperf
    | fork tag child =>
      obtain ⟨tr, cs, rfl, htasks, hperf⟩ := ih hrest hself hnew
      rw [hadv.tasks] at htasks hperf
      refine ⟨(f, o) :: tr, ⟨tag, child, none⟩ :: cs, rfl, ?_, .fork hadv.exec ?_⟩
      · rw [htasks, List.set_append_left _ _ (by simpa using hi), List.append_assoc]
        simp [Task.resume]
      · simpa using hperf

end LightrCri.Foundations

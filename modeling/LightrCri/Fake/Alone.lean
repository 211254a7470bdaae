import LightrCri.Fake.Execution
import LightrCri.Foundations.Alone

/-!
# Calls that run alone

`Returns` is a call from its start to its result while no other task makes a step, whatever the
oracles of its own steps are, so also whichever of its file operations fail. `Returns.run` makes it
a run of the machine and `returns_of_run` gets it back from one. What the critical sections and the
effects on the files then do is said by one inversion each (`performs_crit`, `performs_file`,
`performs_unlink`).
-/

namespace LightrCri.Fake

open Backend Foundations

/-- The call is made in the state and executed alone, with this result. -/
def Returns (s : State) (c : Call) (tr : List (Frame × Oracle)) (s' : State) (r : Result) : Prop :=
  ∃ cs, s'.tasks = s.tasks ++ ⟨.call c, [], some r⟩ :: cs ∧
    Performs exec s.tasks.length (s.tasks.length + 1) s.shared c.frames tr s'.shared cs r

/-- The labels of a call that is executed alone. -/
def callLabels (s : State) (c : Call) (os : List Oracle) : List Label :=
  .invoke c :: os.map (.step s.tasks.length)

theorem run_steps (s : State) (i : Nat) (os : List Oracle) :
    run step s (os.map (.step i)) = run (fun p o => p.advance exec i o) s os := by
  induction os generalizing s with
  | nil => rfl
  | cons o os ih =>
    rw [List.map_cons, run_cons, run_cons]
    exact congrArg _ (funext ih)

theorem Returns.run {s s' : State} {c : Call} {tr : List (Frame × Oracle)} {r : Result}
    (h : Returns s c tr s' r) : run step s (callLabels s c (tr.map Prod.snd)) = some s' := by
  obtain ⟨cs, htasks, hperf⟩ := h
  have hlen : (s.start (.call c) c.frames).tasks.length = s.tasks.length + 1 := by simp [Pool.start]
  have htask : (s.start (.call c) c.frames).tasks[s.tasks.length]? =
      some ⟨.call c, c.frames, none⟩ := by simp [Pool.start]
  rw [callLabels, run_cons]
  refine (run_steps _ _ _).trans ?_
  rw [← hlen] at hperf
  refine (hperf.run htask).trans (congrArg some ?_)
  have hset : (s.start (.call c) c.frames).tasks.set s.tasks.length ⟨.call c, [], some r⟩ ++ cs =
      s'.tasks := by
    rw [htasks]
    simp [Pool.start]
  rw [hset]

/-- A run of the call alone that gives it a result. -/
theorem returns_of_run {s s' : State} {c : Call} {os : List Oracle} {r : Result} {u : Thread}
    (hrun : run step s (callLabels s c os) = some s') (hu : s'.tasks[s.tasks.length]? = some u)
    (hr : u.result = some r) : ∃ tr, tr.map Prod.snd = os ∧ Returns s c tr s' r := by
  rw [callLabels, run_cons] at hrun
  replace hrun := (run_steps (s.start (.call c) c.frames) _ _).symm.trans hrun
  have htask : (s.start (.call c) c.frames).tasks[s.tasks.length]? =
      some ⟨.call c, c.frames, none⟩ := by simp [Pool.start]
  obtain ⟨tr, cs, htr, htasks, hperf⟩ := performs_of_run hrun htask rfl hu hr
  refine ⟨tr, htr, cs, ?_, ?_⟩
  · rw [htasks]
    simp [Pool.start]
  · simpa [Pool.start] using hperf

variable {i n : Nat} {w w' : World} {k : List Frame} {tr : List (Frame × Oracle)}
  {cs : List Thread} {r : Result}

/-- A critical section. -/
theorem performs_crit {c : Crit} (h : Performs exec i n w (.crit c :: k) tr w' cs r) :
    ∃ o tr', tr = (.crit c, o) :: tr' ∧ w.lock = none ∧
      ((∃ fs, (c.exec i o w).2 = .next fs ∧
          Performs exec i n (c.exec i o w).1 (fs ++ k) tr' w' cs r) ∨
        (c.exec i o w).2 = .halt r ∧ w' = (c.exec i o w).1 ∧ tr' = [] ∧ cs = []) := by
  obtain ⟨o, tr', rfl, ⟨hdone, rfl, rfl⟩ | ⟨w₁, fs, hgoes, hrest⟩ | ⟨w₁, tag, child, cs', hforks, -⟩⟩ :=
    performs_cons h
  · obtain ⟨hlock, hdone⟩ := exec_crit_eq_some.mp hdone
    exact ⟨o, [], rfl, hlock, .inr ⟨by rw [hdone], by rw [hdone], rfl, rfl⟩⟩
  · obtain ⟨hlock, hgoes⟩ := exec_crit_eq_some.mp hgoes
    exact ⟨o, tr', rfl, hlock, .inl ⟨fs, by rw [hgoes], by rw [hgoes]; exact hrest⟩⟩
  · obtain ⟨id, q, hf, -⟩ := exec_fork hforks
    cases hf

/-- An effect on the files. -/
theorem performs_file {g : FileOp} (h : Performs exec i n w (.file g :: k) tr w' cs r) :
    ∃ o tr', tr = (.file g, o) :: tr' ∧
      ((∃ fs, (g.exec o w).2 = .next fs ∧
          Performs exec i n (g.exec o w).1 (fs ++ k) tr' w' cs r) ∨
        (g.exec o w).2 = .halt r ∧ w' = (g.exec o w).1 ∧ tr' = [] ∧ cs = []) := by
  obtain ⟨o, tr', rfl, ⟨hdone, rfl, rfl⟩ | ⟨w₁, fs, hgoes, hrest⟩ | ⟨w₁, tag, child, cs', hforks, -⟩⟩ :=
    performs_cons h
  · obtain ⟨hw, hout⟩ := exec_file_eq_some.mp hdone
    exact ⟨o, [], rfl, .inr ⟨hout, hw.symm, rfl, rfl⟩⟩
  · obtain ⟨hw, hout⟩ := exec_file_eq_some.mp hgoes
    exact ⟨o, tr', rfl, .inl ⟨fs, hout, by rw [hw]; exact hrest⟩⟩
  · obtain ⟨id, q, hf, -⟩ := exec_fork hforks
    cases hf

/-- The removal of a file: its result is ignored. -/
theorem performs_unlink {ob : Obj} (h : Performs exec i n w (.file (.unlink ob) :: k) tr w' cs r) :
    ∃ o tr', tr = (.file (.unlink ob), o) :: tr' ∧
      Performs exec i n
        { w with disk := if o.fault = none then w.disk.unlink ob.subdir ob.file else w.disk }
        k tr' w' cs r := by
  have hexec (o : Oracle) : exec i n o (.file (.unlink ob)) w =
      some ({ w with disk := if o.fault = none then w.disk.unlink ob.subdir ob.file else w.disk },
        .next []) := by
    refine congrArg some ?_
    simp only [FileOp.exec]
    cases o.fault with
    | none => rfl
    | some e => rfl
  obtain ⟨o, tr', rfl, ⟨hdone, -⟩ | ⟨w₁, fs, hgoes, hrest⟩ | ⟨w₁, tag, child, cs', hforks, -⟩⟩ :=
    performs_cons h
  · cases (hexec o).symm.trans hdone
  · cases (hexec o).symm.trans hgoes
    exact ⟨o, tr', rfl, hrest⟩
  · cases (hexec o).symm.trans hforks

theorem performs_ret {v : Value} (h : Performs exec i n w (.ret v :: k) tr w' cs r) :
    ∃ o, tr = [(.ret v, o)] ∧ w' = w ∧ cs = [] ∧ r = .ok v :=
  performs_halt h fun _ => exec_ret v

end LightrCri.Fake

import LightrCri.Fake.ExecSync

/-!
# `exec_sync` with and without a timeout

Without a timeout the answer is the whole output of the child. With one it is the same exactly if
each output fits into its pipe, and the look at the clock that follows on a `try_wait` does not come
after the deadline when the child has exited in between (`exec_same_iff`).
-/

namespace LightrCri.Fake.ExecSync

open Backend Foundations LightrCri.Stream LightrCri.Spdy Function

section

variable {capacity : Output → Nat} {final : WaitStatus} {s s' : State} {n : Nat} {ops : List Op}

/-! ## With a timeout -/

/-- Until the child has ended, what it writes fits into the pipes. -/
def Bounded (capacity : Output → Nat) (ops : List Op) (s : State) : Prop :=
  match s.call with
  | .readOut _ _ => Fits capacity ops
  | .readErr _ _ _ => Fits capacity ops
  | .returned (.ok _) => Fits capacity ops
  | .returned (.error _) => True
  | .wait => True
  | .collect _ _ => False
  | .await _ _ => False
  | _ => ∀ o, (s.pipe o).length ≤ capacity o

theorem ChildStep.pipe_le (h : ChildStep capacity final s s') (hle : ∀ o, (s.pipe o).length ≤ capacity o) :
    ∀ o, (s'.pipe o).length ≤ capacity o := by
  cases h with
  | exit => exact hle
  | close => exact hle
  | skip => exact hle
  | @put o bytes ops n hops hopen hn hroom =>
    intro o'
    show (update s.pipe o (s.pipe o ++ bytes.take n) o').length ≤ capacity o'
    by_cases heq : o' = o
    · subst heq
      rw [update_self, List.length_append, List.length_take]
      omega
    · rw [update_of_ne heq]
      exact hle o'

theorem Bounded.step {l : Label} (h : Bounded capacity ops s) (hsound : Sound ops final s)
    (hstep : ExecSync.step capacity final s l = some s') : Bounded capacity ops s' := by
  rcases step_cases hstep with ⟨o, n, c, e, -, hcall, rfl⟩ | ⟨hstatus, hchild⟩ | ⟨-, -, rfl⟩
  · unfold Bounded at h
    unfold Sound at hsound
    generalize hc : s.call = c₀ at h hcall hsound
    cases hcall with
    | @found st hst =>
      -- the child has ended, and nothing was read
      intro o
      have hbytes := hsound.bytes o
      rw [hc, State.left, if_pos ((hsound.status st hst).2 o), List.append_nil] at hbytes
      rw [hbytes]
      exact h o
    | running => exact h
    | late => exact h
    | early => exact h
    | awake => exact h
    | kill => exact True.intro
    | reaped => exact True.intro
    | readOut => exact h
    | endOut => exact h
    | readErr => exact h
    | endErr => exact h
    | collectOut => exact h
    | collectErr => exact h
    | collected => exact h
    | awaited => exact absurd h not_false
  · have hcall := hchild.kept.1
    unfold Bounded at h ⊢
    rw [hcall]
    cases hc : s.call with
    | returned r =>
      rw [hc] at h
      cases r with
      | error e => exact True.intro
      | ok r => exact h
    | poll => rw [hc] at h; exact hchild.pipe_le h
    | check => rw [hc] at h; exact hchild.pipe_le h
    | sleep => rw [hc] at h; exact hchild.pipe_le h
    | kill => rw [hc] at h; exact hchild.pipe_le h
    | _ => rw [hc] at h; exact h
  · exact h

/-- The call gives up: it kills the child. -/
def Call.GivesUp : Call → Prop
  | .kill => True
  | .wait => True
  | .returned (.error _) => True
  | _ => False

theorem givesUp_step {l : Label} (h : s.call.GivesUp) (hstep : step capacity final s l = some s') :
    s'.call.GivesUp := by
  rcases step_cases hstep with ⟨o, n, c, e, -, hcall, rfl⟩ | ⟨-, hchild⟩ | ⟨-, -, rfl⟩
  · generalize s.call = c₀ at h hcall
    cases hcall <;> first | exact True.intro | exact absurd h not_false
  · rw [hchild.kept.1]
    exact h
  · exact h

/-- What fits does not block the child. -/
theorem not_blocked (hfits : Fits capacity ops) (h : Conserved ops final s)
    (hgot : ∀ o, s.call.got o = []) : s.blocked capacity = false := by
  by_contra hblocked
  have hblocked := Bool.eq_true_of_not_eq_false hblocked
  unfold State.blocked at hblocked
  split at hblocked
  · rename_i o bytes rest hops
    obtain ⟨hne, hopen, hfull⟩ := of_decide_eq_true hblocked
    have hbytes := congrArg List.length (h.bytes o)
    rw [hgot, State.left, hopen, hops, outputOf, if_pos rfl] at hbytes
    have hpos := List.length_pos_of_ne_nil hne
    have hle := hfits o
    simp only [List.nil_append, Bool.false_eq_true, if_false, List.length_append] at hbytes
    omega
  · cases hblocked

/-- The call polls for the exit of the child. -/
def Call.Polls : Call → Prop
  | .poll => True
  | .check => True
  | .sleep => True
  | _ => False

/-- Where all fits and the clock is looked at in time, the deadline passes only after the child has
exited, and the call does not give up. -/
structure Spared (s : State) : Prop where
  past : s.call.Polls → s.past = true → s.status ≠ none
  call : ¬ s.call.GivesUp

theorem Sound.conserved (h : Sound ops final s) (hpolls : s.call.Polls) :
    Conserved ops final s ∧ ∀ o, s.call.got o = [] := by
  unfold Sound at h
  cases hc : s.call with
  | poll => rw [hc] at h; exact ⟨h, fun _ => rfl⟩
  | check => rw [hc] at h; exact ⟨h, fun _ => rfl⟩
  | sleep => rw [hc] at h; exact ⟨h, fun _ => rfl⟩
  | _ => rw [hc] at hpolls; exact absurd hpolls not_false

theorem Spared.step {l : Label} (hfits : Fits capacity ops) (hsound : Sound ops final s) (h : Spared s)
    (htime : InTime s l) (hstep : ExecSync.step capacity final s l = some s') : Spared s' := by
  rcases step_cases hstep with ⟨o, n, c, e, rfl, hcall, rfl⟩ | ⟨hstatus, hchild⟩ | ⟨-, hended, rfl⟩
  · have hpast := h.past
    have hnot := h.call
    unfold InTime at htime
    dsimp only at htime
    generalize s.call = c₀ at hpast hnot hcall htime
    cases hcall with
    | found => exact ⟨fun h => absurd h not_false, not_false⟩
    | running => exact ⟨fun _ => hpast True.intro, not_false⟩
    | late hlate => exact absurd (htime hlate) (hpast True.intro hlate)
    | early => exact ⟨fun _ => hpast True.intro, not_false⟩
    | awake => exact ⟨fun _ => hpast True.intro, not_false⟩
    | kill => exact absurd True.intro hnot
    | reaped => exact absurd True.intro hnot
    | _ => exact ⟨fun h => absurd h not_false, not_false⟩
  · obtain ⟨hcall, hpast⟩ := hchild.kept
    refine ⟨fun hpolls hlate => ?_, by rw [hcall]; exact h.call⟩
    rw [hcall] at hpolls
    rw [hpast] at hlate
    exact absurd hstatus (h.past hpolls hlate)
  · refine ⟨fun hpolls _ => ?_, h.call⟩
    obtain ⟨hconserved, hgot⟩ := hsound.conserved hpolls
    rcases hended with hsome | hblocked
    · exact Option.isSome_iff_ne_none.mp hsome
    · rw [not_blocked hfits hconserved hgot] at hblocked
      cases hblocked

/-- A call that does not give up looks at the clock in time. -/
theorem inTime_of_run {ls : List Label} (hrun : run (step capacity final) s ls = some s')
    (hend : ¬ s'.call.GivesUp) : Along (step capacity final) InTime s ls := by
  induction ls generalizing s with
  | nil => exact True.intro
  | cons l ls ih =>
    obtain ⟨s₁, hstep, hrest⟩ := run_cons_eq_some.mp hrun
    refine ⟨?_, fun t ht => ?_⟩
    · have hnot : ¬ s₁.call.GivesUp := fun h => hend <|
        invariant_run (I := fun s => s.call.GivesUp) (P := fun _ _ => True)
          (fun _ _ _ h _ hstep => givesUp_step h hstep) h (.trivial _ _) hrest
      unfold InTime
      split
      · rename_i o n
        split
        · rename_i hcall
          intro hpast
          obtain ⟨⟨c, e⟩, hnext, rfl⟩ := Option.map_eq_some_iff.mp hstep
          rw [hcall] at hnext
          obtain ⟨rfl, rfl⟩ := Prod.mk.inj (Option.some.inj hnext)
          refine absurd ?_ hnot
          show (if s.past then Call.kill else Call.sleep).GivesUp
          rw [hpast]
          exact True.intro
        · exact True.intro
      · exact True.intro
    · obtain rfl := Option.some.inj (hstep.symm.trans ht)
      exact ih hrest

/-! ## The call returns -/

/-- What the last steps of the call rely on. -/
def Lasting (s : State) : Prop :=
  match s.call with
  | .wait => s.status ≠ none
  | .await _ _ => ∀ o, s.closed o = true
  | _ => True

theorem Lasting.step {l : Label} (h : Lasting s) (hstep : ExecSync.step capacity final s l = some s') :
    Lasting s' := by
  rcases step_cases hstep with ⟨o, n, c, e, -, hcall, rfl⟩ | ⟨hstatus, hchild⟩ | ⟨-, -, rfl⟩
  · generalize s.call = c₀ at hcall
    cases hcall with
    | kill =>
      show (if s.status = none then s.ended (.signaled SIGKILL) else s).status ≠ none
      split
      · exact Option.some_ne_none _
      · assumption
    | collected hout herr =>
      intro o
      cases o with
      | stdout => exact closed_of_atEnd hout
      | stderr => exact closed_of_atEnd herr
    | _ => exact True.intro
  · unfold Lasting at h ⊢
    rw [hchild.kept.1]
    cases hc : s.call with
    | wait =>
      rw [hc] at h
      exact absurd hstatus h
    | await stdout stderr =>
      rw [hc] at h
      intro o
      cases hchild with
      | exit => rfl
      | @close o' =>
        show update s.closed o' true o = true
        rw [update_apply, h o, ite_self]
      | skip => exact h o
      | put => exact h o
    | _ => exact True.intro
  · exact h

/-- What the child has yet to do. -/
def Op.work : Op → Nat
  | .write _ bytes => 2 * bytes.length + 1
  | .close _ => 1

def State.variant (s : State) : Nat :=
  s.call.rank + (s.ops.map Op.work).sum + (s.pipe .stdout).length + (s.pipe .stderr).length +
    (if s.status = none then 1 else 0) + if s.past then 0 else 1

/-- The child makes the variant smaller. -/
theorem variant_child (h : ChildStep capacity final s s') (hstatus : s.status = none) :
    s'.variant < s.variant := by
  obtain ⟨hcall, hpast⟩ := h.kept
  unfold State.variant
  rw [hcall, hpast, if_pos hstatus]
  cases h with
  | exit =>
    show s.call.rank + _ + _ + _ + (if some final = none then 1 else 0) + _ < _
    rw [if_neg (Option.some_ne_none _)]
    exact Nat.add_lt_add_right (Nat.lt_succ_self _) _
  | close hops =>
    dsimp only
    rw [if_pos hstatus, hops, List.map_cons, List.sum_cons]
    simp only [Op.work]
    omega
  | @skip o bytes ops hops hskip =>
    dsimp only
    rw [if_pos hstatus, hops, List.map_cons, List.sum_cons]
    simp only [Op.work]
    omega
  | @put o bytes ops n hops hopen hn hroom =>
    dsimp only
    have hwork : ((if n = bytes.length then ops else .write o (bytes.drop n) :: ops).map Op.work).sum +
        2 * n ≤ (ops.map Op.work).sum + 2 * bytes.length + 1 := by
      split
      · omega
      · rw [List.map_cons, List.sum_cons]
        simp only [Op.work, List.length_drop]
        omega
    have hpipes : (update s.pipe o (s.pipe o ++ bytes.take n) .stdout).length +
        (update s.pipe o (s.pipe o ++ bytes.take n) .stderr).length =
          (s.pipe .stdout).length + (s.pipe .stderr).length + n := by
      cases o <;> simp <;> omega
    rw [if_pos hstatus, hops, List.map_cons, List.sum_cons]
    simp only [Op.work]
    omega

/-- The child goes on, or is blocked. -/
theorem progress_child (hstatus : s.status = none) (hblocked : s.blocked capacity = false) :
    ∃ l s', step capacity final s l = some s' ∧ s'.variant < s.variant := by
  obtain ⟨n, s', hchild⟩ := exists_child hstatus hblocked
  exact ⟨.child n, s', hchild, variant_child (child_cases hchild).2 hstatus⟩

/-- A step of the call makes the variant smaller if it gets closer to its return. -/
theorem progress_call {o : Output} {c : Call} (hnext : s.call.next s.view o n = some (c, .nothing))
    (hrank : c.rank < s.call.rank) : ∃ l s', step capacity final s l = some s' ∧ s'.variant < s.variant := by
  refine ⟨.call o n, { s with call := c }, ?_, ?_⟩
  · rw [step, hnext]
    rfl
  · unfold State.variant
    dsimp only
    omega

/-- Reading makes the variant smaller. -/
theorem progress_drain {o o' : Output} {c : Call} (hnext : s.call.next s.view o' n = some (c, .drain o n))
    (hn : s.view.has o n) (hrank : c.rank = s.call.rank) :
    ∃ l s', step capacity final s l = some s' ∧ s'.variant < s.variant := by
  refine ⟨.call o' n, { s.apply (.drain o n) with call := c }, ?_, ?_⟩
  · rw [step, hnext]
    rfl
  · obtain ⟨hpos, hle⟩ : 0 < n ∧ n ≤ (s.pipe o).length := hn
    unfold State.variant
    show c.rank + _ + (update s.pipe o _ .stdout).length + (update s.pipe o _ .stderr).length + _ + _ < _
    have hpipes : (update s.pipe o ((s.pipe o).drop n) .stdout).length +
        (update s.pipe o ((s.pipe o).drop n) .stderr).length + n =
          (s.pipe .stdout).length + (s.pipe .stderr).length := by
      cases o <;> simp <;> omega
    show c.rank + (s.ops.map Op.work).sum + _ + _ + (if s.status = none then 1 else 0) +
      (if s.past = true then 0 else 1) < _
    omega

theorem progress_deadline (hpast : s.past = false) (h : s.status.isSome ∨ s.blocked capacity = true) :
    ∃ l s', step capacity final s l = some s' ∧ s'.variant < s.variant := by
  refine ⟨.deadline, { s with past := true }, ?_, ?_⟩
  · rw [step, if_pos ⟨hpast, h⟩]
  · unfold State.variant
    rw [hpast]
    simp

theorem progress_kill (hcall : s.call = .kill) :
    ∃ l s', step capacity final s l = some s' ∧ s'.variant < s.variant := by
  refine ⟨.call .stdout 0, { s.apply .kill with call := .wait }, ?_, ?_⟩
  · rw [step, hcall]
    rfl
  · unfold State.variant State.apply
    rw [hcall]
    by_cases hstatus : s.status = none
    · rw [if_pos hstatus, if_pos hstatus]
      show 5 + _ + _ + _ + (if some _ = none then 1 else 0) + _ < 6 + _ + _ + _ + _ + _
      rw [if_neg (Option.some_ne_none _)]
      show 5 + (s.ops.map Op.work).sum + (s.pipe .stdout).length + (s.pipe .stderr).length + 0 +
        (if s.past = true then 0 else 1) < _
      omega
    · rw [if_neg hstatus, if_neg hstatus]
      dsimp only [Call.rank]
      omega

/-- The call reads an output up to its end. -/
theorem has_or_atEnd {o : Output} (hclosed : s.closed o = true) :
    s.view.has o (s.pipe o).length ∨ s.view.atEnd o := by
  by_cases hnil : s.pipe o = []
  · refine .inr ⟨hnil, ?_⟩
    show (!s.closed o) = false
    rw [hclosed]
    rfl
  · exact .inl ⟨List.length_pos_of_ne_nil hnil, Nat.le_refl _⟩

theorem not_has_of_atEnd {o : Output} (h : s.view.atEnd o) (n : Nat) : ¬ s.view.has o n := by
  rintro ⟨hpos, hle⟩
  rw [h.1] at hle
  exact absurd (Nat.lt_of_lt_of_le hpos hle) (Nat.lt_irrefl 0)

/-- The child is not blocked where it has closed its outputs, or both pipes are empty. -/
theorem not_blocked_of (hcap : ∀ o, 0 < capacity o)
    (h : ∀ o, s.closed o = true ∨ s.pipe o = []) : s.blocked capacity = false := by
  by_contra hblocked
  have hblocked := Bool.eq_true_of_not_eq_false hblocked
  unfold State.blocked at hblocked
  split at hblocked
  · rename_i o bytes rest hops
    obtain ⟨-, hopen, hfull⟩ := of_decide_eq_true hblocked
    rcases h o with hclosed | hnil
    · cases hclosed.symm.trans hopen
    · rw [hnil] at hfull
      exact absurd (Nat.lt_of_lt_of_le (hcap o) hfull) (Nat.lt_irrefl 0)
  · cases hblocked

/-- As long as the call has not returned, it, its child or the clock can go on. -/
theorem progress (hcap : ∀ o, 0 < capacity o) (hsound : Sound ops final s) (hlasting : Lasting s) :
    s.call.Returned ∨ ∃ l s', step capacity final s l = some s' ∧ s'.variant < s.variant := by
  unfold Sound at hsound
  unfold Lasting at hlasting
  cases hcall : s.call with
  | poll =>
    refine .inr ?_
    cases hstatus : s.status with
    | some st =>
      refine progress_call (o := .stdout) (n := 0) (c := .readOut st []) ?_
        (by rw [hcall]; exact Nat.lt_of_sub_pos (Nat.succ_pos 3))
      rw [hcall, Call.next, show s.view.status = some st from hstatus]
    | none =>
      cases hblocked : s.blocked capacity with
      | false => exact progress_child hstatus hblocked
      | true =>
        cases hpast : s.past with
        | false => exact progress_deadline hpast (.inr hblocked)
        | true =>
          refine progress_call (o := .stdout) (n := 0) (c := .check) ?_ (by rw [hcall]; decide)
          rw [hcall, Call.next, show s.view.status = none from hstatus]
  | check =>
    refine .inr ?_
    cases hpast : s.past with
    | true =>
      refine progress_call (o := .stdout) (n := 0) (c := .kill) ?_ (by rw [hcall]; decide)
      rw [hcall, Call.next, show s.view.past = true from hpast]
      rfl
    | false =>
      cases hstatus : s.status with
      | some st => exact progress_deadline hpast (.inl (by rw [hstatus]; rfl))
      | none =>
        cases hblocked : s.blocked capacity with
        | false => exact progress_child hstatus hblocked
        | true => exact progress_deadline hpast (.inr hblocked)
  | sleep =>
    refine .inr (progress_call (o := .stdout) (n := 0) (c := .poll) ?_ (by rw [hcall]; decide))
    rw [hcall]
    rfl
  | kill => exact .inr (progress_kill hcall)
  | wait =>
    rw [hcall] at hlasting
    obtain ⟨st, hst⟩ := Option.ne_none_iff_exists'.mp hlasting
    refine .inr (progress_call (o := .stdout) (n := 0)
      (c := .returned (.error (.internal "exec timeout"))) ?_ (by rw [hcall]; exact Nat.succ_pos 4))
    rw [hcall, Call.next, show s.view.status = some st from hst]
    rfl
  | readOut st got =>
    rw [hcall] at hsound
    refine .inr ?_
    rcases has_or_atEnd ((hsound.1.status st hsound.2).2 .stdout) with hhas | hend
    · refine @progress_drain _ _ _ _ .stdout .stdout
        (.readOut st (got ++ (s.pipe .stdout).take (s.pipe .stdout).length)) ?_ hhas (by rw [hcall]; rfl)
      rw [hcall, Call.next, if_pos hhas]
      rfl
    · refine progress_call (o := .stdout) (n := 0) (c := .readErr st got []) ?_
        (by rw [hcall]; exact Nat.lt_succ_self 3)
      rw [hcall, Call.next, if_neg (not_has_of_atEnd hend 0), if_pos hend]
  | readErr st stdout got =>
    rw [hcall] at hsound
    refine .inr ?_
    rcases has_or_atEnd ((hsound.1.status st hsound.2.1).2 .stderr) with hhas | hend
    · refine @progress_drain _ _ _ _ .stderr .stderr
        (.readErr st stdout (got ++ (s.pipe .stderr).take (s.pipe .stderr).length)) ?_ hhas
        (by rw [hcall]; rfl)
      rw [hcall, Call.next, if_pos hhas]
      rfl
    · refine progress_call (o := .stdout) (n := 0)
        (c := .returned (.ok ⟨exitCodeFromStatus st, stdout, got⟩)) ?_
        (by rw [hcall]; exact Nat.succ_pos 2)
      rw [hcall, Call.next, if_neg (not_has_of_atEnd hend 0), if_pos hend]
  | collect stdout stderr =>
    rw [hcall] at hsound
    refine .inr ?_
    by_cases hout : s.pipe .stdout = []
    · by_cases herr : s.pipe .stderr = []
      · have hempty : ∀ o, s.pipe o = [] := fun o => by
          cases o with
          | stdout => exact hout
          | stderr => exact herr
        cases hstatus : s.status with
        | none => exact progress_child hstatus (not_blocked_of hcap fun o => .inr (hempty o))
        | some st =>
          have hend : ∀ o, s.view.atEnd o := fun o =>
            (has_or_atEnd ((hsound.status st hstatus).2 o)).resolve_left fun h => by
              rw [hempty o] at h
              exact absurd h.1 (Nat.lt_irrefl 0)
          refine progress_call (o := .stdout) (n := 0) (c := .await stdout stderr) ?_
            (by rw [hcall]; exact Nat.lt_succ_self 3)
          rw [hcall, Call.next, if_neg (not_has_of_atEnd (hend .stdout) 0),
            if_pos ⟨hend .stdout, hend .stderr⟩]
      · have hhas : s.view.has .stderr (s.pipe .stderr).length :=
          ⟨List.length_pos_of_ne_nil herr, Nat.le_refl _⟩
        refine @progress_drain _ _ _ _ .stderr .stderr
          (.collect stdout (stderr ++ (s.pipe .stderr).take (s.pipe .stderr).length)) ?_ hhas
          (by rw [hcall]; rfl)
        rw [hcall, Call.next, if_pos hhas]
        rfl
    · have hhas : s.view.has .stdout (s.pipe .stdout).length :=
        ⟨List.length_pos_of_ne_nil hout, Nat.le_refl _⟩
      refine @progress_drain _ _ _ _ .stdout .stdout
        (.collect (stdout ++ (s.pipe .stdout).take (s.pipe .stdout).length) stderr) ?_ hhas
        (by rw [hcall]; rfl)
      rw [hcall, Call.next, if_pos hhas]
      rfl
  | await stdout stderr =>
    rw [hcall] at hlasting
    refine .inr ?_
    cases hstatus : s.status with
    | none => exact progress_child hstatus (not_blocked_of hcap fun o => .inl (hlasting o))
    | some st =>
      refine progress_call (o := .stdout) (n := 0)
        (c := .returned (.ok ⟨exitCodeFromStatus st, stdout, stderr⟩)) ?_
        (by rw [hcall]; exact Nat.succ_pos 2)
      rw [hcall, Call.next, show s.view.status = some st from hstatus]
      rfl
  | returned r => exact .inl ⟨r, rfl⟩

theorem reaches_returned (hcap : ∀ o, 0 < capacity o) (hsound : Sound ops final s) (hlasting : Lasting s) :
    Reaches (step capacity final) (fun _ => True) s fun s' => s'.call.Returned := by
  refine reaches_of_variant (I := fun s => Sound ops final s ∧ Lasting s) State.variant ?_
    ⟨hsound, hlasting⟩
  rintro s ⟨hsound, hlasting⟩
  rcases progress hcap hsound hlasting with hret | ⟨l, s', hstep, hlt⟩
  · exact .inl hret
  · exact .inr ⟨l, s', True.intro, hstep, ⟨hsound.step hstep, hlasting.step hstep⟩, hlt⟩

/-! ## The answers -/

/-- The call drains the outputs as `wait_with_output` does. -/
def Call.Drains : Call → Prop
  | .collect _ _ => True
  | .await _ _ => True
  | .returned (.ok _) => True
  | _ => False

theorem drains_step {l : Label} (h : s.call.Drains) (hstep : step capacity final s l = some s') :
    s'.call.Drains := by
  rcases step_cases hstep with ⟨o, n, c, e, -, hcall, rfl⟩ | ⟨-, hchild⟩ | ⟨-, -, rfl⟩
  · generalize s.call = c₀ at h hcall
    cases hcall <;> first | exact True.intro | exact absurd h not_false
  · rw [hchild.kept.1]
    exact h
  · exact h

variable {ls : List Label} {r : Except BackendError ExecResult}

theorem Sound.poll (ops : List Op) (final : WaitStatus) : Sound ops final (init ops .poll) :=
  Conserved.init .poll fun _ => rfl

theorem Sound.collect (ops : List Op) (final : WaitStatus) :
    Sound ops final (init ops (.collect [] [])) :=
  Conserved.init (.collect [] []) fun o => by cases o <;> rfl

theorem sound_of_run {c : Call} (hinit : Sound ops final (init ops c))
    (hlast : Lasting (init ops c)) (hrun : run (step capacity final) (init ops c) ls = some s) :
    Sound ops final s ∧ Lasting s :=
  invariant_run (I := fun s => Sound ops final s ∧ Lasting s) (P := fun _ _ => True)
    (fun _ _ _ h _ hstep => ⟨h.1.step hstep, h.2.step hstep⟩) ⟨hinit, hlast⟩ (.trivial _ _) hrun

/-- Without a timeout. -/
theorem answer_of_collect (hrun : run (step capacity final) (init ops (.collect [] [])) ls = some s)
    (hr : s.call = .returned r) : r = answer ops final := by
  have hsound := (sound_of_run (.collect ops final) True.intro hrun).1
  have hdrains : s.call.Drains :=
    invariant_run (I := fun s => s.call.Drains) (P := fun _ _ => True)
      (fun _ _ _ h _ hstep => drains_step h hstep) True.intro (.trivial _ _) hrun
  unfold Sound at hsound
  rw [hr] at hsound hdrains
  cases r with
  | error e => exact absurd hdrains not_false
  | ok r => exact hsound

/-- With a timeout. -/
theorem answer_of_poll (hrun : run (step capacity final) (init ops .poll) ls = some s)
    (hr : s.call = .returned r) :
    r = answer ops final ↔
      Fits capacity ops ∧ Along (step capacity final) InTime (init ops .poll) ls := by
  have hinit : Sound ops final (init ops .poll) := .poll ops final
  constructor
  · rintro rfl
    have hbounded : Sound ops final s ∧ Bounded capacity ops s :=
      invariant_run (I := fun s => Sound ops final s ∧ Bounded capacity ops s) (P := fun _ _ => True)
        (fun _ _ _ h _ hstep => ⟨h.1.step hstep, h.2.step h.1 hstep⟩)
        ⟨hinit, fun _ => Nat.zero_le _⟩ (.trivial _ _) hrun
    have hfits := hbounded.2
    unfold Bounded at hfits
    rw [hr] at hfits
    refine ⟨hfits, inTime_of_run hrun ?_⟩
    rw [hr]
    exact not_false
  · rintro ⟨hfits, htime⟩
    have hspared : Sound ops final s ∧ Spared s :=
      invariant_run (I := fun s => Sound ops final s ∧ Spared s)
        (fun _ _ _ h htime hstep => ⟨h.1.step hstep, h.2.step hfits h.1 htime hstep⟩)
        ⟨hinit, fun _ h => Bool.noConfusion h, not_false⟩ htime hrun
    obtain ⟨hsound, hspared⟩ := hspared
    have hnot := hspared.call
    unfold Sound at hsound
    rw [hr] at hsound hnot
    cases r with
    | error e => exact absurd True.intro hnot
    | ok r => exact hsound

end

/-- **The answer with and without a timeout**: without one, every call that returns has the whole
output; with one, it has so exactly if each output fits into its pipe and the clock was looked at in
time. Either way the call can return from wherever it is. -/
theorem exec_same_iff {capacity : Output → Nat} (hcap : ∀ o, 0 < capacity o) (ops : List Op)
    (final : WaitStatus) :
    (∀ ls s, run (step capacity final) (init ops (.collect [] [])) ls = some s →
      (∀ r, s.call = .returned r → r = answer ops final) ∧
        Reaches (step capacity final) (fun _ => True) s fun s' => s'.call.Returned) ∧
    ∀ ls s, run (step capacity final) (init ops .poll) ls = some s →
      (∀ r, s.call = .returned r → (r = answer ops final ↔
          Fits capacity ops ∧ Along (step capacity final) InTime (init ops .poll) ls)) ∧
        Reaches (step capacity final) (fun _ => True) s fun s' => s'.call.Returned := by
  refine ⟨fun ls s hrun => ⟨fun r hr => answer_of_collect hrun hr, ?_⟩,
    fun ls s hrun => ⟨fun r hr => answer_of_poll hrun hr, ?_⟩⟩
  · obtain ⟨hsound, hlasting⟩ := sound_of_run (.collect ops final) True.intro hrun
    exact reaches_returned hcap hsound hlasting
  · obtain ⟨hsound, hlasting⟩ := sound_of_run (.poll ops final) True.intro hrun
    exact reaches_returned hcap hsound hlasting

/-- A child that writes two bytes, and exits between two rounds of the loop. -/
def shortRun : List Label :=
  [.call .stdout 0, .call .stdout 0, .child 2, .child 0, .call .stdout 0, .call .stdout 0,
    .call .stdout 2, .call .stdout 0, .call .stdout 0]

theorem exec_same_iff_short : ∃ s r,
    run (step (fun _ => 4) (.exited 0)) (init [.write .stdout [104, 105]] .poll) shortRun = some s ∧
      s.call = .returned r ∧ r = .ok ⟨0, [104, 105], []⟩ ∧
      (r = answer [.write .stdout [104, 105]] (.exited 0) ↔
        Fits (fun _ => 4) [.write .stdout [104, 105]] ∧
          Along (step (fun _ => 4) (.exited 0)) InTime (init [.write .stdout [104, 105]] .poll)
            shortRun) := by
  have hsame := (@exec_same_iff (fun _ => 4) (by decide) [.write .stdout [104, 105]] (.exited 0)).2
  exact ⟨_, _, rfl, rfl, rfl, (hsame shortRun _ rfl).1 _ rfl⟩

/-! ## An output that does not fit -/

/-- One byte more than a pipe holds. -/
def largeOutput : List Op := [.write .stdout (List.replicate 65537 0)]

/-- **A large output is not answered with a timeout**: the child waits for room in the
pipe until the deadline. -/
theorem exec_differs :
    ¬ ∀ (capacity : Output → Nat) (ops : List Op) (final : WaitStatus) (ls ls' : List Label)
        (s s' : State) (r r' : Except BackendError ExecResult), (∀ o, 0 < capacity o) →
      run (step capacity final) (init ops .poll) ls = some s → s.call = .returned r →
        run (step capacity final) (init ops (.collect [] [])) ls' = some s' →
          s'.call = .returned r' → r = r' := by
  intro h
  have hcap : ∀ o : Output, 0 < (fun _ => 65536 : Output → Nat) o := fun _ => Nat.succ_pos 65535
  obtain ⟨ls, s, -, hrun, r, hr⟩ := @reaches_returned _ (.exited 0) _ largeOutput hcap
    (.poll _ _) True.intro
  obtain ⟨ls', s', -, hrun', r', hr'⟩ := @reaches_returned _ (.exited 0) _ largeOutput hcap
    (.collect _ _) True.intro
  have hanswer := h _ _ _ ls ls' s s' r r' hcap hrun hr hrun' hr'
  rw [answer_of_collect hrun' hr'] at hanswer
  have hfits := ((answer_of_poll hrun hr).mp hanswer).1 .stdout
  have hlen : (outputOf .stdout largeOutput).length = 65537 := by
    unfold largeOutput
    rw [outputOf, if_pos rfl, outputOf, List.append_nil, List.length_replicate]
  rw [hlen] at hfits
  exact absurd hfits (by decide)

end LightrCri.Fake.ExecSync

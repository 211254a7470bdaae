import LightrCri.Fake.ExecSync

/-!
# The deadline of `exec_sync`

The child may fork, and its descendants keep its outputs, hand them on and leave its process group;
they end in any order. After the deadline the call kills the child and its group, unless it has seen
the child's exit: then it reads the outputs to their end, and waits for whoever holds them. So it
can return by its own steps exactly if no living process holds an output that it has yet to read
after the child's exit (`returns_iff`).
-/

namespace LightrCri.Fake.ExecSync.Tree

open Backend Foundations LightrCri.Stream LightrCri.Spdy Function

/-- A process. -/
structure Member where
  status : Option WaitStatus
  /-- It is in the process group of the child. -/
  group : Bool
  /-- It holds the write end of an output. -/
  holds : Output → Bool

def Member.ended (m : Member) (st : WaitStatus) : Member :=
  { m with status := some st, holds := fun _ => false }

/-- The processes, the child first, and the call. -/
structure State where
  procs : List Member
  past : Bool
  pipe : Output → Bytes
  call : Call

def init (others : Nat) : State where
  procs := ⟨none, true, fun _ => true⟩ :: List.replicate others ⟨none, false, fun _ => false⟩
  past := false
  pipe _ := []
  call := .poll

def State.held (s : State) (o : Output) : Bool := s.procs.any fun m => m.holds o

def State.view (s : State) : View where
  status := s.procs.head?.bind Member.status
  past := s.past
  pipe := s.pipe
  held := s.held

/-- SIGKILL to the child, and to the process group. -/
def killAll (procs : List Member) : List Member :=
  procs.mapIdx fun i m =>
    if m.status = none ∧ (i = 0 ∨ m.group = true) then m.ended (.signaled SIGKILL) else m

def State.apply (s : State) : Effect → State
  | .nothing => s
  | .drain o n => { s with pipe := update s.pipe o ((s.pipe o).drop n) }
  | .kill => { s with procs := killAll s.procs }

inductive Label
  | call (o : Output) (n : Nat)
  | fork (p : Nat)
  /-- A process leaves the group, or joins it. -/
  | regroup (p : Nat) (group : Bool)
  | close (p : Nat) (o : Output)
  /-- A process hands an output on to another. -/
  | pass (p q : Nat) (o : Output)
  | write (p : Nat) (o : Output) (bytes : Bytes)
  | exit (p : Nat) (st : WaitStatus)
  | deadline
  deriving DecidableEq, Repr

/-- The process, if it lives. -/
def State.living (s : State) (p : Nat) : Option Member := s.procs[p]?.filter fun m => m.status = none

def step (capacity : Output → Nat) (s : State) : Label → Option State
  | .call o n => (s.call.next s.view o n).map fun x => { s.apply x.2 with call := x.1 }
  | .fork p => (s.living p).map fun m => { s with procs := s.procs ++ [m] }
  | .regroup p group => (s.living p).map fun m => { s with procs := s.procs.set p { m with group := group } }
  | .close p o =>
    (s.living p).map fun m => { s with procs := s.procs.set p { m with holds := update m.holds o false } }
  | .pass p q o =>
    (s.living p).bind fun m => (s.living q).bind fun m' =>
      if m.holds o then some { s with procs := s.procs.set q { m' with holds := update m'.holds o true } }
      else none
  | .write p o bytes =>
    (s.living p).bind fun m =>
      if m.holds o = true ∧ (s.pipe o).length + bytes.length ≤ capacity o then
        some { s with pipe := update s.pipe o (s.pipe o ++ bytes) }
      else none
  | .exit p st => (s.living p).map fun m => { s with procs := s.procs.set p (m.ended st) }
  | .deadline => some { s with past := true }

/-- A step of the call. -/
def Own (l : Label) : Prop := ∃ o n, l = .call o n

/-- The outputs that the call has yet to read after the exit of the child. -/
def State.unread (s : State) : List Output :=
  match s.call with
  | .poll => if s.view.status.isSome then [.stdout, .stderr] else []
  | .sleep => if s.view.status.isSome then [.stdout, .stderr] else []
  | .readOut _ _ => [.stdout, .stderr]
  | .readErr _ _ _ => [.stderr]
  | _ => []

/-- Such an output is held by a living process. -/
def State.Awaits (s : State) : Prop := ∃ o ∈ s.unread, s.held o = true

/-! ## The steps of the call -/

section

variable {capacity : Output → Nat} {s s' : State}

theorem call_cases {o : Output} {n : Nat} (h : step capacity s (.call o n) = some s') :
    ∃ c e, CallStep s.view s.call c e ∧ s' = { s.apply e with call := c } := by
  obtain ⟨⟨c, e⟩, hnext, rfl⟩ := Option.map_eq_some_iff.mp h
  exact ⟨c, e, next_cases hnext, rfl⟩

/-- What is held stays held, as long as nobody is killed. -/
theorem State.Awaits.step {o : Output} {n : Nat} (h : s.Awaits) (hstep : Tree.step capacity s (.call o n) = some s') :
    s'.Awaits := by
  obtain ⟨c, e, hcall, rfl⟩ := call_cases hstep
  obtain ⟨o', ho', hheld⟩ := h
  unfold State.unread at ho'
  generalize s.call = c₀ at ho' hcall
  cases hcall with
  | found hst =>
    rw [hst] at ho'
    exact ⟨o', ho', hheld⟩
  | running hst =>
    rw [hst] at ho'
    cases ho'
  | awake => exact ⟨o', ho', hheld⟩
  | readOut => exact ⟨o', ho', hheld⟩
  | endOut hend =>
    refine ⟨o', ?_, hheld⟩
    rcases List.mem_cons.mp ho' with rfl | ho'
    · cases hheld.symm.trans hend.2
    · exact ho'
  | readErr => exact ⟨o', ho', hheld⟩
  | endErr hend =>
    rw [List.mem_singleton.mp ho'] at hheld
    cases hheld.symm.trans hend.2
  | _ => cases ho'

theorem not_returned_of_awaits (h : s.Awaits) : ¬ s.call.Returned := by
  rintro ⟨r, hr⟩
  obtain ⟨o, ho, -⟩ := h
  unfold State.unread at ho
  rw [hr] at ho
  cases ho

theorem not_reaches_of_awaits (h : s.Awaits) :
    ¬ Reaches (step capacity) Own s fun s' => s'.call.Returned := by
  rintro ⟨ls, s', hown, hrun, hret⟩
  refine not_returned_of_awaits ?_ hret
  refine invariant_run (I := State.Awaits) (P := fun _ l => Own l) ?_ h (.of_labels hown) hrun
  rintro s₁ l s₂ hs₁ ⟨o, n, rfl⟩ hstep
  exact hs₁.step hstep

/-! ## The call goes on -/

/-- The call has a child, and waits for it only after it was killed. -/
def Timed (s : State) : Prop :=
  s.procs ≠ [] ∧
    match s.call with
    | .wait => s.view.status ≠ none
    | .collect _ _ => False
    | .await _ _ => False
    | _ => True

theorem status_killAll {procs : List Member} (h : procs ≠ []) :
    (killAll procs).head?.bind Member.status ≠ none := by
  cases procs with
  | nil => exact absurd rfl h
  | cons m procs =>
    unfold killAll
    rw [List.mapIdx_cons, List.head?_cons, Option.bind_some]
    split
    · exact Option.some_ne_none _
    · rename_i hcond
      intro hnone
      exact hcond ⟨hnone, .inl rfl⟩

theorem Timed.call {o : Output} {n : Nat} (h : Timed s)
    (hstep : Tree.step capacity s (.call o n) = some s') : Timed s' := by
  obtain ⟨c, e, hcall, rfl⟩ := call_cases hstep
  obtain ⟨hprocs, h⟩ := h
  generalize s.call = c₀ at h hcall
  cases hcall with
  | kill =>
    exact ⟨fun hnil => hprocs (List.mapIdx_eq_nil_iff.mp hnil), status_killAll hprocs⟩
  | collectOut => exact absurd h not_false
  | collectErr => exact absurd h not_false
  | collected => exact absurd h not_false
  | awaited => exact absurd h not_false
  | _ => exact ⟨hprocs, True.intro⟩

/-- A child that has ended stays so. -/
def Kept (s s' : State) : Prop :=
  s'.call = s.call ∧ (s.procs ≠ [] → s'.procs ≠ []) ∧ (s.view.status ≠ none → s'.view.status ≠ none)

theorem Timed.of_kept (h : Timed s) (hkept : Kept s s') : Timed s' := by
  obtain ⟨hcall, hprocs, hstatus⟩ := hkept
  refine ⟨hprocs h.1, ?_⟩
  have hrest := h.2
  rw [hcall]
  cases hc : s.call with
  | wait =>
    rw [hc] at hrest
    exact hstatus hrest
  | collect =>
    rw [hc] at hrest
    exact hrest
  | await =>
    rw [hc] at hrest
    exact hrest
  | _ => exact True.intro

theorem living_cases {p : Nat} {m : Member} (h : s.living p = some m) :
    s.procs[p]? = some m ∧ m.status = none := by
  unfold State.living at h
  obtain ⟨hp, hstatus⟩ := Option.filter_eq_some_iff.mp h
  exact ⟨hp, of_decide_eq_true hstatus⟩

/-- A living process changes. -/
theorem kept_set {p : Nat} {m m' : Member} (h : s.living p = some m) :
    Kept s { s with procs := s.procs.set p m' } := by
  obtain ⟨hp, hstatus⟩ := living_cases h
  refine ⟨rfl, fun hprocs hnil => hprocs ?_, fun hne => ?_⟩
  · exact (List.set_eq_nil_iff p m').mp hnil
  · show (s.procs.set p m').head?.bind Member.status ≠ none
    cases p with
    | zero =>
      -- the child has ended, so it is not the one that changes
      refine absurd ?_ hne
      show s.procs.head?.bind Member.status = none
      rw [List.head?_eq_getElem?, hp, Option.bind_some, hstatus]
    | succ p =>
      rw [List.head?_eq_getElem?, List.getElem?_set_ne (Nat.succ_ne_zero p), ← List.head?_eq_getElem?]
      exact hne

theorem Timed.step {l : Label} (h : Timed s) (hstep : Tree.step capacity s l = some s') : Timed s' := by
  cases l with
  | call o n => exact h.call hstep
  | fork p =>
    obtain ⟨m, hm, rfl⟩ := Option.map_eq_some_iff.mp hstep
    refine h.of_kept ⟨rfl, fun _ hnil => ?_, fun hne => ?_⟩
    · exact absurd (List.append_eq_nil_iff.mp hnil).2 (List.cons_ne_nil _ _)
    · show (s.procs ++ [m]).head?.bind Member.status ≠ none
      rw [List.head?_append_of_ne_nil _ h.1]
      exact hne
  | regroup p group =>
    obtain ⟨m, hm, rfl⟩ := Option.map_eq_some_iff.mp hstep
    exact h.of_kept (kept_set hm)
  | close p o =>
    obtain ⟨m, hm, rfl⟩ := Option.map_eq_some_iff.mp hstep
    exact h.of_kept (kept_set hm)
  | pass p q o =>
    obtain ⟨m, hm, hstep⟩ := Option.bind_eq_some_iff.mp hstep
    obtain ⟨m', hm', hstep⟩ := Option.bind_eq_some_iff.mp hstep
    split at hstep
    · obtain rfl := Option.some.inj hstep
      exact h.of_kept (kept_set hm')
    · cases hstep
  | write p o bytes =>
    obtain ⟨m, hm, hstep⟩ := Option.bind_eq_some_iff.mp hstep
    split at hstep
    · obtain rfl := Option.some.inj hstep
      exact h.of_kept ⟨rfl, id, id⟩
    · cases hstep
  | exit p st =>
    obtain ⟨m, hm, rfl⟩ := Option.map_eq_some_iff.mp hstep
    exact h.of_kept (kept_set hm)
  | deadline =>
    obtain rfl := Option.some.inj hstep
    exact h.of_kept ⟨rfl, id, id⟩

/-- What the call has yet to do. -/
def State.variant (s : State) : Nat :=
  s.call.rank + (s.pipe .stdout).length + (s.pipe .stderr).length

/-- A step of the call gets it closer to its return. -/
theorem exists_call {o : Output} {n : Nat} {c : Call} (hnext : s.call.next s.view o n = some (c, .nothing))
    (hrank : c.rank < s.call.rank) :
    ∃ s', step capacity s (.call o n) = some s' ∧ s'.variant < s.variant ∧ s'.past = s.past ∧
      s'.held = s.held ∧ s'.view.status = s.view.status ∧ s'.call = c := by
  refine ⟨{ s with call := c }, ?_, ?_, rfl, rfl, rfl, rfl⟩
  · rw [step, hnext]
    rfl
  · unfold State.variant
    dsimp only
    omega

/-- The call reads all that is in a pipe. -/
theorem exists_drain {o : Output} {c : Call} (hpipe : s.pipe o ≠ [])
    (hnext : s.call.next s.view o (s.pipe o).length = some (c, .drain o (s.pipe o).length))
    (hrank : c.rank = s.call.rank) :
    ∃ s', step capacity s (.call o (s.pipe o).length) = some s' ∧ s'.variant < s.variant ∧
      s'.past = s.past ∧ s'.held = s.held ∧ s'.view.status = s.view.status ∧ s'.call = c := by
  refine ⟨{ s.apply (.drain o (s.pipe o).length) with call := c }, ?_, ?_, rfl, rfl, rfl, rfl⟩
  · rw [step, hnext]
    rfl
  · have hpos := List.length_pos_of_ne_nil hpipe
    unfold State.variant
    show c.rank + (update s.pipe o _ .stdout).length + (update s.pipe o _ .stderr).length < _
    have hpipes : (update s.pipe o ((s.pipe o).drop (s.pipe o).length) .stdout).length +
        (update s.pipe o ((s.pipe o).drop (s.pipe o).length) .stderr).length + (s.pipe o).length =
          (s.pipe .stdout).length + (s.pipe .stderr).length := by
      cases o with
      | stdout =>
        simp
        omega
      | stderr => simp
    omega

theorem not_awaits_of {s' : State} (h : ¬ s.Awaits) (hheld : s'.held = s.held)
    (hunread : ∀ o ∈ s'.unread, o ∈ s.unread) : ¬ s'.Awaits := by
  rintro ⟨o, ho, hs⟩
  exact h ⟨o, hunread o ho, hheld ▸ hs⟩

/-- After the deadline, a call that awaits nobody goes on. -/
theorem progress (htimed : Timed s) (hpast : s.past = true) (hfree : ¬ s.Awaits) :
    s.call.Returned ∨ ∃ l s', Own l ∧ step capacity s l = some s' ∧ s'.past = true ∧ ¬ s'.Awaits ∧
      s'.variant < s.variant := by
  -- an output that nobody holds is at its end once it is read
  have hend : ∀ o, o ∈ s.unread → s.pipe o = [] → s.view.atEnd o := fun o ho hnil =>
    ⟨hnil, Bool.eq_false_iff.mpr fun hheld => hfree ⟨o, ho, hheld⟩⟩
  have hempty : ∀ {o}, s.view.atEnd o → ∀ n, ¬ s.view.has o n := fun {o} h n hhas => by
    have hlen := Nat.lt_of_lt_of_le hhas.1 hhas.2
    rw [h.1] at hlen
    exact absurd hlen (Nat.lt_irrefl 0)
  obtain ⟨-, htimed⟩ := htimed
  cases hcall : s.call with
  | poll =>
    cases hstatus : s.view.status with
    | some st =>
      obtain ⟨s', hstep, hlt, hpast', hheld, hst, hc⟩ := @exists_call capacity s .stdout 0 (.readOut st [])
        (by rw [hcall, Call.next, hstatus]) (by rw [hcall]; exact Nat.lt_of_sub_pos (Nat.succ_pos 3))
      refine .inr ⟨_, s', ⟨_, _, rfl⟩, hstep, hpast'.trans hpast, not_awaits_of hfree hheld ?_, hlt⟩
      intro o ho
      unfold State.unread at ho ⊢
      rw [hc] at ho
      rw [hcall, hstatus]
      exact ho
    | none =>
      obtain ⟨s', hstep, hlt, hpast', hheld, -, hc⟩ := @exists_call capacity s .stdout 0 .check
        (by rw [hcall, Call.next, hstatus]) (by rw [hcall]; decide)
      refine .inr ⟨_, s', ⟨_, _, rfl⟩, hstep, hpast'.trans hpast, not_awaits_of hfree hheld ?_, hlt⟩
      intro o ho
      unfold State.unread at ho
      rw [hc] at ho
      cases ho
  | check =>
    obtain ⟨s', hstep, hlt, hpast', hheld, -, hc⟩ := @exists_call capacity s .stdout 0 .kill
      (by rw [hcall, Call.next, show s.view.past = true from hpast]; rfl) (by rw [hcall]; decide)
    refine .inr ⟨_, s', ⟨_, _, rfl⟩, hstep, hpast'.trans hpast, not_awaits_of hfree hheld ?_, hlt⟩
    intro o ho
    unfold State.unread at ho
    rw [hc] at ho
    cases ho
  | sleep =>
    obtain ⟨s', hstep, hlt, hpast', hheld, hst, hc⟩ := @exists_call capacity s .stdout 0 .poll
      (by rw [hcall]; rfl) (by rw [hcall]; decide)
    refine .inr ⟨_, s', ⟨_, _, rfl⟩, hstep, hpast'.trans hpast, not_awaits_of hfree hheld ?_, hlt⟩
    intro o ho
    unfold State.unread at ho ⊢
    rw [hc, hst] at ho
    rw [hcall]
    exact ho
  | kill =>
    refine .inr ⟨.call .stdout 0, { s.apply .kill with call := .wait }, ⟨_, _, rfl⟩, ?_, hpast, ?_, ?_⟩
    · rw [step, hcall]
      rfl
    · rintro ⟨o, ho, -⟩
      cases ho
    · unfold State.variant
      rw [hcall]
      exact Nat.add_lt_add_right (Nat.add_lt_add_right (Nat.lt_succ_self 5) _) _
  | wait =>
    rw [hcall] at htimed
    obtain ⟨st, hst⟩ := Option.ne_none_iff_exists'.mp htimed
    obtain ⟨s', hstep, hlt, hpast', hheld, -, hc⟩ := @exists_call capacity s .stdout 0
      (.returned (.error (.internal "exec timeout")))
      (by rw [hcall, Call.next, hst]; rfl) (by rw [hcall]; exact Nat.succ_pos 4)
    refine .inr ⟨_, s', ⟨_, _, rfl⟩, hstep, hpast'.trans hpast, not_awaits_of hfree hheld ?_, hlt⟩
    intro o ho
    unfold State.unread at ho
    rw [hc] at ho
    cases ho
  | readOut st got =>
    have hunread : s.unread = [.stdout, .stderr] := by
      unfold State.unread
      rw [hcall]
    by_cases hpipe : s.pipe .stdout = []
    · have hat := hend .stdout (by rw [hunread]; exact List.mem_cons_self) hpipe
      obtain ⟨s', hstep, hlt, hpast', hheld, -, hc⟩ := @exists_call capacity s .stdout 0 (.readErr st got [])
        (by rw [hcall, Call.next, if_neg (hempty hat 0), if_pos hat])
        (by rw [hcall]; exact Nat.lt_succ_self 3)
      refine .inr ⟨_, s', ⟨_, _, rfl⟩, hstep, hpast'.trans hpast, not_awaits_of hfree hheld ?_, hlt⟩
      intro o ho
      unfold State.unread at ho
      rw [hc] at ho
      rw [hunread]
      exact List.mem_cons_of_mem _ ho
    · have hhas : s.view.has .stdout (s.pipe .stdout).length :=
        ⟨List.length_pos_of_ne_nil hpipe, Nat.le_refl _⟩
      obtain ⟨s', hstep, hlt, hpast', hheld, -, hc⟩ := @exists_drain capacity s .stdout
        (.readOut st (got ++ (s.pipe .stdout).take (s.pipe .stdout).length)) hpipe
        (by rw [hcall, Call.next, if_pos hhas]; rfl) (by rw [hcall]; rfl)
      refine .inr ⟨_, s', ⟨_, _, rfl⟩, hstep, hpast'.trans hpast, not_awaits_of hfree hheld ?_, hlt⟩
      intro o ho
      unfold State.unread at ho
      rw [hc] at ho
      rw [hunread]
      exact ho
  | readErr st stdout got =>
    have hunread : s.unread = [.stderr] := by
      unfold State.unread
      rw [hcall]
    by_cases hpipe : s.pipe .stderr = []
    · have hat := hend .stderr (by rw [hunread]; exact List.mem_cons_self) hpipe
      obtain ⟨s', hstep, hlt, hpast', hheld, -, hc⟩ := @exists_call capacity s .stdout 0
        (.returned (.ok ⟨exitCodeFromStatus st, stdout, got⟩))
        (by rw [hcall, Call.next, if_neg (hempty hat 0), if_pos hat]) (by rw [hcall]; exact Nat.succ_pos 2)
      refine .inr ⟨_, s', ⟨_, _, rfl⟩, hstep, hpast'.trans hpast, not_awaits_of hfree hheld ?_, hlt⟩
      intro o ho
      unfold State.unread at ho
      rw [hc] at ho
      cases ho
    · have hhas : s.view.has .stderr (s.pipe .stderr).length :=
        ⟨List.length_pos_of_ne_nil hpipe, Nat.le_refl _⟩
      obtain ⟨s', hstep, hlt, hpast', hheld, -, hc⟩ := @exists_drain capacity s .stderr
        (.readErr st stdout (got ++ (s.pipe .stderr).take (s.pipe .stderr).length)) hpipe
        (by rw [hcall, Call.next, if_pos hhas]; rfl) (by rw [hcall]; rfl)
      refine .inr ⟨_, s', ⟨_, _, rfl⟩, hstep, hpast'.trans hpast, not_awaits_of hfree hheld ?_, hlt⟩
      intro o ho
      unfold State.unread at ho
      rw [hc] at ho
      rw [hunread]
      exact ho
  | collect =>
    rw [hcall] at htimed
    exact absurd htimed not_false
  | await =>
    rw [hcall] at htimed
    exact absurd htimed not_false
  | returned r => exact .inl ⟨r, rfl⟩

theorem reaches_of_not_awaits (htimed : Timed s) (hpast : s.past = true) (hfree : ¬ s.Awaits) :
    Reaches (step capacity) Own s fun s' => s'.call.Returned := by
  refine reaches_of_variant (I := fun s => Timed s ∧ s.past = true ∧ ¬ s.Awaits) State.variant ?_
    ⟨htimed, hpast, hfree⟩
  rintro s ⟨htimed, hpast, hfree⟩
  rcases @progress capacity s htimed hpast hfree with hret | ⟨l, s', hown, hstep, hpast', hfree', hlt⟩
  · exact .inl hret
  · exact .inr ⟨l, s', hown, hstep, ⟨htimed.step hstep, hpast', hfree'⟩, hlt⟩

end

/-- **The deadline**: in a state after it, the call can return by its own steps exactly if no living
process holds an output that it has yet to read after the exit of the child. -/
theorem returns_iff {capacity : Output → Nat} {others : Nat} {ls : List Label} {s : State}
    (hrun : run (step capacity) (init others) ls = some s) (hpast : s.past = true) :
    (Reaches (step capacity) Own s fun s' => s'.call.Returned) ↔ ¬ s.Awaits := by
  have htimed : Timed s := invariant_run (I := Timed) (P := fun _ _ => True)
    (fun _ _ _ h _ hstep => h.step hstep) ⟨List.cons_ne_nil _ _, True.intro⟩ (.trivial _ _) hrun
  exact ⟨fun hreaches hawaits => not_reaches_of_awaits hawaits hreaches,
    reaches_of_not_awaits htimed hpast⟩

/-- The child forks, and is still there at the deadline. -/
theorem returns_iff_running : ∃ s,
    run (step fun _ => 65536) (init 0) [.fork 0, .deadline] = some s ∧ s.held .stdout = true ∧
      ((Reaches (step fun _ => 65536) Own s fun s' => s'.call.Returned) ↔ ¬ s.Awaits) :=
  ⟨_, rfl, rfl, @returns_iff (fun _ => 65536) 0 [.fork 0, .deadline] _ rfl rfl⟩

/-! ## A descendant that holds an output -/

/-- The child forks and exits, and the call goes on to read its outputs. -/
def forkRun : List Label := [.fork 0, .exit 0 (.exited 0), .call .stdout 0, .deadline]

/-- **A descendant is waited for after the deadline.** -/
theorem deadline_missed :
    ¬ ∀ (capacity : Output → Nat) (others : Nat) (ls : List Label) (s : State),
      run (step capacity) (init others) ls = some s → s.past = true →
        Reaches (step capacity) Own s fun s' => s'.call.Returned := by
  intro h
  obtain ⟨s, hrun, hpast, hunread, hheld⟩ : ∃ s,
      run (step fun _ => 65536) (init 0) forkRun = some s ∧ s.past = true ∧
        s.unread = [.stdout, .stderr] ∧ s.held .stdout = true := ⟨_, rfl, rfl, rfl, rfl⟩
  refine not_reaches_of_awaits ⟨.stdout, ?_, hheld⟩ (h _ _ _ s hrun hpast)
  rw [hunread]
  exact List.mem_cons_self

end LightrCri.Fake.ExecSync.Tree

import LightrCri.Fake.ExecSync

/-!
# A crash of the listener

The ends of a pipe-mode container's pipes are in the listener: the tee threads and the io table hold
the read ends of its outputs, the io table the write end of its stdin. A duplicate is not
close-on-exec, so that what the listener spawns later holds it too. Nobody holds the others after a
crash, and a reopened listener gets none back.

A run is compared with the one where the listener is not killed (`Label.lasting`). The process's own
run is the same as long as what the process does next needs no end that the listener held
(`same_run_iff`).
-/

namespace LightrCri.Fake.Crash

open Backend Foundations LightrCri.Stream LightrCri.Spdy Function

/-! ## The process -/

inductive Act
  | write (o : Output) (data : Bytes)
  | read (n : Nat)
  | exit (st : WaitStatus)
  deriving DecidableEq, Repr

inductive Result
  /-- The write returns this count. -/
  | wrote (n : Nat)
  /-- The write returns EPIPE. -/
  | broken
  | got (bytes : Bytes)
  deriving DecidableEq, Repr

/-- The container's process and its stdio. -/
structure Container where
  /-- What the process does after these results. -/
  next : List Result → Act
  /-- It ignores SIGPIPE by then. -/
  ignores : List Result → Bool
  /-- The stdin of its config. Without it, its stdin is the null device. -/
  stdin : Bool
  /-- How many bytes a pipe holds. -/
  capacity : Output → Nat
  inputCapacity : Nat

/-- The process's own run so far. -/
structure Own where
  results : List Result
  /-- So many bytes of the write at hand are in the pipe. -/
  written : Nat
  ended : Option WaitStatus
  deriving DecidableEq, Repr

def Own.result (own : Own) (r : Result) : Own := ⟨own.results ++ [r], 0, none⟩

/-! ## The listener -/

inductive Listener
  /-- The one that has started the container. -/
  | first
  | down
  | reopened
  deriving DecidableEq, Repr

/-- A process that the listener has spawned after the container. -/
structure Heir where
  /-- It holds the duplicates of the outputs' read ends. -/
  outputs : Bool
  /-- It holds a duplicate of the stdin's write end. -/
  stdin : Bool
  deriving DecidableEq, Repr

structure State where
  own : Own
  /-- What is in the pipe of an output. -/
  output : Output → Bytes
  input : Bytes
  listener : Listener
  /-- The attach sessions, each with its duplicate of the stdin's write end. -/
  sessions : Nat
  heirs : List Heir

def init : State := ⟨⟨[], 0, none⟩, fun _ => [], [], .first, 0, []⟩

/-- A process other than the container's holds a read end of its outputs. -/
def State.readable (s : State) : Prop := s.listener = .first ∨ ∃ h ∈ s.heirs, h.outputs = true

/-- A process other than the container's holds a write end of its stdin. -/
def State.writable (s : State) : Prop := s.listener = .first ∨ ∃ h ∈ s.heirs, h.stdin = true

instance (s : State) : Decidable s.readable := instDecidableOr

instance (s : State) : Decidable s.writable := instDecidableOr

def State.write (c : Container) (s : State) (o : Output) (data : Bytes) : Option State :=
  if s.own.written = data.length then
    some { s with own := s.own.result (.wrote data.length) }
  else if ¬ s.readable then
    some { s with
      own :=
        if c.ignores s.own.results then
          s.own.result (if s.own.written = 0 then .broken else .wrote s.own.written)
        else { s.own with ended := some (.signaled 13) } }
  else if (s.output o).length < c.capacity o then
    some { s with
      own := { s.own with written := s.own.written + 1 }
      output := update s.output o (s.output o ++ (data.drop s.own.written).take 1) }
  else none

def State.read (c : Container) (s : State) (n : Nat) : Option State :=
  if n = 0 ∨ c.stdin = false then some { s with own := s.own.result (.got []) }
  else if s.input ≠ [] then
    some { s with own := s.own.result (.got (s.input.take n)), input := s.input.drop n }
  else if ¬ s.writable then some { s with own := s.own.result (.got []) }
  else none

/-- The next step of the process. -/
def State.act (c : Container) (s : State) : Option State :=
  if s.own.ended = none then
    match c.next s.own.results with
    | .write o data => s.write c o data
    | .read n => s.read c n
    | .exit st => some { s with own := { s.own with ended := some st } }
  else none

inductive Label
  | act
  /-- A tee thread reads. -/
  | tee (o : Output) (n : Nat)
  | attach
  | detach
  /-- An attach session writes. -/
  | type (bytes : Bytes)
  /-- The listener spawns a process. -/
  | spawn
  | heirEnds (i : Nat)
  | kill
  | reopen
  deriving DecidableEq, Repr

/-- The step is one of the run where the listener is not killed. -/
def Label.lasting : Label → Bool
  | .kill | .reopen => false
  | _ => true

def step (c : Container) (s : State) : Label → Option State
  | .act => s.act c
  | .tee o n =>
    if s.listener = .first ∧ 0 < n ∧ n ≤ (s.output o).length then
      some { s with output := update s.output o ((s.output o).drop n) }
    else none
  | .attach =>
    if s.listener = .first ∧ c.stdin = true then some { s with sessions := s.sessions + 1 } else none
  | .detach => if 0 < s.sessions then some { s with sessions := s.sessions - 1 } else none
  | .type bytes =>
    if 0 < s.sessions ∧ s.input.length + bytes.length ≤ c.inputCapacity then
      some { s with input := s.input ++ bytes }
    else none
  | .spawn =>
    match s.listener with
    | .first => some { s with heirs := s.heirs ++ [⟨true, decide (0 < s.sessions)⟩] }
    | .down => none
    | .reopened => some { s with heirs := s.heirs ++ [⟨false, false⟩] }
  | .heirEnds i => if i < s.heirs.length then some { s with heirs := s.heirs.eraseIdx i } else none
  | .kill => if s.listener = .down then none else some { s with listener := .down, sessions := 0 }
  | .reopen => if s.listener = .down then some { s with listener := .reopened } else none

/-! ## The two runs -/

def Tees (l : Label) : Prop := ∃ o n, l = .tee o n

/-- With the help of the tee threads, the process's next step leads its own run to `own`. -/
def State.Next (c : Container) (s : State) (own : Own) : Prop :=
  Reaches (step c) Tees s fun t => ∃ t', step c t .act = some t' ∧ t'.own = own

/-- The process's own run is the one where the listener is not killed: what it did so far, and what
its next step can be. -/
def Same (c : Container) (ls : List Label) : Prop :=
  ∃ s s₀, run (step c) init ls = some s ∧ run (step c) init (ls.filter Label.lasting) = some s₀ ∧
    s.own = s₀.own ∧ ∀ own, s.Next c own ↔ s₀.Next c own

/-- The next step of the process needs no end that the first listener held. -/
def State.Spared (c : Container) (s : State) : Prop :=
  s.listener = .first ∨ s.own.ended ≠ none ∨
    match c.next s.own.results with
    | .write o data =>
      s.own.written = data.length ∨ s.readable ∧ (s.output o).length < c.capacity o
    | .read n => n = 0 ∨ c.stdin = false ∨ s.input ≠ [] ∨ s.writable
    | .exit _ => True

/-- What the next step of the process makes of its own run, with the listener there. -/
def State.alone (c : Container) (s : State) : Option Own :=
  if s.own.ended = none then
    match c.next s.own.results with
    | .write _ data =>
      some (if s.own.written = data.length then s.own.result (.wrote data.length)
        else { s.own with written := s.own.written + 1 })
    | .read n =>
      if n = 0 ∨ c.stdin = false then some (s.own.result (.got []))
      else if s.input ≠ [] then some (s.own.result (.got (s.input.take n)))
      else none
    | .exit st => some { s.own with ended := some st }
  else none

section

variable {c : Container} {s s' : State} {own : Own}

theorem readable_first (h : s.listener = .first) : s.readable := .inl h

theorem writable_first (h : s.listener = .first) : s.writable := .inl h

theorem alone_of_act (hfirst : s.listener = .first) (h : s.act c = some s') :
    s.alone c = some s'.own := by
  unfold State.act at h
  unfold State.alone
  split at h
  · rename_i hrun
    rw [if_pos hrun]
    split at h
    · unfold State.write at h
      rw [if_neg (not_not.mpr (readable_first hfirst))] at h
      split at h
      · rename_i hall
        obtain rfl := Option.some.inj h
        simp only [if_pos hall]
      · rename_i hall
        split at h
        · obtain rfl := Option.some.inj h
          simp only [if_neg hall]
        · cases h
    · unfold State.read at h
      rw [if_neg (not_not.mpr (writable_first hfirst))] at h
      split at h
      · rename_i hnull
        obtain rfl := Option.some.inj h
        simp only [if_pos hnull]
      · rename_i hnull
        split at h
        · rename_i hinput
          obtain rfl := Option.some.inj h
          simp only [if_neg hnull, if_pos hinput]
        · cases h
    · obtain rfl := Option.some.inj h
      rfl
  · cases h

theorem act_of_alone (hfirst : s.listener = .first)
    (hroom : ∀ o, (s.output o).length < c.capacity o) (h : s.alone c = some own) :
    ∃ s', s.act c = some s' ∧ s'.own = own := by
  unfold State.alone at h
  unfold State.act
  split at h
  · rename_i hrun
    rw [if_pos hrun]
    split at h
    · rename_i o data _
      obtain rfl := Option.some.inj h
      unfold State.write
      rw [if_neg (not_not.mpr (readable_first hfirst)), if_pos (hroom o)]
      split
      · exact ⟨_, rfl, rfl⟩
      · exact ⟨_, rfl, rfl⟩
    · unfold State.read
      split at h
      · rename_i hnull
        obtain rfl := Option.some.inj h
        exact ⟨_, if_pos hnull, rfl⟩
      · rename_i hnull
        rw [if_neg hnull]
        split at h
        · rename_i hinput
          obtain rfl := Option.some.inj h
          exact ⟨_, if_pos hinput, rfl⟩
        · cases h
    · obtain rfl := Option.some.inj h
      exact ⟨_, rfl, rfl⟩
  · cases h

theorem alone_congr {t : State} (hown : t.own = s.own) (hinput : t.input = s.input) :
    t.alone c = s.alone c := by
  unfold State.alone
  rw [hown, hinput]

theorem tee_eq_some {o : Output} {n : Nat} (h : step c s (.tee o n) = some s') :
    s.listener = .first ∧
      s' = { s with output := update s.output o ((s.output o).drop n) } := by
  simp only [step] at h
  split at h
  · rename_i hn
    exact ⟨hn.1, (Option.some.inj h).symm⟩
  · cases h

/-- The tee threads have emptied a pipe. -/
def State.drained (s : State) (o : Output) : State :=
  { s with output := update s.output o [] }

theorem reaches_drained {Q : State → Prop} (hfirst : s.listener = .first) (o : Output)
    (h : Reaches (step c) Tees (s.drained o) Q) : Reaches (step c) Tees s Q := by
  by_cases hempty : s.output o = []
  · have hsame : s.drained o = s := by
      unfold State.drained
      rw [← hempty, update_eq_self]
    exact hsame ▸ h
  · have hstep : step c s (.tee o (s.output o).length) = some (s.drained o) := by
      have hpos : 0 < (s.output o).length := List.length_pos_iff.mpr hempty
      simp only [step, if_pos (And.intro hfirst (And.intro hpos (Nat.le_refl _))), List.drop_length]
      rfl
    exact .cons hstep ⟨o, _, rfl⟩ h

theorem tees_run {ls : List Label} (hls : ∀ l ∈ ls, Tees l) (hrun : run (step c) s ls = some s') :
    (s.listener = .first → s'.listener = .first) ∧ s'.own = s.own ∧ s'.input = s.input ∧
      (s.listener ≠ .first → s' = s) := by
  refine relation_run (I := fun _ => True) (P := fun _ l => Tees l)
    (R := fun s s' => (s.listener = .first → s'.listener = .first) ∧ s'.own = s.own ∧
      s'.input = s.input ∧ (s.listener ≠ .first → s' = s))
    (fun _ => ⟨id, rfl, rfl, fun _ => rfl⟩) ?_ ?_ True.intro (Along.of_labels hls) hrun
  · rintro s t u ⟨hlistener, hown, hinput, hsame⟩ ⟨hlistener', hown', hinput', hsame'⟩
    refine ⟨hlistener' ∘ hlistener, hown'.trans hown, hinput'.trans hinput, fun hne => ?_⟩
    have ht : t = s := hsame hne
    exact (hsame' (ht ▸ hne)).trans ht
  · rintro s l s' - ⟨o, n, rfl⟩ hstep
    obtain ⟨hfirst, rfl⟩ := tee_eq_some hstep
    exact ⟨True.intro, id, rfl, rfl, fun hne => absurd hfirst hne⟩

theorem next_first (hcap : ∀ o, 0 < c.capacity o) (hfirst : s.listener = .first) :
    s.Next c own ↔ s.alone c = some own := by
  constructor
  · rintro ⟨ls, t, hls, hrun, t', hact, rfl⟩
    obtain ⟨hlistener, hown, hinput, -⟩ := tees_run hls hrun
    rw [← alone_congr hown hinput]
    exact alone_of_act (hlistener hfirst) hact
  · intro h
    have hroom (o : Output) : (((s.drained .stdout).drained .stderr).output o).length < c.capacity o := by
      cases o with
      | stdout => exact hcap .stdout
      | stderr => exact hcap .stderr
    have hact := @act_of_alone c ((s.drained .stdout).drained .stderr) own hfirst hroom h
    exact reaches_drained hfirst .stdout (reaches_drained hfirst .stderr (.refl hact))

theorem next_after (hkilled : s.listener ≠ .first) :
    s.Next c own ↔ (s.act c).map State.own = some own := by
  rw [Option.map_eq_some_iff]
  constructor
  · rintro ⟨ls, t, hls, hrun, t', hact, hown⟩
    obtain ⟨-, -, -, hsame⟩ := tees_run hls hrun
    exact ⟨t', hsame hkilled ▸ hact, hown⟩
  · rintro ⟨t', hact, hown⟩
    exact .refl ⟨t', hact, hown⟩

/-! ## The step that is spared -/

/-- The same, with the first listener. -/
def State.unharmed (s : State) (sessions : Nat) (heirs : List Heir) : State :=
  { s with listener := .first, sessions := sessions, heirs := heirs }

@[simp] theorem unharmed_own (m : Nat) (hs : List Heir) : (s.unharmed m hs).own = s.own := rfl

@[simp] theorem unharmed_output (m : Nat) (hs : List Heir) :
    (s.unharmed m hs).output = s.output := rfl

@[simp] theorem unharmed_input (m : Nat) (hs : List Heir) : (s.unharmed m hs).input = s.input := rfl

theorem write_unharmed {o : Output} {data : Bytes}
    (h : s.own.written = data.length ∨ s.readable ∧ (s.output o).length < c.capacity o) (m : Nat)
    (hs : List Heir) :
    (s.unharmed m hs).write c o data = (s.write c o data).map fun t => t.unharmed m hs := by
  have hthere : ¬ ¬ (s.unharmed m hs).readable := not_not.mpr (readable_first rfl)
  unfold State.write
  rw [if_neg hthere, unharmed_own, unharmed_output]
  rcases h with hall | ⟨hreadable, hroom⟩
  · rw [if_pos hall, if_pos hall]
    rfl
  · rw [if_neg (not_not.mpr hreadable), if_pos hroom, if_pos hroom]
    by_cases hall : s.own.written = data.length
    · rw [if_pos hall, if_pos hall]
      rfl
    · rw [if_neg hall, if_neg hall]
      rfl

theorem read_unharmed {n : Nat} (h : n = 0 ∨ c.stdin = false ∨ s.input ≠ [] ∨ s.writable) (m : Nat)
    (hs : List Heir) :
    (s.unharmed m hs).read c n = (s.read c n).map fun t => t.unharmed m hs := by
  have hthere : ¬ ¬ (s.unharmed m hs).writable := not_not.mpr (writable_first rfl)
  unfold State.read
  rw [if_neg hthere, unharmed_own, unharmed_input]
  by_cases hnull : n = 0 ∨ c.stdin = false
  · rw [if_pos hnull, if_pos hnull]
    rfl
  rw [if_neg hnull, if_neg hnull]
  by_cases hinput : s.input ≠ []
  · rw [if_pos hinput, if_pos hinput]
    rfl
  · have hwritable : s.writable :=
      ((or_assoc.mpr h).resolve_left hnull).resolve_left hinput
    rw [if_neg hinput, if_neg hinput, if_neg (not_not.mpr hwritable)]
    rfl

theorem act_unharmed (hkilled : s.listener ≠ .first) (h : s.Spared c) (m : Nat) (hs : List Heir) :
    (s.unharmed m hs).act c = (s.act c).map fun t => t.unharmed m hs := by
  unfold State.act
  rw [unharmed_own]
  by_cases hrun : s.own.ended = none
  · rw [if_pos hrun, if_pos hrun]
    replace h := (h.resolve_left hkilled).resolve_left (not_not.mpr hrun)
    cases hnext : c.next s.own.results with
    | write o data =>
      simp only [hnext] at h
      exact write_unharmed h m hs
    | read n =>
      simp only [hnext] at h
      exact read_unharmed h m hs
    | exit st => rfl
  · rw [if_neg hrun, if_neg hrun]
    rfl

theorem spared_write {o : Output} {data : Bytes} (hrun : s.own.ended = none) :
    (s.own.written = data.length ∨ s.readable ∧ (s.output o).length < c.capacity o) ↔
      (s.write c o data).map State.own =
        some (if s.own.written = data.length then s.own.result (.wrote data.length)
          else { s.own with written := s.own.written + 1 }) := by
  unfold State.write
  by_cases hall : s.own.written = data.length
  · rw [if_pos hall, if_pos hall]
    exact iff_of_true (.inl hall) rfl
  rw [if_neg hall, if_neg hall, or_iff_right hall]
  by_cases hreadable : s.readable
  · rw [if_neg (not_not.mpr hreadable)]
    by_cases hroom : (s.output o).length < c.capacity o
    · rw [if_pos hroom]
      exact iff_of_true ⟨hreadable, hroom⟩ rfl
    · rw [if_neg hroom]
      exact iff_of_false (fun h => hroom h.2) nofun
  · rw [if_pos hreadable]
    refine iff_of_false (fun h => hreadable h.1) fun h => ?_
    -- Neither an answer nor a signal is the next byte of the write.
    have hown := Option.some.inj h
    split at hown
    · have hlength := congrArg (fun own => own.results.length) hown
      simp [Own.result] at hlength
    · have hended := congrArg Own.ended hown
      rw [hrun] at hended
      cases hended

theorem spared_read {n : Nat} :
    (n = 0 ∨ c.stdin = false ∨ s.input ≠ [] ∨ s.writable) ↔
      (s.read c n).map State.own =
        if n = 0 ∨ c.stdin = false then some (s.own.result (.got []))
        else if s.input ≠ [] then some (s.own.result (.got (s.input.take n)))
        else none := by
  unfold State.read
  by_cases hnull : n = 0 ∨ c.stdin = false
  · rw [if_pos hnull, if_pos hnull, ← or_assoc]
    exact iff_of_true (.inl hnull) rfl
  rw [if_neg hnull, if_neg hnull, ← or_assoc, or_iff_right hnull]
  by_cases hinput : s.input ≠ []
  · rw [if_pos hinput, if_pos hinput]
    exact iff_of_true (.inl hinput) rfl
  rw [if_neg hinput, if_neg hinput, or_iff_right hinput]
  by_cases hwritable : s.writable
  · rw [if_neg (not_not.mpr hwritable)]
    exact iff_of_true hwritable rfl
  · rw [if_pos hwritable]
    exact iff_of_false hwritable nofun

/-- The next step is the one with the listener there exactly if it needs no end of the listener's.
-/
theorem spared_iff (hkilled : s.listener ≠ .first) :
    s.Spared c ↔ (s.act c).map State.own = s.alone c := by
  rw [State.Spared, or_iff_right hkilled]
  unfold State.act State.alone
  by_cases hrun : s.own.ended = none
  · rw [or_iff_right (not_not.mpr hrun), if_pos hrun, if_pos hrun]
    cases hnext : c.next s.own.results with
    | write o data =>
      exact spared_write hrun
    | read n =>
      exact spared_read
    | exit st =>
      exact iff_of_true True.intro rfl
  · rw [if_neg hrun, if_neg hrun]
    exact iff_of_true (.inl hrun) rfl

/-! ## The runs in step -/

/-- A state of the run, and the one of the run where the listener is not killed. -/
def Twin (s s₀ : State) : Prop :=
  (s.listener = .first ∧ s₀ = s) ∨
    s.listener ≠ .first ∧ s.sessions = 0 ∧
      ∃ m hs, s₀ = s.unharmed m hs ∧ hs.length = s.heirs.length

/-- The process leaves the listener's side alone. -/
theorem act_frame (h : s.act c = some s') :
    s'.listener = s.listener ∧ s'.sessions = s.sessions ∧ s'.heirs = s.heirs := by
  have hwrite (o : Output) (data : Bytes) (h : s.write c o data = some s') :
      s'.listener = s.listener ∧ s'.sessions = s.sessions ∧ s'.heirs = s.heirs := by
    unfold State.write at h
    split_ifs at h <;> exact Option.some.inj h ▸ ⟨rfl, rfl, rfl⟩
  have hread (n : Nat) (h : s.read c n = some s') :
      s'.listener = s.listener ∧ s'.sessions = s.sessions ∧ s'.heirs = s.heirs := by
    unfold State.read at h
    split_ifs at h <;> exact Option.some.inj h ▸ ⟨rfl, rfl, rfl⟩
  unfold State.act at h
  split at h
  · split at h
    · exact hwrite _ _ h
    · exact hread _ h
    · exact Option.some.inj h ▸ ⟨rfl, rfl, rfl⟩
  · cases h

theorem listener_lasting {l : Label} (hl : l.lasting = true) (h : step c s l = some s') :
    s'.listener = s.listener := by
  cases l with
  | act => exact (act_frame h).1
  | kill => cases hl
  | reopen => cases hl
  | spawn =>
    simp only [step] at h
    split at h
    · exact Option.some.inj h ▸ rfl
    · cases h
    · exact Option.some.inj h ▸ rfl
  | tee | attach | detach | type | heirEnds =>
    simp only [step] at h
    split_ifs at h
    exact Option.some.inj h ▸ rfl

theorem Twin.step {s₀ : State} {l : Label} (h : Twin s s₀) (hspared : s.Spared c)
    (hstep : Crash.step c s l = some s') :
    ∃ s₀', run (Crash.step c) s₀ ([l].filter Label.lasting) = some s₀' ∧ Twin s' s₀' := by
  rcases h with ⟨hfirst, rfl⟩ | ⟨hkilled, hsessions, m, hs, rfl, hlength⟩
  · by_cases hl : l.lasting = true
    · refine ⟨s', ?_, .inl ⟨(listener_lasting hl hstep).trans hfirst, rfl⟩⟩
      rw [List.filter_cons_of_pos hl]
      exact run_cons_eq_some.mpr ⟨s', hstep, rfl⟩
    · rw [List.filter_cons_of_neg hl]
      refine ⟨_, rfl, .inr ?_⟩
      cases l with
      | kill =>
        simp only [Crash.step] at hstep
        rw [if_neg (by rw [hfirst]; decide)] at hstep
        obtain rfl := Option.some.inj hstep
        exact ⟨nofun, rfl, _, _, by rw [State.unharmed, ← hfirst], rfl⟩
      | reopen =>
        simp only [Crash.step] at hstep
        rw [if_neg (by rw [hfirst]; decide)] at hstep
        cases hstep
      | act | tee | attach | detach | type | spawn | heirEnds => exact absurd rfl hl
  · cases l with
    | act =>
      obtain ⟨hlistener, hsessions', hheirs⟩ := act_frame hstep
      have hact : (s.unharmed m hs).act c = some (s'.unharmed m hs) := by
        rw [act_unharmed hkilled hspared, show s.act c = some s' from hstep, Option.map_some]
      exact ⟨_, run_cons_eq_some.mpr ⟨_, hact, rfl⟩, .inr ⟨hlistener ▸ hkilled,
        hsessions'.trans hsessions, m, hs, rfl, hheirs ▸ hlength⟩⟩
    | tee o n =>
      simp only [Crash.step] at hstep
      rw [if_neg fun h => hkilled h.1] at hstep
      cases hstep
    | attach =>
      simp only [Crash.step] at hstep
      rw [if_neg fun h => hkilled h.1] at hstep
      cases hstep
    | detach =>
      simp only [Crash.step] at hstep
      rw [if_neg (by omega)] at hstep
      cases hstep
    | type bytes =>
      simp only [Crash.step] at hstep
      rw [if_neg (by omega)] at hstep
      cases hstep
    | spawn =>
      cases hlistener : s.listener with
      | first => exact absurd hlistener hkilled
      | down =>
        simp only [Crash.step, hlistener] at hstep
        cases hstep
      | reopened =>
        simp only [Crash.step, hlistener] at hstep
        obtain rfl := Option.some.inj hstep
        refine ⟨_, rfl, .inr ⟨nofun, hsessions, m, hs ++ [⟨true, decide (0 < m)⟩], rfl, ?_⟩⟩
        simp [hlength]
    | heirEnds i =>
      simp only [Crash.step] at hstep
      split at hstep
      · rename_i hi
        obtain rfl := Option.some.inj hstep
        have hi' : i < hs.length := hlength ▸ hi
        refine ⟨(s.unharmed m (hs.eraseIdx i)), ?_, .inr ⟨hkilled, hsessions, m, hs.eraseIdx i, rfl, ?_⟩⟩
        · exact run_cons_eq_some.mpr ⟨_, if_pos hi', rfl⟩
        · rw [List.length_eraseIdx, List.length_eraseIdx, hlength]
      · cases hstep
    | kill =>
      simp only [Crash.step] at hstep
      split at hstep
      · cases hstep
      · obtain rfl := Option.some.inj hstep
        exact ⟨_, rfl, .inr ⟨nofun, rfl, m, hs, rfl, hlength⟩⟩
    | reopen =>
      simp only [Crash.step] at hstep
      split at hstep
      · obtain rfl := Option.some.inj hstep
        exact ⟨_, rfl, .inr ⟨nofun, hsessions, m, hs, rfl, hlength⟩⟩
      · cases hstep

theorem twin_of_spared {ls : List Label} (hrun : run (step c) init ls = some s)
    (hspared : ∀ ls' t, ls' <+: ls → ls' ≠ ls → run (step c) init ls' = some t → t.Spared c) :
    ∃ s₀, run (step c) init (ls.filter Label.lasting) = some s₀ ∧ Twin s s₀ := by
  induction ls using List.reverseRecOn generalizing s with
  | nil =>
    obtain rfl := Option.some.inj hrun
    exact ⟨init, rfl, .inl ⟨rfl, rfl⟩⟩
  | append_singleton ls l ih =>
    obtain ⟨s₁, hrun₁, hlast⟩ := run_append_eq_some.mp hrun
    obtain ⟨t, hstep, ht⟩ := run_cons_eq_some.mp hlast
    obtain rfl := Option.some.inj ht
    have hne : ls ≠ ls ++ [l] := by simp
    obtain ⟨s₀, hrun₀, htwin⟩ := ih hrun₁ fun ls' t hstart hne' ht =>
      hspared ls' t (hstart.trans (List.prefix_append _ _))
        (fun he => by
          have hle := hstart.length_le
          rw [he, List.length_append, List.length_singleton] at hle
          omega) ht
    obtain ⟨s₀', hrun₀', htwin'⟩ :=
      htwin.step (hspared ls s₁ (List.prefix_append _ _) hne hrun₁) hstep
    refine ⟨s₀', ?_, htwin'⟩
    rw [List.filter_append]
    exact run_append_eq_some.mpr ⟨s₀, hrun₀, hrun₀'⟩

theorem same_iff_spared (hcap : ∀ o, 0 < c.capacity o) {s₀ : State} (h : Twin s s₀) :
    (s.own = s₀.own ∧ ∀ own, s.Next c own ↔ s₀.Next c own) ↔ s.Spared c := by
  rcases h with ⟨hfirst, rfl⟩ | ⟨hkilled, -, m, hs, rfl, -⟩
  · exact iff_of_true ⟨rfl, fun _ => Iff.rfl⟩ (.inl hfirst)
  · have hnext (own : Own) : (s.unharmed m hs).Next c own ↔ s.alone c = some own :=
      next_first hcap rfl
    rw [spared_iff hkilled]
    constructor
    · rintro ⟨-, hsame⟩
      refine Option.ext fun own => ?_
      rw [← next_after hkilled, hsame, hnext]
    · intro hact
      refine ⟨rfl, fun own => ?_⟩
      rw [next_after hkilled, hnext, hact]

end

/-- **A crash of the listener**: the process's own run stays the one without it exactly as long as
the process never needs an end that the listener held. -/
theorem same_run_iff {c : Container} (hcap : ∀ o, 0 < c.capacity o) {ls : List Label} {s : State}
    (hrun : run (step c) init ls = some s) :
    (∀ ls', ls' <+: ls → Same c ls') ↔
      ∀ ls' t, ls' <+: ls → run (step c) init ls' = some t → t.Spared c := by
  constructor
  · intro hsame ls' t hstart ht
    suffices hall : ∀ ls', ls' <+: ls → ∀ ls'' t, ls'' <+: ls' → run (step c) init ls'' = some t →
        t.Spared c from
      hall ls' hstart ls' t (List.prefix_refl _) ht
    clear hstart ht t ls'
    intro ls'
    induction ls' using List.reverseRecOn with
    | nil =>
      intro _ ls'' t hnil ht
      obtain rfl := List.prefix_nil.mp hnil
      obtain rfl := Option.some.inj ht
      exact .inl rfl
    | append_singleton ls₁ l ih =>
      intro hstart ls'' t hstart' ht
      have ih' := ih ((List.prefix_append _ _).trans hstart)
      rcases List.prefix_concat_iff.mp hstart' with rfl | hstart''
      · obtain ⟨s₀, hrun₀, htwin⟩ := twin_of_spared ht fun ls₂ t₂ hstart₂ hne₂ ht₂ =>
          ih' ls₂ t₂ ((List.prefix_concat_iff.mp hstart₂).resolve_left hne₂) ht₂
        obtain ⟨t', t₀, ht', ht₀, hown, hnext⟩ := hsame _ hstart
        obtain rfl := Option.some.inj (ht'.symm.trans ht)
        obtain rfl := Option.some.inj (ht₀.symm.trans hrun₀)
        exact (same_iff_spared hcap htwin).mp ⟨hown, hnext⟩
      · exact ih' ls'' t hstart'' ht
  · rintro hspared ls' ⟨rest, rfl⟩
    obtain ⟨t, ht, -⟩ := run_append_eq_some.mp hrun
    obtain ⟨s₀, hrun₀, htwin⟩ := twin_of_spared ht fun ls₂ t₂ hstart₂ _ ht₂ =>
      hspared ls₂ t₂ (hstart₂.trans (List.prefix_append _ _)) ht₂
    have hsame := (same_iff_spared hcap htwin).mpr
      (hspared ls' t (List.prefix_append _ _) ht)
    exact ⟨t, s₀, ht, hrun₀, hsame.1, hsame.2⟩

/-- A process that only exits. -/
def silent : Container := ⟨fun _ => .exit (.exited 3), fun _ => false, false, fun _ => 65536, 65536⟩

/-- The process exits after the crash. -/
theorem same_run_iff_silent : ∃ s, run (step silent) init [.kill, .reopen, .act] = some s ∧
    s.own = ⟨[], 0, some (.exited 3)⟩ ∧
    ((∀ ls', ls' <+: [.kill, .reopen, .act] → Same silent ls') ↔
      ∀ ls' t, ls' <+: [.kill, .reopen, .act] → run (step silent) init ls' = some t →
        t.Spared silent) :=
  ⟨_, rfl, rfl, @same_run_iff silent (fun _ => Nat.zero_lt_succ _) [.kill, .reopen, .act] _ rfl⟩

/-- A process that writes a byte to its stdout and exits. -/
def printer : Container where
  next
    | [] => .write .stdout [10]
    | _ => .exit (.exited 0)
  ignores _ := false
  stdin := false
  capacity _ := 65536
  inputCapacity := 65536

/-- **A crash that ends the container**: the process writes after it and is killed by SIGPIPE. -/
theorem ended_by_crash : ∃ s s₀, run (step printer) init [.kill, .reopen, .act] = some s ∧
    s.own = ⟨[], 0, some (.signaled 13)⟩ ∧
    run (step printer) init [.act, .act, .act] = some s₀ ∧
    s₀.own = ⟨[.wrote 1], 0, some (.exited 0)⟩ ∧ ¬ Same printer [.kill, .reopen, .act] := by
  refine ⟨_, _, rfl, rfl, rfl, rfl, ?_⟩
  rintro ⟨s, s₀, hrun, hrun₀, hown, -⟩
  obtain rfl := Option.some.inj hrun
  obtain rfl := Option.some.inj hrun₀
  have hended := congrArg Own.ended hown
  cases hended

end LightrCri.Fake.Crash

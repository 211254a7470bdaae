import LightrCri.Fake.Faults

/-!
# Commands and attachments

`exec_sync`, `open_exec` and `open_attach` leave the records alone, and nothing in the backend waits
for the processes that they start: the process of a command belongs to the session that is returned.
It is lost if the session is not returned after all, which happens in one place: on a terminal,
where the descriptor of the master is duplicated once more after the command has been spawned
(`sessionClean_iff`).

With `call_clean_iff` this gives every operation of the backend, in the states of any run
(`clean_iff`).
-/

namespace LightrCri.Fake

open Backend Foundations

/-! ## The calls -/

/-- The calls that run a command in a container or join its stdio. They leave the records alone. -/
inductive SessionCall
  | execSync (id : ContainerId) (cmd : List String) (timeout : Int)
  | openExec (id : ContainerId) (cmd : List String) (tty stdin : Bool)
  | openAttach (id : ContainerId)

/-- What such a call gets from outside. -/
structure SessionOracle where
  /-- The error of joining the namespaces of the container. -/
  join : Option BackendError := none
  openpty : Option String := none
  /-- The errors of its calls of `dup` and `pipe`, in order. -/
  dup : Nat → Option String := fun _ => none
  spawn : Except String Nat := .ok 100
  /-- Whether the command is still running at the deadline. -/
  timeout : Bool := false

/-- The first of the calls of `dup` and `pipe` from `i` on that fails, of `m`. -/
def SessionOracle.dups (o : SessionOracle) : Nat → Nat → Except BackendError Unit
  | _, 0 => .ok ()
  | i, m + 1 =>
    match o.dup i with
    | some e => .error (.io e)
    | none => o.dups (i + 1) m

/-- The command is spawned, in the namespaces of the container. -/
def SessionOracle.command (o : SessionOracle) (w : World) (method : String) (state : ProcState) :
    World × Except BackendError Unit :=
  match o.spawn with
  | .error e => (w, .error (.internal (method ++ " spawn: " ++ e)))
  | .ok pid => ({ w with procs := w.procs ++ [⟨pid, none, true, state⟩] }, .ok ())

/-- The command is spawned on a new terminal. Its slave end is duplicated before, its master end
after. -/
def SessionOracle.onTerminal (o : SessionOracle) (w : World) : World × Except BackendError Unit :=
  match o.openpty with
  | some e => (w, .error (.internal ("openpty: " ++ e)))
  | none =>
    match o.dups 0 2 with
    | .error e => (w, .error e)
    | .ok () =>
      match o.command w "open_exec" .alive with
      | (w', .error e) => (w', .error e)
      | (w', .ok ()) => (w', o.dups 2 1)

/-- The state after the call and its result, without the output and the handles that it returns. -/
def SessionCall.exec (o : SessionOracle) (w : World) : SessionCall → World × Except BackendError Unit
  | .execSync id cmd timeout =>
    match w.cache.containers[id]? with
    | none => (w, .error (.notFound ("container " ++ id.val)))
    | some r =>
      if r.state ≠ .running then
        (w, .error (.failedPrecondition ("container " ++ id.val ++ " is not Running (state=" ++
          r.state.debug ++ "); exec_sync requires Running")))
      else if cmd = [] then (w, .error (.invalidArgument "exec_sync: empty command"))
      else
        match o.join with
        | some e => (w, .error e)
        | none =>
          -- the command has ended, or is killed, and is waited for
          match o.command w "exec_sync" .gone with
          | (w', .error e) => (w', .error e)
          | (w', .ok ()) =>
            if 0 < timeout ∧ o.timeout then (w', .error (.internal "exec timeout"))
            else (w', .ok ())
  | .openExec id cmd tty _ =>
    match w.cache.containers[id]? with
    | none => (w, .error (.notFound ("container " ++ id.val)))
    | some r =>
      if r.state ≠ .running then
        (w, .error (.failedPrecondition ("container " ++ id.val ++ " is not Running (state=" ++
          r.state.debug ++ "); open_exec requires Running")))
      else if cmd = [] then (w, .error (.invalidArgument "open_exec: empty command"))
      else
        match o.join with
        | some e => (w, .error e)
        | none =>
          if tty then o.onTerminal w else o.command w "open_exec" .alive
  | .openAttach id =>
    match w.cache.containers[id]? with
    | none => (w, .error (.notFound ("container " ++ id.val)))
    | some r =>
      if r.state ≠ .running then
        (w, .error (.failedPrecondition ("container " ++ id.val ++ " is not Running (state=" ++
          r.state.debug ++ "); open_attach requires Running")))
      else
        match w.ioTable[id]? with
        | none => (w, .error (.internal "attach unavailable after restart"))
        | some io => (w, o.dups 0 (if io.tty then 2 else if io.stdin then 3 else 2))

/-- After an error the records are as before, and no process is left: there is no record and no
reaper for the processes of sessions. -/
def SessionClean (w : World) (out : World × Except BackendError Unit) : Prop :=
  ∀ e, out.2 = .error e → out.1.cache = w.cache ∧ out.1.disk = w.disk ∧
    ∀ (q : Nat) (p : Proc), w.procs.length ≤ q → out.1.procs[q]? = some p → p.state = .gone

/-- The call has its command spawned on a terminal; the duplicate of the master comes after that. -/
def SessionCall.spawnsOnTty (o : SessionOracle) (w : World) : SessionCall → Bool
  | .openExec id cmd tty _ =>
    tty && w.isRunning id && cmd ≠ [] && o.join.isNone && o.openpty.isNone && (o.dup 0).isNone &&
      (o.dup 1).isNone && o.spawn.toBool
  | _ => false

/-! ## What they leave -/

section

variable {w w' : World} {out : World × Except BackendError Unit} {o : SessionOracle} {e : BackendError}

theorem sessionClean_of_same (h : out.1 = w) : SessionClean w out := by
  intro e _
  refine ⟨by rw [h], by rw [h], fun q p hq hp => ?_⟩
  rw [h, List.getElem?_eq_none hq] at hp
  cases hp

theorem sessionClean_ok : SessionClean w (w', .ok ()) := fun _ h => by cases h

theorem exec_command_error {m : String} {st : ProcState} (h : o.command w m st = (w', .error e)) :
    w' = w := by
  unfold SessionOracle.command at h
  cases hspawn : o.spawn with
  | error x =>
    rw [hspawn] at h
    exact (Prod.mk.inj h).1.symm
  | ok pid =>
    rw [hspawn] at h
    cases (Prod.mk.inj h).2

theorem exec_command_ok {m : String} {st : ProcState} (h : o.command w m st = (w', .ok ())) :
    ∃ pid, o.spawn = .ok pid ∧ w' = { w with procs := w.procs ++ [⟨pid, none, true, st⟩] } := by
  unfold SessionOracle.command at h
  cases hspawn : o.spawn with
  | error x =>
    rw [hspawn] at h
    cases (Prod.mk.inj h).2
  | ok pid =>
    rw [hspawn] at h
    exact ⟨pid, rfl, (Prod.mk.inj h).1.symm⟩

/-- Of a command that has been waited for, only the entry in the table of processes is left. -/
theorem sessionClean_gone {pid : Nat} {res : Except BackendError Unit} :
    SessionClean w ({ w with procs := w.procs ++ [⟨pid, none, true, .gone⟩] }, res) := by
  intro e _
  refine ⟨rfl, rfl, fun q p hq hp => ?_⟩
  rw [List.getElem?_append_right hq, List.getElem?_singleton] at hp
  split at hp
  · obtain rfl := Option.some.inj hp
    rfl
  · cases hp

/-- A command that runs, and whose session is not returned. -/
theorem not_sessionClean_alive {pid : Nat} :
    ¬ SessionClean w ({ w with procs := w.procs ++ [⟨pid, none, true, .alive⟩] }, .error e) := by
  intro h
  have hgone := (h e rfl).2.2 w.procs.length ⟨pid, none, true, .alive⟩ (Nat.le_refl _) (by simp)
  cases hgone

theorem sessionClean_execSync (id : ContainerId) (cmd : List String) (timeout : Int) :
    SessionClean w ((SessionCall.execSync id cmd timeout).exec o w) := by
  simp only [SessionCall.exec]
  split
  · exact sessionClean_of_same rfl
  · split
    · exact sessionClean_of_same rfl
    · split
      · exact sessionClean_of_same rfl
      · split
        · exact sessionClean_of_same rfl
        · split
          · exact sessionClean_of_same (exec_command_error ‹_›)
          · obtain ⟨pid, -, rfl⟩ := exec_command_ok ‹_›
            split
            · exact sessionClean_gone
            · exact sessionClean_gone

theorem sessionClean_openAttach (id : ContainerId) :
    SessionClean w ((SessionCall.openAttach id).exec o w) := by
  simp only [SessionCall.exec]
  repeat' split
  all_goals exact sessionClean_of_same rfl

theorem dups_two_ok : o.dups 0 2 = .ok () ↔ (o.dup 0).isNone ∧ (o.dup 1).isNone := by
  simp only [SessionOracle.dups]
  cases o.dup 0 <;> cases o.dup 1 <;> simp

/-- The process is lost exactly if the duplicate of the master fails. -/
theorem sessionClean_onTerminal :
    SessionClean w (o.onTerminal w) ↔ ¬ ((o.openpty.isNone ∧ (o.dup 0).isNone ∧ (o.dup 1).isNone ∧
      o.spawn.toBool) ∧ (o.dup 2).isSome) := by
  unfold SessionOracle.onTerminal
  split
  case h_1 e hpty => exact iff_of_true (sessionClean_of_same rfl) (by simp [hpty])
  case h_2 hpty =>
    split
    case h_1 e hdups =>
      refine iff_of_true (sessionClean_of_same rfl) fun h => ?_
      rw [dups_two_ok.mpr ⟨h.1.2.1, h.1.2.2.1⟩] at hdups
      cases hdups
    case h_2 hdups =>
      obtain ⟨h₀, h₁⟩ := dups_two_ok.mp hdups
      split
      case h_1 w' e hcmd =>
        refine iff_of_true (sessionClean_of_same (exec_command_error hcmd)) fun h => ?_
        obtain ⟨pid, hpid⟩ : ∃ pid, o.spawn = .ok pid := by
          cases hspawn : o.spawn with
          | ok pid => exact ⟨pid, rfl⟩
          | error e =>
            rw [hspawn] at h
            cases h.1.2.2.2
        rw [SessionOracle.command, hpid] at hcmd
        cases (Prod.mk.inj hcmd).2
      case h_2 w' hcmd =>
        obtain ⟨pid, hpid, rfl⟩ := exec_command_ok hcmd
        cases h₂ : o.dup 2 with
        | none =>
          simp only [SessionOracle.dups, h₂]
          exact iff_of_true sessionClean_ok (by simp)
        | some e =>
          simp only [SessionOracle.dups, h₂]
          refine iff_of_false not_sessionClean_alive fun h => h ⟨⟨by rw [hpty]; rfl, h₀, h₁, ?_⟩, rfl⟩
          rw [hpid]
          rfl

theorem sessionClean_openExec (id : ContainerId) (cmd : List String) (tty stdin : Bool) :
    SessionClean w ((SessionCall.openExec id cmd tty stdin).exec o w) ↔
      ¬ ((SessionCall.openExec id cmd tty stdin).spawnsOnTty o w ∧ (o.dup 2).isSome) := by
  simp only [SessionCall.exec]
  split
  case h_1 hrec =>
    refine iff_of_true (sessionClean_of_same rfl) ?_
    simp [SessionCall.spawnsOnTty, World.isRunning, hrec]
  case h_2 r hrec =>
    by_cases hstate : r.state = .running
    · by_cases hcmd : cmd = []
      · rw [if_neg (not_not_intro hstate), if_pos hcmd]
        refine iff_of_true (sessionClean_of_same rfl) ?_
        simp [SessionCall.spawnsOnTty, hcmd]
      · rw [if_neg (not_not_intro hstate), if_neg hcmd]
        split
        case h_1 e hjoin =>
          refine iff_of_true (sessionClean_of_same rfl) ?_
          simp [SessionCall.spawnsOnTty, hjoin]
        case h_2 hjoin =>
          cases tty with
          | true =>
            rw [if_pos rfl, sessionClean_onTerminal]
            simp [SessionCall.spawnsOnTty, World.isRunning, hrec, hstate, hcmd, hjoin, and_assoc]
          | false =>
            rw [if_neg Bool.false_ne_true]
            refine iff_of_true ?_ (by simp [SessionCall.spawnsOnTty])
            cases hout : o.command w "open_exec" .alive with
            | mk w' res =>
              cases res with
              | ok u => exact sessionClean_ok
              | error e => exact sessionClean_of_same (exec_command_error hout)
    · rw [if_pos hstate]
      refine iff_of_true (sessionClean_of_same rfl) ?_
      simp [SessionCall.spawnsOnTty, World.isRunning, hrec, hstate]

/-- **A session call leaves nothing behind**, except where the last duplicate of a terminal fails.
-/
theorem sessionClean_iff (x : SessionCall) :
    SessionClean w (x.exec o w) ↔ ¬ (x.spawnsOnTty o w ∧ (o.dup 2).isSome) := by
  cases x with
  | execSync id cmd timeout =>
    exact iff_of_true (sessionClean_execSync id cmd timeout) (by simp [SessionCall.spawnsOnTty])
  | openExec id cmd tty stdin => exact sessionClean_openExec id cmd tty stdin
  | openAttach id =>
    exact iff_of_true (sessionClean_openAttach id) (by simp [SessionCall.spawnsOnTty])

end

/-! ## Every operation -/

/-- **Failed operations leave no trace**: a call that is executed alone in a state of any run is
clean exactly if the failures of its file operations are harmless there, and a session call exactly
if it does not fail with its command running on a terminal. -/
theorem clean_iff {listener : Nat} {blake3 : String → String} {ls : List Label} {s : State}
    (hrun : run step (init listener blake3) ls = some s) :
    (∀ c tr s' r, Returns s c tr s' r → (Clean s s' c tr r ↔ FaultsHarmless s.shared tr c)) ∧
      ∀ (x : SessionCall) (o : SessionOracle), SessionClean s.shared (x.exec o s.shared) ↔
        ¬ (x.spawnsOnTty o s.shared ∧ (o.dup 2).isSome) :=
  ⟨fun _ _ _ _ h => call_clean_iff (keyed_run hrun) h, fun x _ => sessionClean_iff x⟩

/-- What a call gets whose first write to a file fails. -/
def fullDisk : List Oracle := [{}, { fault := some "No space left on device (os error 28)" }]

/-- **A failed stop leaves a trace**: the write of the record fails, and the sandbox is NotReady in
the cache and Ready on disk. -/
theorem clean_fullDisk :
    ¬ ∀ (listener : Nat) (blake3 : String → String) (ls : List Label) (s : State),
      run step (init listener blake3) ls = some s →
      (∀ c tr s' r, Returns s c tr s' r → Clean s s' c tr r) ∧
        ∀ (x : SessionCall) (o : SessionOracle), SessionClean s.shared (x.exec o s.shared) := by
  intro h
  have hrun : (run step podState (callLabels podState (.stopSandbox podSandbox) fullDisk)).any fun s =>
      (s.shared.cache.get (.sandbox podSandbox) ≠ podState.shared.cache.get (.sandbox podSandbox)) ∧
        (s.tasks[podState.tasks.length]?.bind Task.result).any fun r => ¬ r.isOk := by decide
  obtain ⟨s', hs', hend⟩ := (Option.any_eq_true _ _).mp hrun
  obtain ⟨hcache, hresult⟩ := of_decide_eq_true hend
  obtain ⟨r, hr, herr⟩ := (Option.any_eq_true _ _).mp hresult
  obtain ⟨u, hu, hur⟩ := Option.bind_eq_some_iff.mp hr
  obtain ⟨tr, -, hreturns⟩ := returns_of_run hs' hu hur
  have hclean := (h 1 id podRun podState run_podRun).1 _ _ _ _ hreturns
  cases r with
  | ok v => simp [Except.isOk, Except.toBool] at herr
  | error e =>
    obtain ⟨hsame, -⟩ | ⟨id, io, o, e, r, hc, -⟩ := hclean.1 (.sandbox podSandbox)
    · exact hcache hsame
    · cases hc

/-- The sandbox is stopped, and its record is written. -/
theorem clean_podState : ∃ tr s' r, Returns podState (.stopSandbox podSandbox) tr s' r ∧
    Clean podState s' (.stopSandbox podSandbox) tr r := by
  have hrun : (run step podState (callLabels podState (.stopSandbox podSandbox)
      (List.replicate 4 {}))).any fun s =>
      (s.tasks[podState.tasks.length]?.bind Task.result).isSome := by decide
  obtain ⟨s', hs', hend⟩ := (Option.any_eq_true _ _).mp hrun
  obtain ⟨r, hr⟩ := Option.isSome_iff_exists.mp hend
  obtain ⟨u, hu, hur⟩ := Option.bind_eq_some_iff.mp hr
  obtain ⟨tr, htr, hreturns⟩ := returns_of_run hs' hu hur
  refine ⟨tr, s', r, hreturns, ((clean_iff run_podRun).1 _ _ _ _ hreturns).mpr ⟨?_, ?_⟩⟩
  · intro e he _
    have hmem := htr ▸ List.mem_map_of_mem (f := Prod.snd) he
    rw [List.eq_of_mem_replicate hmem]
  · rintro ob rfl
    exact .inl (by decide)

end LightrCri.Fake

import LightrCri.Attach.FanOut

/-!
# Attaching to a terminal

A container with a terminal has no fan-out. Its tee thread reads a duplicate of the terminal's
master and so does every attacher; each byte goes to the one reader that takes it. So the log and
the attachers get the whole output exactly if an attacher never reads and the tee thread never reads
a byte that was written after an attacher had come (`delivered_iff`).
-/

namespace LightrCri.Attach.Terminal

open Foundations LightrCri.Stream LightrCri.Spdy

inductive Tee
  | reading
  | logging
  | ended
  deriving DecidableEq, Repr

structure Attacher where
  /-- The duplicate of the master is open. -/
  reading : Bool
  received : Bytes
  /-- How many bytes were written before it attached. -/
  since : Nat
  deriving DecidableEq, Repr

structure State where
  /-- All that the process has written. -/
  written : Bytes
  /-- What can be read from the master. -/
  pty : Bytes
  /-- The side of the process is closed. -/
  closed : Bool
  tee : Tee
  /-- `log_pending`. -/
  pending : Bytes
  log : List LogLine
  /-- The io table has the master. -/
  entry : Bool
  attachers : List Attacher
  deriving DecidableEq, Repr

def init : State := ⟨[], [], false, .reading, [], [], false, []⟩

inductive TeeAction
  | read (n : Nat)
  | line (time : String)
  | resume
  | eof (time : String)
  deriving DecidableEq, Repr

inductive Label
  | write (bytes : Bytes)
  | close
  | tee (a : TeeAction)
  /-- The io table gets the entry. -/
  | insert
  /-- It loses the entry. -/
  | remove
  | attach
  | read (k : Nat) (n : Nat)
  /-- An attacher closes its duplicate. -/
  | leave (k : Nat)
  deriving DecidableEq, Repr

def teeStep (s : State) : TeeAction → Option State
  | .read n =>
    if s.tee = .reading ∧ 0 < n ∧ n ≤ 8192 ∧ n ≤ s.pty.length then
      some { s with tee := .logging, pending := s.pending ++ s.pty.take n, pty := s.pty.drop n }
    else none
  | .line time =>
    if s.tee = .logging then
      (cutLine NEWLINE s.pending).map fun x =>
        { s with pending := x.2, log := s.log ++ [⟨time, .stdout, x.1⟩] }
    else none
  | .resume =>
    if s.tee = .logging ∧ cutLine NEWLINE s.pending = none then some { s with tee := .reading }
    else none
  | .eof time =>
    if s.tee = .reading ∧ s.pty = [] ∧ s.closed = true then
      some { s with
        tee := .ended
        pending := []
        log := if s.pending = [] then s.log else s.log ++ [⟨time, .stdout, s.pending⟩] }
    else none

def step (capacity : Nat) (s : State) : Label → Option State
  | .write bytes =>
    if s.closed = false ∧ s.pty.length + bytes.length ≤ capacity then
      some { s with written := s.written ++ bytes, pty := s.pty ++ bytes }
    else none
  | .close => some { s with closed := true }
  | .tee a => teeStep s a
  | .insert => some { s with entry := true }
  | .remove => some { s with entry := false }
  | .attach =>
    if s.entry = true then
      some { s with attachers := s.attachers ++ [⟨true, [], s.written.length⟩] }
    else none
  | .read k n =>
    s.attachers[k]?.bind fun a =>
      if a.reading = true ∧ 0 < n ∧ n ≤ s.pty.length then
        some { s with
          attachers := s.attachers.set k { a with received := a.received ++ s.pty.take n }
          pty := s.pty.drop n }
      else none
  | .leave k =>
    s.attachers[k]?.map fun a =>
      { s with attachers := s.attachers.set k { a with reading := false } }

/-! ## Who gets the output -/

/-- The bytes that the log has. -/
def State.logged (s : State) : Bytes := (s.log.map LogLine.data).flatten

/-- The tee thread gets every byte, and each attacher that is there every byte written since. -/
def State.Delivered (s : State) : Prop :=
  s.logged ++ s.pending ++ s.pty = s.written ∧ (s.tee = .ended → s.logged = s.written) ∧
    ∀ a ∈ s.attachers, a.reading = true → s.written.drop a.since <:+ a.received ++ s.pty

/-- The step takes no byte that another reader is to get as well. -/
def Undisturbed (s : State) : Label → Prop
  | .read _ _ => False
  | .tee (.read n) => ∀ a ∈ s.attachers, a.reading = true →
      s.written.length - s.pty.length + n ≤ a.since
  | _ => True

/-- Only the tee thread has read so far. -/
structure Inv (s : State) : Prop where
  whole : s.logged ++ s.pending ++ s.pty = s.written
  ended : s.tee = .ended → s.pending = [] ∧ s.pty = [] ∧ s.closed = true
  attachers : ∀ a ∈ s.attachers, a.received = [] ∧
    (a.reading = true → s.written.length - s.pty.length ≤ a.since)

section

variable {capacity : Nat} {s s' : State}

theorem Inv.delivered (h : Inv s) : s.Delivered := by
  refine ⟨h.whole, fun hended => ?_, fun a ha hreading => ?_⟩
  · obtain ⟨hpending, hpty, -⟩ := h.ended hended
    rw [← h.whole, hpending, hpty, List.append_nil, List.append_nil]
  · obtain ⟨hreceived, hsince⟩ := h.attachers a ha
    have hlength := congrArg List.length h.whole
    rw [List.length_append] at hlength
    have hle := hsince hreading
    rw [hreceived, List.nil_append, ← h.whole, List.drop_append,
      List.drop_of_length_le (by omega), List.nil_append]
    exact List.drop_suffix _ _

theorem logged_append (s : State) (time : String) (data : Bytes) :
    ((s.log ++ [LogLine.mk time .stdout data]).map LogLine.data).flatten = s.logged ++ data := by
  simp [State.logged]

theorem Inv.pty_le (h : Inv s) : s.pty.length ≤ s.written.length := by
  have hlength := congrArg List.length h.whole
  rw [List.length_append] at hlength
  omega

theorem Inv.write {bytes : Bytes} (h : Inv s) (hopen : s.closed = false) :
    Inv { s with written := s.written ++ bytes, pty := s.pty ++ bytes } where
  whole := by
    show s.logged ++ s.pending ++ (s.pty ++ bytes) = s.written ++ bytes
    rw [← List.append_assoc, h.whole]
  ended hended := by
    have hclosed := (h.ended hended).2.2
    rw [hopen] at hclosed
    cases hclosed
  attachers a ha := by
    obtain ⟨hreceived, hsince⟩ := h.attachers a ha
    refine ⟨hreceived, fun hreading => ?_⟩
    have hle := hsince hreading
    rw [List.length_append, List.length_append]
    omega

theorem Inv.teeRead {n : Nat} (h : Inv s) (hn : n ≤ s.pty.length)
    (hundisturbed : Undisturbed s (.tee (.read n))) :
    Inv { s with tee := .logging, pending := s.pending ++ s.pty.take n, pty := s.pty.drop n } where
  whole := by
    show s.logged ++ (s.pending ++ s.pty.take n) ++ s.pty.drop n = s.written
    rw [← List.append_assoc, List.append_assoc _ (s.pty.take n), List.take_append_drop, h.whole]
  ended := nofun
  attachers a ha := by
    refine ⟨(h.attachers a ha).1, fun hreading => ?_⟩
    have hle := hundisturbed a ha hreading
    have hpty := h.pty_le
    show s.written.length - (s.pty.drop n).length ≤ a.since
    rw [List.length_drop]
    omega

theorem Inv.line {time : String} {line rest : Bytes} (h : Inv s) (htee : s.tee = .logging)
    (hcut : cutLine NEWLINE s.pending = some (line, rest)) :
    Inv { s with pending := rest, log := s.log ++ [⟨time, .stdout, line⟩] } where
  whole := by
    obtain ⟨hpending, -, -, -⟩ := lines_of_cut hcut
    show ((s.log ++ [LogLine.mk time .stdout line]).map LogLine.data).flatten ++ rest ++ s.pty =
      s.written
    rw [logged_append, List.append_assoc s.logged, ← hpending, h.whole]
  ended hended := by
    rw [htee] at hended
    cases hended
  attachers := h.attachers

theorem Inv.eof {time : String} (h : Inv s) (hpty : s.pty = []) (hclosed : s.closed = true) :
    Inv { s with
      tee := .ended
      pending := []
      log := if s.pending = [] then s.log else s.log ++ [⟨time, .stdout, s.pending⟩] } where
  whole := by
    rw [← h.whole]
    by_cases hpending : s.pending = []
    · simp [State.logged, hpending]
    · simp [State.logged, hpending]
  ended _ := ⟨rfl, hpty, hclosed⟩
  attachers := h.attachers

theorem Inv.attach (h : Inv s) :
    Inv { s with attachers := s.attachers ++ [⟨true, [], s.written.length⟩] } where
  whole := h.whole
  ended := h.ended
  attachers a ha := by
    rcases List.mem_append.mp ha with hold | hnew
    · exact h.attachers a hold
    · obtain rfl := List.mem_singleton.mp hnew
      exact ⟨rfl, fun _ => Nat.sub_le _ _⟩

theorem Inv.leave {k : Nat} {a : Attacher} (h : Inv s) (ha : s.attachers[k]? = some a) :
    Inv { s with attachers := s.attachers.set k { a with reading := false } } where
  whole := h.whole
  ended := h.ended
  attachers b hb := by
    rcases List.mem_or_eq_of_mem_set hb with hold | rfl
    · exact h.attachers b hold
    · exact ⟨(h.attachers a (List.mem_of_getElem? ha)).1, nofun⟩

/-- The tee thread takes what an attacher is to get as well. -/
theorem Inv.undisturbed_teeRead {n : Nat} (h : Inv s) (hn : n ≤ s.pty.length)
    (hdelivered : State.Delivered
      { s with tee := .logging, pending := s.pending ++ s.pty.take n, pty := s.pty.drop n }) :
    Undisturbed s (.tee (.read n)) := by
  intro a ha hreading
  have hsuffix : s.written.drop a.since <:+ a.received ++ s.pty.drop n :=
    hdelivered.2.2 a ha hreading
  rw [(h.attachers a ha).1, List.nil_append] at hsuffix
  have hle := hsuffix.length_le
  have hpty := h.pty_le
  rw [List.length_drop, List.length_drop] at hle
  omega

theorem Inv.step {l : Label} (h : Inv s) (hstep : Terminal.step capacity s l = some s') :
    (Undisturbed s l → Inv s') ∧ (s'.Delivered → Undisturbed s l) := by
  cases l with
  | write bytes =>
    simp only [Terminal.step] at hstep
    split at hstep
    · rename_i hroom
      obtain rfl := Option.some.inj hstep
      exact ⟨fun _ => h.write hroom.1, fun _ => True.intro⟩
    · cases hstep
  | close =>
    obtain rfl := Option.some.inj hstep
    exact ⟨fun _ => ⟨h.whole, fun he => ⟨(h.ended he).1, (h.ended he).2.1, rfl⟩, h.attachers⟩,
      fun _ => True.intro⟩
  | tee a =>
    cases a with
    | read n =>
      simp only [Terminal.step, teeStep] at hstep
      split at hstep
      · rename_i hn
        obtain ⟨-, -, -, hle⟩ := hn
        obtain rfl := Option.some.inj hstep
        exact ⟨h.teeRead hle, h.undisturbed_teeRead hle⟩
      · cases hstep
    | line time =>
      simp only [Terminal.step, teeStep] at hstep
      split at hstep
      · rename_i htee
        obtain ⟨⟨line, rest⟩, hcut, rfl⟩ := Option.map_eq_some_iff.mp hstep
        exact ⟨fun _ => h.line htee hcut, fun _ => True.intro⟩
      · cases hstep
    | resume =>
      simp only [Terminal.step, teeStep] at hstep
      split at hstep
      · obtain rfl := Option.some.inj hstep
        exact ⟨fun _ => ⟨h.whole, nofun, h.attachers⟩, fun _ => True.intro⟩
      · cases hstep
    | eof time =>
      simp only [Terminal.step, teeStep] at hstep
      split at hstep
      · rename_i hend
        obtain rfl := Option.some.inj hstep
        exact ⟨fun _ => h.eof hend.2.1 hend.2.2, fun _ => True.intro⟩
      · cases hstep
  | insert | remove =>
    obtain rfl := Option.some.inj hstep
    exact ⟨fun _ => ⟨h.whole, h.ended, h.attachers⟩, fun _ => True.intro⟩
  | attach =>
    simp only [Terminal.step] at hstep
    split at hstep
    · obtain rfl := Option.some.inj hstep
      exact ⟨fun _ => h.attach, fun _ => True.intro⟩
    · cases hstep
  | read k n =>
    obtain ⟨a, -, hread⟩ := Option.bind_eq_some_iff.mp hstep
    split at hread
    · rename_i hn
      obtain rfl := Option.some.inj hread
      refine ⟨False.elim, fun hdelivered => ?_⟩
      -- The bytes that the attacher takes are nowhere on the way to the log.
      have hwhole := congrArg List.length (hdelivered.1.trans h.whole.symm)
      simp only [State.logged, List.length_append, List.length_drop] at hwhole
      omega
    · cases hread
  | leave k =>
    obtain ⟨a, ha, rfl⟩ := Option.map_eq_some_iff.mp hstep
    exact ⟨fun _ => h.leave ha, fun _ => True.intro⟩

end

/-- **Attaching to a terminal**: along a run the log and the attachers get the whole output exactly
if no attacher reads and the tee thread reads no byte written after an attacher had come. -/
theorem delivered_iff {capacity : Nat} {ls : List Label} {s : State}
    (hrun : run (step capacity) init ls = some s) :
    (∀ ls' t, ls' <+: ls → run (step capacity) init ls' = some t → t.Delivered) ↔
      Along (step capacity) Undisturbed init ls :=
  along_iff (fun _ => Inv.delivered) (fun _ _ _ h hstep => h.step hstep)
    ⟨rfl, nofun, nofun⟩ hrun

/-- Nobody attaches. -/
theorem delivered_iff_unattached : ∃ s,
    run (step 4096) init [.insert, .write [104, 10], .tee (.read 2)] = some s ∧
      ((∀ ls' t, ls' <+: [.insert, .write [104, 10], .tee (.read 2)] →
          run (step 4096) init ls' = some t → t.Delivered) ↔
        Along (step 4096) Undisturbed init [.insert, .write [104, 10], .tee (.read 2)]) :=
  ⟨_, rfl, @delivered_iff 4096 [.insert, .write [104, 10], .tee (.read 2)] _ rfl⟩

/-- **A stolen byte**: the attacher reads it, and the log of the ended container is empty. -/
theorem stolen : ∃ s,
    run (step 4096) init [.insert, .attach, .write [104], .read 0 1, .close, .tee (.eof "t")] =
      some s ∧ s.tee = .ended ∧ s.written = [104] ∧ s.log = [] ∧ ¬ s.Delivered := by
  refine ⟨_, rfl, rfl, rfl, rfl, fun h => ?_⟩
  have hlog := h.2.1 rfl
  cases hlog

end LightrCri.Attach.Terminal

import LightrCri.Foundations.Lines
import LightrCri.Foundations.Runs
import LightrCri.Stream.Process

/-!
# The fan-out of a container

The output of a container without a terminal: the process, its two output pipes, the tee thread that
reads each of them, the sinks of the attachers and the CRI log. A tee thread reads a chunk, writes
it to every sink of its stream, one after the other and with the lock of the sinks held, and then
adds it to what is pending for the log and logs every complete line of that.

An attacher registers one pipe for each stream, whose write end is the sink (`Tap`). A write to a
full pipe blocks, and one to a pipe that has no reader fails, upon which the sink is dropped. The
sinks live as long as the tee threads, the entry of the io table, or a call of `open_attach` that is
under way.

The ends of these pipes are not closed by an exec. A process that the listener spawns meanwhile, for
a start or an exec of any container, has copies of those that are open. It neither reads nor writes
them, but as long as it is there the pipe has a reader, and is not at its end.
-/

namespace LightrCri.Attach

open Foundations LightrCri.Stream Function Spdy

/-! ## The log -/

def NEWLINE : UInt8 := 10

structure LogLine where
  time : String
  stream : Output
  data : Bytes
  deriving DecidableEq, Repr

def streamName : Output → String
  | .stdout => "stdout"
  | .stderr => "stderr"

/-- The line ends with a newline. -/
def LogLine.full (l : LogLine) : Bool := l.data.getLast? = some NEWLINE

/-- `cri_log_line`. -/
def LogLine.format (l : LogLine) : Bytes :=
  utf8 (l.time ++ " " ++ streamName l.stream ++ " " ++ (if l.full then "F" else "P") ++ " ") ++
    l.data ++ if l.full then [] else [NEWLINE]

/-! ## State -/

/-- The pipe of an attacher for a stream. -/
structure Tap where
  capacity : Nat
  buf : Bytes
  /-- The read end is open. -/
  reading : Bool
  /-- What the attacher has read. -/
  received : Bytes
  /-- The attacher has seen the end. -/
  eof : Bool
  /-- How many chunks were broadcast before the sink was registered. -/
  since : Nat
  /-- A process that was spawned meanwhile has the read end. -/
  heldRead : Bool
  /-- Such a process has the write end. -/
  heldWrite : Bool
  deriving DecidableEq, Repr

/-- A write does not fail. -/
def Tap.hasReader (t : Tap) : Bool := t.reading || t.heldRead

/-- A tee thread. -/
inductive Tee
  | reading
  /-- About to lock the sinks. -/
  | locking (chunk : Bytes)
  /-- In `retain_mut`, with the lock: the sinks kept, what the next one has yet to take, and the
  sinks to do. -/
  | broadcasting (chunk : Bytes) (kept : List Nat) (rest : Bytes) (todo : List Nat)
  | logging
  | ended
  deriving DecidableEq, Repr

/-- The thread holds the lock of the sinks. -/
def Tee.locks : Tee → Bool
  | .broadcasting _ _ _ _ => true
  | _ => false

structure State where
  world : World
  tee : Output → Tee
  /-- `log_pending`. -/
  pending : Output → Bytes
  log : List LogLine
  /-- The sinks of a stream, by attacher. -/
  sinks : Output → List Nat
  tap : Output → Nat → Option Tap
  /-- The io table has the fan-out, or the start that is going to insert it. -/
  entry : Bool
  /-- The calls of `open_attach` that have cloned the fan-out and not yet returned. -/
  clones : List Nat
  /-- The chunks broadcast so far. -/
  sent : Output → List Bytes

def init (world : World) : State where
  world := world
  tee _ := .reading
  pending _ := []
  log := []
  sinks _ := []
  tap _ _ := none
  entry := true
  clones := []
  sent _ := []

/-- Someone holds the fan-out. -/
def State.alive (s : State) : Bool :=
  s.entry || s.tee .stdout != .ended || s.tee .stderr != .ended || s.clones != []

/-- The sinks there are, those included that a broadcast works on. -/
def State.members (s : State) (o : Output) : List Nat :=
  match s.tee o with
  | .broadcasting _ kept _ todo => kept ++ todo
  | _ => s.sinks o

/-- The write end of an attacher's pipe is open. -/
def State.isSink (s : State) (o : Output) (k : Nat) : Bool := s.alive && (s.members o).contains k

/-- A process is spawned, with a copy of each end that is open. -/
def State.spawned (s : State) : State :=
  { s with
    tap := fun o k => (s.tap o k).map fun t =>
      { t with heldRead := t.hasReader, heldWrite := s.isSink o k || t.heldWrite } }

def State.setTap (s : State) (o : Output) (k : Nat) (t : Tap) : State :=
  { s with tap := update s.tap o (update (s.tap o) k (some t)) }

def State.setTee (s : State) (o : Output) (t : Tee) : State :=
  { s with tee := update s.tee o t }

/-! ## Steps -/

inductive TeeAction
  | read (n : Nat)
  | lock
  /-- The pipe that is written to takes `n` bytes. -/
  | put (n : Nat)
  /-- The pipe that is written to has no reader. -/
  | broken
  | unlock
  | line (time : String)
  /-- No complete line is pending. -/
  | resume
  /-- The stream has ended. -/
  | eof (time : String)
  deriving DecidableEq, Repr

inductive AttachAction
  | clone
  /-- The pipe is made and its write end registered; in between a process may be spawned. -/
  | register (o : Output) (capacity : Nat) (held : Bool)
  | opened
  /-- A pipe could not be made, or stdin not be duplicated. -/
  | failed
  | read (o : Output) (n : Nat)
  | eof (o : Output)
  /-- The read end is closed. -/
  | close (o : Output)
  /-- The last of the processes that have the read end of the pipe, or its write end, is gone. -/
  | release (o : Output) (read write : Bool)
  deriving DecidableEq, Repr

inductive Label
  | process (a : ProcessAction)
  | tee (o : Output) (a : TeeAction)
  | attach (k : Nat) (a : AttachAction)
  /-- The io table loses the entry. -/
  | drop
  /-- The listener spawns a process. -/
  | spawn
  deriving DecidableEq, Repr

/-- The tee thread of a stream. -/
def teeStep (s : State) (o : Output) : TeeAction → Option State
  | .read n =>
    if s.tee o = .reading ∧ 0 < n ∧ n ≤ 8192 ∧ n ≤ (s.world.out o).buf.length then
      some { s.setTee o (.locking (s.world.taken o n)) with world := s.world.drain o n }
    else none
  | .lock =>
    match s.tee o with
    | .locking chunk =>
      some { s.setTee o (.broadcasting chunk [] chunk (s.sinks o)) with
        sent := update s.sent o (s.sent o ++ [chunk]) }
    | _ => none
  | .put n =>
    match s.tee o with
    | .broadcasting chunk kept rest (k :: todo) =>
      match s.tap o k with
      | some t =>
        if t.hasReader = true ∧ 0 < n ∧ n ≤ rest.length ∧ n ≤ t.capacity - t.buf.length then
          some ((s.setTap o k { t with buf := t.buf ++ rest.take n }).setTee o
            (if n = rest.length then .broadcasting chunk (kept ++ [k]) chunk todo
            else .broadcasting chunk kept (rest.drop n) (k :: todo)))
        else none
      | none => none
    | _ => none
  | .broken =>
    match s.tee o with
    | .broadcasting chunk kept _ (k :: todo) =>
      match s.tap o k with
      | some t =>
        if t.hasReader = false then some (s.setTee o (.broadcasting chunk kept chunk todo))
        else none
      | none => none
    | _ => none
  | .unlock =>
    match s.tee o with
    | .broadcasting chunk kept _ [] =>
      some { s.setTee o .logging with
        sinks := update s.sinks o kept
        pending := update s.pending o (s.pending o ++ chunk) }
    | _ => none
  | .line time =>
    if s.tee o = .logging then
      (cutLine NEWLINE (s.pending o)).map fun (line, rest) =>
        { s with pending := update s.pending o rest, log := s.log ++ [⟨time, o, line⟩] }
    else none
  | .resume =>
    if s.tee o = .logging ∧ cutLine NEWLINE (s.pending o) = none then some (s.setTee o .reading)
    else none
  | .eof time =>
    if s.tee o = .reading ∧ (s.world.out o).atEnd then
      some { s.setTee o .ended with
        log := if s.pending o = [] then s.log else s.log ++ [⟨time, o, s.pending o⟩] }
    else none

/-- A call of `open_attach`, and the attacher that it is for. -/
def attachStep (s : State) (k : Nat) : AttachAction → Option State
  | .clone =>
    if s.entry = true ∧ k ∉ s.clones ∧ s.tap .stdout k = none ∧ s.tap .stderr k = none then
      some { s with clones := k :: s.clones }
    else none
  | .register o capacity held =>
    if k ∈ s.clones ∧ s.tap o k = none ∧ (o = .stderr → (s.tap .stdout k).isSome = true) ∧
        0 < capacity ∧ (s.tee o).locks = false then
      some { s.setTap o k ⟨capacity, [], true, [], false, (s.sent o).length, held, held⟩ with
        sinks := update s.sinks o (s.sinks o ++ [k]) }
    else none
  | .opened =>
    if k ∈ s.clones ∧ (s.tap .stderr k).isSome = true then
      some { s with clones := s.clones.erase k }
    else none
  | .failed =>
    if k ∈ s.clones then
      some { s with
        clones := s.clones.erase k
        tap := fun o => update (s.tap o) k ((s.tap o k).map fun t => { t with reading := false }) }
    else none
  | .read o n =>
    match s.tap o k with
    | some t =>
      if t.reading = true ∧ 0 < n ∧ n ≤ t.buf.length then
        some (s.setTap o k
          { t with buf := t.buf.drop n, received := t.received ++ t.buf.take n })
      else none
    | none => none
  | .eof o =>
    match s.tap o k with
    | some t =>
      if t.reading = true ∧ t.buf = [] ∧ s.isSink o k = false ∧ t.heldWrite = false then
        some (s.setTap o k { t with eof := true })
      else none
    | none => none
  | .close o =>
    match s.tap o k with
    | some t => some (s.setTap o k { t with reading := false })
    | none => none
  | .release o read write =>
    match s.tap o k with
    | some t =>
      some (s.setTap o k
        { t with heldRead := t.heldRead && !read, heldWrite := t.heldWrite && !write })
    | none => none

def step (s : State) : Label → Option State
  | .process a => (s.world.step a).map fun w => { s with world := w }
  | .tee o a => teeStep s o a
  | .attach k a => attachStep s k a
  | .drop => some { s with entry := false }
  | .spawn => some s.spawned

/-! ## What a step does -/

/-- The steps there are. -/
inductive Step (s : State) : Label → State → Prop
  | process {a : ProcessAction} {w : World} (hw : s.world.step a = some w) :
    Step s (.process a) { s with world := w }
  | read {o : Output} {n : Nat} (htee : s.tee o = .reading) (hn : 0 < n)
    (hbuf : n ≤ (s.world.out o).buf.length) :
    Step s (.tee o (.read n))
      { s.setTee o (.locking (s.world.taken o n)) with world := s.world.drain o n }
  | lock {o : Output} {chunk : Bytes} (htee : s.tee o = .locking chunk) :
    Step s (.tee o .lock)
      { s.setTee o (.broadcasting chunk [] chunk (s.sinks o)) with
        sent := update s.sent o (s.sent o ++ [chunk]) }
  | put {o : Output} {chunk rest : Bytes} {kept todo : List Nat} {k n : Nat} {t : Tap}
    (htee : s.tee o = .broadcasting chunk kept rest (k :: todo)) (htap : s.tap o k = some t)
    (hopen : t.hasReader = true) (hn : 0 < n) (hrest : n < rest.length)
    (hroom : n ≤ t.capacity - t.buf.length) :
    Step s (.tee o (.put n))
      ((s.setTap o k { t with buf := t.buf ++ rest.take n }).setTee o
        (.broadcasting chunk kept (rest.drop n) (k :: todo)))
  | putLast {o : Output} {chunk rest : Bytes} {kept todo : List Nat} {k : Nat} {t : Tap}
    (htee : s.tee o = .broadcasting chunk kept rest (k :: todo)) (htap : s.tap o k = some t)
    (hopen : t.hasReader = true) (hrest : 0 < rest.length)
    (hroom : rest.length ≤ t.capacity - t.buf.length) :
    Step s (.tee o (.put rest.length))
      ((s.setTap o k { t with buf := t.buf ++ rest }).setTee o
        (.broadcasting chunk (kept ++ [k]) chunk todo))
  | broken {o : Output} {chunk rest : Bytes} {kept todo : List Nat} {k : Nat} {t : Tap}
    (htee : s.tee o = .broadcasting chunk kept rest (k :: todo)) (htap : s.tap o k = some t)
    (hclosed : t.hasReader = false) :
    Step s (.tee o .broken) (s.setTee o (.broadcasting chunk kept chunk todo))
  | unlock {o : Output} {chunk rest : Bytes} {kept : List Nat}
    (htee : s.tee o = .broadcasting chunk kept rest []) :
    Step s (.tee o .unlock)
      { s.setTee o .logging with
        sinks := update s.sinks o kept
        pending := update s.pending o (s.pending o ++ chunk) }
  | line {o : Output} {time : String} {line rest : Bytes} (htee : s.tee o = .logging)
    (hcut : cutLine NEWLINE (s.pending o) = some (line, rest)) :
    Step s (.tee o (.line time))
      { s with pending := update s.pending o rest, log := s.log ++ [⟨time, o, line⟩] }
  | resume {o : Output} (htee : s.tee o = .logging)
    (hcut : cutLine NEWLINE (s.pending o) = none) :
    Step s (.tee o .resume) (s.setTee o .reading)
  | finish {o : Output} {time : String} (htee : s.tee o = .reading)
    (hend : (s.world.out o).atEnd) :
    Step s (.tee o (.eof time))
      { s.setTee o .ended with
        log := if s.pending o = [] then s.log else s.log ++ [⟨time, o, s.pending o⟩] }
  | clone {k : Nat} (hentry : s.entry = true) (hclones : k ∉ s.clones)
    (htap : ∀ o, s.tap o k = none) :
    Step s (.attach k .clone) { s with clones := k :: s.clones }
  | register {k capacity : Nat} {o : Output} {held : Bool} (hclones : k ∈ s.clones)
    (htap : s.tap o k = none) (hfirst : o = .stderr → (s.tap .stdout k).isSome = true)
    (hcapacity : 0 < capacity)
    (hlock : (s.tee o).locks = false) :
    Step s (.attach k (.register o capacity held))
      { s.setTap o k ⟨capacity, [], true, [], false, (s.sent o).length, held, held⟩ with
        sinks := update s.sinks o (s.sinks o ++ [k]) }
  | opened {k : Nat} (hclones : k ∈ s.clones) (htap : (s.tap .stderr k).isSome = true) :
    Step s (.attach k .opened) { s with clones := s.clones.erase k }
  | failed {k : Nat} (hclones : k ∈ s.clones) :
    Step s (.attach k .failed)
      { s with
        clones := s.clones.erase k
        tap := fun o => update (s.tap o) k ((s.tap o k).map fun t => { t with reading := false }) }
  | receive {k n : Nat} {o : Output} {t : Tap} (htap : s.tap o k = some t)
    (hopen : t.reading = true) (hn : 0 < n) (hbuf : n ≤ t.buf.length) :
    Step s (.attach k (.read o n))
      (s.setTap o k { t with buf := t.buf.drop n, received := t.received ++ t.buf.take n })
  | eof {k : Nat} {o : Output} {t : Tap} (htap : s.tap o k = some t) (hopen : t.reading = true)
    (hbuf : t.buf = []) (hsink : s.isSink o k = false) (hheld : t.heldWrite = false) :
    Step s (.attach k (.eof o)) (s.setTap o k { t with eof := true })
  | close {k : Nat} {o : Output} {t : Tap} (htap : s.tap o k = some t) :
    Step s (.attach k (.close o)) (s.setTap o k { t with reading := false })
  | release {k : Nat} {o : Output} {t : Tap} {read write : Bool} (htap : s.tap o k = some t) :
    Step s (.attach k (.release o read write))
      (s.setTap o k
        { t with heldRead := t.heldRead && !read, heldWrite := t.heldWrite && !write })
  | drop : Step s .drop { s with entry := false }
  | spawn : Step s .spawn s.spawned

theorem teeStep_cases {s s' : State} {o : Output} {a : TeeAction} (h : teeStep s o a = some s') :
    Step s (.tee o a) s' := by
  cases a with
  | read n =>
    unfold teeStep at h
    dsimp only at h
    split at h
    · rename_i hcond
      obtain rfl := Option.some.inj h
      exact .read hcond.1 hcond.2.1 hcond.2.2.2
    · cases h
  | lock =>
    unfold teeStep at h
    dsimp only at h
    split at h
    · rename_i chunk htee
      obtain rfl := Option.some.inj h
      exact .lock htee
    · cases h
  | put n =>
    unfold teeStep at h
    dsimp only at h
    split at h
    · rename_i chunk kept rest k todo htee
      split at h
      · rename_i t htap
        split at h
        · rename_i hcond
          obtain ⟨hopen, hn, hle, hroom⟩ := hcond
          obtain rfl := Option.some.inj h
          split
          · rename_i heq
            subst heq
            rw [List.take_length]
            exact .putLast htee htap hopen hn hroom
          · exact .put htee htap hopen hn (by omega) hroom
        · cases h
      · cases h
    · cases h
  | broken =>
    unfold teeStep at h
    dsimp only at h
    split at h
    · rename_i chunk kept rest k todo htee
      split at h
      · rename_i t htap
        split at h
        · rename_i hclosed
          obtain rfl := Option.some.inj h
          exact .broken htee htap hclosed
        · cases h
      · cases h
    · cases h
  | unlock =>
    unfold teeStep at h
    dsimp only at h
    split at h
    · rename_i chunk kept rest htee
      obtain rfl := Option.some.inj h
      exact .unlock htee
    · cases h
  | line time =>
    unfold teeStep at h
    dsimp only at h
    split at h
    · rename_i htee
      obtain ⟨⟨line, rest⟩, hcut, rfl⟩ := Option.map_eq_some_iff.mp h
      exact .line htee hcut
    · cases h
  | resume =>
    unfold teeStep at h
    dsimp only at h
    split at h
    · rename_i hcond
      obtain rfl := Option.some.inj h
      exact .resume hcond.1 hcond.2
    · cases h
  | eof time =>
    unfold teeStep at h
    dsimp only at h
    split at h
    · rename_i hcond
      obtain rfl := Option.some.inj h
      exact .finish hcond.1 hcond.2
    · cases h

theorem attachStep_cases {s s' : State} {k : Nat} {a : AttachAction}
    (h : attachStep s k a = some s') : Step s (.attach k a) s' := by
  cases a with
  | clone =>
    unfold attachStep at h
    dsimp only at h
    split at h
    · rename_i hcond
      obtain ⟨hentry, hclones, hout, herr⟩ := hcond
      obtain rfl := Option.some.inj h
      refine .clone hentry hclones fun o => ?_
      cases o with
      | stdout => exact hout
      | stderr => exact herr
    · cases h
  | register o capacity held =>
    unfold attachStep at h
    dsimp only at h
    split at h
    · rename_i hcond
      obtain ⟨hclones, htap, hfirst, hcapacity, hlock⟩ := hcond
      obtain rfl := Option.some.inj h
      exact .register hclones htap hfirst hcapacity hlock
    · cases h
  | opened =>
    unfold attachStep at h
    dsimp only at h
    split at h
    · rename_i hcond
      obtain rfl := Option.some.inj h
      exact .opened hcond.1 hcond.2
    · cases h
  | failed =>
    unfold attachStep at h
    dsimp only at h
    split at h
    · rename_i hclones
      obtain rfl := Option.some.inj h
      exact .failed hclones
    · cases h
  | read o n =>
    unfold attachStep at h
    dsimp only at h
    split at h
    · rename_i t htap
      split at h
      · rename_i hcond
        obtain rfl := Option.some.inj h
        exact .receive htap hcond.1 hcond.2.1 hcond.2.2
      · cases h
    · cases h
  | eof o =>
    unfold attachStep at h
    dsimp only at h
    split at h
    · rename_i t htap
      split at h
      · rename_i hcond
        obtain rfl := Option.some.inj h
        exact .eof htap hcond.1 hcond.2.1 hcond.2.2.1 hcond.2.2.2
      · cases h
    · cases h
  | close o =>
    unfold attachStep at h
    dsimp only at h
    split at h
    · rename_i t htap
      obtain rfl := Option.some.inj h
      exact .close htap
    · cases h
  | release o read write =>
    unfold attachStep at h
    dsimp only at h
    split at h
    · rename_i t htap
      obtain rfl := Option.some.inj h
      exact .release htap
    · cases h

/-- **Every step is one of these.** -/
theorem step_cases {s s' : State} {l : Label} (h : step s l = some s') : Step s l s' := by
  cases l with
  | process a =>
    obtain ⟨w, hw, rfl⟩ := Option.map_eq_some_iff.mp h
    exact .process hw
  | tee o a => exact teeStep_cases h
  | attach k a => exact attachStep_cases h
  | drop =>
    obtain rfl := Option.some.inj h
    exact .drop
  | spawn =>
    obtain rfl := Option.some.inj h
    exact .spawn

end LightrCri.Attach

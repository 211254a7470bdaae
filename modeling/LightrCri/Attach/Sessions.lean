import LightrCri.Attach.Delivery
import LightrCri.Foundations.Blocking

/-!
# Attach sessions

The sessions on the containers of a backend, from `open_attach` to the return of `run_exec`, and the
pool of threads for blocking jobs that they share. A session has the waiter of its container there,
for each output that its client reads one read of the attacher's pipe after the other, and for what
its client types one write to the stdin of the container after the other.

When `run_exec` returns it aborts its tasks. That takes the waiter out of the queue, if it has not
started yet. A read that is under way goes on: it holds the read end of the pipe and its thread
until there is something to read or the pipe is at its end. So does a write, until the stdin of the
container has taken all of it or has no reader.
-/

namespace LightrCri.Attach

open Foundations LightrCri.Stream Function Spdy

/-- A file of a session. -/
inductive Handle
  | stdin
  | output (o : Output)
  deriving DecidableEq, Repr

inductive Job
  | waiter (k : Nat)
  /-- A read of an output, or a write to stdin. -/
  | file (k : Nat) (f : Handle)
  deriving DecidableEq, Repr

/-- An output of a session. -/
inductive Pump
  /-- The client has not opened the stream. -/
  | file
  /-- In a read, which is a job. -/
  | reading
  /-- About to send what was read. -/
  | writing
  /-- The read end is closed. -/
  | stopped
  deriving DecidableEq, Repr

inductive Phase
  /-- In `open_attach`. -/
  | opening
  | live
  /-- `run_exec` has returned. -/
  | returned
  deriving DecidableEq, Repr

structure Session (C : Type) where
  container : C
  phase : Phase
  pump : Output → Pump
  /-- What a write to stdin that is under way, which is a job, still has to write. -/
  stdin : Bytes

/-- A job has the file. -/
def Session.inUse {C : Type} (s : Session C) : Handle → Bool
  | .stdin => s.stdin ≠ []
  | .output o => s.pump o = .reading

structure Host (C : Type) where
  fan : C → State
  /-- The container was configured with a stdin. -/
  stdin : C → Bool
  /-- The record of the container is Running. -/
  running : C → Bool
  session : Nat → Option (Session C)
  pool : BlockingPool Job

inductive Event (C : Type)
  /-- A client attaches; `open_attach` finds the container in the io table. -/
  | attach (k : Nat) (c : C)
  | opening (k : Nat) (a : AttachAction)
  /-- The client opens the stream of an output. -/
  | pump (k : Nat) (o : Output)
  /-- A thread of the pool takes a job. -/
  | start
  | read (k : Nat) (o : Output) (n : Nat)
  | eof (k : Nat) (o : Output)
  /-- What was read is sent. -/
  | again (k : Nat) (o : Output)
  /-- It cannot be sent. -/
  | broke (k : Nat) (o : Output)
  /-- What the client sends for stdin, or the next part of it, is given to a thread to write. -/
  | type (k : Nat) (bytes : Bytes)
  /-- The stdin of the container takes `n` bytes of it. -/
  | put (k : Nat) (n : Nat)
  /-- It has no reader. -/
  | refused (k : Nat)
  | waited (k : Nat)
  /-- `run_exec` returns. -/
  | leave (k : Nat)
  /-- The io table loses the entry of the container. -/
  | drop (c : C)
  /-- The record of the container leaves Running or is removed. -/
  | exited (c : C)
  /-- The listener spawns a process. -/
  | spawn
  /-- The process and the tee threads of a container. -/
  | fan (c : C) (l : Label)
  deriving DecidableEq, Repr

/-- The steps of a container that are none of the attachers', and of the processes that have ends of
its pipes. -/
def Label.inside : Label → Bool
  | .process _ => true
  | .tee _ _ => true
  | .attach _ (.release _ _ _) => true
  | _ => false

def Session.setPump {C : Type} (s : Session C) (o : Output) (p : Pump) : Session C :=
  { s with pump := update s.pump o p }

/-- The session when `run_exec` has returned. -/
def Session.left {C : Type} (s : Session C) : Session C :=
  { s with
    phase := .returned
    pump := fun o => if s.pump o = .reading then .reading else .stopped }

/-- Read ends of an attacher are closed. -/
def State.hangUp (s : State) (k : Nat) (which : Output → Bool) : State :=
  { s with
    tap := fun o =>
      if which o = true then
        update (s.tap o) k ((s.tap o k).map fun t => { t with reading := false })
      else s.tap o }

/-! ## What the steps of a container do to its sinks -/

/-- A fan-out that is gone stays gone, and no sinks come in but those of an attacher that joins. -/
structure Fewer (s s' : State) (joins : Option Nat) : Prop where
  alive : s.alive = false → s'.alive = false
  members : ∀ o k, k ∈ s'.members o → k ∈ s.members o ∨ joins = some k

section

variable {s s' : State}

theorem State.alive_eq_false :
    s.alive = false ↔ s.entry = false ∧ (∀ o, s.tee o = .ended) ∧ s.clones = [] := by
  simp only [State.alive, Bool.or_eq_false_iff, bne_eq_false_iff_eq]
  constructor
  · rintro ⟨⟨⟨hentry, hout⟩, herr⟩, hclones⟩
    refine ⟨hentry, fun o => ?_, hclones⟩
    cases o with
    | stdout => exact hout
    | stderr => exact herr
  · rintro ⟨hentry, htee, hclones⟩
    exact ⟨⟨⟨hentry, htee _⟩, htee _⟩, hclones⟩

theorem State.isSink_eq_false {o : Output} {k : Nat} :
    s.isSink o k = false ↔ s.alive = false ∨ k ∉ s.members o := by
  simp only [State.isSink, Bool.and_eq_false_iff, List.contains_eq_mem, decide_eq_false_iff_not]

theorem Fewer.of_eq (halive : s'.alive = s.alive) (hmembers : s'.members = s.members) :
    Fewer s s' none where
  alive h := halive.trans h
  members _ _ hk := .inl (hmembers ▸ hk)

theorem Fewer.refl (s : State) (joins : Option Nat) : Fewer s s joins :=
  ⟨id, fun _ _ hk => .inl hk⟩

/-- A thread drops sinks. -/
theorem Step.members_tee {o : Output} {a : TeeAction} (hstep : Step s (.tee o a) s') {k : Nat}
    (hk : k ∈ s'.members o) : k ∈ s.members o := by
  have hself {α : Type} (f : Output → α) (x : α) : update f o x o = x := update_self o x f
  have hsinks {s : State} {tee : Tee} (htee : s.tee o = tee) (hlock : tee.locks = false) :
      s.members o = s.sinks o := State.members_of_not_locks (by rw [htee]; exact hlock)
  cases hstep with
  | read htee | resume htee | finish htee =>
    rw [hsinks (hself _ _) rfl] at hk
    rw [hsinks htee rfl]
    exact hk
  | lock htee =>
    rw [State.members_of_broadcasting (hself _ _)] at hk
    rw [hsinks htee rfl]
    exact hk
  | put htee =>
    rw [State.members_of_broadcasting (hself _ _)] at hk
    rw [State.members_of_broadcasting htee]
    exact hk
  | putLast htee =>
    rw [State.members_of_broadcasting (hself _ _), List.append_assoc] at hk
    rw [State.members_of_broadcasting htee]
    exact hk
  | @broken _ chunk rest kept todo j t htee =>
    rw [State.members_of_broadcasting (hself _ _)] at hk
    rw [State.members_of_broadcasting htee]
    exact ((List.sublist_cons_self j todo).append_left kept).subset hk
  | unlock htee =>
    rw [hsinks (hself _ _) rfl] at hk
    rw [State.members_of_broadcasting htee, List.append_nil]
    change k ∈ update s.sinks o _ o at hk
    rwa [hself] at hk
  | line => exact hk

theorem Step.fewer_tee {o : Output} {a : TeeAction} (hstep : Step s (.tee o a) s') :
    Fewer s s' none := by
  refine ⟨fun hgone => ?_, fun o' k hk => .inl ?_⟩
  · -- the thread has not ended
    obtain ⟨-, hended, -⟩ := State.alive_eq_false.mp hgone
    have hne : s.tee o ≠ .ended := by
      cases hstep with
      | read htee | lock htee | put htee | putLast htee | broken htee | unlock htee | line htee
      | resume htee | finish htee =>
        rw [htee]
        exact nofun
    exact absurd (hended o) hne
  · by_cases ho : o' = o
    · subst ho
      exact hstep.members_tee hk
    · rw [(hstep.same_of_ne ho).1.members] at hk
      exact hk

/-- The attacher whose sink the step registers. -/
def Label.joins : Label → Option Nat
  | .attach k (.register _ _ _) => some k
  | _ => none

theorem State.members_register {o o' : Output} {k : Nat} {t : Tap} {sinks : List Nat}
    (ho : o' ≠ o) :
    State.members { s.setTap o k t with sinks := update s.sinks o sinks } o' = s.members o' :=
  State.members_congr rfl (update_of_ne ho _ _)

theorem Step.fewer_attach {k : Nat} {a : AttachAction} (hstep : Step s (.attach k a) s') :
    Fewer s s' (Label.attach k a).joins := by
  cases hstep with
  | clone hentry =>
    refine ⟨fun hgone => ?_, fun _ _ hk => .inl hk⟩
    rw [(State.alive_eq_false.mp hgone).1] at hentry
    cases hentry
  | @register _ capacity o held hclones _ _ _ hlock =>
    refine ⟨fun hgone => ?_, fun o' j hj => ?_⟩
    · rw [(State.alive_eq_false.mp hgone).2.2] at hclones
      cases hclones
    · by_cases ho : o' = o
      · subst ho
        rw [State.members_of_not_locks (s := { s.setTap o' k _ with sinks := _ }) hlock] at hj
        change j ∈ update s.sinks o' _ o' at hj
        rw [update_self, List.mem_append, List.mem_singleton] at hj
        rw [State.members_of_not_locks hlock]
        exact hj.imp_right fun heq => congrArg some heq.symm
      · left
        rwa [State.members_register ho] at hj
  | opened hclones =>
    refine ⟨fun hgone => ?_, fun _ _ hk => .inl hk⟩
    rw [(State.alive_eq_false.mp hgone).2.2] at hclones
    cases hclones
  | failed hclones =>
    refine ⟨fun hgone => ?_, fun _ _ hk => .inl hk⟩
    rw [(State.alive_eq_false.mp hgone).2.2] at hclones
    cases hclones
  | receive => exact .of_eq rfl rfl
  | eof => exact .of_eq rfl rfl
  | close => exact .of_eq rfl rfl
  | release => exact .of_eq rfl rfl

theorem joins_of_inside {l : Label} (hl : l.inside = true) : l.joins = none := by
  cases l with
  | attach k a =>
    cases a with
    | register => cases hl
    | _ => rfl
  | _ => rfl

/-- **What a step does to the sinks.** -/
theorem Step.fewer {l : Label} (hstep : Step s l s') : Fewer s s' l.joins := by
  cases l with
  | process a =>
    cases hstep with
    | process => exact .of_eq rfl rfl
  | tee o a => exact hstep.fewer_tee
  | attach k a => exact hstep.fewer_attach
  | drop =>
    cases hstep with
    | drop =>
      refine ⟨fun hgone => ?_, fun _ _ hk => .inl hk⟩
      obtain ⟨-, htee, hclones⟩ := State.alive_eq_false.mp hgone
      exact State.alive_eq_false.mpr ⟨rfl, htee, hclones⟩
  | spawn =>
    cases hstep with
    | spawn => exact .of_eq rfl rfl

theorem Fewer.hangUp {joins : Option Nat} (h : Fewer s s' joins) (k : Nat)
    (which : Output → Bool) : Fewer s (s'.hangUp k which) joins :=
  ⟨h.alive, h.members⟩

end

/-! ## The files of a session -/

section

variable {C : Type}

/-- The session goes on in the phase that it is in. -/
structure Session.Same (s s' : Session C) : Prop where
  container : s'.container = s.container
  phase : s'.phase = s.phase

theorem Session.same_setPump (s : Session C) (o : Output) (p : Pump) : s.Same (s.setPump o p) :=
  ⟨rfl, rfl⟩

/-- A pump is put in a read. -/
theorem Session.inUse_reading {s : Session C} {o : Output} {f : Handle} :
    (s.setPump o .reading).inUse f = true ↔ s.inUse f = true ∨ f = .output o := by
  cases f with
  | stdin => exact (or_iff_left nofun).symm
  | output o' =>
    simp only [inUse, setPump, decide_eq_true_eq, Handle.output.injEq]
    by_cases ho : o' = o
    · subst ho
      simp
    · simp [ho]

/-- A pump is in no read any more. -/
theorem Session.inUse_setPump {s : Session C} {o : Output} {p : Pump} {f : Handle}
    (hp : p ≠ .reading) :
    (s.setPump o p).inUse f = true ↔ s.inUse f = true ∧ f ≠ .output o := by
  cases f with
  | stdin => exact (and_iff_left nofun).symm
  | output o' =>
    simp only [inUse, setPump, decide_eq_true_eq, ne_eq, Handle.output.injEq]
    by_cases ho : o' = o
    · subst ho
      simp [hp]
    · simp [ho]

/-- The part of a write is given to the thread. -/
theorem Session.inUse_typing {s : Session C} {bytes : Bytes} {f : Handle} (hb : bytes ≠ []) :
    { s with stdin := bytes : Session C }.inUse f = true ↔ s.inUse f = true ∨ f = .stdin := by
  cases f with
  | stdin => simp [inUse, hb]
  | output o => exact (or_iff_left nofun).symm

/-- The write has returned. -/
theorem Session.inUse_typed {s : Session C} {f : Handle} :
    { s with stdin := [] : Session C }.inUse f = true ↔ s.inUse f = true ∧ f ≠ .stdin := by
  cases f with
  | stdin => simp [inUse]
  | output o => exact (and_iff_left nofun).symm

theorem Session.inUse_left (s : Session C) (f : Handle) : s.left.inUse f = s.inUse f := by
  cases f with
  | stdin => rfl
  | output o =>
    simp only [inUse, left]
    by_cases hp : s.pump o = .reading <;> simp [hp]

end

variable {C : Type} [DecidableEq C]

namespace Host

def init (size : Nat) (interactive : C → Bool) (stdin stdout stderr : C → Nat) : Host C where
  fan c := Attach.init (World.init (stdin c) (stdout c) (stderr c))
  stdin := interactive
  running _ := true
  session _ := none
  pool := .empty size

def setFan (h : Host C) (c : C) (s : State) : Host C := { h with fan := update h.fan c s }

def setWorld (h : Host C) (c : C) (w : World) : Host C :=
  h.setFan c { h.fan c with world := w }

def setSession (h : Host C) (k : Nat) (s : Session C) : Host C :=
  { h with session := update h.session k (some s) }

/-- A read returns. With the session gone it was the last to hold the read end. -/
def returns (h : Host C) (k : Nat) (o : Output) (s : Session C) (fan : State) (eof : Bool) :
    Option (Host C) :=
  (h.pool.finish (.file k (.output o))).map fun pool =>
    if eof = true ∨ s.phase = .returned then
      { (h.setFan s.container (fan.hangUp k (· = o))).setSession k (s.setPump o .stopped) with
        pool := pool }
    else { (h.setFan s.container fan).setSession k (s.setPump o .writing) with pool := pool }

def step (h : Host C) : Event C → Option (Host C)
  | .attach k c =>
    if h.session k = none ∧ h.running c = true then
      (attachStep (h.fan c) k .clone).map fun fan =>
        (h.setFan c fan).setSession k ⟨c, .opening, fun _ => .file, []⟩
    else none
  | .opening k a =>
    match h.session k with
    | some s =>
      if s.phase = .opening then
        match a with
        | .register o capacity held =>
          (attachStep (h.fan s.container) k (.register o capacity held)).map (h.setFan s.container)
        | .opened =>
          (attachStep (h.fan s.container) k .opened).bind fun fan =>
            (h.pool.spawn (.waiter k)).map fun pool =>
              { (h.setFan s.container fan).setSession k { s with phase := .live } with
                pool := pool }
        | .failed =>
          (attachStep (h.fan s.container) k .failed).map fun fan =>
            (h.setFan s.container fan).setSession k ⟨s.container, .live, fun _ => .stopped, []⟩
        | _ => none
      else none
    | none => none
  | .pump k o =>
    match h.session k with
    | some s =>
      -- the loop that reads frames takes none while it is in a write
      if s.phase = .live ∧ s.pump o = .file ∧ s.stdin = [] then
        (h.pool.spawn (.file k (.output o))).map fun pool =>
          { h.setSession k (s.setPump o .reading) with pool := pool }
      else none
    | none => none
  | .start => h.pool.start.map fun pool => { h with pool := pool }
  | .read k o n =>
    match h.session k with
    | some s =>
      (attachStep (h.fan s.container) k (.read o n)).bind fun fan => h.returns k o s fan false
    | none => none
  | .eof k o =>
    match h.session k with
    | some s =>
      (attachStep (h.fan s.container) k (.eof o)).bind fun fan => h.returns k o s fan true
    | none => none
  | .again k o =>
    match h.session k with
    | some s =>
      if s.phase = .live ∧ s.pump o = .writing then
        (h.pool.spawn (.file k (.output o))).map fun pool =>
          { h.setSession k (s.setPump o .reading) with pool := pool }
      else none
    | none => none
  | .broke k o =>
    match h.session k with
    | some s =>
      if s.phase = .live ∧ s.pump o = .writing then
        some ((h.setFan s.container ((h.fan s.container).hangUp k (· = o))).setSession k
          (s.setPump o .stopped))
      else none
    | none => none
  | .type k bytes =>
    match h.session k with
    | some s =>
      if s.phase = .live ∧ h.stdin s.container = true ∧ s.stdin = [] ∧ bytes ≠ [] ∧
          bytes.length ≤ MAX_BUF_SIZE then
        (h.pool.spawn (.file k .stdin)).map fun pool =>
          { h.setSession k { s with stdin := bytes } with pool := pool }
      else none
    | none => none
  | .put k n =>
    match h.session k with
    | some s =>
      if .file k .stdin ∈ h.pool.running then
        ((h.fan s.container).world.accept ⟨s.stdin, [], fun _ => rfl⟩ n).bind fun w =>
          if n < s.stdin.length then
            some ((h.setWorld s.container w).setSession k { s with stdin := s.stdin.drop n })
          else
            (h.pool.finish (.file k .stdin)).map fun pool =>
              { (h.setWorld s.container w).setSession k { s with stdin := [] } with pool := pool }
      else none
    | none => none
  | .refused k =>
    match h.session k with
    | some s =>
      if (h.fan s.container).world.stdin.closed = true then
        (h.pool.finish (.file k .stdin)).map fun pool =>
          { h.setSession k { s with stdin := [] } with pool := pool }
      else none
    | none => none
  | .waited k =>
    match h.session k with
    | some s =>
      if h.running s.container = false then
        (h.pool.finish (.waiter k)).map fun pool => { h with pool := pool }
      else none
    | none => none
  | .leave k =>
    match h.session k with
    | some s =>
      if s.phase = .live then
        some
          { (h.setFan s.container
              ((h.fan s.container).hangUp k fun o => s.pump o != .reading)).setSession k
              s.left
            with pool := h.pool.abort (.waiter k) }
      else none
    | none => none
  | .drop c => (Attach.step (h.fan c) .drop).map (h.setFan c)
  | .exited c => some { h with running := update h.running c false }
  | .spawn => some { h with fan := fun c => (h.fan c).spawned }
  | .fan c l => if l.inside = true then (Attach.step (h.fan c) l).map (h.setFan c) else none

/-! ## What a session leaves -/

/-- Nothing is left of the session: no job and no sink. -/
structure Released (h : Host C) (k : Nat) : Prop where
  waiter : .waiter k ∉ h.pool.jobs
  file : ∀ f, .file k f ∉ h.pool.jobs
  sink : ∀ s, h.session k = some s → ∀ o, (h.fan s.container).isSink o k = false

/-- Nothing holds the session: it is in no read and in no write, and its sinks went with the fan-out
or were dropped. -/
def Settled (h : Host C) (k : Nat) (s : Session C) : Prop :=
  (∀ f, s.inUse f = false) ∧
    ∀ o, (h.fan s.container).alive = false ∨ k ∉ (h.fan s.container).members o

/-- The session is over before `run_exec` returns: its waiter does not run, and nothing holds it. -/
def Over (h : Host C) (k : Nat) : Prop :=
  .waiter k ∉ h.pool.running ∧ ∀ s ∈ h.session k, h.Settled k s

instance (h : Host C) (k : Nat) (s : Session C) : Decidable (h.Settled k s) :=
  haveI : Decidable (∀ f, s.inUse f = false) :=
    decidable_of_iff (s.inUse .stdin = false ∧ ∀ o, s.inUse (.output o) = false)
      ⟨fun hall f => by cases f <;> [exact hall.1; exact hall.2 _],
        fun hall => ⟨hall _, fun _ => hall _⟩⟩
  instDecidableAnd

instance (h : Host C) (k : Nat) : Decidable (h.Over k) :=
  haveI : Decidable (∀ s ∈ h.session k, h.Settled k s) := Option.decidableForallMem _
  instDecidableAnd

/-- `run_exec` returns only from a session that is over. -/
def LeavesOver (h : Host C) : Event C → Prop
  | .leave k => h.Over k
  | _ => True

instance (h : Host C) : ∀ e, Decidable (h.LeavesOver e)
  | .leave k => inferInstanceAs (Decidable (h.Over k))
  | .attach _ _ | .opening _ _ | .pump _ _ | .start | .read _ _ _ | .eof _ _ => isTrue trivial
  | .again _ _ | .broke _ _ | .type _ _ | .put _ _ | .refused _ => isTrue trivial
  | .waited _ | .drop _ | .exited _ | .spawn | .fan _ _ => isTrue trivial

/-! ## What a step does -/

/-- The steps there are. -/
inductive Steps (h : Host C) : Event C → Host C → Prop
  | attach {k : Nat} {c : C} {fan : State} (hnone : h.session k = none)
    (hfan : Fewer (h.fan c) fan none) :
    Steps h (.attach k c) ((h.setFan c fan).setSession k ⟨c, .opening, fun _ => .file, []⟩)
  | register {e : Event C} {k : Nat} {s : Session C} {fan : State} (hs : h.session k = some s)
    (hphase : s.phase = .opening) (hfan : Fewer (h.fan s.container) fan (some k)) :
    Steps h e (h.setFan s.container fan)
  | opened {k : Nat} {s : Session C} {fan : State} {pool : BlockingPool Job}
    (hs : h.session k = some s) (hphase : s.phase = .opening)
    (hfan : Fewer (h.fan s.container) fan none) (hpool : h.pool.spawn (.waiter k) = some pool) :
    Steps h (.opening k .opened)
      { (h.setFan s.container fan).setSession k { s with phase := .live } with pool := pool }
  | failed {k : Nat} {s : Session C} {fan : State} (hs : h.session k = some s)
    (hphase : s.phase = .opening) (hfan : Fewer (h.fan s.container) fan none) :
    Steps h (.opening k .failed)
      ((h.setFan s.container fan).setSession k ⟨s.container, .live, fun _ => .stopped, []⟩)
  /-- A read or a write is begun. -/
  | begin {e : Event C} {k : Nat} {f : Handle} {s s' : Session C} {pool : BlockingPool Job}
    (hs : h.session k = some s) (hphase : s.phase = .live) (hsame : s.Same s')
    (huse : ∀ f', s'.inUse f' = true ↔ s.inUse f' = true ∨ f' = f)
    (hpool : h.pool.spawn (.file k f) = some pool) :
    Steps h e { h.setSession k s' with pool := pool }
  | start {pool : BlockingPool Job} (hpool : h.pool.start = some pool) :
    Steps h .start { h with pool := pool }
  /-- It returns. -/
  | returns {e : Event C} {k : Nat} {f : Handle} {s s' : Session C} {fan : State}
    {pool : BlockingPool Job} (hs : h.session k = some s) (hsame : s.Same s')
    (hfan : Fewer (h.fan s.container) fan none)
    (huse : ∀ f', s'.inUse f' = true ↔ s.inUse f' = true ∧ f' ≠ f)
    (hpool : h.pool.finish (.file k f) = some pool) :
    Steps h e { (h.setFan s.container fan).setSession k s' with pool := pool }
  /-- It gets on, or the session does without it. -/
  | goesOn {e : Event C} {k : Nat} {s s' : Session C} {fan : State} (hs : h.session k = some s)
    (hsame : s.Same s') (hlive : s.phase = .live ∨ s.inUse .stdin = true)
    (hfan : Fewer (h.fan s.container) fan none) (huse : ∀ f, s'.inUse f = s.inUse f) :
    Steps h e ((h.setFan s.container fan).setSession k s')
  | waited {k : Nat} {s : Session C} {pool : BlockingPool Job} (hs : h.session k = some s)
    (hexited : h.running s.container = false) (hpool : h.pool.finish (.waiter k) = some pool) :
    Steps h (.waited k) { h with pool := pool }
  | leave {k : Nat} {s : Session C} (hs : h.session k = some s) (hphase : s.phase = .live) :
    Steps h (.leave k)
      { (h.setFan s.container
          ((h.fan s.container).hangUp k fun o => s.pump o != .reading)).setSession k s.left
        with pool := h.pool.abort (.waiter k) }
  | exited {c : C} : Steps h (.exited c) { h with running := update h.running c false }
  /-- The containers go on. -/
  | fan {e : Event C} {fan : C → State} (hfan : ∀ c, Fewer (h.fan c) (fan c) none) :
    Steps h e { h with fan := fan }

section

variable {h h' : Host C}

theorem setFan_self (h : Host C) (c : C) : h.setFan c (h.fan c) = h := by
  unfold setFan
  rw [update_eq_self]

/-- The fan-out of one container changes. -/
theorem fan_update {c : C} {fan : State} {joins : Option Nat} (hfewer : Fewer (h.fan c) fan joins)
    (c' : C) : Fewer (h.fan c') (update h.fan c fan c') (if c' = c then joins else none) := by
  by_cases hc : c' = c
  · subst hc
    rw [update_self, if_pos rfl]
    exact hfewer
  · rw [update_of_ne hc, if_neg hc]
    exact Fewer.refl _ _

theorem Steps.ofFan {e : Event C} {c : C} {fan : State} (hfan : Fewer (h.fan c) fan none) :
    Steps h e (h.setFan c fan) := by
  refine .fan fun c' => ?_
  have hfewer := fan_update hfan c'
  rwa [ite_self] at hfewer

theorem returns_cases {k : Nat} {o : Output} {s : Session C} {fan : State} {eof : Bool}
    {e : Event C} (hs : h.session k = some s) (hfan : Fewer (h.fan s.container) fan none)
    (hret : h.returns k o s fan eof = some h') : Steps h e h' := by
  obtain ⟨pool, hpool, hif⟩ := Option.map_eq_some_iff.mp hret
  dsimp only at hif
  split at hif
  · subst hif
    exact .returns hs (s.same_setPump _ _) (hfan.hangUp k (· = o))
      (fun _ => Session.inUse_setPump nofun) hpool
  · subst hif
    exact .returns hs (s.same_setPump _ _) hfan (fun _ => Session.inUse_setPump nofun) hpool

/-- **Every step is one of these.** -/
theorem step_cases {e : Event C} (hstep : h.step e = some h') : Steps h e h' := by
  cases e with
  | attach k c =>
    unfold step at hstep
    dsimp only at hstep
    split at hstep
    · rename_i hcond
      obtain ⟨fan, hfan, rfl⟩ := Option.map_eq_some_iff.mp hstep
      exact .attach hcond.1 (Attach.step_cases (l := .attach k .clone) hfan).fewer
    · cases hstep
  | opening k a =>
    unfold step at hstep
    dsimp only at hstep
    split at hstep
    · rename_i s hs
      split at hstep
      · rename_i hphase
        split at hstep
        · rename_i o capacity held
          obtain ⟨fan, hfan, rfl⟩ := Option.map_eq_some_iff.mp hstep
          exact .register hs hphase
            (Attach.step_cases (l := .attach k (.register o capacity held)) hfan).fewer
        · obtain ⟨fan, hfan, hmap⟩ := Option.bind_eq_some_iff.mp hstep
          obtain ⟨pool, hpool, rfl⟩ := Option.map_eq_some_iff.mp hmap
          exact .opened hs hphase (Attach.step_cases (l := .attach k .opened) hfan).fewer hpool
        · obtain ⟨fan, hfan, rfl⟩ := Option.map_eq_some_iff.mp hstep
          exact .failed hs hphase (Attach.step_cases (l := .attach k .failed) hfan).fewer
        · cases hstep
      · cases hstep
    · cases hstep
  | pump k o =>
    unfold step at hstep
    dsimp only at hstep
    split at hstep
    · rename_i s hs
      split at hstep
      · rename_i hcond
        obtain ⟨pool, hpool, rfl⟩ := Option.map_eq_some_iff.mp hstep
        exact .begin hs hcond.1 (s.same_setPump _ _) (fun _ => Session.inUse_reading) hpool
      · cases hstep
    · cases hstep
  | start =>
    obtain ⟨pool, hpool, rfl⟩ := Option.map_eq_some_iff.mp hstep
    exact .start hpool
  | read k o n =>
    unfold step at hstep
    dsimp only at hstep
    split at hstep
    · rename_i s hs
      obtain ⟨fan, hfan, hret⟩ := Option.bind_eq_some_iff.mp hstep
      exact returns_cases hs (Attach.step_cases (l := .attach k (.read o n)) hfan).fewer hret
    · cases hstep
  | eof k o =>
    unfold step at hstep
    dsimp only at hstep
    split at hstep
    · rename_i s hs
      obtain ⟨fan, hfan, hret⟩ := Option.bind_eq_some_iff.mp hstep
      exact returns_cases hs (Attach.step_cases (l := .attach k (.eof o)) hfan).fewer hret
    · cases hstep
  | again k o =>
    unfold step at hstep
    dsimp only at hstep
    split at hstep
    · rename_i s hs
      split at hstep
      · rename_i hcond
        obtain ⟨pool, hpool, rfl⟩ := Option.map_eq_some_iff.mp hstep
        exact .begin hs hcond.1 (s.same_setPump _ _) (fun _ => Session.inUse_reading) hpool
      · cases hstep
    · cases hstep
  | broke k o =>
    unfold step at hstep
    dsimp only at hstep
    split at hstep
    · rename_i s hs
      split at hstep
      · rename_i hcond
        obtain rfl := Option.some.inj hstep
        refine .goesOn hs (s.same_setPump _ _) (.inl hcond.1)
          ((Fewer.refl _ none).hangUp k (· = o)) fun f => Bool.eq_iff_iff.mpr ?_
        refine (Session.inUse_setPump (p := .stopped) nofun).trans
          (and_iff_left_of_imp fun hf ho => ?_)
        -- it was about to send, not in a read
        subst ho
        rw [Session.inUse, hcond.2] at hf
        cases of_decide_eq_true hf
      · cases hstep
    · cases hstep
  | type k bytes =>
    unfold step at hstep
    dsimp only at hstep
    split at hstep
    · rename_i s hs
      split at hstep
      · rename_i hcond
        obtain ⟨pool, hpool, rfl⟩ := Option.map_eq_some_iff.mp hstep
        exact .begin hs hcond.1 ⟨rfl, rfl⟩ (fun _ => Session.inUse_typing hcond.2.2.2.1) hpool
      · cases hstep
    · cases hstep
  | put k n =>
    unfold step at hstep
    dsimp only at hstep
    split at hstep
    · rename_i s hs
      split at hstep
      · obtain ⟨w, hw, hif⟩ := Option.bind_eq_some_iff.mp hstep
        have hworld : Fewer (h.fan s.container) { h.fan s.container with world := w } none :=
          .of_eq rfl rfl
        have hstdin : s.inUse .stdin = true := by
          obtain ⟨⟨hn, hle, -⟩, -⟩ := World.accept_cases hw
          exact decide_eq_true (List.ne_nil_of_length_pos (Nat.lt_of_lt_of_le hn hle))
        split at hif
        · rename_i hlt
          obtain rfl := Option.some.inj hif
          refine .goesOn hs ⟨rfl, rfl⟩ (.inr hstdin) hworld fun f => ?_
          cases f with
          | stdin =>
            rw [hstdin]
            refine decide_eq_true fun hnil => ?_
            have := List.drop_eq_nil_iff.mp hnil
            omega
          | output o => rfl
        · obtain ⟨pool, hpool, rfl⟩ := Option.map_eq_some_iff.mp hif
          exact .returns hs ⟨rfl, rfl⟩ hworld (fun _ => Session.inUse_typed) hpool
      · cases hstep
    · cases hstep
  | refused k =>
    unfold step at hstep
    dsimp only at hstep
    split at hstep
    · rename_i s hs
      split at hstep
      · obtain ⟨pool, hpool, rfl⟩ := Option.map_eq_some_iff.mp hstep
        have hsteps : Steps h (.refused k) { (h.setFan s.container (h.fan s.container)).setSession k
            { s with stdin := [] } with pool := pool } :=
          .returns hs ⟨rfl, rfl⟩ (Fewer.refl _ none) (fun _ => Session.inUse_typed) hpool
        rwa [setFan_self] at hsteps
      · cases hstep
    · cases hstep
  | waited k =>
    unfold step at hstep
    dsimp only at hstep
    split at hstep
    · rename_i s hs
      split at hstep
      · rename_i hexited
        obtain ⟨pool, hpool, rfl⟩ := Option.map_eq_some_iff.mp hstep
        exact .waited hs hexited hpool
      · cases hstep
    · cases hstep
  | leave k =>
    unfold step at hstep
    dsimp only at hstep
    split at hstep
    · rename_i s hs
      split at hstep
      · rename_i hphase
        obtain rfl := Option.some.inj hstep
        exact .leave hs hphase
      · cases hstep
    · cases hstep
  | drop c =>
    unfold step at hstep
    dsimp only at hstep
    obtain ⟨fan, hfan, rfl⟩ := Option.map_eq_some_iff.mp hstep
    exact .ofFan (Attach.step_cases hfan).fewer
  | exited c =>
    obtain rfl := Option.some.inj hstep
    exact .exited
  | spawn =>
    obtain rfl := Option.some.inj hstep
    exact .fan fun c => (Attach.step_cases (s := h.fan c) (l := .spawn) rfl).fewer
  | fan c l =>
    unfold step at hstep
    dsimp only at hstep
    split at hstep
    · rename_i hl
      obtain ⟨fan, hfan, rfl⟩ := Option.map_eq_some_iff.mp hstep
      have hfewer := (Attach.step_cases hfan).fewer
      rw [joins_of_inside hl] at hfewer
      exact .ofFan hfewer
    · cases hstep

/-! ## What is so in every state -/

/-- The reads and writes under way are jobs, and the sinks are those of the sessions. -/
structure Kept (h : Host C) : Prop where
  file : ∀ k f, .file k f ∈ h.pool.jobs ↔ ∃ s, h.session k = some s ∧ s.inUse f = true
  waiter : ∀ k, .waiter k ∈ h.pool.jobs → ∃ s, h.session k = some s
  sinks : ∀ c o k, k ∈ (h.fan c).members o → ∃ s, h.session k = some s ∧ s.container = c
  opening : ∀ k s, h.session k = some s → s.phase = .opening → ∀ f, s.inUse f = false

/-- The sessions that `run_exec` has left are over. -/
def Freed (h : Host C) : Prop :=
  ∀ k s, h.session k = some s → s.phase = .returned → .waiter k ∉ h.pool.jobs ∧ h.Settled k s

/-- Session `k` goes on as `s`, with a fan-out that only it may join. -/
structure Goes (h h' : Host C) (k : Nat) (s : Session C) : Prop where
  session : h'.session = update h.session k (some s)
  file_self : ∀ f, .file k f ∈ h'.pool.jobs ↔ s.inUse f = true
  file : ∀ j f, j ≠ k → (.file j f ∈ h'.pool.jobs ↔ .file j f ∈ h.pool.jobs)
  waiter : ∀ j, j ≠ k → .waiter j ∈ h'.pool.jobs → .waiter j ∈ h.pool.jobs
  opening : s.phase = .opening → ∀ f, s.inUse f = false
  container : ∀ s₀, h.session k = some s₀ → s₀.container = s.container
  alive : ∀ c, (h.fan c).alive = false → (h'.fan c).alive = false
  members : ∀ c o j, j ∈ (h'.fan c).members o → j ∈ (h.fan c).members o ∨ j = k ∧ s.container = c

omit [DecidableEq C] in
theorem Kept.goes {k : Nat} {s : Session C} (hkept : h.Kept) (hgoes : Goes h h' k s) : h'.Kept where
  file j f := by
    rw [hgoes.session]
    by_cases hj : j = k
    · subst hj
      rw [hgoes.file_self, update_self]
      exact ⟨fun hp => ⟨s, rfl, hp⟩, fun ⟨s', hs', hp⟩ => Option.some.inj hs' ▸ hp⟩
    · rw [hgoes.file j f hj, update_of_ne hj]
      exact hkept.file j f
  waiter j hw := by
    rw [hgoes.session]
    by_cases hj : j = k
    · subst hj
      exact ⟨s, update_self ..⟩
    · rw [update_of_ne hj]
      exact hkept.waiter j (hgoes.waiter j hj hw)
  sinks c o j hmem := by
    rw [hgoes.session]
    by_cases hj : j = k
    · subst hj
      refine ⟨s, update_self .., ?_⟩
      rcases hgoes.members c o j hmem with hold | ⟨-, hc⟩
      · obtain ⟨s₀, hs₀, hc⟩ := hkept.sinks c o j hold
        exact (hgoes.container s₀ hs₀).symm.trans hc
      · exact hc
    · rw [update_of_ne hj]
      exact hkept.sinks c o j ((hgoes.members c o j hmem).resolve_right fun hjk => hj hjk.1)
  opening j s' hs' := by
    rw [hgoes.session] at hs'
    by_cases hj : j = k
    · subst hj
      rw [update_self] at hs'
      obtain rfl := Option.some.inj hs'
      exact hgoes.opening
    · rw [update_of_ne hj] at hs'
      exact hkept.opening j s' hs'

omit [DecidableEq C] in
theorem Freed.goes {k : Nat} {s : Session C} (hfreed : h.Freed) (hgoes : Goes h h' k s)
    (hself : s.phase = .returned → .waiter k ∉ h'.pool.jobs ∧ h'.Settled k s) : h'.Freed := by
  intro j s' hs' hphase
  rw [hgoes.session] at hs'
  by_cases hj : j = k
  · subst hj
    rw [update_self] at hs'
    obtain rfl := Option.some.inj hs'
    exact hself hphase
  · rw [update_of_ne hj] at hs'
    obtain ⟨hwaiter, hfiles, hsinks⟩ := hfreed j s' hs' hphase
    refine ⟨fun hw => hwaiter (hgoes.waiter j hj hw), hfiles, fun o => ?_⟩
    refine (hsinks o).imp (hgoes.alive s'.container) fun hout hin => ?_
    exact hout ((hgoes.members _ o j hin).resolve_right fun hjk => hj hjk.1)

/-- No session goes on. -/
structure Stays (h h' : Host C) : Prop where
  session : h'.session = h.session
  file : ∀ j f, .file j f ∈ h'.pool.jobs ↔ .file j f ∈ h.pool.jobs
  waiter : ∀ j, .waiter j ∈ h'.pool.jobs → .waiter j ∈ h.pool.jobs
  alive : ∀ c, (h.fan c).alive = false → (h'.fan c).alive = false
  members : ∀ c o j, j ∈ (h'.fan c).members o → j ∈ (h.fan c).members o

omit [DecidableEq C] in
theorem Kept.stays (hkept : h.Kept) (hstays : Stays h h') : h'.Kept where
  file j f := by
    rw [hstays.session, hstays.file]
    exact hkept.file j f
  waiter j hw := hstays.session ▸ hkept.waiter j (hstays.waiter j hw)
  sinks c o j hmem := hstays.session ▸ hkept.sinks c o j (hstays.members c o j hmem)
  opening := hstays.session ▸ hkept.opening

omit [DecidableEq C] in
theorem Freed.stays (hfreed : h.Freed) (hstays : Stays h h') : h'.Freed := by
  intro j s hs hphase
  rw [hstays.session] at hs
  obtain ⟨hwaiter, hfiles, hsinks⟩ := hfreed j s hs hphase
  refine ⟨fun hw => hwaiter (hstays.waiter j hw), hfiles, fun o => ?_⟩
  exact (hsinks o).imp (hstays.alive _) fun hout hin => hout (hstays.members _ o j hin)

omit [DecidableEq C] in
theorem Kept.file_iff {k : Nat} {s : Session C} (hkept : h.Kept) (hs : h.session k = some s)
    (f : Handle) : .file k f ∈ h.pool.jobs ↔ s.inUse f = true :=
  (hkept.file k f).trans
    ⟨fun ⟨_, hs', hp⟩ => Option.some.inj (hs.symm.trans hs') ▸ hp, fun hp => ⟨s, hs, hp⟩⟩

/-- `run_exec` leaves a session. -/
theorem Kept.leave {k : Nat} {s : Session C} (hkept : h.Kept) (hs : h.session k = some s) :
    Goes h
      { (h.setFan s.container
          ((h.fan s.container).hangUp k fun o => s.pump o != .reading)).setSession k s.left
        with pool := h.pool.abort (.waiter k) } k s.left := by
  have hfewer := (Fewer.refl (h.fan s.container) none).hangUp k fun o => s.pump o != .reading
  refine ⟨rfl, fun f => ?_, fun j f hj => ?_, fun j hj hw => ?_, nofun, fun s₀ hs₀ => ?_,
    fun c' => (fan_update hfewer c').alive, fun c' o j hj => .inl ?_⟩
  · rw [BlockingPool.mem_abort, and_iff_left nofun, hkept.file_iff hs, s.inUse_left]
  · rw [BlockingPool.mem_abort, and_iff_left nofun]
  · exact ((BlockingPool.mem_abort _).mp hw).1
  · rw [Option.some.inj (hs₀.symm.trans hs)]
    rfl
  · refine ((fan_update hfewer c').members o j hj).resolve_right fun heq => ?_
    rw [ite_self] at heq
    cases heq

/-- **Who goes on.** Where it is a session that `run_exec` has left, that had a file in use, or
`run_exec` leaves it now. -/
theorem Steps.moves {e : Event C} (hkept : h.Kept) (hsteps : Steps h e h') :
    Stays h h' ∨ ∃ k s, Goes h h' k s ∧ (s.phase = .returned → e = .leave k ∨
      ∃ s₀ f, h.session k = some s₀ ∧ s₀.phase = .returned ∧ s₀.inUse f = true) := by
  have hmembers {c c' : C} {fan : State} {joins : Option Nat} (hfewer : Fewer (h.fan c) fan joins)
      {k : Nat} (hjoins : joins = none ∨ joins = some k) (o : Output) (j : Nat)
      (hj : j ∈ (update h.fan c fan c').members o) :
      j ∈ (h.fan c').members o ∨ j = k ∧ c = c' := by
    refine ((fan_update hfewer c').members o j hj).imp_right fun heq => ?_
    split at heq
    · rename_i hc
      rcases hjoins with hnone | hsome
      · cases hnone.symm.trans heq
      · exact ⟨Option.some.inj (heq.symm.trans hsome), hc.symm⟩
    · cases heq
  have hcontainer {k : Nat} {s s' : Session C} (hs : h.session k = some s)
      (hsame : s'.container = s.container) (s₀ : Session C) (hs₀ : h.session k = some s₀) :
      s₀.container = s'.container := by
    rw [Option.some.inj (hs₀.symm.trans hs), hsame]
  have hne {k j : Nat} {f f' : Handle} : Job.file j f' ≠ .file k f ↔ j = k → f' ≠ f := by
    simp only [ne_eq, Job.file.injEq, not_and]
  -- a session with a file in use is not opening
  have hopening {k : Nat} {s : Session C} {f : Handle} (hs : h.session k = some s)
      (hf : s.inUse f = true) (ho : s.phase = .opening) : False := by
    rw [hkept.opening k s hs ho f] at hf
    cases hf
  cases hsteps with
  | @attach k c fan hnone hfewer =>
    right
    refine ⟨k, _, ⟨rfl, fun f => ?_, fun _ _ _ => .rfl, fun _ _ hw => hw, fun _ f => ?_, ?_, ?_,
      ?_⟩, nofun⟩
    · refine ⟨fun hjob => ?_, fun hf => ?_⟩
      · obtain ⟨s, hs, -⟩ := (hkept.file k f).mp hjob
        cases hnone.symm.trans hs
      · cases f <;> cases hf
    · cases f <;> rfl
    · intro s₀ hs₀
      cases hnone.symm.trans hs₀
    · exact fun c' => (fan_update hfewer c').alive
    · exact fun c' o j hj => hmembers hfewer (.inl rfl) o j hj
  | @register _ k s fan hs hphase hfewer =>
    right
    refine ⟨k, s, ⟨(update_eq_self_iff.mpr hs.symm).symm, hkept.file_iff hs, fun _ _ _ => .rfl,
      fun _ _ hw => hw, hkept.opening k s hs, hcontainer hs rfl, ?_, ?_⟩, fun hr => ?_⟩
    · exact fun c' => (fan_update hfewer c').alive
    · exact fun c' o j hj => hmembers hfewer (.inr rfl) o j hj
    · rw [hphase] at hr
      cases hr
  | @opened k s fan pool hs hphase hfewer hpool =>
    right
    refine ⟨k, _, ⟨rfl, fun f => ?_, fun j f hj => ?_, fun j hj hw => ?_, nofun, hcontainer hs rfl,
      fun c' => (fan_update hfewer c').alive, fun c' o j hj => hmembers hfewer (.inl rfl) o j hj⟩,
      nofun⟩
    · refine (BlockingPool.mem_spawn hpool _).trans ?_
      rw [or_iff_left nofun]
      exact (hkept.file_iff hs f).trans (by cases f <;> rfl)
    · refine (BlockingPool.mem_spawn hpool _).trans ?_
      rw [or_iff_left nofun]
    · exact ((BlockingPool.mem_spawn hpool _).mp hw).resolve_right fun heq =>
        hj (Job.waiter.inj heq)
  | @failed k s fan hs hphase hfewer =>
    right
    refine ⟨k, _, ⟨rfl, fun f => ?_, fun _ _ _ => .rfl, fun _ _ hw => hw, nofun, hcontainer hs rfl,
      fun c' => (fan_update hfewer c').alive, fun c' o j hj => hmembers hfewer (.inl rfl) o j hj⟩,
      nofun⟩
    refine ⟨fun hjob => ?_, fun hf => ?_⟩
    · exact (hopening hs ((hkept.file_iff hs f).mp hjob) hphase).elim
    · cases f <;> cases hf
  | @begin _ k f s s' pool hs hphase hsame huse hpool =>
    right
    refine ⟨k, _, ⟨rfl, fun f' => ?_, fun j f' hj => ?_, fun j hj hw => ?_, fun ho => ?_,
      hcontainer hs hsame.container, fun _ hgone => hgone, fun _ _ _ hj => .inl hj⟩, fun hr => ?_⟩
    · refine (BlockingPool.mem_spawn hpool _).trans ?_
      rw [hkept.file_iff hs, huse, Job.file.injEq]
      exact or_congr_right (and_iff_right rfl)
    · refine (BlockingPool.mem_spawn hpool _).trans ?_
      exact or_iff_left fun heq => hj (Job.file.inj heq).1
    · exact ((BlockingPool.mem_spawn hpool _).mp hw).resolve_right nofun
    · cases (hsame.phase.trans hphase).symm.trans ho
    · cases (hsame.phase.trans hphase).symm.trans hr
  | start hpool =>
    left
    exact ⟨rfl, fun _ _ => BlockingPool.mem_start hpool _,
      fun _ hw => (BlockingPool.mem_start hpool _).mp hw, fun _ hgone => hgone, fun _ _ _ hj => hj⟩
  | @returns _ k f s s' fan pool hs hsame hfewer huse hpool =>
    right
    have hf := (hkept.file_iff hs f).mp (BlockingPool.mem_of_finish hpool)
    refine ⟨k, _, ⟨rfl, fun f' => ?_, fun j f' hj => ?_, fun j hj hw => ?_, fun ho => ?_,
      hcontainer hs hsame.container, fun c' => (fan_update hfewer c').alive,
      fun c' o j hj => (hmembers hfewer (.inl rfl) o j hj).imp_right fun hjk =>
        ⟨hjk.1, hsame.container.trans hjk.2⟩⟩,
      fun hr => .inr ⟨s, f, hs, hsame.phase.symm.trans hr, hf⟩⟩
    · rw [BlockingPool.mem_finish hpool, hkept.file_iff hs, huse, hne]
      exact and_congr_right fun _ => ⟨fun himp => himp rfl, fun ho _ => ho⟩
    · rw [BlockingPool.mem_finish hpool, hne]
      exact and_iff_left fun heq => absurd heq hj
    · exact ((BlockingPool.mem_finish hpool _).mp hw).1
    · exact (hopening hs hf (hsame.phase.symm.trans ho)).elim
  | @goesOn _ k s s' fan hs hsame hlive hfewer huse =>
    right
    refine ⟨k, _, ⟨rfl, fun f => ?_, fun _ _ _ => .rfl, fun _ _ hw => hw, fun ho => ?_,
      hcontainer hs hsame.container, fun c' => (fan_update hfewer c').alive,
      fun c' o j hj => (hmembers hfewer (.inl rfl) o j hj).imp_right fun hjk =>
        ⟨hjk.1, hsame.container.trans hjk.2⟩⟩, fun hr => ?_⟩
    · rw [huse]
      exact hkept.file_iff hs f
    · intro f
      rw [huse]
      exact hkept.opening k s hs (hsame.phase.symm.trans ho) f
    · rcases hlive with hphase | hf
      · cases (hsame.phase.trans hphase).symm.trans hr
      · exact .inr ⟨s, .stdin, hs, hsame.phase.symm.trans hr, hf⟩
  | @waited k s pool hs hexited hpool =>
    left
    refine ⟨rfl, fun j o => ?_, fun _ hw => ((BlockingPool.mem_finish hpool _).mp hw).1,
      fun _ hgone => hgone, fun _ _ _ hj => hj⟩
    rw [BlockingPool.mem_finish hpool]
    exact and_iff_left nofun
  | @leave k s hs hphase => exact .inr ⟨k, _, hkept.leave hs, fun _ => .inl rfl⟩
  | exited =>
    left
    exact ⟨rfl, fun _ _ => .rfl, fun _ hw => hw, fun _ hgone => hgone, fun _ _ _ hj => hj⟩
  | fan hfan =>
    left
    refine ⟨rfl, fun _ _ => .rfl, fun _ hw => hw, fun c' => (hfan c').alive, fun c' o j hj => ?_⟩
    exact ((hfan c').members o j hj).resolve_right nofun

theorem Kept.step {e : Event C} (hkept : h.Kept) (hstep : h.step e = some h') : h'.Kept := by
  rcases (step_cases hstep).moves hkept with hstays | ⟨k, s, hgoes, -⟩
  · exact hkept.stays hstays
  · exact hkept.goes hgoes

theorem leave_cases {k : Nat} (hstep : h.step (.leave k) = some h') :
    ∃ s, h.session k = some s ∧
      h' = { (h.setFan s.container
          ((h.fan s.container).hangUp k fun o => s.pump o != .reading)).setSession k s.left
        with pool := h.pool.abort (.waiter k) } := by
  unfold step at hstep
  dsimp only at hstep
  split at hstep
  · rename_i s hs
    split at hstep
    · exact ⟨s, hs, (Option.some.inj hstep).symm⟩
    · cases hstep
  · cases hstep

/-- What holds a session is the same when `run_exec` has left it. -/
theorem settled_left {k : Nat} {s : Session C} {pool : BlockingPool Job} (which : Output → Bool) :
    Settled { (h.setFan s.container ((h.fan s.container).hangUp k which)).setSession k s.left
        with pool := pool } k s.left ↔ h.Settled k s := by
  show (∀ f, s.left.inUse f = false) ∧
    (∀ o, (update h.fan s.container _ s.container).alive = false ∨
      k ∉ (update h.fan s.container _ s.container).members o) ↔ _
  rw [update_self]
  simp only [s.inUse_left]
  exact Iff.rfl

theorem Freed.step {e : Event C} (hkept : h.Kept) (hfreed : h.Freed) (hover : h.LeavesOver e)
    (hstep : h.step e = some h') : h'.Freed := by
  by_cases hl : ∃ k, e = .leave k
  · obtain ⟨k, rfl⟩ := hl
    obtain ⟨s, hs, rfl⟩ := leave_cases hstep
    obtain ⟨hwaiter, hsettled⟩ := hover
    refine hfreed.goes (hkept.leave hs) fun _ => ⟨fun hjob => ?_, ?_⟩
    · exact hwaiter (((BlockingPool.mem_abort _).mp hjob).2 rfl)
    · exact (settled_left _).mpr (hsettled s hs)
  · rcases (step_cases hstep).moves hkept with hstays | ⟨k, s, hgoes, hreturned⟩
    · exact hfreed.stays hstays
    · refine hfreed.goes hgoes fun hphase => ?_
      rcases hreturned hphase with he | ⟨s₀, f, hs₀, hphase₀, hf⟩
      · exact absurd ⟨k, he⟩ hl
      · rw [(hfreed k s₀ hs₀ hphase₀).2.1 f] at hf
        cases hf

omit [DecidableEq C] in
/-- What is left of a session is what holds it, and its waiter. -/
theorem Kept.released {k : Nat} {s : Session C} (hkept : h.Kept) (hs : h.session k = some s) :
    h.Released k ↔ .waiter k ∉ h.pool.jobs ∧ h.Settled k s := by
  constructor
  · rintro ⟨hwaiter, hfiles, hsinks⟩
    refine ⟨hwaiter, fun f => ?_, fun o => State.isSink_eq_false.mp (hsinks s hs o)⟩
    rw [Bool.eq_false_iff, Ne, ← hkept.file_iff hs]
    exact hfiles f
  · rintro ⟨hwaiter, hfiles, hsinks⟩
    refine ⟨hwaiter, fun f hjob => ?_, fun s' hs' o => ?_⟩
    · rw [hkept.file_iff hs, hfiles f] at hjob
      cases hjob
    · obtain rfl := Option.some.inj (hs.symm.trans hs')
      exact State.isSink_eq_false.mpr (hsinks o)

/-- Just when a session is over, its end leaves nothing behind. -/
theorem Kept.released_iff {k : Nat} (hkept : h.Kept) (hstep : h.step (.leave k) = some h') :
    h'.Released k ↔ h.Over k := by
  obtain ⟨s, hs, rfl⟩ := leave_cases hstep
  refine ((hkept.goes (hkept.leave hs)).released (update_self ..)).trans (and_congr ?_ ?_)
  · refine not_congr ((BlockingPool.mem_abort _).trans ⟨fun hjob => hjob.2 rfl, fun hrun => ?_⟩)
    exact ⟨List.mem_append_right _ hrun, fun _ => hrun⟩
  · refine (settled_left _).trans ⟨fun hsettled s' hs' => ?_, fun hall => hall s hs⟩
    obtain rfl := Option.some.inj (hs.symm.trans hs')
    exact hsettled

omit [DecidableEq C] in
theorem Kept.init (size : Nat) (interactive : C → Bool) (stdin stdout stderr : C → Nat) :
    (init size interactive stdin stdout stderr).Kept where
  file _ _ := ⟨fun hjob => (by cases hjob), fun ⟨_, hs, _⟩ => (by cases hs)⟩
  waiter _ hjob := by cases hjob
  sinks _ _ _ hmem := by cases hmem
  opening _ _ hs := by cases hs

theorem Kept.run {size : Nat} {interactive : C → Bool} {stdin stdout stderr : C → Nat}
    {es : List (Event C)}
    (hrun : Foundations.run Host.step
      (Host.init size interactive stdin stdout stderr) es = some h) : h.Kept :=
  invariant_run (P := fun _ _ => True) (fun _ _ _ hk _ hstep => hk.step hstep)
    (Kept.init size interactive stdin stdout stderr) (Along.trivial _ _) hrun

/-- **What attach sessions leave behind.** Sessions of which each is over before `run_exec` returns
leave nothing, in any state after that; and one that is not over leaves something. -/
theorem sessions_released {size : Nat} {interactive : C → Bool} {stdin stdout stderr : C → Nat}
    {es : List (Event C)} {h : Host C}
    (hrun : run step (init size interactive stdin stdout stderr) es = some h) :
    (Along step LeavesOver (init size interactive stdin stdout stderr) es →
      ∀ k s, h.session k = some s → s.phase = .returned → h.Released k) ∧
    ∀ k h', step h (.leave k) = some h' → (h'.Released k ↔ h.Over k) := by
  refine ⟨fun hover k s hs hphase => ?_, fun k h' => (Kept.run hrun).released_iff⟩
  have hfreed : h.Kept ∧ h.Freed := by
    refine invariant_run (I := fun h => h.Kept ∧ h.Freed) ?_
      ⟨Kept.init size interactive stdin stdout stderr, fun _ _ hs => (by cases hs)⟩ hover hrun
    exact fun _ _ _ hh hP hstep => ⟨hh.1.step hstep, hh.2.step hh.1 hP hstep⟩
  exact (hfreed.1.released hs).mpr (hfreed.2 k s hs hphase)

/-- A client attaches to container 0, opens its streams and types a line, which the container does
not read. -/
def attachingRun : List (Event Nat) :=
  [.attach 7 0, .opening 7 (.register .stdout 4 false), .opening 7 (.register .stderr 4 false),
    .opening 7 .opened, .start, .pump 7 .stdout, .pump 7 .stderr, .start, .start,
    .type 7 [108, 115, 32, 45, 108, 10], .start, .put 7 4]

/-- The container reads the rest of it and ends, and so the session. -/
def endedRun : List (Event Nat) :=
  attachingRun ++ [Event.fan 0 (.process (.read 4)), .put 7 2, .fan 0 (.process (.exit 0)),
    .fan 0 (.tee .stdout (.eof "")), .fan 0 (.tee .stderr (.eof "")), .drop 0, .exited 0,
    .eof 7 .stdout, .eof 7 .stderr, .waited 7, .leave 7]

/-- The client goes. -/
def detachedRun : List (Event Nat) := attachingRun ++ [Event.leave 7]

/-- The container is interactive, the stdin of a process takes four bytes, and the pool has four
threads. -/
def oneHost : Host Nat := init 4 (fun _ => true) (fun _ => 4) (fun _ => 4) (fun _ => 4)

theorem sessions_released_ended : ∃ h s, run step oneHost endedRun = some h ∧
    h.session 7 = some s ∧ s.phase = .returned ∧ h.Released 7 := by
  have hrun : (run step oneHost endedRun).any fun h =>
      (h.session 7).any fun s => s.phase = .returned := by decide
  obtain ⟨h, hh, hend⟩ := (Option.any_eq_true _ _).mp hrun
  obtain ⟨s, hs, hphase⟩ := (Option.any_eq_true _ _).mp hend
  have hphase := of_decide_eq_true hphase
  exact ⟨h, s, hh, hs, hphase, (sessions_released hh).1 (by decide) 7 s hs hphase⟩

/-- **What a client that goes leaves behind**: its waiter, its reads and its write have all threads
of the pool, and its sinks are still there. -/
theorem detached_not_released : ∃ h s, run step oneHost detachedRun = some h ∧
    h.session 7 = some s ∧ s.phase = .returned ∧ h.pool.running.length = h.pool.size ∧
    .waiter 7 ∈ h.pool.running ∧ .file 7 .stdin ∈ h.pool.running ∧
    (∀ o, .file 7 (.output o) ∈ h.pool.running) ∧ (∀ o, (h.fan 0).isSink o 7 = true) ∧
    ¬ h.Released 7 := by
  have hrun : (run step oneHost detachedRun).any fun h =>
      ((h.session 7).any fun s => s.phase = .returned) ∧ h.pool.running.length = h.pool.size ∧
        .waiter 7 ∈ h.pool.running ∧ .file 7 .stdin ∈ h.pool.running ∧
        (∀ o, .file 7 (.output o) ∈ h.pool.running) ∧ ∀ o, (h.fan 0).isSink o 7 = true := by
    decide
  obtain ⟨h, hh, hend⟩ := (Option.any_eq_true _ _).mp hrun
  obtain ⟨hsession, hfull, hwaiter, hwrite, hreads, hsinks⟩ := of_decide_eq_true hend
  obtain ⟨s, hs, hphase⟩ := (Option.any_eq_true _ _).mp hsession
  refine ⟨h, s, hh, hs, of_decide_eq_true hphase, hfull, hwaiter, hwrite, hreads, hsinks, ?_⟩
  exact fun hrel => hrel.waiter (List.mem_append_right _ hwaiter)

end

end Host

end LightrCri.Attach

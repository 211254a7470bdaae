import LightrCri.Attach.Stall
import Mathlib.Logic.Relation

/-!
# The locks of the backend

The calls and the threads of the containers, as far as they take locks. A call takes the lock of the
cache any number of times, and never while it has another. The lock of the io table is taken by a
start to insert the entry of its container, by a removal and a reaper to remove it, and by
`open_attach`, which registers its sinks with it held and for that takes the lock of the sinks of
each stream. A tee thread holds that one throughout a broadcast.

`Waits` is the wait-for relation between calls, threads, locks and the pipes of attachers.
-/

namespace LightrCri.Attach

open Foundations LightrCri.Stream Function Spdy

/-- What a call wants the lock of the io table for. -/
inductive Errand
  /-- `start_container`, of a container with a terminal or without. -/
  | insert (tty : Bool)
  /-- `remove_container` or a reaper. -/
  | remove
  | attach
  deriving DecidableEq, Repr

/-- Where a call is that has the lock of the io table. -/
inductive Stage
  /-- About to work on the entry. -/
  | entry
  /-- About to lock the sinks of the stream. -/
  | sinks (o : Output)
  | done
  deriving DecidableEq, Repr

inductive Place
  /-- The call has no lock and waits for none. -/
  | free
  | wantsCache
  | inCache
  | wantsTable
  | inTable (stage : Stage)
  deriving DecidableEq, Repr

structure Call (C : Type) where
  container : C
  errand : Errand
  place : Place
  deriving DecidableEq, Repr

structure Backend (C : Type) where
  /-- The fan-outs, which a start makes. -/
  fan : C → State
  /-- The entries of the io table; an entry of a container with a terminal has no fan-out. -/
  entry : C → Option Bool
  call : Nat → Option (Call C)
  /-- Who has the lock. -/
  table : Option Nat
  cache : Option Nat

inductive Move (C : Type)
  | call (i : Nat) (c : C) (errand : Errand)
  | wantCache (i : Nat)
  | wantTable (i : Nat)
  /-- The call gets the lock that it waits for. -/
  | acquire (i : Nat)
  /-- The call does what it wants to do with the entry. -/
  | work (i : Nat)
  /-- The call locks the sinks and adds its own, the write end of a pipe of this capacity, which a
  process that was spawned meanwhile may have. -/
  | register (i : Nat) (capacity : Nat) (held : Bool)
  /-- A pipe could not be made, or stdin not be duplicated. -/
  | fail (i : Nat)
  | release (i : Nat)
  /-- The listener spawns a process. -/
  | spawn
  /-- What else goes on in a container and with its attachers. -/
  | fan (c : C) (l : Label)
  deriving DecidableEq, Repr

/-- The steps of the fan-out of a container that are not steps of a call. -/
def Label.outside : Label → Bool
  | .process _ => true
  | .tee _ _ => true
  | .attach _ (.read _ _) => true
  | .attach _ (.eof _) => true
  | .attach _ (.close _) => true
  | .attach _ (.release _ _ _) => true
  | _ => false

/-- The pipes that have a reader have room for all that the broadcast still owes them. -/
def State.Fits (s : State) (o : Output) : Prop :=
  ∀ k ∈ s.members o, ∀ t ∈ s.tap o k, t.hasReader = true →
    t.buf.length + ((s.tee o).due k).length ≤ t.capacity

instance (s : State) (o : Output) : Decidable (s.Fits o) :=
  List.decidableBAll _ _

/-- They have room for the chunk that is broadcast next. -/
def State.FitsNext (s : State) (o : Output) : Prop :=
  ∀ k ∈ s.members o, ∀ t ∈ s.tap o k, t.hasReader = true →
    t.buf.length + (s.tee o).holds.length ≤ t.capacity

instance (s : State) (o : Output) : Decidable (s.FitsNext o) :=
  List.decidableBAll _ _

section

variable {s s' : State} {o : Output}

theorem State.Fits.intro (h : ∀ k t, s.tap o k = some t → t.hasReader = true →
    t.buf.length + ((s.tee o).due k).length ≤ t.capacity) : s.Fits o :=
  fun k _ t ht hopen => h k t ht hopen

theorem Inv.fits (h : Inv s) (hfits : s.Fits o) {k : Nat} {t : Tap} (ht : s.tap o k = some t)
    (hopen : t.hasReader = true) : t.buf.length + ((s.tee o).due k).length ≤ t.capacity :=
  hfits k (((h.lane o).good k t ht).joined hopen) t ht hopen

/-- Without a broadcast there is nothing to fit. -/
theorem Inv.fits_of_due (h : Inv s) (hdue : ∀ k, (s.tee o).due k = []) : s.Fits o := by
  refine .intro fun k t ht _ => ?_
  rw [hdue, List.length_nil, Nat.add_zero]
  exact ((h.lane o).good k t ht).room

/-- A broadcast that fits is not held up. -/
theorem Inv.not_full (h : Inv s) (hfits : s.Fits o) (k : Nat) : ¬ s.Full o k := by
  rintro ⟨chunk, kept, rest, todo, t, htee, ht, hopen, hfull⟩
  have hle := h.fits hfits ht hopen
  have hrest := ((h.lane o).current _ _ _ _ htee).2.2.1
  have hpos := List.length_pos_iff.mpr hrest
  rw [htee] at hle
  have hdue : (Tee.broadcasting chunk kept rest (k :: todo)).due k = rest := if_pos rfl
  rw [hdue] at hle
  omega

/-- It stays one that fits as it goes on. -/
theorem Inv.fits_tee {a : TeeAction} (h : Inv s) (hfits : s.Fits o)
    (hnext : a = .lock → s.FitsNext o) (hstep : Attach.step s (.tee o a) = some s') : s'.Fits o := by
  have hs' := h.step hstep
  have hself {α : Type} (f : Output → α) (x : α) : update f o x o = x := update_self o x f
  -- a pipe that is written to takes what it is owed, and a pipe keeps its size
  have hkeep (hholds : (s'.tee o).holds = (s.tee o).holds) (hout : s'.world = s.world) :
      s'.Fits o := by
    refine .intro fun k t' ht' hopen' => ?_
    obtain ⟨hshape, hahead⟩ := h.ahead_step (o := o) (k := k)
      (show Label.serves (fun _ => true) (.tee o a) = true from rfl) hstep
    rw [ht'] at hshape
    obtain ⟨t, ht, htt'⟩ := Option.map_eq_some_iff.mp hshape.symm
    have hunread : t.unread true = true := by
      rw [Tap.unread_congr htt', Tap.unread, hopen', Bool.or_true]
      rfl
    have hopen := Tap.hasReader_of_unread hunread
    have heq := hahead t ht hunread
    have hcapacity := capacity_of_shape htt'
    have hle := h.fits hfits ht hopen
    unfold State.ahead LightrCri.Attach.ahead at heq
    rw [queued_eq ht, queued_eq ht', hholds, hout] at heq
    rw [← hcapacity]
    omega
  cases step_cases hstep with
  | read htee =>
    refine hs'.fits_of_due fun k => ?_
    show (update s.tee o _ o).due k = []
    rw [hself]
    rfl
  | @lock _ chunk htee =>
    refine .intro fun k t ht hopen => ?_
    have hle := hnext rfl k (((h.lane o).good k t ht).joined hopen) t ht hopen
    rw [htee] at hle
    show t.buf.length + ((update s.tee o _ o).due k).length ≤ t.capacity
    rw [hself, Tee.due_start]
    split
    · exact hle
    · exact ((h.lane o).good k t ht).room
  | line => exact hkeep rfl rfl
  | put htee | putLast htee | broken htee | unlock htee | resume htee | finish htee =>
    refine hkeep ?_ rfl
    show (update s.tee o _ o).holds = _
    rw [hself, htee]
    rfl

/-- What happens outside of the calls leaves it one that fits. -/
theorem Inv.fits_outside {l : Label} (h : Inv s) (hfits : s.Fits o)
    (hnext : l = .tee o .lock → s.FitsNext o) (hl : l.outside = true)
    (hstep : Attach.step s l = some s') : s'.Fits o := by
  cases l with
  | process a =>
    cases step_cases hstep with
    | process => exact hfits
  | tee o' a =>
    by_cases ho : o = o'
    · subst ho
      exact h.fits_tee hfits (fun ha => hnext (ha ▸ rfl)) hstep
    · obtain ⟨hsame, -, -⟩ := (step_cases hstep).same_of_ne ho
      unfold State.Fits
      rw [hsame.members, hsame.tap, hsame.tee]
      exact hfits
  | attach j a =>
    refine .intro fun k u hu hopen => ?_
    have hset {o' : Output} {t t' : Tap} (ht : s.tap o' j = some t)
        (hu : update s.tap o' (update (s.tap o') j (some t')) o k = some u)
        (ht' : t'.hasReader = true → t.hasReader = true ∧ t'.buf.length ≤ t.buf.length ∧
          t'.capacity = t.capacity) : u.buf.length + ((s.tee o).due k).length ≤ u.capacity := by
      by_cases ho : o = o'
      · subst ho
        rw [update_self] at hu
        by_cases hj : k = j
        · subst hj
          rw [update_self] at hu
          obtain rfl := Option.some.inj hu
          obtain ⟨hreader, hbuf, hcapacity⟩ := ht' hopen
          have hle := h.fits hfits ht hreader
          omega
        · rw [update_of_ne hj] at hu
          exact h.fits hfits hu hopen
      · rw [update_of_ne ho] at hu
        exact h.fits hfits hu hopen
    cases step_cases hstep with
    | @receive _ n o' t ht hreading =>
      refine hset ht hu fun _ => ⟨Tap.hasReader_of_reading hreading, ?_, rfl⟩
      show (t.buf.drop n).length ≤ _
      rw [List.length_drop]
      omega
    | eof ht hreading => exact hset ht hu fun _ => ⟨Tap.hasReader_of_reading hreading, le_rfl, rfl⟩
    | close ht => exact hset ht hu fun hr => ⟨Tap.hasReader_of_held hr, le_rfl, rfl⟩
    | release ht => exact hset ht hu fun hr => ⟨Tap.hasReader_of_and hr, le_rfl, rfl⟩
    | _ => cases hl
  | drop => cases hl
  | spawn => cases hl

/-- A process that is spawned is no reader where there was none. -/
theorem Inv.fits_spawned (h : Inv s) (hfits : s.Fits o) : s.spawned.Fits o := by
  refine .intro fun k u hu hopen => ?_
  obtain ⟨t, ht, rfl⟩ := Option.map_eq_some_iff.mp hu
  have hreader : t.hasReader = true := Tap.hasReader_of_spawned hopen
  exact (h.fits hfits ht hreader :)

end

variable {C : Type} [DecidableEq C]

namespace Backend

def init (stdin stdout stderr : C → Nat) : Backend C where
  fan c := Attach.init (World.init (stdin c) (stdout c) (stderr c))
  entry _ := none
  call _ := none
  table := none
  cache := none

def setPlace (b : Backend C) (i : Nat) (call : Call C) (place : Place) : Backend C :=
  { b with call := update b.call i (some { call with place := place }) }

def setFan (b : Backend C) (c : C) (s : State) : Backend C := { b with fan := update b.fan c s }

/-- A call in the io table. -/
def work (b : Backend C) (i : Nat) (call : Call C) : Option (Backend C) :=
  match call.errand with
  | .insert tty =>
    some { b.setPlace i call (.inTable .done) with
      entry := update b.entry call.container (some tty) }
  | .remove =>
    (Attach.step (b.fan call.container) .drop).map fun s =>
      { (b.setPlace i call (.inTable .done)).setFan call.container s with
        entry := update b.entry call.container none }
  | .attach =>
    match b.entry call.container with
    | some false =>
      (attachStep (b.fan call.container) i .clone).map fun s =>
        (b.setPlace i call (.inTable (.sinks .stdout))).setFan call.container s
    -- no entry is an error, and a terminal is duplicated
    | _ => some (b.setPlace i call (.inTable .done))

def step (b : Backend C) : Move C → Option (Backend C)
  | .call i c errand =>
    if (b.call i).isNone then some { b with call := update b.call i (some ⟨c, errand, .free⟩) }
    else none
  | .wantCache i =>
    match b.call i with
    | some call => if call.place = .free then some (b.setPlace i call .wantsCache) else none
    | none => none
  | .wantTable i =>
    match b.call i with
    | some call => if call.place = .free then some (b.setPlace i call .wantsTable) else none
    | none => none
  | .acquire i =>
    match b.call i with
    | some call =>
      match call.place with
      | .wantsCache =>
        if b.cache = none then some { b.setPlace i call .inCache with cache := some i } else none
      | .wantsTable =>
        if b.table = none then some { b.setPlace i call (.inTable .entry) with table := some i }
        else none
      | _ => none
    | none => none
  | .work i =>
    match b.call i with
    | some call => if call.place = .inTable .entry then b.work i call else none
    | none => none
  | .register i capacity held =>
    match b.call i with
    | some call =>
      match call.place with
      | .inTable (.sinks o) =>
        (attachStep (b.fan call.container) i (.register o capacity held)).map fun s =>
          (b.setPlace i call (.inTable (if o = .stdout then .sinks .stderr else .done))).setFan
            call.container s
      | _ => none
    | none => none
  | .fail i =>
    match b.call i with
    | some call =>
      match call.place with
      | .inTable .entry => none
      | .inTable _ =>
        (attachStep (b.fan call.container) i .failed).map fun s =>
          (b.setPlace i call (.inTable .done)).setFan call.container s
      | _ => none
    | none => none
  | .release i =>
    match b.call i with
    | some call =>
      match call.place with
      | .inCache => some { b.setPlace i call .free with cache := none }
      | .inTable .done =>
        some { (b.setPlace i call .free).setFan call.container
            { b.fan call.container with
              clones := (b.fan call.container).clones.erase i } with
          table := none }
      | _ => none
    | none => none
  | .spawn => some { b with fan := fun c => (b.fan c).spawned }
  | .fan c l =>
    if l.outside = true then (Attach.step (b.fan c) l).map (b.setFan c) else none

/-! ## Who waits for whom -/

inductive Node (C : Type)
  | call (i : Nat)
  | tee (c : C) (o : Output)
  | table
  | cache
  | sinks (c : C) (o : Output)
  | pipe (c : C) (o : Output) (k : Nat)

/-- The wait-for relation. -/
inductive Waits (b : Backend C) : Node C → Node C → Prop
  | wantsTable {i : Nat} {call : Call C} (hcall : b.call i = some call)
    (hplace : call.place = .wantsTable) : Waits b (.call i) .table
  | wantsCache {i : Nat} {call : Call C} (hcall : b.call i = some call)
    (hplace : call.place = .wantsCache) : Waits b (.call i) .cache
  | wantsSinks {i : Nat} {call : Call C} {o : Output} (hcall : b.call i = some call)
    (hplace : call.place = .inTable (.sinks o)) : Waits b (.call i) (.sinks call.container o)
  /-- The thread is about to lock the sinks. -/
  | locking {c : C} {o : Output} {chunk : Bytes} (htee : (b.fan c).tee o = .locking chunk) :
    Waits b (.tee c o) (.sinks c o)
  /-- The thread writes to a pipe that is full. -/
  | writing {c : C} {o : Output} {k : Nat} (hfull : (b.fan c).Full o k) :
    Waits b (.tee c o) (.pipe c o k)
  | inTable {i : Nat} (htable : b.table = some i) : Waits b .table (.call i)
  | inCache {i : Nat} (hcache : b.cache = some i) : Waits b .cache (.call i)
  | broadcasting {c : C} {o : Output} (hlocks : ((b.fan c).tee o).locks = true) :
    Waits b (.sinks c o) (.tee c o)

/-- A call on a container, or one of its threads. -/
def about (b : Backend C) (c : C) : Node C → Prop
  | .call i => ∃ call, b.call i = some call ∧ call.container = c
  | .tee c' _ => c' = c
  | _ => False

/-! ## When no attacher is waited for -/

/-- The call that has the lock of the io table waits for these sinks. -/
def awaits (b : Backend C) (c : C) (o : Output) : Bool :=
  b.table.any fun i => (b.call i).any fun call =>
    call.container = c ∧ call.place = .inTable (.sinks o)

/-- A call of `open_attach` goes for the sinks of a stream only when the broadcast there can be
finished without the attachers, and none that cannot is begun while it waits. -/
def Clear (b : Backend C) : Move C → Prop
  | .work i => ∀ call ∈ b.call i, call.errand = .attach → b.entry call.container = some false →
    (b.fan call.container).Fits .stdout
  | .register i _ _ => ∀ call ∈ b.call i, call.place = .inTable (.sinks .stdout) →
    (b.fan call.container).Fits .stderr
  | .fan c (.tee o .lock) => b.awaits c o = true → (b.fan c).FitsNext o
  | _ => True

instance (b : Backend C) : ∀ m, Decidable (b.Clear m)
  | .work _ => Option.decidableForallMem _
  | .register _ _ _ => Option.decidableForallMem _
  | .fan _ (.tee _ .lock) => inferInstanceAs (Decidable (_ → _))
  | .call _ _ _ | .wantCache _ | .wantTable _ | .acquire _ | .fail _ => isTrue trivial
  | .release _ | .spawn => isTrue trivial
  | .fan _ (.process _) | .fan _ (.attach _ _) | .fan _ .drop | .fan _ .spawn => isTrue trivial
  | .fan _ (.tee _ (.read _)) | .fan _ (.tee _ (.put _)) | .fan _ (.tee _ .broken) => isTrue trivial
  | .fan _ (.tee _ .unlock) | .fan _ (.tee _ (.line _)) | .fan _ (.tee _ .resume) => isTrue trivial
  | .fan _ (.tee _ (.eof _)) => isTrue trivial

/-! ## What a step does -/

/-- The steps there are. -/
inductive Steps (b : Backend C) : Move C → Backend C → Prop
  | call {i : Nat} {c : C} {errand : Errand} (hcall : b.call i = none) :
    Steps b (.call i c errand) { b with call := update b.call i (some ⟨c, errand, .free⟩) }
  | wantCache {i : Nat} {call : Call C} (hcall : b.call i = some call)
    (hplace : call.place = .free) : Steps b (.wantCache i) (b.setPlace i call .wantsCache)
  | wantTable {i : Nat} {call : Call C} (hcall : b.call i = some call)
    (hplace : call.place = .free) : Steps b (.wantTable i) (b.setPlace i call .wantsTable)
  | acquireCache {i : Nat} {call : Call C} (hcall : b.call i = some call)
    (hplace : call.place = .wantsCache) (hfree : b.cache = none) :
    Steps b (.acquire i) { b.setPlace i call .inCache with cache := some i }
  | acquireTable {i : Nat} {call : Call C} (hcall : b.call i = some call)
    (hplace : call.place = .wantsTable) (hfree : b.table = none) :
    Steps b (.acquire i) { b.setPlace i call (.inTable .entry) with table := some i }
  | insert {i : Nat} {call : Call C} {tty : Bool} (hcall : b.call i = some call)
    (hplace : call.place = .inTable .entry) (herrand : call.errand = .insert tty) :
    Steps b (.work i)
      { b.setPlace i call (.inTable .done) with
        entry := update b.entry call.container (some tty) }
  | remove {i : Nat} {call : Call C} {s : State} (hcall : b.call i = some call)
    (hplace : call.place = .inTable .entry) (herrand : call.errand = .remove)
    (hfan : Attach.step (b.fan call.container) .drop = some s) :
    Steps b (.work i)
      { (b.setPlace i call (.inTable .done)).setFan call.container s with
        entry := update b.entry call.container none }
  | attach {i : Nat} {call : Call C} {s : State} (hcall : b.call i = some call)
    (hplace : call.place = .inTable .entry) (herrand : call.errand = .attach)
    (hentry : b.entry call.container = some false)
    (hfan : Attach.step (b.fan call.container) (.attach i .clone) = some s) :
    Steps b (.work i)
      ((b.setPlace i call (.inTable (.sinks .stdout))).setFan call.container s)
  | noFanOut {i : Nat} {call : Call C} (hcall : b.call i = some call)
    (hplace : call.place = .inTable .entry) (herrand : call.errand = .attach) :
    Steps b (.work i) (b.setPlace i call (.inTable .done))
  | register {i capacity : Nat} {held : Bool} {call : Call C} {o : Output} {s : State}
    (hcall : b.call i = some call) (hplace : call.place = .inTable (.sinks o))
    (hfan : Attach.step (b.fan call.container) (.attach i (.register o capacity held)) = some s) :
    Steps b (.register i capacity held)
      ((b.setPlace i call (.inTable (if o = .stdout then .sinks .stderr else .done))).setFan
        call.container s)
  | fail {i : Nat} {call : Call C} {stage : Stage} {s : State} (hcall : b.call i = some call)
    (hplace : call.place = .inTable stage)
    (hfan : Attach.step (b.fan call.container) (.attach i .failed) = some s) :
    Steps b (.fail i) ((b.setPlace i call (.inTable .done)).setFan call.container s)
  | releaseCache {i : Nat} {call : Call C} (hcall : b.call i = some call)
    (hplace : call.place = .inCache) :
    Steps b (.release i) { b.setPlace i call .free with cache := none }
  | releaseTable {i : Nat} {call : Call C} (hcall : b.call i = some call)
    (hplace : call.place = .inTable .done) :
    Steps b (.release i)
      { (b.setPlace i call .free).setFan call.container
          { b.fan call.container with clones := (b.fan call.container).clones.erase i } with
        table := none }
  | spawn : Steps b .spawn { b with fan := fun c => (b.fan c).spawned }
  | fan {c : C} {l : Label} {s : State} (hl : l.outside = true)
    (hfan : Attach.step (b.fan c) l = some s) : Steps b (.fan c l) (b.setFan c s)

section

variable {b b' : Backend C}

/-- **Every step is one of these.** -/
theorem step_cases {m : Move C} (h : b.step m = some b') : Steps b m b' := by
  cases m with
  | call i c errand =>
    unfold step at h
    dsimp only at h
    split at h
    · rename_i hnone
      obtain rfl := Option.some.inj h
      exact .call (Option.isNone_iff_eq_none.mp hnone)
    · cases h
  | wantCache i =>
    unfold step at h
    dsimp only at h
    split at h
    · rename_i call hcall
      split at h
      · rename_i hplace
        obtain rfl := Option.some.inj h
        exact .wantCache hcall hplace
      · cases h
    · cases h
  | wantTable i =>
    unfold step at h
    dsimp only at h
    split at h
    · rename_i call hcall
      split at h
      · rename_i hplace
        obtain rfl := Option.some.inj h
        exact .wantTable hcall hplace
      · cases h
    · cases h
  | acquire i =>
    unfold step at h
    dsimp only at h
    split at h
    · rename_i call hcall
      split at h
      · rename_i hplace
        split at h
        · rename_i hfree
          obtain rfl := Option.some.inj h
          exact .acquireCache hcall hplace hfree
        · cases h
      · rename_i hplace
        split at h
        · rename_i hfree
          obtain rfl := Option.some.inj h
          exact .acquireTable hcall hplace hfree
        · cases h
      · cases h
    · cases h
  | work i =>
    unfold step at h
    dsimp only at h
    split at h
    · rename_i call hcall
      split at h
      · rename_i hplace
        unfold work at h
        split at h
        · rename_i tty herrand
          obtain rfl := Option.some.inj h
          exact .insert hcall hplace herrand
        · rename_i herrand
          obtain ⟨s, hfan, rfl⟩ := Option.map_eq_some_iff.mp h
          exact .remove hcall hplace herrand hfan
        · rename_i herrand
          split at h
          · rename_i hentry
            obtain ⟨s, hfan, rfl⟩ := Option.map_eq_some_iff.mp h
            exact .attach hcall hplace herrand hentry hfan
          · obtain rfl := Option.some.inj h
            exact .noFanOut hcall hplace herrand
      · cases h
    · cases h
  | register i capacity held =>
    unfold step at h
    dsimp only at h
    split at h
    · rename_i call hcall
      split at h
      · rename_i o hplace
        obtain ⟨s, hfan, rfl⟩ := Option.map_eq_some_iff.mp h
        exact .register hcall hplace hfan
      · cases h
    · cases h
  | fail i =>
    unfold step at h
    dsimp only at h
    split at h
    · rename_i call hcall
      split at h
      · cases h
      · rename_i stage _ hplace
        obtain ⟨s, hfan, rfl⟩ := Option.map_eq_some_iff.mp h
        exact .fail hcall hplace hfan
      · cases h
    · cases h
  | release i =>
    unfold step at h
    dsimp only at h
    split at h
    · rename_i call hcall
      split at h
      · rename_i hplace
        obtain rfl := Option.some.inj h
        exact .releaseCache hcall hplace
      · rename_i hplace
        obtain rfl := Option.some.inj h
        exact .releaseTable hcall hplace
      · cases h
    · cases h
  | spawn =>
    obtain rfl := Option.some.inj h
    exact .spawn
  | fan c l =>
    unfold step at h
    dsimp only at h
    split at h
    · rename_i hl
      obtain ⟨s, hfan, rfl⟩ := Option.map_eq_some_iff.mp h
      exact .fan hl hfan
    · cases h

/-! ## What is so in every state -/

/-- Only the call that has the lock of the io table is at work there, and when it waits for sinks it
waits for no attacher. -/
structure Free (b : Backend C) : Prop where
  fan : ∀ c, Inv (b.fan c)
  table : ∀ i call stage, b.call i = some call → call.place = .inTable stage → b.table = some i
  fits : ∀ i call o, b.call i = some call → call.place = .inTable (.sinks o) →
    (b.fan call.container).Fits o

omit [DecidableEq C] in
theorem Free.init {stdin stdout stderr : C → Nat} (hout : ∀ c, 0 < stdout c)
    (herr : ∀ c, 0 < stderr c) : (init stdin stdout stderr).Free where
  fan c := Inv.init (hout c) (herr c) (stdin c)
  table := nofun
  fits := nofun

omit [DecidableEq C] in
/-- A call goes to another place. -/
theorem Free.setPlace {i : Nat} {call : Call C} {place : Place} {fan : C → State}
    {entry : C → Option Bool} {table cache : Option Nat} (h : b.Free) (hfan : ∀ c, Inv (fan c))
    (htable : ∀ j, j ≠ i → b.table = some j → table = some j)
    (hplace : ∀ stage, place = .inTable stage → table = some i)
    (hfits : ∀ o, place = .inTable (.sinks o) → (fan call.container).Fits o)
    (hsame : ∀ j, j ≠ i → b.table = some j → ∀ c o, (b.fan c).Fits o → (fan c).Fits o) :
    Free ⟨fan, entry, update b.call i (some { call with place := place }), table, cache⟩ where
  fan := hfan
  table j call' stage hcall' hstage := by
    change update b.call i _ j = some call' at hcall'
    by_cases hj : j = i
    · subst hj
      rw [update_self] at hcall'
      obtain rfl := Option.some.inj hcall'
      exact hplace stage hstage
    · rw [update_of_ne hj] at hcall'
      exact htable j hj (h.table j call' stage hcall' hstage)
  fits j call' o hcall' hstage := by
    change update b.call i _ j = some call' at hcall'
    by_cases hj : j = i
    · subst hj
      rw [update_self] at hcall'
      obtain rfl := Option.some.inj hcall'
      exact hfits o hstage
    · rw [update_of_ne hj] at hcall'
      exact hsame j hj (h.table j call' _ hcall' hstage) _ _ (h.fits j call' o hcall' hstage)

theorem Free.step {m : Move C} (h : b.Free) (hclear : b.Clear m) (hstep : b.step m = some b') :
    b'.Free := by
  -- while a call has the lock, no other has it
  have honly {i : Nat} {call : Call C} {stage : Stage} (hcall : b.call i = some call)
      (hplace : call.place = .inTable stage) (j : Nat) (hj : j ≠ i) : b.table ≠ some j := fun ht =>
    hj (Option.some.inj (ht.symm.trans (h.table i call stage hcall hplace)))
  have hfan {c : C} {l : Label} {s : State} (hs : Attach.step (b.fan c) l = some s) (c' : C) :
      Inv (update b.fan c s c') := by
    by_cases hc : c' = c
    · subst hc
      rw [update_self]
      exact (h.fan c').step hs
    · rw [update_of_ne hc]
      exact h.fan c'
  cases step_cases hstep with
  | @call i c errand hcall =>
    have hold {j : Nat} {call' : Call C} {stage : Stage}
        (hcall' : update b.call i (some ⟨c, errand, .free⟩) j = some call')
        (hstage : call'.place = .inTable stage) : b.call j = some call' := by
      by_cases hj : j = i
      · subst hj
        rw [update_self] at hcall'
        obtain rfl := Option.some.inj hcall'
        cases hstage
      · rwa [update_of_ne hj] at hcall'
    exact ⟨h.fan, fun j call' stage hcall' hstage => h.table j call' stage (hold hcall' hstage) hstage,
      fun j call' o hcall' hstage => h.fits j call' o (hold hcall' hstage) hstage⟩
  | wantCache => exact h.setPlace h.fan (fun _ _ ht => ht) nofun nofun fun _ _ _ _ _ hf => hf
  | wantTable => exact h.setPlace h.fan (fun _ _ ht => ht) nofun nofun fun _ _ _ _ _ hf => hf
  | acquireCache => exact h.setPlace h.fan (fun _ _ ht => ht) nofun nofun fun _ _ _ _ _ hf => hf
  | acquireTable hcall hplace hfree =>
    refine h.setPlace h.fan (fun j _ ht => ?_) (fun _ _ => rfl) nofun fun _ _ _ _ _ hf => hf
    cases hfree.symm.trans ht
  | insert hcall hplace =>
    exact h.setPlace h.fan (fun _ _ ht => ht) (fun _ _ => h.table _ _ _ hcall hplace) nofun
      fun _ _ _ _ _ hf => hf
  | remove hcall hplace _ hs =>
    exact h.setPlace (hfan hs) (fun _ _ ht => ht) (fun _ _ => h.table _ _ _ hcall hplace) nofun
      fun j hj ht => absurd ht (honly hcall hplace j hj)
  | @attach i call s hcall hplace herrand hentry hs =>
    refine h.setPlace (hfan hs) (fun _ _ ht => ht) (fun _ _ => h.table _ _ _ hcall hplace)
      (fun o ho => ?_) fun j hj ht => absurd ht (honly hcall hplace j hj)
    obtain rfl : .stdout = o := Stage.sinks.inj (Place.inTable.inj ho)
    have hfits := hclear call hcall herrand hentry
    rw [update_self]
    cases Attach.step_cases hs with
    | clone => exact hfits
  | noFanOut hcall hplace =>
    exact h.setPlace h.fan (fun _ _ ht => ht) (fun _ _ => h.table _ _ _ hcall hplace) nofun
      fun _ _ _ _ _ hf => hf
  | @register i capacity held call o s hcall hplace hs =>
    refine h.setPlace (hfan hs) (fun _ _ ht => ht) (fun _ _ => h.table _ _ _ hcall hplace)
      (fun o' ho => ?_) fun j hj ht => absurd ht (honly hcall hplace j hj)
    split at ho
    · rename_i hout
      subst hout
      obtain rfl : .stderr = o' := Stage.sinks.inj (Place.inTable.inj ho)
      have hfits := hclear call hcall hplace
      rw [update_self]
      cases Attach.step_cases hs with
      | register => exact hfits
    · cases ho
  | fail hcall hplace hs =>
    exact h.setPlace (hfan hs) (fun _ _ ht => ht) (fun _ _ => h.table _ _ _ hcall hplace) nofun
      fun j hj ht => absurd ht (honly hcall hplace j hj)
  | releaseCache hcall hplace =>
    exact h.setPlace h.fan (fun _ _ ht => ht) nofun nofun fun _ _ _ _ _ hf => hf
  | @releaseTable i call hcall hplace =>
    have hno (j : Nat) (hj : j ≠ i) : b.table ≠ some j := honly hcall hplace j hj
    refine h.setPlace (fun c => ?_) (fun j hj ht => absurd ht (hno j hj)) nofun nofun
      fun j hj ht => absurd ht (hno j hj)
    show Inv (update b.fan call.container _ c)
    by_cases hc : c = call.container
    · subst hc
      rw [update_self]
      have hfan := h.fan call.container
      exact ⟨hfan.sound, hfan.capacity, hfan.lane,
        fun o => (hfan.logged o).congr ⟨rfl, rfl, rfl, rfl⟩⟩
    · rw [update_of_ne hc]
      exact h.fan c
  | spawn =>
    exact ⟨fun c => (h.fan c).step (l := .spawn) rfl, h.table, fun j call' o hcall' hstage =>
      (h.fan _).fits_spawned (h.fits j call' o hcall' hstage)⟩
  | @fan c l s hl hs =>
    refine ⟨hfan hs, h.table, fun j call' o hcall' hstage => ?_⟩
    change b.call j = some call' at hcall'
    have hfits := h.fits j call' o hcall' hstage
    show (update b.fan c s call'.container).Fits o
    by_cases hc : call'.container = c
    · subst hc
      rw [update_self]
      refine (h.fan _).fits_outside hfits (fun hlock => ?_) hl hs
      subst hlock
      refine hclear ?_
      unfold awaits
      rw [h.table j call' _ hcall' hstage, Option.any_some, hcall', Option.any_some]
      exact decide_eq_true ⟨rfl, hstage⟩
    · rw [update_of_ne hc]
      exact hfits

/-! ## Isolation -/

/-- What can be waited for from container `B`: no pipe of another container. -/
def Within (b : Backend C) (B : C) : Node C → Prop
  | .sinks c o => c = B ∨ (b.fan c).Fits o
  | .tee c o => c = B ∨ (b.fan c).Fits o
  | .pipe c _ _ => c = B
  | _ => True

omit [DecidableEq C] in
theorem Free.within {B : C} {n n' : Node C} (h : b.Free) (hn : b.Within B n) (hw : b.Waits n n') :
    b.Within B n' := by
  cases hw with
  | wantsSinks hcall hplace => exact .inr (h.fits _ _ _ hcall hplace)
  | locking => exact hn
  | @writing c o k hfull =>
    rcases hn with hc | hfits
    · exact hc
    · exact absurd hfull ((h.fan c).not_full hfits k)
  | broadcasting => exact hn
  | _ => exact True.intro

/-- **Containers are isolated.** While no call of `open_attach` goes for sinks that only an attacher
can get released, nothing on a container waits, however indirectly, for an attacher of another. -/
theorem isolated {stdin stdout stderr : C → Nat} (hout : ∀ c, 0 < stdout c)
    (herr : ∀ c, 0 < stderr c) {ms : List (Move C)} {b : Backend C}
    (hclear : Along step Clear (init stdin stdout stderr) ms)
    (hrun : run step (init stdin stdout stderr) ms = some b) {A B : C} (hne : A ≠ B) {n : Node C}
    (hn : b.about B n) (o : Output) (k : Nat) : ¬ Relation.TransGen b.Waits n (.pipe A o k) := by
  have h : b.Free := invariant_run (fun _ _ _ hb hP hstep => Free.step hb hP hstep)
    (Free.init hout herr) hclear hrun
  have hstart : b.Within B n := by
    cases n with
    | call => exact True.intro
    | tee => exact .inl hn
    | _ => cases hn
  have hend {n' : Node C} (hpath : Relation.TransGen b.Waits n n') : b.Within B n' := by
    induction hpath with
    | single hw => exact h.within hstart hw
    | tail _ hw ih => exact h.within ih hw
  exact fun hpath => hne (hend hpath)

/-- An attacher of container 0 is being written to, and its pipe is full; a start of container 1
wants the io table. -/
def fullRun : List (Move Nat) :=
  [.call 0 0 (.insert false), .wantTable 0, .acquire 0, .work 0, .release 0,
    .call 1 0 .attach, .wantTable 1, .acquire 1, .work 1, .register 1 1 false,
    .register 1 1 false, .release 1,
    .fan 0 (.process (.write .stdout [97, 98])), .fan 0 (.process (.put 2)),
    .fan 0 (.tee .stdout (.read 2)), .fan 0 (.tee .stdout .lock), .fan 0 (.tee .stdout (.put 1)),
    .call 3 1 (.insert false), .wantTable 3]

/-- A second attacher comes to container 0. -/
def blockedRun : List (Move Nat) :=
  fullRun ++ [Move.call 2 0 .attach, .wantTable 2, .acquire 2, .work 2]

theorem isolated_full : ∃ b, run step (init (fun _ : Nat => 2) (fun _ => 2) (fun _ => 2)) fullRun =
    some b ∧ (∃ call, b.call 3 = some call ∧ call.container = 1) ∧
      ¬ Relation.TransGen b.Waits (.call 3) (.pipe 0 .stdout 1) := by
  have hrun : (run step (init (fun _ : Nat => 2) (fun _ => 2) (fun _ => 2)) fullRun).any fun b =>
      (b.call 3).any fun call => call.container = 1 := by decide
  obtain ⟨b, hb, hend⟩ := (Option.any_eq_true _ _).mp hrun
  obtain ⟨call, hcall, hcontainer⟩ := (Option.any_eq_true _ _).mp hend
  have hcontainer := of_decide_eq_true hcontainer
  exact ⟨b, hb, ⟨call, hcall, hcontainer⟩,
    isolated (n := .call 3) (fun _ => by decide) (fun _ => by decide) (by decide) hb Nat.zero_ne_one
      ⟨call, hcall, hcontainer⟩ .stdout 1⟩

/-- **The start of a container waits for an attacher of another.** -/
theorem start_waits_for_attacher : ∃ b,
    run step (init (fun _ : Nat => 2) (fun _ => 2) (fun _ => 2)) blockedRun = some b ∧
      (∃ call, b.call 3 = some call ∧ call.container = 1) ∧
        Relation.TransGen b.Waits (.call 3) (.pipe 0 .stdout 1) := by
  have hrun : (run step (init (fun _ : Nat => 2) (fun _ => 2) (fun _ => 2)) blockedRun).any fun b =>
      b.call 3 = some ⟨1, .insert false, .wantsTable⟩ ∧ b.table = some 2 ∧
        b.call 2 = some ⟨0, .attach, .inTable (.sinks .stdout)⟩ ∧
        (b.fan 0).tee .stdout = .broadcasting [97, 98] [] [98] [1] ∧
        ((b.fan 0).tap .stdout 1).any fun t => t.hasReader = true ∧ t.buf.length = t.capacity := by
    decide
  obtain ⟨b, hb, hend⟩ := (Option.any_eq_true _ _).mp hrun
  obtain ⟨hstart, htable, hattach, htee, htap⟩ := of_decide_eq_true hend
  obtain ⟨t, ht, hfull⟩ := (Option.any_eq_true _ _).mp htap
  obtain ⟨hopen, hfull⟩ := of_decide_eq_true hfull
  refine ⟨b, hb, ⟨_, hstart, rfl⟩, ?_⟩
  have hlocks : ((b.fan 0).tee .stdout).locks = true := by
    rw [htee]
    rfl
  exact .head (.wantsTable hstart rfl) <| .head (.inTable htable) <|
    .head (.wantsSinks hattach rfl) <| .head (.broadcasting hlocks) <|
      .single (.writing ⟨_, _, _, _, t, htee, ht, hopen, hfull⟩)

end

end Backend

end LightrCri.Attach

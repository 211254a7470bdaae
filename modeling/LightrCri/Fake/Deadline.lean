import LightrCri.Attach.Timestamp
import LightrCri.Fake.Records
import Mathlib.Algebra.Group.Int.Defs

/-!
# Deadlines

`stop_container` and `exec_sync` add the number of seconds of a request to the clock, after the
signal has been sent or the command spawned. `Instant + Duration` panics when the seconds of the sum
do not fit into 64 bits, so the calls are total exactly for the numbers that leave room
(`Overflows`).
-/

namespace LightrCri.Fake

open Backend LightrCri.Attach

/-- `Instant` on Linux: a `timespec` of the monotonic clock. -/
structure Instant where
  sec : Int64
  nsec : Nat
  nsec_lt : nsec < 10 ^ 9
  deriving DecidableEq, Repr

/-- `Duration::from_secs`. -/
def fromSecs (secs : UInt64) : Duration := ⟨secs.toNat, 0, secs.toNat_lt, by decide⟩

/-- `Instant::checked_add`. -/
def Instant.checkedAdd (t : Instant) (d : Duration) : Option Instant :=
  let secs := t.sec.toInt + d.secs
  if secs < 2 ^ 63 then
    if h : t.nsec + d.nanos < 10 ^ 9 then some ⟨Int64.ofInt secs, t.nsec + d.nanos, h⟩
    else if secs + 1 < 2 ^ 63 then
      some ⟨Int64.ofInt (secs + 1), t.nsec + d.nanos - 10 ^ 9,
        by have := t.nsec_lt; have := d.nanos_lt; omega⟩
    else none
  else none

def Instant.le (t u : Instant) : Bool := t.sec < u.sec ∨ t.sec = u.sec ∧ t.nsec ≤ u.nsec

/-- What becomes of a call, as far as it is followed. -/
inductive Ending (α : Type)
  | returned (a : α)
  | waiting
  /-- The message of the panic. -/
  | panicked (message : String)
  deriving DecidableEq, Repr

/-- `Instant + Duration`, and what is done with the sum. -/
def Instant.add {α : Type} (t : Instant) (d : Duration) (next : Instant → Ending α) : Ending α :=
  match t.checkedAdd d with
  | none => .panicked "overflow when adding duration to instant"
  | some sum => next sum

/-! ## The calls -/

/-- A round of the loop of `wait_until_exited`: whether the record has left Running or is gone, and
the time. -/
structure Poll where
  left : Bool
  now : Instant

def pollUntil (deadline : Instant) : List Poll → Ending Bool
  | [] => .waiting
  | p :: polls =>
    if p.left then .returned true
    else if deadline.le p.now then .returned false
    else pollUntil deadline polls

/-- `wait_until_exited`, called at the time `now`. -/
def waitUntilExited (now : Instant) (timeout : Duration) (polls : List Poll) : Ending Bool :=
  now.add timeout fun deadline => pollUntil deadline polls

/-- What a stop meets: the times at which it waits, after SIGTERM and after SIGKILL, and the rounds
of the waits. -/
structure StopClock where
  term : Instant
  termPolls : List Poll
  kill : Instant
  killPolls : List Poll

/-- SIGKILL, and the wait after it. -/
def killAndWait (clock : StopClock) (sent : List Nat) : List Nat × Ending Unit :=
  (sent ++ [9], match waitUntilExited clock.kill (fromSecs 5) clock.killPolls with
    | .returned _ => .returned ()
    | .waiting => .waiting
    | .panicked m => .panicked m)

/-- SIGTERM, and SIGKILL after the grace period. -/
def termAndWait (graceSeconds : Int64) (clock : StopClock) : List Nat × Ending Unit :=
  match waitUntilExited clock.term (fromSecs graceSeconds.toUInt64) clock.termPolls with
  | .returned true => ([15], .returned ())
  | .returned false => killAndWait clock [15]
  | .waiting => ([15], .waiting)
  | .panicked m => ([15], .panicked m)

/-- `stop_container` of a container with the record: the signals it sends, and what becomes of it.
-/
def stopContainer (rec : Option ContainerRecord) (graceSeconds : Int64) (clock : StopClock) :
    List Nat × Ending Unit :=
  match rec with
  | none => ([], .returned ())
  | some r =>
    if r.state ≠ .running then ([], .returned ())
    else if 0 < r.pid then
      if 0 < graceSeconds then termAndWait graceSeconds clock else killAndWait clock []
    -- the record is written
    else ([], .returned ())

/-- `exec_sync` from the spawn of its command on, up to the deadline. Without a timeout there is
none. -/
def execDeadline (timeoutSeconds : Int64) (now : Instant) (spawn : Except String Nat) :
    Ending (Except BackendError (Option Instant)) :=
  match spawn with
  | .error e => .returned (.error (.internal ("exec_sync spawn: " ++ e)))
  | .ok _ =>
    if 0 < timeoutSeconds then
      now.add (fromSecs timeoutSeconds.toUInt64) fun deadline => .returned (.ok (some deadline))
    else .returned (.ok none)

/-! ## When the sum does not fit -/

/-- The seconds do not leave room in the clock. -/
def Overflows (now : Instant) (secs : Int) : Prop := 2 ^ 63 ≤ now.sec.toInt + secs

instance (now : Instant) (secs : Int) : Decidable (Overflows now secs) := Int.decLe _ _

/-- The call panics. -/
def Ending.Panics {α : Type} (e : Ending α) : Prop := ∃ m, e = .panicked m

section

variable {α : Type} {now : Instant}

theorem checkedAdd_fromSecs {secs : UInt64} :
    now.checkedAdd (fromSecs secs) = none ↔ Overflows now secs.toNat := by
  have hnsec : now.nsec + (fromSecs secs).nanos < 10 ^ 9 := now.nsec_lt
  unfold Instant.checkedAdd Overflows
  show (if now.sec.toInt + secs.toNat < 2 ^ 63 then _ else none) = none ↔ _
  rw [dif_pos hnsec]
  by_cases hfits : now.sec.toInt + secs.toNat < 2 ^ 63
  · rw [if_pos hfits]
    exact iff_of_false (by simp) (Int.not_le.mpr hfits)
  · rw [if_neg hfits]
    exact iff_of_true rfl (Int.not_lt.mp hfits)

/-- A deadline is computed, unless the clock overflows. -/
theorem panics_add {secs : UInt64} {next : Instant → Ending α}
    (hnext : ∀ deadline, ¬ (next deadline).Panics) :
    (now.add (fromSecs secs) next).Panics ↔ Overflows now secs.toNat := by
  rw [← checkedAdd_fromSecs]
  unfold Instant.add
  cases now.checkedAdd (fromSecs secs) with
  | none => exact iff_of_true ⟨_, rfl⟩ rfl
  | some sum => exact iff_of_false (hnext sum) (by simp)

theorem not_panics_returned {a : α} : ¬ (Ending.returned a).Panics := fun ⟨_, h⟩ => by cases h

theorem not_panics_pollUntil (deadline : Instant) (polls : List Poll) :
    ¬ (pollUntil deadline polls).Panics := by
  induction polls with
  | nil => exact fun ⟨_, h⟩ => by cases h
  | cons p polls ih =>
    unfold pollUntil
    split
    · exact not_panics_returned
    · split
      · exact not_panics_returned
      · exact ih

theorem panics_waitUntilExited {secs : UInt64} {polls : List Poll} :
    (waitUntilExited now (fromSecs secs) polls).Panics ↔ Overflows now secs.toNat :=
  panics_add fun deadline => not_panics_pollUntil deadline polls

theorem panics_killAndWait (clock : StopClock) (sent : List Nat) :
    (killAndWait clock sent).2.Panics ↔ Overflows clock.kill 5 := by
  have hwait : (waitUntilExited clock.kill (fromSecs 5) clock.killPolls).Panics ↔
      Overflows clock.kill 5 := panics_waitUntilExited
  rw [← hwait]
  unfold killAndWait
  cases waitUntilExited clock.kill (fromSecs 5) clock.killPolls with
  | returned a => exact iff_of_false not_panics_returned not_panics_returned
  | waiting => exact iff_of_false (fun ⟨_, h⟩ => by cases h) (fun ⟨_, h⟩ => by cases h)
  | panicked m => exact iff_of_true ⟨m, rfl⟩ ⟨m, rfl⟩

/-- A positive number of seconds stays as it is in the cast. -/
theorem toNat_toUInt64 {secs : Int64} (h : 0 < secs) : (secs.toUInt64.toNat : Int) = secs.toInt := by
  have hle : 0 ≤ secs := Int64.le_of_lt h
  rw [Int64.toNat_toUInt64_of_le hle, Int64.cast_toNatClampNeg _ hle]

theorem pollUntil_false {deadline : Instant} {polls : List Poll} :
    pollUntil deadline polls = .returned false ↔ ∃ before p after, polls = before ++ p :: after ∧
      (∀ q ∈ before, q.left = false ∧ deadline.le q.now = false) ∧ p.left = false ∧
      deadline.le p.now = true := by
  induction polls with
  | nil => simp [pollUntil]
  | cons p polls ih =>
    rw [pollUntil]
    constructor
    · intro h
      cases hleft : p.left with
      | true => simp [hleft] at h
      | false =>
        cases hdue : deadline.le p.now with
        | true => exact ⟨[], p, polls, rfl, by simp, hleft, hdue⟩
        | false =>
          simp only [hleft, hdue, Bool.false_eq_true, if_false] at h
          obtain ⟨before, q, after, rfl, hall, hq⟩ := ih.mp h
          exact ⟨p :: before, q, after, rfl, List.forall_mem_cons.mpr ⟨⟨hleft, hdue⟩, hall⟩, hq⟩
    · rintro ⟨before, q, after, hpolls, hall, hleft, hdue⟩
      cases before with
      | nil =>
        obtain ⟨rfl, rfl⟩ := List.cons.inj hpolls
        rw [hleft, hdue]
        rfl
      | cons r before =>
        obtain ⟨rfl, rfl⟩ := List.cons.inj hpolls
        obtain ⟨⟨hleft', hdue'⟩, hall⟩ := List.forall_mem_cons.mp hall
        rw [hleft', hdue']
        exact ih.mpr ⟨before, q, after, rfl, hall, hleft, hdue⟩

end

/-! ## When the calls are total -/

/-- The container is still Running in every round up to one after the grace period. -/
def Survives (graceSeconds : Int64) (clock : StopClock) : Prop :=
  ∃ deadline, clock.term.checkedAdd (fromSecs graceSeconds.toUInt64) = some deadline ∧
    ∃ before p after, clock.termPolls = before ++ p :: after ∧
      (∀ q ∈ before, q.left = false ∧ deadline.le q.now = false) ∧ p.left = false ∧
      deadline.le p.now = true

/-- A stop leaves room in the clock: for the grace period, and for the five seconds after SIGKILL.
-/
def StopFits (rec : Option ContainerRecord) (graceSeconds : Int64) (clock : StopClock) : Prop :=
  ∀ r, rec = some r → r.state = .running → 0 < r.pid →
    (0 < graceSeconds → ¬ Overflows clock.term graceSeconds.toInt) ∧
      (graceSeconds ≤ 0 ∨ Survives graceSeconds clock → ¬ Overflows clock.kill 5)

/-- A stop with a grace period. -/
theorem panics_termAndWait {graceSeconds : Int64} (hgrace : 0 < graceSeconds) (clock : StopClock) :
    ¬ (termAndWait graceSeconds clock).2.Panics ↔
      (0 < graceSeconds → ¬ Overflows clock.term graceSeconds.toInt) ∧
        (graceSeconds ≤ 0 ∨ Survives graceSeconds clock → ¬ Overflows clock.kill 5) := by
  have hadd := @checkedAdd_fromSecs clock.term graceSeconds.toUInt64
  rw [toNat_toUInt64 hgrace] at hadd
  have hnle : ¬ graceSeconds ≤ 0 := Int64.not_le.mpr hgrace
  cases hsum : clock.term.checkedAdd (fromSecs graceSeconds.toUInt64) with
  | none =>
    have hover := hadd.mp hsum
    rw [termAndWait, waitUntilExited, Instant.add, hsum]
    exact iff_of_false (not_not_intro ⟨_, rfl⟩) fun h => h.1 hgrace hover
  | some deadline =>
    have hroom : ¬ Overflows clock.term graceSeconds.toInt := fun h => by
      rw [hadd.mpr h] at hsum
      cases hsum
    have hsurvives : Survives graceSeconds clock ↔
        pollUntil deadline clock.termPolls = .returned false := by
      rw [pollUntil_false, Survives]
      constructor
      · rintro ⟨deadline', hsum', h⟩
        obtain rfl := Option.some.inj (hsum.symm.trans hsum')
        exact h
      · exact fun h => ⟨deadline, hsum, h⟩
    rw [termAndWait, waitUntilExited, Instant.add, hsum]
    simp only [hroom, hnle, hsurvives, not_false_eq_true, implies_true, true_and, false_or]
    have hpoll := not_panics_pollUntil deadline clock.termPolls
    cases hp : pollUntil deadline clock.termPolls with
    | returned b =>
      cases b with
      | true => exact iff_of_true not_panics_returned fun h => by cases h
      | false => simp [panics_killAndWait]
    | waiting => exact iff_of_true (fun ⟨_, h⟩ => by cases h) fun h => by cases h
    | panicked m => exact absurd ⟨m, hp⟩ hpoll

theorem panics_stopContainer (rec : Option ContainerRecord) (graceSeconds : Int64)
    (clock : StopClock) :
    ¬ (stopContainer rec graceSeconds clock).2.Panics ↔ StopFits rec graceSeconds clock := by
  cases rec with
  | none => exact iff_of_true not_panics_returned fun r hr => by cases hr
  | some r =>
    by_cases hstate : r.state = .running
    · by_cases hpid : 0 < r.pid
      · have hfits : StopFits (some r) graceSeconds clock ↔
            (0 < graceSeconds → ¬ Overflows clock.term graceSeconds.toInt) ∧
              (graceSeconds ≤ 0 ∨ Survives graceSeconds clock → ¬ Overflows clock.kill 5) :=
          ⟨fun h => h r rfl hstate hpid, fun h r' hr' _ _ => h⟩
        rw [hfits, stopContainer, if_neg (not_not_intro hstate), if_pos hpid]
        by_cases hgrace : 0 < graceSeconds
        · rw [if_pos hgrace]
          exact panics_termAndWait hgrace clock
        · rw [if_neg hgrace, panics_killAndWait]
          have hle : graceSeconds ≤ 0 := Int64.not_lt.mp hgrace
          exact ⟨fun h => ⟨fun hpos => absurd hpos hgrace, fun _ => h⟩, fun h => h.2 (.inl hle)⟩
      · rw [stopContainer, if_neg (not_not_intro hstate), if_neg hpid]
        exact iff_of_true not_panics_returned fun r' hr' _ hpos => by
          obtain rfl := Option.some.inj hr'
          exact absurd hpos hpid
    · rw [stopContainer, if_pos hstate]
      exact iff_of_true not_panics_returned fun r' hr' hrun => by
        obtain rfl := Option.some.inj hr'
        exact absurd hrun hstate

theorem panics_execDeadline (timeoutSeconds : Int64) (now : Instant) (spawn : Except String Nat) :
    ¬ (execDeadline timeoutSeconds now spawn).Panics ↔
      ((∃ pid, spawn = .ok pid) → 0 < timeoutSeconds → ¬ Overflows now timeoutSeconds.toInt) := by
  cases spawn with
  | error e => exact iff_of_true not_panics_returned fun ⟨pid, h⟩ => by cases h
  | ok pid =>
    by_cases hpos : 0 < timeoutSeconds
    · have hadd := @panics_add _ now timeoutSeconds.toUInt64
        (fun deadline => .returned (.ok (some deadline) : Except BackendError (Option Instant)))
        fun _ => not_panics_returned
      rw [toNat_toUInt64 hpos] at hadd
      rw [execDeadline, if_pos hpos, hadd]
      exact ⟨fun h _ _ => h, fun h => h ⟨pid, rfl⟩ hpos⟩
    · rw [execDeadline, if_neg hpos]
      exact iff_of_true not_panics_returned fun _ h => absurd h hpos

/-- **Deadlines are total** exactly where the clock has room for the seconds: in a wait, in a stop
and in the execution of a command. -/
theorem deadline_total (now : Instant) (secs : UInt64) (polls : List Poll)
    (rec : Option ContainerRecord) (graceSeconds : Int64) (clock : StopClock)
    (timeoutSeconds : Int64) (spawn : Except String Nat) :
    (¬ (waitUntilExited now (fromSecs secs) polls).Panics ↔ ¬ Overflows now secs.toNat) ∧
    (¬ (stopContainer rec graceSeconds clock).2.Panics ↔ StopFits rec graceSeconds clock) ∧
    (¬ (execDeadline timeoutSeconds now spawn).Panics ↔
      ((∃ pid, spawn = .ok pid) → 0 < timeoutSeconds → ¬ Overflows now timeoutSeconds.toInt)) :=
  ⟨not_congr panics_waitUntilExited, panics_stopContainer rec graceSeconds clock,
    panics_execDeadline timeoutSeconds now spawn⟩

/-- The clock a second after the start. -/
def oneSecond : Instant := ⟨1, 0, by decide⟩

def runningRecord : ContainerRecord where
  id := ⟨"ct-0-1"⟩
  sandbox := ⟨"sb-0-0"⟩
  config := { name := "main", imageRef := "img" }
  state := .running
  createdAtNanos := 0
  startedAtNanos := 0
  finishedAtNanos := 0
  exitCode := 0
  reason := ""
  message := ""
  pid := 100

/-- **A stop that panics** after SIGTERM: the largest grace period does not leave room in the clock.
-/
theorem deadline_overflow :
    ¬ ((∀ (rec : Option ContainerRecord) (graceSeconds : Int64) (clock : StopClock),
        ¬ (stopContainer rec graceSeconds clock).2.Panics) ∧
      ∀ (timeoutSeconds : Int64) (now : Instant) (spawn : Except String Nat),
        ¬ (execDeadline timeoutSeconds now spawn).Panics) := by
  rintro ⟨hstop, -⟩
  exact hstop (some runningRecord) Int64.maxValue ⟨oneSecond, [], oneSecond, []⟩ ⟨_, rfl⟩

end LightrCri.Fake

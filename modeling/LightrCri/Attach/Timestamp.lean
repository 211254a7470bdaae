import LightrCri.Foundations.Lines
import Mathlib.Algebra.Group.Nat.Defs
import Mathlib.Data.List.Basic

/-!
# Timestamps of the log

`cri_log_line` writes the reading of the clock in RFC 3339 form with nanoseconds (`timestamp`), from
the days since the epoch by `epochToYmdHms`. `parseTimestamp` reads such a form, with a year of four
digits or more; `parseRfc3339Nano` demands a year of four digits and a day that its month has.

* `parseTimestamp_timestamp`: what is written is read back, whatever the clock.
* `parseRfc3339Nano_timestamp`: up to the year 9999 it has the RFC 3339 form.
-/

namespace LightrCri.Attach

open Foundations

/-! ## The calendar -/

/-- The time since the epoch, `Duration::default` before it. -/
structure Duration where
  secs : Nat
  nanos : Nat
  secs_lt : secs < 2 ^ 64
  nanos_lt : nanos < 10 ^ 9

structure Civil where
  year : Nat
  month : Nat
  day : Nat
  hour : Nat
  minute : Nat
  second : Nat
  deriving DecidableEq, Repr

/-- `epoch_to_ymd_hms`. Only the year can be cut off by `as u32`. -/
def epochToYmdHms (secs : Nat) : Civil :=
  let days := secs / 86400
  let z := days + 719468
  let era := z / 146097
  let doe := z % 146097
  let yoe := (doe - doe / 1460 + doe / 36524 - doe / 146096) / 365
  let y := yoe + era * 400
  let doy := doe - (365 * yoe + yoe / 4 - yoe / 100)
  let mp := (5 * doy + 2) / 153
  let d := doy - (153 * mp + 2) / 5 + 1
  let mo := if mp < 10 then mp + 3 else mp - 9
  let y := if mo ≤ 2 then y + 1 else y
  { year := y % 2 ^ 32
    month := mo
    day := d
    hour := secs / 3600 % 24
    minute := secs / 60 % 60
    second := secs % 60 }

/-- The year of the era, that starts in March, of a day of the era. -/
def yearOfEra (doe : Nat) : Nat := (doe - doe / 1460 + doe / 36524 - doe / 146096) / 365

/-- The day of the era that a year of it starts with. -/
def startOfYear (yoe : Nat) : Nat := 365 * yoe + yoe / 4 - yoe / 100

theorem yearOfEra_mono {a b : Nat} (h : a ≤ b) (hb : b < 146097) : yearOfEra a ≤ yearOfEra b := by
  unfold yearOfEra
  apply Nat.div_le_div_right
  omega

theorem yearOfEra_startOfYear {yoe : Nat} (h : yoe < 400) :
    yoe ≤ yearOfEra (startOfYear yoe) ∧ yearOfEra (startOfYear (yoe + 1) - 1) ≤ yoe := by
  have hall : ∀ y < 400, y ≤ yearOfEra (startOfYear y) ∧
      yearOfEra (startOfYear (y + 1) - 1) ≤ y := by decide +kernel
  exact hall yoe h

/-- The year that a day lies in. -/
theorem startOfYear_le {doe : Nat} (h : doe < 146097) :
    yearOfEra doe < 400 ∧ startOfYear (yearOfEra doe) ≤ doe ∧
      (doe < startOfYear (yearOfEra doe + 1) ∨ doe = 146096) := by
  have hlt : yearOfEra doe < 400 := by
    unfold yearOfEra
    omega
  refine ⟨hlt, ?_, ?_⟩
  · by_contra hstart
    obtain ⟨y, hy⟩ := Nat.exists_eq_add_one_of_ne_zero (n := yearOfEra doe) fun hzero => by
      rw [hzero] at hstart
      exact hstart (Nat.zero_le _)
    have hle : yearOfEra doe ≤ yearOfEra (startOfYear (y + 1) - 1) := by
      rw [hy] at hstart
      refine yearOfEra_mono (by omega) ?_
      unfold startOfYear
      omega
    have := (yearOfEra_startOfYear (show y < 400 by omega)).2
    omega
  · by_contra hend
    obtain ⟨hnext, hlast⟩ := not_or.mp hend
    rcases Nat.lt_or_ge (yearOfEra doe + 1) 400 with hlt' | hge
    · have := (yearOfEra_startOfYear hlt').1
      have := yearOfEra_mono (Nat.le_of_not_lt hnext) h
      omega
    · have hyear : yearOfEra doe + 1 = 400 := by omega
      rw [hyear] at hnext
      have hstart : startOfYear 400 = 146096 := rfl
      omega

def isLeap (year : Nat) : Bool := year % 4 = 0 ∧ (year % 100 ≠ 0 ∨ year % 400 = 0)

def daysInMonth (year month : Nat) : Nat :=
  if month = 2 then if isLeap year then 29 else 28
  else if month = 4 ∨ month = 6 ∨ month = 9 ∨ month = 11 then 30 else 31

/-- The month of a day of the year. -/
def monthOf (doy : Nat) : Nat :=
  if (5 * doy + 2) / 153 < 10 then (5 * doy + 2) / 153 + 3 else (5 * doy + 2) / 153 - 9

/-- The day of the month of a day of the year. -/
def dayOf (doy : Nat) : Nat := doy - (153 * ((5 * doy + 2) / 153) + 2) / 5 + 1

theorem monthOf_dayOf {doy : Nat} (h : doy < 366) :
    1 ≤ monthOf doy ∧ monthOf doy ≤ 12 ∧ 1 ≤ dayOf doy ∧
      (dayOf doy ≤ daysInMonth 1 (monthOf doy) ∨ doy = 365 ∧ monthOf doy = 2 ∧ dayOf doy = 29) ∧
      (monthOf doy ≤ 2 → 306 ≤ doy) := by
  have hall : ∀ doy < 366, 1 ≤ monthOf doy ∧ monthOf doy ≤ 12 ∧ 1 ≤ dayOf doy ∧
      (dayOf doy ≤ daysInMonth 1 (monthOf doy) ∨ doy = 365 ∧ monthOf doy = 2 ∧ dayOf doy = 29) ∧
      (monthOf doy ≤ 2 → 306 ≤ doy) := by decide +kernel
  exact hall doy h

/-- The fields of a civil time are in range. -/
structure Civil.InRange (c : Civil) : Prop where
  month_pos : 1 ≤ c.month
  month : c.month ≤ 12
  day_pos : 1 ≤ c.day
  day : c.day ≤ 31
  hour : c.hour < 24
  minute : c.minute < 60
  second : c.second < 60

theorem startOfYear_succ {yoe : Nat} (h : yoe < 400) :
    startOfYear (yoe + 1) ≤ startOfYear yoe + 365 + if isLeap (yoe + 1) then 1 else 0 := by
  have hall : ∀ y < 400,
      startOfYear (y + 1) ≤ startOfYear y + 365 + if isLeap (y + 1) then 1 else 0 := by
    decide +kernel
  exact hall yoe h

theorem isLeap_add (y era : Nat) : isLeap (y + era * 400) = isLeap y := by
  unfold isLeap
  congr 1
  apply propext
  omega

theorem daysInMonth_le (year month : Nat) :
    daysInMonth 1 month ≤ daysInMonth year month ∧ daysInMonth year month ≤ 31 := by
  unfold daysInMonth
  repeat' split
  all_goals first | omega | contradiction

/-- The day of the year, and that the year of a leap day is a leap year. -/
theorem dayOfYear {doe : Nat} (h : doe < 146097) :
    doe - startOfYear (yearOfEra doe) < 366 ∧
      (doe - startOfYear (yearOfEra doe) = 365 → isLeap (yearOfEra doe + 1) = true) := by
  obtain ⟨hlt, hle, hend⟩ := startOfYear_le h
  have hsucc := startOfYear_succ hlt
  rcases hend with hend | rfl
  · refine ⟨by split at hsucc <;> omega, fun hlast => ?_⟩
    by_contra hleap
    rw [if_neg hleap] at hsucc
    omega
  · exact ⟨by decide +kernel, fun _ => by decide +kernel⟩

/-- The day of the era of an instant, and its day of the year that starts in March. -/
def dayOfEra (secs : Nat) : Nat := (secs / 86400 + 719468) % 146097

def dayOfMarchYear (secs : Nat) : Nat :=
  dayOfEra secs - startOfYear (yearOfEra (dayOfEra secs))

/-- The number of the year that starts in March. -/
def marchYear (secs : Nat) : Nat :=
  yearOfEra (dayOfEra secs) + (secs / 86400 + 719468) / 146097 * 400

/-- The year of an instant, before `as u32`. -/
def civilYear (secs : Nat) : Nat :=
  if monthOf (dayOfMarchYear secs) ≤ 2 then marchYear secs + 1 else marchYear secs

theorem epochToYmdHms_eq (secs : Nat) :
    epochToYmdHms secs =
      { year := civilYear secs % 2 ^ 32
        month := monthOf (dayOfMarchYear secs)
        day := dayOf (dayOfMarchYear secs)
        hour := secs / 3600 % 24
        minute := secs / 60 % 60
        second := secs % 60 } := rfl

theorem dayOfEra_lt (secs : Nat) : dayOfEra secs < 146097 := Nat.mod_lt _ (by omega)

/-- The day is one of the month, in the year that is not cut off. -/
theorem dayOf_le_daysInMonth (secs : Nat) :
    dayOf (dayOfMarchYear secs) ≤
      daysInMonth (civilYear secs) (monthOf (dayOfMarchYear secs)) := by
  obtain ⟨hdoy, hleap⟩ := dayOfYear (dayOfEra_lt secs)
  obtain ⟨-, -, -, hd, -⟩ := monthOf_dayOf hdoy
  have hcommon := (daysInMonth_le (civilYear secs) (monthOf (dayOfMarchYear secs))).1
  rcases hd with hd | ⟨hlast, hfeb, h29⟩
  · exact Nat.le_trans hd hcommon
  · have hfeb : monthOf (dayOfMarchYear secs) = 2 := hfeb
    have hleap' : isLeap (civilYear secs) = true := by
      rw [civilYear, if_pos (Nat.le_of_eq hfeb), marchYear, Nat.add_right_comm, isLeap_add]
      exact hleap hlast
    rw [hfeb, daysInMonth, if_pos rfl, if_pos hleap']
    exact Nat.le_of_eq h29

theorem civilYear_le {secs : Nat} (h : secs < 253402300800) : civilYear secs ≤ 9999 := by
  obtain ⟨hlt, hstart, -⟩ := startOfYear_le (dayOfEra_lt secs)
  obtain ⟨-, -, -, -, hwinter⟩ := monthOf_dayOf (dayOfYear (dayOfEra_lt secs)).1
  have hlast : yearOfEra (dayOfEra secs) = 399 → 145731 ≤ startOfYear (yearOfEra (dayOfEra secs)) :=
    fun h => by rw [h]; decide
  unfold civilYear marchYear dayOfMarchYear
  have hsplit : secs / 86400 + 719468 =
      146097 * ((secs / 86400 + 719468) / 146097) + dayOfEra secs := (Nat.div_add_mod _ _).symm
  split <;> omega

/-- **The fields are in range**, and up to the year 9999 they are a day of the calendar. -/
theorem inRange_epochToYmdHms (secs : Nat) :
    (epochToYmdHms secs).InRange ∧
      (secs < 253402300800 → (epochToYmdHms secs).year ≤ 9999 ∧
        (epochToYmdHms secs).day ≤
          daysInMonth (epochToYmdHms secs).year (epochToYmdHms secs).month) := by
  obtain ⟨hmo, hmo', hd, -, -⟩ := monthOf_dayOf (dayOfYear (dayOfEra_lt secs)).1
  have hday := dayOf_le_daysInMonth secs
  have hmax := (daysInMonth_le (civilYear secs) (monthOf (dayOfMarchYear secs))).2
  rw [epochToYmdHms_eq]
  refine ⟨⟨hmo, hmo', hd, Nat.le_trans hday hmax, Nat.mod_lt _ (by decide),
    Nat.mod_lt _ (by decide), Nat.mod_lt _ (by decide)⟩, fun hsecs => ?_⟩
  have hle := civilYear_le hsecs
  dsimp only
  rw [Nat.mod_eq_of_lt (by omega)]
  exact ⟨hle, hday⟩

/-! ## Writing -/

/-- The decimal form, with zeros in front up to the width. -/
def digits (width n : Nat) : List Char := (Nat.toDigits 10 n).leftpad width '0'

/-- The time of a record. -/
structure Timestamp where
  civil : Civil
  nanos : Nat
  deriving DecidableEq, Repr

def Duration.timestamp (c : Duration) : Timestamp := ⟨epochToYmdHms c.secs, c.nanos⟩

def Timestamp.chars (t : Timestamp) : List Char :=
  digits 4 t.civil.year ++ '-' :: (digits 2 t.civil.month ++ '-' :: (digits 2 t.civil.day ++
    'T' :: (digits 2 t.civil.hour ++ ':' :: (digits 2 t.civil.minute ++
      ':' :: (digits 2 t.civil.second ++ '.' :: (digits 9 t.nanos ++ ['Z']))))))

/-- The text of a clock reading. -/
def timestamp (c : Duration) : String := String.ofList c.timestamp.chars

/-! ## Reading -/

def number (cs : List Char) : Option Nat :=
  if cs ≠ [] ∧ cs.all Char.isDigit then some (Nat.ofDigitChars 10 cs 0) else none

/-- A number of just so many digits. -/
def numberOf (width : Nat) (cs : List Char) : Option Nat :=
  if cs.length = width then number cs else none

/-- A number of so many digits or more. -/
def numberFrom (width : Nat) (cs : List Char) : Option Nat :=
  if width ≤ cs.length then number cs else none

instance (c : Civil) : Decidable c.InRange :=
  decidable_of_iff (1 ≤ c.month ∧ c.month ≤ 12 ∧ 1 ≤ c.day ∧ c.day ≤ 31 ∧ c.hour < 24 ∧
      c.minute < 60 ∧ c.second < 60)
    ⟨fun ⟨h₁, h₂, h₃, h₄, h₅, h₆, h₇⟩ => ⟨h₁, h₂, h₃, h₄, h₅, h₆, h₇⟩,
      fun ⟨h₁, h₂, h₃, h₄, h₅, h₆, h₇⟩ => ⟨h₁, h₂, h₃, h₄, h₅, h₆, h₇⟩⟩

/-- A time with a year of four digits or more and nine digits of nanoseconds, in UTC. -/
def parseTimestamp (cs : List Char) : Option Timestamp := do
  let (year, cs) ← cutAt '-' cs
  let (month, cs) ← cutAt '-' cs
  let (day, cs) ← cutAt 'T' cs
  let (hour, cs) ← cutAt ':' cs
  let (minute, cs) ← cutAt ':' cs
  let (second, cs) ← cutAt '.' cs
  let (nanos, cs) ← cutAt 'Z' cs
  let civil : Civil := ⟨← numberFrom 4 year, ← numberOf 2 month, ← numberOf 2 day,
    ← numberOf 2 hour, ← numberOf 2 minute, ← numberOf 2 second⟩
  let nanos ← numberOf 9 nanos
  if cs = [] ∧ civil.InRange then some ⟨civil, nanos⟩ else none

/-- The RFC 3339 form with nanoseconds: the year has four digits, and the day is one of the
month. -/
def parseRfc3339Nano (cs : List Char) : Option Timestamp :=
  (parseTimestamp cs).filter fun t =>
    cs.length = 30 ∧ t.civil.day ≤ daysInMonth t.civil.year t.civil.month

theorem isDigit_of_mem_digits {width n : Nat} {c : Char} (h : c ∈ digits width n) :
    c.isDigit = true := by
  rw [digits, List.leftpad, List.mem_append] at h
  rcases h with h | h
  · rw [List.eq_of_mem_replicate h]
    rfl
  · exact Nat.isDigit_of_mem_toDigits (by omega) (by omega) h

theorem notMem_digits {width n : Nat} {c : Char} (hc : c.isDigit = false) : c ∉ digits width n :=
  fun h => by rw [isDigit_of_mem_digits h] at hc; cases hc

theorem le_length_digits (width n : Nat) : width ≤ (digits width n).length := by
  rw [digits, List.length_leftpad]
  exact Nat.le_max_left _ _

theorem length_digits {width n : Nat} (hw : 0 < width) (hn : n < 10 ^ width) :
    (digits width n).length = width := by
  rw [digits, List.length_leftpad]
  exact Nat.max_eq_left ((Nat.length_toDigits_le_iff (by omega) hw).mpr hn)

theorem number_digits {width n : Nat} (hw : 0 < width) : number (digits width n) = some n := by
  have hne : digits width n ≠ [] := by
    apply List.ne_nil_of_length_pos
    exact Nat.lt_of_lt_of_le hw (le_length_digits width n)
  have hall : (digits width n).all Char.isDigit := List.all_eq_true.mpr fun _ => isDigit_of_mem_digits
  rw [number, if_pos ⟨hne, hall⟩, digits, List.leftpad, Nat.ofDigitChars_append,
    Nat.ofDigitChars_replicate_zero, Nat.mul_zero, Nat.ofDigitChars_ten_toDigits]

/-- **What is written is read back.** -/
theorem parseTimestamp_chars {t : Timestamp} (h : t.civil.InRange) (hn : t.nanos < 10 ^ 9) :
    parseTimestamp t.chars = some t := by
  have hmonth := h.month
  have hday := h.day
  have hhour := h.hour
  have hminute := h.minute
  have hsecond := h.second
  have hcut (c : Char) (hc : c.isDigit = false) (width n : Nat) (cs : List Char) :
      cutAt c (digits width n ++ c :: cs) = some (digits width n, cs) :=
    cutAt_append (notMem_digits hc) cs
  have htwo {n : Nat} (hlt : n < 100) : numberOf 2 (digits 2 n) = some n := by
    rw [numberOf, if_pos (length_digits (by omega) hlt), number_digits (by omega)]
  have hfour : numberFrom 4 (digits 4 t.civil.year) = some t.civil.year := by
    rw [numberFrom, if_pos (le_length_digits 4 _), number_digits (by omega)]
  have hnine : numberOf 9 (digits 9 t.nanos) = some t.nanos := by
    rw [numberOf, if_pos (length_digits (by omega) hn), number_digits (by omega)]
  have hbind {α β : Type} {x : Option α} {f : α → Option β} {a : α} {b : β} (hx : x = some a)
      (hf : f a = some b) : (x >>= f) = some b := Option.bind_eq_some_iff.mpr ⟨a, hx, hf⟩
  unfold parseTimestamp Timestamp.chars
  refine hbind (hcut '-' rfl _ _ _) (hbind (hcut '-' rfl _ _ _) (hbind (hcut 'T' rfl _ _ _) ?_))
  refine hbind (hcut ':' rfl _ _ _) (hbind (hcut ':' rfl _ _ _) (hbind (hcut '.' rfl _ _ _) ?_))
  refine hbind (hcut 'Z' rfl _ _ []) (hbind hfour ?_)
  refine hbind (htwo (show t.civil.month < 100 by omega)) ?_
  refine hbind (htwo (show t.civil.day < 100 by omega)) ?_
  refine hbind (htwo (show t.civil.hour < 100 by omega)) ?_
  refine hbind (htwo (show t.civil.minute < 100 by omega)) ?_
  refine hbind (htwo (show t.civil.second < 100 by omega)) (hbind hnine ?_)
  exact if_pos ⟨rfl, h⟩

theorem parseTimestamp_timestamp (c : Duration) :
    parseTimestamp (timestamp c).toList = some c.timestamp := by
  rw [timestamp, String.toList_ofList]
  exact parseTimestamp_chars (inRange_epochToYmdHms c.secs).1 c.nanos_lt

theorem Timestamp.length_chars {t : Timestamp} (h : t.civil.InRange) (hy : t.civil.year ≤ 9999)
    (hn : t.nanos < 10 ^ 9) : t.chars.length = 30 := by
  have hmonth := h.month
  have hday := h.day
  have hhour := h.hour
  have hminute := h.minute
  have hsecond := h.second
  have htwo {n : Nat} (hlt : n < 100) : (digits 2 n).length = 2 := length_digits (by omega) hlt
  simp only [Timestamp.chars, List.length_append, List.length_cons, List.length_nil]
  rw [length_digits (n := t.civil.year) (by omega) (by omega),
    length_digits (n := t.nanos) (by omega) hn, htwo (n := t.civil.month) (by omega),
    htwo (n := t.civil.day) (by omega), htwo (n := t.civil.hour) (by omega),
    htwo (n := t.civil.minute) (by omega), htwo (n := t.civil.second) (by omega)]

/-- **Up to the year 9999 the RFC 3339 form is written.** -/
theorem parseRfc3339Nano_timestamp {c : Duration} (hc : c.secs < 253402300800) :
    parseRfc3339Nano (timestamp c).toList = some c.timestamp := by
  obtain ⟨hrange, hcal⟩ := inRange_epochToYmdHms c.secs
  obtain ⟨hyear, hday⟩ := hcal hc
  have hlen : (timestamp c).toList.length = 30 := by
    rw [timestamp, String.toList_ofList]
    exact Timestamp.length_chars hrange hyear c.nanos_lt
  rw [parseRfc3339Nano, parseTimestamp_timestamp]
  exact Option.filter_eq_some_iff.mpr ⟨rfl, decide_eq_true ⟨hlen, hday⟩⟩

end LightrCri.Attach

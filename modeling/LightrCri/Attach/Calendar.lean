import LightrCri.Attach.Timestamp
import LightrCri.Foundations.Checked
import Mathlib.Algebra.GroupWithZero.Nat
import Mathlib.Data.List.Lex

/-!
# The calendar of the log

`epoch_to_ymd_hms` in the arithmetic of `u64`, where a subtraction below zero or a sum that does not
fit panics (`checkedEpochToYmdHms`), against the calendar: the days of the years and months before a
date, counted from 1970 (`Civil.toEpoch`).

* `utc_timestamps`: an instant gets its date and time, as long as the year fits into `u32`; up to
  the year 9999 the texts are ordered as the instants are.
-/

namespace LightrCri.Attach

open Foundations

/-! ## The computation -/

/-- `365 * yoe + yoe / 4 - yoe / 100`. -/
def checkedStartOfYear (yoe : Nat) : Option Nat := do
  let days ← checkedMul 365 yoe
  let days ← checkedAdd days (yoe / 4)
  checkedSub days (yoe / 100)

/-- `(doe - doe / 1460 + doe / 36524 - doe / 146096) / 365`. -/
def checkedYearOfEra (doe : Nat) : Option Nat := do
  let x ← checkedSub doe (doe / 1460)
  let x ← checkedAdd x (doe / 36524)
  let x ← checkedSub x (doe / 146096)
  return x / 365

/-- `doy - (153 * mp + 2) / 5 + 1`. -/
def checkedDayOf (doy mp : Nat) : Option Nat := do
  let x ← checkedMul 153 mp
  let x ← checkedAdd x 2
  let d ← checkedSub doy (x / 5)
  checkedAdd d 1

/-- `if mp < 10 { mp + 3 } else { mp - 9 }`. -/
def checkedMonthOf (mp : Nat) : Option Nat :=
  if mp < 10 then checkedAdd mp 3 else checkedSub mp 9

/-- `if mo <= 2 { y + 1 } else { y }`. -/
def checkedYear (mo y : Nat) : Option Nat := if mo ≤ 2 then checkedAdd y 1 else some y

def checkedEpochToYmdHms (secs : Nat) : Option Civil := do
  let s := secs % 60
  let m := secs / 60 % 60
  let h := secs / 3600 % 24
  let days := secs / 86400
  let z ← checkedAdd days 719468
  let era := z / 146097
  let doe := z % 146097
  let yoe ← checkedYearOfEra doe
  let y ← checkedMul era 400
  let y ← checkedAdd yoe y
  let start ← checkedStartOfYear yoe
  let doy ← checkedSub doe start
  let x ← checkedMul 5 doy
  let x ← checkedAdd x 2
  let mp := x / 153
  let d ← checkedDayOf doy mp
  let mo ← checkedMonthOf mp
  let y ← checkedYear mo y
  return { year := y % 2 ^ 32
           month := mo % 2 ^ 32
           day := d % 2 ^ 32
           hour := h % 2 ^ 32
           minute := m % 2 ^ 32
           second := s % 2 ^ 32 }

theorem checkedStartOfYear_eq {yoe : Nat} (h : yoe < 400) :
    checkedStartOfYear yoe = some (startOfYear yoe) := by
  simp only [checkedStartOfYear, startOfYear, Option.bind_eq_bind]
  rw [checkedMul_eq (by omega), Option.bind_some, checkedAdd_eq (by omega), Option.bind_some,
    checkedSub_eq (by omega)]

theorem checkedYearOfEra_eq {doe : Nat} (h : doe < 146097) :
    checkedYearOfEra doe = some (yearOfEra doe) := by
  simp only [checkedYearOfEra, yearOfEra, Option.bind_eq_bind]
  rw [checkedSub_eq (by omega), Option.bind_some, checkedAdd_eq (by omega), Option.bind_some,
    checkedSub_eq (by omega), Option.bind_some]
  rfl

theorem checkedDayOf_eq {doy : Nat} (h : doy < 366) :
    checkedDayOf doy ((5 * doy + 2) / 153) = some (dayOf doy) := by
  simp only [checkedDayOf, dayOf, Option.bind_eq_bind]
  rw [checkedMul_eq (by omega), Option.bind_some, checkedAdd_eq (by omega), Option.bind_some,
    checkedSub_eq (by omega), Option.bind_some, checkedAdd_eq (by omega)]

theorem checkedMonthOf_eq (doy : Nat) :
    checkedMonthOf ((5 * doy + 2) / 153) = some (monthOf doy) := by
  unfold checkedMonthOf monthOf
  split
  · exact checkedAdd_eq (by omega)
  · exact checkedSub_eq (by omega)

theorem checkedYear_eq {secs : Nat} (h : secs < 2 ^ 64) :
    checkedYear (monthOf (dayOfMarchYear secs)) (marchYear secs) = some (civilYear secs) := by
  have hyoe := (startOfYear_le (dayOfEra_lt secs)).1
  unfold checkedYear civilYear
  split
  · refine checkedAdd_eq ?_
    unfold marchYear
    omega
  · rfl

/-- No step of the computation leaves `u64`, and only the year may be cut off. -/
theorem checkedEpochToYmdHms_eq {secs : Nat} (h : secs < 2 ^ 64) :
    checkedEpochToYmdHms secs = some (epochToYmdHms secs) := by
  have hdoe := dayOfEra_lt secs
  obtain ⟨hyoe, hstart, -⟩ := startOfYear_le hdoe
  have hdoy : dayOfMarchYear secs < 366 := (dayOfYear hdoe).1
  have hday := dayOf_le_daysInMonth secs
  have hmax := (daysInMonth_le (civilYear secs) (monthOf (dayOfMarchYear secs))).2
  have hmonth := (monthOf_dayOf hdoy).2.1
  rw [epochToYmdHms_eq]
  unfold checkedEpochToYmdHms
  simp only [Option.bind_eq_bind]
  rw [checkedAdd_eq (by omega), Option.bind_some, ← dayOfEra, checkedYearOfEra_eq hdoe,
    Option.bind_some, checkedMul_eq (by omega), Option.bind_some, checkedAdd_eq (by omega),
    Option.bind_some, ← marchYear, checkedStartOfYear_eq hyoe, Option.bind_some,
    checkedSub_eq hstart, Option.bind_some, ← dayOfMarchYear, checkedMul_eq (by omega),
    Option.bind_some, checkedAdd_eq (by omega), Option.bind_some, checkedDayOf_eq hdoy,
    Option.bind_some, checkedMonthOf_eq, Option.bind_some, checkedYear_eq h, Option.bind_some]
  rw [Nat.mod_eq_of_lt (a := monthOf _) (by omega), Nat.mod_eq_of_lt (a := dayOf _) (by omega),
    Nat.mod_eq_of_lt (a := secs / 3600 % 24) (by omega),
    Nat.mod_eq_of_lt (a := secs / 60 % 60) (by omega),
    Nat.mod_eq_of_lt (a := secs % 60) (by omega)]
  rfl

/-! ## The calendar -/

def daysInYear (year : Nat) : Nat := if isLeap year then 366 else 365

/-- The days from 1 January 1970 to 1 January of a year. -/
def daysToYear (year : Nat) : Nat := ((List.range' 1970 (year - 1970)).map daysInYear).sum

/-- The days of a year before the month. -/
def daysToMonth (year month : Nat) : Nat :=
  ((List.range' 1 (month - 1)).map (daysInMonth year)).sum

/-- The days since 1 January 1970. -/
def Civil.toDays (c : Civil) : Nat := daysToYear c.year + daysToMonth c.year c.month + (c.day - 1)

/-- The seconds since the start of 1970. -/
def Civil.toEpoch (c : Civil) : Nat :=
  c.toDays * 86400 + c.hour * 3600 + c.minute * 60 + c.second

theorem daysToYear_succ {year : Nat} (h : 1970 ≤ year) :
    daysToYear (year + 1) = daysToYear year + daysInYear year := by
  unfold daysToYear
  rw [show year + 1 - 1970 = year - 1970 + 1 by omega, List.range'_concat, List.map_append,
    List.sum_append]
  simp only [List.map_cons, List.map_nil, List.sum_cons, List.sum_nil]
  rw [show 1970 + 1 * (year - 1970) = year by omega, Nat.add_zero]

theorem daysInYear_eq {year : Nat} (h : 1 ≤ year) :
    daysInYear year + (year - 1) / 4 + year / 100 + (year - 1) / 400 =
      365 + year / 4 + (year - 1) / 100 + year / 400 := by
  unfold daysInYear isLeap
  split
  · rename_i hleap
    have hleap := of_decide_eq_true hleap
    omega
  · rename_i hleap
    have hleap := of_decide_eq_false (Bool.eq_false_iff.mpr hleap)
    omega

/-- The days before a year, counted from 1 March of the year 0. -/
theorem daysToYear_eq {year : Nat} (h : 1970 ≤ year) :
    daysToYear year + 719468 + (year - 1) / 100 =
      365 * (year - 1) + (year - 1) / 4 + (year - 1) / 400 + 306 := by
  induction year, h using Nat.le_induction with
  | base => decide
  | succ year hle ih =>
    have hyear := daysInYear_eq (show 1 ≤ year by omega)
    rw [daysToYear_succ hle, Nat.add_sub_cancel]
    omega

theorem daysToYear_mono {a b : Nat} (ha : 1970 ≤ a) (h : a ≤ b) :
    daysToYear a ≤ daysToYear b := by
  induction b, h using Nat.le_induction with
  | base => exact Nat.le_refl _
  | succ b hle ih =>
    rw [daysToYear_succ (Nat.le_trans ha hle)]
    omega

theorem daysToMonth_succ (year : Nat) {month : Nat} (h : 1 ≤ month) :
    daysToMonth year (month + 1) = daysToMonth year month + daysInMonth year month := by
  obtain ⟨n, rfl⟩ : ∃ n, month = n + 1 := ⟨month - 1, by omega⟩
  unfold daysToMonth
  rw [Nat.add_sub_cancel, Nat.add_sub_cancel, List.range'_concat, List.map_append, List.sum_append]
  simp only [List.map_cons, List.map_nil, List.sum_cons, List.sum_nil, Nat.one_mul]
  rw [Nat.add_comm 1 n, Nat.add_zero]

theorem daysToMonth_eq (year : Nat) {month : Nat} (h : 1 ≤ month) (h' : month ≤ 12) :
    daysToMonth year month =
      daysToMonth 1 month + if 3 ≤ month ∧ isLeap year = true then 1 else 0 := by
  have hfeb : daysInMonth year 2 = 28 + if isLeap year = true then 1 else 0 := by
    rw [daysInMonth, if_pos rfl]
    split <;> rfl
  have hother {m : Nat} (hm : m ≠ 2) : daysInMonth year m = daysInMonth 1 m := by
    rw [daysInMonth, daysInMonth, if_neg hm, if_neg hm]
  obtain ⟨n, rfl⟩ : ∃ n, month = n + 1 := ⟨month - 1, by omega⟩
  induction n with
  | zero => rfl
  | succ n ih =>
    rw [daysToMonth_succ year (Nat.le_add_left 1 n), daysToMonth_succ 1 (Nat.le_add_left 1 n),
      ih (by omega) (by omega)]
    by_cases htwo : n + 1 = 2
    · rw [htwo, hfeb, if_neg (by omega)]
      have hone : daysInMonth 1 2 = 28 := rfl
      rw [hone, Nat.add_zero, Nat.add_assoc]
      simp
    · have hiff : 3 ≤ n + 1 ∧ isLeap year = true ↔ 3 ≤ n + 1 + 1 ∧ isLeap year = true :=
        and_congr_left fun _ => by omega
      rw [hother htwo, Nat.add_right_comm, if_congr hiff rfl rfl]

/-- The day of the year, for the two months at the end of the year that starts in March and for the
others. -/
theorem daysToMonth_monthOf {doy : Nat} (h : doy < 366) :
    (monthOf doy ≤ 2 → daysToMonth 1 (monthOf doy) + dayOf doy + 306 = doy + 1) ∧
      (¬ monthOf doy ≤ 2 → daysToMonth 1 (monthOf doy) + dayOf doy = doy + 60) := by
  have hall : ∀ doy < 366,
      (monthOf doy ≤ 2 → daysToMonth 1 (monthOf doy) + dayOf doy + 306 = doy + 1) ∧
        (¬ monthOf doy ≤ 2 → daysToMonth 1 (monthOf doy) + dayOf doy = doy + 60) := by
    decide +kernel
  exact hall doy h

/-- The days since 1 March of the year 0, by the year that starts in March. -/
theorem marchYear_spec (secs : Nat) :
    secs / 86400 + 719468 + marchYear secs / 100 =
      365 * marchYear secs + marchYear secs / 4 + marchYear secs / 400 + dayOfMarchYear secs := by
  obtain ⟨hyoe, hstart, -⟩ := startOfYear_le (dayOfEra_lt secs)
  have hsplit : secs / 86400 + 719468 =
      146097 * ((secs / 86400 + 719468) / 146097) + dayOfEra secs := (Nat.div_add_mod _ _).symm
  have hfour (y era : Nat) : (y + era * 400) / 4 = y / 4 + 100 * era := by omega
  have hhundred (y era : Nat) : (y + era * 400) / 100 = y / 100 + 4 * era := by omega
  have hera {y era : Nat} (hy : y < 400) : (y + era * 400) / 400 = era := by omega
  unfold marchYear dayOfMarchYear
  unfold startOfYear at hstart ⊢
  rw [hfour, hhundred, hera hyoe]
  omega

theorem monthOf_le_two {doy : Nat} (h : doy < 366) : monthOf doy ≤ 2 ↔ 306 ≤ doy := by
  refine ⟨(monthOf_dayOf h).2.2.2.2, fun hle => ?_⟩
  unfold monthOf
  split <;> omega

theorem le_civilYear (secs : Nat) : 1970 ≤ civilYear secs := by
  have hspec := marchYear_spec secs
  have hdoy : dayOfMarchYear secs < 366 := (dayOfYear (dayOfEra_lt secs)).1
  have hwinter := monthOf_le_two hdoy
  unfold civilYear
  split <;> omega

/-- The day of an instant, in the year that is not cut off. -/
theorem toDays_civilYear (secs : Nat) :
    daysToYear (civilYear secs) + daysToMonth (civilYear secs) (monthOf (dayOfMarchYear secs)) +
      (dayOf (dayOfMarchYear secs) - 1) = secs / 86400 := by
  have hspec := marchYear_spec secs
  have hdoy : dayOfMarchYear secs < 366 := (dayOfYear (dayOfEra_lt secs)).1
  obtain ⟨hmo, hmo', hd, -, -⟩ := monthOf_dayOf hdoy
  obtain ⟨hearly, hlate⟩ := daysToMonth_monthOf hdoy
  have hyear := daysToYear_eq (le_civilYear secs)
  rw [daysToMonth_eq _ hmo hmo']
  by_cases hfeb : monthOf (dayOfMarchYear secs) ≤ 2
  · have hmonth := hearly hfeb
    rw [civilYear, if_pos hfeb] at hyear ⊢
    rw [if_neg (by omega)]
    rw [Nat.add_sub_cancel] at hyear
    omega
  · have hmonth := hlate hfeb
    have hpos := le_civilYear secs
    rw [civilYear, if_neg hfeb] at hyear hpos ⊢
    have hleap := daysInYear_eq (show 1 ≤ marchYear secs by omega)
    have hiff : 3 ≤ monthOf (dayOfMarchYear secs) ∧ isLeap (marchYear secs) = true ↔
        isLeap (marchYear secs) = true := and_iff_right (by omega)
    have hbefore : marchYear secs - 1 + 1 = marchYear secs := Nat.sub_add_cancel (by omega)
    rw [if_congr hiff rfl rfl]
    clear hearly hlate hpos
    -- the quotients are the same on both sides, whatever they are
    generalize marchYear secs / 4 = a, marchYear secs / 100 = b, marchYear secs / 400 = c
      at hspec hleap
    generalize (marchYear secs - 1) / 4 = a', (marchYear secs - 1) / 100 = b',
      (marchYear secs - 1) / 400 = c' at hyear hleap
    unfold daysInYear at hleap
    split at hleap
    · rename_i h
      rw [if_pos h]
      omega
    · rename_i h
      rw [if_neg h]
      omega

/-- The year fits into `u32` when the instant comes before a year that does not. -/
theorem civilYear_lt {secs : Nat} (h : secs < 86400 * daysToYear (2 ^ 32)) :
    civilYear secs < 2 ^ 32 := by
  by_contra hge
  have hmono := daysToYear_mono (show 1970 ≤ 2 ^ 32 by decide) (Nat.le_of_not_lt hge)
  have hdays := toDays_civilYear secs
  omega

theorem year_epochToYmdHms {secs : Nat} (h : secs < 86400 * daysToYear (2 ^ 32)) :
    (epochToYmdHms secs).year = civilYear secs := Nat.mod_eq_of_lt (civilYear_lt h)

theorem toDays_epochToYmdHms {secs : Nat} (h : secs < 86400 * daysToYear (2 ^ 32)) :
    (epochToYmdHms secs).toDays = secs / 86400 := by
  rw [Civil.toDays, year_epochToYmdHms h]
  exact toDays_civilYear secs

theorem toEpoch_epochToYmdHms {secs : Nat} (h : secs < 86400 * daysToYear (2 ^ 32)) :
    (epochToYmdHms secs).toEpoch = secs := by
  rw [Civil.toEpoch, toDays_epochToYmdHms h, epochToYmdHms_eq]
  dsimp only
  omega

/-! ## The order of dates -/

/-- A date of the calendar. -/
structure Civil.Valid (c : Civil) : Prop where
  inRange : c.InRange
  day : c.day ≤ daysInMonth c.year c.month

theorem valid_epochToYmdHms {secs : Nat} (h : secs < 86400 * daysToYear (2 ^ 32)) :
    (epochToYmdHms secs).Valid := by
  refine ⟨(inRange_epochToYmdHms secs).1, ?_⟩
  rw [year_epochToYmdHms h]
  exact dayOf_le_daysInMonth secs

theorem daysToMonth_mono (year : Nat) {a b : Nat} (ha : 1 ≤ a) (h : a ≤ b) :
    daysToMonth year a ≤ daysToMonth year b := by
  induction b, h using Nat.le_induction with
  | base => exact Nat.le_refl _
  | succ b hle ih =>
    rw [daysToMonth_succ year (Nat.le_trans ha hle)]
    omega

theorem daysToMonth_thirteen (year : Nat) : daysToMonth year 13 = daysInYear year := by
  rw [daysToMonth_succ year (by omega), daysToMonth_eq year (by omega) (by omega), daysInYear]
  have hone : daysToMonth 1 12 = 334 := by decide
  have hdec : daysInMonth year 12 = 31 := rfl
  rw [hone, hdec]
  split
  · rename_i h
    rw [if_pos h.2]
  · rename_i h
    rw [if_neg fun hleap => h ⟨by omega, hleap⟩]

/-- A date is before the end of its month, and of its year. -/
theorem Civil.Valid.lt_end {c : Civil} (h : c.Valid) :
    daysToMonth c.year c.month + c.day ≤ daysToMonth c.year (c.month + 1) ∧
      daysToMonth c.year c.month + c.day ≤ daysInYear c.year := by
  have hmonth : daysToMonth c.year c.month + c.day ≤ daysToMonth c.year (c.month + 1) := by
    rw [daysToMonth_succ c.year h.inRange.month_pos]
    exact Nat.add_le_add_left h.day _
  refine ⟨hmonth, Nat.le_trans hmonth ?_⟩
  rw [← daysToMonth_thirteen]
  exact daysToMonth_mono c.year (by omega) (Nat.succ_le_succ h.inRange.month)

/-- The order of the calendar is that of the days. -/
theorem Civil.Valid.toDays_lt {a b : Civil} (ha : a.Valid) (hb : b.Valid) (hyear : 1970 ≤ a.year)
    (h : a.year < b.year ∨ a.year = b.year ∧ (a.month < b.month ∨ a.month = b.month ∧ a.day < b.day)) :
    a.toDays < b.toDays := by
  obtain ⟨hmonth, hend⟩ := ha.lt_end
  have hday := ha.inRange.day_pos
  have hday' := hb.inRange.day_pos
  unfold Civil.toDays
  rcases h with hlt | ⟨heq, hlt | ⟨heq', hlt⟩⟩
  · have hsucc := daysToYear_succ hyear
    have hmono : daysToYear (a.year + 1) ≤ daysToYear b.year :=
      daysToYear_mono (Nat.le_succ_of_le hyear) hlt
    omega
  · have hmono : daysToMonth a.year (a.month + 1) ≤ daysToMonth a.year b.month :=
      daysToMonth_mono a.year (Nat.le_add_left 1 a.month) hlt
    rw [← heq]
    omega
  · rw [← heq, ← heq']
    omega

/-! ## The order of the texts -/

theorem append_lt_append {x y : List Char} (h : x < y) (hlen : x.length = y.length)
    (r s : List Char) : x ++ r < y ++ s := by
  induction x generalizing y with
  | nil =>
    cases y with
    | nil => exact absurd h (List.lt_irrefl [])
    | cons d y => cases hlen
  | cons c x ih =>
    cases y with
    | nil => cases hlen
    | cons d y =>
      rcases List.cons_lt_cons_iff.mp h with hlt | ⟨heq, hlt⟩
      · exact List.cons_lt_cons_iff.mpr (.inl hlt)
      · exact List.cons_lt_cons_iff.mpr (.inr ⟨heq, ih hlt (Nat.succ.inj hlen)⟩)

theorem digitChar_lt {a b : Nat} (h : a < b) (hb : b < 10) : a.digitChar < b.digitChar := by
  rw [Char.lt_def, UInt32.lt_iff_toNat_lt]
  have ha := Nat.toNat_digitChar_of_lt_ten (Nat.lt_trans h hb)
  have hb := Nat.toNat_digitChar_of_lt_ten hb
  unfold Char.toNat at ha hb
  omega

/-- The last digit. -/
theorem digits_succ {width n : Nat} (hw : 0 < width) :
    digits (width + 1) n = digits width (n / 10) ++ [(n % 10).digitChar] := by
  unfold digits List.leftpad
  rcases Nat.lt_or_ge n 10 with hlt | hge
  · rw [Nat.toDigits_of_lt_base hlt, Nat.div_eq_of_lt hlt, Nat.toDigits_zero, Nat.mod_eq_of_lt hlt]
    obtain ⟨k, rfl⟩ : ∃ k, width = k + 1 := ⟨width - 1, by omega⟩
    simp only [List.length_singleton, Nat.add_sub_cancel, List.replicate_succ']
  · rw [Nat.toDigits_of_base_le (by omega) hge, List.length_append, List.length_singleton,
      Nat.add_sub_add_right, List.append_assoc]

theorem digits_lt {width a b : Nat} (hw : 0 < width) (h : a < b) (hb : b < 10 ^ width) :
    digits width a < digits width b := by
  induction width, hw using Nat.le_induction generalizing a b with
  | base =>
    have hb : b < 10 := hb
    unfold digits
    rw [Nat.toDigits_of_lt_base (by omega), Nat.toDigits_of_lt_base hb]
    exact List.cons_lt_cons_iff.mpr (.inl (digitChar_lt h hb))
  | succ width hw ih =>
    rw [digits_succ hw, digits_succ hw]
    have hb' : b / 10 < 10 ^ width := by
      rw [Nat.pow_succ] at hb
      omega
    rcases Nat.lt_or_ge (a / 10) (b / 10) with hlt | hge
    · refine append_lt_append (ih hlt hb') ?_ _ _
      rw [length_digits hw (by omega), length_digits hw hb']
    · have heq : a / 10 = b / 10 := by omega
      rw [heq]
      refine List.append_left_lt (List.cons_lt_cons_iff.mpr (.inl (digitChar_lt ?_ ?_)))
      · omega
      · omega

/-- A field and what follows it. -/
theorem digits_append_lt {width a b : Nat} (hw : 0 < width) (hb : b < 10 ^ width) {r s : List Char}
    (h : a < b ∨ a = b ∧ r < s) : digits width a ++ r < digits width b ++ s := by
  rcases h with hlt | ⟨rfl, hlt⟩
  · refine append_lt_append (digits_lt hw hlt hb) ?_ r s
    rw [length_digits hw (Nat.lt_trans hlt hb), length_digits hw hb]
  · exact List.append_left_lt hlt

/-- The fields of a time, the first that differs deciding. -/
def Timestamp.Before (t u : Timestamp) : Prop :=
  t.civil.year < u.civil.year ∨ t.civil.year = u.civil.year ∧
    (t.civil.month < u.civil.month ∨ t.civil.month = u.civil.month ∧
      (t.civil.day < u.civil.day ∨ t.civil.day = u.civil.day ∧
        (t.civil.hour < u.civil.hour ∨ t.civil.hour = u.civil.hour ∧
          (t.civil.minute < u.civil.minute ∨ t.civil.minute = u.civil.minute ∧
            (t.civil.second < u.civil.second ∨ t.civil.second = u.civil.second ∧
              t.nanos < u.nanos)))))

theorem Timestamp.chars_lt {t u : Timestamp} (hu : u.civil.InRange) (hyear : u.civil.year ≤ 9999)
    (hnanos : u.nanos < 10 ^ 9) (h : t.Before u) : t.chars < u.chars := by
  have hmonth := hu.month
  have hday := hu.day
  have hhour := hu.hour
  have hminute := hu.minute
  have hsecond := hu.second
  have hcons (c : Char) {r s : List Char} (hlt : r < s) : c :: r < c :: s :=
    List.cons_lt_cons_iff.mpr (.inr ⟨rfl, hlt⟩)
  refine digits_append_lt (by omega) (by omega) (h.imp_right (And.imp_right fun h => hcons _ ?_))
  refine digits_append_lt (by omega) (by omega) (h.imp_right (And.imp_right fun h => hcons _ ?_))
  refine digits_append_lt (by omega) (by omega) (h.imp_right (And.imp_right fun h => hcons _ ?_))
  refine digits_append_lt (by omega) (by omega) (h.imp_right (And.imp_right fun h => hcons _ ?_))
  refine digits_append_lt (by omega) (by omega) (h.imp_right (And.imp_right fun h => hcons _ ?_))
  refine digits_append_lt (by omega) (by omega) (h.imp_right (And.imp_right fun h => hcons _ ?_))
  exact digits_append_lt (by omega) hnanos (.inl h)

/-- The nanoseconds since the epoch. -/
def Duration.asNanos (c : Duration) : Nat := c.secs * 10 ^ 9 + c.nanos

/-- Of two different instants, one has the earlier fields. -/
theorem Duration.before_of_lt {c d : Duration} (hc : c.secs < 86400 * daysToYear (2 ^ 32))
    (hd : d.secs < 86400 * daysToYear (2 ^ 32)) (h : c.asNanos < d.asNanos) :
    c.timestamp.Before d.timestamp := by
  have hvc := valid_epochToYmdHms hc
  have hvd := valid_epochToYmdHms hd
  have hyear : 1970 ≤ (epochToYmdHms d.secs).year := by
    rw [year_epochToYmdHms hd]
    exact le_civilYear _
  have hdays := hvd.toDays_lt hvc hyear
  have hc' := toEpoch_epochToYmdHms hc
  have hd' := toEpoch_epochToYmdHms hd
  have hnc := c.nanos_lt
  have hnd := d.nanos_lt
  have hrc := hvc.inRange
  have hrd := hvd.inRange
  unfold Duration.asNanos at h
  unfold Civil.toEpoch at hc' hd'
  have hlater : ¬ (epochToYmdHms d.secs).toDays < (epochToYmdHms c.secs).toDays := by
    have := hrc.hour
    have := hrc.minute
    have := hrc.second
    have := hrd.hour
    have := hrd.minute
    have := hrd.second
    omega
  unfold Timestamp.Before Duration.timestamp
  dsimp only
  rcases Nat.lt_trichotomy (epochToYmdHms c.secs).year (epochToYmdHms d.secs).year with hy | hy | hy
  · exact .inl hy
  · refine .inr ⟨hy, ?_⟩
    rcases Nat.lt_trichotomy (epochToYmdHms c.secs).month (epochToYmdHms d.secs).month with
      hmo | hmo | hmo
    · exact .inl hmo
    · refine .inr ⟨hmo, ?_⟩
      rcases Nat.lt_trichotomy (epochToYmdHms c.secs).day (epochToYmdHms d.secs).day with
        hday | hday | hday
      · exact .inl hday
      · refine .inr ⟨hday, ?_⟩
        have hsame : (epochToYmdHms c.secs).toDays = (epochToYmdHms d.secs).toDays := by
          rw [Civil.toDays, Civil.toDays, hy, hmo, hday]
        have := hrc.minute
        have := hrc.second
        have := hrd.minute
        have := hrd.second
        omega
      · exact (hlater (hdays (.inr ⟨hy.symm, .inr ⟨hmo.symm, hday⟩⟩))).elim
    · exact (hlater (hdays (.inr ⟨hy.symm, .inl hmo⟩))).elim
  · exact (hlater (hdays (.inl hy))).elim

theorem daysToYear_tenThousand : 86400 * daysToYear 10000 = 253402300800 := by
  have h := daysToYear_eq (show 1970 ≤ 10000 by omega)
  generalize daysToYear 10000 = days at h ⊢
  omega

/-- The texts of different instants up to the year 9999 are in their order. -/
theorem timestamp_lt_of_lt {c d : Duration} (hc : c.secs < 86400 * daysToYear 10000)
    (hd : d.secs < 86400 * daysToYear 10000) (h : c.asNanos < d.asNanos) :
    timestamp c < timestamp d := by
  have hmono := daysToYear_mono (show 1970 ≤ 10000 by omega) (show 10000 ≤ 2 ^ 32 by decide)
  rw [String.lt_iff, timestamp, timestamp, String.toList_ofList, String.toList_ofList]
  obtain ⟨hrange, hcal⟩ := inRange_epochToYmdHms d.secs
  refine Timestamp.chars_lt hrange (hcal (daysToYear_tenThousand ▸ hd)).1 d.nanos_lt ?_
  exact Duration.before_of_lt (by omega) (by omega) h

/-- **The timestamps are UTC.** As long as the year fits into `u32`, no step of the computation
leaves `u64`, and the fields are the date and the time of day of the instant; up to the year 9999
the texts are ordered as the instants are. -/
theorem utc_timestamps :
    (∀ secs, secs < 2 ^ 64 → secs < 86400 * daysToYear (2 ^ 32) →
      checkedEpochToYmdHms secs = some (epochToYmdHms secs) ∧ (epochToYmdHms secs).InRange ∧
        (epochToYmdHms secs).day ≤
          daysInMonth (epochToYmdHms secs).year (epochToYmdHms secs).month ∧
        (epochToYmdHms secs).toEpoch = secs) ∧
      ∀ c d : Duration, c.secs < 86400 * daysToYear 10000 → d.secs < 86400 * daysToYear 10000 →
        (timestamp c < timestamp d ↔ c.asNanos < d.asNanos) := by
  refine ⟨fun secs h64 hyear => ?_, fun c d hc hd => ⟨fun hlt => ?_, timestamp_lt_of_lt hc hd⟩⟩
  · have hvalid := valid_epochToYmdHms hyear
    exact ⟨checkedEpochToYmdHms_eq h64, hvalid.inRange, hvalid.day, toEpoch_epochToYmdHms hyear⟩
  · by_contra hge
    rcases Nat.lt_or_eq_of_le (Nat.le_of_not_lt hge) with hgt | heq
    · have := timestamp_lt_of_lt hd hc hgt
      exact String.lt_asymm hlt this
    · have hc' := c.nanos_lt
      have hd' := d.nanos_lt
      unfold Duration.asNanos at heq
      have hsecs : c.secs = d.secs := by omega
      have hnanos : c.nanos = d.nanos := by omega
      have hsame : timestamp c = timestamp d := by
        rw [timestamp, timestamp, Duration.timestamp, Duration.timestamp, hsecs, hnanos]
      rw [hsame] at hlt
      exact String.lt_irrefl _ hlt

/-- The leap day of the century year 2000, in its last second, and the second after it. -/
theorem utc_timestamps_leapDay :
    (checkedEpochToYmdHms 951868799 = some ⟨2000, 2, 29, 23, 59, 59⟩ ∧
      Civil.toEpoch ⟨2000, 2, 29, 23, 59, 59⟩ = 951868799) ∧
      timestamp ⟨951868799, 5, by decide, by decide⟩ <
        timestamp ⟨951868800, 0, by decide, by decide⟩ := by
  have hmono := daysToYear_mono (show 1970 ≤ 10000 by omega) (show 10000 ≤ 2 ^ 32 by decide)
  have hend := daysToYear_tenThousand
  obtain ⟨heq, -, -, hepoch⟩ := utc_timestamps.1 951868799 (by decide) (by omega)
  refine ⟨⟨heq.trans (congrArg some (by decide)), ?_⟩, ?_⟩
  · rw [show (⟨2000, 2, 29, 23, 59, 59⟩ : Civil) = epochToYmdHms 951868799 by decide]
    exact hepoch
  · refine (utc_timestamps.2 _ _ ?_ ?_).mpr (by decide)
    · exact hend ▸ (by decide : 951868799 < 253402300800)
    · exact hend ▸ (by decide : 951868800 < 253402300800)

end LightrCri.Attach

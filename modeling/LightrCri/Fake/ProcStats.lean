import LightrCri.Foundations.Checked
import LightrCri.Foundations.Utf8
import LightrCri.Foundations.Words
import Mathlib.Algebra.Group.Nat.Defs

/-!
# The statistics of a process

`read_proc_stats` takes the CPU time of a process from the 14th and the 15th word of its `stat`
file, and the memory from its `status` file. The second field of `stat` is the name of the command
in parentheses, as the process has set it: any bytes. The file is read as UTF-8 and cut at white
space, so the words are the fields exactly for the names that are UTF-8 and hold no white space
(`cpuNanos_iff`).
-/

namespace LightrCri.Fake

open Foundations

/-! ## `read_proc_stats` -/

/-- `char::is_whitespace`: the characters with the property White_Space. -/
def isWhitespace (c : Char) : Bool :=
  let n := c.toNat
  9 ≤ n && n ≤ 13 || n = 0x20 || n = 0x85 || n = 0xa0 || n = 0x1680 || 0x2000 ≤ n && n ≤ 0x200a ||
    n = 0x2028 || n = 0x2029 || n = 0x202f || n = 0x205f || n = 0x3000

/-- `str::split_whitespace`. -/
def splitWhitespace (cs : List Char) : List (List Char) := words isWhitespace cs

/-- Without the plus sign that a number may have in front. -/
def dropPlus : List Char → List Char
  | '+' :: ds => ds
  | ds => ds

/-- `parse::<u64>`. -/
def parseU64 (cs : List Char) : Option Nat :=
  let digits := dropPlus cs
  if digits ≠ [] ∧ digits.all Char.isDigit ∧ Nat.ofDigitChars 10 digits 0 < 2 ^ 64 then
    some (Nat.ofDigitChars 10 digits 0)
  else none

/-- `str::lines`. -/
def textLines (cs : List Char) : List (List Char) :=
  let ls := cs.splitOnP (· = '\n')
  let ls := if ls.getLast? = some [] then ls.dropLast else ls
  ls.map fun l => if l.getLast? = some '\r' then l.dropLast else l

/-- `nanos_per_tick`; the clock ticks as `sysconf` says, and a division by zero gives zero. -/
def nanosPerTick (clkTck : Nat) : Nat := 1000000000 / clkTck

/-- The CPU time by the fields; none where the arithmetic overflows. -/
def cpuOfFields (clkTck : Nat) (fields : List (List Char)) : Option Nat :=
  if 14 < fields.length then do
    let utime := ((fields[13]?).bind parseU64).getD 0
    let stime := ((fields[14]?).bind parseU64).getD 0
    let ticks ← checkedAdd utime stime
    checkedMul ticks (nanosPerTick clkTck)
  else some 0

/-- The CPU time. -/
def cpuNanos (clkTck : Nat) (stat : Option (List UInt8)) : Option Nat :=
  match stat.bind decodeUtf8 with
  | none => some 0
  | some text => cpuOfFields clkTck (splitWhitespace text)

/-- The memory; none where the arithmetic overflows. -/
def memBytes (status : Option (List UInt8)) : Option Nat :=
  match status.bind decodeUtf8 with
  | none => some 0
  | some text =>
    let rssKb := match (textLines text).find? fun l => "VmRSS:".toList.isPrefixOf l with
      | none => 0
      | some l => (((splitWhitespace l)[1]?).bind parseU64).getD 0
    checkedMul rssKb 1024

/-- `read_proc_stats`, with what the two files of the process hold. -/
def readProcStats (clkTck : Nat) (stat status : Option (List UInt8)) : Option (Nat × Nat) := do
  let cpu ← cpuNanos clkTck stat
  let mem ← memBytes status
  return (cpu, mem)

/-! ## What the kernel writes -/

/-- The fields of a `stat` file: the process id, the name of the command, the state, the fields 4 to
13, the two times, and the rest. -/
structure ProcStat where
  pid : Nat
  comm : List UInt8
  state : Char
  state_alpha : state.isAlpha = true
  before : List Int
  before_length : before.length = 10
  utime : Nat
  stime : Nat
  after : List Int

/-- The fields behind the name. -/
def ProcStat.fields (s : ProcStat) : List (List Char) :=
  [s.state] :: (s.before ++ [(s.utime : Int), (s.stime : Int)] ++ s.after).map fun n => (toString n).toList

/-- Each field with a blank in front. -/
def spaced (ws : List (List Char)) : List Char := ws.flatMap fun w => ' ' :: w

/-- The line. -/
def ProcStat.line (s : ProcStat) : List UInt8 :=
  encodeUtf8 ((toString s.pid).toList ++ [' ', '(']) ++ s.comm ++
    encodeUtf8 (')' :: spaced s.fields ++ ['\n'])

/-- The name is UTF-8 and holds no white space. -/
def OneWord (comm : List UInt8) : Prop :=
  ∃ cs, decodeUtf8 comm = some cs ∧ ∀ c ∈ cs, isWhitespace c = false

/-! ## The words of the line -/

/-- The characters of the fields. -/
def Plain (w : List Char) : Prop := w ≠ [] ∧ ∀ c ∈ w, isWhitespace c = false

theorem isWhitespace_of_graphic {c : Char} (h : 33 ≤ c.toNat) (h' : c.toNat < 127) :
    isWhitespace c = false := by
  unfold isWhitespace
  simp only [Bool.or_eq_false_iff, Bool.and_eq_false_iff, decide_eq_false_iff_not]
  omega

theorem isWhitespace_of_isDigit {c : Char} (h : c.isDigit = true) : isWhitespace c = false := by
  simp only [Char.isDigit, Bool.and_eq_true, decide_eq_true_eq, UInt32.le_iff_toNat_le, ge_iff_le] at h
  change 48 ≤ c.toNat ∧ c.toNat ≤ 57 at h
  exact isWhitespace_of_graphic (by omega) (by omega)

theorem isDigit_of_mem_toString {n : Nat} {c : Char} (h : c ∈ (toString n).toList) :
    c.isDigit = true := by
  rw [Nat.toString_eq_repr, Nat.toList_repr] at h
  exact Nat.isDigit_of_mem_toDigits (by omega) (by omega) h

theorem plain_nat (n : Nat) : Plain (toString n).toList := by
  refine ⟨?_, fun c hc => isWhitespace_of_isDigit (isDigit_of_mem_toString hc)⟩
  rw [Nat.toString_eq_repr, Nat.toList_repr]
  exact Nat.toDigits_ne_nil

theorem plain_int (n : Int) : Plain (toString n).toList := by
  cases n with
  | ofNat n => exact plain_nat n
  | negSucc n =>
    have hchars : (toString (Int.negSucc n)).toList = '-' :: (toString (n + 1)).toList := by
      show ("-" ++ toString (n + 1)).toList = _
      rw [String.toList_append]
      rfl
    rw [hchars]
    refine ⟨List.cons_ne_nil _ _, fun c hc => ?_⟩
    rcases List.mem_cons.mp hc with rfl | hc
    · exact isWhitespace_of_graphic (by decide) (by decide)
    · exact (plain_nat (n + 1)).2 c hc

theorem ProcStat.plain_fields (s : ProcStat) : ∀ w ∈ s.fields, Plain w := by
  intro w hw
  rcases List.mem_cons.mp hw with rfl | hw
  · refine ⟨List.cons_ne_nil _ _, fun c hc => ?_⟩
    obtain rfl := List.mem_singleton.mp hc
    have hupper (h : s.state.isUpper = true) : 65 ≤ s.state.toNat ∧ s.state.toNat ≤ 90 := by
      have hval : s.state.val ≥ 'A'.val ∧ s.state.val ≤ 'Z'.val := of_decide_eq_true h
      exact ⟨UInt32.le_iff_toNat_le.mp hval.1, UInt32.le_iff_toNat_le.mp hval.2⟩
    have hlower (h : s.state.isLower = true) : 97 ≤ s.state.toNat ∧ s.state.toNat ≤ 122 := by
      obtain ⟨ha, hz⟩ := Bool.and_eq_true_iff.mp h
      exact ⟨UInt32.le_iff_toNat_le.mp (of_decide_eq_true ha),
        UInt32.le_iff_toNat_le.mp (of_decide_eq_true hz)⟩
    have halpha : (s.state.isUpper || s.state.isLower) = true := s.state_alpha
    rcases Bool.or_eq_true_iff.mp halpha with h | h
    · have hrange := hupper h
      exact isWhitespace_of_graphic (by omega) (by omega)
    · have hrange := hlower h
      exact isWhitespace_of_graphic (by omega) (by omega)
  · obtain ⟨n, -, rfl⟩ := List.mem_map.mp hw
    exact plain_int n

theorem words_spaced {ws : List (List Char)} (h : ∀ w ∈ ws, Plain w) (xs : List Char) :
    words isWhitespace (xs ++ (spaced ws ++ ['\n'])) = words isWhitespace xs ++ ws := by
  induction ws generalizing xs with
  | nil => exact (words_append_cons (by decide) xs []).trans (by simp)
  | cons w ws ih =>
    obtain ⟨hne, hplain⟩ := h w List.mem_cons_self
    have hcons : xs ++ (spaced (w :: ws) ++ ['\n']) = xs ++ ' ' :: (w ++ (spaced ws ++ ['\n'])) := by
      simp [spaced]
    rw [hcons, words_append_cons (by decide), ih (fun w' hw' => h w' (List.mem_cons_of_mem _ hw')),
      words_of_notSep hplain hne]
    rfl

/-- What is read of the line is a text exactly if the name is. -/
theorem ProcStat.decode_line (s : ProcStat) :
    (∀ cs, decodeUtf8 s.comm = some cs → decodeUtf8 s.line = some
      ((toString s.pid).toList ++ ' ' :: ('(' :: cs ++ [')'] ++ (spaced s.fields ++ ['\n'])))) ∧
      (decodeUtf8 s.comm = none → decodeUtf8 s.line = none) := by
  constructor
  · intro cs hcs
    rw [decodeUtf8_eq_some] at hcs ⊢
    rw [ProcStat.line, ← hcs, ← encodeUtf8_append, ← encodeUtf8_append]
    congr 1
    simp
  · intro hnone
    cases hline : decodeUtf8 s.line with
    | none => rfl
    | some text =>
      have hopen : encodeUtf8 ((toString s.pid).toList ++ [' ', '(']) =
          encodeUtf8 ((toString s.pid).toList ++ [' ']) ++ [40] := by
        rw [show (toString s.pid).toList ++ [' ', '('] = (toString s.pid).toList ++ [' '] ++ ['('] by
          simp, encodeUtf8_append]
        rfl
      have henc := decodeUtf8_eq_some.mp hline
      rw [ProcStat.line, hopen, List.append_assoc, List.append_assoc] at henc
      obtain ⟨l, c, r, -, -, -, hr⟩ := encode_eq_append_cons (by decide) henc
      have hclose : encodeUtf8 (')' :: spaced s.fields ++ ['\n']) =
          41 :: encodeUtf8 (spaced s.fields ++ ['\n']) := rfl
      rw [hclose] at hr
      obtain ⟨l', c', r', -, hl', -, -⟩ := encode_eq_append_cons (by decide) hr
      rw [decodeUtf8_eq_some.mpr hl'] at hnone
      cases hnone

/-- The words of the line. -/
theorem ProcStat.words_line (s : ProcStat) (cs : List Char) :
    splitWhitespace ((toString s.pid).toList ++ ' ' :: ('(' :: cs ++ [')'] ++
        (spaced s.fields ++ ['\n']))) =
      (toString s.pid).toList :: (words isWhitespace ('(' :: cs ++ [')']) ++ s.fields) := by
  rw [splitWhitespace, words_cons_word (plain_nat s.pid).2 (plain_nat s.pid).1 (by decide),
    words_spaced s.plain_fields]

/-! ## The CPU time -/

theorem parseU64_toString {n : Nat} (h : n < 2 ^ 64) : parseU64 (toString n).toList = some n := by
  have hdigit : ∀ c ∈ (toString n).toList, c.isDigit = true := fun _ => isDigit_of_mem_toString
  have hne := (plain_nat n).1
  have hval : Nat.ofDigitChars 10 (toString n).toList 0 = n := by
    rw [Nat.toString_eq_repr, Nat.toList_repr, Nat.ofDigitChars_ten_toDigits]
  have hdrop : dropPlus (toString n).toList = (toString n).toList := by
    unfold dropPlus
    split
    · rename_i heq
      rw [heq] at hdigit
      exact absurd (hdigit '+' List.mem_cons_self) (by decide)
    · rfl
  rw [parseU64, hdrop, hval]
  exact if_pos ⟨hne, List.all_eq_true.mpr hdigit, h⟩

/-- The words of the line, from the place of the user time on. -/
theorem ProcStat.fields_eq (s : ProcStat) :
    s.fields = ([s.state] :: s.before.map fun n => (toString n).toList) ++
      (toString s.utime).toList :: (toString s.stime).toList ::
        s.after.map fun n => (toString n).toList := by
  simp only [ProcStat.fields, List.map_append, List.map_cons, List.cons_append,
    List.append_assoc, List.nil_append]
  rfl

/-- A name of one word: the times are in their places. -/
theorem cpuNanos_of_oneWord (s : ProcStat) {clkTck : Nat} (h : OneWord s.comm)
    (hfits : (s.utime + s.stime) * nanosPerTick clkTck < 2 ^ 64) (hpos : 0 < nanosPerTick clkTck) :
    cpuNanos clkTck (some s.line) = some ((s.utime + s.stime) * nanosPerTick clkTck) := by
  obtain ⟨cs, hcs, hplain⟩ := h
  have hone : words isWhitespace ('(' :: cs ++ [')']) = ['(' :: cs ++ [')']] := by
    refine words_of_notSep (fun c hc => ?_) (List.cons_ne_nil _ _)
    simp only [List.cons_append, List.mem_cons, List.mem_append, List.not_mem_nil, or_false] at hc
    rcases hc with rfl | hc | rfl
    · decide
    · exact hplain c hc
    · decide
  have hsum : s.utime + s.stime < 2 ^ 64 :=
    Nat.lt_of_le_of_lt (Nat.le_mul_of_pos_right _ hpos) hfits
  have hlen := s.before_length
  unfold cpuNanos
  rw [Option.bind_some, s.decode_line.1 cs hcs]
  dsimp only
  rw [s.words_line cs, hone, s.fields_eq, cpuOfFields]
  have h13 : ((toString s.pid).toList :: (['(' :: cs ++ [')']] ++
      (([s.state] :: s.before.map fun n => (toString n).toList) ++
        (toString s.utime).toList :: (toString s.stime).toList ::
          s.after.map fun n => (toString n).toList)))[13]? = some (toString s.utime).toList := by
    simp [hlen]
  have h14 : ((toString s.pid).toList :: (['(' :: cs ++ [')']] ++
      (([s.state] :: s.before.map fun n => (toString n).toList) ++
        (toString s.utime).toList :: (toString s.stime).toList ::
          s.after.map fun n => (toString n).toList)))[14]? = some (toString s.stime).toList := by
    simp [List.getElem?_append, hlen]
  rw [h13, h14, if_pos (List.getElem?_eq_some_iff.mp h14).1]
  simp only [Option.bind_some, parseU64_toString (show s.utime < 2 ^ 64 by omega),
    parseU64_toString (show s.stime < 2 ^ 64 by omega), Option.getD_some, Option.bind_eq_bind,
    checkedAdd_eq hsum, checkedMul_eq hfits]

/-- A process that has used no time but the given system time. -/
def idle (comm : List UInt8) (stime : Nat) : ProcStat where
  pid := 1
  comm := comm
  state := 'S'
  state_alpha := rfl
  before := List.replicate 10 0
  before_length := rfl
  utime := 0
  stime := stime
  after := []

theorem cpuOfFields_append {clkTck : Nat} {fields rest : List (List Char)} (h : 14 < fields.length) :
    cpuOfFields clkTck (fields ++ rest) = cpuOfFields clkTck fields := by
  have hlong : 14 < (fields ++ rest).length := by
    rw [List.length_append]
    exact Nat.lt_add_right _ h
  rw [cpuOfFields, cpuOfFields, if_pos h, if_pos hlong, List.getElem?_append_left h,
    List.getElem?_append_left (Nat.lt_of_succ_lt h)]

/-- A name of several words: the system time is not read. -/
theorem cpuNanos_idle {comm : List UInt8} {cs : List Char} (hcs : decodeUtf8 comm = some cs)
    {c : Char} (hc : c ∈ cs) (hspace : isWhitespace c = true) (clkTck : Nat) :
    cpuNanos clkTck (some (idle comm 0).line) = cpuNanos clkTck (some (idle comm 1).line) := by
  obtain ⟨a, b, rfl⟩ := List.append_of_mem hc
  obtain ⟨w, ws, hw⟩ : ∃ w ws, words isWhitespace ('(' :: a) = w :: ws :=
    List.exists_cons_of_ne_nil (words_ne_nil List.mem_cons_self (by decide))
  obtain ⟨v, vs, hv⟩ : ∃ v vs, words isWhitespace (b ++ [')']) = v :: vs :=
    List.exists_cons_of_ne_nil (words_ne_nil
      (List.mem_append_right b (List.mem_singleton.mpr rfl)) (by decide))
  have hsplit : words isWhitespace ('(' :: (a ++ c :: b) ++ [')']) = w :: ws ++ v :: vs := by
    rw [show '(' :: (a ++ c :: b) ++ [')'] = ('(' :: a) ++ c :: (b ++ [')']) by simp,
      words_append_cons hspace, hw, hv]
  -- the words up to the place of the system time
  have hline (stime : Nat) : ∃ text, decodeUtf8 (idle comm stime).line = some text ∧
      splitWhitespace text = ((toString 1).toList :: (w :: ws ++ v :: vs) ++
        (['S'] :: (List.replicate 10 (0 : Int)).map fun n => (toString n).toList) ++
          [(toString 0).toList]) ++ [(toString stime).toList] := by
    refine ⟨_, (idle comm stime).decode_line.1 _ hcs, ?_⟩
    rw [ProcStat.words_line, ProcStat.fields_eq]
    show (toString 1).toList :: (words isWhitespace ('(' :: (a ++ c :: b) ++ [')']) ++ _) = _
    rw [hsplit]
    simp [idle]
  obtain ⟨t₀, hdecode₀, hwords₀⟩ := hline 0
  obtain ⟨t₁, hdecode₁, hwords₁⟩ := hline 1
  have hlen : 14 < ((toString 1).toList :: (w :: ws ++ v :: vs) ++
      (['S'] :: (List.replicate 10 (0 : Int)).map fun n => (toString n).toList) ++
        [(toString 0).toList]).length := by
    simp
    omega
  unfold cpuNanos
  rw [Option.bind_some, Option.bind_some, hdecode₀, hdecode₁]
  dsimp only
  rw [hwords₀, hwords₁, cpuOfFields_append hlen, cpuOfFields_append hlen]

/-- **When the CPU time is right.** For every name, the time is that of the fields 14 and 15,
whatever these are, exactly if the name is one word of UTF-8. -/
theorem cpuNanos_iff (comm : List UInt8) {clkTck : Nat} (hpos : 0 < clkTck)
    (hmax : clkTck ≤ 1000000000) :
    (∀ s : ProcStat, s.comm = comm → (s.utime + s.stime) * nanosPerTick clkTck < 2 ^ 64 →
      cpuNanos clkTck (some s.line) = some ((s.utime + s.stime) * nanosPerTick clkTck)) ↔
      OneWord comm := by
  have htick : 0 < nanosPerTick clkTck := Nat.div_pos hmax hpos
  have hbound : nanosPerTick clkTck ≤ 1000000000 := Nat.div_le_self _ _
  constructor
  · intro hall
    have hone := hall (idle comm 1) rfl (by show (0 + 1) * _ < _; omega)
    have hzero := hall (idle comm 0) rfl (by show (0 + 0) * _ < _; omega)
    cases hcs : decodeUtf8 comm with
    | none =>
      have hnone : decodeUtf8 (idle comm 1).line = none := (idle comm 1).decode_line.2 hcs
      rw [cpuNanos, Option.bind_some, hnone] at hone
      have hval : 0 = (0 + 1) * nanosPerTick clkTck := Option.some.inj hone
      omega
    | some cs =>
      refine ⟨cs, hcs, fun c hc => ?_⟩
      by_contra hspace
      have hsame := cpuNanos_idle hcs hc (Bool.of_not_eq_false hspace) clkTck
      rw [hzero, hone] at hsame
      have hval : (0 + 0) * nanosPerTick clkTck = (0 + 1) * nanosPerTick clkTck :=
        Option.some.inj hsame
      omega
  · rintro hword s rfl hfits
    exact cpuNanos_of_oneWord s hword hfits htick

/-- The process `sh`, after seven ticks. -/
theorem cpuNanos_iff_sh :
    cpuNanos 100 (some (idle (encodeUtf8 "sh".toList) 7).line) = some 70000000 := by
  refine (cpuNanos_iff (encodeUtf8 "sh".toList) (by decide) (by decide)).mpr ?_ _ rfl (by decide)
  have hall : ("sh".toList.all fun c => isWhitespace c = false) = true := by decide
  refine ⟨"sh".toList, decodeUtf8_eq_some.mpr rfl, fun c hc => ?_⟩
  exact of_decide_eq_true (List.all_eq_true.mp hall c hc)

/-- **A time that is not counted**: the command `my app` has used one tick of system time. -/
theorem cpuNanos_two_words :
    ¬ ∀ s : ProcStat, (s.utime + s.stime) * nanosPerTick 100 < 2 ^ 64 →
      cpuNanos 100 (some s.line) = some ((s.utime + s.stime) * nanosPerTick 100) := by
  intro hall
  have hcs : decodeUtf8 (encodeUtf8 "my app".toList) = some "my app".toList :=
    decodeUtf8_eq_some.mpr rfl
  have hsame := cpuNanos_idle hcs (show ' ' ∈ "my app".toList by decide) (by decide) 100
  rw [hall (idle _ 0) (by decide), hall (idle _ 1) (by decide)] at hsame
  exact absurd (Option.some.inj hsame) (by decide)

end LightrCri.Fake

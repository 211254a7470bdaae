import LightrCri.Stream.Channel
import Mathlib.Tactic.IntervalCases

/-!
# Base64 round trips

The decoder of the crate shifts its accumulator and never clears it. What it does depends on the low
bits alone that are left over (`decodeFrom_eq`), and a decoder that keeps no others, `bitsFrom`,
reads the digits of three bytes after the other.
-/

namespace LightrCri.Stream

open Spdy

/-- `encode_binary`. -/
def encodeBinary (channel : UInt8) (payload : Bytes) : Bytes := channel :: payload

/-- `encode_base64`. -/
def encodeBase64 (channel : UInt8) (payload : Bytes) : String :=
  String.ofList (Char.ofNat ('0'.toUInt8 + channel).toNat :: encodeWith STD_ALPHABET true payload)

/-! ## The bits left over -/

/-- Padding and line breaks. -/
def skipped (b : UInt8) : Bool := b = '='.toUInt8 ∨ b = '\r'.toUInt8 ∨ b = '\n'.toUInt8

/-- Base64 decoding of the rest of the input, with the number `a` of `n` bits left over. -/
def bitsFrom (alphabet : List Char) (a n : Nat) : Bytes → Option Bytes
  | [] => some []
  | b :: rest =>
    if skipped b then bitsFrom alphabet a n rest
    else
      match decodeValue alphabet b with
      | none => none
      | some v =>
        if 8 ≤ n + 6 then
          (bitsFrom alphabet ((a * 64 + v.toNat) % 2 ^ (n - 2)) (n - 2) rest).map
            (UInt8.ofNat ((a * 64 + v.toNat) / 2 ^ (n - 2)) :: ·)
        else bitsFrom alphabet (a * 64 + v.toNat) (n + 6) rest

theorem decodeValue_lt {b : UInt8} {v : UInt32} (h : decodeValue STD_ALPHABET b = some v) :
    v.toNat < 64 := by
  obtain ⟨i, hi, rfl⟩ := Option.map_eq_some_iff.mp h
  obtain ⟨hlt, -⟩ := List.findIdx?_eq_some_iff_getElem.mp hi
  have hlen : STD_ALPHABET.length = 64 := by decide
  rw [UInt32.toNat_ofNat']
  omega

/-- Six bits are shifted into the accumulator. -/
theorem toNat_shiftIn (acc : UInt32) {v : UInt32} (hv : v.toNat < 64) :
    (acc <<< 6 ||| v).toNat = acc.toNat * 64 % 2 ^ 32 + v.toNat := by
  have hmod : acc.toNat * 64 % 2 ^ 32 = acc.toNat % 2 ^ 26 * 64 := by omega
  rw [UInt32.toNat_or, UInt32.toNat_shiftLeft]
  show acc.toNat <<< 6 % 2 ^ 32 ||| v.toNat = _
  rw [Nat.shiftLeft_eq, hmod, show (64 : Nat) = 2 ^ 6 from rfl, ← Nat.shiftLeft_eq,
    ← Nat.shiftLeft_add_eq_or_of_lt (by omega)]

/-- What a digit leaves over, and the byte that it completes, come from the bits left over before.
-/
theorem leftover_full {acc v n : Nat} (hn : n < 8) (hfull : 8 ≤ n + 6) :
    (acc * 64 % 2 ^ 32 + v) % 2 ^ (n - 2) = (acc % 2 ^ n * 64 + v) % 2 ^ (n - 2) ∧
      (acc * 64 % 2 ^ 32 + v) / 2 ^ (n - 2) % 256 = (acc % 2 ^ n * 64 + v) / 2 ^ (n - 2) % 256 := by
  have hle : 2 ≤ n := by omega
  interval_cases n
  all_goals norm_num
  all_goals omega

theorem leftover_short {acc v n : Nat} (hv : v < 64) (hshort : ¬ 8 ≤ n + 6) :
    (acc * 64 % 2 ^ 32 + v) % 2 ^ (n + 6) = acc % 2 ^ n * 64 + v := by
  have hlt : n < 2 := by omega
  interval_cases n
  all_goals norm_num
  all_goals omega

/-- **The stale bits do not matter.** -/
theorem decodeFrom_eq (input : Bytes) (acc : UInt32) {n : Nat} (hn : n < 8) :
    decodeFrom acc n input = bitsFrom STD_ALPHABET (acc.toNat % 2 ^ n) n input := by
  induction input generalizing acc n with
  | nil => rfl
  | cons b rest ih =>
    rw [decodeFrom, bitsFrom]
    by_cases hskip : skipped b = true
    · rw [if_pos hskip, if_pos (of_decide_eq_true hskip), ih acc hn]
    · rw [if_neg hskip, if_neg fun h => hskip (decide_eq_true h)]
      cases hv : decodeValue STD_ALPHABET b with
      | none => rfl
      | some v =>
        have hlt := decodeValue_lt hv
        have hacc := toNat_shiftIn acc hlt
        dsimp only
        by_cases hfull : 8 ≤ n + 6
        · rw [if_pos hfull, if_pos hfull, show n + 6 - 8 = n - 2 by omega, ih _ (by omega), hacc]
          obtain ⟨hleft, hbyte⟩ := leftover_full (v := v.toNat) hn hfull
          have hout : ((acc <<< 6 ||| v) >>> UInt32.ofNat (n - 2)).toUInt8 =
              UInt8.ofNat ((acc.toNat % 2 ^ n * 64 + v.toNat) / 2 ^ (n - 2)) := by
            apply UInt8.toNat_inj.mp
            rw [UInt32.toNat_toUInt8, UInt32.toNat_shiftRight, hacc, UInt8.toNat_ofNat',
              UInt32.toNat_ofNat', Nat.shiftRight_eq_div_pow,
              show (n - 2) % 2 ^ 32 % 32 = n - 2 by omega]
            exact hbyte
          rw [hleft, hout]
        · rw [if_neg hfull, if_neg hfull, ih _ (by omega), hacc, leftover_short hlt hfull]

/-! ## Digits -/

/-- The digit with the value. -/
def digitAt (alphabet : List Char) (v : Nat) : Char := alphabet.getD v 'A'

theorem digit_eq (alphabet : List Char) (n i : UInt32) (hi : i.toNat < 32) :
    digit alphabet n i = digitAt alphabet (n.toNat / 2 ^ i.toNat % 64) := by
  have hmask : (n.toNat >>> i.toNat) &&& 63 = n.toNat >>> i.toNat % 64 :=
    Nat.and_two_pow_sub_one_eq_mod _ 6
  unfold digit
  rw [UInt32.toNat_and, UInt32.toNat_shiftRight, Nat.mod_eq_of_lt hi]
  show alphabet.getD (n.toNat >>> i.toNat &&& 63) 'A' = _
  rw [hmask, Nat.shiftRight_eq_div_pow]
  rfl

/-- The digits of the alphabet are read back, and none of them is skipped. -/
structure Digits (alphabet : List Char) : Prop where
  ascii : ∀ v, v < 64 → (digitAt alphabet v).toNat < 128
  read : ∀ v, v < 64 → decodeValue alphabet (UInt8.ofNat (digitAt alphabet v).toNat) =
    some (UInt32.ofNat v)
  kept : ∀ v, v < 64 → skipped (UInt8.ofNat (digitAt alphabet v).toNat) = false

theorem digits_std : Digits STD_ALPHABET := ⟨by decide +kernel, by decide +kernel, by decide +kernel⟩

theorem digits_url : Digits URL_ALPHABET := ⟨by decide +kernel, by decide +kernel, by decide +kernel⟩

/-- The bytes of the digits. -/
def digitBytes (cs : List Char) : Bytes := cs.map fun c => UInt8.ofNat c.toNat

section

variable {alphabet : List Char} {a n v : Nat} {rest : Bytes}

theorem bitsFrom_digit (h : Digits alphabet) (hv : v < 64) :
    bitsFrom alphabet a n (UInt8.ofNat (digitAt alphabet v).toNat :: rest) =
      if 8 ≤ n + 6 then
        (bitsFrom alphabet ((a * 64 + v) % 2 ^ (n - 2)) (n - 2) rest).map
          (UInt8.ofNat ((a * 64 + v) / 2 ^ (n - 2)) :: ·)
      else bitsFrom alphabet (a * 64 + v) (n + 6) rest := by
  have htoNat : (UInt32.ofNat v).toNat = v := by
    rw [UInt32.toNat_ofNat', Nat.mod_eq_of_lt (by omega)]
  rw [bitsFrom, if_neg (by rw [h.kept v hv]; exact Bool.false_ne_true), h.read v hv]
  dsimp only
  rw [htoNat]

/-- A digit completes no byte. -/
theorem bitsFrom_first (h : Digits alphabet) (hv : v < 64) :
    bitsFrom alphabet 0 0 (UInt8.ofNat (digitAt alphabet v).toNat :: rest) =
      bitsFrom alphabet v 6 rest := by
  rw [bitsFrom_digit h hv, if_neg (by decide), Nat.zero_mul, Nat.zero_add]

/-- A digit completes a byte and leaves `m` bits over. -/
theorem bitsFrom_byte (h : Digits alphabet) (hv : v < 64) {m r : Nat} {b : UInt8}
    (hb : a * 64 + v = b.toNat * 2 ^ m + r) (hr : r < 2 ^ m) :
    bitsFrom alphabet a (m + 2) (UInt8.ofNat (digitAt alphabet v).toNat :: rest) =
      (bitsFrom alphabet r m rest).map (b :: ·) := by
  have hmod : (b.toNat * 2 ^ m + r) % 2 ^ m = r := by
    rw [Nat.mul_comm, Nat.mul_add_mod, Nat.mod_eq_of_lt hr]
  have hdiv : (b.toNat * 2 ^ m + r) / 2 ^ m = b.toNat := by
    rw [Nat.mul_comm, Nat.mul_add_div (Nat.two_pow_pos m), Nat.div_eq_of_lt hr, Nat.add_zero]
  rw [bitsFrom_digit h hv, if_pos (by omega), Nat.add_sub_cancel, hb, hmod, hdiv, UInt8.ofNat_toNat]

theorem toNat_triple (x y z : UInt8) :
    (x.toUInt32 <<< 16 ||| y.toUInt32 <<< 8 ||| z.toUInt32).toNat =
      x.toNat * 65536 + y.toNat * 256 + z.toNat := by
  have hx := x.toNat_lt
  have hy := y.toNat_lt
  have hz := z.toNat_lt
  have hhigh : (x.toUInt32 <<< 16).toNat = x.toNat <<< 16 := by
    rw [UInt32.toNat_shiftLeft, UInt8.toNat_toUInt32]
    show x.toNat <<< 16 % 2 ^ 32 = _
    rw [Nat.shiftLeft_eq]
    omega
  have hmid : (y.toUInt32 <<< 8).toNat = y.toNat <<< 8 := by
    rw [UInt32.toNat_shiftLeft, UInt8.toNat_toUInt32]
    show y.toNat <<< 8 % 2 ^ 32 = _
    rw [Nat.shiftLeft_eq]
    omega
  rw [UInt32.toNat_or, UInt32.toNat_or, hhigh, hmid, UInt8.toNat_toUInt32, Nat.lor_assoc,
    ← Nat.shiftLeft_add_eq_or_of_lt (show z.toNat < 2 ^ 8 from hz),
    ← Nat.shiftLeft_add_eq_or_of_lt (show y.toNat <<< 8 + z.toNat < 2 ^ 16 by
      rw [Nat.shiftLeft_eq]; omega), Nat.shiftLeft_eq, Nat.shiftLeft_eq]
  omega

/-- The digits of three bytes. -/
theorem digits_triple (alphabet : List Char) (x y z : UInt8) {n : UInt32}
    (hn : n = x.toUInt32 <<< 16 ||| y.toUInt32 <<< 8 ||| z.toUInt32) :
    digit alphabet n 18 = digitAt alphabet (x.toNat / 4) ∧
      digit alphabet n 12 = digitAt alphabet (x.toNat % 4 * 16 + y.toNat / 16) ∧
      digit alphabet n 6 = digitAt alphabet (y.toNat % 16 * 4 + z.toNat / 64) ∧
      digit alphabet n 0 = digitAt alphabet (z.toNat % 64) := by
  have hnat := toNat_triple x y z
  rw [← hn] at hnat
  have hx := x.toNat_lt
  have hy := y.toNat_lt
  have hz := z.toNat_lt
  refine ⟨?_, ?_, ?_, ?_⟩
  · rw [digit_eq _ _ _ (by decide)]
    exact congrArg _ (show n.toNat / 2 ^ 18 % 64 = _ by omega)
  · rw [digit_eq _ _ _ (by decide)]
    exact congrArg _ (show n.toNat / 2 ^ 12 % 64 = _ by omega)
  · rw [digit_eq _ _ _ (by decide)]
    exact congrArg _ (show n.toNat / 2 ^ 6 % 64 = _ by omega)
  · rw [digit_eq _ _ _ (by decide)]
    exact congrArg _ (show n.toNat / 2 ^ 0 % 64 = _ by omega)

theorem digitBytes_cons (c : Char) (cs : List Char) :
    digitBytes (c :: cs) = UInt8.ofNat c.toNat :: digitBytes cs := rfl

/-- **The digits of the bytes are read back.** -/
theorem bitsFrom_encodeWith (h : Digits alphabet) (pad : Bool) (input : Bytes) :
    bitsFrom alphabet 0 0 (digitBytes (encodeWith alphabet pad input)) = some input := by
  induction input using encodeWith.induct with
  | case1 x y z rest ih =>
    obtain ⟨h₀, h₁, h₂, h₃⟩ := digits_triple alphabet x y z rfl
    have hx := x.toNat_lt
    have hy := y.toNat_lt
    have hz := z.toNat_lt
    rw [encodeWith, h₀, h₁, h₂, h₃, digitBytes_cons, digitBytes_cons, digitBytes_cons, digitBytes_cons,
      bitsFrom_first h (by omega),
      bitsFrom_byte h (b := x) (m := 4) (r := y.toNat / 16) (by omega) (by omega) (by omega),
      bitsFrom_byte h (b := y) (m := 2) (r := z.toNat / 64) (by omega) (by omega) (by omega),
      bitsFrom_byte h (b := z) (m := 0) (r := 0) (by omega) (by omega) (by omega), ih]
    rfl
  | case2 x y =>
    obtain ⟨h₀, h₁, h₂, -⟩ := digits_triple alphabet x y 0
      (n := x.toUInt32 <<< 16 ||| y.toUInt32 <<< 8) UInt32.or_zero.symm
    have hx := x.toNat_lt
    have hy := y.toNat_lt
    have htail : bitsFrom alphabet 0 2 (digitBytes (if pad then ['='] else [])) = some [] := by
      cases pad <;> rfl
    rw [encodeWith, h₀, h₁, h₂, List.cons_append, List.cons_append, List.cons_append, List.nil_append,
      digitBytes_cons, digitBytes_cons, digitBytes_cons, bitsFrom_first h (by omega),
      bitsFrom_byte h (b := x) (m := 4) (r := y.toNat / 16) (by omega) (by omega) (by omega),
      bitsFrom_byte h (b := y) (m := 2) (r := 0) (by simp; omega) (by simp; omega) (by omega), htail]
    rfl
  | case3 x =>
    obtain ⟨h₀, h₁, -⟩ := digits_triple alphabet x 0 0 (n := x.toUInt32 <<< 16) (by simp)
    have hx := x.toNat_lt
    have htail : bitsFrom alphabet 0 4 (digitBytes (if pad then ['=', '='] else [])) = some [] := by
      cases pad <;> rfl
    rw [encodeWith, h₀, h₁, List.cons_append, List.cons_append, List.nil_append, digitBytes_cons,
      digitBytes_cons, bitsFrom_first h (by omega),
      bitsFrom_byte h (b := x) (m := 4) (r := 0) (by simp; omega) (by simp; omega) (by omega), htail]
    rfl
  | case4 => rfl

theorem ascii_digit (h : Digits alphabet) (n i : UInt32) (hi : i.toNat < 32) :
    (digit alphabet n i).toNat < 128 := by
  rw [digit_eq _ _ _ hi]
  exact h.ascii _ (Nat.mod_lt _ (by decide))

theorem ascii_padding {pad : Bool} {chars : List Char} (hchars : ∀ c ∈ chars, c = '=') :
    ∀ c ∈ (if pad then chars else []), c.toNat < 128 := by
  intro c hc
  cases pad with
  | false => exact absurd hc List.not_mem_nil
  | true =>
    rw [hchars c hc]
    decide

theorem ascii_encodeWith (h : Digits alphabet) (pad : Bool) (input : Bytes) :
    ∀ c ∈ encodeWith alphabet pad input, c.toNat < 128 := by
  have hdigit (n i : UInt32) (hi : i.toNat < 32) := ascii_digit h n i hi
  induction input using encodeWith.induct with
  | case1 x y z rest ih =>
    rw [encodeWith]
    simp only [List.forall_mem_cons]
    exact ⟨hdigit _ _ (by decide), hdigit _ _ (by decide), hdigit _ _ (by decide),
      hdigit _ _ (by decide), ih⟩
  | case2 x y =>
    rw [encodeWith]
    simp only [List.cons_append, List.nil_append, List.forall_mem_cons]
    refine ⟨hdigit _ _ (by decide), hdigit _ _ (by decide), hdigit _ _ (by decide), ?_⟩
    exact ascii_padding (by simp)
  | case3 x =>
    rw [encodeWith]
    simp only [List.cons_append, List.nil_append, List.forall_mem_cons]
    refine ⟨hdigit _ _ (by decide), hdigit _ _ (by decide), ?_⟩
    exact ascii_padding (by simp)
  | case4 => exact fun c hc => absurd hc List.not_mem_nil

theorem utf8_encodeWith (h : Digits alphabet) (pad : Bool) (input : Bytes) :
    utf8 (String.ofList (encodeWith alphabet pad input)) =
      digitBytes (encodeWith alphabet pad input) :=
  utf8_ascii (ascii_encodeWith h pad input)

end

/-! ## The round trips -/

/-- Padding and line breaks are inserted into a text. -/
inductive Inserted : Bytes → Bytes → Prop
  | nil : Inserted [] []
  | keep {text input : Bytes} (b : UInt8) (h : Inserted text input) :
    Inserted (b :: text) (b :: input)
  | insert {text input : Bytes} {b : UInt8}
    (hb : b = '='.toUInt8 ∨ b = '\r'.toUInt8 ∨ b = '\n'.toUInt8) (h : Inserted text input) :
    Inserted text (b :: input)

theorem Inserted.refl (text : Bytes) : Inserted text text := by
  induction text with
  | nil => exact .nil
  | cons b text ih => exact .keep b ih

theorem bitsFrom_inserted {alphabet : List Char} {text input : Bytes} (h : Inserted text input)
    (a n : Nat) : bitsFrom alphabet a n input = bitsFrom alphabet a n text := by
  induction h generalizing a n with
  | nil => rfl
  | keep b h ih => simp only [bitsFrom, ih]
  | insert hb h ih =>
    have hskip : skipped _ = true := decide_eq_true hb
    rw [bitsFrom, if_pos hskip]
    exact ih a n

theorem decodeStd_inserted {input x : Bytes} (h : Inserted (utf8 (encodeStd x)) input) :
    decodeStd input = some x := by
  rw [encodeStd, utf8_encodeWith digits_std] at h
  rw [decodeStd, decodeFrom_eq input 0 (by decide)]
  show bitsFrom STD_ALPHABET 0 0 input = _
  rw [bitsFrom_inserted h, bitsFrom_encodeWith digits_std]

/-- The character of a channel. -/
theorem channel_digit {channel : UInt8} (h : channel ≤ 9) :
    (Char.ofNat ('0'.toUInt8 + channel).toNat).toNat = ('0'.toUInt8 + channel).toNat ∧
      ('0'.toUInt8 + channel).toNat = 48 + channel.toNat := by
  have hchannel : channel.toNat ≤ 9 := h
  have hcode : ('0'.toUInt8 + channel).toNat = 48 + channel.toNat := by
    rw [UInt8.toNat_add]
    show (48 + channel.toNat) % 2 ^ 8 = _
    omega
  have hall : ∀ n, n < 10 → (Char.ofNat (48 + n)).toNat = 48 + n := by decide
  exact ⟨by rw [hcode, hall _ (by omega)], hcode⟩

theorem decodeBase64_encodeBase64 {channel : UInt8} (h : channel ≤ 9) (payload : Bytes) :
    decodeBase64 (utf8 (encodeBase64 channel payload)) = some (channel, payload) := by
  obtain ⟨hchar, hcode⟩ := channel_digit h
  have hchannel : channel.toNat ≤ 9 := h
  have hascii : ∀ c ∈ Char.ofNat ('0'.toUInt8 + channel).toNat ::
      encodeWith STD_ALPHABET true payload, c.toNat < 128 :=
    List.forall_mem_cons.mpr ⟨by omega, ascii_encodeWith digits_std true payload⟩
  have hpayload : decodeStd (digitBytes (encodeWith STD_ALPHABET true payload)) = some payload := by
    rw [← utf8_encodeWith digits_std]
    exact decodeStd_inserted (.refl _)
  have hlow : '0'.toUInt8 ≤ '0'.toUInt8 + channel := by
    show 48 ≤ ('0'.toUInt8 + channel).toNat
    omega
  have hhigh : '0'.toUInt8 + channel ≤ '9'.toUInt8 := by
    show ('0'.toUInt8 + channel).toNat ≤ 57
    omega
  have hback : '0'.toUInt8 + channel - '0'.toUInt8 = channel := by
    rw [UInt8.add_comm, UInt8.add_sub_cancel]
  rw [encodeBase64, utf8_ascii hascii, List.map_cons, hchar, UInt8.ofNat_toNat, decodeBase64,
    if_pos ⟨hlow, hhigh⟩, hback]
  exact congrArg (Option.map _) hpayload

theorem encodeUrlNopad_injective : Function.Injective encodeUrlNopad := by
  intro x y hxy
  have hread (x : Bytes) : bitsFrom URL_ALPHABET 0 0 (utf8 (encodeUrlNopad x)) = some x := by
    rw [encodeUrlNopad, utf8_encodeWith digits_url, bitsFrom_encodeWith digits_url]
  have h := hread x
  rw [hxy, hread y] at h
  exact (Option.some.inj h).symm

/-- **The round trips of the channel framing.** -/
theorem base64_round_trip :
    (∀ x : Bytes, decodeStd (utf8 (encodeStd x)) = some x) ∧
    (∀ x input : Bytes, Inserted (utf8 (encodeStd x)) input → decodeStd input = some x) ∧
    (∀ (channel : UInt8) (payload : Bytes), channel ≤ 9 →
      decodeBase64 (utf8 (encodeBase64 channel payload)) = some (channel, payload)) ∧
    (∀ (channel : UInt8) (payload : Bytes),
      decodeBinary (encodeBinary channel payload) = some (channel, payload)) ∧
    Function.Injective encodeUrlNopad :=
  ⟨fun _ => decodeStd_inserted (.refl _), fun _ _ => decodeStd_inserted,
    fun _ payload h => decodeBase64_encodeBase64 h payload, fun _ _ => rfl,
    encodeUrlNopad_injective⟩

end LightrCri.Stream

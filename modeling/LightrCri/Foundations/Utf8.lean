import Mathlib.Data.List.Basic

/-!
# UTF-8

The decoding of bytes (`decodeUtf8`), which is defined where they are the encoding of a text
(`decodeUtf8_eq_some`). An ASCII byte stands for itself and is no part of another character, so that
what is before and behind one is decoded on its own (`encode_eq_append_cons`).
-/

namespace LightrCri.Foundations

/-- `String::from_utf8`. -/
def decodeUtf8 (bs : List UInt8) : Option (List Char) :=
  (String.fromUTF8? ⟨bs.toArray⟩).map String.toList

/-- The bytes of a text. -/
def encodeUtf8 (cs : List Char) : List UInt8 := cs.flatMap String.utf8EncodeChar

theorem decodeUtf8_eq_some {bs : List UInt8} {cs : List Char} :
    decodeUtf8 bs = some cs ↔ encodeUtf8 cs = bs := by
  unfold decodeUtf8 String.fromUTF8?
  have hbytes : ∀ l : List Char, l.utf8Encode = ⟨bs.toArray⟩ ↔ encodeUtf8 l = bs := by
    intro l
    rw [List.utf8Encode, encodeUtf8, ByteArray.ext_iff]
    simp
  split
  · rename_i hvalid
    have hself := String.utf8Encode_toList (b := String.fromUTF8 ⟨bs.toArray⟩ hvalid)
    rw [Option.map_some, Option.some_inj]
    constructor
    · rintro rfl
      exact (hbytes _).mp hself
    · intro henc
      have hsame : (String.ofList cs).toByteArray =
          (String.fromUTF8 ⟨bs.toArray⟩ hvalid).toByteArray := by
        rw [String.toByteArray_ofList]
        exact (hbytes cs).mpr henc
      rw [← String.toByteArray_inj.mp hsame, String.toList_ofList]
  · rename_i hvalid
    refine iff_of_false (by simp) fun henc => hvalid ?_
    exact ⟨cs, ((hbytes cs).mpr henc).symm⟩

@[simp] theorem encodeUtf8_nil : encodeUtf8 [] = [] := rfl

theorem encodeUtf8_cons (c : Char) (cs : List Char) :
    encodeUtf8 (c :: cs) = String.utf8EncodeChar c ++ encodeUtf8 cs := rfl

theorem encodeUtf8_append (a b : List Char) : encodeUtf8 (a ++ b) = encodeUtf8 a ++ encodeUtf8 b :=
  List.flatMap_append

/-- A character is one byte below 128, or none of its bytes is. -/
theorem utf8EncodeChar_cases (c : Char) :
    (∃ b : UInt8, b.toNat = c.toNat ∧ b < 128 ∧ String.utf8EncodeChar c = [b]) ∨
      ∀ b ∈ String.utf8EncodeChar c, ¬ b < 128 := by
  have hval : c.val.toNat = c.toNat := rfl
  unfold String.utf8EncodeChar
  dsimp only
  split
  · rename_i hle
    refine .inl ⟨UInt8.ofNat c.toNat, ?_, ?_, rfl⟩
    · rw [UInt8.toNat_ofNat']
      omega
    · rw [UInt8.lt_iff_toNat_lt, UInt8.toNat_ofNat']
      have : (128 : UInt8).toNat = 128 := rfl
      omega
  · right
    have hlead {n : Nat} (hn : n < 256) (h128 : 128 ≤ n) : ¬ UInt8.ofNat n < 128 := by
      rw [UInt8.lt_iff_toNat_lt, UInt8.toNat_ofNat']
      have : (128 : UInt8).toNat = 128 := rfl
      omega
    split
    · simp only [List.forall_mem_cons, List.not_mem_nil, false_implies, implies_true, and_true]
      exact ⟨hlead (by omega) (by omega), hlead (by omega) (by omega)⟩
    · split
      · simp only [List.forall_mem_cons, List.not_mem_nil, false_implies, implies_true, and_true]
        exact ⟨hlead (by omega) (by omega), hlead (by omega) (by omega), hlead (by omega) (by omega)⟩
      · simp only [List.forall_mem_cons, List.not_mem_nil, false_implies, implies_true, and_true]
        exact ⟨hlead (by omega) (by omega), hlead (by omega) (by omega), hlead (by omega) (by omega),
          hlead (by omega) (by omega)⟩

/-- **What is before and behind an ASCII byte is encoded on its own.** -/
theorem encode_eq_append_cons {cs : List Char} {xs ys : List UInt8} {b : UInt8} (hb : b < 128)
    (h : encodeUtf8 cs = xs ++ b :: ys) :
    ∃ l c r, cs = l ++ c :: r ∧ encodeUtf8 l = xs ∧ c.toNat = b.toNat ∧ encodeUtf8 r = ys := by
  induction cs generalizing xs with
  | nil => exact absurd h.symm (by simp)
  | cons d cs ih =>
    rw [encodeUtf8_cons] at h
    rcases List.append_eq_append_iff.mp h with ⟨t, hxs, hrest⟩ | ⟨t, hd, hrest⟩
    · obtain ⟨l, c, r, rfl, hl, hc, hr⟩ := ih hrest
      refine ⟨d :: l, c, r, rfl, ?_, hc, hr⟩
      rw [encodeUtf8_cons, hl, hxs]
    · cases t with
      | nil =>
        rw [List.append_nil] at hd
        have hcs : encodeUtf8 cs = [] ++ b :: ys := hrest.symm
        obtain ⟨l, c, r, rfl, hl, hc, hr⟩ := ih hcs
        refine ⟨d :: l, c, r, rfl, ?_, hc, hr⟩
        rw [encodeUtf8_cons, hl, hd, List.append_nil]
      | cons b' t =>
        obtain ⟨rfl, hys⟩ := List.cons.inj hrest
        have hmem : b ∈ String.utf8EncodeChar d := by
          rw [hd]
          exact List.mem_append_right _ List.mem_cons_self
        rcases utf8EncodeChar_cases d with ⟨b', hval, -, henc⟩ | hhigh
        · rw [henc] at hmem hd
          obtain rfl := List.mem_singleton.mp hmem
          have hlen := congrArg List.length hd
          simp only [List.length_append, List.length_cons, List.length_nil] at hlen
          obtain rfl : xs = [] := List.eq_nil_of_length_eq_zero (by omega)
          obtain rfl : t = [] := List.eq_nil_of_length_eq_zero (by omega)
          exact ⟨[], d, cs, rfl, rfl, hval.symm, hys.symm⟩
        · exact absurd hb (hhigh b hmem)

end LightrCri.Foundations

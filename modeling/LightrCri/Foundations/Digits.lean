import Mathlib.Algebra.Group.Nat.Defs
import Mathlib.Data.List.Basic

/-!
# The first digits of a number

* `leading b k n`: the number that the first `k` digits of `n` to the base `b` stand for; two
  numbers have the same first `k` digits exactly if it is the same of both (`take_toDigits_eq_iff`).
* `take_append_cons_eq_iff`: when two texts with a separator agree in their first characters, the
  separator being among these.
-/

namespace LightrCri.Foundations

/-! ## Digits -/

def leading (b k n : Nat) : Nat := n / b ^ ((Nat.toDigits b n).length - k)

theorem toDigits_injective {b : Nat} (hb : 1 < b) (hten : b ≤ 10) {m n : Nat}
    (h : Nat.toDigits b m = Nat.toDigits b n) : m = n := by
  have hread := congrArg (fun l => Nat.ofDigitChars b l 0) h
  rwa [Nat.ofDigitChars_toDigits hb hten, Nat.ofDigitChars_toDigits hb hten] at hread

theorem take_toDigits {b : Nat} (hb : 1 < b) {k : Nat} (hk : 0 < k) (n : Nat) :
    (Nat.toDigits b n).take k = Nat.toDigits b (leading b k n) := by
  induction n using Nat.strongRecOn with
  | _ n ih =>
    by_cases hle : (Nat.toDigits b n).length ≤ k
    · rw [List.take_of_length_le hle, leading, Nat.sub_eq_zero_of_le hle, Nat.pow_zero, Nat.div_one]
    · have hge : b ≤ n := by
        by_contra hlt
        rw [Nat.toDigits_of_lt_base (by omega), List.length_singleton] at hle
        omega
      have hsplit := Nat.toDigits_of_base_le hb hge
      have hlen : (Nat.toDigits b n).length = (Nat.toDigits b (n / b)).length + 1 := by
        rw [hsplit, List.length_append, List.length_singleton]
      have hfewer : k ≤ (Nat.toDigits b (n / b)).length := by omega
      have hleading : leading b k n = leading b k (n / b) := by
        rw [leading, leading, Nat.div_div_eq_div_mul, ← Nat.pow_succ', hlen, Nat.succ_sub hfewer]
      rw [hleading, hsplit, List.take_append_of_le_length hfewer]
      exact ih _ (Nat.div_lt_self (by omega) hb)

theorem leading_zero {b : Nat} (hb : 1 < b) (n : Nat) : leading b 0 n = 0 :=
  Nat.div_eq_of_lt ((Nat.length_toDigits_le_iff hb Nat.length_toDigits_pos).mp (Nat.le_refl _))

theorem take_toDigits_eq_iff {b : Nat} (hb : 1 < b) (hten : b ≤ 10) {k m n : Nat} :
    (Nat.toDigits b m).take k = (Nat.toDigits b n).take k ↔ leading b k m = leading b k n := by
  rcases Nat.eq_zero_or_pos k with rfl | hk
  · simp only [List.take_zero, leading_zero hb]
  · rw [take_toDigits hb hk, take_toDigits hb hk]
    exact ⟨toDigits_injective hb hten, congrArg _⟩

/-! ## Separators -/

theorem take_append_cons_eq_iff {α : Type*} {x : α} {a a' b b' : List α} {k : Nat} (ha : x ∉ a)
    (ha' : x ∉ a') (hk : a.length < k) (hk' : a'.length < k) :
    (a ++ x :: b).take k = (a' ++ x :: b').take k ↔
      a = a' ∧ b.take (k - a.length - 1) = b'.take (k - a.length - 1) := by
  induction a generalizing a' k with
  | nil =>
    cases a' with
    | nil =>
      cases k with
      | zero => exact absurd hk (Nat.lt_irrefl 0)
      | succ k => simp
    | cons y a' =>
      cases k with
      | zero => exact absurd hk (Nat.lt_irrefl 0)
      | succ k =>
        refine iff_of_false (fun heq => ha' ?_) fun heq => List.cons_ne_nil _ _ heq.1.symm
        rw [(List.cons.inj heq).1]
        exact List.mem_cons_self
  | cons y a ih =>
    cases k with
    | zero => exact absurd hk (Nat.not_lt_zero _)
    | succ k =>
      cases a' with
      | nil =>
        refine iff_of_false (fun heq => ha ?_) fun heq => List.cons_ne_nil _ _ heq.1
        rw [← (List.cons.inj heq).1]
        exact List.mem_cons_self
      | cons y' a' =>
        have hrest := @ih a' k (List.not_mem_of_not_mem_cons ha) (List.not_mem_of_not_mem_cons ha')
          (Nat.lt_of_succ_lt_succ hk) (Nat.lt_of_succ_lt_succ hk')
        rw [List.cons_append, List.cons_append, List.take_succ_cons, List.take_succ_cons,
          List.cons.injEq, List.cons.injEq, hrest, and_assoc, List.length_cons, Nat.succ_sub_succ]

end LightrCri.Foundations

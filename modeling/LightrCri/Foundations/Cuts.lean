import Mathlib.Data.List.Induction

/-!
# Objects in a stream that is cut into chunks

Objects are written one after the other, each as `enc` writes it, and arrive in chunks that need not
end where objects do. `complete enc xs n` are the objects that are complete in the first `n`
elements, and `Between enc xs n` says that this place is inside no object.

A parser without memory (`Parses`) finds the objects of a chunk only when the chunk begins between
two objects (`Parses.chunk_between`), and none otherwise (`Parses.chunk_inside`). `Parses.seen_iff`:
when the last object that it has found is the last that is complete, after every chunk.
-/

namespace LightrCri.Foundations

variable {α β : Type*}

section

variable (enc : α → List β)

/-- The objects that are complete in the first `n` elements. -/
def complete : List α → ℕ → List α
  | [], _ => []
  | x :: xs, n => if (enc x).length ≤ n then x :: complete xs (n - (enc x).length) else []

/-- The place is before, between or behind the objects. -/
def Between (xs : List α) (n : ℕ) : Prop := ((complete enc xs n).flatMap enc).length = n

/-- A parser of objects, which stops where it finds none. -/
structure Parses (parse : List β → List α) : Prop where
  nil : parse [] = []
  object : ∀ x rest, parse (enc x ++ rest) = x :: parse rest
  incomplete : ∀ x p, p <+: enc x → p ≠ enc x → parse p = []
  /-- An object begins with none of the elements that are further behind in one. -/
  inside : ∀ x, ∀ b ∈ (enc x).tail, ∀ rest, parse (b :: rest) = []

end

/-- The last object that was found in the chunks. -/
def seen (parse : List β → List α) (cs : List (List β)) : Option α :=
  cs.foldl (fun last c => (parse c).getLast?.or last) none

variable {enc : α → List β} {parse : List β → List α}

theorem seen_append (cs : List (List β)) (c : List β) :
    seen parse (cs ++ [c]) = (parse c).getLast?.or (seen parse cs) := by
  rw [seen, List.foldl_append]
  rfl

/-! ## Places -/

theorem complete_append (xs ys : List α) (n : ℕ) :
    complete enc (xs ++ ys) ((xs.flatMap enc).length + n) = xs ++ complete enc ys n := by
  induction xs with
  | nil =>
    rw [List.flatMap_nil, List.length_nil, Nat.zero_add]
    rfl
  | cons x xs ih =>
    have hle : (enc x).length ≤ ((x :: xs).flatMap enc).length + n := by
      rw [List.flatMap_cons, List.length_append]
      omega
    have hrest : ((x :: xs).flatMap enc).length + n - (enc x).length = (xs.flatMap enc).length + n := by
      rw [List.flatMap_cons, List.length_append]
      omega
    rw [List.cons_append, complete, if_pos hle, hrest, ih]
    rfl

/-- The objects are the complete ones, then one that the place is inside of, and the rest. -/
theorem place_cases (xs : List α) {n : ℕ} (hn : n ≤ (xs.flatMap enc).length) :
    (Between enc xs n ∧ ∃ ys, xs = complete enc xs n ++ ys) ∨
      (¬ Between enc xs n ∧ ∃ x ys, xs = complete enc xs n ++ x :: ys ∧
        ((complete enc xs n).flatMap enc).length < n ∧
        n < ((complete enc xs n).flatMap enc).length + (enc x).length) := by
  induction xs generalizing n with
  | nil =>
    obtain rfl : n = 0 := Nat.le_zero.mp hn
    exact .inl ⟨rfl, [], rfl⟩
  | cons x xs ih =>
    by_cases hle : (enc x).length ≤ n
    · have hcomplete : complete enc (x :: xs) n = x :: complete enc xs (n - (enc x).length) := if_pos hle
      rw [List.flatMap_cons, List.length_append] at hn
      have hbetween : Between enc (x :: xs) n ↔ Between enc xs (n - (enc x).length) := by
        unfold Between
        rw [hcomplete, List.flatMap_cons, List.length_append]
        omega
      rw [hbetween, hcomplete]
      rcases @ih (n - (enc x).length) (by omega) with ⟨hb, ys, hys⟩ | ⟨hb, y, ys, hys, hlt, hgt⟩
      · exact .inl ⟨hb, ys, congrArg _ hys⟩
      · refine .inr ⟨hb, y, ys, congrArg _ hys, ?_, ?_⟩
        · rw [List.flatMap_cons, List.length_append]
          omega
        · rw [List.flatMap_cons, List.length_append]
          omega
    · have hcomplete : complete enc (x :: xs) n = [] := if_neg hle
      have hbetween : Between enc (x :: xs) n ↔ n = 0 := by
        unfold Between
        rw [hcomplete]
        exact eq_comm
      rw [hbetween, hcomplete]
      by_cases hzero : n = 0
      · exact .inl ⟨hzero, x :: xs, rfl⟩
      · refine .inr ⟨hzero, x, xs, rfl, Nat.pos_of_ne_zero hzero, ?_⟩
        rw [List.flatMap_nil, List.length_nil]
        omega

theorem complete_zero (hne : ∀ x, enc x ≠ []) (xs : List α) : complete enc xs 0 = [] := by
  cases xs with
  | nil => rfl
  | cons x xs => exact if_neg fun hle => hne x (List.length_eq_zero_iff.mp (Nat.le_zero.mp hle))

theorem between_append (hne : ∀ x, enc x ≠ []) (xs ys : List α) :
    Between enc (xs ++ ys) (xs.flatMap enc).length := by
  have happend := @complete_append _ _ enc xs ys 0
  rw [Nat.add_zero, complete_zero hne, List.append_nil] at happend
  rw [Between, happend]

namespace Parses

/-! ## Chunks -/

theorem chunk (h : Parses enc parse) {xs : List α} {c : List β} (hc : c <+: xs.flatMap enc) :
    parse c = complete enc xs c.length := by
  induction xs generalizing c with
  | nil =>
    obtain rfl := List.prefix_nil.mp hc
    exact h.nil
  | cons x xs ih =>
    rw [List.flatMap_cons] at hc
    by_cases hle : (enc x).length ≤ c.length
    · obtain ⟨c', rfl⟩ := List.prefix_of_prefix_length_le (List.prefix_append _ _) hc hle
      rw [h.object, complete, if_pos hle, List.length_append, Nat.add_sub_cancel_left,
        ih ((List.prefix_append_right_inj _).mp hc)]
    · have hpre : c <+: enc x :=
        List.prefix_of_prefix_length_le hc (List.prefix_append _ _) (by omega)
      rw [complete, if_neg hle]
      exact h.incomplete x c hpre fun heq => hle (Nat.le_of_eq (congrArg List.length heq.symm))

/-- A chunk that begins between two objects. -/
theorem chunk_between (h : Parses enc parse) {xs : List α} {a c : List β}
    (hstream : a ++ c <+: xs.flatMap enc) (hb : Between enc xs a.length) :
    complete enc xs (a ++ c).length = complete enc xs a.length ++ parse c := by
  have ha : a <+: xs.flatMap enc := (List.prefix_append a c).trans hstream
  rcases place_cases xs ha.length_le with ⟨-, ys, hys⟩ | ⟨hnot, -⟩
  · unfold Between at hb
    generalize complete enc xs a.length = done at hb hys ⊢
    subst hys
    rw [List.flatMap_append] at ha hstream
    obtain rfl : done.flatMap enc = a :=
      (List.prefix_of_prefix_length_le (List.prefix_append _ _) ha (Nat.le_of_eq hb)).eq_of_length hb
    rw [List.length_append, complete_append, h.chunk ((List.prefix_append_right_inj _).mp hstream)]
  · exact absurd hb hnot

/-- A chunk that begins inside an object. -/
theorem chunk_inside (h : Parses enc parse) {xs : List α} {a c : List β}
    (hstream : a ++ c <+: xs.flatMap enc) (hb : ¬ Between enc xs a.length) : parse c = [] := by
  have ha : a <+: xs.flatMap enc := (List.prefix_append a c).trans hstream
  rcases place_cases xs ha.length_le with ⟨hbetween, -⟩ | ⟨-, x, ys, hys, hlt, hgt⟩
  · exact absurd hbetween hb
  · cases c with
    | nil => exact h.nil
    | cons b c =>
      generalize complete enc xs a.length = done at hys hlt hgt
      subst hys
      rw [List.flatMap_append, List.flatMap_cons, ← List.append_assoc] at ha hstream
      obtain ⟨front, rfl⟩ : done.flatMap enc <+: a := by
        refine List.prefix_of_prefix_length_le ?_ ha (Nat.le_of_lt hlt)
        exact (List.prefix_append _ _).trans (List.prefix_append _ _)
      obtain ⟨back, hback⟩ : done.flatMap enc ++ front <+: done.flatMap enc ++ enc x := by
        refine List.prefix_of_prefix_length_le ha (List.prefix_append _ _) ?_
        rw [@List.length_append _ (done.flatMap enc) (enc x)]
        exact Nat.le_of_lt hgt
      rw [List.append_assoc, List.append_right_inj] at hback
      have hfront : front ≠ [] := by
        rintro rfl
        rw [List.append_nil] at hlt
        exact Nat.lt_irrefl _ hlt
      have hnonempty : back ≠ [] := by
        rintro rfl
        rw [← hback, List.append_nil, List.length_append] at hgt
        exact Nat.lt_irrefl _ hgt
      obtain ⟨b', back, rfl⟩ := List.exists_cons_of_ne_nil hnonempty
      rw [← hback, List.append_assoc, List.append_assoc, List.append_assoc, List.prefix_append_right_inj,
        List.prefix_append_right_inj, List.cons_append] at hstream
      obtain ⟨rfl, -⟩ := List.cons_prefix_cons.mp hstream
      refine h.inside x b ?_ c
      rw [← hback, List.tail_append_of_ne_nil hfront]
      exact List.mem_append_right _ List.mem_cons_self

/-! ## What was seen -/

/-- **The last object seen is the last that is complete**, after every chunk, exactly if no chunk
that begins inside an object makes another one the last that is complete. -/
theorem seen_iff (h : Parses enc parse) (hne : ∀ x, enc x ≠ []) {xs : List α} {cs : List (List β)}
    (hstream : cs.flatten <+: xs.flatMap enc) :
    (∀ cs', cs' <+: cs → seen parse cs' = (complete enc xs cs'.flatten.length).getLast?) ↔
      ∀ cs' c, cs' ++ [c] <+: cs → ¬ Between enc xs cs'.flatten.length →
        (complete enc xs (cs' ++ [c]).flatten.length).getLast? =
          (complete enc xs cs'.flatten.length).getLast? := by
  have hpart {cs' : List (List β)} {c : List β} (hcs : cs' ++ [c] <+: cs) :
      cs'.flatten ++ c <+: xs.flatMap enc := by
    obtain ⟨rest, rfl⟩ := hcs
    rw [List.flatten_append, List.flatten_concat] at hstream
    exact (List.prefix_append _ _).trans hstream
  constructor
  · intro hall cs' c hcs hnot
    have hfirst := hall cs' ((List.prefix_append cs' [c]).trans hcs)
    have hthen := hall _ hcs
    rw [seen_append, h.chunk_inside (hpart hcs) hnot, List.getLast?_nil, Option.none_or] at hthen
    exact hthen.symm.trans hfirst
  · intro hcond cs' hcs
    induction cs' using List.reverseRecOn with
    | nil =>
      rw [List.flatten_nil, List.length_nil, complete_zero hne]
      rfl
    | append_singleton cs' c ih =>
      have hfirst := ih ((List.prefix_append cs' [c]).trans hcs)
      rw [seen_append, hfirst]
      by_cases hb : Between enc xs cs'.flatten.length
      · rw [List.flatten_concat, h.chunk_between (hpart hcs) hb, List.getLast?_append]
      · rw [hcond cs' c hcs hb, h.chunk_inside (hpart hcs) hb]
        rfl

end Parses

end LightrCri.Foundations

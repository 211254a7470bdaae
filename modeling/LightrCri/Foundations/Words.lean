import Mathlib.Data.List.Basic

/-!
# Words

The words of a list are the non-empty stretches between the elements that separate. They are taken
apart at a separator (`words_append_cons`), and a list without one is a word (`words_of_notSep`).
-/

namespace LightrCri.Foundations

variable {α : Type*} {sep : α → Bool}

def words (sep : α → Bool) (xs : List α) : List (List α) :=
  (xs.splitOnP sep).filter fun w => !w.isEmpty

theorem words_append_cons {s : α} (hs : sep s = true) (xs ys : List α) :
    words sep (xs ++ s :: ys) = words sep xs ++ words sep ys := by
  rw [words, List.splitOnP_append_cons xs ys hs, List.filter_append]
  rfl

theorem words_of_notSep {xs : List α} (h : ∀ x ∈ xs, sep x = false) (hne : xs ≠ []) :
    words sep xs = [xs] := by
  rw [words, List.splitOnP_eq_singleton h]
  simp [hne]

@[simp] theorem words_nil : words sep [] = [] := rfl

/-- Where something does not separate there is a word. -/
theorem words_ne_nil {xs : List α} {x : α} (hx : x ∈ xs) (h : sep x = false) :
    words sep xs ≠ [] := by
  induction hn : xs.length using Nat.strongRecOn generalizing xs with
  | _ n ih =>
    by_cases hall : ∀ y ∈ xs, sep y = false
    · rw [words_of_notSep hall (List.ne_nil_of_mem hx)]
      exact List.cons_ne_nil xs []
    · push Not at hall
      obtain ⟨s, hs, hsep⟩ := hall
      have hsep : sep s = true := Bool.of_not_eq_false hsep
      obtain ⟨a, b, rfl⟩ := List.append_of_mem hs
      rw [words_append_cons hsep]
      rw [List.length_append, List.length_cons] at hn
      have hmem : x ∈ a ∨ x ∈ b := by
        rcases List.mem_append.mp hx with ha | hb
        · exact .inl ha
        · rcases List.mem_cons.mp hb with rfl | hb
          · rw [h] at hsep
            cases hsep
          · exact .inr hb
      intro hnil
      obtain ⟨hleft, hright⟩ := List.append_eq_nil_iff.mp hnil
      rcases hmem with ha | hb
      · exact ih a.length (by omega) ha rfl hleft
      · exact ih b.length (by omega) hb rfl hright

/-- A word between two separators, at the end of one list and the start of another. -/
theorem words_cons_word {w xs : List α} {s : α} (hw : ∀ x ∈ w, sep x = false) (hne : w ≠ [])
    (hs : sep s = true) : words sep (w ++ s :: xs) = w :: words sep xs := by
  rw [words_append_cons hs, words_of_notSep hw hne]
  rfl

end LightrCri.Foundations

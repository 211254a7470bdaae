import Mathlib.Data.List.Basic

/-!
# Lines of a stream

A stream of elements is cut into lines after every `sep`; what follows the last one is not yet a
line. The rules say how the lines of a stream grow with it (`lines_append`), so that a program that
takes line after line off a buffer, to which the stream is appended in chunks of any size, has taken
the lines of the stream (`lines_of_cut`, `lines_of_notMem`).
-/

namespace LightrCri.Foundations

variable {α : Type*} [DecidableEq α] (sep : α)

/-- The lines of a list, each with its separator, and what follows the last separator. -/
def splitLines : List α → List (List α) × List α
  | [] => ([], [])
  | x :: xs =>
    if x = sep then ([x] :: (splitLines xs).1, (splitLines xs).2)
    else
      match splitLines xs with
      | ([], rest) => ([], x :: rest)
      | (l :: ls, rest) => ((x :: l) :: ls, rest)

def lines (xs : List α) : List (List α) := (splitLines sep xs).1

/-- What follows the last separator. -/
def unterminated (xs : List α) : List α := (splitLines sep xs).2

@[simp] theorem lines_nil : lines sep ([] : List α) = [] := rfl

@[simp] theorem unterminated_nil : unterminated sep ([] : List α) = [] := rfl

theorem lines_cons_sep (xs : List α) : lines sep (sep :: xs) = [sep] :: lines sep xs := by
  simp [lines, splitLines]

theorem unterminated_cons_sep (xs : List α) :
    unterminated sep (sep :: xs) = unterminated sep xs := by
  simp [unterminated, splitLines]

variable {sep}

theorem lines_cons_of_ne {x : α} (hx : x ≠ sep) (xs : List α) :
    lines sep (x :: xs) =
      match lines sep xs with
      | [] => []
      | l :: ls => (x :: l) :: ls := by
  unfold lines
  rw [splitLines, if_neg hx]
  rcases h : splitLines sep xs with ⟨_ | ⟨l, ls⟩, rest⟩ <;> rfl

theorem unterminated_cons_of_ne {x : α} (hx : x ≠ sep) (xs : List α) :
    unterminated sep (x :: xs) =
      match lines sep xs with
      | [] => x :: unterminated sep xs
      | _ :: _ => unterminated sep xs := by
  unfold lines unterminated
  rw [splitLines, if_neg hx]
  rcases h : splitLines sep xs with ⟨_ | ⟨l, ls⟩, rest⟩ <;> rfl

/-- Nothing is lost. -/
theorem flatten_lines (xs : List α) : (lines sep xs).flatten ++ unterminated sep xs = xs := by
  induction xs with
  | nil => rfl
  | cons x xs ih =>
    by_cases hx : x = sep
    · subst hx
      rw [lines_cons_sep, unterminated_cons_sep, List.flatten_cons, List.append_assoc, ih]
      rfl
    · rw [lines_cons_of_ne hx, unterminated_cons_of_ne hx]
      cases hl : lines sep xs with
      | nil =>
        rw [hl] at ih
        simpa using ih
      | cons l ls =>
        rw [hl] at ih
        simpa using ih

/-- How the lines grow. -/
theorem splitLines_append (xs ys : List α) :
    lines sep (xs ++ ys) = lines sep xs ++ lines sep (unterminated sep xs ++ ys) ∧
      unterminated sep (xs ++ ys) = unterminated sep (unterminated sep xs ++ ys) := by
  induction xs with
  | nil => exact ⟨rfl, rfl⟩
  | cons x xs ih =>
    obtain ⟨ihl, ihu⟩ := ih
    rw [List.cons_append]
    by_cases hx : x = sep
    · subst hx
      rw [lines_cons_sep, lines_cons_sep, unterminated_cons_sep, unterminated_cons_sep, ihl, ihu]
      exact ⟨rfl, rfl⟩
    · rw [lines_cons_of_ne hx, lines_cons_of_ne hx, unterminated_cons_of_ne hx,
        unterminated_cons_of_ne hx, ihl, ihu]
      cases hl : lines sep xs with
      | nil =>
        dsimp only
        rw [List.nil_append, List.cons_append, lines_cons_of_ne hx, unterminated_cons_of_ne hx]
        exact ⟨rfl, rfl⟩
      | cons l ls => exact ⟨rfl, rfl⟩

theorem lines_append (xs ys : List α) :
    lines sep (xs ++ ys) = lines sep xs ++ lines sep (unterminated sep xs ++ ys) :=
  (splitLines_append xs ys).1

theorem unterminated_append (xs ys : List α) :
    unterminated sep (xs ++ ys) = unterminated sep (unterminated sep xs ++ ys) :=
  (splitLines_append xs ys).2

/-- Without a separator there is no line. -/
theorem lines_of_notMem {xs : List α} (h : sep ∉ xs) :
    lines sep xs = [] ∧ unterminated sep xs = xs := by
  induction xs with
  | nil => exact ⟨rfl, rfl⟩
  | cons x xs ih =>
    obtain ⟨ihl, ihu⟩ := ih fun hmem => h (List.mem_cons_of_mem _ hmem)
    have hx : x ≠ sep := fun heq => h (heq ▸ List.mem_cons_self)
    rw [lines_cons_of_ne hx, unterminated_cons_of_ne hx, ihl, ihu]
    exact ⟨rfl, rfl⟩

theorem unterminated_notMem (xs : List α) : sep ∉ unterminated sep xs := by
  induction xs with
  | nil => exact List.not_mem_nil
  | cons x xs ih =>
    by_cases hx : x = sep
    · subst hx
      rwa [unterminated_cons_sep]
    · rw [unterminated_cons_of_ne hx]
      split
      · rw [List.mem_cons]
        exact not_or.mpr ⟨fun heq => hx heq.symm, ih⟩
      · exact ih

/-- A line has one separator, at its end. -/
theorem exists_of_mem_lines {xs l : List α} (h : l ∈ lines sep xs) :
    ∃ p, l = p ++ [sep] ∧ sep ∉ p := by
  induction xs generalizing l with
  | nil => exact absurd h List.not_mem_nil
  | cons x xs ih =>
    by_cases hx : x = sep
    · subst hx
      rw [lines_cons_sep, List.mem_cons] at h
      rcases h with rfl | h
      · exact ⟨[], rfl, List.not_mem_nil⟩
      · exact ih h
    · rw [lines_cons_of_ne hx] at h
      cases hl : lines sep xs with
      | nil =>
        rw [hl] at h
        exact absurd h List.not_mem_nil
      | cons l' ls =>
        rw [hl] at h ih
        rcases List.mem_cons.mp h with rfl | h
        · obtain ⟨p, rfl, hp⟩ := ih List.mem_cons_self
          refine ⟨x :: p, rfl, ?_⟩
          rw [List.mem_cons]
          exact not_or.mpr ⟨fun heq => hx heq.symm, hp⟩
        · exact ih (List.mem_cons_of_mem _ h)

theorem lines_append_sep {p : List α} (h : sep ∉ p) (xs : List α) :
    lines sep (p ++ sep :: xs) = (p ++ [sep]) :: lines sep xs ∧
      unterminated sep (p ++ sep :: xs) = unterminated sep xs := by
  rw [lines_append, unterminated_append, (lines_of_notMem h).1, (lines_of_notMem h).2]
  induction p with
  | nil => exact ⟨lines_cons_sep sep xs, unterminated_cons_sep sep xs⟩
  | cons x p ih =>
    have hx : x ≠ sep := fun heq => h (heq ▸ List.mem_cons_self)
    obtain ⟨ihl, ihu⟩ := ih fun hmem => h (List.mem_cons_of_mem _ hmem)
    rw [List.nil_append] at ihl
    rw [List.nil_append, List.cons_append, lines_cons_of_ne hx, unterminated_cons_of_ne hx, ihl]
    exact ⟨rfl, ihu⟩

/-- Lines that are put together are taken apart again. -/
theorem lines_flatten {ls : List (List α)} (h : ∀ l ∈ ls, ∃ p, l = p ++ [sep] ∧ sep ∉ p) :
    lines sep ls.flatten = ls ∧ unterminated sep ls.flatten = [] := by
  induction ls with
  | nil => exact ⟨rfl, rfl⟩
  | cons l ls ih =>
    obtain ⟨p, rfl, hp⟩ := h l List.mem_cons_self
    obtain ⟨ihl, ihu⟩ := ih fun l' hl' => h l' (List.mem_cons_of_mem _ hl')
    obtain ⟨hlines, hrest⟩ := lines_append_sep hp ls.flatten
    rw [List.flatten_cons, List.append_assoc, List.singleton_append, hlines, hrest, ihl, ihu]
    exact ⟨rfl, rfl⟩

/-- The first line, if there is one, and the rest. -/
def cutLine (sep : α) (xs : List α) : Option (List α × List α) :=
  (xs.idxOf? sep).map fun pos => (xs.take (pos + 1), xs.drop (pos + 1))

/-- Taking the first line off leaves the others. -/
theorem lines_of_cut {xs line rest : List α} (h : cutLine sep xs = some (line, rest)) :
    xs = line ++ rest ∧ line ≠ [] ∧ lines sep xs = line :: lines sep rest ∧
      unterminated sep xs = unterminated sep rest := by
  induction xs generalizing line with
  | nil => cases h
  | cons x xs ih =>
    unfold cutLine at h
    rw [List.idxOf?_cons] at h
    by_cases hx : x = sep
    · subst hx
      rw [if_pos BEq.rfl] at h
      obtain ⟨rfl, rfl⟩ := Prod.mk.inj (Option.some.inj h)
      exact ⟨rfl, List.cons_ne_nil _ _, lines_cons_sep _ _, unterminated_cons_sep _ _⟩
    · rw [if_neg (by simpa using hx), Option.map_map] at h
      obtain ⟨pos, hpos, hcut⟩ := Option.map_eq_some_iff.mp h
      obtain ⟨rfl, rfl⟩ := Prod.mk.inj hcut
      have hih : cutLine sep xs = some (xs.take (pos + 1), xs.drop (pos + 1)) := by
        unfold cutLine
        rw [hpos]
        rfl
      obtain ⟨hxs, hne, hl, hu⟩ := ih hih
      refine ⟨?_, List.cons_ne_nil _ _, ?_, ?_⟩
      · exact congrArg (List.cons x) hxs
      · rw [lines_cons_of_ne hx, hl]
        rfl
      · rw [unterminated_cons_of_ne hx, hl]
        exact hu

/-- Taking a line off takes a separator off. -/
theorem count_of_cut {xs line rest : List α} (h : cutLine sep xs = some (line, rest)) :
    rest.count sep < xs.count sep := by
  unfold cutLine at h
  obtain ⟨pos, hpos, hcut⟩ := Option.map_eq_some_iff.mp h
  obtain ⟨rfl, rfl⟩ := Prod.mk.inj hcut
  obtain ⟨hlt, hsep, -⟩ := List.idxOf?_eq_some_iff.mp hpos
  have hmem : sep ∈ xs.take (pos + 1) :=
    List.mem_take_iff_getElem.mpr ⟨pos, by omega, hsep⟩
  have hsplit := congrArg (List.count sep) (List.take_append_drop (pos + 1) xs)
  rw [List.count_append] at hsplit
  have := List.count_pos_iff.mpr hmem
  omega

theorem notMem_of_cut {xs : List α} (h : cutLine sep xs = none) : sep ∉ xs := by
  unfold cutLine at h
  rw [Option.map_eq_none_iff, List.idxOf?_eq_none_iff] at h
  exact h

/-- What stands before the first separator, and what stands behind it. -/
def cutAt (sep : α) (xs : List α) : Option (List α × List α) :=
  (xs.idxOf? sep).map fun pos => (xs.take pos, xs.drop (pos + 1))

theorem cutAt_append {xs : List α} (h : sep ∉ xs) (ys : List α) :
    cutAt sep (xs ++ sep :: ys) = some (xs, ys) := by
  induction xs with
  | nil => simp [cutAt, List.idxOf?_cons]
  | cons x xs ih =>
    have hx : x ≠ sep := fun heq => h (heq ▸ List.mem_cons_self)
    have ih := ih fun hmem => h (List.mem_cons_of_mem _ hmem)
    unfold cutAt at ih ⊢
    obtain ⟨pos, hpos, hcut⟩ := Option.map_eq_some_iff.mp ih
    obtain ⟨htake, hdrop⟩ := Prod.mk.inj hcut
    rw [List.cons_append, List.idxOf?_cons, if_neg (by simpa using hx), hpos]
    simp only [Option.map_some, List.take_succ_cons, List.drop_succ_cons, htake, hdrop]

end LightrCri.Foundations

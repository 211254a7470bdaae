import Mathlib.Data.List.Basic
import Std.Data.ExtTreeMap.Lemmas

/-!
# The values of a map

The list of the values of a tree map, by what the map holds, and the elements of a list that a
predicate selects when it selects at most one.
-/

namespace LightrCri.Foundations

open Std

variable {α β : Type} {cmp : α → α → Ordering} [TransCmp cmp]

theorem values_eq_map_toList (m : ExtTreeMap α β cmp) : m.values = m.toList.map Prod.snd := by
  have hfold : m.values = m.foldr (fun _ b l => b :: l) [] := by
    rcases m with ⟨m⟩
    induction m using ExtDTreeMap.inductionOn with
    | _ m => rfl
  rw [hfold, ExtTreeMap.foldr_eq_foldr_toList]
  induction m.toList with
  | nil => rfl
  | cons e l ih => rw [List.foldr_cons, ih, List.map_cons]

theorem mem_values [LawfulEqCmp cmp] {m : ExtTreeMap α β cmp} {b : β} :
    b ∈ m.values ↔ ∃ a : α, m[a]? = some b := by
  rw [values_eq_map_toList, List.mem_map]
  constructor
  · rintro ⟨⟨a, b⟩, h, rfl⟩
    exact ⟨a, ExtTreeMap.mem_toList_iff_getElem?_eq_some.mp h⟩
  · rintro ⟨a, h⟩
    exact ⟨(a, b), ExtTreeMap.mem_toList_iff_getElem?_eq_some.mpr h, rfl⟩

/-- Values that show their keys are pairwise different in them. -/
theorem pairwise_values [LawfulEqCmp cmp] {m : ExtTreeMap α β cmp} {key : β → α}
    (h : ∀ (a : α) (b : β), m[a]? = some b → a = key b) : m.values.Pairwise fun b b' => key b ≠ key b' := by
  rw [values_eq_map_toList, List.pairwise_map]
  refine (ExtTreeMap.distinct_keys_toList (t := m)).imp_of_mem fun {e e'} he he' hne hkey => hne ?_
  rw [h e.1 e.2 (ExtTreeMap.mem_toList_iff_getElem?_eq_some.mp he),
    h e'.1 e'.2 (ExtTreeMap.mem_toList_iff_getElem?_eq_some.mp he'), hkey]
  exact ReflCmp.compare_self

/-- Two maps that show the same at every key list the same. -/
theorem map_values_eq {γ δ : Type} [LawfulEqCmp cmp] {m : ExtTreeMap α β cmp}
    {m' : ExtTreeMap α γ cmp} {f : β → δ} {g : α → γ → δ}
    (h : ∀ k : α, m[k]?.map f = m'[k]?.map (g k)) :
    m.values.map f = m'.toList.map fun e => g e.1 e.2 := by
  have hmap : (m.map fun _ => f) = m'.map g := by
    refine ExtTreeMap.ext_getElem? fun {k} => ?_
    rw [ExtTreeMap.getElem?_map, ExtTreeMap.getElem?_map, h k]
  have hlist := congrArg (fun l => l.toList.map Prod.snd) hmap
  simpa [ExtTreeMap.toList_map, values_eq_map_toList, Function.comp_def] using hlist

/-- Two maps that show the same at the keys that `p` selects list the same of them. -/
theorem filter_map_values_eq {γ δ : Type} [LawfulEqCmp cmp] {m : ExtTreeMap α β cmp}
    {m' : ExtTreeMap α γ cmp} {f : β → δ} {g : α → γ → δ} {key : δ → α} {p : α → Bool}
    (hf : ∀ (k : α) (b : β), m[k]? = some b → key (f b) = k) (hg : ∀ k c, key (g k c) = k)
    (h : ∀ k : α, p k → m[k]?.map f = m'[k]?.map (g k)) :
    (m.values.map f).filter (fun d => p (key d)) =
      (m'.toList.map fun e => g e.1 e.2).filter fun d => p (key d) := by
  have hmap : (m.filter fun k _ => p k).values.map f =
      (m'.filter fun k _ => p k).toList.map fun e => g e.1 e.2 := by
    refine map_values_eq fun k => ?_
    rw [ExtTreeMap.getElem?_filter', ExtTreeMap.getElem?_filter']
    cases hp : p k with
    | false => simp
    | true =>
      have hk := h k hp
      generalize m[k]? = x, m'[k]? = y at hk ⊢
      cases x <;> cases y <;> simp_all [Option.filter_some]
  rw [values_eq_map_toList, ExtTreeMap.toList_filter, ExtTreeMap.toList_filter,
    List.map_map] at hmap
  rw [values_eq_map_toList, List.map_map, List.filter_map, List.filter_map]
  simp only [Function.comp_def, hg] at hmap ⊢
  rw [← hmap]
  congr 1
  refine List.filter_congr fun e he => ?_
  rw [hf e.1 e.2 (ExtTreeMap.mem_toList_iff_getElem?_eq_some.mp he)]

/-- A predicate that selects at most one element selects the one found first. -/
theorem filter_eq_find? {p : β → Bool} {l : List β} (h : l.Pairwise fun b b' => ¬ (p b ∧ p b')) :
    l.filter p = (l.find? p).toList := by
  induction l with
  | nil => rfl
  | cons b l ih =>
    obtain ⟨hb, hl⟩ := List.pairwise_cons.mp h
    cases hp : p b with
    | false => rw [List.filter_cons_of_neg (by rw [hp]; decide), List.find?_cons_of_neg (by rw [hp]; decide), ih hl]
    | true =>
      rw [List.filter_cons_of_pos hp, List.find?_cons_of_pos hp,
        List.filter_eq_nil_iff.mpr fun b' hb' hp' => hb b' hb' ⟨hp, hp'⟩]
      rfl

end LightrCri.Foundations

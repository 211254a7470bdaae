import Mathlib.Data.List.Range
import Mathlib.Data.List.Nodup
import Mathlib.Data.List.Perm.Subperm

/-!
# Descriptors and their owners

The descriptors that a process has open, each with the owner that will close it: a variable of a
call in progress, an object that outlives the call, or nobody. A new descriptor has the lowest number
that is free. What a program does to the table it does by owner: the variable `a` opens a
descriptor (`openAs`), hands its descriptors on to `b` (`move`), or goes out of scope
(`closeIf`).

`owners` follows these operations without the numbers. Where nothing is opened, moved or closed that
belongs to `b`, the descriptors of `b` are the same as before (`held`), and the table has the same
numbers exactly if nobody else owns any (`numbers_iff_owners`).
-/

namespace LightrCri.Foundations

/-- The open descriptors of a process, the newest first. -/
structure Table (α : Type*) where
  entries : List (Nat × α)
  nodup : (entries.map Prod.fst).Nodup

namespace Table

variable {α β : Type*} (t : Table α)

/-- The numbers of the open descriptors. -/
def numbers : List Nat := t.entries.map Prod.fst

/-- The owners of the open descriptors. -/
def owners : List α := t.entries.map Prod.snd

/-- The lowest number that is free. -/
def lowest : Nat := ((List.range (t.entries.length + 1)).find? (· ∉ t.numbers)).getD 0

theorem lowest_notMem : t.lowest ∉ t.numbers := by
  unfold lowest
  cases h : (List.range (t.entries.length + 1)).find? (· ∉ t.numbers) with
  | some n => simpa using List.find?_some h
  | none =>
    -- more numbers than descriptors
    have hall : List.range (t.entries.length + 1) ⊆ t.numbers := by
      intro n hn
      simpa using List.find?_eq_none.mp h n hn
    have hle := (List.subperm_of_subset List.nodup_range hall).length_le
    rw [List.length_range, numbers, List.length_map] at hle
    omega

/-- `a` opens a descriptor. -/
def openAs (a : α) : Table α where
  entries := (t.lowest, a) :: t.entries
  nodup := List.nodup_cons.mpr ⟨t.lowest_notMem, t.nodup⟩

/-- Every descriptor has an owner that depends on the one it had. -/
def relabel (f : α → β) : Table β where
  entries := t.entries.map fun e => (e.1, f e.2)
  nodup := by simpa [Function.comp_def] using t.nodup

/-- The descriptors of `a` are handed on to `b`. -/
def move [DecidableEq α] (a b : α) : Table α := t.relabel fun c => if c = a then b else c

/-- The descriptors of the owners of `p` are closed. -/
def closeIf (p : α → Bool) : Table α where
  entries := t.entries.filter fun e => !p e.2
  nodup := (List.filter_sublist.map Prod.fst).nodup t.nodup

/-- The numbers of the descriptors of `a`. -/
def held [DecidableEq α] (a : α) : List Nat := (t.entries.filter fun e => e.2 = a).map Prod.fst

/-! ## Owners -/

@[simp] theorem owners_openAs (a : α) : (t.openAs a).owners = a :: t.owners := rfl

@[simp] theorem owners_relabel (f : α → β) : (t.relabel f).owners = t.owners.map f := by
  simp [owners, relabel, Function.comp_def]

@[simp] theorem numbers_relabel (f : α → β) : (t.relabel f).numbers = t.numbers := by
  simp [numbers, relabel, Function.comp_def]

theorem mem_owners_move [DecidableEq α] {a b c : α} :
    c ∈ (t.move a b).owners ↔ (a ∈ t.owners ∧ c = b) ∨ (c ∈ t.owners ∧ c ≠ a) := by
  rw [move, owners_relabel, List.mem_map]
  constructor
  · rintro ⟨d, hd, rfl⟩
    by_cases h : d = a
    · subst h
      exact .inl ⟨hd, if_pos rfl⟩
    · rw [if_neg h]
      exact .inr ⟨hd, h⟩
  · rintro (⟨ha, rfl⟩ | ⟨hc, hne⟩)
    · exact ⟨a, ha, if_pos rfl⟩
    · exact ⟨c, hc, if_neg hne⟩

@[simp] theorem mem_owners_closeIf {p : α → Bool} {c : α} :
    c ∈ (t.closeIf p).owners ↔ c ∈ t.owners ∧ p c = false := by
  simp only [owners, closeIf, List.mem_map, List.mem_filter, Bool.not_eq_true']
  constructor
  · rintro ⟨e, ⟨he, hp⟩, rfl⟩
    exact ⟨⟨e, he, rfl⟩, hp⟩
  · rintro ⟨⟨e, he, rfl⟩, hp⟩
    exact ⟨e, ⟨he, hp⟩, rfl⟩

/-! ## What one owner holds -/

variable [DecidableEq α] {t}

theorem held_openAs {a b : α} (h : a ≠ b) : (t.openAs a).held b = t.held b := by
  rw [held, openAs, List.filter_cons_of_neg (by simpa using h), held]

theorem held_move {a b c : α} (ha : a ≠ c) (hb : b ≠ c) : (t.move a b).held c = t.held c := by
  have hkeep : ∀ d : α, ((if d = a then b else d) = c) = (d = c) := by
    intro d
    by_cases hd : d = a
    · subst hd
      simp [ha, hb]
    · simp [hd]
  simp [held, move, relabel, List.filter_map, Function.comp_def, hkeep]

theorem held_closeIf {p : α → Bool} {b : α} (h : p b = false) :
    (t.closeIf p).held b = t.held b := by
  rw [held, closeIf, List.filter_filter, held]
  congr 2
  funext e
  by_cases he : e.2 = b
  · simp [he, h]
  · simp [he]

theorem held_relabel_const (s : Table β) (a : α) : (s.relabel fun _ => a).held a = s.numbers := by
  have hall : (s.relabel fun _ => a).entries.filter (fun e => e.2 = a) =
      (s.relabel fun _ => a).entries := by
    refine List.filter_eq_self.mpr fun e he => ?_
    obtain ⟨e', -, rfl⟩ := List.mem_map.mp he
    simp
  rw [held, hall]
  exact numbers_relabel s _

theorem mem_held {b : α} {n : Nat} : n ∈ t.held b ↔ (n, b) ∈ t.entries := by
  simp [held]

/-- **Balance.** The open numbers are those that `b` holds exactly if there is no other owner. -/
theorem numbers_iff_owners (b : α) :
    (∀ n, n ∈ t.numbers ↔ n ∈ t.held b) ↔ ∀ a ∈ t.owners, a = b := by
  constructor
  · intro h a ha
    obtain ⟨⟨n, a'⟩, he, rfl⟩ := List.mem_map.mp ha
    have hb := mem_held.mp ((h n).mp (List.mem_map.mpr ⟨_, he, rfl⟩))
    -- a number has one owner
    exact congrArg Prod.snd (List.inj_on_of_nodup_map t.nodup he hb rfl)
  · intro h n
    rw [mem_held, numbers, List.mem_map]
    constructor
    · rintro ⟨⟨m, a⟩, he, rfl⟩
      obtain rfl := h a (List.mem_map.mpr ⟨_, he, rfl⟩)
      exact he
    · intro he
      exact ⟨_, he, rfl⟩

end Table

end LightrCri.Foundations

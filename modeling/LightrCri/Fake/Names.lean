import LightrCri.Backend.Vocabulary

/-!
# Ids and file names of the fake backend

`new_id`, the names of the files under the state root, and `Path::extension`, by which `open` tells
the record files from the temporary files that `atomic_write` leaves behind.

* `newId_counter`: an id determines the counter value it was made from, so ids made in one process
  differ.
* `extension_fileName`, `extension_tmpName`: a record file has the extension `json` and a temporary
  file has none.
-/

namespace LightrCri.Fake

/-- `new_id`: the prefix, the clock in nanoseconds and the process-wide counter. -/
def newId (pre : String) (nanos : Int) (c : Nat) : String :=
  pre ++ toString nanos ++ "-" ++ toString c

/-- The file of the record with the given id: `format!("{}.json", id)`. -/
def fileName (id : String) : String := id ++ ".json"

/-- The temporary file of `atomic_write`: `.tmp-{pid}-{nanos}`. -/
def tmpName (pid nanos : Nat) : String := ".tmp-" ++ toString pid ++ "-" ++ toString nanos

/-- `Path::extension` of a file name: what follows the last dot, unless there is no dot or the
only one is the first character. -/
def extension (name : String) : Option String :=
  let rev := name.toList.reverse
  match rev.dropWhile (· ≠ '.') with
  | [] => none
  | [_] => none
  | _ :: _ :: _ =>
    if name = ".." then none else some (String.ofList (rev.takeWhile (· ≠ '.')).reverse)

/-! ## Decimal digits -/

theorem isDigit_of_mem_repr {c : Char} {n : Nat} (h : c ∈ (toString n).toList) : c.isDigit := by
  rw [Nat.toString_eq_repr, Nat.toList_repr] at h
  exact Nat.isDigit_of_mem_toDigits (by omega) (by omega) h

theorem dash_notMem_repr (n : Nat) : '-' ∉ (toString n).toList := fun h => by
  simpa using isDigit_of_mem_repr h

theorem dot_notMem_repr (n : Nat) : '.' ∉ (toString n).toList := fun h => by
  simpa using isDigit_of_mem_repr h

theorem repr_injective {m n : Nat} (h : (toString m).toList = (toString n).toList) : m = n := by
  simp only [Nat.toString_eq_repr, Nat.toList_repr] at h
  have := congrArg (fun l => Nat.ofDigitChars 10 l 0) h
  simpa only [Nat.ofDigitChars_ten_toDigits] using this

/-- What follows the last occurrence of a character is determined. -/
theorem suffix_eq_of_notMem {α : Type*} {x : α} {a a' b b' : List α} (hb : x ∉ b) (hb' : x ∉ b')
    (h : a ++ x :: b = a' ++ x :: b') : b = b' := by
  rcases List.append_eq_append_iff.mp h with ⟨c, ha', hc⟩ | ⟨c, ha, hc⟩
  · cases c with
    | nil => simpa using hc
    | cons y c =>
      simp only [List.cons_append, List.cons.injEq] at hc
      exact absurd (hc.2 ▸ by simp) hb
  · cases c with
    | nil => simpa using hc.symm
    | cons y c =>
      simp only [List.cons_append, List.cons.injEq] at hc
      exact absurd (hc.2 ▸ by simp) hb'

/-! ## Ids -/

theorem toList_newId (pre : String) (nanos : Int) (c : Nat) :
    (newId pre nanos c).toList =
      (pre.toList ++ (toString nanos).toList) ++ '-' :: (toString c).toList := by
  simp [newId, String.toList_append]

/-- **An id determines its counter value.** -/
theorem newId_counter {pre pre' : String} {n n' : Int} {c c' : Nat}
    (h : newId pre n c = newId pre' n' c') : c = c' := by
  have hl := congrArg String.toList h
  rw [toList_newId, toList_newId] at hl
  exact repr_injective (suffix_eq_of_notMem (dash_notMem_repr c) (dash_notMem_repr c') hl)

theorem newId_ne_empty (pre : String) (n : Int) (c : Nat) : newId pre n c ≠ "" := by
  intro h
  have := congrArg String.toList h
  rw [toList_newId] at this
  simp at this

/-! ## File names -/

theorem fileName_injective {a b : String} (h : fileName a = fileName b) : a = b := by
  have hl := congrArg String.toList h
  simp only [fileName, String.toList_append] at hl
  exact String.toList_injective (List.append_cancel_right hl)

theorem extension_fileName {id : String} (hid : id ≠ "") :
    extension (fileName id) = some "json" := by
  have hne : id.toList.reverse ≠ [] := by simpa using hid
  obtain ⟨x, xs, hx⟩ := List.exists_cons_of_ne_nil hne
  have hrev : (fileName id).toList.reverse = ['n', 'o', 's', 'j', '.'] ++ (x :: xs) := by
    rw [fileName, String.toList_append, List.reverse_append, hx]
    rfl
  have hdots : fileName id ≠ ".." := by
    intro h
    have := congrArg (fun s => s.toList.length) h
    simp [fileName, String.toList_append] at this
  simp [extension, hrev, hdots]

theorem toList_tmpName (pid nanos : Nat) :
    (tmpName pid nanos).toList =
      '.' :: ("tmp-".toList ++ (toString pid).toList ++ "-".toList ++ (toString nanos).toList) := by
  simp [tmpName, String.toList_append]

/-- The leading dot of a temporary name is its only one. -/
theorem dot_notMem_tail_tmpName (pid nanos : Nat) : '.' ∉ (tmpName pid nanos).toList.tail := by
  rw [toList_tmpName, List.tail_cons]
  simp only [List.mem_append, not_or]
  exact ⟨⟨⟨by decide, dot_notMem_repr pid⟩, by decide⟩, dot_notMem_repr nanos⟩

theorem extension_tmpName (pid nanos : Nat) : extension (tmpName pid nanos) = none := by
  have htail := dot_notMem_tail_tmpName pid nanos
  rw [toList_tmpName, List.tail_cons] at htail
  have hdrop : (tmpName pid nanos).toList.reverse.dropWhile (· ≠ '.') = ['.'] := by
    rw [toList_tmpName, List.reverse_cons, List.dropWhile_append_of_pos]
    · rfl
    · intro c hc
      have hne : c ≠ '.' := by
        rintro rfl
        exact htail (List.mem_reverse.mp hc)
      simpa using hne
  simp only [extension, hdrop]

theorem tmpName_ne_fileName (pid nanos : Nat) (id : String) :
    tmpName pid nanos ≠ fileName id := by
  intro h
  have htail := dot_notMem_tail_tmpName pid nanos
  rw [h, fileName, String.toList_append] at htail
  cases hid : id.toList with
  | nil =>
    have := congrArg (fun s => s.toList[1]?) h
    rw [toList_tmpName] at this
    simp [fileName, String.toList_append, hid] at this
  | cons c cs =>
    rw [hid] at htail
    simp at htail

end LightrCri.Fake

import Mathlib.Data.List.Basic

/-!
# Incremental reading

A parser tries to take an item from the front of a buffer (`Attempt`). It is incremental
(`Incremental`) if an item takes something and no more than there is, and if what it says about a
buffer, an item or an error, it also says when more is behind it.

A reader holds a buffer, tries the parser, and appends what it reads next when the parser needs more
(`readItem`); it is called until it has no item (`readItems`). `Scan` says what the items of a list
are that has arrived as a whole.

* `Incremental.readItems`: what the calls give is the scan of all that arrives, however it is cut
  into reads.
* `Scan.length_le`: with at least `k` elements an item, there is at most one item for `k` elements.
-/

namespace LightrCri.Foundations

/-- The outcome of a parse attempt at the front of a buffer. -/
inductive Attempt (β ε : Type*)
  /-- An item, and how many elements it takes. -/
  | item (x : β) (n : ℕ)
  | more
  | error (e : ε)

/-- How reading ends. -/
inductive Ending (ε : Type*)
  /-- The stream is at its end. -/
  | closed
  | failed (e : ε)
  deriving DecidableEq, Repr

variable {α β ε : Type*}

structure Incremental (parse : List α → Attempt β ε) : Prop where
  pos : ∀ {b x n}, parse b = .item x n → 0 < n ∧ n ≤ b.length
  item : ∀ {b x n}, parse b = .item x n → ∀ c, parse (b ++ c) = .item x n
  error : ∀ {b e}, parse b = .error e → ∀ c, parse (b ++ c) = .error e

/-! ## All at once -/

/-- The items at the front of a list, up to where the parser finds no further one. -/
inductive Scan (parse : List α → Attempt β ε) : List α → List β → Ending ε → Prop
  | more {b : List α} : parse b = .more → Scan parse b [] .closed
  | error {b : List α} {e : ε} : parse b = .error e → Scan parse b [] (.failed e)
  | item {b : List α} {x : β} {n : ℕ} {xs : List β} {w : Ending ε} : parse b = .item x n →
      Scan parse (b.drop n) xs w → Scan parse b (x :: xs) w

/-! ## Read by read -/

/-- One call of the reader: what is read next is appended to the buffer until the parser has an
item. An empty read is the end of the stream. The results are the item, the buffer and the reads
that remain. -/
def readItem (parse : List α → Attempt β ε) :
    List α → List (List α) → (β ⊕ Ending ε) × List α × List (List α)
  | buf, [] =>
    match parse buf with
    | .item x n => (.inl x, buf.drop n, [])
    | .error e => (.inr (.failed e), buf, [])
    | .more => (.inr .closed, buf, [])
  | buf, c :: cs =>
    match parse buf with
    | .item x n => (.inl x, buf.drop n, c :: cs)
    | .error e => (.inr (.failed e), buf, c :: cs)
    | .more => if c.isEmpty then (.inr .closed, buf, cs) else readItem parse (buf ++ c) cs

/-- At most so many calls, until one has no item; `none` if all of them have one. -/
def readItems (parse : List α → Attempt β ε) :
    ℕ → List α → List (List α) → Option (List β × Ending ε)
  | 0, _, _ => none
  | calls + 1, buf, cs =>
    match readItem parse buf cs with
    | (.inl x, buf', cs') => (readItems parse calls buf' cs').map fun r => (x :: r.1, r.2)
    | (.inr w, _, _) => some ([], w)

variable {parse : List α → Attempt β ε}

theorem readItem_item {buf : List α} {x : β} {n : ℕ} (h : parse buf = .item x n)
    (cs : List (List α)) : readItem parse buf cs = (.inl x, buf.drop n, cs) := by
  cases cs <;> rw [readItem, h]

theorem readItem_error {buf : List α} {e : ε} (h : parse buf = .error e) (cs : List (List α)) :
    readItem parse buf cs = (.inr (.failed e), buf, cs) := by
  cases cs <;> rw [readItem, h]

theorem readItem_closed {buf : List α} (h : parse buf = .more) :
    readItem parse buf [] = (.inr .closed, buf, []) := by
  rw [readItem, h]

theorem readItem_more {buf c : List α} (h : parse buf = .more) (hc : c ≠ []) (cs : List (List α)) :
    readItem parse buf (c :: cs) = readItem parse (buf ++ c) cs := by
  rw [readItem, h]
  exact if_neg (by simpa using hc)

namespace Incremental

/-- Every list has a scan. -/
theorem exists_scan (h : Incremental parse) (b : List α) : ∃ xs w, Scan parse b xs w := by
  induction hn : b.length using Nat.strongRecOn generalizing b with
  | _ n ih =>
    cases hb : parse b with
    | more => exact ⟨[], _, .more hb⟩
    | error e => exact ⟨[], _, .error hb⟩
    | item x k =>
      obtain ⟨hpos, hle⟩ := h.pos hb
      obtain ⟨xs, w, hscan⟩ := ih (b.drop k).length (by rw [List.length_drop]; omega) _ rfl
      exact ⟨x :: xs, w, .item hb hscan⟩

/-- What the parser says about a buffer, it says when more is behind it. -/
theorem attempt_append (h : Incremental parse) {b : List α} (hb : parse b ≠ .more) (c : List α) :
    parse (b ++ c) = parse b := by
  cases hparse : parse b with
  | more => exact absurd hparse hb
  | item x n => exact h.item hparse c
  | error e => exact h.error hparse c

/-- A call reads on, until the parser says of the buffer what it says of all that arrives. -/
theorem readItem_eq (h : Incremental parse) {buf b : List α} {cs : List (List α)}
    (hcs : ∀ c ∈ cs, c ≠ []) (hb : buf ++ cs.flatten = b) :
    ∃ buf' cs', readItem parse buf cs = readItem parse buf' cs' ∧ (∀ c ∈ cs', c ≠ []) ∧
      buf' ++ cs'.flatten = b ∧ parse buf' = parse b ∧ (parse b = .more → cs' = []) := by
  induction cs generalizing buf with
  | nil =>
    have hbuf : buf = b := by rwa [List.flatten_nil, List.append_nil] at hb
    exact ⟨buf, [], rfl, hcs, hb, congrArg parse hbuf, fun _ => rfl⟩
  | cons c cs ih =>
    by_cases hmore : parse buf = .more
    · rw [readItem_more hmore (hcs c List.mem_cons_self)]
      rw [List.flatten_cons, ← List.append_assoc] at hb
      exact ih (fun c' hc' => hcs c' (List.mem_cons_of_mem _ hc')) hb
    · have heq : parse buf = parse b := by rw [← hb, h.attempt_append hmore]
      exact ⟨buf, c :: cs, rfl, hcs, hb, heq, fun hb' => absurd (heq.trans hb') hmore⟩

/-- **Reading does not depend on how the stream is cut**: calls that are enough to find no further
item give the scan of the buffer with all that is still to be read. -/
theorem readItems (h : Incremental parse) {b : List α} {xs : List β} {w : Ending ε}
    (hscan : Scan parse b xs w) {calls : ℕ} (hcalls : xs.length < calls) {buf : List α}
    {cs : List (List α)} (hcs : ∀ c ∈ cs, c ≠ []) (hb : buf ++ cs.flatten = b) :
    Foundations.readItems parse calls buf cs = some (xs, w) := by
  induction hscan generalizing calls buf cs with
  | @more b hmore =>
    obtain ⟨calls, rfl⟩ := Nat.exists_eq_succ_of_ne_zero (Nat.ne_of_gt hcalls)
    obtain ⟨buf', cs', hread, -, -, hparse, hnil⟩ := h.readItem_eq hcs hb
    rw [Foundations.readItems, hread, hnil hmore, readItem_closed (hparse.trans hmore)]
  | @error b e herror =>
    obtain ⟨calls, rfl⟩ := Nat.exists_eq_succ_of_ne_zero (Nat.ne_of_gt hcalls)
    obtain ⟨buf', cs', hread, -, -, hparse, -⟩ := h.readItem_eq hcs hb
    rw [Foundations.readItems, hread, readItem_error (hparse.trans herror)]
  | @item b x n xs w hitem hscan ih =>
    obtain ⟨calls, rfl⟩ := Nat.exists_eq_succ_of_ne_zero (Nat.ne_of_gt (Nat.zero_lt_of_lt hcalls))
    obtain ⟨buf', cs', hread, hcs', hb', hparse, -⟩ := h.readItem_eq hcs hb
    have hitem' := hparse.trans hitem
    have hrest : buf'.drop n ++ cs'.flatten = b.drop n := by
      rw [← hb', List.drop_append_of_le_length (h.pos hitem').2]
    rw [List.length_cons] at hcalls
    rw [Foundations.readItems, hread, readItem_item hitem']
    dsimp only
    rw [ih (by omega) hcs' hrest]
    rfl

end Incremental

/-- An item takes at least `k` elements, so there are not many. -/
theorem Scan.length_le {k : ℕ} (hk : ∀ {b x n}, parse b = .item x n → k ≤ n ∧ n ≤ b.length)
    {b : List α} {xs : List β} {w : Ending ε} (h : Scan parse b xs w) :
    k * xs.length ≤ b.length := by
  induction h with
  | more _ => exact Nat.zero_le _
  | error _ => exact Nat.zero_le _
  | @item b x n xs w hitem _ ih =>
    obtain ⟨hn, hle⟩ := hk hitem
    rw [List.length_drop] at ih
    rw [List.length_cons, Nat.mul_succ]
    omega

end LightrCri.Foundations

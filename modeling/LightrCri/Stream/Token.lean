import LightrCri.Stream.Channel
import Std.Data.ExtTreeMap.Lemmas

/-!
# The token registry

Single-use tokens with a time to live: `mint` registers the parameters of a request under a random
token, `consume` takes them out again. Both hold the mutex of the registry while they read the
clock, so a run is a sequence of calls at non-decreasing times.

* `mint_cases`, `getElem?_consume`: what a call does to the entry of each token.
* `mint_kept`: the entry of a token that has not expired stays as it is.
* `mint_refused`: why a mint fails.
-/

namespace LightrCri.Stream

open Spdy

/-! ## The registry -/

/-- The time to live of a token, in nanoseconds. -/
def TTL : Nat := 60 * 10 ^ 9

/-- The maximum of tokens in flight. -/
def MAX_INFLIGHT : Nat := 1000

structure Entry where
  verb : StreamVerb
  params : StreamParams
  mintedAt : Nat
  deriving DecidableEq, Repr

abbrev TokenRegistry := Std.ExtTreeMap String Entry

/-- A token from six random bytes, if `/dev/urandom` can be read. -/
def randomToken (bytes : Option (Vector UInt8 6)) : Option String :=
  bytes.map fun b => encodeUrlNopad b.toList

/-- The entry has not expired. -/
def Entry.live (now : Nat) (e : Entry) : Bool := now - e.mintedAt < TTL

/-- The draws that are left of the loop of `mint`. -/
def mintLoop (draw : Nat → Option (Vector UInt8 6)) (e : Entry) :
    Nat → Nat → TokenRegistry → TokenRegistry × Option String
  | 0, _, map => (map, none)
  | n + 1, i, map =>
    match randomToken (draw i) with
    | none => (map, none)
    | some tok =>
      if tok ∈ map then mintLoop draw e n (i + 1) map else (map.insert tok e, some tok)

/-- The entries that have not expired. -/
def sweep (map : TokenRegistry) (now : Nat) : TokenRegistry := map.filter fun _ e => e.live now

/-- `TokenRegistry::mint`, at the time `now`. -/
def mint (map : TokenRegistry) (now : Nat) (verb : StreamVerb) (params : StreamParams)
    (draw : Nat → Option (Vector UInt8 6)) : TokenRegistry × Option String :=
  if MAX_INFLIGHT ≤ (sweep map now).size then (sweep map now, none)
  else mintLoop draw ⟨verb, params, now⟩ 8 0 (sweep map now)

/-- `TokenRegistry::consume`, at the time `now`. -/
def consume (map : TokenRegistry) (now : Nat) (token : String) :
    TokenRegistry × Option (StreamVerb × StreamParams) :=
  match map[token]? with
  | none => (map, none)
  | some e =>
    (map.erase token, if TTL ≤ now - e.mintedAt then none else some (e.verb, e.params))

/-! ## What a call does -/

section

variable {map : TokenRegistry} {now : Nat} {verb : StreamVerb} {params : StreamParams}
  {draw : Nat → Option (Vector UInt8 6)} {t : String} {e e' : Entry}

/-- The entry of a token after the sweep of `mint`. -/
theorem getElem?_sweep : (sweep map now)[t]? = map[t]?.filter (Entry.live now) :=
  Std.ExtTreeMap.getElem?_filter'

theorem getElem?_sweep_eq_some :
    (sweep map now)[t]? = some e ↔ map[t]? = some e ∧ e.live now := by
  rw [getElem?_sweep, Option.filter_eq_some_iff]

/-- The loop of `mint` fails, or inserts a token that is not in the map. -/
theorem mintLoop_cases (n i : Nat) :
    (∃ t, t ∉ map ∧ mintLoop draw e n i map = (map.insert t e, some t)) ∨
      mintLoop draw e n i map = (map, none) := by
  induction n generalizing i with
  | zero => exact Or.inr rfl
  | succ n ih =>
    rw [mintLoop]
    split
    · exact Or.inr rfl
    · rename_i t _
      split
      · exact ih (i + 1)
      · rename_i ht
        exact Or.inl ⟨t, ht, rfl⟩

/-- The loop fails when the random source does or every draw collides. -/
theorem mintLoop_refused {n i : Nat} (h : (mintLoop draw e n i map).2 = none) :
    (∃ j, i ≤ j ∧ j < i + n ∧ draw j = none) ∨
      ∀ j, i ≤ j → j < i + n → ∃ t ∈ map, randomToken (draw j) = some t := by
  induction n generalizing i with
  | zero => exact Or.inr fun j hj hlt => by omega
  | succ n ih =>
    rw [mintLoop] at h
    split at h
    · rename_i hnone
      left
      refine ⟨i, le_refl i, by omega, ?_⟩
      simpa [randomToken] using hnone
    · rename_i t ht
      split at h
      · rename_i hmem
        rcases ih h with ⟨j, hj, hlt, hnone⟩ | hall
        · exact Or.inl ⟨j, by omega, by omega, hnone⟩
        · refine Or.inr fun j hj hlt => ?_
          by_cases hji : j = i
          · exact ⟨t, hmem, hji ▸ ht⟩
          · exact hall j (by omega) (by omega)
      · cases h

/-- **What a mint does**: it sweeps the expired entries and registers a token that had no live
entry, or it fails. -/
theorem mint_cases :
    (∃ t, t ∉ sweep map now ∧
        (sweep map now).size < MAX_INFLIGHT ∧
        mint map now verb params draw =
          ((sweep map now).insert t ⟨verb, params, now⟩, some t)) ∨
      mint map now verb params draw = (sweep map now, none) := by
  unfold mint
  split
  · exact Or.inr rfl
  · rename_i hsize
    have hloop := @mintLoop_cases (sweep map now) draw ⟨verb, params, now⟩ 8 0
    rcases hloop with ⟨t, ht, h⟩ | h
    · exact Or.inl ⟨t, ht, Nat.lt_of_not_le hsize, h⟩
    · exact Or.inr h

/-- **A mint keeps the entry of an unexpired token.** -/
theorem mint_kept (h : map[t]? = some e) (hlive : e.live now) :
    (mint map now verb params draw).1[t]? = some e := by
  have hsweep := getElem?_sweep_eq_some.mpr ⟨h, hlive⟩
  rcases @mint_cases map now verb params draw with ⟨t', ht', -, hm⟩ | hm
  · have hne : t' ≠ t := by
      rintro rfl
      exact ht' (Std.ExtTreeMap.mem_iff_isSome_getElem?.mpr (by rw [hsweep]; rfl))
    rw [hm, Std.ExtTreeMap.getElem?_insert, if_neg (by simpa using hne), hsweep]
  · rw [hm, hsweep]

/-- An entry after a mint was there before, or is that of the minted token. -/
theorem mint_new (h : (mint map now verb params draw).1[t]? = some e) :
    map[t]? = some e ∨
      (mint map now verb params draw).2 = some t ∧ e = ⟨verb, params, now⟩ := by
  rcases @mint_cases map now verb params draw with ⟨t', -, -, hm⟩ | hm
  · rw [hm] at h ⊢
    rw [Std.ExtTreeMap.getElem?_insert] at h
    split at h
    · rename_i heq
      have heq : t' = t := by simpa using heq
      exact Or.inr ⟨congrArg some heq, (Option.some.inj h).symm⟩
    · exact Or.inl (getElem?_sweep_eq_some.mp h).1
  · rw [hm] at h
    exact Or.inl (getElem?_sweep_eq_some.mp h).1

/-- The token that a mint returns is registered. -/
theorem mint_minted (h : (mint map now verb params draw).2 = some t) :
    (mint map now verb params draw).1[t]? = some ⟨verb, params, now⟩ := by
  rcases @mint_cases map now verb params draw with ⟨t', -, -, hm⟩ | hm
  · rw [hm] at h ⊢
    obtain rfl := Option.some.inj h
    simp
  · rw [hm] at h
    cases h

/-- **Why a mint fails**: the cap is reached by unexpired tokens, the random source fails, or eight
draws are all unexpired tokens. -/
theorem mint_refused (h : (mint map now verb params draw).2 = none) :
    MAX_INFLIGHT ≤ (sweep map now).size ∨ (∃ i < 8, draw i = none) ∨
      ∀ i < 8, ∃ t e, randomToken (draw i) = some t ∧ map[t]? = some e ∧ e.live now := by
  unfold mint at h
  split at h
  · rename_i hsize
    exact Or.inl hsize
  · right
    rcases mintLoop_refused h with ⟨j, -, hlt, hnone⟩ | hall
    · exact Or.inl ⟨j, by omega, hnone⟩
    · refine Or.inr fun i hi => ?_
      obtain ⟨t, ht, hdraw⟩ := hall i (by omega) (by omega)
      obtain ⟨e, he⟩ := Option.isSome_iff_exists.mp (Std.ExtTreeMap.mem_iff_isSome_getElem?.mp ht)
      obtain ⟨hmap, hlive⟩ := getElem?_sweep_eq_some.mp he
      exact ⟨t, e, hdraw, hmap, hlive⟩

theorem size_mint (h : map.size ≤ MAX_INFLIGHT) :
    (mint map now verb params draw).1.size ≤ MAX_INFLIGHT := by
  rcases @mint_cases map now verb params draw with ⟨t', -, hsize, hm⟩ | hm
  · rw [hm]
    exact le_trans Std.ExtTreeMap.size_insert_le hsize
  · rw [hm]
    exact le_trans Std.ExtTreeMap.size_filter_le_size h

/-- After a consume the token has no entry; the others are as they were. -/
theorem getElem?_consume {token : String} :
    (consume map now token).1[t]? = if t = token then none else map[t]? := by
  unfold consume
  split
  · rename_i hnone
    split
    · rename_i heq
      rw [heq, hnone]
    · rfl
  · rw [Std.ExtTreeMap.getElem?_erase]
    by_cases heq : t = token
    · simp [heq]
    · simp [heq, Ne.symm heq]

/-- A consume returns what a live entry holds. -/
theorem consume_eq_some {token : String} :
    (consume map now token).2 = some (verb, params) ↔
      ∃ τ, map[token]? = some ⟨verb, params, τ⟩ ∧ now - τ < TTL := by
  unfold consume
  split
  · rename_i hnone
    simp [hnone]
  · rename_i e he
    rw [he]
    constructor
    · intro h
      split at h
      · cases h
      · rename_i hlive
        obtain ⟨rfl, rfl⟩ := Prod.mk.inj (Option.some.inj h)
        exact ⟨e.mintedAt, rfl, Nat.lt_of_not_le hlive⟩
    · rintro ⟨τ, heq, hlive⟩
      obtain rfl := Option.some.inj heq
      exact if_neg (Nat.not_le_of_lt hlive)

theorem size_consume {token : String} (h : map.size ≤ MAX_INFLIGHT) :
    (consume map now token).1.size ≤ MAX_INFLIGHT := by
  unfold consume
  split
  · exact h
  · exact le_trans Std.ExtTreeMap.size_erase_le h

end

end LightrCri.Stream

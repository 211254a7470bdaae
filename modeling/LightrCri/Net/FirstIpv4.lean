import LightrCri.Net.Chain

/-!
# The first IPv4 address of a CNI result

`extract_first_ipv4` goes over the entries of `ips` and returns the first address without a colon,
up to its `/`. The `?` on the address of an entry leaves the whole function, not the turn of the
loop (`firstIpv4_append`), so an entry without an address hides every entry behind it. It is the
first IPv4 address exactly when no such entry stands before the first entry with one
(`extractFirstIpv4_isFirst_iff`).
-/

namespace LightrCri.Net

open Host (ipv4 firstIpv4 extractFirstIpv4)

/-! ## What is looked for -/

/-- The entries of `ips`, none where it is missing or not an array. -/
def ipsOf (result : Json) : List Json :=
  ((result.get "ips").bind Json.asArray).getD []

/-- The address of an entry, when it is a string. -/
def addressOf (entry : Json) : Option String :=
  (entry.get "address").bind Json.asStr

/-- The entry has a string address without a colon. -/
def HasIpv4 (entry : Json) : Prop :=
  ∃ addr, addressOf entry = some addr ∧ ':' ∉ addr.toList

/-- `r` is the address of the first entry that has an IPv4 one, without its prefix length. -/
def IsFirstIpv4 (result : Json) : Option String → Prop
  | some ip => ∃ pre entry post addr, ipsOf result = pre ++ entry :: post ∧
      (∀ e ∈ pre, ¬ HasIpv4 e) ∧ addressOf entry = some addr ∧ ':' ∉ addr.toList ∧
      ip = String.ofList (addr.toList.takeWhile (· ≠ '/'))
  | none => ∀ e ∈ ipsOf result, ¬ HasIpv4 e

/-- Every entry before the first IPv4 one has a string address. -/
def AddressedBefore (result : Json) : Prop :=
  ∀ pre entry post, ipsOf result = pre ++ entry :: post → HasIpv4 entry →
    (∀ e ∈ pre, ¬ HasIpv4 e) → ∀ e ∈ pre, (addressOf e).isSome

/-! ## The loop -/

theorem ipv4_eq_none {entry : Json} {addr : String} (ha : addressOf entry = some addr)
    (h : ¬ HasIpv4 entry) : ipv4 addr = none := by
  have hcolon : ':' ∈ addr.toList := by
    by_contra hc
    exact h ⟨addr, ha, hc⟩
  simp [ipv4, hcolon]

theorem ipv4_of_not_mem {addr : String} (h : ':' ∉ addr.toList) :
    ipv4 addr = some (String.ofList (addr.toList.takeWhile (· ≠ '/'))) := by
  simp [ipv4, h]

theorem firstIpv4_cons_none {entry : Json} {ips : List Json} (h : addressOf entry = none) :
    firstIpv4 (entry :: ips) = none := by
  rw [firstIpv4]
  rw [addressOf] at h
  rw [h]

theorem firstIpv4_cons_some {entry : Json} {ips : List Json} {addr : String}
    (h : addressOf entry = some addr) :
    firstIpv4 (entry :: ips) = (ipv4 addr).or (firstIpv4 ips) := by
  rw [firstIpv4]
  rw [addressOf] at h
  rw [h]
  cases hip : ipv4 addr with
  | none => simp only [hip, Option.none_or]
  | some ip => simp only [hip, Option.some_or]

/-- The loop passes over entries with an address that has a colon. -/
theorem firstIpv4_append {pre : List Json} (ips : List Json) (hpre : ∀ e ∈ pre, ¬ HasIpv4 e)
    (haddr : ∀ e ∈ pre, (addressOf e).isSome) : firstIpv4 (pre ++ ips) = firstIpv4 ips := by
  induction pre with
  | nil => rfl
  | cons e pre ih =>
    obtain ⟨addr, ha⟩ := Option.isSome_iff_exists.1 (haddr e List.mem_cons_self)
    have hcolon := ipv4_eq_none ha (hpre e List.mem_cons_self)
    rw [List.cons_append, firstIpv4_cons_some ha, hcolon, Option.none_or]
    exact ih (fun x hx => hpre x (List.mem_cons_of_mem _ hx))
      fun x hx => haddr x (List.mem_cons_of_mem _ hx)

/-- It ends at the first entry without an address. -/
theorem firstIpv4_append_none {pre : List Json} {entry : Json} (post : List Json)
    (hpre : ∀ e ∈ pre, ¬ HasIpv4 e) (h : addressOf entry = none) :
    firstIpv4 (pre ++ entry :: post) = none := by
  induction pre with
  | nil => exact firstIpv4_cons_none h
  | cons e pre ih =>
    cases ha : addressOf e with
    | none => exact firstIpv4_cons_none ha
    | some addr =>
      rw [List.cons_append, firstIpv4_cons_some ha]
      have hcolon := ipv4_eq_none ha (hpre e List.mem_cons_self)
      rw [hcolon, Option.none_or]
      exact ih fun x hx => hpre x (List.mem_cons_of_mem _ hx)

theorem firstIpv4_cons_hasIpv4 {entry : Json} {addr : String} (ips : List Json)
    (ha : addressOf entry = some addr) (hc : ':' ∉ addr.toList) :
    firstIpv4 (entry :: ips) = some (String.ofList (addr.toList.takeWhile (· ≠ '/'))) := by
  rw [firstIpv4_cons_some ha, ipv4_of_not_mem hc, Option.some_or]

/-- Entries without an IPv4 address give none. -/
theorem firstIpv4_eq_none {ips : List Json} (h : ∀ e ∈ ips, ¬ HasIpv4 e) :
    firstIpv4 ips = none := by
  induction ips with
  | nil => rfl
  | cons e ips ih =>
    cases ha : addressOf e with
    | none => exact firstIpv4_cons_none ha
    | some addr =>
      have hcolon := ipv4_eq_none ha (h e List.mem_cons_self)
      rw [firstIpv4_cons_some ha, hcolon, Option.none_or]
      exact ih fun x hx => h x (List.mem_cons_of_mem _ hx)

/-- Entries with an IPv4 one among them split at the first. -/
theorem exists_first_hasIpv4 {ips : List Json} (h : ∃ e ∈ ips, HasIpv4 e) :
    ∃ pre entry post, ips = pre ++ entry :: post ∧ HasIpv4 entry ∧ ∀ e ∈ pre, ¬ HasIpv4 e := by
  classical
  induction ips with
  | nil => simp at h
  | cons e ips ih =>
    by_cases he : HasIpv4 e
    · exact ⟨[], e, ips, rfl, he, by simp⟩
    · obtain ⟨pre, entry, post, rfl, hentry, hpre⟩ := ih (by simpa [he] using h)
      exact ⟨e :: pre, entry, post, rfl, hentry, by simpa [he] using hpre⟩

theorem extractFirstIpv4_eq (result : Json) : extractFirstIpv4 result = firstIpv4 (ipsOf result) := by
  rw [extractFirstIpv4, ipsOf]
  cases (result.get "ips").bind Json.asArray <;> rfl

/-! ## When it is the first address -/

/-- `extract_first_ipv4` finds the first IPv4 address exactly when every entry before the first
IPv4 one has a string address. -/
theorem extractFirstIpv4_isFirst_iff (v : Json) :
    IsFirstIpv4 v (extractFirstIpv4 v) ↔ AddressedBefore v := by
  rw [extractFirstIpv4_eq]
  constructor
  · intro hfirst pre entry post hips hentry hpre e he
    by_contra hnone
    rw [Bool.not_eq_true, Option.isSome_eq_false_iff, Option.isNone_iff_eq_none] at hnone
    obtain ⟨before, behind, rfl⟩ := List.append_of_mem he
    have hleft : firstIpv4 (ipsOf v) = none := by
      rw [hips, List.append_assoc]
      exact firstIpv4_append_none _ (fun x hx => hpre x (List.mem_append_left _ hx)) hnone
    rw [hleft] at hfirst
    exact hfirst entry (by simp [hips]) hentry
  · intro haddr
    by_cases hex : ∃ e ∈ ipsOf v, HasIpv4 e
    · obtain ⟨pre, entry, post, hips, ⟨addr, ha, hc⟩, hpre⟩ := exists_first_hasIpv4 hex
      have hfound : firstIpv4 (ipsOf v)
          = some (String.ofList (addr.toList.takeWhile (· ≠ '/'))) := by
        rw [hips, firstIpv4_append _ hpre (haddr pre entry post hips ⟨addr, ha, hc⟩ hpre)]
        exact firstIpv4_cons_hasIpv4 post ha hc
      rw [hfound]
      exact ⟨pre, entry, post, addr, hips, hpre, ha, hc, rfl⟩
    · push Not at hex
      rw [firstIpv4_eq_none hex]
      exact hex

/-- An entry without an address in front of one with an IPv4 address. -/
def oddEntryFirst : Json :=
  .object [("ips", .array [.object [("interface", .number "0")],
    .object [("address", .string "10.0.0.5/16")]])]

/-- No address is returned, though the second entry has one. -/
theorem oddEntryFirst_lost :
    extractFirstIpv4 oddEntryFirst = none ∧ ¬ IsFirstIpv4 oddEntryFirst none := by
  have hmem : Json.object [("address", .string "10.0.0.5/16")] ∈ ipsOf oddEntryFirst :=
    List.mem_cons_of_mem _ List.mem_cons_self
  exact ⟨rfl, fun h => h _ hmem ⟨"10.0.0.5/16", rfl, by decide⟩⟩

end LightrCri.Net

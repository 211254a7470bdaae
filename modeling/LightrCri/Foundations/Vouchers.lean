import Mathlib.Data.List.Forall2
import Mathlib.Data.List.Nodup

/-!
# Vouchers

Vouchers are issued, and each is used at most once: every use is charged to an issued voucher that
covers it, no two to the same one, and none to a voucher that is still good (`Vouchers`).

* `Vouchers.issue`, `Vouchers.use`, `Vouchers.expire`: what keeps the books.
* `Vouchers.injective`: the uses go injectively to the vouchers that cover them.
-/

namespace LightrCri.Foundations

variable {α β : Type*} {R : α → β → Prop}

/-- The books on the vouchers `issued`, of which those numbered by `good` are not used. -/
structure Vouchers (R : α → β → Prop) (issued : List α) (used : List β) (good : ℕ → Prop) :
    Prop where
  charged : ∃ is : List ℕ, is.Nodup ∧
    List.Forall₂ (fun i u => ∃ v, issued[i]? = some v ∧ R v u) is used ∧ ∀ i, good i → i ∉ is

namespace Vouchers

variable {issued : List α} {used : List β} {good good' : ℕ → Prop}

theorem nil (R : α → β → Prop) : Vouchers R [] [] fun _ => False :=
  ⟨[], List.nodup_nil, .nil, fun _ h => h.elim⟩

theorem expire (h : Vouchers R issued used good) (hle : ∀ i, good' i → good i) :
    Vouchers R issued used good' := by
  obtain ⟨is, hnodup, hcovers, hgood⟩ := h.charged
  exact ⟨is, hnodup, hcovers, fun i hi => hgood i (hle i hi)⟩

/-- A voucher that covers a use has been issued. -/
theorem lt_length {is : List ℕ}
    (h : List.Forall₂ (fun i u => ∃ v, issued[i]? = some v ∧ R v u) is used) {i : ℕ} (hi : i ∈ is) :
    i < issued.length := by
  induction h with
  | nil => cases hi
  | cons hhead _ ih =>
    rcases List.mem_cons.mp hi with rfl | hi
    · obtain ⟨v, hv, -⟩ := hhead
      exact (List.getElem?_eq_some_iff.mp hv).1
    · exact ih hi

/-- A new voucher is good. -/
theorem issue (h : Vouchers R issued used good) (v : α) :
    Vouchers R (issued ++ [v]) used fun i => good i ∨ i = issued.length := by
  obtain ⟨is, hnodup, hcovers, hgood⟩ := h.charged
  refine ⟨is, hnodup, hcovers.imp fun i u hiu => ?_, fun i hi hmem => ?_⟩
  · obtain ⟨w, hw, hR⟩ := hiu
    exact ⟨w, by rw [List.getElem?_append_left (List.getElem?_eq_some_iff.mp hw).1, hw], hR⟩
  · rcases hi with hi | rfl
    · exact hgood i hi hmem
    · exact Nat.lt_irrefl _ (lt_length hcovers hmem)

/-- A good voucher is used, and is not good any more. -/
theorem use (h : Vouchers R issued used good) {i : ℕ} {v : α} {u : β} (hi : good i)
    (hv : issued[i]? = some v) (hR : R v u) :
    Vouchers R issued (used ++ [u]) fun j => good j ∧ j ≠ i := by
  obtain ⟨is, hnodup, hcovers, hgood⟩ := h.charged
  refine ⟨is ++ [i], ?_, List.rel_append hcovers (.cons ⟨v, hv, hR⟩ .nil), fun j hj hmem => ?_⟩
  · refine List.nodup_append.mpr ⟨hnodup, List.nodup_singleton i, fun a ha b hb hab => ?_⟩
    obtain rfl := List.mem_singleton.mp hb
    exact hgood b hi (hab ▸ ha)
  · rcases List.mem_append.mp hmem with hmem | hmem
    · exact hgood j hj.1 hmem
    · exact hj.2 (List.mem_singleton.mp hmem)

/-- **No voucher is used twice.** -/
theorem injective (h : Vouchers R issued used good) :
    ∃ f : Fin used.length → Fin issued.length, Function.Injective f ∧
      ∀ k, R (issued.get (f k)) (used.get k) := by
  obtain ⟨is, hnodup, hcovers, -⟩ := h.charged
  have hlen := hcovers.length_eq
  have hat : ∀ k : Fin used.length, ∃ v, issued[is[k]]? = some v ∧ R v (used.get k) := fun k =>
    hcovers.get (by rw [hlen]; exact k.isLt) k.isLt
  have hlt : ∀ k : Fin used.length, is[k] < issued.length := fun k =>
    lt_length hcovers (List.getElem_mem _)
  refine ⟨fun k => ⟨is[k], hlt k⟩, fun k k' hk => ?_, fun k => ?_⟩
  · exact Fin.ext ((hnodup.getElem_inj_iff).mp (Fin.mk.inj hk))
  · obtain ⟨v, hv, hR⟩ := hat k
    obtain ⟨_, rfl⟩ := List.getElem?_eq_some_iff.mp hv
    exact hR

end Vouchers

end LightrCri.Foundations

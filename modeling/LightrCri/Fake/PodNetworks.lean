import LightrCri.Fake.Isolation
import LightrCri.Foundations.Weights

/-!
# One network for a pod

Where no two calls of `netns::create` are made for one path, there is at most one network namespace
for it (`nets_nodup`), whatever fails and whichever files are torn down or swept: each call starts
at most one thread, and each thread leaves its namespace at most once. So containers, execs and
forwarded connections are in one network exactly if they have been given the same path
(`pods_apart`).
-/

namespace LightrCri.Fake.Namespaces

open Backend Foundations
open LightrCri.Net (NETNS_DIR)

/-- The path for which the label asks for a network namespace. -/
def Label.creates : Label → Option String
  | .invoke (.create name) => some (Net.joinPath NETNS_DIR name)
  | _ => none

/-- The namespaces that a frame has still to make for a path. -/
def Frame.makes (path : String) : Frame → ℕ
  | .createThread p => if p = path then 1 else 0
  | .unshareNet p => if p = path then 1 else 0
  | _ => 0

/-- The namespaces that are made for a path, and those still to be made. -/
def State.made (s : State) (path : String) : ℕ :=
  s.shared.nets.count (some path) + s.weight (Frame.makes path)

section Steps

variable {h : Host} {ls : List Label} {s s' : State} {path : String} {i next : ℕ} {o : Oracle}
  {w w' : World} {out : Out}

theorem weigh_ops (ops : List Op) : weigh (Frame.makes path) (ops.map .op) = 0 := by
  induction ops with
  | nil => rfl
  | cons op ops ih =>
    rw [List.map_cons, weigh_cons, ih]
    rfl

/-- A system call of a child makes no network namespace. -/
theorem Op.makes (path : String) {op : Op} (hex : op.exec i o w = (w', out)) :
    w'.nets = w.nets ∧ out.weight (Frame.makes path) = 0 := by
  cases op <;> simp only [Op.exec] at hex <;> split at hex <;> obtain ⟨rfl, rfl⟩ := Prod.mk.inj hex
  all_goals exact ⟨rfl, rfl⟩

/-- A step makes what its frame had to make, or leaves it to the thread it starts. -/
theorem exec_makes (path : String) {f : Frame}
    (hex : exec i next o f w = some (w', out)) :
    w'.nets.count (some path) + out.weight (Frame.makes path) ≤
      w.nets.count (some path) + f.makes path := by
  cases f with
  | op op =>
    obtain ⟨hnets, hout⟩ := Op.makes path (Option.some.inj hex)
    rw [hnets, hout]
    exact Nat.le_add_right _ _
  | spawn c =>
    simp only [exec] at hex
    repeat' split at hex
    all_goals cases hex
    · exact Nat.le_refl _
    · rw [Outcome.weight_fork, weigh_ops]
      exact Nat.le_refl _
  | createThread p =>
    cases hex
    rw [Outcome.weight_fork, weigh_cons, weigh_cons, weigh_nil]
    exact Nat.le_refl _
  | unshareNet p =>
    simp only [exec] at hex
    split at hex <;> cases hex
    · rw [Outcome.weight_next, weigh_nil]
      simp only [World.setNs, List.count_append, List.count_singleton, Frame.makes, beq_iff_eq,
        Option.some.injEq]
      exact Nat.le_refl _
    · exact Nat.le_add_right _ _
  | openNet failed netnsPath c =>
    cases netnsPath <;> simp only [exec] at hex
    all_goals
      repeat' split at hex
      all_goals cases hex
      all_goals exact Nat.le_refl _
  | sweepOne paths n =>
    cases paths <;> simp only [exec] at hex
    all_goals
      repeat' split at hex
      all_goals cases hex
      all_goals exact Nat.le_refl _
  | _ =>
    simp only [exec] at hex
    repeat' split at hex
    all_goals cases hex
    all_goals exact Nat.le_refl _

/-- A call has to make the namespace that it is to create, and no other. -/
theorem Call.makes (c : Call) :
    weigh (Frame.makes path) c.frames = if (Label.invoke c).creates = some path then 1 else 0 := by
  cases c with
  | create name => simp [Call.frames, Frame.makes, Label.creates]
  | dial netnsPath => cases netnsPath <;> rfl
  | _ => rfl

theorem step_made (path : String) {l : Label} (hstep : step s l = some s') :
    s'.made path ≤ s.made path + if l.creates = some path then 1 else 0 := by
  cases l with
  | invoke c =>
    obtain rfl := Option.some.inj hstep
    rw [State.made, Pool.weight_start, c.makes, ← Nat.add_assoc]
    exact Nat.le_refl _
  | step i o =>
    obtain ⟨t, f, k, out, hadv⟩ := Pool.advance_eq_some hstep
    have hmakes := exec_makes path hadv.exec
    have hweight := hadv.weight_add_le (Frame.makes path)
    unfold State.made
    omega
  | exit i =>
    simp only [Namespaces.step] at hstep
    split at hstep <;> cases hstep
    exact Nat.le_refl _
  | foreign pid ns =>
    simp only [Namespaces.step] at hstep
    split at hstep <;> cases hstep
    rw [State.made, Pool.weight_start, weigh_nil]
    exact Nat.le_refl _
  | crash =>
    obtain rfl := Option.some.inj hstep
    refine Nat.add_le_add_left (Pool.weight_map_le (fun t => ?_) _ _) _
    split
    · exact Nat.zero_le _
    · exact Nat.le_refl _

/-- **There are no more namespaces for a path than calls to create one.** -/
theorem made_le (hrun : run step (init h) ls = some s) :
    s.made path ≤ (ls.filterMap Label.creates).count path := by
  refine invariant_run_labels
    (I := fun ls s => s.made path ≤ (ls.filterMap Label.creates).count path) ?_ ?_ hrun
  · intro ls s l s' hle hstep
    have hmade := step_made path hstep
    rw [List.filterMap_append, List.count_append]
    cases hl : l.creates with
    | none =>
      rw [hl] at hmade
      simpa [hl] using Nat.le_trans hmade hle
    | some p =>
      rw [hl] at hmade
      simp only [List.filterMap_cons, hl, List.filterMap_nil, List.count_singleton, beq_iff_eq,
        Option.some.injEq] at hmade ⊢
      omega
  · simp [State.made, init, Pool.weight]

end Steps

/-! ## Pods -/

/-- Something that was given the path `path` is in the network namespace `n`: the process of a
container or of an exec, or a connection. -/
inductive State.Uses (s : State) : ℕ → Option String → Prop
  | process (q : ℕ) (τ : Tag) (path : Option String) : s.Runs q τ → τ.netnsPath = some path →
      Uses s (s.shared.ns q).net path
  | connection (j n : ℕ) (path : Option String) (t : Task Tag Frame Result) :
      s.tasks[j]? = some t → t.tag = .call (.dial path) →
      t.result = some (.ok (.connected n)) → Uses s n path

section Pods

variable {h : Host} {ls : List Label} {s : State} {n n' : ℕ} {path path' : Option String}

theorem Networked.netOf (hnet : Networked s) (huses : s.Uses n path) : s.shared.NetOf n path := by
  cases huses with
  | process q τ path hq hpath => exact hnet.processes q τ path hq hpath
  | connection j n path t ht htag hres => exact hnet.connections j n path t ht htag hres

theorem getElem?_inj_of_count {α : Type*} [BEq α] [LawfulBEq α] {l : List α} {a : α} {i j : ℕ}
    (hcount : l.count a ≤ 1) (hi : l[i]? = some a) (hj : l[j]? = some a) : i = j := by
  induction l generalizing i j with
  | nil => cases hi
  | cons x l ih =>
    have hfirst : ∀ k : ℕ, x = a → l[k]? ≠ some a := by
      rintro k rfl hk
      have hpos : 0 < l.count x := List.count_pos_iff.mpr (List.mem_of_getElem? hk)
      rw [List.count_cons_self] at hcount
      omega
    cases i with
    | zero =>
      cases j with
      | zero => rfl
      | succ j => exact absurd hj (hfirst j (Option.some.inj hi))
    | succ i =>
      cases j with
      | zero => exact absurd hi (hfirst i (Option.some.inj hj))
      | succ j => rw [ih (Nat.le_trans (List.count_le_count_cons) hcount) hi hj]

/-- **A pod has one network, and shares it with no other.** -/
theorem pods_apart (hcreates : (ls.filterMap Label.creates).Nodup)
    (hrun : run step (init h) ls = some s) (huses : s.Uses n path) (huses' : s.Uses n' path') :
    n = n' ↔ path = path' := by
  have hinv : Inv True h ls s := inv_run (.inl True.intro) hrun
  have hnet : Networked s := hinv.networked
  have hnetOf := hnet.netOf huses
  have hnetOf' := hnet.netOf huses'
  have hshows : ∀ {n : ℕ} {path : Option String}, s.shared.NetOf n path →
      s.shared.nets[n]? = some path := fun {n path} hof => by
    cases path with
    | none =>
      obtain rfl : n = 0 := hof
      exact hnet.host
    | some path => exact hof
  constructor
  · rintro rfl
    exact Option.some.inj ((hshows hnetOf).symm.trans (hshows hnetOf'))
  · rintro rfl
    cases path with
    | none =>
      obtain rfl : n = 0 := hnetOf
      exact Eq.symm hnetOf'
    | some path =>
      have hone : s.shared.nets.count (some path) ≤ 1 :=
        Nat.le_trans (Nat.le_add_right _ _)
          (Nat.le_trans (made_le hrun) (List.nodup_iff_count.mp hcreates path))
      exact getElem?_inj_of_count hone hnetOf hnetOf'

def dbInfo : SandboxInfo := ⟨"", none, "", some "/run/netns/db"⟩

/-- Two pods with a container each. -/
def twoPodsRun : List Label :=
  enteredRun ++ [Label.invoke (.create "db"), .step 4 {}, .step 4 {}, .step 5 {}, .step 5 {},
    .step 4 {},
    .invoke (.startContainer ⟨"ct-2"⟩ ⟨"sb-2"⟩ dbInfo), .step 6 {}, .step 6 {},
    .step 6 { pid := 101 }, .step 7 {}, .step 7 {}, .step 6 {}]

theorem pods_apart_twoPodsRun : ∃ s n n', run step (init node) twoPodsRun = some s ∧
    s.Uses n (some webNetns) ∧ s.Uses n' (some "/run/netns/db") ∧ n ≠ n' := by
  have hcreates : (twoPodsRun.filterMap Label.creates).Nodup := by decide +kernel
  have hruns : (run step (init node) twoPodsRun).any (fun s =>
      (s.tag? 3 = some (.container 2 ⟨"ct-1"⟩ ⟨"sb-1"⟩ webInfo) ∧ s.shared.executes 3) ∧
        s.tag? 7 = some (.container 6 ⟨"ct-2"⟩ ⟨"sb-2"⟩ dbInfo) ∧ s.shared.executes 7) := by
    decide +kernel
  obtain ⟨s, hrun, hs⟩ := (Option.any_eq_true _ _).mp hruns
  obtain ⟨hweb, hdb⟩ := of_decide_eq_true hs
  have huses : s.Uses (s.shared.ns 3).net (some webNetns) := .process 3 _ _ hweb rfl
  have huses' : s.Uses (s.shared.ns 7).net (some "/run/netns/db") := .process 7 _ _ hdb rfl
  exact ⟨s, _, _, hrun, huses, huses', fun heq => absurd
    ((pods_apart hcreates hrun huses huses').mp heq) (by decide)⟩

end Pods

end LightrCri.Fake.Namespaces

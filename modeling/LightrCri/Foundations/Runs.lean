import Mathlib.Data.List.Basic

/-!
# Runs of a labelled transition system

A system is a partial step function `step : σ → ι → Option σ`: the label says which action is
taken and how its nondeterminism is resolved, and `none` that it is not enabled. `run` follows a
list of labels.

* `Along step P s ls`: every step of the run is taken in a state and with a label that `P` allows.
* `invariant_run`: what every allowed step preserves holds after every allowed run; `along_iff`: a
  property that exactly the allowed steps keep.
* `exists_trace`: the rule for a simulation, with one trace of the other system for all moments.
* `Reaches step P s Q`: a run of labels that `P` allows leads from `s` to a state of `Q`;
  `reaches_of_variant` is the variant rule for it.
* `Settles step P s Q`: runs of labels that `P` allows come to an end, and `Q` holds there;
  `settles_of_variant` is the rule for it.
* `withHistory`: the system that also updates a history variable, which no step reads; every run
  has one (`exists_history`).
-/

namespace LightrCri.Foundations

variable {σ ι γ : Type*}

/-- The state after the labels `ls`, when each of them is enabled in its turn. -/
def run (step : σ → ι → Option σ) : σ → List ι → Option σ
  | s, [] => some s
  | s, l :: ls => (step s l).bind fun s' => run step s' ls

/-- Every step of the run of `ls` from `s` is one that `P` allows. -/
def Along (step : σ → ι → Option σ) (P : σ → ι → Prop) : σ → List ι → Prop
  | _, [] => True
  | s, l :: ls => P s l ∧ ∀ s', step s l = some s' → Along step P s' ls

variable {step : σ → ι → Option σ}

@[simp] theorem run_nil (s : σ) : run step s [] = some s := rfl

theorem run_cons (s : σ) (l : ι) (ls : List ι) :
    run step s (l :: ls) = (step s l).bind fun s' => run step s' ls := rfl

theorem run_cons_eq_some {s s'' : σ} {l : ι} {ls : List ι} :
    run step s (l :: ls) = some s'' ↔ ∃ s', step s l = some s' ∧ run step s' ls = some s'' := by
  rw [run_cons, Option.bind_eq_some_iff]

theorem run_append (s : σ) (ls₁ ls₂ : List ι) :
    run step s (ls₁ ++ ls₂) = (run step s ls₁).bind fun s' => run step s' ls₂ := by
  induction ls₁ generalizing s with
  | nil => rfl
  | cons l ls₁ ih =>
    simp only [List.cons_append, run_cons, Option.bind_assoc, ih]

theorem run_append_eq_some {s s'' : σ} {ls₁ ls₂ : List ι} :
    run step s (ls₁ ++ ls₂) = some s'' ↔
      ∃ s', run step s ls₁ = some s' ∧ run step s' ls₂ = some s'' := by
  rw [run_append, Option.bind_eq_some_iff]

/-- **The invariant rule.** What every allowed step preserves, an allowed run preserves. -/
theorem invariant_run {I : σ → Prop} {P : σ → ι → Prop}
    (hstep : ∀ s l s', I s → P s l → step s l = some s' → I s') {s s' : σ} {ls : List ι}
    (hs : I s) (hP : Along step P s ls) (hrun : run step s ls = some s') : I s' := by
  induction ls generalizing s with
  | nil =>
    obtain rfl := Option.some.inj hrun
    exact hs
  | cons l ls ih =>
    obtain ⟨s₁, h₁, h₂⟩ := run_cons_eq_some.mp hrun
    exact ih (hstep s l s₁ hs hP.1 h₁) (hP.2 s₁ h₁) h₂

/-- The invariant rule with a relation between the first and the last state. -/
theorem relation_run {I : σ → Prop} {R : σ → σ → Prop} {P : σ → ι → Prop}
    (hrefl : ∀ s, R s s) (htrans : ∀ a b c, R a b → R b c → R a c)
    (hstep : ∀ s l s', I s → P s l → step s l = some s' → I s' ∧ R s s') {s s' : σ}
    {ls : List ι} (hs : I s) (hP : Along step P s ls) (hrun : run step s ls = some s') :
    R s s' := by
  have h : I s' ∧ R s s' := by
    refine invariant_run (I := fun t => I t ∧ R s t) ?_ ⟨hs, hrefl s⟩ hP hrun
    intro a l b ⟨ha, hR⟩ hl hab
    obtain ⟨hb, hab'⟩ := hstep a l b ha hl hab
    exact ⟨hb, htrans s a b hR hab'⟩
  exact h.2

theorem Along.mono {P Q : σ → ι → Prop} (h : ∀ s l, P s l → Q s l) {s : σ} {ls : List ι}
    (hP : Along step P s ls) : Along step Q s ls := by
  induction ls generalizing s with
  | nil => exact True.intro
  | cons l ls ih => exact ⟨h s l hP.1, fun s' hs' => ih (hP.2 s' hs')⟩

theorem Along.trivial (s : σ) (ls : List ι) : Along step (fun _ _ => True) s ls := by
  induction ls generalizing s with
  | nil => exact True.intro
  | cons l ls ih => exact ⟨True.intro, fun s' _ => ih s'⟩

/-- The invariant rule with the labels of the run so far. -/
theorem invariant_along_labels {I : List ι → σ → Prop} {P : σ → ι → Prop}
    (hstep : ∀ ls s l s', I ls s → P s l → step s l = some s' → I (ls ++ [l]) s') {s s' : σ}
    {ls : List ι} (hs : I [] s) (hP : Along step P s ls) (hrun : run step s ls = some s') :
    I ls s' := by
  suffices hfrom : ∀ (ls ls₀ : List ι) (s : σ), I ls₀ s → Along step P s ls →
      run step s ls = some s' → I (ls₀ ++ ls) s' from hfrom ls [] s hs hP hrun
  intro ls
  induction ls with
  | nil =>
    intro ls₀ s hs _ hrun
    obtain rfl := Option.some.inj hrun
    rwa [List.append_nil]
  | cons l ls ih =>
    intro ls₀ s hs hP hrun
    obtain ⟨s₁, h₁, h₂⟩ := run_cons_eq_some.mp hrun
    have hrest := ih (ls₀ ++ [l]) s₁ (hstep ls₀ s l s₁ hs hP.1 h₁) (hP.2 s₁ h₁) h₂
    rwa [List.append_assoc, List.singleton_append] at hrest

theorem invariant_run_labels {I : List ι → σ → Prop}
    (hstep : ∀ ls s l s', I ls s → step s l = some s' → I (ls ++ [l]) s') {s s' : σ} {ls : List ι}
    (hs : I [] s) (hrun : run step s ls = some s') : I ls s' :=
  invariant_along_labels (fun ls s l s' h _ => hstep ls s l s' h) hs (Along.trivial s ls) hrun

/-- The invariant rule for two machines that read the same labels. -/
theorem invariant_run_both {τ : Type*} {step' : τ → ι → Option τ} {I : τ → σ → Prop}
    {P : σ → ι → Prop}
    (hstep : ∀ t s l t' s', I t s → P s l → step' t l = some t' → step s l = some s' → I t' s')
    {t t' : τ} {s s' : σ} {ls : List ι} (hs : I t s) (hP : Along step P s ls)
    (hrun' : run step' t ls = some t') (hrun : run step s ls = some s') : I t' s' := by
  induction ls generalizing t s with
  | nil =>
    obtain rfl := Option.some.inj hrun'
    obtain rfl := Option.some.inj hrun
    exact hs
  | cons l ls ih =>
    obtain ⟨t₁, ht₁, ht₂⟩ := run_cons_eq_some.mp hrun'
    obtain ⟨s₁, hs₁, hs₂⟩ := run_cons_eq_some.mp hrun
    exact ih (hstep t s l t₁ s₁ hs hP.1 ht₁ hs₁) (hP.2 s₁ hs₁) ht₂ hs₂

/-- **The growing trace.** When every allowed step lets the trace of another system go on, one trace
goes along with the whole run. -/
theorem exists_trace {ε : Type*} {R : σ → List ε → Prop}
    {P : σ → ι → Prop}
    (hstep : ∀ s l s' es, R s es → P s l → step s l = some s' → ∃ es', R s' (es ++ es')) {s : σ}
    {ls : List ι} {es : List ε} (hs : R s es) (hP : Along step P s ls) :
    ∃ trace : Nat → List ε, trace 0 = es ∧ (∀ n, trace n <+: trace (n + 1)) ∧
      ∀ n s', run step s (ls.take n) = some s' → R s' (trace n) := by
  induction ls generalizing s es with
  | nil =>
    refine ⟨fun _ => es, rfl, fun _ => List.prefix_rfl, fun n s' hrun => ?_⟩
    rw [List.take_nil] at hrun
    obtain rfl := Option.some.inj hrun
    exact hs
  | cons l ls ih =>
    cases hl : step s l with
    | none =>
      refine ⟨fun _ => es, rfl, fun _ => List.prefix_rfl, fun n s' hrun => ?_⟩
      cases n with
      | zero =>
        obtain rfl := Option.some.inj hrun
        exact hs
      | succ n =>
        obtain ⟨s₁, h₁, -⟩ := run_cons_eq_some.mp hrun
        simp [hl] at h₁
    | some s₁ =>
      obtain ⟨es', h₁⟩ := hstep s l s₁ es hs hP.1 hl
      obtain ⟨trace, hzero, hgrow, hR⟩ := ih h₁ (hP.2 s₁ hl)
      refine ⟨fun n => n.casesOn es trace, rfl, fun n => ?_, fun n s' hrun => ?_⟩
      · cases n with
        | zero =>
          change es <+: trace 0
          rw [hzero]
          exact List.prefix_append es es'
        | succ n => exact hgrow n
      · cases n with
        | zero =>
          obtain rfl := Option.some.inj hrun
          exact hs
        | succ n =>
          obtain ⟨s₂, h₂, hrest⟩ := run_cons_eq_some.mp hrun
          obtain rfl := Option.some.inj (hl.symm.trans h₂)
          exact hR n s' hrest

theorem Along.of_labels {P : ι → Prop} {s : σ} {ls : List ι} (h : ∀ l ∈ ls, P l) :
    Along step (fun _ l => P l) s ls := by
  induction ls generalizing s with
  | nil => exact True.intro
  | cons l ls ih =>
    exact ⟨h l List.mem_cons_self, fun s' _ => ih fun l' hl' => h l' (List.mem_cons_of_mem _ hl')⟩

theorem Along.append {P : σ → ι → Prop} {s s' : σ} {ls₁ ls₂ : List ι}
    (hP : Along step P s (ls₁ ++ ls₂)) (hrun : run step s ls₁ = some s') :
    Along step P s ls₁ ∧ Along step P s' ls₂ := by
  induction ls₁ generalizing s with
  | nil =>
    obtain rfl := Option.some.inj hrun
    exact ⟨True.intro, hP⟩
  | cons l ls₁ ih =>
    obtain ⟨s₁, h₁, h₂⟩ := run_cons_eq_some.mp hrun
    refine ⟨⟨hP.1, fun t ht => ?_⟩, (ih (hP.2 s₁ h₁) h₂).2⟩
    obtain rfl : s₁ = t := Option.some.inj (h₁.symm.trans ht)
    exact (ih (hP.2 s₁ h₁) h₂).1

theorem Along.and {P Q : σ → ι → Prop} {s : σ} {ls : List ι} (hP : Along step P s ls)
    (hQ : Along step Q s ls) : Along step (fun s l => P s l ∧ Q s l) s ls := by
  induction ls generalizing s with
  | nil => exact True.intro
  | cons l ls ih => exact ⟨⟨hP.1, hQ.1⟩, fun s' hs' => ih (hP.2 s' hs') (hQ.2 s' hs')⟩

/-- A property of every label, with one of every step. -/
theorem Along.and_labels {P : σ → ι → Prop} {Q : ι → Prop} {s : σ} {ls : List ι}
    (hP : Along step P s ls) (hQ : ∀ l ∈ ls, Q l) : Along step (fun s l => Q l ∧ P s l) s ls := by
  induction ls generalizing s with
  | nil => exact True.intro
  | cons l ls ih =>
    exact ⟨⟨hQ l List.mem_cons_self, hP.1⟩,
      fun s' hs' => ih (hP.2 s' hs') fun l hl => hQ l (List.mem_cons_of_mem _ hl)⟩

/-- **Exactly the allowed steps.** Every allowed step keeps an invariant that implies `Q`, and `Q`
does not hold after any other: then `Q` holds all along a run exactly if its steps are allowed. -/
theorem along_iff {I Q : σ → Prop} {P : σ → ι → Prop} (hQ : ∀ s, I s → Q s)
    (hstep : ∀ s l s', I s → step s l = some s' → (P s l → I s') ∧ (Q s' → P s l)) {s s' : σ}
    {ls : List ι} (hs : I s) (hrun : run step s ls = some s') :
    (∀ ls' t, ls' <+: ls → run step s ls' = some t → Q t) ↔ Along step P s ls := by
  induction ls generalizing s with
  | nil =>
    refine iff_of_true (fun ls' t hnil ht => ?_) True.intro
    obtain rfl := List.prefix_nil.mp hnil
    obtain rfl := Option.some.inj ht
    exact hQ s hs
  | cons l ls ih =>
    obtain ⟨s₁, h₁, h₂⟩ := run_cons_eq_some.mp hrun
    obtain ⟨hkeep, hallowed⟩ := hstep s l s₁ hs h₁
    constructor
    · intro hall
      have hl : P s l := by
        refine hallowed (hall [l] s₁ ?_ (run_cons_eq_some.mpr ⟨s₁, h₁, rfl⟩))
        exact ⟨ls, rfl⟩
      refine ⟨hl, fun t ht => ?_⟩
      obtain rfl := Option.some.inj (h₁.symm.trans ht)
      refine (ih (hkeep hl) h₂).mp fun ls' t hls' ht' => ?_
      exact hall (l :: ls') t (List.cons_prefix_cons.mpr ⟨rfl, hls'⟩)
        (run_cons_eq_some.mpr ⟨s₁, h₁, ht'⟩)
    · rintro ⟨hl, halong⟩ ls' t hls' ht
      cases ls' with
      | nil =>
        obtain rfl := Option.some.inj ht
        exact hQ s hs
      | cons l' ls' =>
        obtain ⟨rfl, hrest⟩ := List.cons_prefix_cons.mp hls'
        obtain ⟨t₁, ht₁, ht₂⟩ := run_cons_eq_some.mp ht
        obtain rfl := Option.some.inj (h₁.symm.trans ht₁)
        exact (ih (hkeep hl) h₂).mpr (halong s₁ h₁) ls' t hrest ht₂

/-- Whether a run is allowed can be computed. -/
def Along.decide {P : σ → ι → Prop} (dec : ∀ s l, Decidable (P s l)) :
    ∀ s ls, Decidable (Along step P s ls)
  | _, [] => isTrue True.intro
  | s, l :: ls =>
    match dec s l, hs : step s l with
    | isFalse h, _ => isFalse fun hP => h hP.1
    | isTrue h, none => isTrue ⟨h, fun _ ht => by rw [hs] at ht; cases ht⟩
    | isTrue h, some s' =>
      match Along.decide dec s' ls with
      | isTrue h' => isTrue ⟨h, fun t ht => Option.some.inj (hs.symm.trans ht) ▸ h'⟩
      | isFalse h' => isFalse fun hP => h' (hP.2 s' hs)

instance {P : σ → ι → Prop} [dec : ∀ s l, Decidable (P s l)] (s : σ) (ls : List ι) :
    Decidable (Along step P s ls) :=
  Along.decide dec s ls

/-! ## Reaching a state -/

/-- Labels that `P` allows lead to a state of `Q`. -/
def Reaches (step : σ → ι → Option σ) (P : ι → Prop) (s : σ) (Q : σ → Prop) : Prop :=
  ∃ ls s', (∀ l ∈ ls, P l) ∧ run step s ls = some s' ∧ Q s'

theorem Reaches.refl {P : ι → Prop} {Q : σ → Prop} {s : σ} (h : Q s) : Reaches step P s Q :=
  ⟨[], s, fun _ hl => absurd hl List.not_mem_nil, rfl, h⟩

theorem Reaches.cons {P : ι → Prop} {Q : σ → Prop} {s s' : σ} {l : ι} (hstep : step s l = some s')
    (hl : P l) (h : Reaches step P s' Q) : Reaches step P s Q := by
  obtain ⟨ls, s'', hls, hrun, hQ⟩ := h
  refine ⟨l :: ls, s'', fun l' hl' => ?_, run_cons_eq_some.mpr ⟨s', hstep, hrun⟩, hQ⟩
  rcases List.mem_cons.mp hl' with rfl | hmem
  · exact hl
  · exact hls l' hmem

/-- **The variant rule.** Where the goal is not reached, some allowed step keeps the invariant and
makes the variant smaller. -/
theorem reaches_of_variant {P : ι → Prop} {Q I : σ → Prop} (variant : σ → Nat)
    (hstep : ∀ s, I s → Q s ∨ ∃ l s', P l ∧ step s l = some s' ∧ I s' ∧ variant s' < variant s)
    {s : σ} (hs : I s) : Reaches step P s Q := by
  induction hn : variant s using Nat.strongRecOn generalizing s with
  | _ n ih =>
    rcases hstep s hs with hQ | ⟨l, s', hl, hs', hI, hlt⟩
    · exact .refl hQ
    · exact .cons hs' hl (ih _ (hn ▸ hlt) hI rfl)

/-- The runs from `s` of labels that `P` allows are no longer than some bound, and `Q` holds where
none of these labels is enabled any more. -/
def Settles (step : σ → ι → Option σ) (P : ι → Prop) (s : σ) (Q : σ → Prop) : Prop :=
  ∃ n, ∀ ls s', (∀ l ∈ ls, P l) → run step s ls = some s' →
    ls.length ≤ n ∧ ((∀ l, P l → step s' l = none) → Q s')

/-- Every allowed step keeps the invariant and makes the variant smaller, and the goal is reached
where there is none. -/
theorem settles_of_variant {P : ι → Prop} {Q I : σ → Prop} (variant : σ → Nat)
    (hstep : ∀ s l s', I s → P l → step s l = some s' → I s' ∧ variant s' < variant s)
    (hquiet : ∀ s, I s → (∀ l, P l → step s l = none) → Q s) {s : σ} (hs : I s) :
    Settles step P s Q := by
  have hrun : ∀ ls s s', I s → (∀ l ∈ ls, P l) → run step s ls = some s' →
      I s' ∧ ls.length + variant s' ≤ variant s := by
    intro ls
    induction ls with
    | nil =>
      intro s s' hs _ hrun
      obtain rfl := Option.some.inj hrun
      exact ⟨hs, Nat.le_of_eq (Nat.zero_add _)⟩
    | cons l ls ih =>
      intro s s' hs hP hrun
      obtain ⟨s₁, h₁, h₂⟩ := run_cons_eq_some.mp hrun
      obtain ⟨hs₁, hlt⟩ := hstep s l s₁ hs (hP l List.mem_cons_self) h₁
      obtain ⟨hs', hle⟩ := ih s₁ s' hs₁ (fun l' hl' => hP l' (List.mem_cons_of_mem _ hl')) h₂
      rw [List.length_cons]
      exact ⟨hs', by omega⟩
  refine ⟨variant s, fun ls s' hP hls => ?_⟩
  obtain ⟨hs', hle⟩ := hrun ls s s' hs hP hls
  exact ⟨by omega, hquiet s' hs'⟩

theorem Settles.mono {P : ι → Prop} {Q Q' : σ → Prop} {s : σ} (h : Settles step P s Q)
    (himp : ∀ s', Q s' → Q' s') : Settles step P s Q' := by
  obtain ⟨n, hn⟩ := h
  refine ⟨n, fun ls s' hP hrun => ?_⟩
  obtain ⟨hle, hquiet⟩ := hn ls s' hP hrun
  exact ⟨hle, fun hnone => himp s' (hquiet hnone)⟩

/-- What settles reaches a state where nothing allowed is enabled. -/
theorem Settles.exists_quiet {P : ι → Prop} {Q : σ → Prop} {s : σ} (h : Settles step P s Q) :
    Reaches step P s fun s' => (∀ l, P l → step s' l = none) ∧ Q s' := by
  obtain ⟨n, hn⟩ := h
  suffices hex : ∀ m ls s', (∀ l ∈ ls, P l) → run step s ls = some s' → n ≤ ls.length + m →
      Reaches step P s fun s' => (∀ l, P l → step s' l = none) ∧ Q s' from
    hex n [] s (fun _ hl => absurd hl List.not_mem_nil) rfl (Nat.le_add_left _ _)
  intro m
  induction m with
  | zero =>
    intro ls s' hP hrun hle
    have hquiet : ∀ l, P l → step s' l = none := fun l hl => by
      cases hs : step s' l with
      | none => rfl
      | some s'' =>
        have hrun' : run step s (ls ++ [l]) = some s'' :=
          run_append_eq_some.mpr ⟨s', hrun, run_cons_eq_some.mpr ⟨s'', hs, rfl⟩⟩
        have hlen := (hn _ _ (List.forall_mem_append.mpr ⟨hP, by simpa using hl⟩) hrun').1
        rw [List.length_append, List.length_singleton] at hlen
        omega
    exact ⟨ls, s', hP, hrun, hquiet, (hn ls s' hP hrun).2 hquiet⟩
  | succ m ih =>
    intro ls s' hP hrun hle
    by_cases hquiet : ∀ l, P l → step s' l = none
    · exact ⟨ls, s', hP, hrun, hquiet, (hn ls s' hP hrun).2 hquiet⟩
    · push Not at hquiet
      obtain ⟨l, hl, hne⟩ := hquiet
      obtain ⟨s'', hs⟩ := Option.ne_none_iff_exists'.mp hne
      refine ih (ls ++ [l]) s'' (List.forall_mem_append.mpr ⟨hP, by simpa using hl⟩)
        (run_append_eq_some.mpr ⟨s', hrun, run_cons_eq_some.mpr ⟨s'', hs, rfl⟩⟩) ?_
      rw [List.length_append, List.length_singleton]
      omega

/-! ## History variables -/

/-- The system with a history variable: `upd` computes it from the step taken, and no step reads
it. -/
def withHistory (step : σ → ι → Option σ) (upd : γ → σ → ι → σ → γ) (p : γ × σ) (l : ι) :
    Option (γ × σ) :=
  (step p.2 l).map fun s' => (upd p.1 p.2 l s', s')

theorem withHistory_eq_some {upd : γ → σ → ι → σ → γ} {p p' : γ × σ} {l : ι} :
    withHistory step upd p l = some p' ↔
      step p.2 l = some p'.2 ∧ p'.1 = upd p.1 p.2 l p'.2 := by
  rw [withHistory, Option.map_eq_some_iff]
  constructor
  · rintro ⟨s', hs, rfl⟩
    exact ⟨hs, rfl⟩
  · rintro ⟨hs, he⟩
    exact ⟨p'.2, hs, Prod.ext he.symm rfl⟩

/-- Every run has a history. -/
theorem exists_history (upd : γ → σ → ι → σ → γ) (g : γ) {s s' : σ} {ls : List ι}
    (h : run step s ls = some s') : ∃ g', run (withHistory step upd) (g, s) ls = some (g', s') := by
  induction ls generalizing s g with
  | nil =>
    obtain rfl := Option.some.inj h
    exact ⟨g, rfl⟩
  | cons l ls ih =>
    obtain ⟨s₁, hs₁, hs₂⟩ := run_cons_eq_some.mp h
    obtain ⟨g', hg'⟩ := ih (upd g s l s₁) hs₂
    exact ⟨g', run_cons_eq_some.mpr ⟨_, withHistory_eq_some.mpr ⟨hs₁, rfl⟩, hg'⟩⟩

/-- What a run is allowed to do does not depend on the history. -/
theorem Along.withHistory {P : σ → ι → Prop} {upd : γ → σ → ι → σ → γ} {s : σ} {ls : List ι}
    (h : Along step P s ls) (g : γ) :
    Along (withHistory step upd) (fun p l => P p.2 l) (g, s) ls := by
  induction ls generalizing s g with
  | nil => exact True.intro
  | cons l ls ih =>
    refine ⟨h.1, fun p hp => ?_⟩
    obtain ⟨hs, -⟩ := withHistory_eq_some.mp hp
    exact ih (h.2 p.2 hs) p.1

end LightrCri.Foundations

import LightrCri.Foundations.Runs
import Mathlib.Data.List.Infix
import Mathlib.Logic.Function.Basic

/-!
# Writers behind a mutex

Tasks that write to one sink. A task comes to a place where it writes, takes the mutex, and then,
for each request of the place in turn, encodes it and writes the bytes in pieces, as the sink takes
them. It releases the mutex when all is written. The encoder has a state, which is behind the same
mutex.

`Logged` says what follows for the sink, whatever the order of the steps: its contents are the bytes
of what was encoded, one after the other and in the order in which it was encoded, up to the piece
that a task is still writing; the requests of a place follow each other without a gap; and what each
task has asked for is what was encoded for it, in its order, and what it still has to go
(`logged_run`).
-/

namespace LightrCri.Foundations.Guarded

open Function

/-- What the tasks write: `τ` names the tasks, `ς` the places at which they write, `ρ` their
requests, and `φ` what a request is encoded to, with a state `κ` of the encoder. -/
structure Discipline (τ ς ρ φ β κ ω : Type*) where
  task : ς → τ
  requests : ς → List ρ
  allowed : ς → Bool
  encode : ω → κ → ρ → Option (κ × φ)
  bytes : φ → List β

inductive Phase (ς ρ β : Type*)
  | idle
  /-- Waiting for the mutex. -/
  | locking (site : ς)
  /-- With the mutex, and with requests to go. -/
  | holding (rest : List ρ)
  /-- With the mutex, and with bytes and requests to go. -/
  | writing (left : List β) (rest : List ρ)

/-- The task has the mutex. -/
def Phase.inside {ς ρ β : Type*} : Phase ς ρ β → Bool
  | .holding _ => true
  | .writing _ _ => true
  | _ => false

/-- The requests to go in the section. -/
def Phase.rest {ς ρ β : Type*} : Phase ς ρ β → List ρ
  | .holding rest => rest
  | .writing _ rest => rest
  | _ => []

/-- The requests to go of the task. -/
def Phase.pending {ς ρ β : Type*} (requests : ς → List ρ) : Phase ς ρ β → List ρ
  | .idle => []
  | .locking site => requests site
  | .holding rest => rest
  | .writing _ rest => rest

/-- The bytes to go of what was encoded last. -/
def Phase.left {ς ρ β : Type*} : Phase ς ρ β → List β
  | .writing left _ => left
  | _ => []

structure State (τ ς ρ φ β κ : Type*) where
  codec : κ
  locked : Bool
  phase : τ → Phase ς ρ β
  wire : List β
  /-- What each task has encoded and written, or is about to write. -/
  wrote : τ → List φ
  /-- The requests of the places that each task has come to. -/
  asked : τ → List ρ

inductive Label (τ ς ω : Type*)
  | enter (site : ς)
  | lock (t : τ)
  | encode (t : τ) (o : ω)
  /-- The sink takes `n` elements. -/
  | put (t : τ) (n : Nat)
  | flush (t : τ)
  | unlock (t : τ)

variable {τ ς ρ φ β κ ω : Type*} [DecidableEq τ] (D : Discipline τ ς ρ φ β κ ω)

def init (codec : κ) : State τ ς ρ φ β κ :=
  ⟨codec, false, fun _ => .idle, [], fun _ => [], fun _ => []⟩

def step (s : State τ ς ρ φ β κ) : Label τ ς ω → Option (State τ ς ρ φ β κ)
  | .enter site =>
    match s.phase (D.task site) with
    | .idle =>
      if D.allowed site then
        some { s with
          phase := update s.phase (D.task site) (.locking site)
          asked := update s.asked (D.task site) (s.asked (D.task site) ++ D.requests site) }
      else none
    | _ => none
  | .lock t =>
    match s.phase t with
    | .locking site =>
      if s.locked then none
      else some { s with locked := true, phase := update s.phase t (.holding (D.requests site)) }
    | _ => none
  | .encode t o =>
    match s.phase t with
    | .holding (r :: rest) =>
      (D.encode o s.codec r).map fun x =>
        { s with
          codec := x.1
          phase := update s.phase t (.writing (D.bytes x.2) rest)
          wrote := update s.wrote t (s.wrote t ++ [x.2]) }
    | _ => none
  | .put t n =>
    match s.phase t with
    | .writing left rest =>
      if 0 < n ∧ n ≤ left.length then
        some { s with
          phase := update s.phase t (.writing (left.drop n) rest)
          wire := s.wire ++ left.take n }
      else none
    | _ => none
  | .flush t =>
    match s.phase t with
    | .writing [] rest => some { s with phase := update s.phase t (.holding rest) }
    | _ => none
  | .unlock t =>
    match s.phase t with
    | .holding [] => some { s with locked := false, phase := update s.phase t .idle }
    | _ => none

/-! ## What a step does -/

inductive Step (s : State τ ς ρ φ β κ) : Label τ ς ω → State τ ς ρ φ β κ → Prop
  | enter {site : ς} (hphase : s.phase (D.task site) = .idle) (hsite : D.allowed site = true) :
    Step s (.enter site)
      { s with
        phase := update s.phase (D.task site) (.locking site)
        asked := update s.asked (D.task site) (s.asked (D.task site) ++ D.requests site) }
  | lock {t : τ} {site : ς} (hphase : s.phase t = .locking site) (hlocked : s.locked = false) :
    Step s (.lock t)
      { s with locked := true, phase := update s.phase t (.holding (D.requests site)) }
  | encode {t : τ} {o : ω} {r : ρ} {rest : List ρ} {codec : κ} {f : φ}
    (hphase : s.phase t = .holding (r :: rest)) (hf : D.encode o s.codec r = some (codec, f)) :
    Step s (.encode t o)
      { s with
        codec := codec
        phase := update s.phase t (.writing (D.bytes f) rest)
        wrote := update s.wrote t (s.wrote t ++ [f]) }
  | put {t : τ} {n : Nat} {left : List β} {rest : List ρ} (hphase : s.phase t = .writing left rest)
    (hn : n ≤ left.length) :
    Step s (.put t n)
      { s with
        phase := update s.phase t (.writing (left.drop n) rest)
        wire := s.wire ++ left.take n }
  | flush {t : τ} {rest : List ρ} (hphase : s.phase t = .writing [] rest) :
    Step s (.flush t) { s with phase := update s.phase t (.holding rest) }
  | unlock {t : τ} (hphase : s.phase t = .holding []) :
    Step s (.unlock t) { s with locked := false, phase := update s.phase t .idle }

variable {D} {s s' : State τ ς ρ φ β κ} {l : Label τ ς ω}

theorem step_cases (h : step D s l = some s') : Step D s l s' := by
  cases l with
  | enter site =>
    rw [step] at h
    split at h
    · rename_i hphase
      split_ifs at h with hsite
      obtain rfl := Option.some.inj h
      exact .enter hphase hsite
    · cases h
  | lock t =>
    rw [step] at h
    split at h
    · rename_i site hphase
      split_ifs at h with hlocked
      obtain rfl := Option.some.inj h
      exact .lock hphase (eq_false_of_ne_true hlocked)
    · cases h
  | encode t o =>
    rw [step] at h
    split at h
    · rename_i r rest hphase
      obtain ⟨⟨codec, f⟩, hf, rfl⟩ := Option.map_eq_some_iff.mp h
      exact .encode hphase hf
    · cases h
  | put t n =>
    rw [step] at h
    split at h
    · rename_i left rest hphase
      split_ifs at h with hn
      obtain rfl := Option.some.inj h
      exact .put hphase hn.2
    · cases h
  | flush t =>
    rw [step] at h
    split at h
    · rename_i rest hphase
      obtain rfl := Option.some.inj h
      exact .flush hphase
    · cases h
  | unlock t =>
    rw [step] at h
    split at h
    · rename_i hphase
      obtain rfl := Option.some.inj h
      exact .unlock hphase
    · cases h

/-! ## The log -/

structure Entry (τ ρ φ : Type*) where
  task : τ
  request : ρ
  item : φ

/-- The entries are what the encoder has given for their requests, one call after the other. -/
inductive Encoded (encode : ω → κ → ρ → Option (κ × φ)) (start : κ) : List (Entry τ ρ φ) → κ → Prop
  | nil : Encoded encode start [] start
  | snoc {log : List (Entry τ ρ φ)} {codec codec' : κ} {t : τ} {o : ω} {r : ρ} {f : φ}
    (h : Encoded encode start log codec) (hf : encode o codec r = some (codec', f)) :
    Encoded encode start (log ++ [⟨t, r, f⟩]) codec'

/-- The bytes of the entries. -/
def bytesOf (bytes : φ → List β) (log : List (Entry τ ρ φ)) : List β :=
  log.flatMap fun e => bytes e.item

/-- What a task has encoded. -/
def itemsOf (t : τ) (log : List (Entry τ ρ φ)) : List φ :=
  (log.filter fun e => decide (e.task = t)).map Entry.item

/-- What was encoded for the requests of a task. -/
def requestsOf (t : τ) (log : List (Entry τ ρ φ)) : List ρ :=
  (log.filter fun e => decide (e.task = t)).map Entry.request

/-- What was encoded, and the places whose requests were. -/
structure Logged (D : Discipline τ ς ρ φ β κ ω) (start : κ) (s : State τ ς ρ φ β κ)
    (log : List (Entry τ ρ φ)) (sites : List ς) : Prop where
  locked : ∀ t, (s.phase t).inside = true → s.locked = true
  unique : ∀ t t', (s.phase t).inside = true → (s.phase t').inside = true → t = t'
  allowed : ∀ t site, s.phase t = .locking site → D.allowed site = true
  encoded : Encoded D.encode start log s.codec
  wrote : ∀ t, s.wrote t = itemsOf t log
  /-- What a task has asked for was encoded, or is still to go. -/
  asked : ∀ t, s.asked t = requestsOf t log ++ (s.phase t).pending D.requests
  passed : ∀ site ∈ sites, D.allowed site = true
  /-- The task that has the mutex has the rest of the last section to go. -/
  held : ∀ t, (s.phase t).inside = true →
    s.wire ++ (s.phase t).left = bytesOf D.bytes log ∧
      log.map Entry.request ++ (s.phase t).rest = sites.flatMap D.requests
  /-- What it still has to write is the end of what it has encoded last. -/
  partly : ∀ t, (s.phase t).left ≠ [] →
    ∃ e, log.getLast? = some e ∧ e.task = t ∧ (s.phase t).left <:+ D.bytes e.item
  free : (∀ t, (s.phase t).inside = false) →
    s.wire = bytesOf D.bytes log ∧ log.map Entry.request = sites.flatMap D.requests

theorem Logged.init (D : Discipline τ ς ρ φ β κ ω) (start : κ) :
    Logged D start (init start) [] [] where
  locked _ h := by cases h
  unique _ _ h := by cases h
  allowed _ _ h := by cases h
  encoded := .nil
  wrote _ := rfl
  asked _ := rfl
  passed _ h := absurd h List.not_mem_nil
  held _ h := by cases h
  partly _ h := (h rfl).elim
  free _ := ⟨rfl, rfl⟩

omit [DecidableEq τ] in
theorem bytesOf_append (bytes : φ → List β) (a b : List (Entry τ ρ φ)) :
    bytesOf bytes (a ++ b) = bytesOf bytes a ++ bytesOf bytes b := List.flatMap_append

theorem itemsOf_snoc (t : τ) (log : List (Entry τ ρ φ)) (e : Entry τ ρ φ) :
    itemsOf t (log ++ [e]) = if e.task = t then itemsOf t log ++ [e.item] else itemsOf t log := by
  unfold itemsOf
  rw [List.filter_append, List.map_append]
  split_ifs with h
  · rw [List.filter_singleton, decide_eq_true h]
    rfl
  · rw [List.filter_singleton, decide_eq_false h]
    exact List.append_nil _

theorem requestsOf_snoc (t : τ) (log : List (Entry τ ρ φ)) (e : Entry τ ρ φ) :
    requestsOf t (log ++ [e]) =
      if e.task = t then requestsOf t log ++ [e.request] else requestsOf t log := by
  unfold requestsOf
  rw [List.filter_append, List.map_append]
  split_ifs with h
  · rw [List.filter_singleton, decide_eq_true h]
    rfl
  · rw [List.filter_singleton, decide_eq_false h]
    exact List.append_nil _

variable {start : κ} {log : List (Entry τ ρ φ)} {sites : List ς}

/-- Outside the mutex the phase of a task may change. -/
theorem Logged.outside (h : Logged D start s log sites) {t : τ} {p : Phase ς ρ β}
    {asked : τ → List ρ} (ht : (s.phase t).inside = false) (hp : p.inside = false)
    (hleft : p.left = []) (hallowed : ∀ site, p = .locking site → D.allowed site = true)
    (hasked : ∀ t', asked t' = requestsOf t' log ++ (update s.phase t p t').pending D.requests) :
    Logged D start { s with phase := update s.phase t p, asked := asked } log sites := by
  have hne : ∀ t', (update s.phase t p t').inside = true → t' ≠ t ∧ (s.phase t').inside = true := by
    intro t' hin
    by_cases heq : t' = t
    · rw [heq, update_self, hp] at hin
      cases hin
    · rw [update_of_ne heq] at hin
      exact ⟨heq, hin⟩
  refine ⟨fun t' hin => h.locked t' (hne t' hin).2, fun t₁ t₂ h₁ h₂ => h.unique t₁ t₂ (hne t₁ h₁).2
    (hne t₂ h₂).2, fun t' site hsite => ?_, h.encoded, h.wrote, hasked, h.passed, fun t' hin => ?_,
    fun t' hleft' => ?_, fun hall => h.free fun t' => ?_⟩
  · dsimp only at hsite
    by_cases heq : t' = t
    · rw [heq, update_self] at hsite
      exact hallowed site hsite
    · rw [update_of_ne heq] at hsite
      exact h.allowed t' site hsite
  · dsimp only
    rw [update_of_ne (hne t' hin).1]
    exact h.held t' (hne t' hin).2
  · dsimp only at hleft' ⊢
    by_cases heq : t' = t
    · rw [heq, update_self] at hleft'
      exact (hleft' hleft).elim
    · rw [update_of_ne heq] at hleft' ⊢
      exact h.partly t' hleft'
  · have hin := hall t'
    dsimp only at hin
    by_cases heq : t' = t
    · rw [heq]
      exact ht
    · rwa [update_of_ne heq] at hin

/-- What the task that has the mutex does, it does alone. -/
theorem Logged.inside (h : Logged D start s log sites) {t : τ} (ht : (s.phase t).inside = true)
    {p : Phase ς ρ β} {codec : κ} {wire : List β} {wrote : τ → List φ} {log' : List (Entry τ ρ φ)}
    (hp : p.inside = true) (hencoded : Encoded D.encode start log' codec)
    (hwrote : ∀ t, wrote t = itemsOf t log')
    (hwire : wire ++ p.left = bytesOf D.bytes log')
    (hrest : log'.map Entry.request ++ p.rest = sites.flatMap D.requests)
    (hasked : ∀ t', s.asked t' = requestsOf t' log' ++ (update s.phase t p t').pending D.requests)
    (hpartly : p.left ≠ [] → ∃ e, log'.getLast? = some e ∧ e.task = t ∧ p.left <:+ D.bytes e.item) :
    Logged D start { s with
      codec := codec, phase := update s.phase t p, wire := wire, wrote := wrote } log' sites := by
  have hother : ∀ t', t' ≠ t → (s.phase t').inside = false := fun t' hne =>
    eq_false_of_ne_true fun hin => hne (h.unique t' t hin ht)
  have heq : ∀ t', (update s.phase t p t').inside = true → t' = t := by
    intro t' hin
    by_contra hne
    rw [update_of_ne hne, hother t' hne] at hin
    cases hin
  refine ⟨fun t' _ => h.locked t ht, fun t₁ t₂ h₁ h₂ => (heq t₁ h₁).trans (heq t₂ h₂).symm,
    fun t' site hsite => ?_, hencoded, hwrote, hasked, h.passed, fun t' hin => ?_,
    fun t' hleft => ?_, fun hall => ?_⟩
  · dsimp only at hsite
    by_cases hne : t' = t
    · rw [hne, update_self] at hsite
      rw [hsite] at hp
      cases hp
    · rw [update_of_ne hne] at hsite
      exact h.allowed t' site hsite
  · obtain rfl := heq t' hin
    dsimp only
    rw [update_self]
    exact ⟨hwire, hrest⟩
  · dsimp only at hleft ⊢
    by_cases hne : t' = t
    · subst hne
      rw [update_self] at hleft ⊢
      exact hpartly hleft
    · rw [update_of_ne hne] at hleft
      have hout := hother t' hne
      cases hphase : s.phase t' with
      | writing left rest =>
        rw [hphase] at hout
        cases hout
      | _ =>
        rw [hphase] at hleft
        exact (hleft rfl).elim
  · have hin := hall t
    dsimp only at hin
    rw [update_self, hp] at hin
    cases hin

/-- What a task has to go stays when its phase changes so. -/
theorem Logged.asked_update (h : Logged D start s log sites) {t : τ} {p : Phase ς ρ β}
    (hp : p.pending D.requests = (s.phase t).pending D.requests) (t' : τ) :
    s.asked t' = requestsOf t' log ++ (update s.phase t p t').pending D.requests := by
  by_cases hne : t' = t
  · rw [hne, update_self, hp]
    exact h.asked t
  · rw [update_of_ne hne]
    exact h.asked t'

theorem Logged.step (h : Logged D start s log sites) (hstep : Guarded.step D s l = some s') :
    ∃ log' sites', Logged D start s' log' sites' := by
  cases step_cases hstep with
  | @enter site hphase hsite =>
    refine ⟨log, sites, h.outside (by rw [hphase]; rfl) rfl rfl (fun site heq => ?_) fun t' => ?_⟩
    · rw [← Phase.locking.inj heq]
      exact hsite
    · by_cases hne : t' = D.task site
      · rw [hne, update_self, update_self, h.asked, hphase]
        simp [Phase.pending]
      · rw [update_of_ne hne, update_of_ne hne]
        exact h.asked t'
  | @lock t site hphase hlocked =>
    have hfree : ∀ t', (s.phase t').inside = false := fun t' =>
      eq_false_of_ne_true fun hin => by cases hlocked.symm.trans (h.locked t' hin)
    obtain ⟨hwire, hrequests⟩ := h.free hfree
    refine ⟨log, sites ++ [site], ?_⟩
    have heq : ∀ t', (update s.phase t (.holding (D.requests site)) t').inside = true → t' = t := by
      intro t' hin
      by_contra hne
      rw [update_of_ne hne, hfree t'] at hin
      cases hin
    refine ⟨fun _ _ => rfl, fun t₁ t₂ h₁ h₂ => (heq t₁ h₁).trans (heq t₂ h₂).symm,
      fun t' site' hsite => ?_, h.encoded, h.wrote, h.asked_update (by rw [hphase]; rfl),
      fun site' hmem => ?_, fun t' hin => ?_, fun t' hleft => ?_, fun hall => ?_⟩
    · dsimp only at hsite
      by_cases hne : t' = t
      · rw [hne, update_self] at hsite
        cases hsite
      · rw [update_of_ne hne] at hsite
        exact h.allowed t' site' hsite
    · rcases List.mem_append.mp hmem with hold | hnew
      · exact h.passed site' hold
      · rw [List.mem_singleton.mp hnew]
        exact h.allowed t site hphase
    · obtain rfl := heq t' hin
      dsimp only
      rw [update_self, List.flatMap_append, List.flatMap_singleton, ← hrequests]
      exact ⟨(List.append_nil _).trans hwire, rfl⟩
    · dsimp only at hleft ⊢
      by_cases hne : t' = t
      · rw [hne, update_self] at hleft
        exact (hleft rfl).elim
      · rw [update_of_ne hne] at hleft ⊢
        exact h.partly t' hleft
    · have hin := hall t
      dsimp only at hin
      rw [update_self] at hin
      cases hin
  | @encode t o r rest codec f hphase hf =>
    have hin : (s.phase t).inside = true := by rw [hphase]; rfl
    obtain ⟨hwire, hrest⟩ := h.held t hin
    rw [hphase] at hwire hrest
    refine ⟨log ++ [⟨t, r, f⟩], sites, h.inside hin rfl (h.encoded.snoc hf) (fun t' => ?_) ?_ ?_
      (fun t' => ?_) ?_⟩
    · rw [itemsOf_snoc]
      by_cases hne : t = t'
      · rw [if_pos hne, ← hne, update_self, h.wrote]
      · rw [if_neg hne, update_of_ne (Ne.symm hne), h.wrote]
    · rw [bytesOf_append, ← hwire]
      simp [bytesOf, Phase.left]
    · rw [← hrest]
      simp [Phase.rest]
    · rw [h.asked, requestsOf_snoc]
      by_cases hne : t = t'
      · rw [if_pos hne, ← hne, update_self, hphase]
        simp [Phase.pending]
      · rw [if_neg hne, update_of_ne (Ne.symm hne)]
    · intro _
      exact ⟨⟨t, r, f⟩, by simp, rfl, List.suffix_rfl⟩
  | @put t n left rest hphase hn =>
    have hin : (s.phase t).inside = true := by rw [hphase]; rfl
    obtain ⟨hwire, hrest⟩ := h.held t hin
    have hpartly := h.partly t
    rw [hphase] at hwire hrest hpartly
    refine ⟨log, sites, h.inside hin rfl h.encoded h.wrote ?_ hrest
      (h.asked_update (by rw [hphase]; rfl)) fun hleft => ?_⟩
    · rw [← hwire]
      show s.wire ++ left.take n ++ left.drop n = s.wire ++ left
      rw [List.append_assoc, List.take_append_drop]
    · have hne : left ≠ [] := by
        rintro rfl
        exact hleft List.drop_nil
      obtain ⟨e, he, htask, hsuffix⟩ := hpartly hne
      exact ⟨e, he, htask, (List.drop_suffix n left).trans hsuffix⟩
  | @flush t rest hphase =>
    have hin : (s.phase t).inside = true := by rw [hphase]; rfl
    obtain ⟨hwire, hrest⟩ := h.held t hin
    rw [hphase] at hwire hrest
    exact ⟨log, sites, h.inside hin rfl h.encoded h.wrote hwire hrest
      (h.asked_update (by rw [hphase]; rfl)) fun hleft => (hleft rfl).elim⟩
  | @unlock t hphase =>
    have hin : (s.phase t).inside = true := by rw [hphase]; rfl
    obtain ⟨hwire, hrest⟩ := h.held t hin
    rw [hphase] at hwire hrest
    have hnone : ∀ t', (update s.phase t .idle t').inside = false := by
      intro t'
      by_cases hne : t' = t
      · rw [hne, update_self]
        rfl
      · rw [update_of_ne hne]
        exact eq_false_of_ne_true fun hin' => hne (h.unique t' t hin' hin)
    have houtside : ∀ t' p, update s.phase t .idle t' = p → p ≠ .idle → s.phase t' = p := by
      intro t' p hp hidle
      by_cases hne : t' = t
      · rw [hne, update_self] at hp
        exact (hidle hp.symm).elim
      · rwa [update_of_ne hne] at hp
    refine ⟨log, sites, fun t' hin' => ?_, fun t' _ hin' => ?_, fun t' site hsite => ?_, h.encoded,
      h.wrote, h.asked_update (by rw [hphase]; rfl), h.passed, fun t' hin' => ?_,
      fun t' hleft => ?_, fun _ => ⟨?_, ?_⟩⟩
    · cases (hnone t').symm.trans hin'
    · cases (hnone t').symm.trans hin'
    · exact h.allowed t' site (houtside t' _ hsite fun hidle => by cases hidle)
    · cases (hnone t').symm.trans hin'
    · dsimp only at hleft ⊢
      by_cases hne : t' = t
      · rw [hne, update_self] at hleft
        exact (hleft rfl).elim
      · rw [update_of_ne hne] at hleft ⊢
        exact h.partly t' hleft
    · exact (List.append_nil _).symm.trans hwire
    · exact (List.append_nil _).symm.trans hrest

/-- **Writing behind a mutex is atomic**, in every run. -/
theorem logged_run {ls : List (Label τ ς ω)} (hrun : run (step D) (init start) ls = some s) :
    ∃ log sites, Logged D start s log sites :=
  invariant_run (I := fun s => ∃ log sites, Logged D start s log sites) (P := fun _ _ => True)
    (fun _ _ _ ⟨_, _, h⟩ _ hstep => h.step hstep) ⟨[], [], .init D start⟩ (Along.trivial _ _) hrun

/-- What was encoded are requests of the places. -/
theorem Logged.request_mem (h : Logged D start s log sites) {e : Entry τ ρ φ} (he : e ∈ log) :
    ∃ site ∈ sites, e.request ∈ D.requests site := by
  have hmem : e.request ∈ log.map Entry.request := List.mem_map_of_mem he
  by_cases hin : ∃ t, (s.phase t).inside = true
  · obtain ⟨t, ht⟩ := hin
    have hrest := (h.held t ht).2
    exact List.mem_flatMap.mp (hrest ▸ List.mem_append_left _ hmem)
  · have hfree : ∀ t, (s.phase t).inside = false := fun t =>
      eq_false_of_ne_true fun ht => hin ⟨t, ht⟩
    exact List.mem_flatMap.mp ((h.free hfree).2 ▸ hmem)

/-- Between two items only whole ones are in the sink. -/
theorem Logged.whole (h : Logged D start s log sites) (hleft : ∀ t, (s.phase t).left = []) :
    s.wire = bytesOf D.bytes log := by
  by_cases hin : ∃ t, (s.phase t).inside = true
  · obtain ⟨t, ht⟩ := hin
    have hwire := (h.held t ht).1
    rwa [hleft t, List.append_nil] at hwire
  · exact (h.free fun t => eq_false_of_ne_true fun ht => hin ⟨t, ht⟩).1

omit [DecidableEq τ] in
theorem Phase.inside_of_left {p : Phase ς ρ β} (h : p.left ≠ []) : p.inside = true := by
  cases p with
  | writing left rest => rfl
  | _ => exact (h rfl).elim

end LightrCri.Foundations.Guarded

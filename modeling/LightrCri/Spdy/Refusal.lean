import LightrCri.Spdy.Isolation
import Mathlib.Data.List.Pairwise

/-!
# Refused dials

What the client of a port-forward connection is told when a dial fails. The dial is part of opening
the data stream of a pair, and it is reported on the error stream that the pair has at that moment;
an error stream that is opened afterwards is not told anything.

`refused_iff` says that the report of a failed dial is complete exactly if the error stream of the
pair is opened first; `refused_silently` is a run in which it is not. The proof keeps what the
client has opened so far (`Syn`) next to the state (`Recorded`).
-/

namespace LightrCri.Spdy.Portforward

open Foundations LightrCri.Stream Function

/-! ## What the client opens -/

/-- A stream that the client opens. -/
structure Syn where
  id : UInt32
  key : String
  error : Bool
  deriving DecidableEq

def Label.opens : Label → Option Syn
  | .recv (.frame (.synStream id hdr)) => some ⟨id, reqId hdr, isError hdr⟩
  | _ => none

/-- The streams that the client opens in a run. -/
def opened (ls : List Label) : List Syn := ls.filterMap Label.opens

theorem opened_append (ls ls' : List Label) : opened (ls ++ ls') = opened ls ++ opened ls' :=
  List.filterMap_append

theorem opened_cons (l : Label) (ls : List Label) :
    opened (l :: ls) = l.opens.toList ++ opened ls := by
  unfold opened
  cases h : l.opens with
  | none => rw [List.filterMap_cons_none h]; rfl
  | some o => rw [List.filterMap_cons_some h]; rfl

/-- Two streams have ids of their own, and if they belong to one request, different roles. -/
def Syn.Apart (a b : Syn) : Prop := a.id ≠ b.id ∧ (a.key = b.key → a.error ≠ b.error)

instance : DecidableRel Syn.Apart := fun _ _ => instDecidableAnd

instance : Std.Symm Syn.Apart := ⟨fun _ _ h => ⟨h.1.symm, fun he => (h.2 he.symm).symm⟩⟩

/-- Every stream has an id of its own, and every request has one data and one error stream. -/
def Paired (os : List Syn) : Prop := os.Pairwise Syn.Apart

instance (os : List Syn) : Decidable (Paired os) :=
  inferInstanceAs (Decidable (os.Pairwise Syn.Apart))

theorem Paired.eq_of_id {os : List Syn} (h : Paired os) {a b : Syn} (ha : a ∈ os) (hb : b ∈ os)
    (hid : a.id = b.id) : a = b := by
  by_contra hne
  exact (List.Pairwise.forall h ha hb hne).1 hid

theorem Paired.eq_of_role {os : List Syn} (h : Paired os) {a b : Syn} (ha : a ∈ os) (hb : b ∈ os)
    (hkey : a.key = b.key) (herror : a.error = b.error) : a = b := by
  by_contra hne
  exact (List.Pairwise.forall h ha hb hne).2 hkey herror

/-! ## What the client is told -/

/-- The stream whose refusal the frame is part of. -/
def refusedStream : Outbound → Option UInt32
  | .rst id _ => some id
  | .data id flags bytes => if flags = FLAG_FIN ∧ bytes ≠ [] then some id else none
  | _ => none

/-- Nothing is refused on the stream. -/
def Quiet (s : State) (id : UInt32) : Prop := ∀ f ∈ s.out, refusedStream f ≠ some id

/-- The message and the resets of a refused dial, each once. -/
structure Reported (s : State) (d e : UInt32) : Prop where
  message : s.out.count (.data e FLAG_FIN (utf8 "dial failed")) = 1
  data : s.out.count (.rst d RST_REFUSED_STREAM) = 1
  error : s.out.count (.rst e RST_REFUSED_STREAM) = 1

/-- The frames on a stream. -/
def framesOn (s : State) (id : UInt32) : List Outbound := s.out.filter fun f => f.stream = some id

theorem mem_refusal_refused {id : UInt32} {err : Option UInt32} {f : Outbound}
    (h : f ∈ refusal id err) :
    refusedStream f = some id ∨ ∃ e, err = some e ∧ refusedStream f = some e := by
  cases err with
  | none =>
    have hf : f = .rst id RST_REFUSED_STREAM := by simpa [refusal] using h
    exact .inl (hf ▸ rfl)
  | some e =>
    have hf : f = .data e FLAG_FIN (utf8 "dial failed") ∨ f = .rst id RST_REFUSED_STREAM ∨
        f = .rst e RST_REFUSED_STREAM := by simpa [refusal] using h
    rcases hf with rfl | rfl | rfl
    · have hmsg : utf8 "dial failed" ≠ [] := by decide
      refine .inr ⟨e, rfl, ?_⟩
      show (if FLAG_FIN = FLAG_FIN ∧ utf8 "dial failed" ≠ [] then some e else none) = some e
      rw [if_pos ⟨rfl, hmsg⟩]
    · exact .inl rfl
    · exact .inr ⟨e, rfl, rfl⟩

/-- The frame is part of the refusal of a dial that ends with this step. -/
def Refuses (s : State) (l : Label) (f : Outbound) : Prop :=
  ∃ id key pair, l = .dialed id false ∧ s.pc = .dialing id key ∧ s.pairs key = some pair ∧
    f ∈ refusal id pair.errorStream

/-- **What a step sends**: nothing is refused but by a dial that ends. -/
theorem step_out {s s' : State} {l : Label} (hstep : step s l = some s') :
    ∃ more, s'.out = s.out ++ more ∧ ∀ f ∈ more, refusedStream f = none ∨ Refuses s l f := by
  have hnone (hout : s'.out = s.out) : ∃ more, s'.out = s.out ++ more ∧
      ∀ f ∈ more, refusedStream f = none ∨ Refuses s l f :=
    ⟨[], by rw [hout, List.append_nil], fun f hf => absurd hf List.not_mem_nil⟩
  have hone (f : Outbound) (hf : refusedStream f = none) (hout : s'.out = s.out ++ [f]) :
      ∃ more, s'.out = s.out ++ more ∧ ∀ f ∈ more, refusedStream f = none ∨ Refuses s l f :=
    ⟨[f], hout, fun g hg => .inl (List.mem_singleton.mp hg ▸ hf)⟩
  cases step_cases hstep with
  | opened =>
    rename_i id hdr _
    refine hone (.synReply id) rfl ?_
    unfold synStream
    dsimp only
    split <;> rfl
  | data =>
    apply hnone
    unfold data
    split <;> rfl
  | ping =>
    rename_i id _
    exact hone (.ping id) rfl rfl
  | dialed hpc =>
    rename_i id key ok
    unfold dialed
    split
    · exact ⟨[], (List.append_nil _).symm, fun f hf => absurd hf List.not_mem_nil⟩
    · rename_i pair hpair
      cases ok with
      | true => exact ⟨[], (List.append_nil _).symm, fun f hf => absurd hf List.not_mem_nil⟩
      | false =>
        exact ⟨_, rfl, fun f hf => .inr ⟨id, key, pair, rfl, hpc, hpair, hf⟩⟩
  | fromTcp =>
    rename_i c bytes _ _ _
    refine hone (.data c.1 0 bytes) ?_ rfl
    have hflags : (0 : UInt8) ≠ FLAG_FIN := by decide
    show (if (0 : UInt8) = FLAG_FIN ∧ bytes ≠ [] then some c.1 else none) = none
    rw [if_neg fun h => hflags h.1]
  | eofTcp =>
    rename_i c _ _
    refine hone (.data c.1 FLAG_FIN []) ?_ rfl
    show (if FLAG_FIN = FLAG_FIN ∧ ([] : Bytes) ≠ [] then some c.1 else none) = none
    rw [if_neg fun h => h.2 rfl]
  | _ => exact hnone rfl

/-! ## What is recorded -/

/-- The error stream that a pair has. -/
def errorOf (s : State) (key : String) : Option UInt32 := (s.pairs key).bind Pair.errorStream

theorem errorOf_synStream (s : State) (id : UInt32) (hdr : Headers) (key : String) :
    errorOf (synStream s id hdr) key =
      if isError hdr = true ∧ key = reqId hdr then some id else errorOf s key := by
  unfold errorOf synStream
  dsimp only
  split
  · rename_i herror
    by_cases hkey : key = reqId hdr
    · rw [if_pos ⟨herror, hkey⟩, hkey]
      simp
    · rw [if_neg fun h => hkey h.2]
      simp [update_of_ne hkey]
  · rename_i herror
    rw [if_neg fun h => herror h.1]
    by_cases hkey : key = reqId hdr
    · subst hkey
      simp [entry_errorStream]
    · simp [update_of_ne hkey]

theorem errorOf_dialed (s : State) (id : UInt32) (key key' : String) (ok : Bool) :
    errorOf (dialed s id key ok) key' = errorOf s key' := by
  unfold errorOf dialed
  split
  · rfl
  · rename_i pair hpair
    split
    · by_cases hkey : key' = key
      · subst hkey
        simp [hpair]
      · simp [update_of_ne hkey]
    · rfl

/-- A step that opens no stream leaves the error streams alone. -/
theorem errorOf_step {s s' : State} {l : Label} (hl : l.opens = none)
    (hstep : step s l = some s') (key : String) : errorOf s' key = errorOf s key := by
  cases step_cases hstep with
  | opened => cases hl
  | data =>
    unfold data
    split <;> rfl
  | dialed => exact errorOf_dialed _ _ _ _ _
  | _ => rfl

/-- A step that opens no stream leaves the loop where it is, or it does not dial then. -/
theorem pc_step {s s' : State} {l : Label} (hl : l.opens = none) (hstep : step s l = some s') :
    s'.pc = s.pc ∨ ∀ id key, s'.pc ≠ .dialing id key := by
  cases step_cases hstep with
  | opened => cases hl
  | data =>
    unfold data
    split
    · exact .inr fun id key h => by cases h
    · exact .inl rfl
  | dialed => exact .inr fun id key h => by cases (dialed_pc _ _ _ _).symm.trans h
  | ping => exact .inl rfl
  | fromTcp => exact .inl rfl
  | eofTcp => exact .inl rfl
  | deadline => exact .inl rfl
  | _ => exact .inr fun id key h => by cases h

/-- The pairs there are stay. -/
theorem pairs_step {s s' : State} {l : Label} (hl : l.opens = none) (hstep : step s l = some s')
    {key : String} (h : (s.pairs key).isSome = true) : (s'.pairs key).isSome = true := by
  cases step_cases hstep with
  | opened => cases hl
  | data =>
    unfold data
    split <;> exact h
  | dialed =>
    unfold dialed
    split
    · exact h
    · split
      · dsimp only
        rw [update_apply]
        split
        · rfl
        · exact h
      · exact h
  | _ => exact h

/-- What the client has opened is recorded, and only what a dial has refused was refused. -/
structure Recorded (os : List Syn) (s : State) : Prop where
  error : ∀ key e, errorOf s key = some e ↔ ⟨e, key, true⟩ ∈ os
  dialing : ∀ id key, s.pc = .dialing id key → ⟨id, key, false⟩ ∈ os ∧ (s.pairs key).isSome = true
  unopened : ∀ x, (∀ o ∈ os, o.id ≠ x) → Quiet s x
  undialed : ∀ id key, s.pc = .dialing id key → Quiet s id
  /-- No dial of the pair has ended. -/
  waiting : ∀ e key, ⟨e, key, true⟩ ∈ os →
    (∀ d, ⟨d, key, false⟩ ∈ os → s.pc = .dialing d key) → Quiet s e

theorem Recorded.init : Recorded [] init where
  error _ _ := ⟨nofun, fun h => absurd h List.not_mem_nil⟩
  dialing _ _ h := by cases h
  unopened _ _ _ hf := by cases hf
  undialed _ _ h := by cases h
  waiting _ _ h := by cases h

variable {os : List Syn} {s s' : State} {l : Label}

theorem Quiet.append {x : UInt32} {more : List Outbound} (h : Quiet s x)
    (hout : s'.out = s.out ++ more) (hmore : ∀ f ∈ more, refusedStream f ≠ some x) :
    Quiet s' x := by
  intro f hf
  rw [hout] at hf
  rcases List.mem_append.mp hf with hf | hf
  · exact h f hf
  · exact hmore f hf

/-- A step that refuses no dial leaves a stream quiet. -/
theorem Quiet.step {x : UInt32} (h : Quiet s x) (hstep : step s l = some s')
    (hl : ∀ f, ¬ Refuses s l f) : Quiet s' x := by
  obtain ⟨more, hout, hmore⟩ := step_out hstep
  refine h.append hout fun f hf => ?_
  rcases hmore f hf with hnone | hrefuses
  · rw [hnone]
    exact nofun
  · exact absurd hrefuses (hl f)

/-- The streams of a refusal belong to the pair that was dialed. -/
theorem Recorded.refuses (h : Recorded os s) {f : Outbound} (hf : Refuses s l f) {x : UInt32}
    (hx : refusedStream f = some x) :
    ∃ id key, s.pc = .dialing id key ∧ ∃ o ∈ os, o.id = x ∧ o.key = key := by
  obtain ⟨id, key, pair, -, hpc, hpair, hf⟩ := hf
  refine ⟨id, key, hpc, ?_⟩
  rcases mem_refusal_refused hf with hid | ⟨e, he, hid⟩
  · have hx : id = x := Option.some.inj (hid.symm.trans hx)
    exact ⟨_, (h.dialing id key hpc).1, hx, rfl⟩
  · have hx : e = x := Option.some.inj (hid.symm.trans hx)
    refine ⟨⟨e, key, true⟩, (h.error key e).mp ?_, hx, rfl⟩
    unfold errorOf
    rw [hpair]
    exact he

/-- The client opens a stream. -/
theorem Recorded.syn (h : Recorded os s) {id : UInt32} {hdr : Headers} (hpc : s.pc = .reading)
    (hos : Paired (os ++ [⟨id, reqId hdr, isError hdr⟩])) :
    Recorded (os ++ [⟨id, reqId hdr, isError hdr⟩]) (synStream s id hdr) := by
  have hfresh : ∀ o ∈ os, o.id ≠ id := fun o ho => by
    have hapart := (List.pairwise_append.mp hos).2.2 o ho _ List.mem_cons_self
    exact hapart.1
  have hquiet (x : UInt32) (hx : Quiet s x) : Quiet (synStream s id hdr) x := by
    have hstep : step s (.recv (.frame (.synStream id hdr))) = some (synStream s id hdr) := by
      unfold Portforward.step
      dsimp only
      rw [if_pos hpc]
    refine hx.step hstep ?_
    rintro f ⟨_, _, _, hl, _⟩
    cases hl
  have hnew : ⟨id, reqId hdr, isError hdr⟩ ∈ os ++ [(⟨id, reqId hdr, isError hdr⟩ : Syn)] :=
    List.mem_append_right _ List.mem_cons_self
  have hunopened (x : UInt32) (hx : ∀ o ∈ os ++ [⟨id, reqId hdr, isError hdr⟩], o.id ≠ x) :
      Quiet (synStream s id hdr) x :=
    hquiet x (h.unopened x fun o ho => hx o (List.mem_append_left _ ho))
  have herror (key : String) (e : UInt32) : errorOf (synStream s id hdr) key = some e ↔
      ⟨e, key, true⟩ ∈ os ++ [(⟨id, reqId hdr, isError hdr⟩ : Syn)] := by
    rw [errorOf_synStream]
    split
    · rename_i hcond
      obtain ⟨hisError, rfl⟩ := hcond
      constructor
      · intro he
        obtain rfl := Option.some.inj he
        rw [← hisError]
        exact hnew
      · intro he
        have := hos.eq_of_role he hnew rfl hisError.symm
        rw [(Syn.mk.inj this).1]
    · rename_i hcond
      rw [h.error key e, List.mem_append, List.mem_singleton]
      constructor
      · exact .inl
      · rintro (he | he)
        · exact he
        · obtain ⟨-, hkey, hisError⟩ := Syn.mk.inj he
          exact absurd ⟨hisError.symm, hkey⟩ hcond
  cases hrole : isError hdr with
  | true =>
    have hpc' : (synStream s id hdr).pc = .reading := by
      unfold synStream
      dsimp only
      rw [if_pos hrole]
      exact hpc
    rw [← hrole]
    refine ⟨herror, fun _ _ hd => ?_, hunopened, fun _ _ hd => ?_, fun e key he hwait => ?_⟩
    · cases hpc'.symm.trans hd
    · cases hpc'.symm.trans hd
    · rcases List.mem_append.mp he with he | he
      · refine hquiet e (h.waiting e key he fun d hd => ?_)
        cases hpc'.symm.trans (hwait d (List.mem_append_left _ hd))
      · obtain ⟨rfl, -, -⟩ := Syn.mk.inj (List.mem_singleton.mp he)
        exact hquiet e (h.unopened e hfresh)
  | false =>
    have hpc' : (synStream s id hdr).pc = .dialing id (reqId hdr) := by
      unfold synStream
      dsimp only
      rw [if_neg (by rw [hrole]; exact Bool.false_ne_true)]
    have hpairs : ((synStream s id hdr).pairs (reqId hdr)).isSome = true := by
      unfold synStream
      dsimp only
      rw [if_neg (by rw [hrole]; exact Bool.false_ne_true)]
      simp
    rw [← hrole]
    refine ⟨herror, fun _ _ hd => ?_, hunopened, fun _ _ hd => ?_, fun e key he hwait => ?_⟩
    · obtain ⟨rfl, rfl⟩ := Pc.dialing.inj (hpc'.symm.trans hd)
      refine ⟨?_, hpairs⟩
      rw [← hrole]
      exact hnew
    · obtain ⟨rfl, rfl⟩ := Pc.dialing.inj (hpc'.symm.trans hd)
      exact hquiet _ (h.unopened _ hfresh)
    · rcases List.mem_append.mp he with he | he
      · refine hquiet e (h.waiting e key he fun d hd => ?_)
        -- a data stream opened before is not the one that is dialed now
        obtain ⟨rfl, -⟩ := Pc.dialing.inj (hpc'.symm.trans (hwait d (List.mem_append_left _ hd)))
        exact absurd rfl (hfresh _ hd)
      · have := (Syn.mk.inj (List.mem_singleton.mp he)).2.2
        cases this.trans hrole

/-- **Every step keeps the record.** -/
theorem Recorded.step (h : Recorded os s) (hos : Paired (os ++ l.opens.toList))
    (hstep : step s l = some s') : Recorded (os ++ l.opens.toList) s' := by
  cases hl : l.opens with
  | some o =>
    cases step_cases hstep with
    | opened hpc =>
      obtain rfl := Option.some.inj hl
      exact h.syn hpc hos
    | @quit f _ hf =>
      cases f with
      | frame f => cases hf
      | _ => cases hl
    | _ => cases hl
  | none =>
    rw [hl, Option.toList_none, List.append_nil] at hos
    rw [Option.toList_none, List.append_nil]
    have hpc := pc_step hl hstep
    have hdialing (id : UInt32) (key : String) (hd : s'.pc = .dialing id key) :
        s.pc = .dialing id key := by
      rcases hpc with heq | hne
      · rw [← heq, hd]
      · exact absurd hd (hne id key)
    obtain ⟨more, hout, hmore⟩ := step_out hstep
    -- a stream stays quiet unless its pair is the one whose dial ends
    have hquiet (x : UInt32) (hx : Quiet s x)
        (hpair : ∀ id key, s.pc = .dialing id key → s'.pc ≠ .dialing id key →
          ∀ o ∈ os, o.key = key → o.id ≠ x) : Quiet s' x := by
      refine hx.append hout fun f hf => ?_
      rcases hmore f hf with hnone | hrefuses
      · rw [hnone]
        exact nofun
      · intro hfx
        obtain ⟨id, key, hpc', o, ho, hox, hokey⟩ := h.refuses hrefuses hfx
        have hended : s'.pc ≠ .dialing id key := by
          obtain ⟨id', key', pair, rfl, hpc'', hpair', -⟩ := hrefuses
          rcases hpc with heq | hne
          · intro _
            cases step_cases hstep with
            | dialed => cases (dialed_pc _ _ _ _).symm.trans (heq.trans hpc')
          · exact hne id key
        exact hpair id key hpc' hended o ho hokey hox
    refine ⟨fun key e => ?_, fun id key hd => ?_, fun x hx => ?_, fun id key hd => ?_,
      fun e key he hwait => ?_⟩
    · rw [errorOf_step hl hstep]
      exact h.error key e
    · have hrec := h.dialing id key (hdialing id key hd)
      exact ⟨hrec.1, pairs_step hl hstep hrec.2⟩
    · exact hquiet x (h.unopened x hx) fun _ _ _ _ o ho _ => hx o ho
    · refine hquiet id (h.undialed id key (hdialing id key hd)) fun id' key' hpc' hne => ?_
      obtain ⟨rfl, rfl⟩ := Pc.dialing.inj ((hdialing id key hd).symm.trans hpc')
      exact absurd hd hne
    · have hwait' (d : UInt32) (hd : ⟨d, key, false⟩ ∈ os) : s.pc = .dialing d key :=
        hdialing d key (hwait d hd)
      refine hquiet e (h.waiting e key he hwait') fun id' key' hpc' hne o ho hkey hid => ?_
      obtain rfl := hos.eq_of_id ho he hid
      obtain rfl : key = key' := hkey
      exact hne (hwait id' (h.dialing id' key hpc').1)

theorem Recorded.run {ls : List Label} (h : Recorded os s) (hos : Paired (os ++ opened ls))
    (hrun : Foundations.run Portforward.step s ls = some s') :
    Recorded (os ++ opened ls) s' := by
  induction ls generalizing os s with
  | nil =>
    obtain rfl := Option.some.inj hrun
    rw [show opened [] = [] from rfl, List.append_nil]
    exact h
  | cons l ls ih =>
    obtain ⟨s₁, h₁, h₂⟩ := run_cons_eq_some.mp hrun
    rw [opened_cons, ← List.append_assoc] at hos ⊢
    exact ih (h.step (List.pairwise_append.mp hos).1 h₁) hos h₂

/-! ## After the dial -/

/-- When its dial has ended, nothing more is refused on the streams of a pair. -/
theorem Recorded.count_step {d x : UInt32} {key : String} {role : Bool} {total : List Syn}
    (h : Recorded os s) (hos : Paired total) (hsub : ∀ o ∈ os, o ∈ total)
    (hd : ⟨d, key, false⟩ ∈ os) (hx : ⟨x, key, role⟩ ∈ total) (hpc : s.pc ≠ .dialing d key)
    (hstep : Portforward.step s l = some s') {f : Outbound} (hf : refusedStream f = some x) :
    s'.out.count f = s.out.count f := by
  obtain ⟨more, hout, hmore⟩ := step_out hstep
  have hnot : f ∉ more := by
    intro hmem
    rcases hmore f hmem with hnone | hrefuses
    · cases hnone.symm.trans hf
    · obtain ⟨id, key', hpc', o, ho, hid, hkey⟩ := h.refuses hrefuses hf
      obtain rfl := hos.eq_of_id (hsub o ho) hx hid
      obtain rfl : key = key' := hkey
      have hdialed := (h.dialing id key hpc').1
      have := hos.eq_of_role (hsub _ hdialed) (hsub _ hd) rfl rfl
      rw [(Syn.mk.inj this).1] at hpc'
      exact hpc hpc'
  rw [hout, List.count_append, List.count_eq_zero_of_not_mem hnot, Nat.add_zero]

/-- A stream is dialed once. -/
theorem dialing_step {d : UInt32} {key : String} (hos : Paired (os ++ l.opens.toList))
    (hd : ⟨d, key, false⟩ ∈ os) (hpc : s.pc ≠ .dialing d key)
    (hstep : Portforward.step s l = some s') : s'.pc ≠ .dialing d key := by
  cases hl : l.opens with
  | none =>
    rcases pc_step hl hstep with heq | hne
    · rwa [heq]
    · exact hne d key
  | some o =>
    cases step_cases hstep with
    | @opened id hdr hread =>
      obtain rfl := Option.some.inj hl
      intro hdial
      have hid : id = d := by
        unfold synStream at hdial
        dsimp only at hdial
        split at hdial
        · cases hread.symm.trans hdial
        · exact (Pc.dialing.inj hdial).1
      exact ((List.pairwise_append.mp hos).2.2 _ hd _ List.mem_cons_self).1 hid.symm
    | @quit f _ hf =>
      cases f with
      | frame f => cases hf
      | _ => cases hl
    | _ => cases hl

theorem Recorded.count_run {d x : UInt32} {key : String} {role : Bool} {total : List Syn}
    {ls : List Label} (h : Recorded os s) (hos : Paired total) (htotal : total = os ++ opened ls)
    (hd : ⟨d, key, false⟩ ∈ os) (hx : ⟨x, key, role⟩ ∈ total) (hpc : s.pc ≠ .dialing d key)
    (hrun : Foundations.run Portforward.step s ls = some s') {f : Outbound}
    (hf : refusedStream f = some x) : s'.out.count f = s.out.count f := by
  induction ls generalizing os s with
  | nil =>
    obtain rfl := Option.some.inj hrun
    rfl
  | cons l ls ih =>
    obtain ⟨s₁, h₁, h₂⟩ := run_cons_eq_some.mp hrun
    rw [opened_cons, ← List.append_assoc] at htotal
    have hos₁ : Paired (os ++ l.opens.toList) :=
      (List.pairwise_append.mp (htotal ▸ hos)).1
    have hsub : ∀ o ∈ os, o ∈ total := fun o ho =>
      htotal ▸ List.mem_append_left _ (List.mem_append_left _ ho)
    rw [ih (h.step hos₁ h₁) htotal (List.mem_append_left _ hd) (dialing_step hos₁ hd hpc h₁) h₂]
    exact h.count_step hos hsub hd hx hpc h₁ hf

theorem Quiet.count {x : UInt32} (h : Quiet s x) {f : Outbound} (hf : refusedStream f = some x) :
    s.out.count f = 0 :=
  List.count_eq_zero_of_not_mem fun hmem => h f hmem hf

theorem refusedStream_message (e : UInt32) :
    refusedStream (.data e FLAG_FIN (utf8 "dial failed")) = some e := by
  have hmsg : utf8 "dial failed" ≠ [] := by decide
  show (if FLAG_FIN = FLAG_FIN ∧ utf8 "dial failed" ≠ [] then some e else none) = some e
  rw [if_pos ⟨rfl, hmsg⟩]

/-- What is told of a dial that fails at a pair with this error stream. -/
theorem count_refusal {s s' : State} {d e : UInt32} {err : Option UInt32}
    (hout : s'.out = s.out ++ refusal d err) (hd : Quiet s d) (he : Quiet s e) (hne : d ≠ e)
    (herr : ∀ e', err = some e' → e' = e) : Reported s' d e ↔ err = some e := by
  have hmsg := he.count (refusedStream_message e)
  have hrst := he.count (f := .rst e RST_REFUSED_STREAM) rfl
  have hdata := hd.count (f := .rst d RST_REFUSED_STREAM) rfl
  cases err with
  | none =>
    constructor
    · intro hrep
      have hcount := hrep.error
      rw [hout, List.count_append, hrst] at hcount
      simp [refusal, hne] at hcount
    · intro hsome
      cases hsome
  | some e' =>
    obtain rfl := herr e' rfl
    refine ⟨fun _ => rfl, fun _ => ⟨?_, ?_, ?_⟩⟩
    · rw [hout, List.count_append, hmsg]
      simp [refusal]
    · rw [hout, List.count_append, hdata]
      simp [refusal, hne.symm]
    · rw [hout, List.count_append, hrst]
      simp [refusal, hne]

/-- **Refused dials**: the failure of a dial is reported in full, on the error stream and with a
reset of both streams of the pair, and nothing on any other stream, exactly if the error stream of
the pair has been opened when the dial ends, which is before its data stream. -/
theorem refused_iff {before after : List Label} {s₁ s₂ s : State} {d e : UInt32} {key : String}
    (hos : Paired (opened (before ++ Label.dialed d false :: after)))
    (hd : ⟨d, key, false⟩ ∈ opened before)
    (he : ⟨e, key, true⟩ ∈ opened (before ++ Label.dialed d false :: after))
    (hbefore : run step init before = some s₁) (hdial : step s₁ (.dialed d false) = some s₂)
    (hafter : run step s₂ after = some s) :
    (Reported s d e ∧ ∀ x, x ≠ d → x ≠ e → framesOn s₂ x = framesOn s₁ x) ↔
      ⟨e, key, true⟩ ∈ opened before := by
  have hsplit : opened (before ++ Label.dialed d false :: after) =
      opened before ++ opened after := by
    rw [opened_append, opened_cons]
    rfl
  rw [hsplit] at hos he
  have hdtotal : ⟨d, key, false⟩ ∈ opened before ++ opened after := List.mem_append_left _ hd
  have hrec₁ : Recorded (opened before) s₁ :=
    Recorded.init.run (List.pairwise_append.mp hos).1 hbefore
  have hrec₂ : Recorded (opened before) s₂ := by
    have h := hrec₁.step (l := .dialed d false)
      ((List.append_nil (opened before)).symm ▸ (List.pairwise_append.mp hos).1) hdial
    exact (List.append_nil (opened before)) ▸ h
  cases step_cases hdial with
  | @dialed _ key' _ hpc =>
    have hkey : key' = key := by
      have hdialing := (hrec₁.dialing d key' hpc).1
      have := hos.eq_of_id (List.mem_append_left _ hdialing) hdtotal rfl
      exact (Syn.mk.inj this).2.1
    subst hkey
    have hne : d ≠ e := by
      rintro rfl
      exact absurd (Syn.mk.inj (hos.eq_of_id hdtotal he rfl)).2.2 Bool.false_ne_true
    obtain ⟨pair, hpair⟩ := Option.isSome_iff_exists.mp (hrec₁.dialing d key' hpc).2
    have hout : (dialed s₁ d key' false).out = s₁.out ++ refusal d pair.errorStream := by
      unfold dialed
      rw [hpair]
      rfl
    have hpc₂ : (dialed s₁ d key' false).pc ≠ .dialing d key' := by
      rw [dialed_pc]
      exact nofun
    have herrorOf : errorOf s₁ key' = pair.errorStream := by
      unfold errorOf
      rw [hpair]
      rfl
    have herr (e' : UInt32) (h : pair.errorStream = some e') : e' = e := by
      have hmem := (hrec₁.error key' e').mp (herrorOf.trans h)
      have := hos.eq_of_role (List.mem_append_left _ hmem) he rfl rfl
      exact (Syn.mk.inj this).1
    have hquietd : Quiet s₁ d := hrec₁.undialed d key' hpc
    have hquiete : Quiet s₁ e := by
      rcases List.mem_append.mp he with hmem | hmem
      · refine hrec₁.waiting e key' hmem fun d' hd' => ?_
        have := hos.eq_of_role (List.mem_append_left _ hd') hdtotal rfl rfl
        rw [(Syn.mk.inj this).1]
        exact hpc
      · refine hrec₁.unopened e fun o ho => ?_
        exact ((List.pairwise_append.mp hos).2.2 o ho _ hmem).1
    have hcount {x : UInt32} {role : Bool} (hx : ⟨x, key', role⟩ ∈ opened before ++ opened after)
        {f : Outbound} (hf : refusedStream f = some x) :
        s.out.count f = (dialed s₁ d key' false).out.count f :=
      hrec₂.count_run hos rfl hd hx hpc₂ hafter hf
    have hlater : Reported s d e ↔ Reported (dialed s₁ d key' false) d e := by
      constructor
      · rintro ⟨h₁, h₂, h₃⟩
        rw [hcount he (refusedStream_message e)] at h₁
        rw [hcount hdtotal rfl] at h₂
        rw [hcount he rfl] at h₃
        exact ⟨h₁, h₂, h₃⟩
      · rintro ⟨h₁, h₂, h₃⟩
        rw [← hcount he (refusedStream_message e)] at h₁
        rw [← hcount hdtotal rfl] at h₂
        rw [← hcount he rfl] at h₃
        exact ⟨h₁, h₂, h₃⟩
    have hothers (x : UInt32) (hxd : x ≠ d) (hxe : x ≠ e) :
        framesOn (dialed s₁ d key' false) x = framesOn s₁ x := by
      unfold framesOn
      rw [hout, List.filter_append]
      have hnil : (refusal d pair.errorStream).filter (fun f => f.stream = some x) = [] := by
        refine List.filter_eq_nil_iff.mpr fun f hf => ?_
        rcases mem_refusal hf with h | ⟨e', he', h⟩
        · rw [h]
          simpa using hxd.symm
        · rw [h, herr e' he']
          simpa using hxe.symm
      rw [hnil, List.append_nil]
    rw [hlater, count_refusal hout hquietd hquiete hne herr, ← hrec₁.error key' e, herrorOf]
    exact and_iff_left hothers

/-! ## Two pairs -/

def pairHeaders (role : String) : Headers :=
  [("streamType", role), ("port", "80"), ("requestID", "0")]

/-- The client opens a stream of a pair. -/
def opening (id : UInt32) (role : String) : Label :=
  .recv (.frame (.synStream id (pairHeaders role)))

def errorFirst : List Label := [opening 1 "error", opening 3 "data"]

def dataFirst : List Label := [opening 1 "data"]

theorem refused_error_first :
    ∃ s₁ s₂ s, run step init errorFirst = some s₁ ∧ step s₁ (.dialed 3 false) = some s₂ ∧
      run step s₂ [.recv .closed] = some s ∧
        (Reported s 3 1 ∧ ∀ x, x ≠ 3 → x ≠ 1 → framesOn s₂ x = framesOn s₁ x) := by
  have hrun : ((run step init errorFirst).bind fun s₁ => (step s₁ (.dialed 3 false)).bind fun s₂ =>
      run step s₂ [.recv .closed]).isSome = true := by decide
  obtain ⟨s, hs⟩ := Option.isSome_iff_exists.mp hrun
  obtain ⟨s₁, h₁, hs⟩ := Option.bind_eq_some_iff.mp hs
  obtain ⟨s₂, h₂, h₃⟩ := Option.bind_eq_some_iff.mp hs
  refine ⟨s₁, s₂, s, h₁, h₂, h₃, ?_⟩
  have hd : (⟨3, "0", false⟩ : Syn) ∈ opened errorFirst := by decide
  have he : (⟨1, "0", true⟩ : Syn) ∈ opened errorFirst := by decide
  exact (refused_iff (by decide) hd
    (by rw [opened_append]; exact List.mem_append_left _ he) h₁ h₂ h₃).mpr he

/-- A pair whose data stream is opened first: its error stream is told nothing. -/
theorem refused_silently :
    ∃ s₁ s₂ s,
      Paired (opened (dataFirst ++ Label.dialed 1 false :: [opening 3 "error", .recv .closed])) ∧
      run step init dataFirst = some s₁ ∧ step s₁ (.dialed 1 false) = some s₂ ∧
      run step s₂ [opening 3 "error", .recv .closed] = some s ∧ s.pc = .done ∧
      s.out = [.synReply 1, .rst 1 RST_REFUSED_STREAM, .synReply 3] ∧ ¬ Reported s 1 3 := by
  have hrun : ((run step init dataFirst).bind fun s₁ => (step s₁ (.dialed 1 false)).bind fun s₂ =>
      (run step s₂ [opening 3 "error", .recv .closed]).filter fun s => s.pc = .done ∧
        s.out = [.synReply 1, .rst 1 RST_REFUSED_STREAM, .synReply 3]).isSome = true := by decide
  obtain ⟨s, hs⟩ := Option.isSome_iff_exists.mp hrun
  obtain ⟨s₁, h₁, hs⟩ := Option.bind_eq_some_iff.mp hs
  obtain ⟨s₂, h₂, hs⟩ := Option.bind_eq_some_iff.mp hs
  obtain ⟨h₃, hout⟩ := Option.filter_eq_some_iff.mp hs
  obtain ⟨hpc, hout⟩ := of_decide_eq_true hout
  refine ⟨s₁, s₂, s, by decide, h₁, h₂, h₃, hpc, hout, ?_⟩
  intro hrep
  have hmsg := hrep.message
  rw [hout] at hmsg
  exact absurd hmsg (by decide)

end LightrCri.Spdy.Portforward

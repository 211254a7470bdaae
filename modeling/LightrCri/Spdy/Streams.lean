import LightrCri.Spdy.Exec

/-!
# The streams of an exec

A client that opens each stream with an id of its own and each expected role at most once (`Opens`).
With such a client the two maps of the read loop are inverse to each other on the expected roles
(`Streams`), and a pump carries its output to the stream of its role (`Pumps`).
-/

namespace LightrCri.Spdy.Exec

open Foundations LightrCri.Stream Function

variable {cfg : Config} {s s' : State} {l : Label}

/-! ## Streams to come -/

/-- The stream that the loop is opening. -/
def ReadLoop.current : ReadLoop → List (UInt32 × UInt8)
  | .replying id role => [(id, role)]
  | .inserting id role => [(id, role)]
  | _ => []

/-- The stream that a frame opens, with its role. -/
def opens : Received → Option (UInt32 × UInt8)
  | .frame (.synStream id hdr) => some (id, role hdr)
  | _ => none

/-- The streams that the client has opened and that are not in the maps yet. -/
def State.pending (s : State) : List (UInt32 × UInt8) :=
  s.readLoop.current ++ s.inbox.filterMap opens

/-- The client opens each stream with an id of its own, and each expected role at most once. -/
def Opens (cfg : Config) (s : State) : Label → Prop
  | .client f => ∀ p ∈ opens f, s.roles p.1 = none ∧ (∀ q ∈ s.pending, q.1 ≠ p.1) ∧
      (p.2 ∈ cfg.expectedRoles → s.byRole p.2 = none ∧ ∀ q ∈ s.pending, q.2 ≠ p.2)
  | _ => True

instance : Decidable (Opens cfg s l) := by
  unfold Opens
  split
  · refine @Option.decidableForallMem _ _ (fun p => ?_) _
    -- by the streams to come, not by all the ids there are
    letI : Decidable (∀ q ∈ s.pending, q.1 ≠ p.1) := List.decidableBAll _ _
    letI : Decidable (∀ q ∈ s.pending, q.2 ≠ p.2) := List.decidableBAll _ _
    infer_instance
  · exact instDecidableTrue

/-! ## The maps -/

structure Streams (cfg : Config) (s : State) : Prop where
  roles : ∀ r id, s.byRole r = some id → s.roles id = some r
  byRole : ∀ r ∈ cfg.expectedRoles, ∀ id, s.roles id = some r → s.byRole r = some id
  fresh : ∀ p ∈ s.pending, s.roles p.1 = none ∧ (p.2 ∈ cfg.expectedRoles → s.byRole p.2 = none)
  distinct : s.pending.Pairwise fun p q => p.1 ≠ q.1 ∧ (p.2 ∈ cfg.expectedRoles → p.2 ≠ q.2)

theorem Streams.init (cfg : Config) (w : World) : Streams cfg (init cfg w) where
  roles _ _ h := by cases h
  byRole _ _ _ h := by cases h
  fresh _ h := by cases h
  distinct := .nil

/-- What does not touch the maps or the streams to come. -/
theorem Streams.congr (h : Streams cfg s) (hroles : s'.roles = s.roles)
    (hbyRole : s'.byRole = s.byRole) (hpending : s'.pending = s.pending) : Streams cfg s' where
  roles := by
    rw [hroles, hbyRole]
    exact h.roles
  byRole := by
    rw [hroles, hbyRole]
    exact h.byRole
  fresh := by
    rw [hpending, hroles, hbyRole]
    exact h.fresh
  distinct := by
    rw [hpending]
    exact h.distinct

theorem pending_of_cons {f : Received} {inbox : List Received} (hloop : s.readLoop = .reading)
    (hinbox : s.inbox = f :: inbox) :
    s.pending = (opens f).toList ++ inbox.filterMap opens := by
  unfold State.pending
  rw [hloop, hinbox]
  show (f :: inbox).filterMap opens = _
  cases hf : opens f with
  | none => rw [List.filterMap_cons_none hf]; rfl
  | some p => rw [List.filterMap_cons_some hf]; rfl

theorem pending_of_current (h : s'.readLoop.current = s.readLoop.current)
    (hinbox : s'.inbox = s.inbox) : s'.pending = s.pending := by
  unfold State.pending
  rw [h, hinbox]

/-- What a step does to the maps and to the streams to come. -/
inductive Advance (s : State) (l : Label) (s' : State) : Prop
  | same (hpending : s'.pending = s.pending) (hroles : s'.roles = s.roles)
    (hbyRole : s'.byRole = s.byRole)
  | client {f : Received} (hl : l = .client f) (hpending : s'.pending = s.pending ++ (opens f).toList)
    (hroles : s'.roles = s.roles) (hbyRole : s'.byRole = s.byRole)
  | insert {id : UInt32} {r : UInt8} (hpending : s.pending = (id, r) :: s'.pending)
    (hroles : s'.roles = update s.roles id (some r))
    (hbyRole : s'.byRole = update s.byRole r (some id))

theorem advance (hstep : step cfg s l = some s') : Advance s l s' := by
  cases step_cases hstep with
  | @client f heof =>
    refine .client rfl ?_ rfl rfl
    unfold State.pending
    rw [List.filterMap_append, List.append_assoc]
    cases hf : opens f with
    | none => rw [List.filterMap_cons_none hf]; rfl
    | some p => rw [List.filterMap_cons_some hf]; rfl
  | opening hloop hinbox => exact .same (pending_of_cons hloop hinbox).symm rfl rfl
  | stdin hloop hinbox => exact .same (pending_of_cons hloop hinbox).symm rfl rfl
  | data hloop hinbox => exact .same (pending_of_cons hloop hinbox).symm rfl rfl
  | ping hloop hinbox =>
    refine .same ?_ rfl rfl
    rw [pending_of_cons hloop hinbox]
    unfold State.pending
    rw [hloop]
    rfl
  | @quit f inbox hloop hinbox hf =>
    refine .same ?_ rfl rfl
    rw [pending_of_cons hloop hinbox]
    cases f with
    | frame f => cases hf
    | _ => rfl
  | eof hloop => exact .same (pending_of_current (by rw [hloop]; rfl) rfl) rfl rfl
  | reply hloop => exact .same (pending_of_current (by rw [hloop]; rfl) rfl) rfl rfl
  | insert hloop =>
    refine .insert ?_ rfl rfl
    unfold State.pending
    rw [hloop]
    rfl
  | tell hloop => exact .same (pending_of_current (by rw [hloop]; rfl) rfl) rfl rfl
  | spawn hloop => exact .same (pending_of_current (by rw [hloop]; rfl) rfl) rfl rfl
  | noSpawn hloop => exact .same (pending_of_current (by rw [hloop]; rfl) rfl) rfl rfl
  | push hloop => exact .same (pending_of_current (by rw [hloop]; rfl) rfl) rfl rfl
  | tellPump hloop => exact .same (pending_of_current (by rw [hloop]; rfl) rfl) rfl rfl
  | leave hloop => exact .same (pending_of_current (by rw [hloop]; rfl) rfl) rfl rfl
  | accept hloop => exact .same (pending_of_current (by rw [hloop]; rfl) rfl) rfl rfl
  | broken hloop => exact .same (pending_of_current (by rw [hloop]; rfl) rfl) rfl rfl
  | flushed hloop => exact .same (pending_of_current (by rw [hloop]; rfl) rfl) rfl rfl
  | _ => exact .same rfl rfl rfl

/-- The stream that the read loop opens is in neither map. -/
theorem Streams.current (h : Streams cfg s) {id : UInt32} {r : UInt8}
    (hcurrent : s.readLoop.current = [(id, r)]) :
    s.roles id = none ∧ (r ∈ cfg.expectedRoles → s.byRole r = none) := by
  refine h.fresh (id, r) ?_
  unfold State.pending
  rw [hcurrent]
  exact List.mem_cons_self

theorem Streams.step (h : Streams cfg s) (hopens : Opens cfg s l)
    (hstep : step cfg s l = some s') : Streams cfg s' := by
  cases advance hstep with
  | same hpending hroles hbyRole => exact h.congr hroles hbyRole hpending
  | @client f hl hpending hroles hbyRole =>
    subst hl
    cases hf : opens f with
    | none =>
      rw [hf] at hpending
      exact h.congr hroles hbyRole (hpending.trans (List.append_nil _))
    | some p =>
      rw [hf] at hpending
      obtain ⟨hnone, hids, hexpected⟩ := hopens p hf
      refine ⟨?_, ?_, fun q hq => ?_, ?_⟩
      · rw [hroles, hbyRole]
        exact h.roles
      · rw [hroles, hbyRole]
        exact h.byRole
      · rw [hpending] at hq
        rw [hroles, hbyRole]
        rcases List.mem_append.mp hq with hold | hnew
        · exact h.fresh q hold
        · rw [List.mem_singleton.mp hnew]
          exact ⟨hnone, fun hr => (hexpected hr).1⟩
      · rw [hpending, List.pairwise_append]
        refine ⟨h.distinct, List.pairwise_singleton _ _, fun q hq q' hq' => ?_⟩
        rw [List.mem_singleton.mp hq']
        refine ⟨hids q hq, fun hr heq => ?_⟩
        exact (hexpected (heq ▸ hr)).2 q hq heq
  | @insert id r hpending hroles hbyRole =>
    have hfresh := h.fresh (id, r) (by rw [hpending]; exact List.mem_cons_self)
    have hdistinct := h.distinct
    rw [hpending, List.pairwise_cons] at hdistinct
    refine ⟨fun r' id' hr' => ?_, fun r' hr' id' hid' => ?_, fun p hp => ?_, hdistinct.2⟩
    · rw [hbyRole, update_apply] at hr'
      rw [hroles, update_apply]
      split at hr'
      · rename_i heq
        obtain rfl := Option.some.inj hr'
        rw [if_pos rfl, heq]
      · have hold := h.roles r' id' hr'
        rw [if_neg]
        · exact hold
        · rintro rfl
          cases hfresh.1.symm.trans hold
    · rw [hroles, update_apply] at hid'
      rw [hbyRole, update_apply]
      split at hid'
      · rename_i heq
        obtain rfl := Option.some.inj hid'
        rw [if_pos rfl, heq]
      · have hold := h.byRole r' hr' id' hid'
        rw [if_neg]
        · exact hold
        · rintro rfl
          cases (hfresh.2 hr').symm.trans hold
    · have hold := h.fresh p (by rw [hpending]; exact List.mem_cons_of_mem _ hp)
      have hne := hdistinct.1 p hp
      rw [hroles, hbyRole]
      refine ⟨?_, fun hr => ?_⟩
      · rw [update_of_ne (Ne.symm hne.1)]
        exact hold.1
      · rw [update_of_ne fun heq : p.2 = r => hne.2 (heq ▸ hr) heq.symm]
        exact hold.2 hr

/-! ## The pumps -/

/-- The stream whose pump is about to be spawned. -/
def ReadLoop.opened : ReadLoop → Option (UInt32 × UInt8)
  | .telling id role => some (id, role)
  | .spawning id role => some (id, role)
  | _ => none

structure Pumps (s : State) : Prop where
  roles : ∀ o p, s.pumps o = some p → s.roles p.id = some o.channel
  opened : ∀ p, s.readLoop.opened = some p → s.roles p.1 = some p.2

theorem outputOf_channel {r : UInt8} {o : Output} (h : outputOf r = some o) : r = o.channel := by
  unfold outputOf at h
  split at h
  · rename_i hr
    obtain rfl := Option.some.inj h
    exact hr
  · split at h
    · rename_i hr
      obtain rfl := Option.some.inj h
      exact hr
    · cases h

theorem Pumps.init (cfg : Config) (w : World) : Pumps (init cfg w) where
  roles _ _ h := by cases h
  opened _ h := by cases h

/-- What does not touch the maps or the pumps. -/
theorem Pumps.congr (h : Pumps s) (hroles : s'.roles = s.roles) (hpumps : s'.pumps = s.pumps)
    (hopened : ∀ p, s'.readLoop.opened = some p → s.readLoop.opened = some p) : Pumps s' where
  roles := by
    rw [hroles, hpumps]
    exact h.roles
  opened p hp := by
    rw [hroles]
    exact h.opened p (hopened p hp)

/-- A pump goes on. -/
theorem Pumps.goOn (h : Pumps s) {o : Output} {p : Pump} (q : Pump) (hp : s.pumps o = some p)
    (hid : q.id = p.id) (hroles : s'.roles = s.roles)
    (hpumps : s'.pumps = update s.pumps o (some q))
    (hloop : s'.readLoop = s.readLoop) : Pumps s' where
  roles o' p' hp' := by
    rw [hpumps, update_apply] at hp'
    rw [hroles]
    split at hp'
    · rename_i ho
      obtain rfl := Option.some.inj hp'
      rw [hid, ho]
      exact h.roles o p hp
    · exact h.roles o' p' hp'
  opened := by
    rw [hroles, hloop]
    exact h.opened

theorem Pumps.step (h : Pumps s) (hstreams : Streams cfg s) (hstep : step cfg s l = some s') :
    Pumps s' := by
  cases step_cases hstep with
  | opening => exact h.congr rfl rfl fun p hp => by cases hp
  | stdin => exact h.congr rfl rfl fun p hp => by cases hp
  | data => exact h.congr rfl rfl fun p hp => by cases hp
  | quit => exact h.congr rfl rfl fun p hp => by cases hp
  | eof => exact h.congr rfl rfl fun p hp => by cases hp
  | reply => exact h.congr rfl rfl fun p hp => by cases hp
  | @insert id r hloop =>
    have hnone := (hstreams.current (by rw [hloop]; rfl)).1
    refine ⟨fun o p hp => ?_, fun p hp => ?_⟩
    · have hold := h.roles o p hp
      dsimp only
      rw [update_of_ne]
      · exact hold
      · intro heq
        rw [heq, hnone] at hold
        cases hold
    · obtain rfl := Option.some.inj hp
      exact update_self _ _ _
  | tell hloop =>
    refine h.congr rfl rfl fun p hp => ?_
    rw [hloop]
    exact hp
  | @spawn id r o hloop ho hraw =>
    have hr := h.opened (id, r) (by rw [hloop]; rfl)
    refine ⟨fun o' p hp => ?_, fun p hp => by cases hp⟩
    dsimp only at hp ⊢
    rw [update_apply] at hp
    split at hp
    · rename_i heq
      obtain rfl := Option.some.inj hp
      rw [heq, ← outputOf_channel ho]
      exact hr
    · exact h.roles o' p hp
  | noSpawn => exact h.congr rfl rfl fun p hp => by cases hp
  | push => exact h.congr rfl rfl fun p hp => by cases hp
  | tellPump => exact h.congr rfl rfl fun p hp => by cases hp
  | leave => exact h.congr rfl rfl fun p hp => by cases hp
  | accept => exact h.congr rfl rfl fun p hp => by cases hp
  | broken => exact h.congr rfl rfl fun p hp => by cases hp
  | flushed => exact h.congr rfl rfl fun p hp => by cases hp
  | pumpRead hpump => exact h.goOn (.sending _ _) hpump rfl rfl rfl rfl
  | pumpSend hpump => exact h.goOn (.reading _) hpump rfl rfl rfl rfl
  | pumpFail hpump => exact h.goOn (.ended _) hpump rfl rfl rfl rfl
  | pumpEof hpump => exact h.goOn (.ended _) hpump rfl rfl rfl rfl
  | _ => exact h.congr rfl rfl fun p hp => hp

/-! ## A client -/

/-- The client opens a stream of the type. -/
def opening (id : UInt32) (streamType : String) : Label :=
  .client (.frame (.synStream id [("streamType", streamType)]))

/-- The streams of a client without stdin and without a terminal are opened, and the completion path
comes to its select. -/
def openedRun : List Label :=
  [opening 1 "error", opening 3 "stdout", opening 5 "stderr"] ++ List.replicate 19 .readLoop ++
    List.replicate 5 .main

end LightrCri.Spdy.Exec

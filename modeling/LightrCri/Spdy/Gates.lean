import LightrCri.Spdy.Streams
import Mathlib.Data.List.Perm.Subperm

/-!
# The gates of the completion path

The read loop spawns the pump of a stream after it has put the stream into the maps, and registers
it after that (`Registered`). The completion path waits for the expected roles and then for the
expected pumps; the read loop notifies it after each of them, so where it waits without having been
woken, what it waits for is not there or a notification is about to come (`Woken`,
`no_lost_wakeup`).
-/

namespace LightrCri.Spdy.Exec

open Foundations LightrCri.Stream Function

variable {cfg : Config} {session : StreamSession} {s s' : State} {l : Label}

/-! ## Pumps and their registration -/

structure Registered (session : StreamSession) (s : State) : Prop where
  has : ∀ o, session.has o = true ↔ s.raw o = true ∨ s.pumps o ≠ none
  raw : ∀ o, s.raw o = true → s.pumps o = none
  nodup : s.tasks.Nodup
  tasks : ∀ o ∈ s.tasks, s.pumps o ≠ none
  drain : ∀ pumps ∈ s.drain, ∀ o ∈ pumps, s.pumps o ≠ none
  pushing : ∀ o, s.readLoop = .pushing o → s.pumps o ≠ none ∧ o ∉ s.tasks
  /-- A pump is registered, or about to be. -/
  registered : ∀ o, s.pumps o ≠ none →
    o ∈ s.tasks ∨ (∃ pumps ∈ s.drain, o ∈ pumps) ∨ s.readLoop = .pushing o
  /-- The stream of an output has its pump, or is about to get it. -/
  spawned : ∀ o : Output, s.byRole o.channel ≠ none →
    s.raw o = false ∨ ∃ id, s.readLoop.opened = some (id, o.channel)

theorem Registered.init (hsession : cfg.session = some session) (w : World) :
    Registered session (init cfg w) where
  has o := by
    unfold Exec.init
    dsimp only
    rw [hsession]
    simp
  raw _ _ := rfl
  nodup := .nil
  tasks o h := by cases h
  drain pumps h := by cases h
  pushing o h := by cases h
  registered o h := (h rfl).elim
  spawned o h := (h rfl).elim

/-- What does not touch the pumps, the maps or where the read loop is. -/
theorem Registered.congr (h : Registered session s) (hraw : s'.raw = s.raw)
    (hpumps : ∀ o, s'.pumps o = none ↔ s.pumps o = none) (htasks : s'.tasks = s.tasks)
    (hdrain : s'.drain = s.drain) (hbyRole : s'.byRole = s.byRole)
    (hpushing : ∀ o, s'.readLoop = .pushing o ↔ s.readLoop = .pushing o)
    (hopened : s.readLoop.opened = none ∨ s'.readLoop.opened = s.readLoop.opened) :
    Registered session s' where
  has o := by
    rw [hraw, Ne, hpumps]
    exact h.has o
  raw o ho := by
    rw [hraw] at ho
    rw [hpumps]
    exact h.raw o ho
  nodup := by
    rw [htasks]
    exact h.nodup
  tasks o ho := by
    rw [htasks] at ho
    rw [Ne, hpumps]
    exact h.tasks o ho
  drain pumps hp o ho := by
    rw [hdrain] at hp
    rw [Ne, hpumps]
    exact h.drain pumps hp o ho
  pushing o ho := by
    rw [htasks, Ne, hpumps]
    exact h.pushing o ((hpushing o).mp ho)
  registered o ho := by
    rw [Ne, hpumps] at ho
    rw [htasks, hdrain, hpushing]
    exact h.registered o ho
  spawned o ho := by
    rw [hbyRole] at ho
    rw [hraw]
    rcases h.spawned o ho with hraw' | ⟨id, hid⟩
    · exact .inl hraw'
    · right
      rcases hopened with hnone | heq
      · cases hnone.symm.trans hid
      · exact ⟨id, heq.trans hid⟩

/-- A pump goes on. -/
theorem update_none {pumps : Output → Option Pump} {o : Output} {p q : Pump}
    (h : pumps o = some p) (o' : Output) : update pumps o (some q) o' = none ↔ pumps o' = none := by
  rw [update_apply]
  split
  · rename_i heq
    rw [heq, h]
    exact ⟨fun hn => (by cases hn), fun hn => by cases hn⟩
  · exact Iff.rfl

theorem outputOf_of_channel (o : Output) : outputOf o.channel = some o := by
  cases o <;> rfl

/-- The read loop goes from one place to another, neither of which is about pumps. -/
theorem not_pushing {a b : ReadLoop} (ha : ∀ o, a ≠ .pushing o) (hb : ∀ o, b ≠ .pushing o)
    (o : Output) : a = .pushing o ↔ b = .pushing o :=
  ⟨fun h => (ha o h).elim, fun h => (hb o h).elim⟩

theorem Registered.step (h : Registered session s) (hstep : Exec.step cfg s l = some s') :
    Registered session s' := by
  have hsame : ∀ o : Output, s.pumps o = none ↔ s.pumps o = none := fun _ => Iff.rfl
  -- the read loop leaves `reading`, `writing` or the like
  have hmove : ∀ {t : State} {loop : ReadLoop}, s.readLoop = loop → (∀ o, loop ≠ .pushing o) →
      loop.opened = none → (∀ o, t.readLoop ≠ .pushing o) → t.raw = s.raw → t.pumps = s.pumps →
      t.tasks = s.tasks → t.drain = s.drain → t.byRole = s.byRole → Registered session t := by
    intro t loop hloop hne hopened hne' hraw hp htasks hdrain hbyRole
    refine h.congr hraw (fun o => by rw [hp]) htasks hdrain hbyRole (fun o => ?_) (.inl ?_)
    · rw [hloop]
      exact not_pushing hne' hne o
    · rw [hloop]
      exact hopened
  cases step_cases hstep with
  | opening hloop =>
    exact hmove hloop (fun _ he => by cases he) rfl (fun _ he => by cases he) rfl rfl rfl rfl rfl
  | stdin hloop =>
    exact hmove hloop (fun _ he => by cases he) rfl (fun _ he => by cases he) rfl rfl rfl rfl rfl
  | data hloop =>
    exact hmove hloop (fun _ he => by cases he) rfl (fun _ he => by cases he) rfl rfl rfl rfl rfl
  | quit hloop =>
    exact hmove hloop (fun _ he => by cases he) rfl (fun _ he => by cases he) rfl rfl rfl rfl rfl
  | eof hloop =>
    exact hmove hloop (fun _ he => by cases he) rfl (fun _ he => by cases he) rfl rfl rfl rfl rfl
  | reply hloop =>
    exact hmove hloop (fun _ he => by cases he) rfl (fun _ he => by cases he) rfl rfl rfl rfl rfl
  | @insert id r hloop =>
    have hnone : ∀ o, s.readLoop ≠ .pushing o := by
      rw [hloop]
      exact fun o he => by cases he
    refine ⟨h.has, h.raw, h.nodup, h.tasks, h.drain, fun o he => (by cases he), fun o ho => ?_,
      fun o ho => ?_⟩
    · rcases h.registered o ho with ht | hd | hp
      · exact .inl ht
      · exact .inr (.inl hd)
      · exact (hnone o hp).elim
    · dsimp only at ho ⊢
      by_cases heq : o.channel = r
      · exact .inr ⟨id, by rw [heq]; rfl⟩
      · rw [update_of_ne heq] at ho
        rcases h.spawned o ho with hraw | ⟨id', hid'⟩
        · exact .inl hraw
        · rw [hloop] at hid'
          cases hid'
  | tell hloop =>
    refine h.congr rfl hsame rfl rfl rfl (fun o => ?_) (.inr ?_)
    · rw [hloop]
      exact not_pushing (fun _ he => by cases he) (fun _ he => by cases he) o
    · rw [hloop]
      rfl
  | @spawn id r o hloop ho hraw =>
    have hnone := h.raw o hraw
    have hne : ∀ o', s.pumps o' ≠ none → o' ≠ o := by
      rintro o' ho' rfl
      exact ho' hnone
    have hupdate : ∀ o', s.pumps o' ≠ none → update s.pumps o (some (.reading id)) o' ≠ none := by
      intro o' ho'
      rw [update_of_ne (hne o' ho')]
      exact ho'
    refine ⟨fun o' => ?_, fun o' ho' => ?_, h.nodup, fun o' ho' => hupdate o' (h.tasks o' ho'),
      fun pumps hp o' ho' => hupdate o' (h.drain pumps hp o' ho'), fun o' he => ?_,
      fun o' ho' => ?_, fun o' ho' => ?_⟩
    · dsimp only
      by_cases heq : o' = o
      · rw [heq, update_self, update_self]
        exact ⟨fun _ => .inr fun hn => (by cases hn), fun _ => (h.has o).mpr (.inl hraw)⟩
      · rw [update_of_ne heq, update_of_ne heq]
        exact h.has o'
    · dsimp only at ho' ⊢
      rw [update_apply] at ho'
      split at ho'
      · cases ho'
      · rename_i heq
        rw [update_of_ne heq]
        exact h.raw o' ho'
    · obtain rfl := ReadLoop.pushing.inj he
      dsimp only
      rw [update_self]
      exact ⟨fun hn => (by cases hn), fun ht => h.tasks _ ht hnone⟩
    · dsimp only at ho' ⊢
      by_cases heq : o' = o
      · exact .inr (.inr (by rw [heq]))
      · rw [update_of_ne heq] at ho'
        rcases h.registered o' ho' with ht | hd | hp
        · exact .inl ht
        · exact .inr (.inl hd)
        · rw [hloop] at hp
          cases hp
    · left
      dsimp only at ho' ⊢
      by_cases heq : o' = o
      · rw [heq, update_self]
      · rw [update_of_ne heq]
        rcases h.spawned o' ho' with hraw' | ⟨id', hid'⟩
        · exact hraw'
        · rw [hloop] at hid'
          have hr := (Prod.mk.inj (Option.some.inj hid')).2
          rw [hr, outputOf_of_channel] at ho
          exact (heq (Option.some.inj ho)).elim
  | @noSpawn id r hloop ho =>
    refine ⟨h.has, h.raw, h.nodup, h.tasks, h.drain, fun o he => (by cases he), fun o hp => ?_,
      fun o hb => ?_⟩
    · rcases h.registered o hp with ht | hd | hp
      · exact .inl ht
      · exact .inr (.inl hd)
      · rw [hloop] at hp
        cases hp
    · left
      rcases h.spawned o hb with hraw | ⟨id', hid'⟩
      · exact hraw
      · rw [hloop] at hid'
        have hr := (Prod.mk.inj (Option.some.inj hid')).2
        exact ho o (by rw [hr]; exact outputOf_of_channel o)
  | @push o hloop =>
    obtain ⟨hpump, hmem⟩ := h.pushing o hloop
    refine ⟨h.has, h.raw, ?_, fun o' ho' => ?_, h.drain, fun o he => (by cases he), fun o' ho' => ?_,
      fun o' ho' => ?_⟩
    · show (s.tasks ++ [o]).Nodup
      rw [List.nodup_append]
      refine ⟨h.nodup, List.pairwise_singleton _ _, fun a ha b hb => ?_⟩
      rw [List.mem_singleton.mp hb]
      rintro rfl
      exact hmem ha
    · rcases List.mem_append.mp ho' with hold | hnew
      · exact h.tasks o' hold
      · rw [List.mem_singleton.mp hnew]
        exact hpump
    · rcases h.registered o' ho' with ht | hd | hp
      · exact .inl (List.mem_append_left _ ht)
      · exact .inr (.inl hd)
      · obtain rfl := ReadLoop.pushing.inj (hloop.symm.trans hp)
        exact .inl (List.mem_append_right _ (List.mem_singleton.mpr rfl))
    · rcases h.spawned o' ho' with hraw | ⟨id', hid'⟩
      · exact .inl hraw
      · rw [hloop] at hid'
        cases hid'
  | tellPump hloop =>
    exact hmove hloop (fun _ he => by cases he) rfl (fun _ he => by cases he) rfl rfl rfl rfl rfl
  | leave hloop =>
    exact hmove hloop (fun _ he => by cases he) rfl (fun _ he => by cases he) rfl rfl rfl rfl rfl
  | accept hloop =>
    exact hmove hloop (fun _ he => by cases he) rfl (fun _ he => by cases he) rfl rfl rfl rfl rfl
  | broken hloop =>
    exact hmove hloop (fun _ he => by cases he) rfl (fun _ he => by cases he) rfl rfl rfl rfl rfl
  | flushed hloop =>
    exact hmove hloop (fun _ he => by cases he) rfl (fun _ he => by cases he) rfl rfl rfl rfl rfl
  | pumpRead hp => exact h.congr rfl (update_none hp) rfl rfl rfl (fun _ => Iff.rfl) (.inr rfl)
  | pumpSend hp => exact h.congr rfl (update_none hp) rfl rfl rfl (fun _ => Iff.rfl) (.inr rfl)
  | pumpFail hp => exact h.congr rfl (update_none hp) rfl rfl rfl (fun _ => Iff.rfl) (.inr rfl)
  | pumpEof hp => exact h.congr rfl (update_none hp) rfl rfl rfl (fun _ => Iff.rfl) (.inr rfl)
  | take hnext hdrain =>
    refine ⟨h.has, h.raw, .nil, fun o ho => (by cases ho), fun pumps hp o ho => ?_, fun o he => ?_,
      fun o ho => ?_, h.spawned⟩
    · obtain rfl := Option.some.inj hp
      exact h.tasks o ho
    · exact ⟨(h.pushing o he).1, fun hm => by cases hm⟩
    · rcases h.registered o ho with ht | ⟨pumps, hp, -⟩ | hp
      · exact .inr (.inl ⟨s.tasks, rfl, ht⟩)
      · cases hdrain.symm.trans hp
      · exact .inr (.inr hp)
  | _ => exact h.congr rfl hsame rfl rfl rfl (fun _ => Iff.rfl) (.inr rfl)

/-- The outputs of the session. -/
def outputs (session : StreamSession) : List Output := [.stdout, .stderr].filter session.has

theorem outputs_nodup (session : StreamSession) : (outputs session).Nodup :=
  List.Pairwise.filter _ (by decide)

theorem mem_outputs {o : Output} : o ∈ outputs session ↔ session.has o = true := by
  unfold outputs
  rw [List.mem_filter]
  refine ⟨fun h => h.2, fun h => ⟨?_, h⟩⟩
  cases o <;> decide

/-- There is one pump to wait for for each output of the session. -/
theorem expectedPumps_eq (hsession : cfg.session = some session)
    (htty : session.stderr = true → cfg.tty = false) :
    cfg.expectedPumps = (outputs session).length := by
  unfold Config.expectedPumps outputs StreamSession.has
  rw [hsession]
  dsimp only
  cases hout : session.stdout <;> cases herr : session.stderr <;> simp [htty, herr]

/-- The gate for the pumps is passed when all are registered, and only then. -/
theorem Registered.allPumps (h : Registered session s) (hsession : cfg.session = some session)
    (htty : session.stderr = true → cfg.tty = false) :
    s.allPumps cfg = true ↔ ∀ o, session.has o = true → o ∈ s.tasks := by
  unfold State.allPumps
  rw [decide_eq_true_iff, expectedPumps_eq hsession htty]
  constructor
  · intro hle o ho
    have hsub : s.tasks ⊆ outputs session := by
      intro o' ho'
      exact mem_outputs.mpr ((h.has o').mpr (.inr (h.tasks o' ho')))
    have hperm := (List.subperm_of_subset h.nodup hsub).perm_of_length_le hle
    exact hperm.mem_iff.mpr (mem_outputs.mpr ho)
  · intro hall
    have hsub : outputs session ⊆ s.tasks := fun o ho => hall o (mem_outputs.mp ho)
    exact (List.subperm_of_subset (outputs_nodup session) hsub).length_le

/-! ## No lost wakeup -/

structure Woken (cfg : Config) (s : State) : Prop where
  barrier : s.main = .barrier (.wait false) →
    s.allRoles cfg = false ∨ ∃ id role, s.readLoop = .telling id role
  gate : s.main = .gate (.wait false) → s.allPumps cfg = false ∨ s.readLoop = .tellingPump

theorem Woken.init (cfg : Config) (w : World) : Woken cfg (init cfg w) where
  barrier h := by
    unfold Exec.init at h
    dsimp only at h
    split at h <;> cases h
  gate h := by
    unfold Exec.init at h
    dsimp only at h
    split at h <;> cases h

theorem notify_ne_wait (m : Main) :
    m.notify ≠ .barrier (.wait false) ∧ m.notify ≠ .gate (.wait false) := by
  rcases m with _ | g | g | _ | _ | _ | _ | _ | _ | _
  · exact ⟨fun h => (by cases h), fun h => by cases h⟩
  · cases g <;> exact ⟨fun h => (by cases h), fun h => by cases h⟩
  · cases g <;> exact ⟨fun h => (by cases h), fun h => by cases h⟩
  all_goals exact ⟨fun h => (by cases h), fun h => by cases h⟩

theorem Woken.step (h : Woken cfg s) (hstep : Exec.step cfg s l = some s') : Woken cfg s' := by
  -- the loop moves, and does not forget a notification
  have hmove : ∀ {t : State}, t.main = s.main → t.byRole = s.byRole → t.tasks = s.tasks →
      (∀ id role, s.readLoop ≠ .telling id role) → s.readLoop ≠ .tellingPump → Woken cfg t := by
    intro t hmain hbyRole htasks htelling hpump
    constructor
    · intro hw
      rcases h.barrier (hmain ▸ hw) with hroles | ⟨id, role, hloop⟩
      · left
        unfold State.allRoles at hroles ⊢
        rw [hbyRole]
        exact hroles
      · exact (htelling id role hloop).elim
    · intro hw
      rcases h.gate (hmain ▸ hw) with hpumps | hloop
      · left
        unfold State.allPumps at hpumps ⊢
        rw [htasks]
        exact hpumps
      · exact (hpump hloop).elim
  have hnotify : ∀ {t : State}, t.main = s.main.notify → Woken cfg t := by
    intro t hmain
    have hne := notify_ne_wait s.main
    exact ⟨fun hw => (hne.1 (hmain ▸ hw)).elim, fun hw => (hne.2 (hmain ▸ hw)).elim⟩
  cases step_cases hstep with
  | opening hloop =>
    exact hmove rfl rfl rfl (fun _ _ he => by rw [hloop] at he; cases he)
      fun he => by rw [hloop] at he; cases he
  | stdin hloop =>
    exact hmove rfl rfl rfl (fun _ _ he => by rw [hloop] at he; cases he)
      fun he => by rw [hloop] at he; cases he
  | data hloop =>
    exact hmove rfl rfl rfl (fun _ _ he => by rw [hloop] at he; cases he)
      fun he => by rw [hloop] at he; cases he
  | ping => exact ⟨h.barrier, h.gate⟩
  | quit hloop =>
    exact hmove rfl rfl rfl (fun _ _ he => by rw [hloop] at he; cases he)
      fun he => by rw [hloop] at he; cases he
  | eof hloop =>
    exact hmove rfl rfl rfl (fun _ _ he => by rw [hloop] at he; cases he)
      fun he => by rw [hloop] at he; cases he
  | reply hloop =>
    exact hmove rfl rfl rfl (fun _ _ he => by rw [hloop] at he; cases he)
      fun he => by rw [hloop] at he; cases he
  | insert hloop =>
    refine ⟨fun _ => .inr ⟨_, _, rfl⟩, fun hw => ?_⟩
    rcases h.gate hw with hpumps | he
    · exact .inl hpumps
    · rw [hloop] at he
      cases he
  | tell => exact hnotify rfl
  | spawn hloop =>
    exact hmove rfl rfl rfl (fun _ _ he => by rw [hloop] at he; cases he)
      fun he => by rw [hloop] at he; cases he
  | noSpawn hloop =>
    exact hmove rfl rfl rfl (fun _ _ he => by rw [hloop] at he; cases he)
      fun he => by rw [hloop] at he; cases he
  | push hloop =>
    refine ⟨fun hw => ?_, fun _ => .inr rfl⟩
    rcases h.barrier hw with hroles | ⟨_, _, he⟩
    · exact .inl hroles
    · rw [hloop] at he
      cases he
  | tellPump => exact hnotify rfl
  | leave hloop =>
    exact hmove rfl rfl rfl (fun _ _ he => by rw [hloop] at he; cases he)
      fun he => by rw [hloop] at he; cases he
  | accept hloop =>
    exact hmove rfl rfl rfl (fun _ _ he => by rw [hloop] at he; cases he)
      fun he => by rw [hloop] at he; cases he
  | broken hloop =>
    exact hmove rfl rfl rfl (fun _ _ he => by rw [hloop] at he; cases he)
      fun he => by rw [hloop] at he; cases he
  | flushed hloop =>
    exact hmove rfl rfl rfl (fun _ _ he => by rw [hloop] at he; cases he)
      fun he => by rw [hloop] at he; cases he
  | arm => exact ⟨fun hw => (by cases hw), fun hw => by cases hw⟩
  | take hnext =>
    refine ⟨fun hw => ?_, fun hw => ?_⟩ <;>
    · have hw : s.main = _ := hw
      rw [hw] at hnext
      cases hnext
  | finish => exact ⟨fun hw => (by cases hw), fun hw => by cases hw⟩
  | goto hgoto =>
    cases hgoto with
    | rolesOut hmain hroles => exact ⟨fun _ => .inl hroles, fun hw => by cases hw⟩
    | pumpsOut hmain hpumps => exact ⟨fun hw => (by cases hw), fun _ => .inl hpumps⟩
    | drained hnext =>
      rcases hnext.target with rfl | ⟨_, rfl⟩ <;>
        exact ⟨fun hw => (by cases hw), fun hw => by cases hw⟩
    | _ => exact ⟨fun hw => (by cases hw), fun hw => by cases hw⟩
  | _ => exact ⟨h.barrier, h.gate⟩

/-- A wakeup is pending: the next step of the read loop notifies `role_added`. -/
def State.notifying (s : State) : Bool :=
  match s.readLoop with
  | .telling _ _ => true
  | .tellingPump => true
  | _ => false

/-- The pending wakeup comes: it wakes whoever waits. -/
theorem State.notifying_step (hnotifying : s.notifying = true) (hmain : s.main ≠ .done) :
    ∃ s', Exec.step cfg s .readLoop = some s' ∧ s'.main = s.main.notify := by
  have htask : Exec.step cfg s .readLoop = readStep cfg s := if_neg hmain
  rw [htask]
  unfold State.notifying at hnotifying
  unfold readStep
  cases hloop : s.readLoop with
  | telling id role => exact ⟨_, rfl, rfl⟩
  | tellingPump => exact ⟨_, rfl, rfl⟩
  | _ =>
    rw [hloop] at hnotifying
    cases hnotifying

/-- **No lost wakeup**: in no reachable state does the completion path wait at the barrier with all
the expected roles there, or at the gate with all the expected pumps, unless the read loop is about
to wake it; and that step of the read loop is enabled then. -/
theorem no_lost_wakeup (cfg : Config) (w : World) {ls : List Label} {s : State}
    (hrun : run (step cfg) (init cfg w) ls = some s) :
    ¬ (s.main = .barrier (.wait false) ∧ s.allRoles cfg = true ∧ s.notifying = false) ∧
      ¬ (s.main = .gate (.wait false) ∧ s.allPumps cfg = true ∧ s.notifying = false) ∧
      (s.notifying = true → s.main ≠ .done →
        ∃ s', step cfg s .readLoop = some s' ∧ s'.main = s.main.notify) := by
  have h : Woken cfg s :=
    invariant_run (P := fun _ _ => True) (fun _ _ _ hw _ hstep => hw.step hstep) (.init cfg w)
      (Along.trivial _ _) hrun
  refine ⟨fun ⟨hmain, hroles, hnot⟩ => ?_, fun ⟨hmain, hpumps, hnot⟩ => ?_,
    State.notifying_step⟩
  · rcases h.barrier hmain with hmissing | ⟨id, role, hloop⟩
    · cases hroles.symm.trans hmissing
    · rw [State.notifying, hloop] at hnot
      cases hnot
  · rcases h.gate hmain with hmissing | hloop
    · cases hpumps.symm.trans hmissing
    · rw [State.notifying, hloop] at hnot
      cases hnot

def ttyConfig : Config := ⟨false, false, true, some ⟨false, true, false, false, .child⟩⟩

/-- The last expected role is put into the map while the completion path waits for it. -/
def lastRoleRun : List Label :=
  [.client (.frame (.synStream 1 [("streamType", "error")])),
    .client (.frame (.synStream 3 [("streamType", "stdout")])), .readLoop, .readLoop, .readLoop,
    .readLoop, .readLoop, .main, .main, .main, .readLoop, .readLoop, .readLoop]

theorem no_lost_wakeup_lastRole : ∃ s,
    run (step ttyConfig) (init ttyConfig (.init 8 8 8)) lastRoleRun = some s ∧
      s.main = .barrier (.wait false) ∧ s.allRoles ttyConfig = true ∧
      ∃ s', step ttyConfig s .readLoop = some s' ∧ s'.main = .barrier (.wait true) := by
  have h := @no_lost_wakeup ttyConfig (.init 8 8 8) lastRoleRun _ rfl
  exact ⟨_, rfl, rfl, rfl, h.2.2 rfl fun hdone => by cases hdone⟩

end LightrCri.Spdy.Exec

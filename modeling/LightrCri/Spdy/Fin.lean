import LightrCri.Spdy.Streams

/-!
# Nothing after FIN

A stream gets frames from the read loop (its SYN_REPLY), from its pump, and from the completion
path, whose frame has FLAG_FIN. The drain awaits the pumps; but an attach that the client leaves
drops the drain, and a pump goes on for as long as the read loop is waited for (`data_after_fin`).
Where the completion path finds the pumps of the streams that it ends at their end (`Quiet`), a
frame with FLAG_FIN is the last on its stream (`nothing_after_fin`).
-/

namespace LightrCri.Spdy.Exec

open Foundations LightrCri.Stream Function

variable {cfg : Config} {s s' : State} {l : Label}

/-- The stream that a frame ends. -/
def fin : Outbound → Option UInt32
  | .data id flags _ => if flags &&& FLAG_FIN != 0 then some id else none
  | _ => none

/-- The second frame is not on a stream that the first has ended. -/
def Follows (f g : Outbound) : Prop := ∀ id ∈ fin f, g.stream ≠ some id

instance : DecidableRel Follows := fun f _ => Option.decidableForallMem (fin f)

/-- The output has no pump that could still write. -/
def State.quiet (s : State) (o : Output) : Prop :=
  s.raw o = false ∧ ∀ p ∈ s.pumps o, p.isEnded = true

instance (o : Output) : Decidable (s.quiet o) := instDecidableAnd

/-- The streams that the completion path ends are those of outputs without a pump that could still
write. -/
def Quiet (s : State) : Label → Prop
  | .main =>
    match s.main with
    | .finishing _ stdout stderr _ =>
      (stdout.isSome → s.quiet .stdout) ∧ (stderr.isSome → s.quiet .stderr)
    | _ => True
  | _ => True

instance : Decidable (Quiet s l) := by
  unfold Quiet
  split
  · split <;> infer_instance
  · infer_instance

/-- The completion path has written the verdict. -/
def Main.over : Main → Bool
  | .grace => true
  | .done => true
  | _ => false

structure Fins (s : State) : Prop where
  /-- The streams that were ended. -/
  finished : ∀ f ∈ s.out, ∀ id ∈ fin f, s.main.over = true ∧
    ∃ r, s.roles id = some r ∧ ∀ o : Output, o.channel = r → s.quiet o
  /-- The streams about to be ended. -/
  finishing : ∀ exit stdout stderr error, s.main = .finishing exit stdout stderr error →
    (∀ id ∈ stdout, s.roles id = some STDOUT) ∧ (∀ id ∈ stderr, s.roles id = some STDERR) ∧
      ∀ id ∈ error, s.roles id = some ERROR
  last : s.out.Pairwise Follows

/-! ## What stays as it is -/

theorem notify_over (m : Main) : m.notify.over = m.over := by cases m <;> rfl

theorem AfterDrain.not_over {m n : Main} (h : AfterDrain cfg m n) : m.over = false := by
  cases h <;> rfl

theorem Main.not_over_of_waits {m : Main} (h : m.waits = true) : m.over = false := by
  cases m <;> first | rfl | cases h

theorem Goto.of_over {m : Main} (h : Goto cfg s l m) (hover : s.main.over = true) : m = .done := by
  cases h with
  | close => rfl
  | graceTimeout => rfl
  | drained hnext => cases hnext.not_over.symm.trans hover
  | detachAttach _ _ hmain =>
    cases (Main.not_over_of_waits hmain).symm.trans hover
  | armBarrier hmain => rw [hmain] at hover; cases hover
  | rolesIn hmain => rw [hmain] at hover; cases hover
  | rolesOut hmain => rw [hmain] at hover; cases hover
  | wakeBarrier hmain => rw [hmain] at hover; cases hover
  | armGate hmain => rw [hmain] at hover; cases hover
  | pumpsIn hmain => rw [hmain] at hover; cases hover
  | pumpsOut hmain => rw [hmain] at hover; cases hover
  | wakeGate hmain => rw [hmain] at hover; cases hover
  | exit hmain => rw [hmain] at hover; cases hover
  | snapshot hmain => rw [hmain] at hover; cases hover
  | detachExec _ _ hmain => rw [hmain] at hover; cases hover
  | reaped _ hmain => rw [hmain] at hover; cases hover
  | barrierTimeout hmain => rw [hmain] at hover; cases hover
  | gateTimeout hmain => rw [hmain] at hover; cases hover

theorem over_step (h : s.main.over = true) (hstep : step cfg s l = some s') :
    s'.main.over = true := by
  cases step_cases hstep with
  | tell => exact (notify_over _).trans h
  | tellPump => exact (notify_over _).trans h
  | arm hmain => rw [hmain] at h; cases h
  | finish => rfl
  | goto hgoto =>
    dsimp only
    rw [hgoto.of_over h]
    rfl
  | _ => exact h

/-- A stream keeps its role. -/
theorem roles_step (hstreams : Streams cfg s) {id : UInt32} {r : UInt8} (h : s.roles id = some r)
    (hstep : step cfg s l = some s') : s'.roles id = some r := by
  cases step_cases hstep with
  | @insert id' r' hloop =>
    have hnone := (hstreams.current (by rw [hloop]; rfl)).1
    dsimp only
    rw [update_of_ne]
    · exact h
    · rintro rfl
      cases hnone.symm.trans h
  | _ => exact h

/-- An output whose pump has ended gets no other. -/
theorem quiet_step {o : Output} (h : s.quiet o) (hstep : step cfg s l = some s') : s'.quiet o := by
  have hpump : ∀ o' p q, s.pumps o' = some p → p.isEnded = false →
      ∀ p' ∈ update s.pumps o' q o, p'.isEnded = true := by
    intro o' p q hp hlive p' hp'
    have hne : o ≠ o' := by
      rintro rfl
      cases hlive.symm.trans (h.2 p hp)
    rw [update_of_ne hne] at hp'
    exact h.2 p' hp'
  cases step_cases hstep with
  | @spawn id r o' hloop ho hraw =>
    have hne : o ≠ o' := by
      rintro rfl
      cases h.1.symm.trans hraw
    constructor
    · dsimp only
      rw [update_of_ne hne]
      exact h.1
    · dsimp only
      rw [update_of_ne hne]
      exact h.2
  | pumpRead hp => exact ⟨h.1, hpump _ _ _ hp rfl⟩
  | pumpSend hp => exact ⟨h.1, hpump _ _ _ hp rfl⟩
  | pumpFail hp => exact ⟨h.1, hpump _ _ _ hp rfl⟩
  | pumpEof hp => exact ⟨h.1, hpump _ _ _ hp rfl⟩
  | _ => exact h

/-! ## The invariant -/

theorem Fins.init (cfg : Config) (w : World) : Fins (init cfg w) where
  finished _ h := by cases h
  finishing exit stdout stderr error h := by
    unfold Exec.init at h
    dsimp only at h
    split at h <;> cases h
  last := .nil

/-- The completion path comes to write the ends of the streams from where it has their ids. -/
theorem finishing_of_step (hstep : step cfg s l = some s') {exit : Int32}
    {stdout stderr error : Option UInt32} (h : s'.main = .finishing exit stdout stderr error) :
    s.main = .finishing exit stdout stderr error ∨
      stdout = s.byRole STDOUT ∧ stderr = s.byRole STDERR ∧ error = s.byRole ERROR := by
  have hnotify : s.main.notify = .finishing exit stdout stderr error →
      s.main = .finishing exit stdout stderr error := by
    intro hm
    rcases hmain : s.main with _ | g | g | _ | _ | _ | _ | _ | _ | _ <;> rw [hmain] at hm <;>
      first | exact hm | cases hm
  cases step_cases hstep with
  | tell => exact .inl (hnotify h)
  | tellPump => exact .inl (hnotify h)
  | arm => cases h
  | finish => cases h
  | goto hgoto =>
    cases hgoto with
    | snapshot hmain =>
      obtain ⟨-, rfl, rfl, rfl⟩ := Main.finishing.inj h
      exact .inr ⟨rfl, rfl, rfl⟩
    | drained hnext =>
      rcases hnext.target with rfl | ⟨_, rfl⟩ <;> cases h
    | _ => cases h
  | _ => exact .inl h

theorem pairwise_snoc {out : List Outbound} (h : out.Pairwise Follows) {g : Outbound}
    (hg : ∀ f ∈ out, Follows f g) : (out ++ [g]).Pairwise Follows := by
  rw [List.pairwise_append]
  refine ⟨h, List.pairwise_singleton _ _, fun f hf g' hg' => ?_⟩
  rw [List.mem_singleton.mp hg']
  exact hg f hf

theorem mem_fins {exit : Int32} {stdout stderr error : Option UInt32} {f : Outbound}
    (h : f ∈ fins exit stdout stderr error) :
    (∃ id ∈ stdout, f = .data id FLAG_FIN []) ∨ (∃ id ∈ stderr, f = .data id FLAG_FIN []) ∨
      ∃ id ∈ error, f = .data id FLAG_FIN (exitStatusJson exit) := by
  unfold fins at h
  rcases List.mem_append.mp h with h | h
  · rcases List.mem_append.mp h with h | h
    · obtain ⟨id, hid, rfl⟩ := List.mem_map.mp h
      exact .inl ⟨id, Option.mem_toList.mp hid, rfl⟩
    · obtain ⟨id, hid, rfl⟩ := List.mem_map.mp h
      exact .inr (.inl ⟨id, Option.mem_toList.mp hid, rfl⟩)
  · obtain ⟨id, hid, rfl⟩ := List.mem_map.mp h
    exact .inr (.inr ⟨id, Option.mem_toList.mp hid, rfl⟩)

/-- The ends of streams with different roles are on different streams. -/
theorem fins_pairwise {exit : Int32} {stdout stderr error : Option UInt32}
    (hout : ∀ id ∈ stdout, s.roles id = some STDOUT) (herr : ∀ id ∈ stderr, s.roles id = some STDERR)
    (herror : ∀ id ∈ error, s.roles id = some ERROR) :
    (fins exit stdout stderr error).Pairwise Follows := by
  have hne : ∀ {a b : Option UInt32} {r r' : UInt8}, (∀ id ∈ a, s.roles id = some r) →
      (∀ id ∈ b, s.roles id = some r') → r ≠ r' → ∀ data data',
      ∀ f ∈ a.toList.map (Outbound.data · FLAG_FIN data),
      ∀ g ∈ b.toList.map (Outbound.data · FLAG_FIN data'), Follows f g := by
    intro a b r r' ha hb hr data data' f hf g hg
    obtain ⟨id, hid, rfl⟩ := List.mem_map.mp hf
    obtain ⟨id', hid', rfl⟩ := List.mem_map.mp hg
    intro id'' hfin heq
    obtain rfl := Option.some.inj hfin
    obtain rfl := Option.some.inj heq
    have h := (ha id' (Option.mem_toList.mp hid)).symm.trans (hb id' (Option.mem_toList.mp hid'))
    exact hr (Option.some.inj h)
  have hsingle : ∀ (a : Option UInt32) (data : Bytes),
      (a.toList.map (Outbound.data · FLAG_FIN data)).Pairwise Follows := by
    intro a data
    cases a with
    | none => exact .nil
    | some id => exact List.pairwise_singleton _ _
  unfold fins
  rw [List.pairwise_append, List.pairwise_append]
  refine ⟨⟨hsingle _ _, hsingle _ _, hne hout herr (by decide) _ _⟩, hsingle _ _, ?_⟩
  intro f hf g hg
  rcases List.mem_append.mp hf with hf | hf
  · exact hne hout herror (by decide) _ _ f hf g hg
  · exact hne herr herror (by decide) _ _ f hf g hg

theorem Fins.step (h : Fins s) (hstreams : Streams cfg s) (hpumps : Pumps s) (hquiet : Quiet s l)
    (hstep : Exec.step cfg s l = some s') : Fins s' := by
  have hfinishing : ∀ exit stdout stderr error, s'.main = .finishing exit stdout stderr error →
      (∀ id ∈ stdout, s'.roles id = some STDOUT) ∧ (∀ id ∈ stderr, s'.roles id = some STDERR) ∧
        ∀ id ∈ error, s'.roles id = some ERROR := by
    intro exit stdout stderr error hmain
    rcases finishing_of_step hstep hmain with hold | ⟨rfl, rfl, rfl⟩
    · obtain ⟨hout, herr, herror⟩ := h.finishing _ _ _ _ hold
      exact ⟨fun id hid => roles_step hstreams (hout id hid) hstep,
        fun id hid => roles_step hstreams (herr id hid) hstep,
        fun id hid => roles_step hstreams (herror id hid) hstep⟩
    · exact ⟨fun id hid => roles_step hstreams (hstreams.roles _ _ hid) hstep,
        fun id hid => roles_step hstreams (hstreams.roles _ _ hid) hstep,
        fun id hid => roles_step hstreams (hstreams.roles _ _ hid) hstep⟩
  have hfinished : ∀ f ∈ s.out, ∀ id ∈ fin f, s'.main.over = true ∧
      ∃ r, s'.roles id = some r ∧ ∀ o : Output, o.channel = r → s'.quiet o := by
    intro f hf id hid
    obtain ⟨hover, r, hr, hq⟩ := h.finished f hf id hid
    exact ⟨over_step hover hstep, r, roles_step hstreams hr hstep,
      fun o ho => quiet_step (hq o ho) hstep⟩
  have hsame : s'.out = s.out → Fins s' := by
    intro hout
    refine ⟨?_, hfinishing, ?_⟩
    · rw [hout]
      exact hfinished
    · rw [hout]
      exact h.last
  -- a frame that ends no stream, on a stream that was not ended
  have hsnoc : ∀ g, s'.out = s.out ++ [g] → fin g = none → (∀ f ∈ s.out, Follows f g) → Fins s' := by
    intro g hout hg hfollows
    refine ⟨?_, hfinishing, ?_⟩
    · rw [hout]
      intro f hf id hid
      rcases List.mem_append.mp hf with hf | hf
      · exact hfinished f hf id hid
      · rw [List.mem_singleton.mp hf, hg] at hid
        cases hid
    · rw [hout]
      exact pairwise_snoc h.last hfollows
  cases step_cases hstep with
  | ping => exact hsnoc _ rfl rfl fun f hf id hid heq => by cases heq
  | @reply id r hloop =>
    refine hsnoc _ rfl rfl fun f hf id' hid heq => ?_
    obtain rfl := Option.some.inj heq
    have hnone := (hstreams.current (by rw [hloop]; rfl)).1
    obtain ⟨-, r', hr, -⟩ := h.finished f hf id hid
    cases hnone.symm.trans hr
  | @pumpSend o id bytes hpump =>
    refine hsnoc _ rfl rfl fun f hf id' hid heq => ?_
    obtain rfl := Option.some.inj heq
    obtain ⟨-, r, hr, hq⟩ := h.finished f hf id hid
    obtain rfl := Option.some.inj ((hpumps.roles o _ hpump).symm.trans hr)
    cases (hq o rfl).2 _ hpump
  | @finish exit stdout stderr error hmain =>
    obtain ⟨hout, herr, herror⟩ := h.finishing _ _ _ _ hmain
    have hnone : ∀ f ∈ s.out, fin f = none := by
      intro f hf
      by_contra hne
      obtain ⟨id, hid⟩ := Option.ne_none_iff_exists'.mp hne
      have hover := (h.finished f hf id hid).1
      rw [hmain] at hover
      cases hover
    have hq : (stdout.isSome → s.quiet .stdout) ∧ (stderr.isSome → s.quiet .stderr) := by
      unfold Quiet at hquiet
      dsimp only at hquiet
      rw [hmain] at hquiet
      exact hquiet
    refine ⟨fun f hf id hid => ?_, hfinishing, ?_⟩
    · rcases List.mem_append.mp hf with hf | hf
      · rw [hnone f hf] at hid
        cases hid
      · refine ⟨rfl, ?_⟩
        rcases mem_fins hf with ⟨id', hid', rfl⟩ | ⟨id', hid', rfl⟩ | ⟨id', hid', rfl⟩
        · obtain rfl := Option.some.inj hid
          refine ⟨STDOUT, hout _ hid', fun o ho => ?_⟩
          cases o with
          | stdout => exact hq.1 (Option.isSome_of_mem hid')
          | stderr => cases ho
        · obtain rfl := Option.some.inj hid
          refine ⟨STDERR, herr _ hid', fun o ho => ?_⟩
          cases o with
          | stdout => cases ho
          | stderr => exact hq.2 (Option.isSome_of_mem hid')
        · obtain rfl := Option.some.inj hid
          refine ⟨ERROR, herror _ hid', fun o ho => ?_⟩
          cases o <;> cases ho
    · show (s.out ++ fins exit stdout stderr error).Pairwise Follows
      rw [List.pairwise_append]
      refine ⟨h.last, fins_pairwise hout herr herror, fun f hf g hg id hid => ?_⟩
      rw [hnone f hf] at hid
      cases hid
  | _ => exact hsame rfl

/-- **Nothing after FIN**: where the completion path ends the streams of outputs only when their
pumps have ended, a frame with FLAG_FIN is the last on its stream. -/
theorem nothing_after_fin (cfg : Config) (stdin stdout stderr : Nat) {ls : List Label} {s : State}
    (hopens : Along (step cfg) (Opens cfg) (init cfg (.init stdin stdout stderr)) ls)
    (hquiet : Along (step cfg) Quiet (init cfg (.init stdin stdout stderr)) ls)
    (hrun : run (step cfg) (init cfg (.init stdin stdout stderr)) ls = some s) :
    s.out.Pairwise fun f g => ∀ id ∈ fin f, g.stream ≠ some id := by
  have h : Streams cfg s ∧ Pumps s ∧ Fins s := by
    refine invariant_run (I := fun s => Streams cfg s ∧ Pumps s ∧ Fins s)
      (P := fun s l => Opens cfg s l ∧ Quiet s l)
      (fun s l s' ⟨hstreams, hpumps, hfins⟩ ⟨hopens, hquiet⟩ hstep => ?_)
      ⟨.init cfg _, .init cfg _, .init cfg _⟩ (hopens.and hquiet) hrun
    exact ⟨hstreams.step hopens hstep, hpumps.step hstreams hstep,
      hfins.step hstreams hpumps hquiet hstep⟩
  exact h.2.2.last

/-- An exec that prints two bytes. -/
def printRun : List Label :=
  openedRun ++ [Label.process (.write .stdout [104, 105]), .process (.put 2), .pumpRead .stdout 2,
    .process (.exit 0), .pumpSend .stdout, .pumpEof .stdout, .reap (some 0), .pumpEof .stderr,
    .main, .main, .main, .main, .main]

def printConfig : Config := ⟨false, false, false, some ⟨false, true, true, false, .child⟩⟩

theorem nothing_after_fin_print : ∃ s,
    run (step printConfig) (init printConfig (.init 4 4 4)) printRun = some s ∧ s.main = .grace ∧
      s.out.Pairwise fun f g => ∀ id ∈ fin f, g.stream ≠ some id := by
  have hopens : Along (step printConfig) (Opens printConfig) (init printConfig (.init 4 4 4))
      printRun := by
    decide +kernel
  have hquiet : Along (step printConfig) Quiet (init printConfig (.init 4 4 4)) printRun := by
    decide +kernel
  exact ⟨_, rfl, rfl, nothing_after_fin printConfig 4 4 4 hopens hquiet rfl⟩

/-- An attach to pipes, which the client leaves before the container writes. -/
def attachConfig : Config := ⟨true, false, false, some ⟨false, true, true, false, .leavesRunning⟩⟩

theorem data_after_fin : ∃ ls s,
    Along (step attachConfig) (Opens attachConfig) (init attachConfig (.init 65536 65536 65536)) ls ∧
      Label.timeout ∉ ls ∧
      run (step attachConfig) (init attachConfig (.init 65536 65536 65536)) ls = some s ∧
      ¬ s.out.Pairwise fun f g => ∀ id ∈ fin f, g.stream ≠ some id := by
  have hopens : Along (step attachConfig) (Opens attachConfig)
      (init attachConfig (.init 65536 65536 65536))
      (openedRun ++ [Label.client (.frame (.data 1 FLAG_FIN [])), .readLoop, .detached, .main,
        .main, .process (.write .stdout [120]), .process (.put 1), .pumpRead .stdout 1,
        .pumpSend .stdout]) := by
    decide +kernel
  refine ⟨_, _, hopens, by decide, rfl, ?_⟩
  show ¬ List.Pairwise Follows _
  decide +kernel

end LightrCri.Spdy.Exec

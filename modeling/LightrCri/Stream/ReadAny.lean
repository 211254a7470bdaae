import LightrCri.Stream.PortForward
import Mathlib.Algebra.BigOperators.Group.List.Basic
import Mathlib.Algebra.Order.BigOperators.Group.List

/-!
# The backends that `read_any` serves

`read_any` awaits the first connected stream of the map and no other. It completes exactly if that
stream has data or its end, or none has; and the bytes of a backend get to the client without any
other backend doing something exactly if all connected streams before it have ended
(`read_any_iff`).
-/

namespace LightrCri.Stream.PortForward

open Foundations Spdy Function

/-- The connected streams, in the order of the iteration. -/
def streams (conns : Conns) : List Nat := conns.filterMap (·.2.stream)

def State.inbound (s : State) (k : Nat) : Bytes := (s.tcp[k]?.map (·.inbound)).getD []

def State.ended (s : State) (k : Nat) : Bool := (s.tcp[k]?.map (·.ended)).getD false

/-- The stream has data or its end. -/
def State.Ready (s : State) (k : Nat) : Prop := s.inbound k ≠ [] ∨ s.ended k = true

/-- `read_any` can be done. -/
def State.Completes (s : State) : Prop := ∃ n sends s', step s (.read n sends) = some s'

/-- The stream that the iteration yields first is idle, and another has data or its end. -/
def State.IdleFirst (s : State) : Prop :=
  ∃ j, (streams s.conns).head? = some j ∧ ¬ s.Ready j ∧ ∃ k ∈ streams s.conns, s.Ready k

/-- What the loop does without a message of the client and without a backend. -/
def Own (l : Label) : Prop := ∃ n, l = .read n true

/-- Bytes of the backend do not get to the client as long as no other backend does something. -/
def State.HeldBack (s : State) (k : Nat) : Prop :=
  s.inbound k ≠ [] ∧ ¬ Reaches step Own s fun s' => s'.inbound k = []

/-! ## The stream that is read -/

section

variable {conns : Conns} {ch : UInt8} {k : Nat}

theorem head_streams (conns : Conns) : (streams conns).head? = (readAny conns).map Prod.snd := by
  induction conns with
  | nil => rfl
  | cons p conns ih =>
    obtain ⟨ch, port, stream⟩ := p
    cases stream with
    | none => exact ih
    | some k => rfl

theorem setStream_of_not_mem {stream : Option Nat} (h : ch ∉ conns.map Prod.fst) :
    setStream ch stream conns = conns := by
  unfold setStream
  conv_rhs => rw [← List.map_id conns]
  refine List.map_congr_left fun p hp => if_neg fun heq => h ?_
  rw [← heq]
  exact List.mem_map_of_mem hp

/-- The stream that is read is taken out of the map. -/
theorem streams_setStream_readAny (hnodup : (conns.map Prod.fst).Nodup)
    (h : readAny conns = some (ch, k)) :
    streams conns = k :: streams (setStream ch none conns) := by
  induction conns with
  | nil => cases h
  | cons p conns ih =>
    obtain ⟨ch', port, stream⟩ := p
    rw [List.map_cons, List.nodup_cons] at hnodup
    cases stream with
    | none =>
      rw [readAny] at h
      have hkey : (if ch' = ch then (ch', { port := port, stream := none })
          else ((ch', ⟨port, none⟩) : UInt8 × PortConn)) = (ch', ⟨port, none⟩) := by
        split <;> rfl
      have hmap : setStream ch none ((ch', ⟨port, none⟩) :: conns) =
          (ch', ⟨port, none⟩) :: setStream ch none conns := congrArg (· :: _) hkey
      rw [hmap]
      exact ih hnodup.2 h
    | some j =>
      rw [readAny] at h
      obtain ⟨rfl, rfl⟩ := Prod.mk.inj (Option.some.inj h)
      have hmap : setStream ch' none ((ch', ⟨port, some j⟩) :: conns) =
          (ch', ⟨port, none⟩) :: setStream ch' none conns := congrArg (· :: _) (if_pos rfl)
      rw [hmap, setStream_of_not_mem hnodup.1]
      rfl

end

/-! ## The steps of `read_any` -/

section

variable {s s' : State} {k : Nat}

theorem exists_tcp_of_ready (h : s.Ready k) : ∃ c, s.tcp[k]? = some c := by
  unfold State.Ready State.inbound State.ended at h
  cases hc : s.tcp[k]? with
  | none =>
    rw [hc] at h
    rcases h with h | h
    · exact absurd rfl h
    · cases h
  | some c => exact ⟨c, rfl⟩

/-- A step of `read_any`: bytes of the first stream are read, or the stream has ended and is taken
out. -/
theorem read_cases {n : Nat} {sends : Bool} (hstep : step s (.read n sends) = some s') :
    ∃ ch k c, readAny s.conns = some (ch, k) ∧ s.tcp[k]? = some c ∧
      ((0 < n ∧ n ≤ c.inbound.length ∧
          s' = { s.setTcp k fun c => { c with inbound := c.inbound.drop n } with
            sent := s.sent ++ [ch :: c.inbound.take n], live := sends }) ∨
        (c.inbound = [] ∧ c.ended = true ∧ s' = { s with conns := setStream ch none s.conns })) := by
  rw [step] at hstep
  split at hstep
  · split at hstep
    · cases hstep
    · rename_i ch k hread
      split at hstep
      · cases hstep
      · rename_i c hc
        refine ⟨ch, k, c, hread, hc, ?_⟩
        split at hstep
        · rename_i hn
          exact .inl ⟨hn.1, hn.2.2, (Option.some.inj hstep).symm⟩
        · split at hstep
          · rename_i hended
            exact .inr ⟨hended.1, hended.2, (Option.some.inj hstep).symm⟩
          · cases hstep
  · cases hstep

/-- Bytes of the first stream are read. -/
theorem step_read_data {ch : UInt8} {c : Tcp} {n : Nat} (hlive : s.live = true)
    (hread : readAny s.conns = some (ch, k)) (hc : s.tcp[k]? = some c)
    (hn : 0 < n ∧ n ≤ 8192 ∧ n ≤ c.inbound.length) (sends : Bool) :
    step s (.read n sends) =
      some { s.setTcp k fun c => { c with inbound := c.inbound.drop n } with
        sent := s.sent ++ [ch :: c.inbound.take n], live := sends } := by
  rw [step, if_pos hlive, hread]
  dsimp only
  rw [hc]
  dsimp only
  rw [if_pos hn]

/-- The end of the first stream is read. -/
theorem step_read_end {ch : UInt8} {c : Tcp} (hlive : s.live = true)
    (hread : readAny s.conns = some (ch, k)) (hc : s.tcp[k]? = some c) (hdata : c.inbound = [])
    (hended : c.ended = true) :
    step s (.read 0 true) = some { s with conns := setStream ch none s.conns } := by
  rw [step, if_pos hlive, hread]
  dsimp only
  rw [hc]
  dsimp only
  rw [if_neg fun h => absurd h.1 (Nat.lt_irrefl 0), if_pos ⟨hdata, hended⟩]

theorem inbound_eq {c : Tcp} (hc : s.tcp[k]? = some c) : s.inbound k = c.inbound := by
  unfold State.inbound
  rw [hc]
  rfl

theorem ended_eq {c : Tcp} (hc : s.tcp[k]? = some c) : s.ended k = c.ended := by
  unfold State.ended
  rw [hc]
  rfl

/-- What the first stream has is read. -/
theorem exists_read (hlive : s.live = true) (hhead : (streams s.conns).head? = some k)
    (hready : s.Ready k) : ∃ n s', step s (.read n true) = some s' := by
  rw [head_streams] at hhead
  obtain ⟨⟨ch, k'⟩, hread, rfl⟩ := Option.map_eq_some_iff.mp hhead
  obtain ⟨c, hc⟩ := exists_tcp_of_ready hready
  by_cases hdata : c.inbound = []
  · have hended : c.ended = true := by
      rcases hready with h | h
      · rw [inbound_eq hc] at h
        exact absurd hdata h
      · rwa [ended_eq hc] at h
    exact ⟨0, _, step_read_end hlive hread hc hdata hended⟩
  · have hpos := List.length_pos_of_ne_nil hdata
    exact ⟨1, _, step_read_data hlive hread hc ⟨by omega, by omega, by omega⟩ true⟩

/-- `read_any` can be done exactly if the first stream is ready. -/
theorem completes_iff (hlive : s.live = true) :
    s.Completes ↔ ∃ k, (streams s.conns).head? = some k ∧ s.Ready k := by
  constructor
  · rintro ⟨n, sends, s', hstep⟩
    obtain ⟨ch, k, c, hread, hc, h⟩ := read_cases hstep
    refine ⟨k, by rw [head_streams, hread]; rfl, ?_⟩
    rcases h with ⟨hpos, hle, -⟩ | ⟨-, hended, -⟩
    · refine .inl ?_
      rw [inbound_eq hc]
      exact List.ne_nil_of_length_pos (by omega)
    · refine .inr ?_
      rwa [ended_eq hc]
  · rintro ⟨k, hhead, hready⟩
    obtain ⟨n, s', hstep⟩ := exists_read hlive hhead hready
    exact ⟨n, true, s', hstep⟩

/-- What a step of `read_any` does to the streams: the first has less to read, or it has ended and
is taken out, and nothing else happens. -/
theorem read_effect {n : Nat} {sends : Bool} (hnodup : (s.conns.map Prod.fst).Nodup)
    (hstep : step s (.read n sends) = some s') :
    ∃ k, (∀ j, s'.ended j = s.ended j) ∧ (∀ j, j ≠ k → s'.inbound j = s.inbound j) ∧
      ((∃ rest, streams s.conns = k :: rest) ∧ streams s'.conns = streams s.conns ∧
          (s'.inbound k).length < (s.inbound k).length ∧ s'.live = sends ∨
        s.inbound k = [] ∧ s.ended k = true ∧ streams s.conns = k :: streams s'.conns ∧
          s'.inbound k = s.inbound k ∧ s'.live = s.live) := by
  obtain ⟨ch, k, c, hread, hc, h⟩ := read_cases hstep
  have hstreams := streams_setStream_readAny hnodup hread
  refine ⟨k, ?_⟩
  rcases h with ⟨hpos, hle, heq⟩ | ⟨hdata, hended, rfl⟩
  · have htcp : s'.tcp = s.tcp.modify k fun c => { c with inbound := c.inbound.drop n } := by
      rw [heq]
      rfl
    have hk : s'.tcp[k]? = some { c with inbound := c.inbound.drop n } := by
      rw [htcp, List.getElem?_modify_eq, hc]
      rfl
    have hother : ∀ j, j ≠ k → s'.tcp[j]? = s.tcp[j]? := fun j hj => by
      rw [htcp, List.getElem?_modify_ne _ _ hj.symm]
    have hconns : s'.conns = s.conns := by
      rw [heq]
      rfl
    refine ⟨fun j => ?_, fun j hj => ?_, .inl ⟨⟨_, hstreams⟩, by rw [hconns], ?_, by rw [heq]⟩⟩
    · by_cases hj : j = k
      · rw [hj, ended_eq hk, ended_eq hc]
      · exact congrArg (fun o => (o.map Tcp.ended).getD false) (hother j hj)
    · exact congrArg (fun o => (o.map Tcp.inbound).getD []) (hother j hj)
    · rw [inbound_eq hc, inbound_eq hk, List.length_drop]
      omega
  · refine ⟨fun _ => rfl, fun _ _ => rfl, .inr ⟨?_, ?_, hstreams, rfl, rfl⟩⟩
    · rwa [inbound_eq hc]
    · rwa [ended_eq hc]

/-! ## The streams before another -/

/-- The connected streams that the iteration yields before `k`. -/
def State.before (s : State) (k : Nat) : List Nat := (streams s.conns).takeWhile (· ≠ k)

theorem before_cons {i : Nat} {rest : List Nat} (hstreams : streams s.conns = i :: rest) (hne : i ≠ k) :
    s.before k = i :: rest.takeWhile (· ≠ k) := by
  unfold State.before
  rw [hstreams, List.takeWhile_cons_of_pos (by simpa using hne)]

/-- An open stream before `k` stays there, and nothing of `k` is read. -/
theorem heldBack_step {j n : Nat} {sends : Bool} (hnodup : (s.conns.map Prod.fst).Nodup)
    (hj : j ∈ s.before k) (hopen : s.ended j = false) (hstep : step s (.read n sends) = some s') :
    j ∈ s'.before k ∧ s'.ended j = false ∧ s'.inbound k = s.inbound k := by
  obtain ⟨i, hended, hinbound, h⟩ := read_effect hnodup hstep
  have hne : i ≠ k := by
    rintro rfl
    obtain ⟨rest, hrest⟩ : ∃ rest, streams s.conns = i :: rest := by
      rcases h with ⟨hrest, -⟩ | ⟨-, -, hrest, -⟩
      · exact hrest
      · exact ⟨_, hrest⟩
    unfold State.before at hj
    rw [hrest, List.takeWhile_cons_of_neg (by simp)] at hj
    cases hj
  refine ⟨?_, (hended j).trans hopen, hinbound k hne.symm⟩
  rcases h with ⟨-, hsame, -⟩ | ⟨-, hend, hrest, -⟩
  · unfold State.before
    rwa [hsame]
  · rw [before_cons hrest hne] at hj
    rcases List.mem_cons.mp hj with rfl | hj
    · rw [hend] at hopen
      cases hopen
    · exact hj

end

section

variable {ports : List UInt16} {s : State} {k : Nat}

theorem heldBack_of_open (hinv : Inv ports s) (hdata : s.inbound k ≠ []) {j : Nat}
    (hj : j ∈ s.before k) (hopen : s.ended j = false) : s.HeldBack k := by
  refine ⟨hdata, fun ⟨ls, s', hown, hrun, hempty⟩ => ?_⟩
  have hkept : Inv ports s' ∧ j ∈ s'.before k ∧ s'.ended j = false ∧ s'.inbound k ≠ [] := by
    refine invariant_run (P := fun _ l => Own l) (I := fun s' => Inv ports s' ∧ j ∈ s'.before k ∧
      s'.ended j = false ∧ s'.inbound k ≠ []) ?_ ⟨hinv, hj, hopen, hdata⟩ (.of_labels hown) hrun
    rintro s₁ l s₂ ⟨hinv₁, hj₁, hopen₁, hdata₁⟩ ⟨n, rfl⟩ hstep
    obtain ⟨hj₂, hopen₂, hsame⟩ := heldBack_step hinv₁.nodup hj₁ hopen₁ hstep
    exact ⟨hinv₁.step hstep, hj₂, hopen₂, hsame ▸ hdata₁⟩
  exact hkept.2.2.2 hempty

/-- What is left to read before the streams are all taken out. -/
def State.pending (s : State) : Nat := ((streams s.conns).map fun k => (s.inbound k).length + 1).sum

/-- A step of `read_any` leaves less. -/
theorem pending_lt {s' : State} {n : Nat} {sends : Bool} (hnodup : (s.conns.map Prod.fst).Nodup)
    (hstep : step s (.read n sends) = some s') : s'.pending < s.pending := by
  obtain ⟨i, -, hinbound, h⟩ := read_effect hnodup hstep
  unfold State.pending
  rcases h with ⟨⟨rest, hrest⟩, hsame, hlt, -⟩ | ⟨-, -, hrest, hsame, -⟩
  · have hle : ∀ l : List Nat, (l.map fun k => (s'.inbound k).length + 1).sum ≤
        (l.map fun k => (s.inbound k).length + 1).sum := fun l => by
      refine List.sum_le_sum fun j _ => ?_
      by_cases hj : j = i
      · subst hj
        omega
      · rw [hinbound j hj]
    rw [hsame, hrest, List.map_cons, List.map_cons, List.sum_cons, List.sum_cons]
    have := hle rest
    omega
  · have heq : ∀ j, s'.inbound j = s.inbound j := fun j => by
      by_cases hj : j = i
      · rw [hj, hsame]
      · exact hinbound j hj
    rw [hrest, List.map_cons, List.sum_cons]
    simp only [heq]
    omega

/-- If all streams before it have ended, the bytes of a stream get to the client. -/
theorem reaches_of_ended (hinv : Inv ports s) (hlive : s.live = true) (hk : k ∈ streams s.conns)
    (hbefore : ∀ j ∈ s.before k, s.ended j = true) :
    Reaches step Own s fun s' => s'.inbound k = [] := by
  refine reaches_of_variant (I := fun s => Inv ports s ∧ s.live = true ∧ k ∈ streams s.conns ∧
    ∀ j ∈ s.before k, s.ended j = true) State.pending ?_ ⟨hinv, hlive, hk, hbefore⟩
  rintro s ⟨hinv, hlive, hk, hbefore⟩
  by_cases hdata : s.inbound k = []
  · exact .inl hdata
  · refine .inr ?_
    obtain ⟨i, hi⟩ : ∃ i, (streams s.conns).head? = some i :=
      Option.ne_none_iff_exists'.mp fun h => List.ne_nil_of_mem hk (List.head?_eq_none_iff.mp h)
    have hready : s.Ready i := by
      by_cases hne : i = k
      · exact .inl (hne ▸ hdata)
      · obtain ⟨rest, hrest⟩ : ∃ rest, streams s.conns = i :: rest := List.head?_eq_some_iff.mp hi
        refine .inr (hbefore i ?_)
        rw [before_cons hrest hne]
        exact List.mem_cons_self
    obtain ⟨n, s', hstep⟩ := exists_read hlive hi hready
    refine ⟨.read n true, s', ⟨n, rfl⟩, hstep, ⟨hinv.step hstep, ?_⟩, pending_lt hinv.nodup hstep⟩
    obtain ⟨i', hended, hinbound, h⟩ := read_effect hinv.nodup hstep
    rcases h with ⟨-, hsame, -, hlive'⟩ | ⟨hempty, -, hrest, -, hlive'⟩
    · refine ⟨hlive', hsame.symm ▸ hk, fun j hj => ?_⟩
      unfold State.before at hj hbefore
      rw [hended, hbefore j (hsame ▸ hj)]
    · have hne : i' ≠ k := fun heq => hdata (heq ▸ hempty)
      rw [hrest] at hk
      refine ⟨hlive'.trans hlive, (List.mem_cons.mp hk).resolve_left hne.symm, fun j hj => ?_⟩
      rw [before_cons hrest hne] at hbefore
      rw [hended, hbefore j (List.mem_cons_of_mem _ hj)]

theorem heldBack_iff (hinv : Inv ports s) (hlive : s.live = true) (hk : k ∈ streams s.conns)
    (hdata : s.inbound k ≠ []) : s.HeldBack k ↔ ∃ j ∈ s.before k, s.ended j = false := by
  constructor
  · rintro ⟨-, hnever⟩
    by_contra hall
    refine hnever (reaches_of_ended hinv hlive hk fun j hj => ?_)
    cases hended : s.ended j with
    | true => rfl
    | false => exact absurd ⟨j, hj, hended⟩ hall
  · rintro ⟨j, hj, hopen⟩
    exact heldBack_of_open hinv hdata hj hopen

/-- If a stream is ready, `read_any` can be done, exactly if no idle stream comes first. -/
theorem completes_of_ready_iff (hlive : s.live = true) :
    ((∃ k ∈ streams s.conns, s.Ready k) → s.Completes) ↔ ¬ s.IdleFirst := by
  rw [completes_iff hlive]
  constructor
  · rintro h ⟨j, hj, hidle, hready⟩
    obtain ⟨k, hk, hkready⟩ := h hready
    rw [hj] at hk
    exact hidle (Option.some.inj hk ▸ hkready)
  · rintro h ⟨k, hk, hready⟩
    obtain ⟨j, hj⟩ : ∃ j, (streams s.conns).head? = some j :=
      Option.ne_none_iff_exists'.mp fun h => List.ne_nil_of_mem hk (List.head?_eq_none_iff.mp h)
    refine ⟨j, hj, ?_⟩
    by_contra hidle
    exact h ⟨j, hj, hidle, k, hk, hready⟩

end

/-- **The backends that are served**: in a live state of a run, `read_any` is done when a connected
stream has data or its end exactly if the stream that the iteration yields first is not idle then,
and the bytes of a backend are held back exactly if a stream before it is open. -/
theorem read_any_iff {ports : List UInt16} {conns : Conns} {ls : List Label} {s : State}
    (hconns : conns.Perm (numberFrom [] 0 ports)) (hrun : run step (init ports conns) ls = some s)
    (hlive : s.live = true) :
    (((∃ k ∈ streams s.conns, s.Ready k) → s.Completes) ↔ ¬ s.IdleFirst) ∧
      ∀ k ∈ streams s.conns, s.inbound k ≠ [] →
        (s.HeldBack k ↔ ∃ j ∈ s.before k, s.ended j = false) :=
  ⟨completes_of_ready_iff hlive, fun _ hk hdata =>
    heldBack_iff (Inv.run hconns hrun) hlive hk hdata⟩

/-! ## An idle backend -/

/-- The client sends a byte to each of the two ports, and the second backend answers. -/
def idleRun : List Label := [.binary [0, 1] true none, .binary [2, 1] true none, .backend 1 [7]]

theorem exists_idle : ∃ s, run step (init [80, 81] (numberFrom [] 0 [80, 81])) idleRun = some s ∧
    s.live = true ∧ streams s.conns = [0, 1] ∧ s.inbound 0 = [] ∧ s.ended 0 = false ∧
    s.inbound 1 = [7] :=
  ⟨_, rfl, rfl, rfl, rfl, rfl, rfl⟩

theorem read_any_iff_idle : ∃ s,
    run step (init [80, 81] (numberFrom [] 0 [80, 81])) idleRun = some s ∧
      (((∃ k ∈ streams s.conns, s.Ready k) → s.Completes) ↔ ¬ s.IdleFirst) ∧ s.HeldBack 1 := by
  obtain ⟨s, hrun, hlive, hstreams, -, hopen, hdata⟩ := exists_idle
  obtain ⟨hserved, hheld⟩ := read_any_iff (.refl _) hrun hlive
  have hk : 1 ∈ streams s.conns := by
    rw [hstreams]
    decide
  refine ⟨s, hrun, hserved, (hheld 1 hk (by rw [hdata]; decide)).mpr ⟨0, ?_, hopen⟩⟩
  unfold State.before
  rw [hstreams]
  decide

/-- **An idle backend is awaited** while the other one has sent a byte. -/
theorem read_any_starves : ∃ s,
    run step (init [80, 81] (numberFrom [] 0 [80, 81])) idleRun = some s ∧ s.live = true ∧
      (∃ k ∈ streams s.conns, s.Ready k) ∧ ¬ s.Completes := by
  obtain ⟨s, hrun, hlive, hstreams, hidle, hopen, hdata⟩ := exists_idle
  refine ⟨s, hrun, hlive, ⟨1, by rw [hstreams]; decide, .inl (by rw [hdata]; decide)⟩, fun h => ?_⟩
  obtain ⟨k, hk, hready⟩ := (completes_iff hlive).mp h
  rw [hstreams] at hk
  obtain rfl := Option.some.inj hk
  rcases hready with h | h
  · exact h hidle
  · rw [hopen] at h
    cases h

end LightrCri.Stream.PortForward

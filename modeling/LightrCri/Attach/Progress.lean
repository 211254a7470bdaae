import LightrCri.Attach.Delivery
import Mathlib.Algebra.BigOperators.Group.Finset.Basic
import Mathlib.Algebra.Order.BigOperators.Group.Finset

/-!
# The fan-out at work

The steps that the fan-out takes on its own, with the attachers that read (`Label.serves`), come to
an end: each of them makes `State.work` smaller, which counts for every byte what is still to be
done with it. Where they end, everything is delivered, unless a pipe that has a reader, and that
nobody reads from, is full (`Inv.resting`).
-/

namespace LightrCri.Attach

open Foundations LightrCri.Stream Function Spdy

/-- The steps of the threads, of the process in its write, and of the attachers that read. -/
def Label.serves (stalled : Nat → Bool) : Label → Bool
  | .process (.put _) => true
  | .tee _ _ => true
  | .attach k (.read _ _) => !stalled k
  | _ => false

/-! ## The work to do -/

/-- What is left of a write of the process. -/
def unput (w : World) (o : Output) : Bytes :=
  match w.proc with
  | .writing o' rest => if o' = o then rest else []
  | _ => []

/-- The work of a thread, with `m` sinks. A byte is put in a pipe and read from it. -/
def Tee.work (m : Nat) : Tee → Nat
  | .ended => 0
  | .reading => 1
  | .logging => 2
  | .broadcasting chunk _ _ [] => 3 + chunk.length
  | .broadcasting chunk _ rest (_ :: todo) =>
    3 + chunk.length + (2 * rest.length + todo.length * (2 * chunk.length))
  | .locking chunk => 4 + chunk.length + m * (2 * chunk.length)

/-- What an attacher has yet to read. -/
def queued (tap : Nat → Option Tap) (k : Nat) : Nat := (tap k).elim 0 fun t => t.buf.length

/-- The work for a stream, with `m` sinks. -/
def work (m : Nat) (rest buf pending : Bytes) (tee : Tee) : Nat :=
  (2 * m + 6) * rest.length + (2 * m + 5) * buf.length + tee.work m + pending.count NEWLINE

def State.lag (s : State) (o : Output) : Nat :=
  work (s.members o).length (unput s.world o) (s.world.out o).buf (s.pending o) (s.tee o) +
    ∑ k ∈ (s.members o).toFinset, queued (s.tap o) k

def State.work (s : State) : Nat := s.lag .stdout + s.lag .stderr

theorem sum_queued_update {ks : Finset Nat} {k : Nat} (hk : k ∈ ks) (tap : Nat → Option Tap)
    (t : Tap) :
    ∑ j ∈ ks, queued (update tap k (some t)) j + queued tap k =
      ∑ j ∈ ks, queued tap j + t.buf.length := by
  have hself : queued (update tap k (some t)) k = t.buf.length := by
    unfold queued
    rw [update_self]
    rfl
  have hrest : ∑ j ∈ ks.erase k, queued (update tap k (some t)) j =
      ∑ j ∈ ks.erase k, queued tap j := by
    refine Finset.sum_congr rfl fun j hj => ?_
    unfold queued
    rw [update_of_ne (Finset.ne_of_mem_erase hj)]
  rw [← Finset.add_sum_erase _ _ hk, ← Finset.add_sum_erase _ (queued tap) hk, hself, hrest]
  omega

theorem work_read {n : Nat} {buf chunk : Bytes} (m : Nat) {rest pending : Bytes} (hn : 0 < n)
    (hbuf : n ≤ buf.length) (hchunk : chunk.length = n) :
    work m rest (buf.drop n) pending (.locking chunk) < work m rest buf pending .reading := by
  obtain ⟨b, hb⟩ := Nat.exists_eq_add_of_le hbuf
  unfold work Tee.work
  dsimp only
  rw [List.length_drop, hchunk, hb, Nat.add_sub_cancel_left, Nat.mul_add]
  have hcost : m * (2 * n) + n + 4 ≤ (2 * m + 5) * n := by
    calc m * (2 * n) + n + 4 ≤ m * (2 * n) + 5 * n := by omega
      _ = (2 * m + 5) * n := by ring
  omega

theorem Tee.work_start (m : Nat) (chunk : Bytes) (kept todo : List Nat) :
    (Tee.broadcasting chunk kept chunk todo).work m =
      3 + chunk.length + todo.length * (2 * chunk.length) := by
  cases todo with
  | nil =>
    show 3 + chunk.length = _
    rw [List.length_nil, Nat.zero_mul]
    rfl
  | cons k todo =>
    show 3 + chunk.length + (2 * chunk.length + todo.length * (2 * chunk.length)) = _
    rw [List.length_cons, Nat.add_mul]
    omega

theorem work_put {n : Nat} {rest : Bytes} (m : Nat) {buf pending : Bytes} {tee : Tee} (hn : 0 < n)
    (hrest : n ≤ rest.length) :
    work m (rest.drop n) (buf ++ rest.take n) pending tee < work m rest buf pending tee := by
  obtain ⟨r, hr⟩ := Nat.exists_eq_add_of_le hrest
  unfold work
  rw [List.length_drop, List.length_append, List.length_take, Nat.min_eq_left hrest, hr,
    Nat.add_sub_cancel_left, Nat.mul_add, Nat.mul_add]
  have hcost : (2 * m + 6) * n = (2 * m + 5) * n + n := by ring
  omega

section

variable {s s' : State} {o o' : Output}

/-- The work for the other streams stays as it is. -/
theorem State.lag_congr (hsame : Same s s' o) (hrest : unput s'.world o = unput s.world o)
    (hout : (s'.world.out o).buf = (s.world.out o).buf) (hpending : s'.pending o = s.pending o) :
    s'.lag o = s.lag o := by
  unfold State.lag
  rw [hsame.members, hsame.tee, hsame.tap, hrest, hout, hpending]

theorem State.work_lt (o : Output) (hlt : s'.lag o < s.lag o)
    (hne : ∀ o', o' ≠ o → s'.lag o' = s.lag o') : s'.work < s.work := by
  unfold State.work
  cases o with
  | stdout =>
    rw [hne .stderr nofun]
    omega
  | stderr =>
    rw [hne .stdout nofun]
    omega

/-- The thread has gone on, and nothing has come off the output. -/
theorem State.lag_lt {members members' : List Nat} {tap' : Nat → Option Tap} {tee tee' : Tee}
    {pending' : Bytes} (hworld : s'.world = s.world) (hmembers : s.members o = members)
    (htee : s.tee o = tee) (hmembers' : s'.members o = members') (htee' : s'.tee o = tee')
    (htap' : s'.tap o = tap') (hpending' : s'.pending o = pending')
    (hle : members'.length ≤ members.length)
    (hlt : tee'.work members'.length + pending'.count NEWLINE +
        ∑ k ∈ members'.toFinset, queued tap' k <
      tee.work members.length + (s.pending o).count NEWLINE +
        ∑ k ∈ members.toFinset, queued (s.tap o) k) : s'.lag o < s.lag o := by
  subst hmembers htee hmembers' htee' htap' hpending'
  unfold State.lag LightrCri.Attach.work
  rw [hworld]
  have h₁ := Nat.mul_le_mul_right (unput s.world o).length
    (show 2 * (s'.members o).length + 6 ≤ 2 * (s.members o).length + 6 by omega)
  have h₂ := Nat.mul_le_mul_right (s.world.out o).buf.length
    (show 2 * (s'.members o).length + 5 ≤ 2 * (s.members o).length + 5 by omega)
  omega

/-- A thread makes the work of its stream less. -/
theorem Inv.lag_tee {a : TeeAction} (h : Inv s) (hstep : Step s (.tee o a) s') :
    s'.lag o < s.lag o := by
  have hself {α : Type} (f : Output → α) (x : α) : update f o x o = x := update_self o x f
  have hsinks {tee : Tee} (htee : s.tee o = tee) (hlock : tee.locks = false) :
      s.members o = s.sinks o := State.members_of_not_locks (by rw [htee]; exact hlock)
  have hlane := h.lane o
  unfold State.Laned at hlane
  cases hstep with
  | @read _ n htee hn hbuf =>
    have hlen : (s.world.taken o n).length = n := by
      rw [World.taken, List.length_take]
      omega
    set t : State := { s.setTee o (.locking (s.world.taken o n)) with world := s.world.drain o n }
    have htee' : t.tee o = .locking (s.world.taken o n) := hself _ _
    have hmembers' : t.members o = s.sinks o := State.members_of_not_locks (by rw [htee']; rfl)
    have hbuf' : (t.world.out o).buf = (s.world.out o).buf.drop n := congrArg Pipe.buf (hself _ _)
    unfold State.lag
    rw [hsinks htee rfl, htee, htee', hmembers', hbuf']
    exact Nat.add_lt_add_right (work_read _ hn hbuf hlen) _
  | @lock _ chunk htee =>
    refine State.lag_lt rfl (hsinks htee rfl) htee (State.members_of_broadcasting (hself _ _))
      (hself _ _) (rfl : _ = s.tap o) (rfl : _ = s.pending o) le_rfl ?_
    rw [Tee.work_start]
    show _ < 4 + chunk.length + (s.sinks o).length * (2 * chunk.length) + _ + _
    rw [List.nil_append]
    omega
  | @put _ chunk rest kept todo k n t htee htap _ hn hrest hroom =>
    have hk : k ∈ (kept ++ k :: todo).toFinset := by simp
    have hsum := sum_queued_update hk (s.tap o) { t with buf := t.buf ++ rest.take n }
    have hqueued : queued (s.tap o) k = t.buf.length := by
      unfold queued
      rw [htap]
      rfl
    rw [hqueued, List.length_append, List.length_take] at hsum
    refine State.lag_lt rfl (State.members_of_broadcasting htee) htee
      (State.members_of_broadcasting (hself _ _)) (hself _ _) (hself _ _) (rfl : _ = s.pending o)
      le_rfl ?_
    unfold Tee.work
    dsimp only
    rw [List.length_drop]
    omega
  | @putLast _ chunk rest kept todo k t htee htap _ hrest hroom =>
    have hk : k ∈ (kept ++ k :: todo).toFinset := by simp
    have hsum := sum_queued_update hk (s.tap o) { t with buf := t.buf ++ rest }
    have hqueued : queued (s.tap o) k = t.buf.length := by
      unfold queued
      rw [htap]
      rfl
    have hmembers : kept ++ [k] ++ todo = kept ++ k :: todo := List.append_assoc ..
    rw [hqueued, List.length_append] at hsum
    refine State.lag_lt rfl (State.members_of_broadcasting htee) htee
      ((State.members_of_broadcasting (hself _ _)).trans hmembers) (hself _ _) (hself _ _)
      (rfl : _ = s.pending o) le_rfl ?_
    rw [Tee.work_start]
    unfold Tee.work
    dsimp only
    omega
  | @broken _ chunk rest kept todo k t htee htap hclosed =>
    rw [htee] at hlane
    obtain ⟨-, -, hrest, -⟩ := hlane.current _ _ _ _ rfl
    have hpos := List.length_pos_iff.mpr hrest
    have hsub : (kept ++ todo).Sublist (kept ++ k :: todo) :=
      (List.sublist_cons_self k todo).append_left kept
    have hsum : ∑ j ∈ (kept ++ todo).toFinset, queued (s.tap o) j ≤
        ∑ j ∈ (kept ++ k :: todo).toFinset, queued (s.tap o) j :=
      Finset.sum_le_sum_of_subset fun j hj =>
        List.mem_toFinset.mpr (hsub.subset (List.mem_toFinset.mp hj))
    refine State.lag_lt rfl (State.members_of_broadcasting htee) htee
      (State.members_of_broadcasting (hself _ _)) (hself _ _) (rfl : _ = s.tap o)
      (rfl : _ = s.pending o) hsub.length_le ?_
    rw [Tee.work_start]
    unfold Tee.work
    dsimp only
    omega
  | @unlock _ chunk rest kept htee =>
    have hmembers : s.members o = kept := by
      rw [State.members_of_broadcasting htee, List.append_nil]
    have hcount : chunk.count NEWLINE ≤ chunk.length := List.count_le_length
    refine State.lag_lt rfl hmembers htee
      ((State.members_of_not_locks (congrArg Tee.locks (hself _ _))).trans (hself _ _)) (hself _ _)
      (rfl : _ = s.tap o) (hself _ _) le_rfl ?_
    rw [List.count_append]
    unfold Tee.work
    dsimp only
    omega
  | @line _ time line rest htee hcut =>
    refine State.lag_lt rfl rfl htee (rfl : _ = s.members o) htee (rfl : _ = s.tap o) (hself _ _)
      le_rfl ?_
    have hcount := count_of_cut hcut
    omega
  | resume htee =>
    refine State.lag_lt rfl (hsinks htee rfl) htee
      ((State.members_of_not_locks (congrArg Tee.locks (hself _ _))).trans
        (rfl : _ = s.sinks o)) (hself _ _) (rfl : _ = s.tap o) (rfl : _ = s.pending o) le_rfl ?_
    unfold Tee.work
    dsimp only
    omega
  | finish htee hend =>
    refine State.lag_lt rfl (hsinks htee rfl) htee
      ((State.members_of_not_locks (congrArg Tee.locks (hself _ _))).trans
        (rfl : _ = s.sinks o)) (hself _ _) (rfl : _ = s.tap o) (rfl : _ = s.pending o) le_rfl ?_
    unfold Tee.work
    dsimp only
    omega

theorem unput_of_writing {w : World} {rest : Bytes} (hproc : w.proc = .writing o rest)
    (o' : Output) : unput w o' = if o = o' then rest else [] := by
  unfold unput
  rw [hproc]

/-- What is left of a write when the pipe has taken some of it. -/
theorem unput_put {w : World} {rest : Bytes} {n : Nat} (f : Pipe → Pipe) (p : Output → Bytes)
    (o' : Output) :
    unput { w.setOut o f with
      proc := if n = rest.length then .running else .writing o (rest.drop n)
      produced := p } o' = if o = o' then rest.drop n else [] := by
  unfold unput
  dsimp only
  by_cases hall : n = rest.length
  · rw [if_pos hall, hall, List.drop_length, ite_self]
  · rw [if_neg hall]

/-- The process makes it less, when its write gets on. -/
theorem State.work_put {n : Nat} {w : World} (hw : s.world.step (.put n) = some w) :
    { s with world := w : State }.work < s.work := by
  cases World.step_cases hw with
  | @put o rest _ hproc hn hrest hroom =>
    refine State.work_lt o ?_ fun o' ho => ?_
    · unfold State.lag
      refine Nat.add_lt_add_right ?_ _
      rw [unput_of_writing hproc, unput_put, if_pos rfl, if_pos rfl]
      show LightrCri.Attach.work _ _ (update s.world.out o _ o).buf _ _ < _
      rw [update_self]
      exact LightrCri.Attach.work_put _ hn hrest
    · refine State.lag_congr ⟨rfl, rfl, rfl, rfl⟩ ?_ ?_ rfl
      · rw [unput_of_writing hproc, unput_put, if_neg (Ne.symm ho), if_neg (Ne.symm ho)]
      · exact congrArg Pipe.buf (update_of_ne ho _ _)

/-- An attacher makes it less by reading. -/
theorem Inv.work_receive {k n : Nat} {t : Tap} (h : Inv s) (htap : s.tap o k = some t)
    (hopen : t.reading = true) (hn : 0 < n) (hbuf : n ≤ t.buf.length) :
    (s.setTap o k
      { t with buf := t.buf.drop n, received := t.received ++ t.buf.take n }).work < s.work := by
  have hk : k ∈ (s.members o).toFinset :=
    List.mem_toFinset.mpr (((h.lane o).good k t htap).joined (Tap.hasReader_of_reading hopen))
  have hsum := sum_queued_update hk (s.tap o)
    { t with buf := t.buf.drop n, received := t.received ++ t.buf.take n }
  have hqueued : queued (s.tap o) k = t.buf.length := by
    unfold queued
    rw [htap]
    rfl
  rw [hqueued, List.length_drop] at hsum
  refine State.work_lt o ?_ fun o' ho => ?_
  · refine State.lag_lt rfl rfl rfl (rfl : _ = s.members o) (rfl : _ = s.tee o) (update_self ..)
      (rfl : _ = s.pending o) le_rfl ?_
    omega
  · exact State.lag_congr ⟨rfl, rfl, rfl, update_of_ne ho _ _⟩ rfl rfl rfl

/-- A thread does nothing to the process. -/
theorem Step.unput_tee {a : TeeAction} (hstep : Step s (.tee o a) s') (o' : Output) :
    unput s'.world o' = unput s.world o' := by
  have hproc : s'.world.proc = s.world.proc := by
    cases hstep with
    | _ => rfl
  unfold unput
  rw [hproc]

theorem Inv.work_tee {a : TeeAction} (h : Inv s) (hstep : Step s (.tee o a) s') :
    s'.work < s.work := by
  refine State.work_lt o (h.lag_tee hstep) fun o' ho => ?_
  obtain ⟨hsame, hlog, hout⟩ := hstep.same_of_ne ho
  exact State.lag_congr hsame (hstep.unput_tee o') (congrArg Pipe.buf hout) hlog.pending

theorem Inv.work_lt {stalled : Nat → Bool} {l : Label} (h : Inv s) (hl : l.serves stalled = true)
    (hstep : Attach.step s l = some s') : s'.work < s.work := by
  cases l with
  | process a =>
    cases step_cases hstep with
    | process hw =>
      cases a with
      | put n => exact State.work_put hw
      | _ => cases hl
  | tee o a => exact h.work_tee (step_cases hstep)
  | attach k a =>
    cases step_cases hstep with
    | receive htap hopen hn hbuf => exact h.work_receive htap hopen hn hbuf
    | _ => cases hl
  | drop => cases hl
  | spawn => cases hl

/-! ## Where it comes to rest -/

/-- The thread cannot give the rest of a chunk to a sink: the pipe is full. -/
def State.Full (s : State) (o : Output) (k : Nat) : Prop :=
  ∃ chunk kept rest todo t, s.tee o = .broadcasting chunk kept rest (k :: todo) ∧
    s.tap o k = some t ∧ t.hasReader = true ∧ t.buf.length = t.capacity

/-- Nothing is left to do for the stream. -/
def State.Idle (s : State) (o : Output) : Prop :=
  (s.tee o = .reading ∧ (s.world.out o).buf = [] ∧ (s.world.out o).closed = false) ∨
    s.tee o = .ended

/-- The pipe has a reader, and nobody reads: its attacher has stalled, or has gone and left the read
end to a process that was spawned. -/
def Tap.unread (t : Tap) (stalled : Bool) : Bool := t.hasReader && (!t.reading || stalled)

theorem Inv.resting {stalled : Nat → Bool} (h : Inv s)
    (hquiet : ∀ l : Label, l.serves stalled = true → Attach.step s l = none) (o : Output) :
    s.Idle o ∨ ∃ k t, s.tap o k = some t ∧ t.unread (stalled k) = true ∧ s.Full o k := by
  have htee (a : TeeAction) : teeStep s o a = none := hquiet (.tee o a) rfl
  cases heq : s.tee o with
  | reading =>
    left
    left
    have hbuf : (s.world.out o).buf = [] := by
      by_contra hne
      have hstep := htee (.read 1)
      have hpos := List.length_pos_iff.mpr hne
      unfold teeStep at hstep
      dsimp only at hstep
      rw [if_pos ⟨heq, Nat.one_pos, by decide, hpos⟩] at hstep
      cases hstep
    refine ⟨heq, hbuf, ?_⟩
    by_contra hclosed
    have hstep := htee (.eof "")
    unfold teeStep at hstep
    dsimp only at hstep
    rw [if_pos ⟨heq, hbuf, by simpa using hclosed⟩] at hstep
    cases hstep
  | locking chunk =>
    have hstep := htee .lock
    unfold teeStep at hstep
    dsimp only at hstep
    rw [heq] at hstep
    cases hstep
  | broadcasting chunk kept rest todo =>
    cases todo with
    | nil =>
      have hstep := htee .unlock
      unfold teeStep at hstep
      dsimp only at hstep
      rw [heq] at hstep
      cases hstep
    | cons k todo =>
      right
      have hlane := h.lane o
      unfold State.Laned at hlane
      rw [State.members_of_broadcasting heq, heq] at hlane
      obtain ⟨t, ht⟩ := hlane.registered k (List.mem_append_right _ List.mem_cons_self)
      obtain ⟨-, -, hrest, -⟩ := hlane.current _ _ _ _ rfl
      have hgood := hlane.good k t ht
      have hopen : t.hasReader = true := by
        by_contra hclosed
        have hstep := htee .broken
        unfold teeStep at hstep
        dsimp only at hstep
        rw [heq] at hstep
        dsimp only at hstep
        rw [ht] at hstep
        dsimp only at hstep
        rw [if_pos (by simpa using hclosed)] at hstep
        cases hstep
      have hfull : t.buf.length = t.capacity := by
        by_contra hne
        have hroom := hgood.room
        have hpos := List.length_pos_iff.mpr hrest
        have hstep := htee (.put 1)
        unfold teeStep at hstep
        dsimp only at hstep
        rw [heq] at hstep
        dsimp only at hstep
        rw [ht] at hstep
        dsimp only at hstep
        rw [if_pos ⟨hopen, Nat.one_pos, hpos, by omega⟩] at hstep
        cases hstep
      refine ⟨k, t, ht, ?_, chunk, kept, rest, todo, t, heq, ht, hopen, hfull⟩
      by_contra hreads
      obtain ⟨hreading, hstalled⟩ : t.reading = true ∧ stalled k = false := by
        simpa [Tap.unread, hopen] using hreads
      have hstep : attachStep s k (.read o 1) = none :=
        hquiet (.attach k (.read o 1)) (by simp [Label.serves, hstalled])
      have hcapacity := hgood.capacity
      unfold attachStep at hstep
      dsimp only at hstep
      rw [ht] at hstep
      dsimp only at hstep
      rw [if_pos ⟨hreading, Nat.one_pos, by omega⟩] at hstep
      cases hstep
  | logging =>
    cases hcut : cutLine NEWLINE (s.pending o) with
    | none =>
      have hstep := htee .resume
      unfold teeStep at hstep
      dsimp only at hstep
      rw [if_pos ⟨heq, hcut⟩] at hstep
      cases hstep
    | some cut =>
      have hstep := htee (.line "")
      unfold teeStep at hstep
      dsimp only at hstep
      rw [if_pos heq, hcut] at hstep
      cases hstep
  | ended =>
    left
    right
    exact heq

/-- A process that has a stream to itself gets through its write. -/
theorem Inv.unput_eq_nil {stalled : Nat → Bool} (h : Inv s)
    (hquiet : ∀ l : Label, l.serves stalled = true → Attach.step s l = none) (hidle : s.Idle o) :
    unput s.world o = [] := by
  cases hproc : s.world.proc with
  | writing o' rest =>
    unfold unput
    rw [hproc]
    dsimp only
    split
    · rename_i ho
      subst ho
      obtain ⟨hrest, hopen⟩ := h.sound.writing o' rest hproc
      rcases hidle with ⟨-, hbuf, -⟩ | hended
      · have hstep : (s.world.step (.put 1)).map (fun w => { s with world := w }) = none :=
          hquiet (.process (.put 1)) rfl
        have hpos := List.length_pos_iff.mpr hrest
        have hroom : (s.world.out o').room 1 := by
          have := h.capacity o'
          unfold Pipe.room
          rw [hbuf, List.length_nil]
          omega
        unfold World.step at hstep
        dsimp only at hstep
        rw [hproc] at hstep
        dsimp only at hstep
        rw [if_pos ⟨Nat.one_pos, hpos, hroom⟩] at hstep
        cases hstep
      · have hclosed := ((h.lane o').ended hended).2
        rw [hopen] at hclosed
        cases hclosed
    · rfl
  | running =>
    unfold unput
    rw [hproc]
  | exited code =>
    unfold unput
    rw [hproc]

/-- Everything there was is handed over, and the log has its records. -/
theorem Inv.idle (h : Inv s) (hidle : s.Idle o) :
    s.world.produced o = (s.sent o).flatten ∧
      s.logged o = if (s.world.out o).closed then records (s.world.produced o)
        else lines NEWLINE (s.world.produced o) := by
  have hprod := h.sound.produced o
  unfold State.taken at hprod
  rcases hidle with ⟨htee, hbuf, hopen⟩ | hended
  · rw [htee, hbuf, List.append_nil] at hprod
    have hall : s.world.produced o = (s.sent o).flatten := hprod.trans (List.append_nil _)
    have hlines := (h.logged o).lines (htee ▸ nofun)
    rw [(lines_of_notMem ((h.logged o).idle (htee ▸ nofun))).1, List.append_nil, htee] at hlines
    refine ⟨hall, ?_⟩
    rw [hopen, hall]
    exact hlines
  · obtain ⟨hbuf, hclosed⟩ := (h.lane o).ended hended
    rw [hended, hbuf, List.append_nil] at hprod
    have hall : s.world.produced o = (s.sent o).flatten := hprod.trans (List.append_nil _)
    refine ⟨hall, ?_⟩
    rw [hclosed, hall]
    exact (h.logged o).ended hended

/-- An attacher that reads has everything. -/
theorem Inv.received {stalled : Nat → Bool} {k : Nat} {t : Tap} (h : Inv s)
    (hquiet : ∀ l : Label, l.serves stalled = true → Attach.step s l = none) (hidle : s.Idle o)
    (ht : s.tap o k = some t) (hopen : t.reading = true) (hreads : stalled k = false) :
    t.received = s.suffix o t := by
  have hgood := (h.lane o).good k t ht
  have hbuf : t.buf = [] := by
    by_contra hne
    have hpos := List.length_pos_iff.mpr hne
    have hstep : attachStep s k (.read o 1) = none :=
      hquiet (.attach k (.read o 1)) (by simp [Label.serves, hreads])
    unfold attachStep at hstep
    dsimp only at hstep
    rw [ht] at hstep
    dsimp only at hstep
    rw [if_pos ⟨hopen, Nat.one_pos, hpos⟩] at hstep
    cases hstep
  have hdue : (s.tee o).due k = [] := by
    rcases hidle with ⟨htee, -⟩ | hended
    · rw [htee]
      rfl
    · rw [hended]
      rfl
  have howed := hgood.owed (hgood.joined (Tap.hasReader_of_reading hopen))
  rw [hbuf, hdue, List.append_nil, List.append_nil] at howed
  exact howed

/-- The log is on its way to the records of the stream. -/
theorem Inv.logged_prefix (h : Inv s) (o : Output) : s.logged o <+: records (s.world.produced o) := by
  by_cases hended : s.tee o = .ended
  · rw [(h.idle (.inr hended)).1, (h.logged o).ended hended]
  · have hlines := (h.logged o).lines hended
    obtain ⟨rest, hrest⟩ : (s.tee o).handed (s.sent o) <+: s.world.produced o := by
      rw [h.sound.produced, State.taken, List.append_assoc]
      refine List.IsPrefix.trans ?_ (List.prefix_append _ _)
      cases s.tee o with
      | broadcasting => exact (List.dropLast_prefix _).flatten
      | _ => exact List.prefix_rfl
    refine List.IsPrefix.trans ⟨lines NEWLINE (s.pending o), hlines⟩ ?_
    unfold records
    rw [← hrest, lines_append, List.append_assoc]
    exact List.prefix_append _ _

end

end LightrCri.Attach

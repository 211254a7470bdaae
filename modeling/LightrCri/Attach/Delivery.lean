import LightrCri.Attach.FanOut
import Mathlib.Data.List.Nodup

/-!
# What the attachers and the log get

`Lane` says what is so of the sinks of a stream in every state: an attacher has been given the
chunks broadcast since its sink was registered, less what the broadcast under way still owes it
(`Tee.due`). `Logged` says the same of the log, which gets the lines of what was handed over to it.
The main result is `Inv.run`.
-/

namespace LightrCri.Attach

open Foundations LightrCri.Stream Function Spdy

/-! ## Where the bytes of a stream are -/

/-- What the thread has read and not begun to broadcast. -/
def Tee.holds : Tee → Bytes
  | .locking chunk => chunk
  | _ => []

/-- What a broadcast has yet to give to a sink. -/
def Tee.due : Tee → Nat → Bytes
  | .broadcasting chunk _ rest (j :: todo), k =>
    if k = j then rest else if k ∈ todo then chunk else []
  | _, _ => []

/-- What was handed over to the log, of the chunks broadcast. -/
def Tee.handed : Tee → List Bytes → Bytes
  | .broadcasting _ _ _ _, sent => sent.dropLast.flatten
  | _, sent => sent.flatten

/-- What the tee thread of a stream has read. -/
def State.taken (s : State) (o : Output) : Bytes := (s.sent o).flatten ++ (s.tee o).holds

/-- What was broadcast since the sink was registered. -/
def State.suffix (s : State) (o : Output) (t : Tap) : Bytes := ((s.sent o).drop t.since).flatten

/-- The records of the log for a stream. -/
def State.logged (s : State) (o : Output) : List Bytes :=
  (s.log.filter fun l => l.stream = o).map LogLine.data

/-- The records that a stream makes when it has ended. -/
def records (bytes : Bytes) : List Bytes :=
  lines NEWLINE bytes ++
    if unterminated NEWLINE bytes = [] then [] else [unterminated NEWLINE bytes]

theorem Tee.due_start (chunk : Bytes) (kept todo : List Nat) (k : Nat) :
    (Tee.broadcasting chunk kept chunk todo).due k = if k ∈ todo then chunk else [] := by
  cases todo with
  | nil => rfl
  | cons j todo =>
    show (if k = j then chunk else if k ∈ todo then chunk else []) = _
    by_cases hj : k = j
    · rw [if_pos hj, if_pos (hj ▸ List.mem_cons_self)]
    · rw [if_neg hj]
      refine if_congr ?_ rfl rfl
      rw [List.mem_cons, or_iff_right hj]

theorem State.logged_append (s : State) (time : String) (o o' : Output) (data : Bytes) :
    State.logged { s with log := s.log ++ [⟨time, o, data⟩] } o' =
      s.logged o' ++ if o = o' then [data] else [] := by
  show ((s.log ++ [(⟨time, o, data⟩ : LogLine)]).filter _).map _ = _
  rw [List.filter_append, List.map_append]
  refine congrArg _ ?_
  by_cases h : o = o' <;> simp [h]

/-! ## The sinks of a stream -/

/-- What is so of an attacher's pipe. -/
structure Tap.Good (t : Tap) (tee : Tee) (members : List Nat) (sent : List Bytes) (k : Nat) :
    Prop where
  joined : t.hasReader = true → k ∈ members
  since : t.since ≤ sent.length
  owed : k ∈ members → t.received ++ t.buf ++ tee.due k = (sent.drop t.since).flatten
  sound : t.received ++ t.buf <+: (sent.drop t.since).flatten
  capacity : 0 < t.capacity
  room : t.buf.length ≤ t.capacity
  eof : t.eof = true → tee = .ended ∧ t.received = (sent.drop t.since).flatten

/-- What is so of the sinks of a stream, by where its thread is, the sinks there are, the chunks
broadcast, the attachers' pipes and the output that the thread reads. -/
structure Lane (tee : Tee) (members : List Nat) (sent : List Bytes) (tap : Nat → Option Tap)
    (out : Pipe) : Prop where
  nodup : members.Nodup
  registered : ∀ k ∈ members, ∃ t, tap k = some t
  good : ∀ k t, tap k = some t → t.Good tee members sent k
  held : ∀ chunk, tee = .locking chunk → chunk ≠ []
  current : ∀ chunk kept rest todo, tee = .broadcasting chunk kept rest todo →
    members = kept ++ todo ∧ chunk ≠ [] ∧ rest ≠ [] ∧ sent.getLast? = some chunk
  ended : tee = .ended → out.atEnd

def State.Laned (s : State) (o : Output) : Prop :=
  Lane (s.tee o) (s.members o) (s.sent o) (s.tap o) (s.world.out o)

/-- What was handed over to the log is in the log, but for what waits for its newline. -/
structure Logged (s : State) (o : Output) : Prop where
  lines : s.tee o ≠ .ended →
    s.logged o ++ lines NEWLINE (s.pending o) = lines NEWLINE ((s.tee o).handed (s.sent o))
  pending : s.tee o ≠ .ended →
    unterminated NEWLINE (s.pending o) = unterminated NEWLINE ((s.tee o).handed (s.sent o))
  idle : s.tee o ≠ .logging → NEWLINE ∉ s.pending o
  ended : s.tee o = .ended → s.logged o = records (s.sent o).flatten

structure Inv (s : State) : Prop where
  sound : s.world.Sound s.taken
  capacity : ∀ o, 0 < (s.world.out o).capacity
  lane : ∀ o, s.Laned o
  logged : ∀ o, Logged s o

/-! ## What leaves a stream alone -/

/-- The states agree on the sinks of a stream. -/
structure Same (s s' : State) (o : Output) : Prop where
  tee : s'.tee o = s.tee o
  sinks : s'.sinks o = s.sinks o
  sent : s'.sent o = s.sent o
  tap : s'.tap o = s.tap o

/-- The states agree on the log of a stream. -/
structure SameLog (s s' : State) (o : Output) : Prop where
  tee : s'.tee o = s.tee o
  sent : s'.sent o = s.sent o
  pending : s'.pending o = s.pending o
  logged : s'.logged o = s.logged o

section

variable {s s' : State} {o o' : Output}

theorem Same.members (h : Same s s' o) : s'.members o = s.members o := by
  unfold State.members
  rw [h.tee, h.sinks]

theorem State.Laned.congr (hlane : s.Laned o) (h : Same s s' o)
    (hend : (s.world.out o).atEnd → (s'.world.out o).atEnd) : s'.Laned o := by
  unfold State.Laned
  rw [h.tee, h.members, h.sent, h.tap]
  exact { hlane with ended := fun he => hend (hlane.ended he) }

theorem Logged.congr (hlogged : Logged s o) (h : SameLog s s' o) : Logged s' o where
  lines := by
    rw [h.tee, h.sent, h.pending, h.logged]
    exact hlogged.lines
  pending := by
    rw [h.tee, h.sent, h.pending]
    exact hlogged.pending
  idle := by
    rw [h.tee, h.pending]
    exact hlogged.idle
  ended := by
    rw [h.tee, h.sent, h.logged]
    exact hlogged.ended

/-- A tee thread works on its own stream. -/
theorem Step.same_of_ne {a : TeeAction} (h : Step s (.tee o a) s') (hne : o' ≠ o) :
    Same s s' o' ∧ SameLog s s' o' ∧ s'.world.out o' = s.world.out o' := by
  have hupd {α : Type} (f : Output → α) (x : α) : update f o x o' = f o' := update_of_ne hne x f
  cases h with
  | read => exact ⟨⟨hupd _ _, rfl, rfl, rfl⟩, ⟨hupd _ _, rfl, rfl, rfl⟩, hupd _ _⟩
  | lock =>
    exact ⟨⟨hupd _ _, rfl, hupd _ _, rfl⟩, ⟨hupd _ _, hupd _ _, rfl, rfl⟩, rfl⟩
  | put => exact ⟨⟨hupd _ _, rfl, rfl, hupd _ _⟩, ⟨hupd _ _, rfl, rfl, rfl⟩, rfl⟩
  | putLast => exact ⟨⟨hupd _ _, rfl, rfl, hupd _ _⟩, ⟨hupd _ _, rfl, rfl, rfl⟩, rfl⟩
  | broken => exact ⟨⟨hupd _ _, rfl, rfl, rfl⟩, ⟨hupd _ _, rfl, rfl, rfl⟩, rfl⟩
  | unlock =>
    exact ⟨⟨hupd _ _, hupd _ _, rfl, rfl⟩, ⟨hupd _ _, rfl, hupd _ _, rfl⟩, rfl⟩
  | @line _ time line rest =>
    refine ⟨⟨rfl, rfl, rfl, rfl⟩, ⟨rfl, rfl, hupd _ _, ?_⟩, rfl⟩
    refine (s.logged_append time o o' line).trans ?_
    rw [if_neg (Ne.symm hne), List.append_nil]
  | resume => exact ⟨⟨hupd _ _, rfl, rfl, rfl⟩, ⟨hupd _ _, rfl, rfl, rfl⟩, rfl⟩
  | @finish _ time =>
    refine ⟨⟨hupd _ _, rfl, rfl, rfl⟩, ⟨hupd _ _, rfl, rfl, ?_⟩, rfl⟩
    show (List.filter _ (if s.pending o = [] then s.log else _)).map _ = _
    split
    · rfl
    · refine (s.logged_append time o o' (s.pending o)).trans ?_
      rw [if_neg (Ne.symm hne), List.append_nil]

end

/-! ## What a step does to a stream -/

theorem Tap.hasReader_of_reading {t : Tap} (h : t.reading = true) : t.hasReader = true :=
  (Bool.or_eq_true _ _).mpr (.inl h)

theorem Tap.hasReader_of_held {t : Tap} (h : t.heldRead = true) : t.hasReader = true :=
  (Bool.or_eq_true _ _).mpr (.inr h)

theorem Tap.hasReader_of_spawned {t : Tap} (h : (t.reading || t.hasReader) = true) :
    t.hasReader = true :=
  ((Bool.or_eq_true _ _).mp h).elim hasReader_of_reading id

theorem Tap.hasReader_of_and {t : Tap} {b : Bool} (h : (t.reading || (t.heldRead && b)) = true) :
    t.hasReader = true :=
  (Bool.or_eq_true _ _).mpr
    (((Bool.or_eq_true _ _).mp h).imp_right fun hb => ((Bool.and_eq_true _ _).mp hb).1)

section

variable {t : Tap} {tee tee' : Tee} {members kept todo : List Nat} {sent : List Bytes} {k : Nat}
variable {tap : Nat → Option Tap} {out out' : Pipe} {chunk rest : Bytes}

/-- The thread goes on, and owes the sink what it owed it. -/
theorem Tap.Good.retee (h : t.Good tee members sent k) (htee : tee ≠ .ended)
    (hdue : tee'.due k = tee.due k) : t.Good tee' members sent k :=
  { h with
    owed := hdue ▸ h.owed
    eof := fun he => absurd (h.eof he).1 htee }

/-- Processes come to hold the pipe, or no longer do. -/
theorem Tap.Good.hold {reading read write : Bool} (h : t.Good tee members sent k)
    (hle : (reading || read) = true → t.hasReader = true) :
    { t with reading := reading, heldRead := read, heldWrite := write : Tap }.Good tee members
      sent k :=
  { h with joined := fun hr => h.joined (hle hr) }

theorem Tap.Good.close (h : t.Good tee members sent k) :
    { t with reading := false : Tap }.Good tee members sent k :=
  h.hold hasReader_of_held

/-- The pipe takes bytes. -/
theorem Tap.Good.put {bytes : Bytes} (h : t.Good tee members sent k) (htee : tee ≠ .ended)
    (hk : k ∈ members) (hdue : tee.due k = bytes ++ tee'.due k)
    (hroom : bytes.length ≤ t.capacity - t.buf.length) :
    { t with buf := t.buf ++ bytes : Tap }.Good tee' members sent k where
  joined := h.joined
  since := h.since
  owed _ := by
    have howed := h.owed hk
    rw [hdue] at howed
    simpa using howed
  sound := by
    have howed := h.owed hk
    rw [hdue] at howed
    exact ⟨tee'.due k, by simpa using howed⟩
  capacity := h.capacity
  room := by
    have := h.room
    show (t.buf ++ bytes).length ≤ t.capacity
    rw [List.length_append]
    omega
  eof he := absurd (h.eof he).1 htee

/-- The attacher reads. -/
theorem Tap.Good.receive {n : Nat} (h : t.Good tee members sent k) (hn : 0 < n)
    (hbuf : n ≤ t.buf.length) :
    { t with buf := t.buf.drop n, received := t.received ++ t.buf.take n : Tap }.Good tee members
      sent k where
  joined := h.joined
  since := h.since
  owed hk := by
    have howed := h.owed hk
    rw [List.append_assoc t.received, List.take_append_drop]
    exact howed
  sound := by
    rw [List.append_assoc, List.take_append_drop]
    exact h.sound
  capacity := h.capacity
  room := by
    have := h.room
    show (t.buf.drop n).length ≤ t.capacity
    rw [List.length_drop]
    omega
  eof he := by
    -- what it has read is all there was, so nothing is left to read
    obtain ⟨-, hall⟩ := h.eof he
    have hlen := h.sound.length_le
    rw [List.length_append, ← hall] at hlen
    omega

/-- One more chunk is broadcast. -/
theorem Tap.Good.lock (h : t.Good (.locking chunk) members sent k) :
    t.Good (.broadcasting chunk [] chunk members) members (sent ++ [chunk]) k where
  joined := h.joined
  since := by
    have := h.since
    rw [List.length_append]
    omega
  owed hk := by
    have howed : t.received ++ t.buf ++ [] = _ := h.owed hk
    rw [List.append_nil] at howed
    rw [Tee.due_start, if_pos hk, howed, List.drop_append_of_le_length h.since, List.flatten_append]
    exact congrArg _ (List.append_nil chunk).symm
  sound := by
    rw [List.drop_append_of_le_length h.since, List.flatten_append]
    exact h.sound.trans (List.prefix_append _ _)
  capacity := h.capacity
  room := h.room
  eof he := absurd (h.eof he).1 nofun

theorem Lane.read (h : Lane .reading members sent tap out) (hchunk : chunk ≠ []) :
    Lane (.locking chunk) members sent tap out' :=
  { h with
    good := fun k t ht => (h.good k t ht).retee nofun rfl
    held := fun _ he => Tee.locking.inj he ▸ hchunk
    current := nofun
    ended := nofun }

theorem Lane.lock (h : Lane (.locking chunk) members sent tap out) :
    Lane (.broadcasting chunk [] chunk members) members (sent ++ [chunk]) tap out :=
  { h with
    good := fun k t ht => (h.good k t ht).lock
    held := nofun
    current := fun chunk' kept rest todo he => by
      obtain ⟨rfl, rfl, rfl, rfl⟩ := Tee.broadcasting.inj he
      have hchunk := h.held chunk rfl
      exact ⟨rfl, hchunk, hchunk, List.getLast?_concat⟩
    ended := nofun }

/-- The pipe that is written to takes part of what it is due. -/
theorem Lane.put {n : Nat} (h : Lane (.broadcasting chunk kept rest (k :: todo)) members sent tap out)
    (ht : tap k = some t) (hn : n < rest.length) (hroom : n ≤ t.capacity - t.buf.length) :
    Lane (.broadcasting chunk kept (rest.drop n) (k :: todo)) members sent
      (update tap k (some { t with buf := t.buf ++ rest.take n })) out where
  nodup := h.nodup
  registered j hj := by
    by_cases heq : j = k
    · subst heq
      exact ⟨_, update_self ..⟩
    · rw [update_of_ne heq]
      exact h.registered j hj
  good j u hu := by
    obtain ⟨hmembers, -⟩ := h.current _ _ _ _ rfl
    by_cases heq : j = k
    · subst heq
      rw [update_self] at hu
      obtain rfl := Option.some.inj hu
      refine (h.good j t ht).put nofun ?_ ?_ ?_
      · rw [hmembers]
        exact List.mem_append_right _ List.mem_cons_self
      · show (if j = j then rest else _) = rest.take n ++ if j = j then rest.drop n else _
        rw [if_pos rfl, if_pos rfl, List.take_append_drop]
      · rw [List.length_take]
        omega
    · rw [update_of_ne heq] at hu
      refine (h.good j u hu).retee nofun ?_
      show (if j = k then _ else _) = if j = k then _ else _
      rw [if_neg heq, if_neg heq]
  held := nofun
  current chunk' kept' rest' todo' he := by
    obtain ⟨rfl, rfl, rfl, rfl⟩ := Tee.broadcasting.inj he
    obtain ⟨hmembers, hchunk, -, hlast⟩ := h.current _ _ _ _ rfl
    refine ⟨hmembers, hchunk, fun hnil => ?_, hlast⟩
    have := List.drop_eq_nil_iff.mp hnil
    omega
  ended := nofun

/-- It takes the last of it. -/
theorem Lane.putLast (h : Lane (.broadcasting chunk kept rest (k :: todo)) members sent tap out)
    (ht : tap k = some t) (hroom : rest.length ≤ t.capacity - t.buf.length) :
    Lane (.broadcasting chunk (kept ++ [k]) chunk todo) members sent
      (update tap k (some { t with buf := t.buf ++ rest })) out where
  nodup := h.nodup
  registered j hj := by
    by_cases heq : j = k
    · subst heq
      exact ⟨_, update_self ..⟩
    · rw [update_of_ne heq]
      exact h.registered j hj
  good j u hu := by
    obtain ⟨hmembers, -⟩ := h.current _ _ _ _ rfl
    have hnodup := hmembers ▸ h.nodup
    by_cases heq : j = k
    · subst heq
      rw [update_self] at hu
      obtain rfl := Option.some.inj hu
      have hj : j ∉ todo := (List.nodup_cons.mp (List.nodup_append.mp hnodup).2.1).1
      refine (h.good j t ht).put nofun ?_ ?_ hroom
      · rw [hmembers]
        exact List.mem_append_right _ List.mem_cons_self
      · rw [Tee.due_start, if_neg hj, List.append_nil]
        exact if_pos rfl
    · rw [update_of_ne heq] at hu
      refine (h.good j u hu).retee nofun ?_
      rw [Tee.due_start]
      exact (if_neg heq).symm
  held := nofun
  current chunk' kept' rest' todo' he := by
    obtain ⟨rfl, rfl, rfl, rfl⟩ := Tee.broadcasting.inj he
    obtain ⟨hmembers, hchunk, -, hlast⟩ := h.current _ _ _ _ rfl
    refine ⟨?_, hchunk, hchunk, hlast⟩
    rw [hmembers, List.append_assoc]
    rfl
  ended := nofun

/-- The sink whose pipe has no reader is dropped. -/
theorem Lane.broken (h : Lane (.broadcasting chunk kept rest (k :: todo)) members sent tap out)
    (ht : tap k = some t) (hclosed : t.hasReader = false) :
    Lane (.broadcasting chunk kept chunk todo) (kept ++ todo) sent tap out := by
  obtain ⟨rfl, hchunk, -, hlast⟩ := h.current _ _ _ _ rfl
  have hsub : (kept ++ todo).Sublist (kept ++ k :: todo) :=
    (List.sublist_cons_self k todo).append_left kept
  refine ⟨hsub.nodup h.nodup, fun j hj => h.registered j (hsub.subset hj), fun j u hu => ?_, nofun,
    fun chunk' kept' rest' todo' he => ?_, nofun⟩
  · have hgood := h.good j u hu
    by_cases heq : j = k
    · subst heq
      obtain rfl := Option.some.inj (ht.symm.trans hu)
      refine { hgood with joined := fun hr => ?_, owed := fun hj => ?_, eof := fun he => ?_ }
      · rw [hclosed] at hr
        cases hr
      · exact absurd hj (List.nodup_cons.mp (List.nodup_middle.mp h.nodup)).1
      · exact absurd (hgood.eof he).1 nofun
    · have hgood' : u.Good (.broadcasting chunk kept chunk todo) (kept ++ k :: todo) sent j := by
        refine hgood.retee nofun ?_
        rw [Tee.due_start]
        exact (if_neg heq).symm
      refine { hgood' with
        joined := fun hr => ?_, owed := fun hj => hgood'.owed (hsub.subset hj) }
      have hj := hgood'.joined hr
      rw [List.mem_append, List.mem_cons] at hj
      exact List.mem_append.mpr (hj.imp_right fun hj => hj.resolve_left heq)
  · obtain ⟨rfl, rfl, rfl, rfl⟩ := Tee.broadcasting.inj he
    exact ⟨rfl, hchunk, hchunk, hlast⟩

theorem Lane.unlock (h : Lane (.broadcasting chunk kept rest []) members sent tap out) :
    Lane .logging members sent tap out :=
  { h with
    good := fun k t ht => (h.good k t ht).retee nofun rfl
    held := nofun
    current := nofun
    ended := nofun }

theorem Lane.resume (h : Lane .logging members sent tap out) :
    Lane .reading members sent tap out :=
  { h with
    good := fun k t ht => (h.good k t ht).retee nofun rfl
    held := nofun
    current := nofun
    ended := nofun }

theorem Lane.finish (h : Lane .reading members sent tap out) (hend : out.atEnd) :
    Lane .ended members sent tap out :=
  { h with
    good := fun k t ht => (h.good k t ht).retee nofun rfl
    held := nofun
    current := nofun
    ended := fun _ => hend }

/-- A sink is registered. -/
theorem Lane.register {capacity : Nat} {held : Bool} (h : Lane tee members sent tap out)
    (hlock : tee.locks = false) (htap : tap k = none) (hcapacity : 0 < capacity) :
    Lane tee (members ++ [k]) sent
      (update tap k (some ⟨capacity, [], true, [], false, sent.length, held, held⟩)) out := by
  have hk : k ∉ members := fun hmem => by
    obtain ⟨t, ht⟩ := h.registered k hmem
    cases htap.symm.trans ht
  have hdue (j : Nat) : tee.due j = [] := by
    cases tee with
    | broadcasting => cases hlock
    | _ => rfl
  refine { h with nodup := ?_, registered := fun j hj => ?_, good := fun j u hu => ?_, current := ?_ }
  · exact List.nodup_append_comm.mp (List.nodup_cons.mpr ⟨hk, h.nodup⟩)
  · by_cases heq : j = k
    · subst heq
      exact ⟨_, update_self ..⟩
    · rw [update_of_ne heq]
      exact h.registered j ((List.mem_append.mp hj).resolve_right (by simpa using heq))
  · by_cases heq : j = k
    · subst heq
      rw [update_self] at hu
      obtain rfl := Option.some.inj hu
      refine ⟨fun _ => ?_, le_rfl, fun _ => ?_, List.nil_prefix, hcapacity, Nat.zero_le _, nofun⟩
      · exact List.mem_append_right _ List.mem_cons_self
      · rw [hdue, List.drop_length]
        rfl
    · rw [update_of_ne heq] at hu
      have hgood := h.good j u hu
      refine { hgood with joined := fun hr => ?_, owed := fun hj => ?_ }
      · exact List.mem_append_left _ (hgood.joined hr)
      · exact hgood.owed ((List.mem_append.mp hj).resolve_right (by simpa using heq))
  · intro chunk kept rest todo he
    rw [he] at hlock
    cases hlock

/-- A process is spawned, with copies of the ends. -/
theorem Lane.hold {f : Nat → Tap → Tap} (h : Lane tee members sent tap out)
    (hf : ∀ j t, t.Good tee members sent j → (f j t).Good tee members sent j) :
    Lane tee members sent (fun j => (tap j).map (f j)) out := by
  refine { h with registered := fun j hj => ?_, good := fun j u hu => ?_ }
  · obtain ⟨t, ht⟩ := h.registered j hj
    exact ⟨f j t, by rw [ht]; rfl⟩
  · obtain ⟨t, ht, rfl⟩ := Option.map_eq_some_iff.mp hu
    exact hf j t (h.good j t ht)

/-- An attacher does something to its pipe. -/
theorem Lane.map {f : Tap → Tap} (h : Lane tee members sent tap out)
    (hf : ∀ t, tap k = some t → t.Good tee members sent k → (f t).Good tee members sent k) :
    Lane tee members sent (update tap k ((tap k).map f)) out := by
  refine { h with registered := fun j hj => ?_, good := fun j u hu => ?_ }
  · by_cases heq : j = k
    · subst heq
      obtain ⟨t, ht⟩ := h.registered j hj
      exact ⟨f t, by rw [update_self, ht]; rfl⟩
    · rw [update_of_ne heq]
      exact h.registered j hj
  · by_cases heq : j = k
    · subst heq
      rw [update_self] at hu
      obtain ⟨t, ht, rfl⟩ := Option.map_eq_some_iff.mp hu
      exact hf t ht (h.good j t ht)
    · rw [update_of_ne heq] at hu
      exact h.good j u hu

end

section

variable {s s' : State} {o : Output}

theorem State.members_congr (htee : s'.tee o = s.tee o) (hsinks : s'.sinks o = s.sinks o) :
    s'.members o = s.members o := by
  unfold State.members
  rw [htee, hsinks]

theorem State.members_of_not_locks (h : (s.tee o).locks = false) : s.members o = s.sinks o := by
  unfold State.members
  split
  · rename_i htee
    rw [htee] at h
    cases h
  · rfl

theorem State.members_of_broadcasting {chunk rest : Bytes} {kept todo : List Nat}
    (h : s.tee o = .broadcasting chunk kept rest todo) : s.members o = kept ++ todo := by
  unfold State.members
  rw [h]

theorem State.Laned.of_eq {tee : Tee} {members : List Nat} {sent : List Bytes}
    {tap : Nat → Option Tap} (htee : s.tee o = tee) (hmembers : s.members o = members)
    (hsent : s.sent o = sent) (htap : s.tap o = tap)
    (h : Lane tee members sent tap (s.world.out o)) : s.Laned o := by
  subst htee hmembers hsent htap
  exact h

/-- A step of the thread, on its own stream. -/
theorem State.Laned.tee_self {a : TeeAction} (h : s.Laned o) (hstep : Step s (.tee o a) s') :
    s'.Laned o := by
  have hself {α : Type} (f : Output → α) (x : α) : update f o x o = x := update_self o x f
  unfold State.Laned at h
  cases hstep with
  | @read _ n htee hn hbuf =>
    have hchunk : s.world.taken o n ≠ [] := by
      intro hnil
      have hlen := congrArg List.length hnil
      rw [World.taken, List.length_take, List.length_nil] at hlen
      omega
    rw [htee, State.members_of_not_locks (by rw [htee]; rfl)] at h
    refine .of_eq (hself _ _) (State.members_of_not_locks ?_) rfl rfl (h.read hchunk)
    exact congrArg Tee.locks (hself _ _)
  | lock htee =>
    rw [htee, State.members_of_not_locks (by rw [htee]; rfl)] at h
    exact .of_eq (hself _ _) (State.members_of_broadcasting (hself _ _)) (hself _ _) rfl h.lock
  | put htee htap _ _ hrest hroom =>
    rw [htee, State.members_of_broadcasting htee] at h
    exact .of_eq (hself _ _) (State.members_of_broadcasting (hself _ _)) rfl (hself _ _)
      (h.put htap hrest hroom)
  | @putLast _ chunk rest kept todo k t htee htap _ _ hroom =>
    rw [htee, State.members_of_broadcasting htee] at h
    refine .of_eq (hself _ _) ?_ rfl (hself _ _) (h.putLast htap hroom)
    rw [State.members_of_broadcasting (hself _ _), List.append_assoc]
    rfl
  | broken htee htap hclosed =>
    rw [htee, State.members_of_broadcasting htee] at h
    exact .of_eq (hself _ _) (State.members_of_broadcasting (hself _ _)) rfl rfl
      (h.broken htap hclosed)
  | unlock htee =>
    rw [htee, State.members_of_broadcasting htee, List.append_nil] at h
    refine .of_eq (hself _ _) ?_ rfl rfl h.unlock
    rw [State.members_of_not_locks (congrArg Tee.locks (hself _ _))]
    exact hself _ _
  | line htee => exact h
  | resume htee =>
    rw [htee, State.members_of_not_locks (by rw [htee]; rfl)] at h
    refine .of_eq (hself _ _) (State.members_of_not_locks ?_) rfl rfl h.resume
    exact congrArg Tee.locks (hself _ _)
  | finish htee hend =>
    rw [htee, State.members_of_not_locks (by rw [htee]; rfl)] at h
    refine .of_eq (hself _ _) (State.members_of_not_locks ?_) rfl rfl (h.finish hend)
    exact congrArg Tee.locks (hself _ _)

/-- A step of an attacher. -/
theorem State.Laned.attach {k : Nat} {a : AttachAction} (h : s.Laned o)
    (hstep : Step s (.attach k a) s') : s'.Laned o := by
  have hmap {o' : Output} {t : Tap} (f : Tap → Tap) (htap : s.tap o' k = some t)
      (hf : t.Good (s.tee o') (s.members o') (s.sent o') k →
        (f t).Good (s.tee o') (s.members o') (s.sent o') k) :
      (s.setTap o' k (f t)).Laned o := by
    by_cases ho : o = o'
    · subst ho
      refine .of_eq rfl rfl rfl ?_ (h.map (k := k) (f := f) fun u hu => ?_)
      · show update s.tap o _ o = _
        rw [update_self, htap]
        rfl
      · obtain rfl := Option.some.inj (htap.symm.trans hu)
        exact hf
    · exact h.congr ⟨rfl, rfl, rfl, update_of_ne ho _ _⟩ id
  cases hstep with
  | clone => exact h
  | @register _ capacity o' held hclones htap _ hcapacity hlock =>
    by_cases ho : o = o'
    · subst ho
      unfold State.Laned at h
      rw [State.members_of_not_locks hlock] at h
      refine .of_eq rfl ?_ rfl (update_self ..) (h.register hlock htap hcapacity)
      rw [State.members_of_not_locks (s := { s.setTap o k _ with sinks := _ }) hlock]
      exact update_self ..
    · exact h.congr ⟨rfl, update_of_ne ho _ _, rfl, update_of_ne ho _ _⟩ id
  | opened => exact h
  | failed =>
    exact .of_eq rfl rfl rfl rfl (h.map fun _ _ hgood => hgood.close)
  | @receive _ n o' t htap hopen hn hbuf =>
    exact hmap (fun u => { u with buf := u.buf.drop n, received := u.received ++ u.buf.take n }) htap
      fun hgood => hgood.receive hn hbuf
  | @eof _ o' t htap hopen hbuf hsink hheld =>
    refine hmap (fun u => { u with eof := true }) htap fun hgood => ?_
    -- its sink is there as long as it reads, unless the threads have ended
    have hmem := hgood.joined (Tap.hasReader_of_reading hopen)
    have hdead : s.alive = false := by
      unfold State.isSink at hsink
      rwa [List.contains_iff_mem.mpr hmem, Bool.and_true] at hsink
    have hended : s.tee o' = .ended := by
      simp only [State.alive, Bool.or_eq_false_iff, bne_eq_false_iff_eq] at hdead
      cases o' with
      | stdout => exact hdead.1.1.2
      | stderr => exact hdead.1.2
    have howed := hgood.owed hmem
    rw [hbuf, hended, List.append_nil] at howed
    exact { hgood with eof := fun _ => ⟨hended, (List.append_nil _).symm.trans howed⟩ }
  | close htap => exact hmap (fun u => { u with reading := false }) htap Tap.Good.close
  | @release _ o' t read write htap =>
    refine hmap (fun u => { u with
      heldRead := u.heldRead && !read, heldWrite := u.heldWrite && !write }) htap fun hgood => ?_
    exact hgood.hold Tap.hasReader_of_and

/-- The listener spawns a process. -/
theorem State.Laned.spawn (h : s.Laned o) : s.spawned.Laned o :=
  .of_eq rfl rfl rfl rfl (h.hold fun _ _ hgood => hgood.hold Tap.hasReader_of_spawned)

/-! ## What a step does to the log -/

theorem Logged.of_eq {tee : Tee} {pending : Bytes} {logged : List Bytes} {sent : List Bytes}
    (htee : s.tee o = tee) (hpending : s.pending o = pending) (hlogged : s.logged o = logged)
    (hsent : s.sent o = sent)
    (hlines : tee ≠ .ended →
      logged ++ Foundations.lines NEWLINE pending = Foundations.lines NEWLINE (tee.handed sent))
    (hrest : tee ≠ .ended → unterminated NEWLINE pending = unterminated NEWLINE (tee.handed sent))
    (hidle : tee ≠ .logging → NEWLINE ∉ pending)
    (hended : tee = .ended → logged = records sent.flatten) : Logged s o := by
  subst htee hpending hlogged hsent
  exact ⟨hlines, hrest, hidle, hended⟩

/-- The thread goes on without touching the log. -/
theorem Logged.retee (h : Logged s o) {tee : Tee} {sent : List Bytes} (htee : s'.tee o = tee)
    (hpending : s'.pending o = s.pending o) (hlogged : s'.logged o = s.logged o)
    (hsent : s'.sent o = sent) (hhanded : tee.handed sent = (s.tee o).handed (s.sent o))
    (hended : s.tee o ≠ .ended ∧ tee ≠ .ended) (hidle : NEWLINE ∉ s.pending o) : Logged s' o := by
  refine .of_eq htee hpending hlogged hsent (fun _ => ?_) (fun _ => ?_) (fun _ => hidle)
    fun he => absurd he hended.2
  · rw [hhanded]
    exact h.lines hended.1
  · rw [hhanded]
    exact h.pending hended.1

/-- A step of the thread, on its own stream. -/
theorem Logged.tee_self {a : TeeAction} (hlane : s.Laned o) (h : Logged s o)
    (hstep : Step s (.tee o a) s') : Logged s' o := by
  have hself {α : Type} (f : Output → α) (x : α) : update f o x o = x := update_self o x f
  have hpre {tee : Tee} (htee : s.tee o = tee) (hne : tee ≠ .ended) (hidle : tee ≠ .logging) :
      s.tee o ≠ .ended ∧ NEWLINE ∉ s.pending o :=
    ⟨htee ▸ hne, h.idle (htee ▸ hidle)⟩
  cases hstep with
  | read htee =>
    obtain ⟨hne, hidle⟩ := hpre htee nofun nofun
    exact h.retee (hself _ _) rfl rfl rfl (by rw [htee]; rfl) ⟨hne, nofun⟩ hidle
  | lock htee =>
    obtain ⟨hne, hidle⟩ := hpre htee nofun nofun
    refine h.retee (hself _ _) rfl rfl (hself _ _) ?_ ⟨hne, nofun⟩ hidle
    rw [htee]
    exact congrArg List.flatten List.dropLast_concat
  | put htee =>
    obtain ⟨hne, hidle⟩ := hpre htee nofun nofun
    exact h.retee (hself _ _) rfl rfl rfl (by rw [htee]; rfl) ⟨hne, nofun⟩ hidle
  | putLast htee =>
    obtain ⟨hne, hidle⟩ := hpre htee nofun nofun
    exact h.retee (hself _ _) rfl rfl rfl (by rw [htee]; rfl) ⟨hne, nofun⟩ hidle
  | broken htee =>
    obtain ⟨hne, hidle⟩ := hpre htee nofun nofun
    exact h.retee (hself _ _) rfl rfl rfl (by rw [htee]; rfl) ⟨hne, nofun⟩ hidle
  | @unlock _ chunk rest kept htee =>
    obtain ⟨hne, hidle⟩ := hpre htee nofun nofun
    obtain ⟨-, -, -, hlast⟩ := hlane.current _ _ _ _ htee
    obtain ⟨hlines, hrest⟩ := lines_of_notMem hidle
    have hsent : (s.sent o).flatten = (s.sent o).dropLast.flatten ++ chunk := by
      have hconcat := congrArg List.flatten (List.dropLast_append_getLast? chunk hlast)
      rw [List.flatten_append, List.flatten_singleton] at hconcat
      exact hconcat.symm
    have hold := h.lines hne
    have hpending := h.pending hne
    rw [htee] at hold hpending
    rw [hlines, List.append_nil] at hold
    rw [hrest] at hpending
    refine .of_eq (hself _ _) (hself _ _) rfl rfl (fun _ => ?_) (fun _ => ?_)
      (fun hl => absurd rfl hl) nofun
    · show s.logged o ++ _ = Foundations.lines NEWLINE (s.sent o).flatten
      rw [hsent, hold, hpending]
      exact (lines_append _ _).symm
    · show _ = unterminated NEWLINE (s.sent o).flatten
      rw [hsent, hpending]
      exact (unterminated_append _ _).symm
  | @line _ time line rest htee hcut =>
    obtain ⟨-, -, hlines, hrest⟩ := lines_of_cut hcut
    have hne : s.tee o ≠ .ended := htee ▸ nofun
    have hold := h.lines hne
    have hpending := h.pending hne
    rw [htee, hlines] at hold
    rw [htee, hrest] at hpending
    refine .of_eq htee (hself _ _) (s.logged_append time o o line) rfl (fun _ => ?_)
      (fun _ => hpending) (fun hl => absurd rfl hl) nofun
    rw [if_pos rfl, List.append_assoc]
    exact hold
  | resume htee hcut =>
    exact h.retee (hself _ _) rfl rfl rfl (by rw [htee]; rfl) ⟨htee ▸ nofun, nofun⟩
      (notMem_of_cut hcut)
  | @finish _ time htee =>
    obtain ⟨hne, hidle⟩ := hpre htee nofun nofun
    obtain ⟨hlines, hrest⟩ := lines_of_notMem hidle
    have hold := h.lines hne
    have hpending := h.pending hne
    rw [htee, hlines, List.append_nil] at hold
    rw [htee, hrest] at hpending
    suffices hall : _ = records (s.sent o).flatten from
      .of_eq (hself _ _) rfl hall rfl (fun he => absurd rfl he) (fun he => absurd rfl he)
        (fun _ => hidle) fun _ => rfl
    show (List.filter _ (if s.pending o = [] then s.log else _)).map _ = _
    unfold records
    have hhanded : Tee.reading.handed (s.sent o) = (s.sent o).flatten := rfl
    rw [← hhanded, ← hold, ← hpending]
    split
    · exact (List.append_nil _).symm
    · refine (s.logged_append time o o (s.pending o)).trans ?_
      rw [if_pos rfl]

/-! ## Every state of every run -/

theorem Inv.init {stdout stderr : Nat} (hout : 0 < stdout) (herr : 0 < stderr) (stdin : Nat) :
    Inv (init (World.init stdin stdout stderr)) where
  sound := World.Sound.init ..
  capacity o := by
    cases o with
    | stdout => exact hout
    | stderr => exact herr
  lane _ := ⟨List.nodup_nil, nofun, nofun, nofun, nofun, nofun⟩
  logged _ := ⟨fun _ => rfl, fun _ => rfl, fun _ => List.not_mem_nil, nofun⟩

/-- What a thread has read is what it takes off the output. -/
theorem Step.sound {l : Label} (h : s.world.Sound s.taken) (hstep : Step s l s') :
    s'.world.Sound s'.taken := by
  have hkeep {s' : State} {o : Output} {tee tee' : Tee} (htee : s.tee o = tee)
      (htee' : s'.tee = update s.tee o tee') (hworld : s'.world = s.world) (hsent : s'.sent = s.sent)
      (hholds : tee'.holds = tee.holds) : s'.world.Sound s'.taken := by
    rw [hworld]
    convert h using 1
    funext o'
    rw [State.taken, State.taken, hsent, htee']
    by_cases ho : o' = o
    · subst ho
      rw [update_self, hholds, htee]
    · rw [update_of_ne ho]
  cases hstep with
  | process hw => exact h.step hw
  | @read o n htee hn hbuf =>
    convert h.drain o n using 1
    funext o'
    show (s.sent o').flatten ++ (update s.tee o _ o').holds = _
    by_cases ho : o' = o
    · subst ho
      rw [update_self, update_self, State.taken, htee, List.append_assoc]
      rfl
    · rw [update_of_ne ho, update_of_ne ho]
      rfl
  | @lock o chunk htee =>
    show s.world.Sound _
    convert h using 1
    funext o'
    show (update s.sent o _ o').flatten ++ (update s.tee o _ o').holds = _
    by_cases ho : o' = o
    · subst ho
      rw [update_self, update_self, State.taken, htee, List.flatten_append, List.flatten_singleton]
      exact List.append_nil _
    · rw [update_of_ne ho, update_of_ne ho]
      rfl
  | put htee => exact hkeep htee rfl rfl rfl rfl
  | putLast htee => exact hkeep htee rfl rfl rfl rfl
  | broken htee => exact hkeep htee rfl rfl rfl rfl
  | unlock htee => exact hkeep htee rfl rfl rfl rfl
  | resume htee => exact hkeep htee rfl rfl rfl rfl
  | finish htee => exact hkeep htee rfl rfl rfl rfl
  | _ => exact h

theorem Step.capacity {l : Label} (hstep : Step s l s') (o : Output) :
    (s'.world.out o).capacity = (s.world.out o).capacity := by
  cases hstep with
  | process hw => exact World.step_capacity hw o
  | @read o' n =>
    show (update s.world.out o' _ o).capacity = _
    by_cases ho : o = o'
    · subst ho
      rw [update_self]
    · rw [update_of_ne ho]
  | _ => rfl

theorem Inv.step {l : Label} (h : Inv s) (hstep : Attach.step s l = some s') : Inv s' := by
  have hcases := step_cases hstep
  refine ⟨hcases.sound h.sound, fun o => hcases.capacity o ▸ h.capacity o, fun o => ?_, fun o => ?_⟩
  · cases l with
    | process a =>
      cases hcases with
      | process hw =>
        exact (h.lane o).congr ⟨rfl, rfl, rfl, rfl⟩ fun hend => World.atEnd_step h.sound hend hw
    | tee o' a =>
      by_cases ho : o = o'
      · subst ho
        exact (h.lane o).tee_self hcases
      · obtain ⟨hsame, -, hout⟩ := hcases.same_of_ne ho
        exact (h.lane o).congr hsame fun hend => hout ▸ hend
    | attach k a => exact (h.lane o).attach hcases
    | drop =>
      cases hcases with
      | drop => exact h.lane o
    | spawn =>
      cases hcases with
      | spawn => exact (h.lane o).spawn
  · cases l with
    | process a =>
      cases hcases with
      | process => exact (h.logged o).congr ⟨rfl, rfl, rfl, rfl⟩
    | tee o' a =>
      by_cases ho : o = o'
      · subst ho
        exact (h.logged o).tee_self (h.lane o) hcases
      · exact (h.logged o).congr (hcases.same_of_ne ho).2.1
    | attach k a =>
      cases hcases with
      | _ => exact (h.logged o).congr ⟨rfl, rfl, rfl, rfl⟩
    | drop =>
      cases hcases with
      | drop => exact (h.logged o).congr ⟨rfl, rfl, rfl, rfl⟩
    | spawn =>
      cases hcases with
      | spawn => exact (h.logged o).congr ⟨rfl, rfl, rfl, rfl⟩

theorem Inv.run {stdin stdout stderr : Nat} (hout : 0 < stdout) (herr : 0 < stderr)
    {ls : List Label}
    (hrun : Foundations.run Attach.step (Attach.init (World.init stdin stdout stderr)) ls = some s) :
    Inv s :=
  invariant_run (P := fun _ _ => True) (fun _ _ _ h _ hstep => h.step hstep)
    (Inv.init hout herr stdin) (Along.trivial _ _) hrun

end

end LightrCri.Attach

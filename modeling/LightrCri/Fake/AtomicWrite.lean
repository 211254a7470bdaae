import LightrCri.Backend.Vocabulary
import LightrCri.Fake.Names
import LightrCri.Foundations.Runs
import LightrCri.Stream.Channel
import Mathlib.Logic.Function.Basic

/-!
# Concurrent atomic writes

`atomic_write` creates a temporary file, writes the data through its handle, syncs, and renames. The
temporary file is named after the process and a clock reading, and `File::create` opens and
truncates a file that is there. As long as no call creates a temporary file that another call in
flight has under the same name, a final file holds the data of one call for it, and no rename fails
(`writes_apart`).
-/

namespace LightrCri.Fake.AtomicWrite

open Foundations LightrCri.Spdy Function

/-! ## A directory -/

structure Dir where
  entries : String → Option Nat
  /-- The contents of the files, by their inodes. -/
  inodes : List Bytes

/-- `File::create`, and the inode that is opened. -/
def Dir.create (d : Dir) (name : String) : Dir × Nat :=
  match d.entries name with
  | some ino => ({ d with inodes := d.inodes.set ino [] }, ino)
  | none => (⟨update d.entries name (some d.inodes.length), d.inodes ++ [[]]⟩, d.inodes.length)

/-- The content of a file after bytes are written at an offset. -/
def writeAt (offset : Nat) (bytes content : Bytes) : Bytes :=
  content.take offset ++ List.replicate (offset - content.length) 0 ++ bytes ++
    content.drop (offset + bytes.length)

def Dir.write (d : Dir) (ino offset : Nat) (bytes : Bytes) : Dir :=
  { d with inodes := d.inodes.modify ino (writeAt offset bytes) }

/-- `fs::rename`, unless there is no such file. -/
def Dir.rename (d : Dir) (old new : String) : Option Dir :=
  (d.entries old).map fun ino =>
    if old = new then d
    else { d with entries := update (update d.entries old none) new (some ino) }

/-! ## The calls -/

inductive Failure
  /-- An error of the call's own. -/
  | io
  /-- The rename has found no temporary file. -/
  | notFound
  deriving DecidableEq, Repr

inductive Stage
  /-- The clock is read. -/
  | named
  /-- The temporary file is open, and so many bytes are written. -/
  | writing (ino n : Nat)
  | synced (ino : Nat)
  | done (r : Except Failure Unit)

/-- A call of `atomic_write`. -/
structure Writer where
  tmp : String
  filename : String
  data : Bytes
  stage : Stage

structure State where
  dir : Dir
  writers : List Writer

/-- A directory with the files. -/
def init (files : List (String × Bytes)) : State where
  dir := ⟨fun name => files.findIdx? fun p => p.1 = name, files.map Prod.snd⟩
  writers := []

inductive Label
  /-- A call begins, in the process and at the clock reading. -/
  | call (pid nanos : Nat) (filename : String) (data : Bytes)
  | create (i : Nat)
  /-- `n` bytes are written. -/
  | write (i n : Nat)
  | sync (i : Nat)
  | rename (i : Nat)
  /-- An operation of the call fails. -/
  | fail (i : Nat)

/-- The call `i` goes on in another directory. -/
def State.go (s : State) (i : Nat) (w : Writer) (dir : Dir) (stage : Stage) : State :=
  ⟨dir, s.writers.set i { w with stage := stage }⟩

/-- A stage of the call `i`. -/
def advance (s : State) (i : Nat) (w : Writer) : Label → Option State
  | .create _ =>
    match w.stage with
    | .named => some (s.go i w (s.dir.create w.tmp).1 (.writing (s.dir.create w.tmp).2 0))
    | _ => none
  | .write _ n =>
    match w.stage with
    | .writing ino k =>
      if 0 < n ∧ k + n ≤ w.data.length then
        some (s.go i w (s.dir.write ino k ((w.data.drop k).take n)) (.writing ino (k + n)))
      else none
    | _ => none
  | .sync _ =>
    match w.stage with
    | .writing ino k => if k = w.data.length then some (s.go i w s.dir (.synced ino)) else none
    | _ => none
  | .rename _ =>
    match w.stage with
    | .synced _ =>
      match s.dir.rename w.tmp w.filename with
      | some dir => some (s.go i w dir (.done (.ok ())))
      | none => some (s.go i w s.dir (.done (.error .notFound)))
    | _ => none
  | .fail _ =>
    match w.stage with
    | .done _ => none
    | _ => some (s.go i w s.dir (.done (.error .io)))
  | .call _ _ _ _ => none

def Label.writer : Label → Option Nat
  | .call _ _ _ _ => none
  | .create i => some i
  | .write i _ => some i
  | .sync i => some i
  | .rename i => some i
  | .fail i => some i

def step (s : State) (l : Label) : Option State :=
  match l with
  | .call pid nanos filename data =>
    some { s with writers := s.writers ++ [⟨tmpName pid nanos, filename, data, .named⟩] }
  | l => l.writer.bind fun i => (s.writers[i]?).bind fun w => advance s i w l

/-! ## Writes that do not mix -/

/-- What a call in flight has written so far, and to which inode. -/
def Writer.file (w : Writer) : Option (Nat × Bytes) :=
  match w.stage with
  | .writing ino n => some (ino, w.data.take n)
  | .synced ino => some (ino, w.data)
  | _ => none

/-- The name is not one of a temporary file. -/
def Final (name : String) : Prop := ∀ pid nanos, name ≠ tmpName pid nanos

/-- Every final file holds the whole data of a call for it, unless it is one of the files there
were, and no rename has failed. -/
structure Whole (files : List (String × Bytes)) (s : State) : Prop where
  stored : ∀ name ino, Final name → s.dir.entries name = some ino →
    ∃ bytes, s.dir.inodes[ino]? = some bytes ∧ ((name, bytes) ∈ files ∨
      ∃ (i : Nat) (w : Writer), s.writers[i]? = some w ∧ w.filename = name ∧ w.data = bytes ∧
        w.stage = .done (.ok ()))
  found : ∀ (i : Nat) (w : Writer), s.writers[i]? = some w → w.stage ≠ .done (.error .notFound)

/-- A call is made for a final file, and creates a temporary file whose name no other call in flight
has. -/
def Apart (s : State) : Label → Prop
  | .call _ _ filename _ => Final filename
  | .create i => ∀ (j : Nat) (w w' : Writer), s.writers[i]? = some w → s.writers[j]? = some w' →
      j ≠ i → w'.file ≠ none → w'.tmp ≠ w.tmp
  | _ => True

/-- The files have inodes of their own, and those in flight are as their calls have written them. -/
structure Inv (files : List (String × Bytes)) (s : State) : Prop extends Whole files s where
  inj : ∀ name name' ino, s.dir.entries name = some ino → s.dir.entries name' = some ino → name = name'
  lt : ∀ name ino, s.dir.entries name = some ino → ino < s.dir.inodes.length
  names : ∀ (i : Nat) (w : Writer), s.writers[i]? = some w →
    (∃ pid nanos, w.tmp = tmpName pid nanos) ∧ Final w.filename
  file : ∀ (i : Nat) (w : Writer) ino bytes, s.writers[i]? = some w → w.file = some (ino, bytes) →
    s.dir.entries w.tmp = some ino ∧ s.dir.inodes[ino]? = some bytes
  apart : ∀ (i j : Nat) (w w' : Writer), s.writers[i]? = some w → s.writers[j]? = some w' → i ≠ j →
    w.file ≠ none → w'.file ≠ none → w.tmp ≠ w'.tmp

section

variable {files : List (String × Bytes)} {s s' : State} {i : Nat} {w : Writer}

theorem Inv.init (files : List (String × Bytes)) : Inv files (init files) where
  stored name ino _ h := by
    obtain ⟨hlt, hname, -⟩ := List.findIdx?_eq_some_iff_getElem.mp h
    refine ⟨files[ino].2, ?_, .inl ?_⟩
    · show (files.map Prod.snd)[ino]? = _
      rw [List.getElem?_map, List.getElem?_eq_getElem hlt]
      rfl
    · obtain rfl : files[ino].1 = name := of_decide_eq_true hname
      exact List.getElem_mem hlt
  found i w h := by cases h
  inj name name' ino h h' := by
    obtain ⟨hlt, hname, -⟩ := List.findIdx?_eq_some_iff_getElem.mp h
    obtain ⟨hlt', hname', -⟩ := List.findIdx?_eq_some_iff_getElem.mp h'
    exact (of_decide_eq_true hname).symm.trans (of_decide_eq_true hname')
  lt name ino h := by
    obtain ⟨hlt, -⟩ := List.findIdx?_eq_some_iff_getElem.mp h
    exact hlt.trans_eq (List.length_map _).symm
  names i w h := by cases h
  file i w ino bytes h := by cases h
  apart i j w w' h := by cases h

/-- After a stage of the call `i`, a call is this one or another. -/
theorem getElem?_go {dir : Dir} {stage : Stage} {j : Nat} {w' : Writer}
    (h : (s.go i w dir stage).writers[j]? = some w') :
    j = i ∧ w' = { w with stage := stage } ∨ j ≠ i ∧ s.writers[j]? = some w' := by
  have hset : (s.writers.set i { w with stage := stage })[j]? = some w' := h
  rw [List.getElem?_set] at hset
  split at hset
  · rename_i heq
    split at hset
    · exact .inl ⟨heq.symm, (Option.some.inj hset).symm⟩
    · cases hset
  · rename_i hne
    exact .inr ⟨Ne.symm hne, hset⟩

theorem getElem?_go_self {dir : Dir} {stage : Stage} (hw : s.writers[i]? = some w) :
    (s.go i w dir stage).writers[i]? = some { w with stage := stage } := by
  show (s.writers.set i { w with stage := stage })[i]? = _
  rw [List.getElem?_set_self (List.getElem?_eq_some_iff.mp hw).1]

/-- A call goes on, and leaves the files of the others alone. -/
theorem Inv.go (h : Inv files s) (hw : s.writers[i]? = some w) (hopen : ∀ r, w.stage ≠ .done r)
    {dir : Dir} {stage : Stage}
    (hinj : ∀ name name' ino, dir.entries name = some ino → dir.entries name' = some ino → name = name')
    (hlt : ∀ name ino, dir.entries name = some ino → ino < dir.inodes.length)
    (hstored : ∀ name ino, Final name → dir.entries name = some ino →
      s.dir.entries name = some ino ∧ dir.inodes[ino]? = s.dir.inodes[ino]? ∨
        name = w.filename ∧ dir.inodes[ino]? = some w.data ∧ stage = .done (.ok ()))
    (hothers : ∀ j w' ino bytes, s.writers[j]? = some w' → j ≠ i → w'.file = some (ino, bytes) →
      dir.entries w'.tmp = s.dir.entries w'.tmp ∧ dir.inodes[ino]? = s.dir.inodes[ino]?)
    (hfile : ∀ ino bytes, Writer.file { w with stage := stage } = some (ino, bytes) →
      dir.entries w.tmp = some ino ∧ dir.inodes[ino]? = some bytes)
    (hapart : Writer.file { w with stage := stage } ≠ none → ∀ j w', s.writers[j]? = some w' → j ≠ i →
      w'.file ≠ none → w'.tmp ≠ w.tmp)
    (hfound : stage ≠ .done (.error .notFound)) : Inv files (s.go i w dir stage) where
  stored name ino hname hentry := by
    rcases hstored name ino hname hentry with ⟨hold, hsame⟩ | ⟨rfl, hdata, rfl⟩
    · obtain ⟨bytes, hbytes, hwhole⟩ := h.stored name ino hname hold
      refine ⟨bytes, hsame.trans hbytes, hwhole.imp_right fun ⟨j, w', hj, hrest⟩ => ⟨j, w', ?_, hrest⟩⟩
      have hne : i ≠ j := by
        rintro rfl
        obtain rfl := Option.some.inj (hw.symm.trans hj)
        exact hopen _ hrest.2.2
      show (s.writers.set i { w with stage := stage })[j]? = some w'
      rw [List.getElem?_set_ne hne, hj]
    · exact ⟨w.data, hdata, .inr ⟨i, _, getElem?_go_self hw, rfl, rfl, rfl⟩⟩
  found j w' hj := by
    rcases getElem?_go hj with ⟨-, rfl⟩ | ⟨-, hj⟩
    · exact hfound
    · exact h.found j w' hj
  inj := hinj
  lt := hlt
  names j w' hj := by
    rcases getElem?_go hj with ⟨-, rfl⟩ | ⟨-, hj⟩
    · exact h.names i w hw
    · exact h.names j w' hj
  file j w' ino bytes hj hfile' := by
    rcases getElem?_go hj with ⟨-, rfl⟩ | ⟨hne, hj⟩
    · exact hfile ino bytes hfile'
    · obtain ⟨hentry, hcontent⟩ := h.file j w' ino bytes hj hfile'
      obtain ⟨hsame, hsame'⟩ := hothers j w' ino bytes hj hne hfile'
      exact ⟨hsame.trans hentry, hsame'.trans hcontent⟩
  apart j k w₁ w₂ hj hk hne h₁ h₂ := by
    rcases getElem?_go hj with ⟨rfl, rfl⟩ | ⟨hji, hj⟩
    · rcases getElem?_go hk with ⟨rfl, -⟩ | ⟨hki, hk⟩
      · exact absurd rfl hne
      · exact (hapart h₁ k w₂ hk hki h₂).symm
    · rcases getElem?_go hk with ⟨hki, rfl⟩ | ⟨-, hk⟩
      · exact hapart h₂ j w₁ hj hji h₁
      · exact h.apart j k w₁ w₂ hj hk hne h₁ h₂

/-- The temporary file of another call in flight is another, in a directory where names have inodes
of their own. -/
theorem Inv.other (h : Inv files s) {j ino ino' : Nat} {w' : Writer} {bytes : Bytes}
    (hj : s.writers[j]? = some w') (hfile : w'.file = some (ino', bytes)) (hne : w'.tmp ≠ w.tmp)
    (hentry : s.dir.entries w.tmp = some ino) : ino ≠ ino' := by
  rintro rfl
  exact hne (h.inj _ _ _ (h.file j w' ino bytes hj hfile).1 hentry)

theorem Inv.create (h : Inv files s) (hw : s.writers[i]? = some w) (hstage : w.stage = .named)
    (hapart : ∀ (j : Nat) (w' : Writer), s.writers[j]? = some w' → j ≠ i → w'.file ≠ none → w'.tmp ≠ w.tmp) :
    Inv files (s.go i w (s.dir.create w.tmp).1 (.writing (s.dir.create w.tmp).2 0)) := by
  have hopen : ∀ r, w.stage ≠ .done r := fun r => by rw [hstage]; exact nofun
  obtain ⟨⟨pid, nanos, htmp⟩, -⟩ := h.names i w hw
  unfold Dir.create
  cases hentry : s.dir.entries w.tmp with
  | some ino =>
    have hlt := h.lt _ _ hentry
    refine h.go hw hopen h.inj (fun name ino' hname => ?_) (fun name ino' hfinal hname => .inl ⟨hname, ?_⟩)
      (fun j w' ino' bytes hj hne hfile => ⟨rfl, ?_⟩) (fun ino' bytes hfile => ?_)
      (fun _ j w' hj hne hfile => hapart j w' hj hne hfile) nofun
    · show ino' < (s.dir.inodes.set ino []).length
      rw [List.length_set]
      exact h.lt name ino' hname
    · refine List.getElem?_set_ne ?_
      rintro rfl
      exact hfinal pid nanos ((h.inj _ _ _ hname hentry).trans htmp)
    · exact List.getElem?_set_ne (h.other hj hfile (hapart j w' hj hne (by rw [hfile]; exact nofun)) hentry)
    · obtain ⟨rfl, rfl⟩ := Prod.mk.inj (Option.some.inj hfile)
      exact ⟨hentry, List.getElem?_set_self hlt⟩
  | none =>
    have hfresh : ∀ name ino, s.dir.entries name = some ino → ino ≠ s.dir.inodes.length :=
      fun name ino hname => Nat.ne_of_lt (h.lt name ino hname)
    have hupdate : ∀ name ino, update s.dir.entries w.tmp (some s.dir.inodes.length) name = some ino →
        name = w.tmp ∧ ino = s.dir.inodes.length ∨ name ≠ w.tmp ∧ s.dir.entries name = some ino := by
      intro name ino hname
      rw [update_apply] at hname
      split at hname
      · exact .inl ⟨by assumption, (Option.some.inj hname).symm⟩
      · exact .inr ⟨by assumption, hname⟩
    have hkept : ∀ name ino, s.dir.entries name = some ino →
        (s.dir.inodes ++ [[]])[ino]? = s.dir.inodes[ino]? := fun name ino hname =>
      List.getElem?_append_left (h.lt name ino hname)
    refine h.go hw hopen (fun name name' ino hname hname' => ?_) (fun name ino hname => ?_)
      (fun name ino hfinal hname => ?_) (fun j w' ino bytes hj hne hfile => ?_)
      (fun ino bytes hfile => ?_) (fun _ j w' hj hne hfile => hapart j w' hj hne hfile) nofun
    · rcases hupdate name ino hname with ⟨rfl, rfl⟩ | ⟨-, hname⟩
      · rcases hupdate name' _ hname' with ⟨rfl, -⟩ | ⟨-, hname'⟩
        · rfl
        · exact absurd rfl (hfresh _ _ hname')
      · rcases hupdate name' ino hname' with ⟨rfl, rfl⟩ | ⟨-, hname'⟩
        · exact absurd rfl (hfresh _ _ hname)
        · exact h.inj name name' ino hname hname'
    · show ino < (s.dir.inodes ++ [[]]).length
      rw [List.length_append]
      rcases hupdate name ino hname with ⟨-, rfl⟩ | ⟨-, hname⟩
      · exact Nat.lt_succ_self _
      · exact Nat.lt_succ_of_lt (h.lt name ino hname)
    · rcases hupdate name ino hname with ⟨rfl, -⟩ | ⟨-, hname⟩
      · exact absurd htmp (hfinal pid nanos)
      · exact .inl ⟨hname, hkept name ino hname⟩
    · have hentry' := (h.file j w' ino bytes hj hfile).1
      exact ⟨update_of_ne (hapart j w' hj hne (by rw [hfile]; exact nofun)) .., hkept _ ino hentry'⟩
    · obtain ⟨rfl, rfl⟩ := Prod.mk.inj (Option.some.inj hfile)
      exact ⟨update_self .., List.getElem?_concat_length⟩

theorem writeAt_length {offset : Nat} {bytes content : Bytes} (h : content.length = offset) :
    writeAt offset bytes content = content ++ bytes := by
  unfold writeAt
  rw [List.take_of_length_le (Nat.le_of_eq h), h, Nat.sub_self, List.drop_eq_nil_of_le (by omega),
    List.append_nil]
  exact congrArg (· ++ bytes) (List.append_nil content)

theorem Inv.write (h : Inv files s) (hw : s.writers[i]? = some w) {ino k n : Nat}
    (hstage : w.stage = .writing ino k) (hn : k + n ≤ w.data.length) :
    Inv files (s.go i w (s.dir.write ino k ((w.data.drop k).take n)) (.writing ino (k + n))) := by
  have hopen : ∀ r, w.stage ≠ .done r := fun r => by rw [hstage]; exact nofun
  obtain ⟨⟨pid, nanos, htmp⟩, -⟩ := h.names i w hw
  have hfile : w.file = some (ino, w.data.take k) := by
    unfold Writer.file
    rw [hstage]
  obtain ⟨hentry, hcontent⟩ := h.file i w ino _ hw hfile
  have hflight : w.file ≠ none := by
    rw [hfile]
    exact nofun
  have hother : ∀ ino', ino ≠ ino' →
      (s.dir.write ino k ((w.data.drop k).take n)).inodes[ino']? = s.dir.inodes[ino']? :=
    fun ino' hne => List.getElem?_modify_ne _ _ hne
  refine h.go hw hopen h.inj (fun name ino' hname => ?_) (fun name ino' hfinal hname => .inl ⟨hname, ?_⟩)
    (fun j w' ino' bytes hj hne hfile' => ⟨rfl, ?_⟩) (fun ino' bytes hfile' => ?_)
    (fun _ j w' hj hne hfile' => (h.apart i j w w' hw hj (Ne.symm hne) hflight hfile').symm) nofun
  · show ino' < (s.dir.inodes.modify ino _).length
    rw [List.length_modify]
    exact h.lt name ino' hname
  · refine hother ino' ?_
    rintro rfl
    exact hfinal pid nanos ((h.inj _ _ _ hname hentry).trans htmp)
  · refine hother ino' (h.other hj hfile' ?_ hentry)
    exact (h.apart i j w w' hw hj (Ne.symm hne) hflight (by rw [hfile']; exact nofun)).symm
  · obtain ⟨rfl, rfl⟩ := Prod.mk.inj (Option.some.inj hfile')
    refine ⟨hentry, ?_⟩
    show (s.dir.inodes.modify ino _)[ino]? = some (w.data.take (k + n))
    have hlen : (w.data.take k).length = k := by
      rw [List.length_take]
      omega
    rw [List.getElem?_modify_eq, hcontent]
    show some (writeAt k ((w.data.drop k).take n) (w.data.take k)) = _
    rw [writeAt_length hlen, List.take_add]

/-- The call goes on, and the directory is as it was. -/
theorem Inv.stay (h : Inv files s) (hw : s.writers[i]? = some w) (hopen : ∀ r, w.stage ≠ .done r)
    {stage : Stage}
    (hfile : ∀ ino bytes, Writer.file { w with stage := stage } = some (ino, bytes) →
      w.file = some (ino, bytes))
    (hfound : stage ≠ .done (.error .notFound)) :
    Inv files (s.go i w s.dir stage) := by
  refine h.go hw hopen h.inj h.lt (fun name ino hfinal hname => .inl ⟨hname, rfl⟩)
    (fun j w' ino bytes hj hne hfile' => ⟨rfl, rfl⟩)
    (fun ino bytes hfile' => h.file i w ino bytes hw (hfile ino bytes hfile'))
    (fun hflight j w' hj hne hfile' => ?_) hfound
  obtain ⟨⟨ino, bytes⟩, hsome⟩ := Option.ne_none_iff_exists'.mp hflight
  refine (h.apart i j w w' hw hj (Ne.symm hne) ?_ hfile').symm
  rw [hfile ino bytes hsome]
  exact nofun

theorem Inv.rename (h : Inv files s) (hw : s.writers[i]? = some w) {ino : Nat}
    (hstage : w.stage = .synced ino) :
    ∃ dir, s.dir.rename w.tmp w.filename = some dir ∧ Inv files (s.go i w dir (.done (.ok ()))) := by
  have hopen : ∀ r, w.stage ≠ .done r := fun r => by rw [hstage]; exact nofun
  obtain ⟨⟨pid, nanos, htmp⟩, hfinal⟩ := h.names i w hw
  have hfile : w.file = some (ino, w.data) := by
    unfold Writer.file
    rw [hstage]
  obtain ⟨hentry, hcontent⟩ := h.file i w ino _ hw hfile
  have hflight : w.file ≠ none := by
    rw [hfile]
    exact nofun
  have hne : w.tmp ≠ w.filename := fun heq => hfinal pid nanos (heq.symm.trans htmp)
  refine ⟨⟨update (update s.dir.entries w.tmp none) w.filename (some ino), s.dir.inodes⟩, ?_, ?_⟩
  · unfold Dir.rename
    rw [hentry, Option.map_some, if_neg hne]
  · have hcases : ∀ name ino', update (update s.dir.entries w.tmp none) w.filename (some ino) name = some ino' →
        name = w.filename ∧ ino' = ino ∨
          name ≠ w.filename ∧ name ≠ w.tmp ∧ s.dir.entries name = some ino' := by
      intro name ino' hname
      rw [update_apply] at hname
      split at hname
      · exact .inl ⟨by assumption, (Option.some.inj hname).symm⟩
      · rw [update_apply] at hname
        split at hname
        · cases hname
        · exact .inr ⟨by assumption, by assumption, hname⟩
    -- no name but that of the temporary file had its inode
    have hmoved : ∀ name, name ≠ w.tmp → s.dir.entries name ≠ some ino := fun name hname hsome =>
      hname (h.inj _ _ _ hsome hentry)
    refine h.go hw hopen (fun name name' ino' hname hname' => ?_) (fun name ino' hname => ?_)
      (fun name ino' hname hsome => ?_) (fun j w' ino' bytes hj hji hfile' => ⟨?_, rfl⟩)
      (fun ino' bytes hfile' => by cases hfile') (fun hnone => absurd rfl hnone) nofun
    · rcases hcases name ino' hname with ⟨rfl, rfl⟩ | ⟨-, htmp₁, h₁⟩
      · rcases hcases name' _ hname' with ⟨rfl, -⟩ | ⟨-, htmp₂, h₂⟩
        · rfl
        · exact absurd h₂ (hmoved name' htmp₂)
      · rcases hcases name' ino' hname' with ⟨rfl, rfl⟩ | ⟨-, -, h₂⟩
        · exact absurd h₁ (hmoved name htmp₁)
        · exact h.inj name name' ino' h₁ h₂
    · rcases hcases name ino' hname with ⟨-, rfl⟩ | ⟨-, -, hname⟩
      · exact h.lt _ _ hentry
      · exact h.lt name ino' hname
    · rcases hcases name ino' hsome with ⟨rfl, rfl⟩ | ⟨-, -, hsome⟩
      · exact .inr ⟨rfl, hcontent, rfl⟩
      · exact .inl ⟨hsome, rfl⟩
    · obtain ⟨⟨pid', nanos', htmp'⟩, -⟩ := h.names j w' hj
      have hapart := (h.apart i j w w' hw hj (Ne.symm hji) hflight (by rw [hfile']; exact nofun)).symm
      have hnot : w'.tmp ≠ w.filename := fun heq => hfinal pid' nanos' (heq.symm.trans htmp')
      exact (update_of_ne hnot ..).trans (update_of_ne hapart ..)

theorem Inv.call (h : Inv files s) {pid nanos : Nat} {filename : String} {data : Bytes}
    (hfinal : Final filename) :
    Inv files { s with writers := s.writers ++ [⟨tmpName pid nanos, filename, data, .named⟩] } := by
  have hcases : ∀ {j : Nat} {w' : Writer},
      (s.writers ++ [⟨tmpName pid nanos, filename, data, .named⟩])[j]? = some w' →
        s.writers[j]? = some w' ∨ w' = ⟨tmpName pid nanos, filename, data, .named⟩ := by
    intro j w' hj
    rw [List.getElem?_append] at hj
    split at hj
    · exact .inl hj
    · exact .inr (List.mem_singleton.mp (List.mem_of_getElem? hj))
  refine ⟨⟨fun name ino hname hentry => ?_, fun j w' hj => ?_⟩, h.inj, h.lt, fun j w' hj => ?_,
    fun j w' ino bytes hj hfile => ?_, fun j k w₁ w₂ hj hk hne h₁ h₂ => ?_⟩
  · obtain ⟨bytes, hbytes, hwhole⟩ := h.stored name ino hname hentry
    refine ⟨bytes, hbytes, hwhole.imp_right fun ⟨j, w', hj, hrest⟩ => ⟨j, w', ?_, hrest⟩⟩
    show (s.writers ++ _)[j]? = some w'
    rw [List.getElem?_append_left (List.getElem?_eq_some_iff.mp hj).1, hj]
  · rcases hcases hj with hj | rfl
    · exact h.found j w' hj
    · exact nofun
  · rcases hcases hj with hj | rfl
    · exact h.names j w' hj
    · exact ⟨⟨pid, nanos, rfl⟩, hfinal⟩
  · rcases hcases hj with hj | rfl
    · exact h.file j w' ino bytes hj hfile
    · cases hfile
  · rcases hcases hj with hj | rfl
    · rcases hcases hk with hk | rfl
      · exact h.apart j k w₁ w₂ hj hk hne h₁ h₂
      · exact absurd rfl h₂
    · exact absurd rfl h₁

theorem Inv.advance (h : Inv files s) {l : Label} (hl : l.writer = some i) (hw : s.writers[i]? = some w)
    (hapart : Apart s l) (hstep : advance s i w l = some s') : Inv files s' := by
  cases l with
  | call => cases hl
  | create i' =>
    obtain rfl := Option.some.inj hl
    unfold AtomicWrite.advance at hstep
    dsimp only at hstep
    split at hstep
    · rename_i hstage
      obtain rfl := Option.some.inj hstep
      exact h.create hw hstage fun j w' hj hne hfile => hapart j w w' hw hj hne hfile
    · cases hstep
  | write i' n =>
    unfold AtomicWrite.advance at hstep
    dsimp only at hstep
    split at hstep
    · rename_i ino k hstage
      split at hstep
      · rename_i hn
        obtain rfl := Option.some.inj hstep
        exact h.write hw hstage hn.2
      · cases hstep
    · cases hstep
  | sync i' =>
    unfold AtomicWrite.advance at hstep
    dsimp only at hstep
    split at hstep
    · rename_i ino k hstage
      split at hstep
      · rename_i hk
        obtain rfl := Option.some.inj hstep
        refine h.stay hw (fun r => by rw [hstage]; exact nofun) (fun ino' bytes hfile => ?_) nofun
        rw [← hfile]
        unfold Writer.file
        rw [hstage, hk]
        exact congrArg (fun bytes => some (ino, bytes)) List.take_length
      · cases hstep
    · cases hstep
  | rename i' =>
    unfold AtomicWrite.advance at hstep
    dsimp only at hstep
    split at hstep
    · rename_i ino hstage
      obtain ⟨dir, hdir, hinv⟩ := h.rename hw hstage
      rw [hdir] at hstep
      obtain rfl := Option.some.inj hstep
      exact hinv
    · cases hstep
  | fail i' =>
    unfold AtomicWrite.advance at hstep
    dsimp only at hstep
    split at hstep
    · cases hstep
    · rename_i hopen
      obtain rfl := Option.some.inj hstep
      exact h.stay hw (fun r hr => hopen r hr) (fun ino bytes hfile => by cases hfile) nofun

theorem Inv.step (h : Inv files s) {l : Label} (hapart : Apart s l)
    (hstep : AtomicWrite.step s l = some s') : Inv files s' := by
  cases l with
  | call pid nanos filename data =>
    obtain rfl := Option.some.inj hstep
    exact h.call hapart
  | _ =>
    obtain ⟨w, hw, hstep⟩ := Option.bind_eq_some_iff.mp hstep
    exact h.advance rfl hw hapart hstep

end

/-- **Writes that do not mix**: in every run in which no call creates a temporary file that another
call in flight has under the same name, a final file holds the whole data of a call for it, and no
rename fails. -/
theorem writes_apart (files : List (String × Bytes)) {ls : List Label} {s : State}
    (hrun : run step (init files) ls = some s) (hapart : Along step Apart (init files) ls) :
    Whole files s :=
  (invariant_run (I := Inv files) (fun _ _ _ h hl hstep => h.step hl hstep) (.init files) hapart
    hrun).toWhole

theorem final_fileName (id : String) : Final (fileName id) :=
  fun pid nanos => (tmpName_ne_fileName pid nanos id).symm

/-- Two calls in flight at once, at different clock readings. -/
def apartRun : List Label :=
  [.call 7 1 "a.json" [1], .create 0, .call 7 2 "b.json" [2, 2], .create 1, .write 0 1, .sync 0,
    .rename 0]

theorem writes_apart_two : ∃ s,
    run step (init []) apartRun = some s ∧ s.dir.entries "a.json" = some 0 ∧
      s.dir.inodes = [[1], []] ∧ Whole [] s := by
  have hapart : Along step Apart (init []) apartRun := by
    refine ⟨final_fileName "a", fun s₁ h₁ => ?_⟩
    obtain rfl := Option.some.inj h₁
    refine ⟨fun j w w' _ hj hne => ?_, fun s₂ h₂ => ?_⟩
    · obtain ⟨j, rfl⟩ := Nat.exists_eq_succ_of_ne_zero hne
      cases hj
    obtain rfl := Option.some.inj h₂
    refine ⟨final_fileName "b", fun s₃ h₃ => ?_⟩
    obtain rfl := Option.some.inj h₃
    refine ⟨fun j w w' hw hj hne _ => ?_, fun _ _ => ?_⟩
    · obtain rfl := Option.some.inj hw
      cases j with
      | zero =>
        obtain rfl := Option.some.inj hj
        show tmpName 7 1 ≠ tmpName 7 2
        decide
      | succ j =>
        cases j with
        | zero => exact absurd rfl hne
        | succ j => cases hj
    · exact ⟨True.intro, fun _ _ => ⟨True.intro, fun _ _ => ⟨True.intro, fun _ _ => True.intro⟩⟩⟩
  refine ⟨_, rfl, ?_, ?_, writes_apart [] rfl hapart⟩
  · decide
  · decide

/-! ## One clock reading -/

/-- Two calls at the same clock reading. -/
def sameTimeRun : List Label :=
  [.call 7 1 "a.json" [1], .call 7 1 "b.json" [2], .create 0, .create 1, .write 0 1, .write 1 1,
    .sync 0, .sync 1, .rename 0]

/-- **Two calls share a temporary file**, and the data of one is in the file of the other. -/
theorem writes_mixed :
    ¬ ∀ (files : List (String × Bytes)) (ls : List Label) (s : State),
      run step (init files) ls = some s → Whole files s := by
  intro h
  obtain ⟨s, hrun, hentry, hinodes, hwriters⟩ : ∃ s, run step (init []) sameTimeRun = some s ∧
      s.dir.entries "a.json" = some 0 ∧ s.dir.inodes = [[2]] ∧
        s.writers.map (fun w => (w.filename, w.data)) = [("a.json", [1]), ("b.json", [2])] := by
    refine ⟨_, rfl, ?_, ?_, ?_⟩
    · decide
    · decide
    · decide
  obtain ⟨bytes, hbytes, hmem | ⟨i, w, hw, hname, hdata, -⟩⟩ :=
    (h [] sameTimeRun s hrun).stored "a.json" 0 (final_fileName "a") hentry
  · cases hmem
  · rw [hinodes] at hbytes
    obtain rfl := Option.some.inj hbytes
    have hpair : ("a.json", [2]) ∈ s.writers.map fun w => (w.filename, w.data) :=
      List.mem_map.mpr ⟨w, List.mem_of_getElem? hw, Prod.ext hname hdata⟩
    rw [hwriters] at hpair
    exact absurd hpair (by decide)

end LightrCri.Fake.AtomicWrite

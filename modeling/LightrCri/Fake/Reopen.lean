import LightrCri.Fake.Execution

/-!
# Reopening a state root

What `open` makes of the files it finds. When every file is a temporary one or the file of the
record it holds (`Tidy`), the rebuilt cache has for each object the record that its file holds, as
`open` corrects it (`cache_restart`), the files hold the same afterwards (`load_restart`), and to
open the root again changes nothing (`restart_again`).
-/

namespace LightrCri.Fake

open Backend Foundations

/-! ## Tidy state roots -/

/-- Every file is a temporary one or the file of the record it holds. -/
def Tidy (d : Disk) : Prop :=
  ∀ sub name x, d.read sub name = some x → (∃ p n, name = tmpName p n) ∨
    ∃ r : DiskRecord, x = .whole r ∧ sub = r.obj.subdir ∧ name = r.obj.file ∧ r.obj.stem ≠ ""

theorem tidy_empty : Tidy Disk.empty := by
  intro sub name x hx
  simp at hx

theorem Tidy.put_tmpName {d : Disk} (h : Tidy d) (sub : Subdir) (p n : Nat) (x : FileData) :
    Tidy (d.put sub (tmpName p n) x) := by
  intro sub' name y hy
  rw [Disk.read_put] at hy
  split at hy
  · rename_i heq
    exact Or.inl ⟨p, n, heq.2⟩
  · exact h sub' name y hy

theorem Tidy.unlink {d : Disk} (h : Tidy d) (sub : Subdir) (name : String) :
    Tidy (d.unlink sub name) := by
  intro sub' name' x hx
  rw [Disk.read_unlink] at hx
  split at hx
  · cases hx
  · exact h sub' name' x hx

theorem Tidy.put_record {d : Disk} (h : Tidy d) {r : DiskRecord} (hr : r.obj.stem ≠ "") :
    Tidy (d.put r.obj.subdir r.obj.file (.whole r)) := by
  intro sub' name y hy
  rw [Disk.read_put] at hy
  split at hy
  · rename_i heq
    exact Or.inr ⟨r, (Option.some.inj hy).symm, heq.1, heq.2, hr⟩
  · exact h sub' name y hy

theorem Tidy.rename {d d' : Disk} (h : Tidy d) {r : DiskRecord} (hr : r.obj.stem ≠ "")
    {p n : Nat} (hx : d.read r.obj.subdir (tmpName p n) = some (.whole r))
    (hd : d.rename r.obj.subdir (tmpName p n) r.obj.file = some d') : Tidy d' := by
  obtain ⟨x, hx', rfl⟩ := Disk.rename_eq_some.mp hd
  obtain rfl := Option.some.inj (hx.symm.trans hx')
  exact (h.unlink _ _).put_record hr

theorem Tidy.atomicWrite {d : Disk} (h : Tidy d) (p n : Nat) {r : DiskRecord}
    (hr : r.obj.stem ≠ "") : Tidy (d.atomicWrite p n r) :=
  ((h.put_tmpName _ _ _ _).unlink _ _).put_record hr

/-- The file of an object holds a record of the object. -/
theorem Tidy.load {d : Disk} (h : Tidy d) {ob : Obj} {r : DiskRecord} (hr : d.load ob = some r) :
    d.read ob.subdir ob.file = some (.whole r) ∧ r.obj = ob ∧ ob.stem ≠ "" := by
  rw [Disk.load, Option.bind_eq_some_iff] at hr
  obtain ⟨x, hx, hparse⟩ := hr
  rcases h _ _ x hx with ⟨p, n, hname⟩ | ⟨r', rfl, hsub, hfile, hstem⟩
  · exact absurd hname.symm (tmpName_ne_fileName p n ob.stem)
  · obtain rfl := Option.some.inj hparse
    have hob : r'.obj = ob := Obj.eq_of_file hsub.symm hfile.symm
    exact ⟨hx, hob, hob ▸ hstem⟩

/-- What a record file holds is what its object has stored. -/
theorem Tidy.load_of_read {d : Disk} (h : Tidy d) {sub : Subdir} {name : String} {r : DiskRecord}
    (hx : d.read sub name = some (.whole r)) (hext : extension name = some "json") :
    sub = r.obj.subdir ∧ d.load r.obj = some r := by
  rcases h _ _ _ hx with ⟨p, n, rfl⟩ | ⟨r', hr', rfl, rfl, -⟩
  · rw [extension_tmpName] at hext
    cases hext
  · obtain rfl := FileData.whole.inj hr'
    refine ⟨rfl, ?_⟩
    rw [Disk.load, hx]
    rfl

@[simp] theorem load_atomicWrite (d : Disk) (p n : Nat) (r : DiskRecord) (ob : Obj) :
    (d.atomicWrite p n r).load ob = if ob = r.obj then some r else d.load ob := by
  rw [Disk.atomicWrite, Disk.load_put]
  by_cases hob : ob = r.obj
  · simp [hob, FileData.parse]
  · have hne : ob.file ≠ tmpName p n := (tmpName_ne_fileName p n ob.stem).symm
    have hread : ((d.put r.obj.subdir (tmpName p n) (.whole r)).unlink r.obj.subdir
        (tmpName p n)).load ob = d.load ob := by
      simp [Disk.load, Disk.read_unlink, Disk.read_put, hne]
    rw [if_neg hob, if_neg hob, hread]

/-! ## The rebuilt maps -/

section Rebuild

variable {α κ : Type} [Ord κ] [Std.TransOrd κ]

/-- The record that `open` takes from a directory entry. -/
def entryRecord (parse : DiskRecord → Option α) (e : String × FileData) : Option α :=
  if extension e.1 = some "json" then e.2.parse.bind parse else none

theorem rebuild_eq (parse : DiskRecord → Option α) (key : α → κ)
    (entries : List (String × FileData)) :
    rebuild parse key entries =
      entries.foldl (fun m e => (entryRecord parse e).elim m fun a => m.insert (key a) a) ∅ := by
  unfold rebuild
  congr 1
  funext m e
  unfold entryRecord
  split
  · cases e.2.parse.bind parse <;> rfl
  · rfl

/-- A key has the value that every entry with the key gives it, if there is one. -/
theorem rebuild_getElem? [Std.LawfulEqOrd κ] {parse : DiskRecord → Option α} {key : α → κ}
    {entries : List (String × FileData)} {k : κ} {x : Option α}
    (hsome : ∀ a, x = some a → ∃ e ∈ entries, entryRecord parse e = some a ∧ key a = k)
    (hall : ∀ e ∈ entries, ∀ a, entryRecord parse e = some a → key a = k → x = some a) :
    (rebuild parse key entries)[k]? = x := by
  have hfold : ∀ (l : List (String × FileData)) (m : Std.ExtTreeMap κ α), (∀ e ∈ l, e ∈ entries) →
      m[k]? = x ∨ (m[k]? = none ∧
        ∀ a, x = some a → ∃ e ∈ l, entryRecord parse e = some a ∧ key a = k) →
      (l.foldl (fun m e => (entryRecord parse e).elim m fun a => m.insert (key a) a) m)[k]? =
        x := by
    intro l
    induction l with
    | nil =>
      rintro m - (h | ⟨h, hx⟩)
      · exact h
      · rw [List.foldl_nil, h]
        cases x with
        | none => rfl
        | some a =>
          obtain ⟨e, he, -⟩ := hx a rfl
          cases he
    | cons e l ih =>
      intro m hl hm
      rw [List.foldl_cons]
      refine ih _ (fun e he => hl e (List.mem_cons_of_mem _ he)) ?_
      -- the entries left still have to give the key its value, unless this one has
      have hrest : (∀ a, entryRecord parse e = some a → key a ≠ k) →
          ∀ a, x = some a → (∃ e' ∈ e :: l, entryRecord parse e' = some a ∧ key a = k) →
            ∃ e' ∈ l, entryRecord parse e' = some a ∧ key a = k := by
        rintro hne a - ⟨e', he', hr, hk⟩
        rcases List.mem_cons.mp he' with rfl | he'
        · exact absurd hk (hne a hr)
        · exact ⟨e', he', hr, hk⟩
      cases hrec : entryRecord parse e with
      | none =>
        refine hm.imp_right fun ⟨h, hx⟩ => ⟨h, fun a ha => hrest ?_ a ha (hx a ha)⟩
        rw [hrec]
        rintro b ⟨⟩
      | some a =>
        rw [Option.elim_some, Std.ExtTreeMap.getElem?_insert]
        by_cases hk : key a = k
        · left
          rw [hk]
          simp [hall e (hl e List.mem_cons_self) a hrec hk]
        · have hne : compare (key a) k ≠ .eq := fun h => hk (Std.LawfulEqOrd.eq_of_compare h)
          rw [if_neg hne]
          refine hm.imp_right fun ⟨h, hx⟩ => ⟨h, fun b hb => hrest ?_ b hb (hx b hb)⟩
          rw [hrec]
          rintro c ⟨⟩
          exact hk
  rw [rebuild_eq]
  exact hfold entries ∅ (fun _ h => h) (Or.inr ⟨by simp, hsome⟩)

/-- What a rebuilt map holds comes from an entry. -/
theorem mem_of_rebuild [Std.LawfulEqOrd κ] {parse : DiskRecord → Option α} {key : α → κ}
    {entries : List (String × FileData)} {k : κ} {a : α}
    (h : (rebuild parse key entries)[k]? = some a) :
    ∃ e ∈ entries, entryRecord parse e = some a ∧ key a = k := by
  have hfold : ∀ (l : List (String × FileData)) (m : Std.ExtTreeMap κ α),
      (l.foldl (fun m e => (entryRecord parse e).elim m fun a => m.insert (key a) a) m)[k]? =
        some a → m[k]? = some a ∨ ∃ e ∈ l, entryRecord parse e = some a ∧ key a = k := by
    intro l
    induction l with
    | nil => exact fun m hm => .inl hm
    | cons e l ih =>
      intro m hm
      rw [List.foldl_cons] at hm
      rcases ih _ hm with hm | ⟨e', he', hrec, hk⟩
      · cases hrec : entryRecord parse e with
        | none =>
          rw [hrec] at hm
          exact .inl hm
        | some b =>
          rw [hrec, Option.elim_some, Std.ExtTreeMap.getElem?_insert] at hm
          split at hm
          · rename_i hk
            obtain rfl := Option.some.inj hm
            exact .inr ⟨e, List.mem_cons_self, hrec, Std.LawfulEqOrd.eq_of_compare hk⟩
          · exact .inl hm
      · exact .inr ⟨e', List.mem_cons_of_mem _ he', hrec, hk⟩
  rw [rebuild_eq] at h
  rcases hfold entries ∅ h with h | h
  · simp at h
  · exact h

/-- **A rebuilt map holds the records of the files.** -/
theorem rebuild_load [Std.LawfulEqOrd κ] {d : Disk} (h : Tidy d) {sub : Subdir}
    {entries : List (String × FileData)} (hl : entries.Perm (d sub).toList)
    (parse : DiskRecord → Option α) (key : α → κ) (mk : κ → Obj)
    (hmk : ∀ k k', mk k = mk k' → k = k') (hsub : ∀ k, (mk k).subdir = sub)
    (hkey : ∀ r a, parse r = some a → r.obj = mk (key a)) (k : κ) :
    (rebuild parse key entries)[k]? = (d.load (mk k)).bind parse := by
  have hmem : ∀ name x, (name, x) ∈ entries ↔ d.read sub name = some x := by
    intro name x
    rw [hl.mem_iff, Std.ExtTreeMap.mem_toList_iff_getElem?_eq_some, Disk.read]
  refine rebuild_getElem? ?_ ?_
  · intro a ha
    obtain ⟨r, hr, hparse⟩ := Option.bind_eq_some_iff.mp ha
    obtain ⟨hread, hob, hstem⟩ := h.load hr
    refine ⟨((mk k).file, .whole r), (hmem _ _).mpr (hsub k ▸ hread), ?_, ?_⟩
    · have hext : extension (mk k).file = some "json" := extension_fileName hstem
      rw [entryRecord, if_pos hext]
      exact hparse
    · exact hmk _ _ ((hkey r a hparse).symm.trans hob)
  · rintro ⟨name, x⟩ he a hrec hk
    unfold entryRecord at hrec
    split at hrec
    · rename_i hext
      obtain ⟨r, hx, hparse⟩ := Option.bind_eq_some_iff.mp hrec
      cases x with
      | torn => cases hx
      | whole r' =>
        obtain rfl := Option.some.inj hx
        obtain ⟨-, hload⟩ := h.load_of_read ((hmem _ _).mp he) hext
        rw [hkey r' a hparse, hk] at hload
        rw [hload]
        exact hparse
    · cases hrec

end Rebuild

/-! ## Opening -/

/-- What `open` makes of a record it has read. -/
def DiskRecord.reopen (alive : Nat → Bool) (now : Int) : DiskRecord → DiskRecord
  | .container r => .container (recover alive now r)
  | r => r

/-- The processes that `open` finds. -/
def World.procsAlive (w : World) (pid : Nat) : Bool :=
  ({ w with procs := w.procs.map Proc.orphan } : World).pidAlive pid

@[simp] theorem recover_id (alive : Nat → Bool) (now : Int) (r : ContainerRecord) :
    (recover alive now r).id = r.id := by
  unfold recover
  (repeat' split) <;> rfl

/-- **The only records that `open` changes** are Running ones without a live process. -/
theorem recover_cases (alive : Nat → Bool) (now : Int) (r : ContainerRecord) :
    recover alive now r = r ∨
      r.state = .running ∧ (r.pid = 0 ∨ alive r.pid = false) ∧
        (recover alive now r).state = .exited ∧ (recover alive now r).exitCode = -1 := by
  unfold recover
  split
  · rename_i hrun
    split
    · rename_i h
      exact Or.inr ⟨hrun, Or.inr h.2, rfl, rfl⟩
    · split
      · rename_i h
        exact Or.inr ⟨hrun, Or.inl h, rfl, rfl⟩
      · exact Or.inl rfl
  · exact Or.inl rfl

/-- What has been corrected stays as it is. -/
theorem recover_recover (alive : Nat → Bool) (now now' : Int) (r : ContainerRecord) :
    recover alive now' (recover alive now r) = recover alive now r := by
  rcases recover_cases alive now r with h | ⟨-, -, hexited, -⟩
  · rw [h]
    rcases recover_cases alive now' r with h' | ⟨hrun, hdead, hexited, -⟩
    · exact h'
    · exfalso
      rw [← h] at hrun
      revert hrun
      unfold recover
      rcases hdead with hpid | hdead
      · by_cases hr : r.state = .running <;> simp [hr, hpid, ContainerRecord.toExited]
      · by_cases hr : r.state = .running
        · by_cases hpid : r.pid = 0
          · simp [hr, hpid, ContainerRecord.toExited]
          · have hpos : 0 < r.pid := by omega
            simp [hr, hpos, hdead, ContainerRecord.toExited]
        · simp [hr]
  · rw [recover, if_neg]
    rw [hexited]
    simp

theorem reopen_reopen (alive : Nat → Bool) (now now' : Int) (r : DiskRecord) :
    (r.reopen alive now).reopen alive now' = r.reopen alive now := by
  cases r with
  | container r => simp [DiskRecord.reopen, recover_recover]
  | _ => rfl

section Restart

variable {rs : Restart} {w : World}

theorem Tidy.crash {d : Disk} (h : Tidy d) (rs : Restart) : Tidy (rs.crash d) := by
  unfold Restart.crash
  generalize rs.torn = torn
  induction torn generalizing d with
  | nil => exact h
  | cons t torn ih => exact ih (h.put_tmpName _ _ _ _)

@[simp] theorem load_crash (rs : Restart) (d : Disk) (ob : Obj) :
    (rs.crash d).load ob = d.load ob := by
  unfold Restart.crash
  generalize rs.torn = torn
  induction torn generalizing d with
  | nil => rfl
  | cons t torn ih => rw [List.foldl_cons, ih, Disk.load_put_tmpName]

/-- **The cache after an open** has for each object the corrected record of its file. -/
theorem cache_restart (h : Tidy w.disk) (hl : rs.Lists w.disk) (ob : Obj) :
    (w.restart rs).cache.get ob = (w.disk.load ob).map (.reopen w.procsAlive rs.clock) := by
  have htidy := h.crash rs
  have hcache : (w.restart rs).cache = rs.cache w.procsAlive := rfl
  rw [← load_crash rs, hcache]
  cases ob with
  | sandbox id =>
    have hget := rebuild_load htidy (hl .sandboxes) DiskRecord.sandbox? SandboxRecord.id .sandbox
      (by simp) (fun _ => rfl) (by rintro (r | r | r) a ⟨⟩; rfl) id
    rw [Cache.get, Restart.cache, hget]
    cases hload : (rs.crash w.disk).load (.sandbox id) with
    | none => rfl
    | some r =>
      have hob := (htidy.load hload).2.1
      cases r with
      | sandbox r => rfl
      | _ => cases hob
  | container id =>
    have hget := rebuild_load htidy (hl .containers)
      (fun r => r.container?.map (recover w.procsAlive rs.clock)) ContainerRecord.id .container
      (by simp) (fun _ => rfl) (by rintro (r | r | r) a ⟨⟩; simp) id
    rw [Cache.get, Restart.cache, hget]
    cases hload : (rs.crash w.disk).load (.container id) with
    | none => rfl
    | some r =>
      have hob := (htidy.load hload).2.1
      cases r with
      | container r => rfl
      | _ => cases hob
  | image id =>
    have hget := rebuild_load htidy (hl .images) DiskRecord.image? ImageDiskRecord.id .image
      (by simp) (fun _ => rfl) (by rintro (r | r | r) a ⟨⟩; rfl) id
    rw [Cache.get, Restart.cache, hget]
    cases hload : (rs.crash w.disk).load (.image id) with
    | none => rfl
    | some r =>
      have hob := (htidy.load hload).2.1
      cases r with
      | image r => rfl
      | _ => cases hob

/-- The container records that `open` reads are those that are stored. -/
theorem mem_listedContainers (h : Tidy w.disk) (hl : rs.Lists w.disk) (r : ContainerRecord) :
    r ∈ listedContainers (rs.listing .containers) ↔
      w.disk.load (.container r.id) = some (.container r) := by
  have htidy := h.crash rs
  have hmem : ∀ name x, (name, x) ∈ rs.listing .containers ↔
      (rs.crash w.disk).read .containers name = some x := by
    intro name x
    rw [(hl .containers).mem_iff, Std.ExtTreeMap.mem_toList_iff_getElem?_eq_some, Disk.read]
  rw [← load_crash rs, listedContainers, List.mem_filterMap]
  constructor
  · rintro ⟨⟨name, x⟩, he, hrec⟩
    split at hrec
    · rename_i hext
      obtain ⟨r', hx, hparse⟩ := Option.bind_eq_some_iff.mp hrec
      cases x with
      | torn => cases hx
      | whole x =>
        obtain rfl := Option.some.inj hx
        cases x with
        | container y =>
          obtain rfl := Option.some.inj hparse
          exact (htidy.load_of_read ((hmem _ _).mp he) hext).2
        | _ => cases hparse
    · cases hrec
  · intro hload
    obtain ⟨hread, -, hstem⟩ := htidy.load hload
    have hext : extension (Obj.container r.id).file = some "json" := extension_fileName hstem
    refine ⟨((Obj.container r.id).file, .whole (.container r)), (hmem _ _).mpr hread, ?_⟩
    rw [if_pos hext]
    rfl

/-- The file of a container is written back if its record was corrected. -/
def writeBack (rs : Restart) (alive : Nat → Bool) (d : Disk) (r : ContainerRecord) : Disk :=
  if recover alive rs.clock r = r then d
  else d.atomicWrite rs.pid rs.tmpNanos (.container (recover alive rs.clock r))

theorem load_writeBack (rs : Restart) (alive : Nat → Bool) (d : Disk) (r : ContainerRecord)
    (ob : Obj) :
    (writeBack rs alive d r).load ob =
      if ob = .container r.id ∧ recover alive rs.clock r ≠ r then
        some (.container (recover alive rs.clock r))
      else d.load ob := by
  unfold writeBack
  split
  · rename_i h
    simp [h]
  · rename_i h
    simp [h]

/-- Records written back one after the other: an object with the stored record `x` gets the
corrected one. -/
theorem load_foldl_writeBack (rs : Restart) (alive : Nat → Bool) {ob : Obj}
    {x : Option DiskRecord} {l : List ContainerRecord}
    (hl : ∀ r ∈ l, .container r.id = ob → x = some (.container r)) {d : Disk}
    (hd : d.load ob = x.map (.reopen alive rs.clock) ∨
      d.load ob = x ∧ (x.map (.reopen alive rs.clock) = x ∨ ∃ r ∈ l, .container r.id = ob)) :
    (l.foldl (writeBack rs alive) d).load ob = x.map (.reopen alive rs.clock) := by
  induction l generalizing d with
  | nil =>
    rcases hd with hd | ⟨hd, hx | ⟨r, hr, -⟩⟩
    · exact hd
    · exact hd.trans hx.symm
    · cases hr
  | cons r l ih =>
    rw [List.foldl_cons]
    refine ih (fun r' hr' => hl r' (List.mem_cons_of_mem _ hr')) ?_
    rw [load_writeBack]
    by_cases hob : Obj.container r.id = ob
    · left
      have hx := hl r List.mem_cons_self hob
      by_cases hr : recover alive rs.clock r = r
      · have hsame : x.map (.reopen alive rs.clock) = x := by
          rw [hx, Option.map_some, DiskRecord.reopen, hr]
        rw [if_neg (by simp [hr]), hsame]
        exact hd.elim (fun h => h.trans hsame) And.left
      · rw [if_pos ⟨hob.symm, hr⟩, hx]
        rfl
    · rw [if_neg fun h => hob h.1.symm]
      refine hd.imp_right fun ⟨h, hx⟩ => ⟨h, hx.imp_right fun ⟨r', hr', he⟩ => ?_⟩
      rcases List.mem_cons.mp hr' with rfl | hr'
      · exact absurd he hob
      · exact ⟨r', hr', he⟩

/-- **The files after an open** hold the corrected records. -/
theorem load_restart (h : Tidy w.disk) (hl : rs.Lists w.disk) (ob : Obj) :
    (w.restart rs).disk.load ob = (w.disk.load ob).map (.reopen w.procsAlive rs.clock) := by
  show ((listedContainers (rs.listing .containers)).foldl (writeBack rs w.procsAlive)
    (rs.crash w.disk)).load ob = _
  refine load_foldl_writeBack rs w.procsAlive ?_ (Or.inr ⟨load_crash rs w.disk ob, ?_⟩)
  · rintro r hr rfl
    exact (mem_listedContainers h hl r).mp hr
  · cases hload : w.disk.load ob with
    | none => exact Or.inl rfl
    | some r =>
      have hob := (h.load hload).2.1
      cases r with
      | container r =>
        refine Or.inr ⟨r, (mem_listedContainers h hl r).mpr ?_, hob⟩
        rw [← hload, ← hob]
        rfl
      | _ => exact Or.inl rfl

theorem tidy_restart (h : Tidy w.disk) (hl : rs.Lists w.disk) : Tidy (w.restart rs).disk := by
  show Tidy ((listedContainers (rs.listing .containers)).foldl (writeBack rs w.procsAlive)
    (rs.crash w.disk))
  have hstem : ∀ r ∈ listedContainers (rs.listing .containers), (Obj.container r.id).stem ≠ "" :=
    fun r hr => (h.load ((mem_listedContainers h hl r).mp hr)).2.2
  generalize listedContainers (rs.listing .containers) = l at hstem
  have hd := h.crash rs
  generalize rs.crash w.disk = d at hd
  induction l generalizing d with
  | nil => exact hd
  | cons r l ih =>
    rw [List.foldl_cons]
    refine ih (fun r' hr' => hstem r' (List.mem_cons_of_mem _ hr')) _ ?_
    unfold writeBack
    split
    · exact hd
    · refine hd.atomicWrite _ _ ?_
      rw [DiskRecord.obj_container, recover_id]
      exact hstem r List.mem_cons_self

/-- The processes of a killed listener are orphans already. -/
theorem procsAlive_restart (rs : Restart) (w : World) :
    (w.restart rs).procsAlive = w.procsAlive := by
  have horphan : ∀ p : Proc, p.orphan.orphan = p.orphan := by
    intro p
    unfold Proc.orphan
    cases p.state <;> rfl
  have hprocs : (w.restart rs).procs.map Proc.orphan = w.procs.map Proc.orphan := by
    show (w.procs.map Proc.orphan).map Proc.orphan = w.procs.map Proc.orphan
    rw [List.map_map]
    exact List.map_congr_left fun p _ => horphan p
  funext pid
  simp only [World.procsAlive, World.pidAlive, hprocs]

/-- **A second open changes nothing.** -/
theorem restart_again {rs' : Restart} (h : Tidy w.disk) (hl : rs.Lists w.disk)
    (hl' : rs'.Lists (w.restart rs).disk) (ob : Obj) :
    ((w.restart rs).restart rs').cache.get ob = (w.restart rs).cache.get ob ∧
      ((w.restart rs).restart rs').disk.load ob = (w.restart rs).disk.load ob := by
  have htidy := tidy_restart h hl
  have hsame : ((w.disk.load ob).map (DiskRecord.reopen w.procsAlive rs.clock)).map
      (DiskRecord.reopen w.procsAlive rs'.clock) =
        (w.disk.load ob).map (DiskRecord.reopen w.procsAlive rs.clock) := by
    cases w.disk.load ob with
    | none => rfl
    | some r => exact congrArg some (reopen_reopen _ _ _ r)
  constructor
  · rw [cache_restart htidy hl', cache_restart h hl, load_restart h hl, procsAlive_restart, hsame]
  · rw [load_restart htidy hl', load_restart h hl, procsAlive_restart, hsame]

end Restart

end LightrCri.Fake

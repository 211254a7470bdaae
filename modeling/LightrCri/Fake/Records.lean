import LightrCri.Fake.Names
import Mathlib.Logic.Function.Basic

/-!
# Records, cache and state root

The persisted records of the fake backend, the in-memory `Cache` and the three directories of the
state root. A file holds either one whole serialized record or bytes that do not parse as one
(`FileData.torn`): what `serde_json::to_vec` writes is what `serde_json::from_slice` reads back.

`Cache.get` and `Disk.load` read an object of any plane from the cache and from its file, so that
the two can be compared. The file lemmas say what each disk effect does to `load`: a temporary file
is not loaded (`load_put_tmpName`), a rename or an unlink concerns one object
(`load_rename`, `load_unlink`).
-/

namespace LightrCri.Fake

open Backend

structure SandboxRecord where
  id : SandboxId
  config : SandboxConfig
  state : SandboxState
  createdAtNanos : Int
  /-- Pod IP assigned by CNI ADD; none when host network or no CNI. -/
  ip : Option String
  /-- Path of the pinned network namespace; none when host network or no CNI. -/
  netnsPath : Option String
  deriving DecidableEq, Repr

structure ContainerRecord where
  id : ContainerId
  sandbox : SandboxId
  config : ContainerConfig
  state : ContainerState
  createdAtNanos : Int
  startedAtNanos : Int
  finishedAtNanos : Int
  exitCode : Int
  reason : String
  message : String
  /-- PID of the spawned host process; 0 is not started. -/
  pid : Nat
  deriving DecidableEq, Repr

structure ImageDiskRecord where
  id : String
  refName : String
  size : Nat
  deriving DecidableEq, Repr

/-- An object of one of the three planes; an image goes by the stem of its file. -/
inductive Obj
  | sandbox (id : SandboxId)
  | container (id : ContainerId)
  | image (id : String)
  deriving DecidableEq, Repr

/-- A record of one of the three planes. -/
inductive DiskRecord
  | sandbox (r : SandboxRecord)
  | container (r : ContainerRecord)
  | image (r : ImageDiskRecord)
  deriving DecidableEq, Repr

/-- The object a record describes. -/
def DiskRecord.obj : DiskRecord → Obj
  | .sandbox r => .sandbox r.id
  | .container r => .container r.id
  | .image r => .image r.id

@[simp] theorem DiskRecord.obj_sandbox (r : SandboxRecord) :
    (DiskRecord.sandbox r).obj = .sandbox r.id := rfl

@[simp] theorem DiskRecord.obj_container (r : ContainerRecord) :
    (DiskRecord.container r).obj = .container r.id := rfl

@[simp] theorem DiskRecord.obj_image (r : ImageDiskRecord) :
    (DiskRecord.image r).obj = .image r.id := rfl

/-! ## The cache -/

structure Cache where
  sandboxes : Std.ExtTreeMap SandboxId SandboxRecord
  containers : Std.ExtTreeMap ContainerId ContainerRecord
  images : Std.ExtTreeMap String ImageDiskRecord

namespace Cache

/-- `Cache::default`. -/
def empty : Cache := ⟨∅, ∅, ∅⟩

/-- The cached record of an object. -/
def get (c : Cache) : Obj → Option DiskRecord
  | .sandbox id => c.sandboxes[id]?.map .sandbox
  | .container id => c.containers[id]?.map .container
  | .image id => c.images[id]?.map .image

def setSandbox (c : Cache) (id : SandboxId) (r : SandboxRecord) : Cache :=
  { c with sandboxes := c.sandboxes.insert id r }

def setContainer (c : Cache) (id : ContainerId) (r : ContainerRecord) : Cache :=
  { c with containers := c.containers.insert id r }

def setImage (c : Cache) (id : String) (r : ImageDiskRecord) : Cache :=
  { c with images := c.images.insert id r }

def eraseSandbox (c : Cache) (id : SandboxId) : Cache :=
  { c with sandboxes := c.sandboxes.erase id }

def eraseContainer (c : Cache) (id : ContainerId) : Cache :=
  { c with containers := c.containers.erase id }

def eraseImage (c : Cache) (id : String) : Cache :=
  { c with images := c.images.erase id }

variable (c : Cache) (ob : Obj)

@[simp] theorem get_empty : empty.get ob = none := by
  cases ob <;> simp [get, empty]

theorem get_setSandbox (id : SandboxId) (r : SandboxRecord) :
    (c.setSandbox id r).get ob = if ob = .sandbox id then some (.sandbox r) else c.get ob := by
  cases ob with
  | sandbox id' =>
    by_cases h : id = id'
    · simp [get, setSandbox, h]
    · simp [get, setSandbox, h, Ne.symm h, Std.ExtTreeMap.getElem?_insert]
  | _ => simp [get, setSandbox]

theorem get_setContainer (id : ContainerId) (r : ContainerRecord) :
    (c.setContainer id r).get ob = if ob = .container id then some (.container r) else c.get ob := by
  cases ob with
  | container id' =>
    by_cases h : id = id'
    · simp [get, setContainer, h]
    · simp [get, setContainer, h, Ne.symm h, Std.ExtTreeMap.getElem?_insert]
  | _ => simp [get, setContainer]

theorem get_setImage (id : String) (r : ImageDiskRecord) :
    (c.setImage id r).get ob = if ob = .image id then some (.image r) else c.get ob := by
  cases ob with
  | image id' =>
    by_cases h : id = id'
    · simp [get, setImage, h]
    · simp [get, setImage, h, Ne.symm h, Std.ExtTreeMap.getElem?_insert]
  | _ => simp [get, setImage]

theorem get_eraseSandbox (id : SandboxId) :
    (c.eraseSandbox id).get ob = if ob = .sandbox id then none else c.get ob := by
  cases ob with
  | sandbox id' =>
    by_cases h : id = id'
    · simp [get, eraseSandbox, h]
    · simp [get, eraseSandbox, h, Ne.symm h, Std.ExtTreeMap.getElem?_erase]
  | _ => simp [get, eraseSandbox]

theorem get_eraseContainer (id : ContainerId) :
    (c.eraseContainer id).get ob = if ob = .container id then none else c.get ob := by
  cases ob with
  | container id' =>
    by_cases h : id = id'
    · simp [get, eraseContainer, h]
    · simp [get, eraseContainer, h, Ne.symm h, Std.ExtTreeMap.getElem?_erase]
  | _ => simp [get, eraseContainer]

theorem get_eraseImage (id : String) :
    (c.eraseImage id).get ob = if ob = .image id then none else c.get ob := by
  cases ob with
  | image id' =>
    by_cases h : id = id'
    · simp [get, eraseImage, h]
    · simp [get, eraseImage, h, Ne.symm h, Std.ExtTreeMap.getElem?_erase]
  | _ => simp [get, eraseImage]

end Cache

/-! ## The state root -/

/-- The directories of the state root. -/
inductive Subdir
  | sandboxes
  | containers
  | images
  deriving DecidableEq, Repr

/-- The contents of a file: one whole serialized record, or bytes that do not parse as one. -/
inductive FileData
  | torn
  | whole (r : DiskRecord)
  deriving DecidableEq, Repr

/-- The record that `serde_json::from_slice` reads from a file, if any. -/
def FileData.parse : FileData → Option DiskRecord
  | .torn => none
  | .whole r => some r

abbrev Files := Std.ExtTreeMap String FileData

abbrev Disk := Subdir → Files

/-- The directory an object's record is kept in. -/
def Obj.subdir : Obj → Subdir
  | .sandbox _ => .sandboxes
  | .container _ => .containers
  | .image _ => .images

/-- The id by which an object's file is named. -/
def Obj.stem : Obj → String
  | .sandbox id => id.val
  | .container id => id.val
  | .image id => id

/-- The file of an object's record. -/
def Obj.file (ob : Obj) : String := fileName ob.stem

theorem Obj.eq_of_file {ob ob' : Obj} (hd : ob.subdir = ob'.subdir) (hf : ob.file = ob'.file) :
    ob = ob' := by
  have hs := fileName_injective hf
  cases ob <;> cases ob' <;> simp_all [Obj.subdir, Obj.stem]
  all_goals
    rename_i a b
    cases a
    cases b
    simp_all

namespace Disk

/-- An empty state root. -/
def empty : Disk := fun _ => ∅

def read (d : Disk) (sub : Subdir) (name : String) : Option FileData := (d sub)[name]?

/-- Create or truncate the file `name` and write it. -/
def put (d : Disk) (sub : Subdir) (name : String) (x : FileData) : Disk :=
  Function.update d sub ((d sub).insert name x)

/-- `fs::remove_file`. -/
def unlink (d : Disk) (sub : Subdir) (name : String) : Disk :=
  Function.update d sub ((d sub).erase name)

/-- `fs::rename`, which fails when there is no file `src`. -/
def rename (d : Disk) (sub : Subdir) (src dst : String) : Option Disk :=
  (d.read sub src).map fun x => (d.unlink sub src).put sub dst x

/-- The record that the file of an object holds. -/
def load (d : Disk) (ob : Obj) : Option DiskRecord := (d.read ob.subdir ob.file).bind FileData.parse

variable (d : Disk)

@[simp] theorem read_empty (sub : Subdir) (name : String) : empty.read sub name = none := by
  simp [read, empty]

theorem read_put (sub sub' : Subdir) (name name' : String) (x : FileData) :
    (d.put sub name x).read sub' name' =
      if sub' = sub ∧ name' = name then some x else d.read sub' name' := by
  unfold read put
  by_cases hs : sub' = sub
  · subst hs
    by_cases hn : name = name'
    · simp [hn]
    · simp [hn, Ne.symm hn, Std.ExtTreeMap.getElem?_insert]
  · simp [hs]

theorem read_unlink (sub sub' : Subdir) (name name' : String) :
    (d.unlink sub name).read sub' name' =
      if sub' = sub ∧ name' = name then none else d.read sub' name' := by
  unfold read unlink
  by_cases hs : sub' = sub
  · subst hs
    by_cases hn : name = name'
    · simp [hn]
    · simp [hn, Ne.symm hn, Std.ExtTreeMap.getElem?_erase]
  · simp [hs]

variable {d}

theorem rename_eq_some {d' : Disk} {sub : Subdir} {src dst : String} :
    d.rename sub src dst = some d' ↔
      ∃ x, d.read sub src = some x ∧ d' = (d.unlink sub src).put sub dst x := by
  rw [rename, Option.map_eq_some_iff]
  exact exists_congr fun x => and_congr_right fun _ => eq_comm

theorem read_rename {d' : Disk} {sub sub' : Subdir} {src dst name : String}
    (h : d.rename sub src dst = some d') :
    d'.read sub' name = if sub' = sub ∧ name = dst then d.read sub src
      else if sub' = sub ∧ name = src then none else d.read sub' name := by
  obtain ⟨x, hx, rfl⟩ := rename_eq_some.mp h
  rw [read_put, read_unlink, hx]

variable (d)

@[simp] theorem load_empty (ob : Obj) : empty.load ob = none := by
  simp [load]

/-- **A temporary file is not loaded.** -/
@[simp] theorem load_put_tmpName (sub : Subdir) (pid nanos : Nat) (x : FileData) (ob : Obj) :
    (d.put sub (tmpName pid nanos) x).load ob = d.load ob := by
  have h : ob.file ≠ tmpName pid nanos := (tmpName_ne_fileName pid nanos ob.stem).symm
  simp [load, read_put, h]

theorem load_unlink (ob ob' : Obj) :
    (d.unlink ob.subdir ob.file).load ob' = if ob' = ob then none else d.load ob' := by
  unfold load
  rw [read_unlink]
  by_cases h : ob' = ob
  · simp [h]
  · have hne : ¬(ob'.subdir = ob.subdir ∧ ob'.file = ob.file) := fun ⟨hs, hf⟩ =>
      h (Obj.eq_of_file hs hf)
    simp [h, hne]

theorem load_put (ob ob' : Obj) (x : FileData) :
    (d.put ob.subdir ob.file x).load ob' = if ob' = ob then x.parse else d.load ob' := by
  unfold load
  rw [read_put]
  by_cases h : ob' = ob
  · simp [h]
  · have hne : ¬(ob'.subdir = ob.subdir ∧ ob'.file = ob.file) := fun ⟨hs, hf⟩ =>
      h (Obj.eq_of_file hs hf)
    simp [h, hne]

/-- A temporary file moved over the file of `ob` gives it its contents. -/
theorem load_rename {d d' : Disk} {ob : Obj} {pid nanos : Nat} {x : FileData}
    (hx : d.read ob.subdir (tmpName pid nanos) = some x)
    (h : d.rename ob.subdir (tmpName pid nanos) ob.file = some d') (ob' : Obj) :
    d'.load ob' = if ob' = ob then x.parse else d.load ob' := by
  obtain ⟨y, hy, rfl⟩ := rename_eq_some.mp h
  obtain rfl : x = y := Option.some.inj (hx.symm.trans hy)
  rw [load_put]
  by_cases hob : ob' = ob
  · simp [hob]
  · have hne : ob'.file ≠ tmpName pid nanos := (tmpName_ne_fileName pid nanos ob'.stem).symm
    simp [hob, load, read_unlink, hne]

end Disk

end LightrCri.Fake

import LightrCri.Fake.Execution

/-!
# What a task owes to the disk

A call updates the cache and then the file, and a `create` the file and then the cache. `Duty` is
what a task that stopped between the two still has to do, `Stack d` the stacks with the duty `d`,
and `Change` what one step does to the cache, the files, the lock and the duty. Every step of every
task is a `Change` (`Stack.step`): the invariants that relate the cache and the files are proved by
cases on it and never unfold `exec`.
-/

namespace LightrCri.Fake

open Backend Foundations

/-- The objects whose ids `new_id` makes. -/
def Obj.minted : Obj → Bool
  | .image _ => false
  | _ => true

/-- The sandbox of a container's record. -/
def DiskRecord.parent : DiskRecord → Option SandboxId
  | .container r => some r.sandbox
  | _ => none

/-! ## Cached records by object -/

namespace Cache

def put (c : Cache) : DiskRecord → Cache
  | .sandbox r => c.setSandbox r.id r
  | .container r => c.setContainer r.id r
  | .image r => c.setImage r.id r

def erase (c : Cache) : Obj → Cache
  | .sandbox id => c.eraseSandbox id
  | .container id => c.eraseContainer id
  | .image id => c.eraseImage id

theorem get_put (c : Cache) (r : DiskRecord) (ob : Obj) :
    (c.put r).get ob = if ob = r.obj then some r else c.get ob := by
  cases r with
  | sandbox r => exact get_setSandbox c ob r.id r
  | container r => exact get_setContainer c ob r.id r
  | image r => exact get_setImage c ob r.id r

theorem get_erase (c : Cache) (ob ob' : Obj) :
    (c.erase ob).get ob' = if ob' = ob then none else c.get ob' := by
  cases ob with
  | sandbox id => exact get_eraseSandbox c ob' id
  | container id => exact get_eraseContainer c ob' id
  | image id => exact get_eraseImage c ob' id

/-- Every record is kept under its own id. -/
def Keyed (c : Cache) : Prop := ∀ ob r, c.get ob = some r → r.obj = ob

theorem Keyed.put {c : Cache} (h : c.Keyed) (r : DiskRecord) : (c.put r).Keyed := by
  intro ob r' hr'
  rw [get_put] at hr'
  split at hr'
  · rename_i hob
    rw [← Option.some.inj hr', hob]
  · exact h ob r' hr'

theorem Keyed.erase {c : Cache} (h : c.Keyed) (ob : Obj) : (c.erase ob).Keyed := by
  intro ob' r hr
  rw [get_erase] at hr
  split at hr
  · simp at hr
  · exact h ob' r hr

theorem get_sandbox_eq_some {c : Cache} {id : SandboxId} {r : SandboxRecord}
    (h : c.sandboxes[id]? = some r) : c.get (.sandbox id) = some (.sandbox r) := by
  rw [get, h, Option.map_some]

theorem get_container_eq_some {c : Cache} {id : ContainerId} {r : ContainerRecord}
    (h : c.containers[id]? = some r) : c.get (.container id) = some (.container r) := by
  rw [get, h, Option.map_some]

theorem Keyed.sandbox {c : Cache} (h : c.Keyed) {id : SandboxId} {r : SandboxRecord}
    (hr : c.sandboxes[id]? = some r) : r.id = id := by
  simpa using h _ _ (get_sandbox_eq_some hr)

theorem Keyed.container {c : Cache} (h : c.Keyed) {id : ContainerId} {r : ContainerRecord}
    (hr : c.containers[id]? = some r) : r.id = id := by
  simpa using h _ _ (get_container_eq_some hr)

end Cache

/-! ## Duties -/

/-- What a task still has to do to the disk or, for a new object, to the cache. -/
inductive Duty
  | none
  /-- The record is in the cache and will be written; `locked` if the cache lock is held
  meanwhile. -/
  | persists (r : DiskRecord) (locked : Bool)
  /-- The cache lock is held and nothing is left to be written. -/
  | releases
  /-- The object is out of the cache and its file will be unlinked. -/
  | removes (ob : Obj)
  /-- The object is new and will be in the cache when its file is written; `stored` once it is. -/
  | issues (r : DiskRecord) (stored : Bool)

/-- The duty once the file is as it should be, or given up. -/
def Duty.next : Duty → Duty
  | .persists _ true => .releases
  | _ => .none

/-- The critical section that puts a new record into the cache. -/
def DiskRecord.insert : DiskRecord → Crit
  | .sandbox r => .insertSandbox r
  | .container r => .insertContainer r
  | .image r => .insertImage r

/-- The critical section that drops an object from the cache. -/
def Obj.dropped : Obj → Crit
  | .sandbox id => .deleteSandbox id
  | .container id => .dropContainer id
  | .image id => .dropImage id

/-- The frames after which nothing is owed. -/
def Frame.plain : Frame → Bool
  | .crit (.insertSandbox _) => false
  | .crit (.insertContainer _) => false
  | .crit (.insertImage _) => false
  | .file _ => false
  | .unlock => false
  | _ => true

/-- The object whose record or file the frame is about to change, whatever the cache holds. -/
def Frame.obj : Frame → Option Obj
  | .crit (.insertSandbox r) => some (.sandbox r.id)
  | .crit (.insertContainer r) => some (.container r.id)
  | .crit (.insertImage r) => some (.image r.id)
  | .crit (.dropContainer id) => some (.container id)
  | .crit (.dropImage id) => some (.image id)
  | .file (.write r _) => some r.obj
  | .file (.rename _ _ r _) => some r.obj
  | .file (.unlink ob) => some ob
  | _ => .none

@[simp] theorem obj_insert (r : DiskRecord) : (Frame.crit r.insert).obj = some r.obj := by
  cases r <;> rfl

/-- The stacks of a task, by its duty. -/
inductive Stack : Duty → List Frame → Prop
  | plain (k) (hk : ∀ f ∈ k, f.plain) : Stack .none k
  | write (r strict k) (hk : ∀ f ∈ k, f.plain) :
    Stack (.persists r false) (.file (.write r strict) :: k)
  | rename (p n r strict k) (hk : ∀ f ∈ k, f.plain) :
    Stack (.persists r false) (.file (.rename p n r strict) :: k)
  | landWrite (r k) (hk : ∀ f ∈ k, f.plain) :
    Stack (.persists r true) (.file (.write r false) :: .unlock :: k)
  | landRename (p n r k) (hk : ∀ f ∈ k, f.plain) :
    Stack (.persists r true) (.file (.rename p n r false) :: .unlock :: k)
  | unlock (k) (hk : ∀ f ∈ k, f.plain) : Stack .releases (.unlock :: k)
  | removeIo (id ob k) (hk : ∀ f ∈ k, f.plain) :
    Stack (.removes ob) (.sys (.removeIo id) :: .file (.unlink ob) :: k)
  | unlink (ob k) (hk : ∀ f ∈ k, f.plain) : Stack (.removes ob) (.file (.unlink ob) :: k)
  | issueWrite (r k) (hk : ∀ f ∈ k, f.plain) :
    Stack (.issues r false) (.file (.write r true) :: .crit r.insert :: k)
  | issueRename (p n r k) (hk : ∀ f ∈ k, f.plain) :
    Stack (.issues r false) (.file (.rename p n r true) :: .crit r.insert :: k)
  | insert (r k) (hk : ∀ f ∈ k, f.plain) : Stack (.issues r true) (.crit r.insert :: k)

/-- The record that a frame puts into the cache as a new one. -/
def Frame.inserts : Frame → Option DiskRecord
  | .crit (.insertSandbox r) => some (.sandbox r)
  | .crit (.insertContainer r) => some (.container r)
  | .crit (.insertImage r) => some (.image r)
  | _ => .none

@[simp] theorem inserts_insert (r : DiskRecord) : (Frame.crit r.insert).inserts = some r := by
  cases r <;> rfl

theorem inserts_of_plain {f : Frame} (h : f.plain) : f.inserts = none := by
  cases f with
  | crit c => cases c <;> first | rfl | cases h
  | _ => rfl

/-- The duty of a stack whose top frame writes the file of `r`. -/
def writeDuty (r : DiskRecord) : List Frame → Duty
  | .unlock :: _ => .persists r true
  | f :: _ => if f.inserts.isSome then .issues r false else .persists r false
  | [] => .persists r false

/-- The duty of a stack. -/
def dutyOf : List Frame → Duty
  | .file (.write r _) :: k => writeDuty r k
  | .file (.rename _ _ r _) :: k => writeDuty r k
  | .file (.unlink ob) :: _ => .removes ob
  | .sys (.removeIo _) :: .file (.unlink ob) :: _ => .removes ob
  | .unlock :: _ => .releases
  | f :: _ => f.inserts.elim .none fun r => .issues r true
  | [] => .none

theorem writeDuty_of_plain {r : DiskRecord} {k : List Frame} (hk : ∀ f ∈ k, f.plain) :
    writeDuty r k = .persists r false := by
  cases k with
  | nil => rfl
  | cons f k =>
    have hf := hk f List.mem_cons_self
    cases f with
    | unlock => cases hf
    | _ => simp [writeDuty, inserts_of_plain hf]

theorem dutyOf_of_plain {k : List Frame} (hk : ∀ f ∈ k, f.plain) : dutyOf k = .none := by
  cases k with
  | nil => rfl
  | cons f k =>
    have hf := hk f List.mem_cons_self
    cases f with
    | unlock => cases hf
    | file g => cases hf
    | crit c => simp [dutyOf, inserts_of_plain hf]
    | ret v | fail e => rfl
    | sys s =>
      cases s with
      | removeIo id =>
        cases k with
        | nil => rfl
        | cons g k =>
          have hg := hk g (List.mem_cons_of_mem _ List.mem_cons_self)
          cases g with
          | file h => cases hg
          | _ => rfl
      | _ => rfl

theorem Stack.dutyOf_eq {d : Duty} {fs : List Frame} (h : Stack d fs) : dutyOf fs = d := by
  cases h with
  | plain _ hk => exact dutyOf_of_plain hk
  | write r strict k hk | rename p n r strict k hk => exact writeDuty_of_plain hk
  | landWrite | landRename | unlock | removeIo | unlink => rfl
  | issueWrite r k hk | issueRename p n r k hk => simp [dutyOf, writeDuty]
  | insert r k hk => simp [dutyOf]
/-- The id of a new object is made from the counter; that of an image from its reference. -/
def NewObj (w w' : World) : DiskRecord → Prop
  | .sandbox r => w'.counter = w.counter + 1 ∧ ∃ n, r.id.val = newId "sb-" n w.counter
  | .container r => w'.counter = w.counter + 1 ∧ ∃ n, r.id.val = newId "ct-" n w.counter
  | .image r => w'.counter = w.counter ∧ ∃ ref, r = imageRecord w.blake3 ref

/-- The record replaces a cached one of the same object. -/
def Replaces (c : Cache) (r : DiskRecord) : Prop :=
  ∃ old, c.get r.obj = some old ∧ old.parent = r.parent

theorem Replaces.isSome {c : Cache} {r : DiskRecord} (h : Replaces c r) :
    (c.get r.obj).isSome := by
  obtain ⟨old, hold, -⟩ := h
  rw [hold]
  rfl

/-- What a step of the task `self` with the frame `f` does to the cache, the files, the lock and
the counter, and to the duty of the task. -/
inductive Change (self : Nat) (o : Oracle) (f : Frame) (w w' : World) : Duty → Duty → Prop
  | quiet (d) (cache : w'.cache = w.cache) (disk : w'.disk = w.disk) (lock : w'.lock = w.lock)
    (counter : w.counter ≤ w'.counter) : Change self o f w w' d d
  /-- A temporary file is written. -/
  | write (d sub p n x) (cache : w'.cache = w.cache)
    (disk : w'.disk = w.disk.put sub (tmpName p n) x) (lock : w'.lock = w.lock)
    (counter : w'.counter = w.counter) : Change self o f w w' d d
  /-- A write is given up. -/
  | abandon (d r) (kind : (∃ l, d = .persists r l) ∨ d = .issues r false)
    (obj : f.obj = some r.obj) (why : Lost o f w) (cache : w'.cache = w.cache)
    (disk : w'.disk = w.disk ∨ ∃ sub p n x, w'.disk = w.disk.put sub (tmpName p n) x)
    (lock : w'.lock = w.lock) (counter : w'.counter = w.counter) :
    Change self o f w w' d d.next
  | rename (p n r strict locked) (frame : f = .file (.rename p n r strict))
    (cache : w'.cache = w.cache)
    (disk : w.disk.rename r.obj.subdir (tmpName p n) r.obj.file = some w'.disk)
    (lock : w'.lock = w.lock) (counter : w'.counter = w.counter) :
    Change self o f w w' (.persists r locked) (Duty.persists r locked).next
  | store (p n r strict) (frame : f = .file (.rename p n r strict)) (cache : w'.cache = w.cache)
    (disk : w.disk.rename r.obj.subdir (tmpName p n) r.obj.file = some w'.disk)
    (lock : w'.lock = w.lock) (counter : w'.counter = w.counter) :
    Change self o f w w' (.issues r false) (.issues r true)
  | unlink (ob) (frame : f = .file (.unlink ob)) (cache : w'.cache = w.cache)
    (disk : w'.disk = w.disk.unlink ob.subdir ob.file) (lock : w'.lock = w.lock)
    (counter : w'.counter = w.counter) : Change self o f w w' (.removes ob) .none
  | keep (ob) (frame : f = .file (.unlink ob)) (why : o.fault.isSome)
    (cache : w'.cache = w.cache) (disk : w'.disk = w.disk) (lock : w'.lock = w.lock) (counter : w'.counter = w.counter) :
    Change self o f w w' (.removes ob) .none
  | update (r) (free : w.lock = none) (present : Replaces w.cache r)
    (cache : w'.cache = w.cache.put r) (disk : w'.disk = w.disk) (lock : w'.lock = w.lock)
    (counter : w'.counter = w.counter) : Change self o f w w' .none (.persists r false)
  | land (r) (free : w.lock = none) (present : Replaces w.cache r)
    (cache : w'.cache = w.cache.put r) (disk : w'.disk = w.disk) (lock : w'.lock = some self)
    (counter : w'.counter = w.counter) : Change self o f w w' .none (.persists r true)
  | release (cache : w'.cache = w.cache) (disk : w'.disk = w.disk) (lock : w'.lock = none)
    (counter : w'.counter = w.counter) : Change self o f w w' .releases .none
  | insert (r) (free : w.lock = none) (frame : f = .crit r.insert)
    (cache : w'.cache = w.cache.put r) (disk : w'.disk = w.disk) (lock : w'.lock = w.lock)
    (counter : w'.counter = w.counter) : Change self o f w w' (.issues r true) .none
  | drop (ob) (free : w.lock = none)
    (crit : f = .crit (ob.dropped))
    (cache : w'.cache = w.cache.erase ob) (disk : w'.disk = w.disk) (lock : w'.lock = w.lock)
    (counter : w'.counter = w.counter) : Change self o f w w' .none (.removes ob)
  | issue (r) (new : NewObj w w' r) (cache : w'.cache = w.cache) (disk : w'.disk = w.disk)
    (lock : w'.lock = w.lock) : Change self o f w w' .none (.issues r false)

/-! ## Critical sections -/

/-- What a critical section that does not insert does: it decides how to go on, or refuses, or
updates or drops a record and goes on with its file. -/
inductive CritStep (self : Nat) (c : Crit) (w w' : World) : Out → Prop
  | decide (fs) (plain : ∀ f ∈ fs, Frame.plain f)
    (objs : ∀ f ∈ fs, ∀ ob, f.obj = some ob → ob.minted → (w.cache.get ob).isSome)
    (same : w' = w) : CritStep self c w w' (.next fs)
  | refuse (e) (same : w' = w) : CritStep self c w w' (.halt (.error e))
  | update (r strict) (present : Replaces w.cache r)
    (change : w' = { w with cache := w.cache.put r }) :
    CritStep self c w w' (.next [.file (.write r strict)])
  | land (r) (present : Replaces w.cache r)
    (change : w' = { w with cache := w.cache.put r, lock := some self }) :
    CritStep self c w w' (.next [.file (.write r false), .unlock])
  | dropIo (id) (crit : c = .dropContainer id)
    (change : w' = { w with cache := w.cache.erase (.container id) }) :
    CritStep self c w w' (.next [.sys (.removeIo id), .file (.unlink (.container id))])
  | drop (ob) (crit : c = ob.dropped)
    (present : ob.minted → (w.cache.get ob).isSome)
    (change : w' = { w with cache := w.cache.erase ob }) :
    CritStep self c w w' (.next [.file (.unlink ob)])

theorem plain_cascade (ids : List ContainerId) : ∀ f ∈ cascade ids, f.plain ∧ f.obj = .none := by
  intro f hf
  obtain ⟨id, -, hf⟩ := List.mem_flatMap.mp hf
  simp only [List.mem_cons, List.not_mem_nil, or_false] at hf
  rcases hf with rfl | rfl <;> exact ⟨rfl, rfl⟩

/-- The cached record of a container is replaced by another one of the same id. -/
theorem CritStep.of_update {self : Nat} {c : Crit} {w : World} {id : ContainerId}
    {r r' : ContainerRecord} (hk : w.cache.Keyed) (hr : w.cache.containers[id]? = some r)
    (hid : r'.id = r.id) (hsb : r.sandbox = r'.sandbox) (strict : Bool) :
    CritStep self c w (w.setContainer id r') (.next [.file (.write (.container r') strict)]) := by
  have hid' : r'.id = id := hid.trans (hk.container hr)
  refine .update (.container r') strict ⟨.container r, ?_, congrArg some hsb⟩ ?_
  · rw [DiskRecord.obj_container, hid', Cache.get_container_eq_some hr]
  · rw [World.setContainer, ← hid']
    rfl

theorem Crit.exec_step (self : Nat) (o : Oracle) (w : World) (c : Crit) (hk : w.cache.Keyed)
    (hp : (Frame.crit c).plain) :
    CritStep self c w (c.exec self o w).1 (c.exec self o w).2 := by
  cases c with
  | insertSandbox r => cases hp
  | insertContainer r => cases hp
  | insertImage r => cases hp
  | stopSandbox id =>
    simp only [Crit.exec]
    split
    · exact .decide [] (by simp) (by simp) rfl
    · rename_i r hr
      split
      · exact .decide [] (by simp) (by simp) rfl
      · refine .update (.sandbox { r with state := .notReady }) true ⟨.sandbox r, ?_, rfl⟩ ?_
        · rw [DiskRecord.obj_sandbox, hk.sandbox hr, Cache.get_sandbox_eq_some hr]
        · rw [← hk.sandbox hr]
          rfl
  | collectContainers id =>
    simp only [Crit.exec]
    split
    · exact .decide [] (by simp) (by simp) rfl
    · have hfs : ∀ f ∈ cascade (w.cache.containersOf id) ++ [Frame.crit (.deleteSandbox id)],
          f.plain ∧ f.obj = .none := by
        intro f hf
        rcases List.mem_append.mp hf with hf | hf
        · exact plain_cascade _ f hf
        · rw [List.mem_singleton.mp hf]
          exact ⟨rfl, rfl⟩
      exact .decide _ (fun f hf => (hfs f hf).1) (fun f hf => by simp [(hfs f hf).2]) rfl
  | deleteSandbox id =>
    simp only [Crit.exec]
    split
    · exact .decide [] (by simp) (by simp) rfl
    · rename_i r hr
      refine .drop (.sandbox id) rfl (fun _ => ?_) rfl
      rw [Cache.get_sandbox_eq_some hr]
      rfl
  | createContainer sb cfg =>
    simp only [Crit.exec]
    split
    · exact .refuse _ rfl
    · split
      · exact .decide _ (by simp [Frame.plain]) (by simp [Frame.obj]) rfl
      · exact .refuse _ rfl
  | startContainer id =>
    simp only [Crit.exec]
    split
    · exact .refuse _ rfl
    · split
      · exact .decide _ (by simp [Frame.plain]) (by simp [Frame.obj]) rfl
      · exact .refuse _ rfl
  | fetchSandbox id r => exact .decide _ (by simp [Frame.plain]) (by simp [Frame.obj]) rfl
  | startIntent id =>
    simp only [Crit.exec]
    split
    · exact .refuse _ rfl
    · rename_i r hr
      refine .of_update hk hr ?_ ?_ true <;> rfl
  | spawnFailed id e =>
    simp only [Crit.exec]
    split
    · exact .decide [] (by simp) (by simp) rfl
    · rename_i r hr
      refine .of_update hk hr ?_ ?_ false <;> rfl
  | persistPid id pid =>
    simp only [Crit.exec]
    split
    · exact .refuse _ rfl
    · rename_i r hr
      refine .of_update hk hr ?_ ?_ true <;> rfl
  | stopContainer id grace =>
    simp only [Crit.exec]
    repeat' split
    all_goals exact .decide _ (by simp [Frame.plain]) (by simp [Frame.obj]) rfl
  | waitGrace id pid =>
    simp only [Crit.exec]
    repeat' split
    all_goals exact .decide _ (by simp [Frame.plain]) (by simp [Frame.obj]) rfl
  | waitKilled id =>
    simp only [Crit.exec]
    repeat' split
    all_goals exact .decide _ (by simp [Frame.plain]) (by simp [Frame.obj]) rfl
  | recordStopped id grace =>
    simp only [Crit.exec]
    split
    · exact .decide [] (by simp) (by simp) rfl
    · rename_i r hr
      split
      · refine .of_update hk hr ?_ ?_ true <;> rfl
      · exact .decide [] (by simp) (by simp) rfl
  | removeContainer id =>
    simp only [Crit.exec]
    split
    · exact .decide [] (by simp) (by simp) rfl
    · rename_i r hr
      have hpresent : (w.cache.get (.container id)).isSome := by
        rw [Cache.get_container_eq_some hr]
        rfl
      split <;> exact .decide _ (by simp [Frame.plain]) (by simp [Frame.obj, hpresent]) rfl
  | dropContainer id => exact .dropIo id rfl rfl
  | findImage ref =>
    simp only [Crit.exec]
    split <;> exact .decide _ (by simp [Frame.plain]) (by simp [Frame.obj]) rfl
  | checkImageInUse ref imgId =>
    simp only [Crit.exec]
    split
    · exact .decide _ (by simp [Frame.plain]) (by simp [Frame.obj, Obj.minted]) rfl
    · exact .refuse _ rfl
  | dropImage imgId => exact .drop (.image imgId) rfl (by simp [Obj.minted]) rfl
  | reap id t st =>
    simp only [Crit.exec]
    split
    · exact .decide [] (by simp) (by simp) rfl
    · rename_i r hr
      split
      · have hid : r.id = id := hk.container hr
        refine .land (.container (r.toExited t (terminal st).1 (terminal st).2))
          ⟨.container r, ?_, rfl⟩ ?_
        · have : (r.toExited t (terminal st).1 (terminal st).2).id = id := hid
          rw [DiskRecord.obj_container, this, Cache.get_container_eq_some hr]
        · rw [← hid]
          rfl
      · exact .decide [] (by simp) (by simp) rfl

/-! ## Actions outside the lock -/

/-- The frames an outcome pushes are plain and change nothing by themselves. -/
def PlainOut (out : Out) : Prop := ∀ f ∈ out.pushed, f.plain ∧ f.obj = .none

/-- The cache, the files and the lock are as they were. -/
structure SameFiles (w w' : World) : Prop where
  cache : w'.cache = w.cache
  disk : w'.disk = w.disk
  lock : w'.lock = w.lock
  counter : w.counter ≤ w'.counter

theorem SameFiles.refl (w : World) : SameFiles w w := ⟨rfl, rfl, rfl, Nat.le_refl _⟩

/-- What an action outside the lock does: it leaves records alone, or begins a new one. -/
inductive SysStep (w w' : World) : Out → Prop
  | quiet (out) (plain : PlainOut out) (same : SameFiles w w') : SysStep w w' out
  | issue (r v) (new : NewObj w w' r) (cache : w'.cache = w.cache) (disk : w'.disk = w.disk)
    (lock : w'.lock = w.lock) :
    SysStep w w' (.next [.file (.write r true), .crit r.insert, .ret v])

theorem Sys.exec_step {o : Oracle} {w w' : World} {out : Out} {s : Sys}
    (h : s.exec o w = some (w', out)) : SysStep w w' out := by
  cases s with
  | runSandbox cfg =>
    simp only [Sys.exec] at h
    split at h <;> obtain ⟨rfl, rfl⟩ := Prod.mk.inj (Option.some.inj h)
    · exact .quiet _ (by simp [PlainOut, Outcome.pushed]) ⟨rfl, rfl, rfl, Nat.le_succ _⟩
    · exact .issue (.sandbox _) _ ⟨rfl, o.clock, rfl⟩ rfl rfl rfl
  | newContainer sb cfg =>
    obtain ⟨rfl, rfl⟩ := Prod.mk.inj (Option.some.inj h)
    exact .issue (.container _) _ ⟨rfl, o.clock, rfl⟩ rfl rfl rfl
  | prepare id r info =>
    simp only [Sys.exec] at h
    split at h <;> split at h <;> obtain ⟨rfl, rfl⟩ := Prod.mk.inj (Option.some.inj h)
    all_goals exact .quiet _ (by simp [PlainOut, Outcome.pushed, Frame.plain, Frame.obj]) ⟨rfl, rfl, rfl, Nat.le_refl _⟩
  | spawn id io =>
    simp only [Sys.exec] at h
    split at h
    · obtain ⟨rfl, rfl⟩ := Prod.mk.inj (Option.some.inj h)
      exact .quiet _ (by simp [PlainOut, Outcome.pushed, Frame.plain, Frame.obj]) (SameFiles.refl w)
    · split at h
      · obtain ⟨rfl, rfl⟩ := Prod.mk.inj (Option.some.inj h)
        refine .quiet _ ?_ ⟨rfl, rfl, rfl, Nat.le_refl _⟩
        split <;> simp [PlainOut, Outcome.pushed, Frame.plain, Frame.obj]
      · simp at h
  | dupPipes =>
    simp only [Sys.exec] at h
    split at h <;> obtain ⟨rfl, rfl⟩ := Prod.mk.inj (Option.some.inj h)
    all_goals exact .quiet _ (by simp [PlainOut, Outcome.pushed]) (SameFiles.refl w)
  | insertIo id io =>
    obtain ⟨rfl, rfl⟩ := Prod.mk.inj (Option.some.inj h)
    exact .quiet _ (by simp [PlainOut, Outcome.pushed]) ⟨rfl, rfl, rfl, Nat.le_refl _⟩
  | spawnReaper id q =>
    obtain ⟨rfl, rfl⟩ := Prod.mk.inj (Option.some.inj h)
    exact .quiet _ (by simp [PlainOut, Outcome.pushed]) (SameFiles.refl w)
  | kill pid sig =>
    obtain ⟨rfl, rfl⟩ := Prod.mk.inj (Option.some.inj h)
    exact .quiet _ (by simp [PlainOut, Outcome.pushed]) ⟨rfl, rfl, rfl, Nat.le_refl _⟩
  | wait id q =>
    simp only [Sys.exec] at h
    split at h
    · simp at h
    · split at h
      · obtain ⟨rfl, rfl⟩ := Prod.mk.inj (Option.some.inj h)
        exact .quiet _ (by simp [PlainOut, Outcome.pushed, Frame.plain, Frame.obj]) ⟨rfl, rfl, rfl, Nat.le_refl _⟩
      · simp at h
  | removeIo id =>
    obtain ⟨rfl, rfl⟩ := Prod.mk.inj (Option.some.inj h)
    exact .quiet _ (by simp [PlainOut, Outcome.pushed]) ⟨rfl, rfl, rfl, Nat.le_refl _⟩
  | pullImage ref =>
    simp only [Sys.exec] at h
    split at h <;> obtain ⟨rfl, rfl⟩ := Prod.mk.inj (Option.some.inj h)
    · exact .quiet _ (by simp [PlainOut, Outcome.pushed]) (SameFiles.refl w)
    · exact .issue (.image _) _ ⟨rfl, ref, rfl⟩ rfl rfl rfl

/-! ## Steps -/

theorem exec_insert (self : Nat) (o : Oracle) (r : DiskRecord) (w : World) :
    r.insert.exec self o w = ({ w with cache := w.cache.put r }, .next []) := by
  cases r <;> rfl

/-- What a pushed outcome leaves on a stack that was plain. -/
theorem Stack.of_pushed {t : Thread} {k : List Frame} {out : Out} (hout : ∀ f ∈ out.pushed, f.plain)
    (hk : ∀ f ∈ k, f.plain) : Stack .none (t.resume k out).frames :=
  .plain _ fun f hf => (Task.mem_resume hf).elim (hout f) (hk f)

theorem Stack.of_next_nil {t : Thread} {k : List Frame} (hk : ∀ f ∈ k, f.plain) :
    Stack .none (t.resume k (.next [])).frames :=
  .plain k hk

theorem Stack.of_ioError {t : Thread} {k : List Frame} (strict : Bool) (e : String)
    (hk : ∀ f ∈ k, f.plain) : Stack .none (t.resume k (ioError strict e)).frames :=
  .of_pushed (by simp [pushed_ioError]) hk

/-- The steps of a plain stack. -/
theorem Stack.step_plain {t : Thread} {f : Frame} {k : List Frame} {self n : Nat} {o : Oracle}
    {w w' : World} {out : Out} (hf : f.plain) (hk : ∀ g ∈ k, g.plain) (hkey : w.cache.Keyed)
    (hex : exec self n o f w = some (w', out)) :
    ∃ d', Stack d' (t.resume k out).frames ∧ Change self o f w w' .none d' := by
  cases f with
  | crit c =>
    obtain ⟨hfree, hex⟩ := exec_crit_eq_some.mp hex
    have h : CritStep self c w w' out := by
      simpa only [hex] using c.exec_step self o w hkey hf
    cases h with
    | decide fs plain _ same =>
      subst same
      exact ⟨_, .of_pushed plain hk, .quiet _ rfl rfl rfl (Nat.le_refl _)⟩
    | refuse e same =>
      subst same
      exact ⟨_, .of_pushed (by simp [Outcome.pushed]) hk, .quiet _ rfl rfl rfl (Nat.le_refl _)⟩
    | update r strict present change =>
      subst change
      exact ⟨_, .write r strict k hk, .update r hfree present rfl rfl rfl rfl⟩
    | land r present change =>
      subst change
      exact ⟨_, .landWrite r k hk, .land r hfree present rfl rfl rfl rfl⟩
    | dropIo id crit change =>
      subst change crit
      exact ⟨_, .removeIo id _ k hk, .drop _ hfree rfl rfl rfl rfl rfl⟩
    | drop ob crit _ change =>
      subst change crit
      exact ⟨_, .unlink ob k hk, .drop ob hfree rfl rfl rfl rfl rfl⟩
  | file g => cases hf
  | sys s =>
    cases s.exec_step hex with
    | quiet out plain same =>
      exact ⟨_, .of_pushed (fun g hg => (plain g hg).1) hk, .quiet _ same.cache same.disk same.lock same.counter⟩
    | issue r v new cache disk lock =>
      exact ⟨_, .issueWrite r (.ret v :: k) (by simpa [Frame.plain] using hk),
        .issue r new cache disk lock⟩
  | unlock => cases hf
  | ret v =>
    obtain ⟨rfl, rfl⟩ := Prod.mk.inj (Option.some.inj hex)
    exact ⟨_, .of_pushed (by simp [Outcome.pushed]) hk, .quiet _ rfl rfl rfl (Nat.le_refl _)⟩
  | fail e =>
    obtain ⟨rfl, rfl⟩ := Prod.mk.inj (Option.some.inj hex)
    exact ⟨_, .of_pushed (by simp [Outcome.pushed]) hk, .quiet _ rfl rfl rfl (Nat.le_refl _)⟩

/-- **Every step of every task is a change.** -/
theorem Stack.step {d : Duty} {t : Thread} {f : Frame} {k : List Frame} {self n : Nat}
    {o : Oracle} {w w' : World} {out : Out} (h : Stack d t.frames) (hf : t.frames = f :: k)
    (hkey : w.cache.Keyed) (hex : exec self n o f w = some (w', out)) :
    ∃ d', Stack d' (t.resume k out).frames ∧ Change self o f w w' d d' := by
  rw [hf] at h
  cases h with
  | plain _ hk =>
    exact Stack.step_plain (hk f List.mem_cons_self) (fun g hg => hk g (List.mem_cons_of_mem _ hg))
      hkey hex
  | write r strict _ hk =>
    obtain ⟨hw, hout⟩ := exec_file_eq_some.mp hex
    have heq := FileOp.exec_eq o w (.write r strict)
    rcases FileOp.exec_write_cases o w r strict with ⟨hd, he⟩ | ⟨hfault, hd, e, he⟩ <;>
      rw [hw] at heq hd <;> rw [← hout, he]
    · exact ⟨_, .rename _ _ r strict k hk, .write _ _ _ _ _ (by rw [heq]) hd (by rw [heq])
        (by rw [heq])⟩
    · exact ⟨_, .of_ioError strict e hk, .abandon _ r (Or.inl ⟨_, rfl⟩) rfl (Or.inl ⟨hfault, _, rfl⟩)
        (by rw [heq]) (hd.imp_right fun h => ⟨_, _, _, _, h⟩) (by rw [heq]) (by rw [heq])⟩
  | rename p m r strict _ hk =>
    obtain ⟨hw, hout⟩ := exec_file_eq_some.mp hex
    have heq := FileOp.exec_eq o w (.rename p m r strict)
    rcases FileOp.exec_rename_cases o w p m r strict with ⟨hd, he⟩ | ⟨hlost, hd, e, he⟩ <;>
      rw [hw] at heq hd <;> rw [← hout, he]
    · exact ⟨_, .of_next_nil hk,
        .rename p m r strict false rfl (by rw [heq]) hd (by rw [heq]) (by rw [heq])⟩
    · exact ⟨_, .of_ioError strict e hk, .abandon _ r (Or.inl ⟨_, rfl⟩) rfl hlost
        (by rw [heq]) (Or.inl hd) (by rw [heq]) (by rw [heq])⟩
  | landWrite r k hk =>
    obtain ⟨hw, hout⟩ := exec_file_eq_some.mp hex
    have heq := FileOp.exec_eq o w (.write r false)
    rcases FileOp.exec_write_cases o w r false with ⟨hd, he⟩ | ⟨hfault, hd, e, he⟩ <;>
      rw [hw] at heq hd <;> rw [← hout, he]
    · exact ⟨_, .landRename _ _ r k hk, .write _ _ _ _ _ (by rw [heq]) hd (by rw [heq])
        (by rw [heq])⟩
    · exact ⟨_, .unlock k hk, .abandon _ r (Or.inl ⟨_, rfl⟩) rfl (Or.inl ⟨hfault, _, rfl⟩)
        (by rw [heq]) (hd.imp_right fun h => ⟨_, _, _, _, h⟩) (by rw [heq]) (by rw [heq])⟩
  | landRename p m r k hk =>
    obtain ⟨hw, hout⟩ := exec_file_eq_some.mp hex
    have heq := FileOp.exec_eq o w (.rename p m r false)
    rcases FileOp.exec_rename_cases o w p m r false with ⟨hd, he⟩ | ⟨hlost, hd, e, he⟩ <;>
      rw [hw] at heq hd <;> rw [← hout, he]
    · exact ⟨_, .unlock k hk,
        .rename p m r false true rfl (by rw [heq]) hd (by rw [heq]) (by rw [heq])⟩
    · exact ⟨_, .unlock k hk, .abandon _ r (Or.inl ⟨_, rfl⟩) rfl hlost
        (by rw [heq]) (Or.inl hd) (by rw [heq]) (by rw [heq])⟩
  | unlock _ hk =>
    obtain ⟨rfl, rfl⟩ := Prod.mk.inj (Option.some.inj hex)
    exact ⟨_, .of_next_nil hk, .release rfl rfl rfl rfl⟩
  | removeIo id ob k hk =>
    obtain ⟨rfl, rfl⟩ := Prod.mk.inj (Option.some.inj hex)
    exact ⟨_, .unlink ob k hk, .quiet _ rfl rfl rfl (Nat.le_refl _)⟩
  | unlink ob _ hk =>
    obtain ⟨hw, hout⟩ := exec_file_eq_some.mp hex
    simp only [FileOp.exec] at hw hout
    cases hfault : o.fault with
    | none =>
      rw [hfault] at hw hout
      subst hw hout
      exact ⟨_, .of_next_nil hk, .unlink ob rfl rfl rfl rfl rfl⟩
    | some e =>
      rw [hfault] at hw hout
      subst hw hout
      exact ⟨_, .of_next_nil hk,
        .keep ob rfl (by rw [hfault]; rfl) rfl rfl rfl rfl⟩
  | issueWrite r k hk =>
    obtain ⟨hw, hout⟩ := exec_file_eq_some.mp hex
    have heq := FileOp.exec_eq o w (.write r true)
    rcases FileOp.exec_write_cases o w r true with ⟨hd, he⟩ | ⟨hfault, hd, e, he⟩ <;>
      rw [hw] at heq hd <;> rw [← hout, he]
    · exact ⟨_, .issueRename _ _ r k hk, .write _ _ _ _ _ (by rw [heq]) hd (by rw [heq])
        (by rw [heq])⟩
    · exact ⟨_, .plain [] (by simp), .abandon _ r (Or.inr rfl) rfl (Or.inl ⟨hfault, _, rfl⟩)
        (by rw [heq]) (hd.imp_right fun h => ⟨_, _, _, _, h⟩) (by rw [heq]) (by rw [heq])⟩
  | issueRename p m r k hk =>
    obtain ⟨hw, hout⟩ := exec_file_eq_some.mp hex
    have heq := FileOp.exec_eq o w (.rename p m r true)
    rcases FileOp.exec_rename_cases o w p m r true with ⟨hd, he⟩ | ⟨hlost, hd, e, he⟩ <;>
      rw [hw] at heq hd <;> rw [← hout, he]
    · exact ⟨_, .insert r k hk, .store p m r true rfl (by rw [heq]) hd (by rw [heq]) (by rw [heq])⟩
    · exact ⟨_, .plain [] (by simp), .abandon _ r (Or.inr rfl) rfl hlost
        (by rw [heq]) (Or.inl hd) (by rw [heq]) (by rw [heq])⟩
  | insert r _ hk =>
    obtain ⟨hfree, hex⟩ := exec_crit_eq_some.mp hex
    rw [exec_insert] at hex
    obtain ⟨rfl, rfl⟩ := Prod.mk.inj hex
    exact ⟨_, .of_next_nil hk,
      .insert r hfree rfl rfl rfl rfl rfl⟩

/-- The objects of the frames a step pushes: those of its own frame, cached ones, and a new
one. -/
theorem exec_objs {f : Frame} {self n : Nat} {o : Oracle} {w w' : World} {out : Out}
    (hkey : w.cache.Keyed) (hex : exec self n o f w = some (w', out)) {g : Frame}
    (hg : g ∈ out.pushed) {ob : Obj} (hob : g.obj = some ob) (hm : ob.minted) :
    f.obj = some ob ∨ (w.cache.get ob).isSome ∨ ∃ r, r.obj = ob ∧ NewObj w w' r := by
  cases f with
  | crit c =>
    obtain ⟨hfree, hex⟩ := exec_crit_eq_some.mp hex
    by_cases hp : (Frame.crit c).plain
    · have h : CritStep self c w w' out := by
        simpa only [hex] using c.exec_step self o w hkey hp
      cases h with
      | decide fs _ objs _ => exact Or.inr (Or.inl (objs g hg ob hob hm))
      | refuse e same => simp [Outcome.pushed] at hg
      | update r strict present _ =>
        obtain rfl := List.mem_singleton.mp hg
        obtain rfl := Option.some.inj hob
        exact Or.inr (Or.inl present.isSome)
      | land r present _ =>
        simp only [Outcome.pushed, List.mem_cons, List.not_mem_nil, or_false] at hg
        rcases hg with rfl | rfl
        · obtain rfl := Option.some.inj hob
          exact Or.inr (Or.inl present.isSome)
        · simp [Frame.obj] at hob
      | dropIo id crit _ =>
        simp only [Outcome.pushed, List.mem_cons, List.not_mem_nil, or_false] at hg
        rcases hg with rfl | rfl
        · simp [Frame.obj] at hob
        · rw [crit]
          exact Or.inl hob
      | drop ob' _ present _ =>
        obtain rfl := List.mem_singleton.mp hg
        obtain rfl := Option.some.inj hob
        exact Or.inr (Or.inl (present hm))
    · cases c <;> first
        | exact absurd rfl hp
        | (obtain ⟨-, rfl⟩ := Prod.mk.inj hex; simp [Outcome.pushed] at hg)
  | file h =>
    obtain ⟨-, hout⟩ := exec_file_eq_some.mp hex
    cases h with
    | write r strict =>
      rcases FileOp.exec_write_cases o w r strict with ⟨-, he⟩ | ⟨-, -, e, he⟩ <;>
        rw [← hout, he] at hg
      · obtain rfl := List.mem_singleton.mp hg
        exact Or.inl hob
      · simp [pushed_ioError] at hg
    | rename p m r strict =>
      rcases FileOp.exec_rename_cases o w p m r strict with ⟨-, he⟩ | ⟨-, -, e, he⟩ <;>
        rw [← hout, he] at hg
      · simp [Outcome.pushed] at hg
      · simp [pushed_ioError] at hg
    | unlink ob' =>
      simp only [FileOp.exec] at hout
      split at hout <;> subst hout <;> simp [Outcome.pushed] at hg
  | sys s =>
    cases s.exec_step hex with
    | quiet _ plain _ => simp [(plain g hg).2] at hob
    | issue r v new _ _ _ =>
      simp only [Outcome.pushed, List.mem_cons, List.not_mem_nil, or_false] at hg
      rcases hg with rfl | rfl | rfl
      · exact Or.inr (Or.inr ⟨r, Option.some.inj hob, new⟩)
      · rw [obj_insert] at hob
        exact Or.inr (Or.inr ⟨r, Option.some.inj hob, new⟩)
      · simp [Frame.obj] at hob
  | unlock | ret v | fail e =>
    obtain ⟨-, rfl⟩ := Prod.mk.inj (Option.some.inj hex)
    simp [Outcome.pushed] at hg

end LightrCri.Fake

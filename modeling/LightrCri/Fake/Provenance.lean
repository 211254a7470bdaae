import LightrCri.Fake.Duty
import LightrCri.Fake.Reopen

/-!
# Where records come from

A record is known if it is in the cache, in a file, a temporary one included, or held by a frame of
a task (`Known`). The one rule of this module is `known_step`: a record that is known after a step
was known before it, or the step has made it of a request or of a cached record (`Makes`), or `open`
has corrected it. A property of records that `Makes` and `recover` keep is a property of every
record the backend ever shows, writes or reads back.
-/

namespace LightrCri.Fake

open Backend Foundations

/-- The records that a frame holds. -/
def Frame.records : Frame → List DiskRecord
  | .crit (.insertSandbox r) => [.sandbox r]
  | .crit (.insertContainer r) => [.container r]
  | .crit (.insertImage r) => [.image r]
  | .crit (.fetchSandbox _ r) => [.container r]
  | .file (.write r _) => [r]
  | .file (.rename _ _ r _) => [r]
  | .sys (.prepare _ r _) => [.container r]
  | _ => []

/-- The record is in the cache, in a file, or held by a frame. -/
inductive Known (s : State) (r : DiskRecord) : Prop
  | cached (ob) (get : s.shared.cache.get ob = some r)
  | stored (sub name) (read : s.shared.disk.read sub name = some (.whole r))
  | carried (t f) (task : t ∈ s.tasks) (frame : f ∈ t.frames) (record : r ∈ f.records)

/-- The new record that the execution of a frame makes of a request. -/
def Frame.born (o : Oracle) (w : World) : Frame → Option DiskRecord
  | .sys (.runSandbox cfg) =>
    let net : Option (Option String × Option String) :=
      if cfg.hostNetwork then some (none, none)
      else
        match o.cni with
        | none => some (none, none)
        | some (.ok (ip, ns)) => some (ip, some ns)
        | some (.error _) => none
    net.map fun n => .sandbox ⟨⟨newId "sb-" o.clock w.counter⟩, cfg, .ready, o.stamp, n.1, n.2⟩
  | .sys (.newContainer sb cfg) =>
    some (.container
      ⟨⟨newId "ct-" o.clock w.counter⟩, sb, cfg, .created, o.stamp, 0, 0, 0, "", "", 0⟩)
  | .sys (.pullImage ref) =>
    if ref = "" ∨ ref.toList.any isAsciiWhitespace then none
    else some (.image (imageRecord w.blake3 ref))
  | _ => none

/-- The records that the execution of a frame makes: a new one of a request, or a cached one with
fields replaced. -/
inductive Makes (o : Oracle) (w : World) : Frame → DiskRecord → Prop
  | born (f r) (new : f.born o w = some r) : Makes o w f r
  | stopSandbox (id r) (cached : w.cache.sandboxes[id]? = some r) :
    Makes o w (.crit (.stopSandbox id)) (.sandbox { r with state := .notReady })
  | startIntent (id r) (cached : w.cache.containers[id]? = some r) :
    Makes o w (.crit (.startIntent id)) (.container { r with
      state := .running, startedAtNanos := o.clock, pid := 0, reason := "starting" })
  | spawnFailed (id e r) (cached : w.cache.containers[id]? = some r) :
    Makes o w (.crit (.spawnFailed id e))
      (.container { r.toExited o.clock (-1) "spawn-failed" with message := e })
  | persistPid (id pid r) (cached : w.cache.containers[id]? = some r) :
    Makes o w (.crit (.persistPid id pid)) (.container { r with pid := pid, reason := "" })
  | recordStopped (id grace r) (cached : w.cache.containers[id]? = some r)
    (running : r.state = .running) : Makes o w (.crit (.recordStopped id grace))
      (.container (r.toExited o.clock (if 0 < grace then 128 + 15 else 128 + 9) "stopped"))
  | reap (id finishedAt status r) (cached : w.cache.containers[id]? = some r)
    (running : r.state = .running) : Makes o w (.crit (.reap id finishedAt status))
      (.container (r.toExited finishedAt (terminal status).1 (terminal status).2))

variable {self n : Nat} {o : Oracle} {w w' : World} {out : Out} {f : Frame} {r : DiskRecord}

/-! ## A step of a task -/

/-- A record that is put into the cache by its own id. -/
theorem get_setContainer_cases {c : Cache} {id : ContainerId} {r₀ : ContainerRecord} {ob : Obj}
    (h : (c.setContainer id r₀).get ob = some r) : r = .container r₀ ∨ c.get ob = some r := by
  rw [Cache.get_setContainer] at h
  split at h
  · exact .inl (Option.some.inj h).symm
  · exact .inr h

theorem get_setSandbox_cases {c : Cache} {id : SandboxId} {r₀ : SandboxRecord} {ob : Obj}
    (h : (c.setSandbox id r₀).get ob = some r) : r = .sandbox r₀ ∨ c.get ob = some r := by
  rw [Cache.get_setSandbox] at h
  split at h
  · exact .inl (Option.some.inj h).symm
  · exact .inr h

theorem get_erase_some {c : Cache} {ob o : Obj} (h : (c.erase o).get ob = some r) :
    c.get ob = some r := by
  rw [Cache.get_erase] at h
  split at h
  · cases h
  · exact h

/-- What a step leaves in the cache and goes on with, of the records there were and of those that
it makes. -/
structure Derives (o : Oracle) (f : Frame) (w w' : World) (out : Out) : Prop where
  cached : ∀ ob r, w'.cache.get ob = some r →
    w.cache.get ob = some r ∨ r ∈ f.records ∨ Makes o w f r
  carried : ∀ g ∈ out.pushed, ∀ r ∈ g.records,
    (∃ ob, w.cache.get ob = some r) ∨ r ∈ f.records ∨ Makes o w f r

/-- A step that leaves the cache as it is or drops from it, and goes on with frames without
records. -/
theorem Derives.of_empty (hc : ∀ ob r, w'.cache.get ob = some r → w.cache.get ob = some r)
    (hfs : ∀ g ∈ out.pushed, g.records = []) : Derives o f w w' out where
  cached ob r h := .inl (hc ob r h)
  carried g hg r hr := by
    rw [hfs g hg] at hr
    cases hr

/-- A step that updates the record of a container and goes on with its file. -/
theorem Derives.of_container {id : ContainerId} {r₀ : ContainerRecord}
    (hc : w'.cache = w.cache.setContainer id r₀) (hm : Makes o w f (.container r₀))
    (hfs : ∀ g ∈ out.pushed, ∀ r ∈ g.records, r = .container r₀) : Derives o f w w' out where
  cached ob r h := by
    rw [hc] at h
    rcases get_setContainer_cases h with rfl | h
    · exact .inr (.inr hm)
    · exact .inl h
  carried g hg r hr := by
    obtain rfl := hfs g hg r hr
    exact .inr (.inr hm)

theorem cascade_records {ids : List ContainerId} {g : Frame} (hg : g ∈ cascade ids) :
    g.records = [] := by
  obtain ⟨id, -, hg⟩ := List.mem_flatMap.mp hg
  simp only [List.mem_cons, List.not_mem_nil, or_false] at hg
  rcases hg with rfl | rfl <;> rfl

theorem Crit.derives {c : Crit} (hex : c.exec self o w = (w', out)) :
    Derives o (.crit c) w w' out := by
  cases c with
  | insertSandbox r₀ =>
    obtain ⟨rfl, rfl⟩ := Prod.mk.inj hex
    refine ⟨fun ob r h => ?_, by simp [Outcome.pushed]⟩
    rcases get_setSandbox_cases h with rfl | h
    · exact .inr (.inl (by simp [Frame.records]))
    · exact .inl h
  | insertContainer r₀ =>
    obtain ⟨rfl, rfl⟩ := Prod.mk.inj hex
    refine ⟨fun ob r h => ?_, by simp [Outcome.pushed]⟩
    rcases get_setContainer_cases h with rfl | h
    · exact .inr (.inl (by simp [Frame.records]))
    · exact .inl h
  | insertImage r₀ =>
    obtain ⟨rfl, rfl⟩ := Prod.mk.inj hex
    refine ⟨fun ob r h => ?_, by simp [Outcome.pushed]⟩
    rw [Cache.get_setImage] at h
    split at h
    · obtain rfl := Option.some.inj h
      exact .inr (.inl (by simp [Frame.records]))
    · exact .inl h
  | stopSandbox id =>
    simp only [Crit.exec] at hex
    split at hex
    · obtain ⟨rfl, rfl⟩ := Prod.mk.inj hex
      exact .of_empty (fun _ _ h => h) (by simp [Outcome.pushed])
    · rename_i r₀ hr₀
      split at hex
      · obtain ⟨rfl, rfl⟩ := Prod.mk.inj hex
        exact .of_empty (fun _ _ h => h) (by simp [Outcome.pushed])
      · obtain ⟨rfl, rfl⟩ := Prod.mk.inj hex
        have hm := Makes.stopSandbox (o := o) id r₀ hr₀
        refine ⟨fun ob r h => ?_, fun g hg r hr => ?_⟩
        · rcases get_setSandbox_cases h with rfl | h
          · exact .inr (.inr hm)
          · exact .inl h
        · obtain rfl := List.mem_singleton.mp hg
          obtain rfl := List.mem_singleton.mp hr
          exact .inr (.inr hm)
  | startContainer id =>
    simp only [Crit.exec] at hex
    split at hex
    · obtain ⟨rfl, rfl⟩ := Prod.mk.inj hex
      exact .of_empty (fun _ _ h => h) (by simp [Outcome.pushed])
    · rename_i r₀ hr₀
      split at hex
      · obtain ⟨rfl, rfl⟩ := Prod.mk.inj hex
        refine ⟨fun _ _ h => .inl h, fun g hg r hr => .inl ⟨.container id, ?_⟩⟩
        obtain rfl := List.mem_singleton.mp hg
        obtain rfl := List.mem_singleton.mp hr
        exact Cache.get_container_eq_some hr₀
      · obtain ⟨rfl, rfl⟩ := Prod.mk.inj hex
        exact .of_empty (fun _ _ h => h) (by simp [Outcome.pushed])
  | fetchSandbox id r₀ =>
    obtain ⟨rfl, rfl⟩ := Prod.mk.inj hex
    refine ⟨fun _ _ h => .inl h, fun g hg r hr => .inr (.inl ?_)⟩
    obtain rfl := List.mem_singleton.mp hg
    exact hr
  | startIntent id =>
    simp only [Crit.exec] at hex
    split at hex
    · obtain ⟨rfl, rfl⟩ := Prod.mk.inj hex
      exact .of_empty (fun _ _ h => h) (by simp [Outcome.pushed])
    · obtain ⟨rfl, rfl⟩ := Prod.mk.inj hex
      exact .of_container rfl (.startIntent id _ ‹_›) (by simp [Outcome.pushed, Frame.records])
  | spawnFailed id e =>
    simp only [Crit.exec] at hex
    split at hex
    · obtain ⟨rfl, rfl⟩ := Prod.mk.inj hex
      exact .of_empty (fun _ _ h => h) (by simp [Outcome.pushed])
    · obtain ⟨rfl, rfl⟩ := Prod.mk.inj hex
      exact .of_container rfl (.spawnFailed id e _ ‹_›) (by simp [Outcome.pushed, Frame.records])
  | persistPid id pid =>
    simp only [Crit.exec] at hex
    split at hex
    · obtain ⟨rfl, rfl⟩ := Prod.mk.inj hex
      exact .of_empty (fun _ _ h => h) (by simp [Outcome.pushed])
    · obtain ⟨rfl, rfl⟩ := Prod.mk.inj hex
      exact .of_container rfl (.persistPid id pid _ ‹_›) (by simp [Outcome.pushed, Frame.records])
  | recordStopped id grace =>
    simp only [Crit.exec] at hex
    split at hex
    · obtain ⟨rfl, rfl⟩ := Prod.mk.inj hex
      exact .of_empty (fun _ _ h => h) (by simp [Outcome.pushed])
    · split at hex
      · obtain ⟨rfl, rfl⟩ := Prod.mk.inj hex
        exact .of_container rfl (.recordStopped id grace _ ‹_› ‹_›)
          (by simp [Outcome.pushed, Frame.records])
      · obtain ⟨rfl, rfl⟩ := Prod.mk.inj hex
        exact .of_empty (fun _ _ h => h) (by simp [Outcome.pushed])
  | reap id finishedAt status =>
    simp only [Crit.exec] at hex
    split at hex
    · obtain ⟨rfl, rfl⟩ := Prod.mk.inj hex
      exact .of_empty (fun _ _ h => h) (by simp [Outcome.pushed])
    · split at hex
      · obtain ⟨rfl, rfl⟩ := Prod.mk.inj hex
        exact .of_container rfl (.reap id finishedAt status _ ‹_› ‹_›)
          (by simp [Outcome.pushed, Frame.records])
      · obtain ⟨rfl, rfl⟩ := Prod.mk.inj hex
        exact .of_empty (fun _ _ h => h) (by simp [Outcome.pushed])
  | deleteSandbox id =>
    simp only [Crit.exec] at hex
    split at hex <;> obtain ⟨rfl, rfl⟩ := Prod.mk.inj hex
    · exact .of_empty (fun _ _ h => h) (by simp [Outcome.pushed])
    · exact .of_empty (fun _ _ h => get_erase_some (o := .sandbox id) h)
        (by simp [Outcome.pushed, Frame.records])
  | dropContainer id =>
    obtain ⟨rfl, rfl⟩ := Prod.mk.inj hex
    exact .of_empty (fun _ _ h => get_erase_some (o := .container id) h)
      (by simp [Outcome.pushed, Frame.records])
  | dropImage id =>
    obtain ⟨rfl, rfl⟩ := Prod.mk.inj hex
    exact .of_empty (fun _ _ h => get_erase_some (o := .image id) h)
      (by simp [Outcome.pushed, Frame.records])
  | collectContainers id =>
    simp only [Crit.exec] at hex
    split at hex <;> obtain ⟨rfl, rfl⟩ := Prod.mk.inj hex
    · exact .of_empty (fun _ _ h => h) (by simp [Outcome.pushed])
    · refine .of_empty (fun _ _ h => h) fun g hg => ?_
      rcases List.mem_append.mp hg with hg | hg
      · exact cascade_records hg
      · obtain rfl := List.mem_singleton.mp hg
        rfl
  | createContainer | stopContainer | waitGrace | waitKilled | removeContainer | findImage
  | checkImageInUse =>
    simp only [Crit.exec] at hex
    repeat' split at hex
    all_goals
      obtain ⟨rfl, rfl⟩ := Prod.mk.inj hex
      exact .of_empty (fun _ _ h => h) (by simp [Outcome.pushed, Frame.records])

/-- A step outside the lock that leaves the cache and goes on with a record that it makes. -/
theorem Derives.of_new {r₀ : DiskRecord} (hc : w'.cache = w.cache) (hm : Makes o w f r₀)
    (hfs : ∀ g ∈ out.pushed, ∀ r ∈ g.records, r = r₀) : Derives o f w w' out where
  cached ob r h := .inl (hc ▸ h)
  carried g hg r hr := by
    obtain rfl := hfs g hg r hr
    exact .inr (.inr hm)

/-- `run_sandbox` fails, or goes on with the record that it makes. -/
theorem exec_runSandbox_born {cfg : SandboxConfig}
    (hex : (Sys.runSandbox cfg).exec o w = some (w', out)) :
    w'.cache = w.cache ∧ ((∃ e, out = .halt (.error e)) ∨
      ∃ r : SandboxRecord, (Frame.sys (.runSandbox cfg)).born o w = some (.sandbox r) ∧
        out = .next [.file (.write (.sandbox r) true), .crit (.insertSandbox r),
          .ret (.sandbox r.id)]) := by
  cases hhost : cfg.hostNetwork with
  | true =>
    simp only [Sys.exec, hhost, if_true] at hex
    obtain ⟨rfl, rfl⟩ := Prod.mk.inj (Option.some.inj hex)
    refine ⟨rfl, .inr ⟨_, ?_, rfl⟩⟩
    simp [Frame.born, hhost]
  | false =>
    rcases hcni : o.cni with _ | e | ⟨ip, ns⟩ <;>
      simp only [Sys.exec, hhost, hcni, Bool.false_eq_true, if_false] at hex <;>
      obtain ⟨rfl, rfl⟩ := Prod.mk.inj (Option.some.inj hex)
    · refine ⟨rfl, .inr ⟨_, ?_, rfl⟩⟩
      simp [Frame.born, hhost, hcni]
    · exact ⟨rfl, .inl ⟨_, rfl⟩⟩
    · refine ⟨rfl, .inr ⟨_, ?_, rfl⟩⟩
      simp [Frame.born, hhost, hcni]

theorem Sys.derives {s : Sys} (hex : s.exec o w = some (w', out)) :
    Derives o (.sys s) w w' out := by
  cases s with
  | runSandbox cfg =>
    obtain ⟨hc, ⟨e, rfl⟩ | ⟨r₀, hnew, rfl⟩⟩ := exec_runSandbox_born hex
    · exact .of_empty (fun _ _ h => hc ▸ h) (by simp [Outcome.pushed])
    · exact .of_new hc (.born _ _ hnew) (by simp [Outcome.pushed, Frame.records])
  | newContainer sb cfg =>
    obtain ⟨rfl, rfl⟩ := Prod.mk.inj (Option.some.inj hex)
    exact .of_new rfl (.born _ _ rfl) (by simp [Outcome.pushed, Frame.records])
  | pullImage ref =>
    simp only [Sys.exec] at hex
    split at hex <;> obtain ⟨rfl, rfl⟩ := Prod.mk.inj (Option.some.inj hex)
    · exact .of_empty (fun _ _ h => h) (by simp [Outcome.pushed])
    · rename_i hvalid
      exact .of_new rfl (.born _ _ (if_neg hvalid)) (by simp [Outcome.pushed, Frame.records])
  | prepare id r₀ info =>
    simp only [Sys.exec] at hex
    have hcache : w'.cache = w.cache := by
      repeat' split at hex
      all_goals
        obtain ⟨rfl, -⟩ := Prod.mk.inj (Option.some.inj hex)
        rfl
    refine .of_empty (fun _ _ h => hcache ▸ h) ?_
    split at hex <;> obtain ⟨-, rfl⟩ := Prod.mk.inj (Option.some.inj hex) <;>
      simp [Outcome.pushed, Frame.records]
  | spawn id io =>
    simp only [Sys.exec] at hex
    split at hex
    · obtain ⟨rfl, rfl⟩ := Prod.mk.inj (Option.some.inj hex)
      exact .of_empty (fun _ _ h => h) (by simp [Outcome.pushed, Frame.records])
    · split at hex
      · obtain ⟨rfl, rfl⟩ := Prod.mk.inj (Option.some.inj hex)
        refine .of_empty (fun _ _ h => h) ?_
        cases io.tty <;> simp [Outcome.pushed, Frame.records]
      · cases hex
  | wait id q =>
    simp only [Sys.exec] at hex
    split at hex
    · cases hex
    · split at hex
      · obtain ⟨rfl, rfl⟩ := Prod.mk.inj (Option.some.inj hex)
        exact .of_empty (fun _ _ h => h) (by simp [Outcome.pushed, Frame.records])
      · cases hex
  | dupPipes =>
    simp only [Sys.exec] at hex
    split at hex <;> obtain ⟨rfl, rfl⟩ := Prod.mk.inj (Option.some.inj hex) <;>
      exact .of_empty (fun _ _ h => h) (by simp [Outcome.pushed])
  | insertIo | spawnReaper | kill | removeIo =>
    obtain ⟨rfl, rfl⟩ := Prod.mk.inj (Option.some.inj hex)
    exact .of_empty (fun _ _ h => h) (by simp [Outcome.pushed])

theorem FileOp.derives (o : Oracle) (w : World) (g : FileOp) :
    Derives o (.file g) w (g.exec o w).1 (g.exec o w).2 where
  cached ob r h := .inl ((FileOp.exec_cache_procs o w g).1 ▸ h)
  carried g' hg' r hr := by
    cases g with
    | write r₀ strict =>
      rcases FileOp.exec_write_cases o w r₀ strict with ⟨-, he⟩ | ⟨-, -, e, he⟩ <;> rw [he] at hg'
      · obtain rfl := List.mem_singleton.mp hg'
        exact .inr (.inl hr)
      · simp [pushed_ioError] at hg'
    | rename p n r₀ strict =>
      rcases FileOp.exec_rename_cases o w p n r₀ strict with ⟨-, he⟩ | ⟨-, -, e, he⟩ <;>
        rw [he] at hg'
      · simp [Outcome.pushed] at hg'
      · simp [pushed_ioError] at hg'
    | unlink ob =>
      simp only [FileOp.exec] at hg'
      split at hg' <;> simp [Outcome.pushed] at hg'

/-- **What a step of a task derives.** -/
theorem exec_derives (hex : exec self n o f w = some (w', out)) : Derives o f w w' out := by
  cases f with
  | crit c => exact Crit.derives (exec_crit_eq_some.mp hex).2
  | file g =>
    obtain ⟨rfl, rfl⟩ := exec_file_eq_some.mp hex
    exact FileOp.derives o w g
  | sys s => exact Sys.derives hex
  | unlock | ret v | fail e =>
    obtain ⟨rfl, rfl⟩ := Prod.mk.inj (Option.some.inj hex)
    exact .of_empty (fun _ _ h => h) (by simp [Outcome.pushed])

/-- A record that a file holds was in a file, or is that of the frame. -/
theorem exec_stored (hex : exec self n o f w = some (w', out)) {sub : Subdir} {name : String}
    (h : w'.disk.read sub name = some (.whole r)) :
    (∃ sub name, w.disk.read sub name = some (.whole r)) ∨ r ∈ f.records := by
  by_cases hf : ∀ g, f ≠ .file g
  · rw [exec_disk hex hf] at h
    exact .inl ⟨sub, name, h⟩
  · push Not at hf
    obtain ⟨g, rfl⟩ := hf
    obtain ⟨rfl, -⟩ := exec_file_eq_some.mp hex
    cases g with
    | write r₀ strict =>
      rcases FileOp.exec_write_cases o w r₀ strict with ⟨hd, -⟩ | ⟨-, hd | hd, -⟩ <;> rw [hd] at h
      · rw [Disk.read_put] at h
        split at h
        · obtain rfl := FileData.whole.inj (Option.some.inj h)
          exact .inr (by simp [Frame.records])
        · exact .inl ⟨sub, name, h⟩
      · exact .inl ⟨sub, name, h⟩
      · rw [Disk.read_put] at h
        split at h
        · cases h
        · exact .inl ⟨sub, name, h⟩
    | rename p n r₀ strict =>
      rcases FileOp.exec_rename_cases o w p n r₀ strict with ⟨hd, -⟩ | ⟨-, hd, -⟩
      · rw [Disk.read_rename hd] at h
        split at h
        · exact .inl ⟨_, _, h⟩
        · split at h
          · cases h
          · exact .inl ⟨sub, name, h⟩
      · rw [hd] at h
        exact .inl ⟨sub, name, h⟩
    | unlink ob =>
      simp only [FileOp.exec] at h
      split at h
      · rw [Disk.read_unlink] at h
        split at h
        · cases h
        · exact .inl ⟨sub, name, h⟩
      · exact .inl ⟨sub, name, h⟩

/-! ## Opening the state root -/

/-- The record is in a file. -/
def OnDisk (d : Disk) (r : DiskRecord) : Prop := ∃ sub name, d.read sub name = some (.whole r)

section Restart

variable {rs : Restart} {d : Disk}

theorem stored_crash (h : OnDisk (rs.crash d) r) : OnDisk d r := by
  unfold Restart.crash at h
  generalize rs.torn = torn at h
  induction torn generalizing d with
  | nil => exact h
  | cons t torn ih =>
    obtain ⟨sub, name, h⟩ := ih h
    rw [Disk.read_put] at h
    split at h
    · cases h
    · exact ⟨sub, name, h⟩

theorem stored_of_listed (hl : rs.Lists d) {sub : Subdir} {e : String × FileData}
    (he : e ∈ rs.listing sub) (hr : e.2.parse = some r) : OnDisk d r := by
  obtain ⟨name, x⟩ := e
  cases x with
  | torn => cases hr
  | whole r' =>
    obtain rfl := Option.some.inj hr
    rw [(hl sub).mem_iff, Std.ExtTreeMap.mem_toList_iff_getElem?_eq_some] at he
    exact stored_crash ⟨sub, name, he⟩

theorem stored_of_entry (hl : rs.Lists d) {α : Type} {parse : DiskRecord → Option α} {a : α}
    {sub : Subdir} {e : String × FileData} (he : e ∈ rs.listing sub)
    (ha : entryRecord parse e = some a) : ∃ r, OnDisk d r ∧ parse r = some a := by
  unfold entryRecord at ha
  split at ha
  · obtain ⟨r, hr, hparse⟩ := Option.bind_eq_some_iff.mp ha
    exact ⟨r, stored_of_listed hl he hr, hparse⟩
  · cases ha

/-- The record is one of a file, or one that `open` has corrected. -/
def Reopened (rs : Restart) (w : World) (r : DiskRecord) : Prop :=
  OnDisk w.disk r ∨ ∃ r₀, OnDisk w.disk (.container r₀) ∧
    r = .container (recover w.procsAlive rs.clock r₀)

theorem cached_restart (hl : rs.Lists w.disk) {ob : Obj}
    (h : (w.restart rs).cache.get ob = some r) : Reopened rs w r := by
  cases ob with
  | sandbox id =>
    obtain ⟨a, ha, rfl⟩ := Option.map_eq_some_iff.mp h
    obtain ⟨e, he, hrec, -⟩ := mem_of_rebuild ha
    obtain ⟨r, hr, hparse⟩ := stored_of_entry hl he hrec
    cases r with
    | sandbox r =>
      obtain rfl := Option.some.inj hparse
      exact .inl hr
    | _ => cases hparse
  | container id =>
    obtain ⟨a, ha, rfl⟩ := Option.map_eq_some_iff.mp h
    obtain ⟨e, he, hrec, -⟩ := mem_of_rebuild ha
    obtain ⟨r, hr, hparse⟩ := stored_of_entry hl he hrec
    obtain ⟨r₀, hr₀, rfl⟩ := Option.map_eq_some_iff.mp hparse
    cases r with
    | container r =>
      obtain rfl := Option.some.inj hr₀
      exact .inr ⟨r, hr, rfl⟩
    | _ => cases hr₀
  | image id =>
    obtain ⟨a, ha, rfl⟩ := Option.map_eq_some_iff.mp h
    obtain ⟨e, he, hrec, -⟩ := mem_of_rebuild ha
    obtain ⟨r, hr, hparse⟩ := stored_of_entry hl he hrec
    cases r with
    | image r =>
      obtain rfl := Option.some.inj hparse
      exact .inl hr
    | _ => cases hparse

theorem stored_atomicWrite {pid nanos : Nat} {r' : DiskRecord}
    (h : OnDisk (d.atomicWrite pid nanos r') r) : OnDisk d r ∨ r = r' := by
  obtain ⟨sub, name, h⟩ := h
  rw [Disk.atomicWrite, Disk.read_put] at h
  split at h
  · exact .inr (FileData.whole.inj (Option.some.inj h)).symm
  · rw [Disk.read_unlink] at h
    split at h
    · cases h
    · rw [Disk.read_put] at h
      split at h
      · exact .inr (FileData.whole.inj (Option.some.inj h)).symm
      · exact .inl ⟨sub, name, h⟩

theorem stored_listedContainers (hl : rs.Lists d) {r₀ : ContainerRecord}
    (h : r₀ ∈ listedContainers (rs.listing .containers)) : OnDisk d (.container r₀) := by
  obtain ⟨e, he, hrec⟩ := List.mem_filterMap.mp h
  obtain ⟨r, hr, hparse⟩ := stored_of_entry hl he hrec
  cases r with
  | container r =>
    obtain rfl := Option.some.inj hparse
    exact hr
  | _ => cases hparse

theorem stored_restart (hl : rs.Lists w.disk) (h : OnDisk (w.restart rs).disk r) :
    Reopened rs w r := by
  have hlisted : ∀ r₀ ∈ listedContainers (rs.listing .containers),
      OnDisk w.disk (.container r₀) := fun r₀ => stored_listedContainers hl
  have hcrash : ∀ r, OnDisk (rs.crash w.disk) r → Reopened rs w r := fun r hr =>
    .inl (stored_crash hr)
  change OnDisk ((listedContainers (rs.listing .containers)).foldl
    (writeBack rs w.procsAlive) (rs.crash w.disk)) r at h
  generalize listedContainers (rs.listing .containers) = l at h hlisted
  generalize rs.crash w.disk = d at h hcrash
  induction l generalizing d with
  | nil => exact hcrash r h
  | cons r₀ l ih =>
    refine ih (fun r hr => hlisted r (List.mem_cons_of_mem _ hr)) _ h fun r hr => ?_
    unfold writeBack at hr
    split at hr
    · exact hcrash r hr
    · rcases stored_atomicWrite hr with hr | rfl
      · exact hcrash r hr
      · exact .inr ⟨r₀, hlisted r₀ List.mem_cons_self, rfl⟩

end Restart

/-! ## The rule -/

/-- **Where a record comes from**: what is known after a step was known before it, or the step has
made it, or `open` has corrected it. -/
theorem known_step {s s' : State} {l : Label} (hl : ReadsDisk s l) (hstep : step s l = some s')
    (h : Known s' r) :
    Known s r ∨ (∃ i o f, l = .step i o ∧ s.top i = some f ∧ Makes o s.shared f r) ∨
      ∃ rs r₀, l = .restart rs ∧ Known s (.container r₀) ∧
        r = .container (recover s.shared.procsAlive rs.clock r₀) := by
  cases l with
  | invoke c =>
    obtain rfl := Option.some.inj hstep
    left
    cases h with
    | cached ob get => exact .cached ob get
    | stored sub name read => exact .stored sub name read
    | carried t f task frame record =>
      rcases Pool.mem_tasks_start.mp task with task | rfl
      · exact .carried t f task frame record
      · cases c <;> simp [Call.frames] at frame <;> rcases frame with rfl | rfl | rfl <;>
          simp [Frame.records] at record
  | step i o =>
    obtain ⟨t, f, k, out, hadv⟩ := Pool.advance_eq_some hstep
    have hown : r ∈ f.records → Known s r := fun hr =>
      .carried t f hadv.mem (by rw [hadv.frames]; exact List.mem_cons_self) hr
    have hd := exec_derives hadv.exec
    cases h with
    | cached ob get =>
      rcases hd.cached ob r get with get | hr | hm
      · exact .inl (.cached ob get)
      · exact .inl (hown hr)
      · exact .inr (.inl ⟨i, o, f, rfl, hadv.top_eq, hm⟩)
    | stored sub name read =>
      rcases exec_stored hadv.exec read with ⟨sub, name, read⟩ | hr
      · exact .inl (.stored sub name read)
      · exact .inl (hown hr)
    | carried u g task frame record =>
      rcases hadv.mem_cases task with rfl | task | hu
      · rcases Task.mem_resume frame with hg | hg
        · rcases hd.carried g hg r record with ⟨ob, get⟩ | hr | hm
          · exact .inl (.cached ob get)
          · exact .inl (hown hr)
          · exact .inr (.inl ⟨i, o, f, rfl, hadv.top_eq, hm⟩)
        · exact .inl (.carried t g hadv.mem (by rw [hadv.frames]; exact List.mem_cons_of_mem _ hg)
            record)
      · exact .inl (.carried u g task frame record)
      · obtain ⟨id, q, -, rfl⟩ := children_reaper hadv hu
        obtain rfl := List.mem_singleton.mp frame
        cases record
  | exit q st =>
    obtain ⟨p, -, rfl⟩ := step_exit hstep
    left
    cases h with
    | cached ob get => exact .cached ob get
    | stored sub name read => exact .stored sub name read
    | carried t f task frame record => exact .carried t f task frame record
  | foreign pid =>
    obtain ⟨-, -, rfl⟩ := step_foreign hstep
    left
    cases h with
    | cached ob get => exact .cached ob get
    | stored sub name read => exact .stored sub name read
    | carried t f task frame record => exact .carried t f task frame record
  | restart rs =>
    obtain rfl := Option.some.inj hstep
    have hreopened : Reopened rs s.shared r := by
      cases h with
      | cached ob get => exact cached_restart hl get
      | stored sub name read => exact stored_restart hl ⟨sub, name, read⟩
      | carried t f task => cases task
    rcases hreopened with ⟨sub, name, read⟩ | ⟨r₀, ⟨sub, name, read⟩, rfl⟩
    · exact .inl (.stored sub name read)
    · exact .inr (.inr ⟨rs, r₀, rfl, .stored sub name read, rfl⟩)

/-- Only the steps of tasks and reopens make a record known. -/
theorem known_of_outside {s s' : State} {l : Label} (hl : ReadsDisk s l)
    (hstep : step s l = some s') (htask : ∀ i o, l ≠ .step i o) (hopen : ∀ rs, l ≠ .restart rs)
    (h : Known s' r) : Known s r := by
  rcases known_step hl hstep h with hold | ⟨i, o, f, heq, -⟩ | ⟨rs, r₀, heq, -⟩
  · exact hold
  · exact absurd heq (htask i o)
  · exact absurd heq (hopen rs)

theorem not_known_init (listener : Nat) (blake3 : String → String) :
    ¬ Known (init listener blake3) r := by
  intro h
  cases h with
  | cached ob get => simp [init] at get
  | stored sub name read => simp [init] at read
  | carried t f task => cases task

end LightrCri.Fake

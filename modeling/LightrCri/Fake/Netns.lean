import LightrCri.Fake.Mirror
import LightrCri.Net.Probe
import LightrCri.Foundations.Alone
import LightrCri.Foundations.Digits
import Mathlib.Algebra.Group.Nat.Defs
import Mathlib.Data.List.Pairwise

/-!
# The network namespaces of the sandboxes

A network namespace is named by the first 24 characters of the id of its sandbox, which is made from
the clock and from a counter of the process (`Stamp`). Of the counter only the digits are left for
which the clock leaves room (`nsName_eq_iff`): one, when the clock has nineteen. Two sandboxes of
one clock reading may so have the same namespace. `netns::create` takes a file that is there, unless
a namespace is mounted on it already, since then it cannot be opened for writing. Two calls that
both open the file first get the same namespace (`shared_netns`).

The calls that work on the network are followed here as tasks of any number of threads, in the steps
between which others may run (`NetFrame`), over the files and mounts of `/run/netns` (`NetnsDir`); a
call that is alone does what `netStep` says (`NetLeaves`). Sandboxes share no namespace, and none is
torn down with another sandbox, exactly if no two sandboxes are given one for which clock and
counter agree so far (`netns_apart`).
-/

namespace LightrCri.Fake

open Backend Foundations Function
open LightrCri.Net (NETNS_DIR Host Creation Teardown PluginRun conflistVersion conflistName)

/-! ## The name of a namespace -/

/-- `now_nanos`, of the nanoseconds since the epoch: `as i64` takes the low bits. -/
def nowNanos (nanos : Nat) : Int := (nanos : Int).bmod (2 ^ 64)

/-- What the id of a sandbox is made from. -/
structure Stamp where
  nanos : Nat
  counter : Nat
  deriving DecidableEq

def Stamp.id (t : Stamp) : SandboxId := ⟨newId "sb-" (nowNanos t.nanos) t.counter⟩

/-- How many characters of the counter are left in the name. -/
def Stamp.room (t : Stamp) : Nat := 20 - (toString (nowNanos t.nanos)).toList.length

/-- The clock readings are the same, and the counters as far as they are left in the name. -/
def Stamp.Collides (t t' : Stamp) : Prop :=
  nowNanos t.nanos = nowNanos t'.nanos ∧ leading 10 t.room t.counter = leading 10 t.room t'.counter

instance (t t' : Stamp) : Decidable (t.Collides t') := by
  unfold Stamp.Collides
  infer_instance

/-! ## Clocks -/

theorem toList_toString_int (n : Int) :
    (0 ≤ n ∧ (toString n).toList = (toString n.toNat).toList) ∨
      (n < 0 ∧ (toString n).toList = '-' :: (toString (-n).toNat).toList) := by
  cases n with
  | ofNat n => exact .inl ⟨Int.natCast_nonneg n, rfl⟩
  | negSucc n =>
    refine .inr ⟨Int.negSucc_lt_zero n, ?_⟩
    show ("-" ++ toString (n + 1)).toList = _
    rw [String.toList_append]
    rfl

theorem length_nowNanos_le (nanos : Nat) : (toString (nowNanos nanos)).toList.length ≤ 20 := by
  have hlt : nowNanos nanos < 2 ^ 63 := by
    have := Int.bmod_lt (x := (nanos : Int)) (m := 2 ^ 64) (by omega)
    unfold nowNanos
    omega
  have hle : -2 ^ 63 ≤ nowNanos nanos := by
    have := Int.le_bmod (x := (nanos : Int)) (m := 2 ^ 64) (by omega)
    unfold nowNanos
    omega
  have hshort : ∀ m : Nat, m ≤ 2 ^ 63 → (toString m).toList.length ≤ 19 := fun m hm => by
    rw [Nat.toString_eq_repr, Nat.toList_repr]
    refine (Nat.length_toDigits_le_iff (by omega) (by omega)).mpr ?_
    omega
  rcases toList_toString_int (nowNanos nanos) with ⟨-, hlist⟩ | ⟨-, hlist⟩
  · rw [hlist]
    have := hshort (nowNanos nanos).toNat (by omega)
    omega
  · rw [hlist, List.length_cons]
    have := hshort (-nowNanos nanos).toNat (by omega)
    omega

theorem toString_int_injective {m n : Int} (h : (toString m).toList = (toString n).toList) : m = n := by
  have hdash : ∀ k l : Nat, (toString k).toList ≠ '-' :: (toString l).toList := fun k l heq =>
    dash_notMem_repr k (heq ▸ List.mem_cons_self)
  rcases toList_toString_int m with ⟨hm, hlistm⟩ | ⟨hm, hlistm⟩
  · rcases toList_toString_int n with ⟨hn, hlistn⟩ | ⟨hn, hlistn⟩
    · have := repr_injective (hlistm.symm.trans (h.trans hlistn))
      omega
    · exact absurd (hlistm.symm.trans (h.trans hlistn)) (hdash _ _)
  · rcases toList_toString_int n with ⟨hn, hlistn⟩ | ⟨hn, hlistn⟩
    · exact absurd (hlistn.symm.trans (h.symm.trans hlistm)) (hdash _ _)
    · have := repr_injective (List.cons.inj (hlistm.symm.trans (h.trans hlistn))).2
      omega

theorem digit_take_ne_dash {n k : Nat} {cs cs' : List Char} :
    ((toString n).toList ++ cs).take (k + 1) ≠ ('-' :: cs').take (k + 1) := by
  intro h
  have hdigits : (toString n).toList ≠ [] := by
    rw [Nat.toString_eq_repr, Nat.toList_repr]
    exact Nat.toDigits_ne_nil
  obtain ⟨c, ds, hds⟩ := List.exists_cons_of_ne_nil hdigits
  refine dash_notMem_repr n ?_
  rw [hds, List.cons_append, List.take_succ_cons, List.take_succ_cons] at h
  rw [hds, (List.cons.inj h).1]
  exact List.mem_cons_self

/-- The first characters of two clock readings with numbers behind them. -/
theorem take_clock_eq_iff {m n : Int} {cs cs' : List Char} {k : Nat}
    (hm : (toString m).toList.length < k) (hn : (toString n).toList.length < k) :
    ((toString m).toList ++ '-' :: cs).take k = ((toString n).toList ++ '-' :: cs').take k ↔
      m = n ∧ cs.take (k - (toString m).toList.length - 1) =
        cs'.take (k - (toString m).toList.length - 1) := by
  have hclock : (toString m).toList = (toString n).toList ↔ m = n :=
    ⟨toString_int_injective, fun h => h ▸ rfl⟩
  obtain ⟨k, rfl⟩ : ∃ j, k = j + 1 := ⟨k - 1, by omega⟩
  rcases toList_toString_int m with ⟨hsign, hlistm⟩ | ⟨hsign, hlistm⟩
  · rcases toList_toString_int n with ⟨hsign', hlistn⟩ | ⟨hsign', hlistn⟩
    · rw [← hclock, hlistm, hlistn]
      rw [hlistm] at hm
      rw [hlistn] at hn
      exact take_append_cons_eq_iff (dash_notMem_repr _) (dash_notMem_repr _) hm hn
    · refine iff_of_false (fun h => ?_) fun h => by omega
      rw [hlistm, hlistn] at h
      exact digit_take_ne_dash h
  · rcases toList_toString_int n with ⟨hsign', hlistn⟩ | ⟨hsign', hlistn⟩
    · refine iff_of_false (fun h => ?_) fun h => by omega
      rw [hlistm, hlistn] at h
      exact digit_take_ne_dash h.symm
    · rw [← hclock, hlistm, hlistn]
      rw [hlistm, List.length_cons] at hm
      rw [hlistn, List.length_cons] at hn
      rw [List.cons_append, List.cons_append, List.take_succ_cons, List.take_succ_cons, List.cons.injEq,
        List.cons.injEq, List.length_cons, Nat.succ_sub_succ,
        take_append_cons_eq_iff (dash_notMem_repr _) (dash_notMem_repr _) (by omega) (by omega), and_assoc]

/-! ## Names -/

theorem toList_nsName (t : Stamp) : (nsName t.id).toList = "lightr-sb-".toList ++
    ((toString (nowNanos t.nanos)).toList ++ '-' :: (toString t.counter).toList).take 21 := by
  have hcut : ∀ cs : List Char, "lightr-".toList ++ ("sb-".toList ++ cs).take 24 =
      "lightr-sb-".toList ++ cs.take 21 := fun _ => rfl
  rw [nsName, String.toList_append, @String.toList_ofList (List.take 24 _), Stamp.id, toList_newId,
    List.append_assoc, hcut]

/-- **When two names are the same.** -/
theorem nsName_eq_iff {t t' : Stamp} : nsName t.id = nsName t'.id ↔ t.Collides t' := by
  have hlen := length_nowNanos_le t.nanos
  have hlen' := length_nowNanos_le t'.nanos
  have hroom : 21 - (toString (nowNanos t.nanos)).toList.length - 1 = t.room := by
    unfold Stamp.room
    omega
  rw [← String.toList_inj, toList_nsName, toList_nsName, List.append_right_inj,
    take_clock_eq_iff (by omega) (by omega), hroom, Nat.toString_eq_repr, Nat.toString_eq_repr,
    Nat.toList_repr, Nat.toList_repr, take_toDigits_eq_iff (by omega) (by omega)]
  rfl

theorem joinPath_nsName (t : Stamp) : Net.joinPath NETNS_DIR (nsName t.id) = "/run/netns/" ++ nsName t.id := by
  have hstart : (nsName t.id).startsWith "/" = false := by
    rw [String.startsWith_string_eq_false_iff, toList_nsName]
    intro hpre
    exact absurd (List.cons_prefix_cons.mp hpre).1 (by decide)
  have hend : ¬ (NETNS_DIR = "" ∨ NETNS_DIR.endsWith "/" = true) := by
    rw [LightrCri.Net.endsWith_slash]
    decide
  rw [Net.joinPath, hstart, if_neg Bool.false_ne_true, if_neg hend]
  rfl

theorem nsPath_eq_iff {t t' : Stamp} :
    Net.joinPath NETNS_DIR (nsName t.id) = Net.joinPath NETNS_DIR (nsName t'.id) ↔ t.Collides t' := by
  rw [joinPath_nsName, joinPath_nsName, ← nsName_eq_iff, ← String.toList_inj, String.toList_append,
    String.toList_append, List.append_right_inj, String.toList_inj]

theorem Stamp.id_counter {t t' : Stamp} (h : t.id = t'.id) : t.counter = t'.counter :=
  newId_counter (congrArg Id.val h)

/-! ## The files of the namespaces -/

/-- What there is in `/run/netns`. -/
structure NetnsDir where
  files : String → Bool
  /-- How many namespaces are mounted on a file, one over the other. -/
  mounts : String → Nat

/-- The results that `netns::create` can have here. The file is opened for writing, which the kernel
refuses (`EPERM`) for a file that a namespace is mounted on. -/
def NetnsDir.Creates (d : NetnsDir) (path : String) : Creation → Prop
  | .dirFailed _ | .openFailed _ => True
  | .threadFailed existed _ | .created existed => d.mounts path = 0 ∧ d.files path = existed

instance (d : NetnsDir) (path : String) : (c : Creation) → Decidable (d.Creates path c)
  | .dirFailed _ | .openFailed _ => instDecidableTrue
  | .threadFailed existed _ | .created existed =>
    inferInstanceAs (Decidable (d.mounts path = 0 ∧ d.files path = existed))

/-- The results that `netns::teardown` can have here: `umount2` takes the namespace that was mounted
last, and a file that one is still mounted on is not unlinked. -/
structure NetnsDir.TearsDown (d : NetnsDir) (path : String) (t : Teardown) : Prop where
  umount : t.umountError = none → 0 < d.mounts path
  unlink : t.umountError = none → t.unlinkError = none → d.files path = true ∧ d.mounts path = 1

def NetnsDir.touch (d : NetnsDir) (path : String) : NetnsDir :=
  { d with files := update d.files path true }

def NetnsDir.mount (d : NetnsDir) (path : String) : NetnsDir :=
  { d with mounts := update d.mounts path (d.mounts path + 1) }

def NetnsDir.umount (d : NetnsDir) (path : String) : NetnsDir :=
  { d with mounts := update d.mounts path (d.mounts path - 1) }

def NetnsDir.unlink (d : NetnsDir) (path : String) : NetnsDir :=
  { d with files := update d.files path false }

/-! ## The calls in threads -/

inductive NetCall
  | runSandbox (cfg : SandboxConfig)
  | stopSandbox (id : SandboxId)
  | removeSandbox (id : SandboxId)
  /-- `create_container`, which takes a number of the counter too. -/
  | createContainer

/-- The steps of the calls. -/
inductive NetFrame
  | newId (cfg : SandboxConfig)
  /-- `netns::create` as far as the file, if the sandbox is to have a namespace. -/
  | create (t : Stamp) (cfg : SandboxConfig)
  /-- The thread of `netns::create`, which mounts a new namespace on the file. -/
  | pin (t : Stamp) (cfg : SandboxConfig)
  /-- What `cni_setup` does then: ADD. -/
  | add (t : Stamp) (cfg : SandboxConfig)
  | persist (r : SandboxRecord)
  | insert (r : SandboxRecord)
  | stop (id : SandboxId)
  /-- The critical section in which `remove_sandbox` takes what it needs of the record. -/
  | collect (id : SandboxId)
  /-- Stopping and removing the containers. -/
  | cascade
  /-- `cni_teardown`: DEL, and the two steps of `netns::teardown`. -/
  | del (id : SandboxId) (path : String)
  | umount (id : SandboxId) (path : String)
  | unlink (path : String)
  | delete (id : SandboxId)
  | newContainerId
  | ret (v : Value)

def NetCall.frames : NetCall → List NetFrame
  | .runSandbox cfg => [.newId cfg]
  | .stopSandbox id => [.stop id, .ret .unit]
  | .removeSandbox id => [.stop id, .collect id, .ret .unit]
  | .createContainer => [.newContainerId]

/-- What a step gets from outside. -/
structure NetOracle where
  /-- The clock when an id is made. -/
  nanos : Nat := 0
  /-- The reading for `created_at_nanos`. -/
  stamp : Int := 0
  run : RunOracle := ⟨.created false, fun _ => .succeeded (.ok "\x7b\x7d"), none⟩
  remove : RemoveOracle := { runs := fun _ => .succeeded (.ok "\x7b\x7d") }

structure NetWorld where
  net : NetState
  dir : NetnsDir
  /-- What the ids of sandboxes were made from. -/
  stamps : List Stamp
  /-- The sandboxes whose network was set up. -/
  given : List (Stamp × SandboxRecord)
  /-- The namespaces that were unmounted, and with which sandbox. -/
  torn : List (SandboxId × String)

abbrev NetPool := Pool NetWorld NetCall NetFrame Result

inductive NetPoolLabel
  | invoke (c : NetCall)
  | step (i : Nat) (o : NetOracle)

def Stamp.path (t : Stamp) : String := Net.joinPath NETNS_DIR (nsName t.id)

/-- More was done to the host. -/
def NetWorld.does (w : NetWorld) (es : List LightrCri.Net.Effect) : NetWorld :=
  { w with net := { w.net with effects := w.net.effects ++ es } }

/-- The error of `run_sandbox`. -/
def setupFailed (t : Stamp) (e : String) : Outcome NetCall NetFrame Result :=
  .halt (.error (.internal ("CNI setup for sandbox " ++ t.id.val ++ ": " ++ e)))

/-- What `run_sandbox` does with the record. -/
def recorded (r : SandboxRecord) : Outcome NetCall NetFrame Result :=
  .next [.persist r, .insert r, .ret (.sandbox r.id)]

section

variable (h : Host) (env : CniEnv)

/-- `cni_setup` behind `netns::create`. -/
def addNetwork (id : SandboxId) (path : String) (portMappings : List PortMapping)
    (runs : Nat → PluginRun) : List LightrCri.Net.Effect × Except String (Option String) :=
  match env.conflist with
  | none => ([], .error ("no .conflist found in " ++ env.confDir))
  | some conflist =>
    match h.add conflist id.val path portMappings runs with
    | (es, .error e) => (es, .error ("CNI ADD: " ++ e))
    | (es, .ok ip) => (es, .ok ip)

/-- The DELs of `cni_teardown`. -/
def delNetwork (id : SandboxId) (path : String) (runs : Nat → PluginRun) :
    List LightrCri.Net.Effect :=
  if env.available then
    match env.conflist with
    | some conflist => (h.del conflist id.val path [] runs).1
    | none => []
  else []

/-- A step, unless the oracle says what cannot happen. -/
def NetFrame.exec (o : NetOracle) (w : NetWorld) :
    NetFrame → Option (NetWorld × Outcome NetCall NetFrame Result)
  | .newId cfg =>
    let t : Stamp := ⟨o.nanos, w.net.counter⟩
    some ({ w with net := { w.net with counter := w.net.counter + 1 }, stamps := w.stamps ++ [t] },
      .next [.create t cfg])
  | .create t cfg =>
    if cfg.hostNetwork = true ∨ env.available = false then
      let r : SandboxRecord := ⟨t.id, cfg, .ready, o.stamp, none, none⟩
      some ({ w with given := w.given ++ [(t, r)] }, recorded r)
    else if w.dir.Creates t.path o.run.creation then
      match o.run.creation with
      | .dirFailed e | .openFailed e => some (w, setupFailed t e)
      | .threadFailed existed _ | .created existed =>
        some ({ w.does (if existed then [] else [.touch t.path]) with dir := w.dir.touch t.path },
          .next [.pin t cfg])
    else none
  | .pin t cfg =>
    match o.run.creation with
    | .threadFailed _ e => some (w, setupFailed t e)
    | .created _ =>
      if w.dir.files t.path then
        some ({ w.does [.mount t.path] with dir := w.dir.mount t.path }, .next [.add t cfg])
      else none
    | _ => none
  | .add t cfg =>
    match addNetwork h env t.id t.path cfg.portMappings o.run.runs with
    | (es, .error e) => some (w.does es, setupFailed t e)
    | (es, .ok ip) =>
      let r : SandboxRecord := ⟨t.id, cfg, .ready, o.stamp, ip, some t.path⟩
      some ({ w.does es with given := w.given ++ [(t, r)] }, recorded r)
  | .persist _ =>
    match o.run.writeError with
    | none => some (w, .next [])
    | some e => some (w, .halt (.error (.io e)))
  | .insert r =>
    some ({ w with net := { w.net with
        sandboxes := update w.net.sandboxes r.id (some r)
        made := w.net.made ++ [r] } }, .next [])
  | .stop id =>
    some ({ w with net := (stopSandbox w.net id o.remove.writeError).1 },
      if (stopSandbox w.net id o.remove.writeError).2 then
        .halt (.error (.io (o.remove.writeError.getD ""))) else .next [])
  | .collect id =>
    match w.net.sandboxes id with
    | none => some (w, .next [])
    | some r =>
      some (w, .next (.cascade ::
        r.netnsPath.toList.flatMap (fun path => [.del id path, .umount id path]) ++ [.delete id]))
  | .cascade =>
    match o.remove.cascadeError with
    | none => some (w, .next [])
    | some e => some (w, .halt (.error e))
  | .del id path => some (w.does (delNetwork h env id path o.remove.runs), .next [])
  | .umount id path =>
    match o.remove.teardown.umountError with
    | some _ => some (w, .next [])
    | none =>
      if 0 < w.dir.mounts path then
        some ({ w.does [.umount path] with
            dir := w.dir.umount path
            torn := w.torn ++ [(id, path)] }, .next [.unlink path])
      else none
  | .unlink path =>
    match o.remove.teardown.unlinkError with
    | some _ => some (w, .next [])
    | none =>
      if w.dir.files path = true ∧ w.dir.mounts path = 0 then
        some ({ w.does [.unlink path] with dir := w.dir.unlink path }, .next [])
      else none
  | .delete id =>
    some ({ w with net := { w.net with sandboxes := update w.net.sandboxes id none } }, .next [])
  | .newContainerId =>
    some ({ w with net := { w.net with counter := w.net.counter + 1 } },
      .halt (.ok (.container ⟨Fake.newId "ct-" (nowNanos o.nanos) w.net.counter⟩)))
  | .ret v => some (w, .halt (.ok v))

def netExec (_self _next : Nat) (o : NetOracle) (f : NetFrame) (w : NetWorld) :
    Option (NetWorld × Outcome NetCall NetFrame Result) :=
  f.exec h env o w

def netPoolStep (s : NetPool) : NetPoolLabel → Option NetPool
  | .invoke c => some (s.start c c.frames)
  | .step i o => s.advance (netExec h env) i o

end

/-- Nothing was called yet; earlier processes may have left something in the directory. -/
def NetPool.init (d : NetnsDir) : NetPool := ⟨⟨.init, d, [], [], []⟩, []⟩

/-! ## One call alone -/

/-- The call as one step of a sequence of calls. -/
def NetCall.label (o : NetOracle) : NetCall → Option NetLabel
  | .runSandbox cfg => some (.run (nowNanos o.nanos) o.stamp cfg o.run)
  | .stopSandbox id => some (.stop id o.remove.writeError)
  | .removeSandbox id => some (.remove id o.remove)
  | .createContainer => none

/-- A task that runs alone executes the stack, and leaves the network so. -/
def NetLeaves (h : Host) (env : CniEnv) (w : NetWorld) (fs : List NetFrame) (net : NetState) : Prop :=
  ∀ i n, ∃ tr w' r, Performs (netExec h env) i n w fs tr w' [] r ∧ w'.net = net

section

variable {h : Host} {env : CniEnv} {o : NetOracle} {w w₁ : NetWorld} {f : NetFrame}
  {fs k : List NetFrame} {net : NetState}

theorem NetLeaves.next (o : NetOracle) (hgoes : f.exec h env o w = some (w₁, .next fs))
    (hrest : NetLeaves h env w₁ (fs ++ k) net) : NetLeaves h env w (f :: k) net := by
  intro i n
  obtain ⟨tr, w', r, hperforms, hnet⟩ := hrest i n
  exact ⟨(f, o) :: tr, w', r, .next hgoes hperforms, hnet⟩

theorem NetLeaves.halt (o : NetOracle) {r : Result} (hdone : f.exec h env o w = some (w₁, .halt r))
    (hnet : w₁.net = net) : NetLeaves h env w (f :: k) net :=
  fun _ _ => ⟨[(f, o)], w₁, r, .halt hdone, hnet⟩

/-- `cni_setup`, by its parts. -/
theorem cniSetup_eq {id : SandboxId} {mappings : List PortMapping} {c : RunOracle} :
    cniSetup h env id mappings c =
      match Net.createNetns (nsName id) c.creation with
      | (es, .error e) => (es, .error e)
      | (es, .ok path) =>
        (es ++ (addNetwork h env id path mappings c.runs).1,
          (addNetwork h env id path mappings c.runs).2.map fun ip => (ip, path)) := by
  unfold cniSetup addNetwork
  rcases Net.createNetns (nsName id) c.creation with ⟨es, e | path⟩
  · rfl
  · cases env.conflist with
    | none => simp [Except.map]
    | some conflist =>
      dsimp only
      rcases h.add conflist id.val path mappings c.runs with ⟨es', e | ip⟩
      · rfl
      · rfl

/-- The steps of a record. -/
theorem leaves_recorded {r : SandboxRecord} {s : NetState}
    (hs : s = match o.run.writeError with
      | some _ => w.net
      | none => { w.net with
          sandboxes := update w.net.sandboxes r.id (some r)
          made := w.net.made ++ [r] }) :
    NetLeaves h env w [.persist r, .insert r, .ret (.sandbox r.id)] s := by
  obtain rfl := hs
  cases hwrite : o.run.writeError with
  | some e => exact .halt o (by rw [NetFrame.exec, hwrite]) rfl
  | none =>
    refine .next o (by rw [NetFrame.exec, hwrite]) ?_
    exact .next o rfl (.halt o rfl rfl)

/-- `run_sandbox` alone, when what happens in `/run/netns` is possible there. -/
theorem leaves_runSandbox (cfg : SandboxConfig) {s : NetState}
    (hdir : w.dir.Creates (Stamp.path ⟨o.nanos, w.net.counter⟩) o.run.creation)
    (hstep : netStep h env w.net (.run (nowNanos o.nanos) o.stamp cfg o.run) = some s) :
    NetLeaves h env w (NetCall.runSandbox cfg).frames s := by
  rw [netStep] at hstep
  dsimp only at hstep
  refine .next o rfl ?_
  generalize ht : (⟨o.nanos, w.net.counter⟩ : Stamp) = t at hdir ⊢
  have hid : (⟨newId "sb-" (nowNanos o.nanos) w.net.counter⟩ : SandboxId) = t.id := by
    rw [← ht]
    rfl
  rw [hid] at hstep
  by_cases hnone : cfg.hostNetwork = true ∨ env.available = false
  · have hsetup : setupNetwork h env t.id cfg o.run = ([], .ok (none, none)) := by
      unfold setupNetwork
      rcases hnone with hhost | havailable
      · rw [if_pos hhost]
      · rw [havailable, if_neg Bool.false_ne_true, ite_self]
    rw [runSandbox, hsetup] at hstep
    refine .next o (by rw [NetFrame.exec, if_pos hnone]; rfl) (leaves_recorded (o := o) ?_)
    cases hwrite : o.run.writeError with
    | some e =>
      rw [hwrite] at hstep
      obtain rfl := Option.some.inj hstep
      rw [List.append_nil]
    | none =>
      rw [hwrite] at hstep
      obtain rfl := Option.some.inj hstep
      rw [List.append_nil]
  · have hcni : cfg.hostNetwork = false ∧ env.available = true := by simpa using hnone
    rw [runSandbox, setupNetwork, if_neg (by rw [hcni.1]; decide), if_pos hcni.2,
      cniSetup_eq] at hstep
    cases hcreation : o.run.creation with
    | dirFailed e | openFailed e =>
      rw [hcreation] at hstep hdir
      obtain rfl := Option.some.inj hstep
      refine .halt o (by rw [NetFrame.exec, if_neg hnone, hcreation, if_pos hdir]; rfl) ?_
      rw [Net.createNetns, List.append_nil]
    | threadFailed existed e =>
      rw [hcreation] at hstep hdir
      obtain rfl := Option.some.inj hstep
      refine .next o (by rw [NetFrame.exec, if_neg hnone, hcreation, if_pos hdir]) ?_
      exact .halt o (by rw [NetFrame.exec, hcreation]; rfl) rfl
    | created existed =>
      rw [hcreation] at hstep hdir
      refine .next o (by rw [NetFrame.exec, if_neg hnone, hcreation, if_pos hdir]) ?_
      have htouched : (w.dir.touch t.path).files t.path = true := update_self ..
      refine .next o (by rw [NetFrame.exec, hcreation]; exact if_pos htouched) ?_
      rw [Net.createNetns] at hstep
      dsimp only at hstep
      rcases hadd : addNetwork h env t.id t.path cfg.portMappings o.run.runs with ⟨es, e | ip⟩
      all_goals
        have hadd' : addNetwork h env t.id (Net.joinPath NETNS_DIR (nsName t.id)) cfg.portMappings
          o.run.runs = _ := hadd
        rw [hadd'] at hstep
      · obtain rfl := Option.some.inj hstep
        refine .halt o (by rw [NetFrame.exec, hadd]; rfl) ?_
        simp only [NetWorld.does, List.append_assoc]
        rfl
      · refine .next o (by rw [NetFrame.exec, hadd]; rfl) (leaves_recorded (o := o) ?_)
        cases hwrite : o.run.writeError with
        | some e =>
          rw [hwrite] at hstep
          obtain rfl := Option.some.inj hstep
          simp only [NetWorld.does, List.append_assoc]
          rfl
        | none =>
          rw [hwrite] at hstep
          obtain rfl := Option.some.inj hstep
          simp only [NetWorld.does, List.append_assoc]
          rfl

theorem leaves_stopSandbox (id : SandboxId) {s : NetState}
    (hstep : netStep h env w.net (.stop id o.remove.writeError) = some s) :
    NetLeaves h env w (NetCall.stopSandbox id).frames s := by
  obtain rfl := Option.some.inj hstep
  cases hfails : (stopSandbox w.net id o.remove.writeError).2 with
  | true =>
    refine .halt o (by rw [NetFrame.exec, hfails, if_pos rfl]) ?_
    rfl
  | false =>
    refine .next o (by rw [NetFrame.exec, hfails, if_neg Bool.false_ne_true]) ?_
    exact .halt o rfl rfl

/-- `cni_teardown` alone. -/
theorem leaves_teardown {id : SandboxId} {path : String} {net : NetState}
    (hdir : w.dir.TearsDown path o.remove.teardown)
    (hrest : ∀ w' : NetWorld,
      w'.net = { w.net with effects := w.net.effects ++ cniTeardown h env id path o.remove } →
      NetLeaves h env w' k net) :
    NetLeaves h env w (.del id path :: .umount id path :: k) net := by
  have hparts : cniTeardown h env id path o.remove =
      delNetwork h env id path o.remove.runs ++ Net.teardownNetns path o.remove.teardown := rfl
  rw [hparts] at hrest
  refine .next o rfl ?_
  cases humount : o.remove.teardown.umountError with
  | some e =>
    refine .next o (by rw [NetFrame.exec, humount]) (hrest _ ?_)
    rw [Net.teardownNetns, humount, List.append_nil]
    rfl
  | none =>
    refine .next o (by rw [NetFrame.exec, humount]; exact if_pos (hdir.umount humount)) ?_
    cases hunlink : o.remove.teardown.unlinkError with
    | some e =>
      refine .next o (by rw [NetFrame.exec, hunlink]) (hrest _ ?_)
      rw [Net.teardownNetns, humount, hunlink, ← List.append_assoc]
      rfl
    | none =>
      obtain ⟨hfile, hmounts⟩ := hdir.unlink humount hunlink
      have hlast : (w.dir.umount path).files path = true ∧ (w.dir.umount path).mounts path = 0 :=
        ⟨hfile, (update_self ..).trans (by rw [hmounts])⟩
      refine .next o (by rw [NetFrame.exec, hunlink]; exact if_pos hlast) (hrest _ ?_)
      have heffects : [LightrCri.Net.Effect.umount path, .unlink path] =
        [LightrCri.Net.Effect.umount path] ++ [LightrCri.Net.Effect.unlink path] := rfl
      rw [Net.teardownNetns, humount, hunlink, heffects, ← List.append_assoc, ← List.append_assoc]
      rfl

/-- `remove_sandbox` alone, when what happens in `/run/netns` is possible there. -/
theorem leaves_removeSandbox (id : SandboxId) {s : NetState}
    (hdir : ∀ r path, w.net.sandboxes id = some r → r.netnsPath = some path →
      w.dir.TearsDown path o.remove.teardown)
    (hstep : netStep h env w.net (.remove id o.remove) = some s) :
    NetLeaves h env w (NetCall.removeSandbox id).frames s := by
  rw [netStep] at hstep
  have hsandboxes := (stopSandbox_frame w.net id o.remove.writeError).2.2.2 id
  rcases hstop : stopSandbox w.net id o.remove.writeError with ⟨net, _ | _⟩
  all_goals rw [hstop] at hstep hsandboxes; dsimp only at hstep hsandboxes
  · have hgoes : (NetFrame.stop id).exec h env o w = some ({ w with net := net }, .next []) := by
      rw [NetFrame.exec, hstop, if_neg Bool.false_ne_true]
    refine .next o hgoes ?_
    cases hr : net.sandboxes id with
    | none =>
      rw [hr] at hstep
      obtain rfl := Option.some.inj hstep
      refine .next o (by rw [NetFrame.exec, hr]) ?_
      exact .halt o rfl rfl
    | some r =>
      rw [hr] at hstep hsandboxes
      refine .next o (by rw [NetFrame.exec, hr]) ?_
      cases hcascade : o.remove.cascadeError with
      | some e =>
        rw [hcascade] at hstep
        obtain rfl := Option.some.inj hstep
        refine .halt o (by rw [NetFrame.exec, hcascade]) ?_
        rfl
      | none =>
        rw [hcascade] at hstep
        obtain rfl := Option.some.inj hstep
        refine .next o (by rw [NetFrame.exec, hcascade]) ?_
        cases hpath : r.netnsPath with
        | none =>
          refine .next o rfl (.halt o rfl ?_)
          rw [Option.elim_none, List.append_nil]
        | some path =>
          obtain ⟨r₀, hr₀, hsame⟩ := Option.map_eq_some_iff.mp hsandboxes.symm
          refine leaves_teardown (o := o) (hdir r₀ path hr₀ (hsame.trans hpath)) fun w' hw' => ?_
          refine .next o rfl (.halt o rfl ?_)
          rw [hw']
          rfl
  · obtain rfl := Option.some.inj hstep
    refine .halt o (by rw [NetFrame.exec, hstop, if_pos rfl]) ?_
    rfl

end

/-! ## Sharing -/

/-- No two sandboxes have an id or a network namespace in common, and no namespace is torn down with
a sandbox but its own. -/
structure NoSharing (w : NetWorld) : Prop where
  ids : (w.stamps.map Stamp.id).Nodup
  paths : (w.given.filterMap fun e => e.2.netnsPath).Nodup
  torn : ∀ e ∈ w.torn, ∀ g ∈ w.given, g.2.netnsPath = some e.2 → g.2.id = e.1
  /-- The sandboxes of the cache are among those that were given a network. -/
  cached : ∀ id r, w.net.sandboxes id = some r →
    ∃ g ∈ w.given, g.2.id = id ∧ g.2.netnsPath = r.netnsPath

section

variable (h : Host) (env : CniEnv)

/-- If the step gives a sandbox a network namespace, which it does when the whole chain succeeds,
clock and counter of its id do not collide with those of another that was given one. -/
def StampsApart (s : NetPool) : NetPoolLabel → Prop
  | .step i o =>
    match s.top i with
    | some (.add t _) => AllAdded h env o.run.runs →
      ∀ g ∈ s.shared.given, g.2.netnsPath ≠ none → ¬ g.1.Collides t
    | _ => True
  | .invoke _ => True

end

section

variable {h : Host} {env : CniEnv}

theorem addNetwork_isOk {id : SandboxId} {path : String} {mappings : List PortMapping}
    {runs : Nat → PluginRun} :
    (∃ es ip, addNetwork h env id path mappings runs = (es, .ok ip)) ↔ AllAdded h env runs := by
  have hfrom (conflist : Net.Json) (plugins : List Net.Json) :=
    @Host.addFrom_isOk h (conflistVersion conflist) (conflistName conflist) id.val path mappings
      runs plugins 0 none
  simp only [Nat.zero_add] at hfrom
  unfold addNetwork AllAdded
  cases env.conflist with
  | none => exact ⟨nofun, nofun⟩
  | some conflist =>
    cases conflist with
    | error e => exact ⟨nofun, nofun⟩
    | ok conflist =>
      cases hplugins : Net.conflistPlugins conflist with
      | error e =>
        simp only [Host.add, hplugins]
        refine ⟨fun hok => ?_, ?_⟩
        · obtain ⟨_, _, hok⟩ := hok
          cases hok
        rintro ⟨conflist', plugins, hsame, hplugins', -⟩
        obtain rfl := Except.ok.inj (Option.some.inj hsame)
        cases hplugins.symm.trans hplugins'
      | ok plugins =>
        simp only [Host.add, hplugins]
        constructor
        · rintro ⟨es, ip, hok⟩
          refine ⟨conflist, plugins, rfl, hplugins, (hfrom conflist plugins).mp ?_⟩
          rcases hadd : h.addFrom (conflistVersion conflist) (conflistName conflist) id.val path
            mappings runs 0 none plugins with ⟨es', e | r⟩
          · rw [hadd] at hok
            cases hok
          · exact ⟨es', r, rfl⟩
        · rintro ⟨conflist', plugins', hsame, hplugins', hall⟩
          obtain rfl := Except.ok.inj (Option.some.inj hsame)
          obtain rfl := Except.ok.inj (hplugins.symm.trans hplugins')
          obtain ⟨es, r, hadd⟩ := (hfrom conflist plugins).mpr hall
          rw [hadd]
          exact ⟨es, r.bind Host.extractFirstIpv4, rfl⟩

/-! ## What the steps keep -/

/-- What a step that is still to be taken knows of its sandbox. -/
def NetFrame.Knows (w : NetWorld) : NetFrame → Prop
  | .insert r => ∃ g ∈ w.given, g.2 = r
  | .del id path | .umount id path => ∃ g ∈ w.given, g.2.id = id ∧ g.2.netnsPath = some path
  | _ => True

structure NetnsInv (s : NetPool) : Prop where
  older : ∀ t ∈ s.shared.stamps, t.counter < s.shared.net.counter
  counters : (s.shared.stamps.map Stamp.counter).Nodup
  given : ∀ g ∈ s.shared.given, g.2.id = g.1.id ∧
    ∀ p, g.2.netnsPath = some p → p = Net.joinPath NETNS_DIR (nsName g.1.id)
  paths : (s.shared.given.filterMap fun g => g.2.netnsPath).Nodup
  cached : ∀ id r, s.shared.net.sandboxes id = some r →
    ∃ g ∈ s.shared.given, g.2.id = id ∧ g.2.netnsPath = r.netnsPath
  torn : ∀ e ∈ s.shared.torn, ∃ g ∈ s.shared.given, g.2.id = e.1 ∧ g.2.netnsPath = some e.2
  frames : ∀ t ∈ s.tasks, ∀ f ∈ t.frames, f.Knows s.shared

/-- Two sandboxes of one path are the same. -/
theorem eq_of_nodup_paths {given : List (Stamp × SandboxRecord)}
    (hn : (given.filterMap fun g => g.2.netnsPath).Nodup) {g g' : Stamp × SandboxRecord}
    (hg : g ∈ given) (hg' : g' ∈ given) {p : String} (hp : g.2.netnsPath = some p)
    (hp' : g'.2.netnsPath = some p) : g = g' := by
  by_contra hne
  have hsymm : Std.Symm fun a a' : Stamp × SandboxRecord => ∀ b, a.2.netnsPath = some b →
      ∀ b', a'.2.netnsPath = some b' → b ≠ b' := ⟨fun a b hab x hx y hy heq => hab y hy x hx heq.symm⟩
  exact (List.pairwise_filterMap.mp hn).forall hg hg' hne p hp p hp' rfl

theorem NetnsInv.noSharing {s : NetPool} (hinv : NetnsInv s) : NoSharing s.shared := by
  refine ⟨?_, hinv.paths, fun e he g hg hpath => ?_, hinv.cached⟩
  · refine List.pairwise_map.mpr ((List.pairwise_map.mp hinv.counters).imp ?_)
    exact fun hne heq => hne (Stamp.id_counter heq)
  · obtain ⟨g', hg', hid, hpath'⟩ := hinv.torn e he
    rw [eq_of_nodup_paths hinv.paths hg hg' hpath hpath']
    exact hid

theorem NetFrame.Knows.of_subset {w w' : NetWorld} (hsub : w.given ⊆ w'.given) {f : NetFrame}
    (hf : f.Knows w) : f.Knows w' := by
  cases f with
  | insert r =>
    obtain ⟨g, hg, heq⟩ := hf
    exact ⟨g, hsub hg, heq⟩
  | del id path | umount id path =>
    obtain ⟨g, hg, heq⟩ := hf
    exact ⟨g, hsub hg, heq⟩
  | _ => exact True.intro

/-- The invariant over a step that gives no network. -/
theorem NetnsInv.of_given_eq {s s' : NetPool} (hinv : NetnsInv s)
    (hgiven : s'.shared.given = s.shared.given)
    (hstamps : s'.shared.stamps = s.shared.stamps) (hcounter : s.shared.net.counter ≤ s'.shared.net.counter)
    (hcached : ∀ id r, s'.shared.net.sandboxes id = some r →
      ∃ g ∈ s.shared.given, g.2.id = id ∧ g.2.netnsPath = r.netnsPath)
    (htorn : ∀ e ∈ s'.shared.torn, ∃ g ∈ s.shared.given, g.2.id = e.1 ∧ g.2.netnsPath = some e.2)
    (hframes : ∀ t ∈ s'.tasks, ∀ f ∈ t.frames, f.Knows s'.shared) : NetnsInv s' := by
  refine ⟨fun t ht => ?_, ?_, ?_, ?_, ?_, ?_, hframes⟩
  · rw [hstamps] at ht
    exact Nat.lt_of_lt_of_le (hinv.older t ht) hcounter
  · rw [hstamps]
    exact hinv.counters
  · rw [hgiven]
    exact hinv.given
  · rw [hgiven]
    exact hinv.paths
  · rw [hgiven]
    exact hcached
  · rw [hgiven]
    exact htorn

/-- Of the frames after a step only those that are pushed are new. -/
theorem NetnsInv.frames_advance {s s' : NetPool} (hinv : NetnsInv s) {i : Nat} {o : NetOracle}
    {t : Task NetCall NetFrame Result} {f : NetFrame} {k : List NetFrame}
    {out : Outcome NetCall NetFrame Result} (hadv : Pool.Advance (netExec h env) s i o s' t f k out)
    (hsub : s.shared.given ⊆ s'.shared.given) (hpushed : ∀ f' ∈ out.pushed, f'.Knows s'.shared)
    (hchildren : out.children = []) : ∀ t ∈ s'.tasks, ∀ f ∈ t.frames, f.Knows s'.shared := by
  refine hadv.forall_tasks (J := fun u => ∀ f ∈ u.frames, f.Knows s.shared) hinv.frames ?_ ?_ ?_
  · intro hown f' hf'
    rcases Task.mem_resume hf' with hnew | hold
    · exact hpushed f' hnew
    · exact (hown f' (hadv.frames ▸ List.mem_cons_of_mem f hold)).of_subset hsub
  · exact fun u hu f' hf' => (hu f' hf').of_subset hsub
  · intro _ u hu
    rw [hchildren] at hu
    exact absurd hu List.not_mem_nil

/-- A sandbox is given a network. -/
theorem NetnsInv.give {s s' : NetPool} (hinv : NetnsInv s) {i : Nat} {o : NetOracle}
    {t : Task NetCall NetFrame Result} {f : NetFrame} {k : List NetFrame} {st : Stamp}
    {r : SandboxRecord} {es : List LightrCri.Net.Effect}
    (hadv : Pool.Advance (netExec h env) s i o s' t f k (recorded r)) (hid : r.id = st.id)
    (hpath : ∀ p, r.netnsPath = some p → p = Net.joinPath NETNS_DIR (nsName st.id) ∧
      p ∉ s.shared.given.filterMap fun g => g.2.netnsPath)
    (hshared : s'.shared = { s.shared.does es with given := s.shared.given ++ [(st, r)] }) :
    NetnsInv s' := by
  have hgiven : s'.shared.given = s.shared.given ++ [(st, r)] := by rw [hshared]
  have hframes : ∀ t ∈ s'.tasks, ∀ f ∈ t.frames, f.Knows s'.shared := by
    refine hinv.frames_advance hadv (by rw [hgiven]; exact List.subset_append_left _ _) ?_ rfl
    intro f' hf'
    simp only [recorded, Outcome.pushed, List.mem_cons, List.not_mem_nil, or_false] at hf'
    rcases hf' with rfl | rfl | rfl
    · exact True.intro
    · refine ⟨(st, r), ?_, rfl⟩
      rw [hgiven]
      exact List.mem_append_right _ List.mem_cons_self
    · exact True.intro
  refine ⟨?_, ?_, fun g hg => ?_, ?_, fun id x hx => ?_, fun e he => ?_, hframes⟩
  · rw [hshared]
    exact hinv.older
  · rw [hshared]
    exact hinv.counters
  · rw [hgiven] at hg
    rcases List.mem_append.mp hg with hg | hg
    · exact hinv.given g hg
    · rw [List.mem_singleton.mp hg]
      exact ⟨hid, fun p hp => (hpath p hp).1⟩
  · rw [hgiven, List.filterMap_append]
    refine List.nodup_append.mpr ⟨hinv.paths, ?_, fun p hold p' hnew heq => ?_⟩
    · cases hp : r.netnsPath with
      | none => simp [hp]
      | some p => simp [hp]
    · obtain ⟨g, hg, hp⟩ := List.mem_filterMap.mp hnew
      rw [List.mem_singleton.mp hg] at hp
      exact (hpath p' hp).2 (heq ▸ hold)
  · rw [hshared] at hx ⊢
    obtain ⟨g, hg, hsame⟩ := hinv.cached id x hx
    exact ⟨g, List.mem_append_left _ hg, hsame⟩
  · rw [hshared] at he ⊢
    obtain ⟨g, hg, hsame⟩ := hinv.torn e he
    exact ⟨g, List.mem_append_left _ hg, hsame⟩

/-- The end of `cni_setup`. -/
theorem NetnsInv.add {s s' : NetPool} (hinv : NetnsInv s) {i : Nat} {o : NetOracle}
    {t : Task NetCall NetFrame Result} {st : Stamp} {cfg : SandboxConfig} {k : List NetFrame}
    {out : Outcome NetCall NetFrame Result}
    (hadv : Pool.Advance (netExec h env) s i o s' t (.add st cfg) k out) :
    (StampsApart h env s (.step i o) → NetnsInv s') ∧ (NoSharing s'.shared → StampsApart h env s (.step i o)) := by
  have hexec : (NetFrame.add st cfg).exec h env o s.shared = some (s'.shared, out) := hadv.exec
  have hapart : StampsApart h env s (.step i o) ↔ (AllAdded h env o.run.runs →
      ∀ g ∈ s.shared.given, g.2.netnsPath ≠ none → ¬ g.1.Collides st) := by
    unfold StampsApart
    dsimp only
    rw [hadv.top_eq]
  have hok := @addNetwork_isOk h env st.id st.path cfg.portMappings o.run.runs
  rw [hapart, ← hok]
  rcases hadd : addNetwork h env st.id st.path cfg.portMappings o.run.runs with ⟨es, e | ip⟩
  all_goals rw [NetFrame.exec, hadd] at hexec
  · refine ⟨fun _ => ?_, fun _ => nofun⟩
    obtain ⟨hshared, rfl⟩ := Prod.mk.inj (Option.some.inj hexec)
    have hframes := hinv.frames_advance hadv (by rw [← hshared]; exact fun _ hg => hg)
      (fun f' hf' => absurd hf' List.not_mem_nil) rfl
    exact hinv.of_given_eq (by rw [← hshared]; rfl) (by rw [← hshared]; rfl)
      (Nat.le_of_eq (by rw [← hshared]; rfl)) (by rw [← hshared]; exact hinv.cached)
      (by rw [← hshared]; exact hinv.torn) hframes
  · obtain ⟨hshared, rfl⟩ := Prod.mk.inj (Option.some.inj hexec)
    constructor
    · refine fun happ => hinv.give hadv rfl (fun p hp => ?_) hshared.symm
      obtain rfl := Option.some.inj hp
      refine ⟨rfl, fun hmem => ?_⟩
      obtain ⟨g, hg, hpath⟩ := List.mem_filterMap.mp hmem
      refine happ ⟨es, ip, rfl⟩ g hg (by rw [hpath]; exact Option.some_ne_none _) ?_
      exact nsPath_eq_iff.mp ((hinv.given g hg).2 _ hpath).symm
    · intro hno _ g hg hne hcollides
      obtain ⟨p, hp⟩ := Option.ne_none_iff_exists'.mp hne
      have hpaths := hno.paths
      rw [← hshared, List.filterMap_append] at hpaths
      refine (List.nodup_append.mp hpaths).2.2 p (List.mem_filterMap.mpr ⟨g, hg, hp⟩) _
        (List.mem_filterMap.mpr ⟨_, List.mem_cons_self, rfl⟩) ?_
      rw [(hinv.given g hg).2 p hp]
      exact nsPath_eq_iff.mpr hcollides

/-- The other steps. -/
theorem NetnsInv.advance {s s' : NetPool} (hinv : NetnsInv s) {i : Nat} {o : NetOracle}
    {t : Task NetCall NetFrame Result} {f : NetFrame} {k : List NetFrame}
    {out : Outcome NetCall NetFrame Result} (hadv : Pool.Advance (netExec h env) s i o s' t f k out)
    (hf : ∀ st cfg, f ≠ .add st cfg) : NetnsInv s' := by
  have hexec : f.exec h env o s.shared = some (s'.shared, out) := hadv.exec
  have hknows : f.Knows s.shared := hinv.frames t hadv.mem f (hadv.frames ▸ List.mem_cons_self)
  -- a step that gives no network, and pushes only frames that need to know nothing
  have hquiet (hgiven : s'.shared.given = s.shared.given)
      (hpushed : ∀ f' ∈ out.pushed, f'.Knows s'.shared) (hchildren : out.children = []) :
      ∀ t ∈ s'.tasks, ∀ f ∈ t.frames, f.Knows s'.shared :=
    hinv.frames_advance hadv (by rw [hgiven]; exact fun _ hg => hg) hpushed hchildren
  -- a step on files and plugins
  have hkept (hgiven : s'.shared.given = s.shared.given)
      (hstamps : s'.shared.stamps = s.shared.stamps)
      (hcounter : s'.shared.net.counter = s.shared.net.counter)
      (hsandboxes : s'.shared.net.sandboxes = s.shared.net.sandboxes)
      (htorn : s'.shared.torn = s.shared.torn)
      (hpushed : ∀ f' ∈ out.pushed, f'.Knows s'.shared) (hchildren : out.children = []) :
      NetnsInv s' :=
    hinv.of_given_eq hgiven hstamps (Nat.le_of_eq hcounter.symm)
      (by rw [hsandboxes]; exact hinv.cached) (by rw [htorn]; exact hinv.torn)
      (hquiet hgiven hpushed hchildren)
  have hnothing : ∀ f' ∈ ([] : List NetFrame), f'.Knows s'.shared :=
    fun _ hf' => absurd hf' List.not_mem_nil
  have hsame (hshared : s.shared = s'.shared) (hpushed : ∀ f' ∈ out.pushed, f'.Knows s'.shared)
      (hchildren : out.children = []) : NetnsInv s' := by
    refine hkept ?_ ?_ ?_ ?_ ?_ hpushed hchildren
    all_goals rw [hshared]
  cases f with
  | add st cfg => exact absurd rfl (hf st cfg)
  | newId cfg =>
    obtain ⟨hshared, hout⟩ := Prod.mk.inj (Option.some.inj hexec)
    have hframes := hquiet (by rw [← hshared])
      (by
        rw [← hout]
        intro f' hf'
        rw [List.mem_singleton.mp hf']
        exact True.intro) (by rw [← hout]; rfl)
    refine ⟨fun st hst => ?_, ?_, ?_, ?_, ?_, ?_, hframes⟩
    all_goals rw [← hshared] at *
    · rcases List.mem_append.mp hst with hst | hst
      · exact Nat.lt_succ_of_lt (hinv.older st hst)
      · rw [List.mem_singleton.mp hst]
        exact Nat.lt_succ_self _
    · dsimp only
      rw [List.map_append]
      refine List.nodup_append.mpr ⟨hinv.counters, List.pairwise_singleton _ _, fun c hc c' hc' heq => ?_⟩
      obtain ⟨st, hst, rfl⟩ := List.mem_map.mp hc
      have hlt := hinv.older st hst
      rw [heq, List.mem_singleton.mp hc'] at hlt
      exact Nat.lt_irrefl _ hlt
    · exact hinv.given
    · exact hinv.paths
    · exact hinv.cached
    · exact hinv.torn
  | create st cfg =>
    rw [NetFrame.exec] at hexec
    split at hexec
    · obtain ⟨hshared, rfl⟩ := Prod.mk.inj (Option.some.inj hexec)
      have hgives : s'.shared = { s.shared.does [] with given := s.shared.given ++
          [(st, ⟨st.id, cfg, .ready, o.stamp, none, none⟩)] } := by
        rw [← hshared, NetWorld.does, List.append_nil]
      exact hinv.give hadv rfl (fun p hp => by cases hp) hgives
    · split at hexec
      · -- the file is opened, or not
        have hopened {existed : Bool} (hopen : some
            (({ s.shared.does (if existed then [] else [.touch st.path]) with
              dir := s.shared.dir.touch st.path } : NetWorld),
              (.next [.pin st cfg] : Outcome NetCall NetFrame Result)) = some (s'.shared, out)) :
            NetnsInv s' := by
          obtain ⟨hshared, rfl⟩ := Prod.mk.inj (Option.some.inj hopen)
          refine hkept (by rw [← hshared]; rfl) (by rw [← hshared]; rfl) (by rw [← hshared]; rfl)
            (by rw [← hshared]; rfl) (by rw [← hshared]; rfl) (fun f' hf' => ?_) rfl
          rw [List.mem_singleton.mp hf']
          exact True.intro
        cases hcreation : o.run.creation with
        | dirFailed e | openFailed e =>
          rw [hcreation] at hexec
          obtain ⟨hshared, rfl⟩ := Prod.mk.inj (Option.some.inj hexec)
          exact hsame hshared hnothing rfl
        | threadFailed existed e =>
          rw [hcreation] at hexec
          exact hopened hexec
        | created existed =>
          rw [hcreation] at hexec
          exact hopened hexec
      · cases hexec
  | pin st cfg =>
    rw [NetFrame.exec] at hexec
    split at hexec
    · obtain ⟨hshared, rfl⟩ := Prod.mk.inj (Option.some.inj hexec)
      exact hsame hshared hnothing rfl
    · split at hexec
      · obtain ⟨hshared, rfl⟩ := Prod.mk.inj (Option.some.inj hexec)
        refine hkept (by rw [← hshared]; rfl) (by rw [← hshared]; rfl) (by rw [← hshared]; rfl)
          (by rw [← hshared]; rfl) (by rw [← hshared]; rfl) (fun f' hf' => ?_) rfl
        rw [List.mem_singleton.mp hf']
        exact True.intro
      · cases hexec
    · cases hexec
  | persist r =>
    rw [NetFrame.exec] at hexec
    split at hexec
    all_goals
      obtain ⟨hshared, rfl⟩ := Prod.mk.inj (Option.some.inj hexec)
      exact hsame hshared hnothing rfl
  | insert r =>
    obtain ⟨hshared, rfl⟩ := Prod.mk.inj (Option.some.inj hexec)
    refine hinv.of_given_eq (by rw [← hshared]) (by rw [← hshared]) (Nat.le_of_eq (by rw [← hshared]))
      (fun id x hx => ?_) (by rw [← hshared]; exact hinv.torn)
      (hquiet (by rw [← hshared]) hnothing rfl)
    rw [← hshared] at hx
    dsimp only at hx
    obtain ⟨g, hg, rfl⟩ := hknows
    by_cases hid : id = g.2.id
    · rw [hid, update_self] at hx
      obtain rfl := Option.some.inj hx
      exact ⟨g, hg, hid.symm, rfl⟩
    · rw [update_of_ne hid] at hx
      exact hinv.cached id x hx
  | stop id =>
    obtain ⟨hshared, hout⟩ := Prod.mk.inj (Option.some.inj hexec)
    obtain ⟨hcounter, -, -, hsandboxes⟩ := stopSandbox_frame s.shared.net id o.remove.writeError
    have hsilent : out.pushed = [] ∧ out.children = [] := by
      rw [← hout]
      split
      · exact ⟨rfl, rfl⟩
      · exact ⟨rfl, rfl⟩
    refine hinv.of_given_eq (by rw [← hshared]) (by rw [← hshared])
      (Nat.le_of_eq (hcounter.symm.trans (by rw [← hshared]))) (fun id' x hx => ?_)
      (by rw [← hshared]; exact hinv.torn)
      (hquiet (by rw [← hshared]) (by rw [hsilent.1]; exact hnothing) hsilent.2)
    rw [← hshared] at hx
    dsimp only at hx
    have hsame := hsandboxes id'
    rw [hx] at hsame
    obtain ⟨y, hy, hpath⟩ := Option.map_eq_some_iff.mp hsame.symm
    rw [← hpath]
    exact hinv.cached id' y hy
  | collect id =>
    rw [NetFrame.exec] at hexec
    cases hr : s.shared.net.sandboxes id with
    | none =>
      rw [hr] at hexec
      obtain ⟨hshared, rfl⟩ := Prod.mk.inj (Option.some.inj hexec)
      exact hsame hshared hnothing rfl
    | some r =>
      rw [hr] at hexec
      obtain ⟨hshared, rfl⟩ := Prod.mk.inj (Option.some.inj hexec)
      refine hsame hshared (fun f' hf' => ?_) rfl
      rw [← hshared]
      rcases List.mem_append.mp hf' with hf' | hf'
      · rcases List.mem_cons.mp hf' with rfl | hf'
        · exact True.intro
        · -- the namespace of the record is that of a sandbox that was given it
          obtain ⟨path, hpath, hf'⟩ := List.mem_flatMap.mp hf'
          obtain ⟨g, hg, hid, hsame⟩ := hinv.cached id r hr
          have hown := hsame.trans (Option.mem_toList.mp hpath)
          rcases List.mem_cons.mp hf' with rfl | hf'
          · exact ⟨g, hg, hid, hown⟩
          · rw [List.mem_singleton.mp hf']
            exact ⟨g, hg, hid, hown⟩
      · rw [List.mem_singleton.mp hf']
        exact True.intro
  | cascade =>
    rw [NetFrame.exec] at hexec
    split at hexec
    all_goals
      obtain ⟨hshared, rfl⟩ := Prod.mk.inj (Option.some.inj hexec)
      exact hsame hshared hnothing rfl
  | del id path =>
    obtain ⟨hshared, rfl⟩ := Prod.mk.inj (Option.some.inj hexec)
    exact hkept (by rw [← hshared]; rfl) (by rw [← hshared]; rfl) (by rw [← hshared]; rfl)
      (by rw [← hshared]; rfl) (by rw [← hshared]; rfl) hnothing rfl
  | umount id path =>
    rw [NetFrame.exec] at hexec
    split at hexec
    · obtain ⟨hshared, rfl⟩ := Prod.mk.inj (Option.some.inj hexec)
      exact hsame hshared hnothing rfl
    · split at hexec
      · obtain ⟨hshared, rfl⟩ := Prod.mk.inj (Option.some.inj hexec)
        refine hinv.of_given_eq (by rw [← hshared]; rfl) (by rw [← hshared]; rfl)
          (Nat.le_of_eq (by rw [← hshared]; rfl)) (by rw [← hshared]; exact hinv.cached)
          (fun e he => ?_) (hquiet (by rw [← hshared]; rfl) (fun f' hf' => ?_) rfl)
        · rw [← hshared] at he
          rcases List.mem_append.mp he with he | he
          · exact hinv.torn e he
          · rw [List.mem_singleton.mp he]
            exact hknows
        · rw [List.mem_singleton.mp hf']
          exact True.intro
      · cases hexec
  | unlink path =>
    rw [NetFrame.exec] at hexec
    split at hexec
    · obtain ⟨hshared, rfl⟩ := Prod.mk.inj (Option.some.inj hexec)
      exact hsame hshared hnothing rfl
    · split at hexec
      · obtain ⟨hshared, rfl⟩ := Prod.mk.inj (Option.some.inj hexec)
        exact hkept (by rw [← hshared]; rfl) (by rw [← hshared]; rfl) (by rw [← hshared]; rfl)
          (by rw [← hshared]; rfl) (by rw [← hshared]; rfl) hnothing rfl
      · cases hexec
  | delete id =>
    obtain ⟨hshared, rfl⟩ := Prod.mk.inj (Option.some.inj hexec)
    refine hinv.of_given_eq (by rw [← hshared]) (by rw [← hshared]) (Nat.le_of_eq (by rw [← hshared]))
      (fun id' x hx => ?_) (by rw [← hshared]; exact hinv.torn)
      (hquiet (by rw [← hshared]) hnothing rfl)
    rw [← hshared] at hx
    dsimp only at hx
    by_cases hid : id' = id
    · rw [hid, update_self] at hx
      cases hx
    · rw [update_of_ne hid] at hx
      exact hinv.cached id' x hx
  | newContainerId =>
    obtain ⟨hshared, rfl⟩ := Prod.mk.inj (Option.some.inj hexec)
    exact hinv.of_given_eq (by rw [← hshared]) (by rw [← hshared]) (by rw [← hshared]; exact Nat.le_succ _)
      (by rw [← hshared]; exact hinv.cached) (by rw [← hshared]; exact hinv.torn)
      (hquiet (by rw [← hshared]) hnothing rfl)
  | ret v =>
    obtain ⟨hshared, rfl⟩ := Prod.mk.inj (Option.some.inj hexec)
    exact hsame hshared hnothing rfl

theorem NetnsInv.step {s s' : NetPool} (hinv : NetnsInv s) {l : NetPoolLabel}
    (hstep : netPoolStep h env s l = some s') :
    (StampsApart h env s l → NetnsInv s') ∧ (NoSharing s'.shared → StampsApart h env s l) := by
  cases l with
  | invoke c =>
    obtain rfl := Option.some.inj hstep
    refine ⟨fun _ => hinv.of_given_eq rfl rfl (Nat.le_refl _) hinv.cached hinv.torn fun t ht f hf => ?_,
      fun _ => True.intro⟩
    rcases Pool.mem_tasks_start.mp ht with ht | rfl
    · exact hinv.frames t ht f hf
    · cases c <;> simp only [NetCall.frames, List.mem_cons, List.not_mem_nil, or_false] at hf
      · rw [hf]
        exact True.intro
      · rcases hf with rfl | rfl <;> exact True.intro
      · rcases hf with rfl | rfl | rfl <;> exact True.intro
      · rw [hf]
        exact True.intro
  | step i o =>
    obtain ⟨t, f, k, out, hadv⟩ := Pool.advance_eq_some hstep
    by_cases hf : ∃ st cfg, f = .add st cfg
    · obtain ⟨st, cfg, rfl⟩ := hf
      exact hinv.add hadv
    · have hother : ∀ st cfg, f ≠ .add st cfg := fun st cfg heq => hf ⟨st, cfg, heq⟩
      refine ⟨fun _ => hinv.advance hadv hother, fun _ => ?_⟩
      unfold StampsApart
      dsimp only
      rw [hadv.top_eq]
      cases f with
      | add st cfg => exact absurd rfl (hother st cfg)
      | _ => exact True.intro

theorem NetnsInv.init (d : NetnsDir) : NetnsInv (.init d) where
  older _ ht := absurd ht List.not_mem_nil
  counters := List.nodup_nil
  given _ hg := absurd hg List.not_mem_nil
  paths := List.nodup_nil
  cached := nofun
  torn _ he := absurd he List.not_mem_nil
  frames _ ht := absurd ht List.not_mem_nil

end

/-- **Namespaces are not shared** exactly if the ids of the sandboxes that are given one do not
collide: in whatever order the steps of the calls are taken, and whatever the clock shows. -/
theorem netns_apart {h : Host} {env : CniEnv} {d : NetnsDir} {ls : List NetPoolLabel} {s : NetPool}
    (hrun : run (netPoolStep h env) (.init d) ls = some s) :
    (∀ ls' s', ls' <+: ls → run (netPoolStep h env) (.init d) ls' = some s' → NoSharing s'.shared) ↔
      Along (netPoolStep h env) (StampsApart h env) (.init d) ls :=
  along_iff (I := NetnsInv) (fun _ hinv => hinv.noSharing) (fun _ _ _ hinv hstep => hinv.step hstep)
    (.init d) hrun

def tick : Nat := 1700000000000000000

def NetnsDir.empty : NetnsDir := ⟨fun _ => false, fun _ => 0⟩

/-- `n` containers get their ids. -/
def containerIds (i n : Nat) : List NetPoolLabel :=
  (List.range n).flatMap fun j => [.invoke .createContainer, .step (i + j) {}]

/-- The task `i` opens the file of the namespace of its sandbox. -/
def sandboxCreate (i : Nat) (existed : Bool) : List NetPoolLabel :=
  .invoke (.runSandbox { name := "pod" }) :: List.replicate 2 (.step i
    { nanos := tick, run := ⟨.created existed, fun _ => .succeeded (.ok "\x7b\x7d"), none⟩ })

/-- It mounts the namespace, and the sandbox runs. -/
def sandboxAdd (i : Nat) : List NetPoolLabel := List.replicate 5 (.step i {})

/-- Two sandboxes of one clock reading, with the counters 0 and 1. -/
def twoSandboxes : List NetPoolLabel :=
  sandboxCreate 0 false ++ sandboxAdd 0 ++ (sandboxCreate 1 false ++ sandboxAdd 1)

/-- The step sets up no network, or that of a sandbox whose id does not collide. -/
def apart (s : NetPool) : NetPoolLabel → Bool
  | .step i _ =>
    match s.top i with
    | some (.add t _) => s.shared.given.all fun g => !decide (g.1.Collides t)
    | _ => true
  | .invoke _ => true

theorem StampsApart.of_apart {h : Host} {env : CniEnv} {s : NetPool} {l : NetPoolLabel}
    (hapart : apart s l = true) : StampsApart h env s l := by
  cases l with
  | invoke c => exact True.intro
  | step i o =>
    unfold StampsApart
    dsimp only
    cases htop : s.top i with
    | none => exact True.intro
    | some f =>
      cases f with
      | add t cfg =>
        intro _ g hg _
        rw [apart, htop] at hapart
        simpa using List.all_eq_true.mp hapart g hg
      | _ => exact True.intro

/-- The sandboxes of the run that have a network, and the namespaces that were unmounted. -/
def netnsOf (ls : List NetPoolLabel) :
    Option (List (Stamp × Option String) × List (SandboxId × String)) :=
  (run (netPoolStep quietHost (chainOf bridge)) (.init .empty) ls).map fun s =>
    (s.shared.given.map fun g => (g.1, g.2.netnsPath), s.shared.torn)

theorem netns_apart_twoSandboxes : ∃ s,
    run (netPoolStep quietHost (chainOf bridge)) (.init .empty) twoSandboxes = some s ∧
      NoSharing s.shared ∧ s.shared.given.map Prod.fst = [⟨tick, 0⟩, ⟨tick, 1⟩] := by
  have hof : netnsOf twoSandboxes = some ([(⟨tick, 0⟩, some (Stamp.path ⟨tick, 0⟩)),
      (⟨tick, 1⟩, some (Stamp.path ⟨tick, 1⟩))], []) := by decide +kernel
  obtain ⟨s, hs, hgiven⟩ := Option.map_eq_some_iff.mp hof
  have halong : Along (netPoolStep quietHost (chainOf bridge)) (fun s l => apart s l = true)
      (.init .empty) twoSandboxes := by decide +kernel
  refine ⟨s, hs, (netns_apart hs).mpr (halong.mono fun _ _ => .of_apart) _ s (List.prefix_refl _) hs, ?_⟩
  have hfst := congrArg (List.map Prod.fst) (congrArg Prod.fst hgiven)
  rwa [List.map_map] at hfst

/-- The kernel does not unlink a file with a namespace mounted on it. -/
def busy : NetOracle where
  remove := {
    runs := fun _ => .succeeded (.ok "\x7b\x7d")
    teardown := { unlinkError := some "Device or resource busy (os error 16)" } }

/-- Two sandboxes of one clock reading, with the counters 1 and 10. Both open the file before a
namespace is mounted on it; then the second is removed. -/
def openedTwice : List NetPoolLabel :=
  containerIds 0 1 ++ sandboxCreate 1 false ++ containerIds 2 8 ++ sandboxCreate 10 true ++
    sandboxAdd 10 ++ sandboxAdd 1 ++
    NetPoolLabel.invoke (.removeSandbox (Stamp.id ⟨tick, 10⟩)) :: List.replicate 6 (.step 11 busy)

/-- **A shared namespace**: with the counters 1 and 10 two sandboxes of one clock reading get the
same path, and with the second one the namespace is unmounted that was mounted for the first. -/
theorem shared_netns : ∃ s,
    run (netPoolStep quietHost (chainOf bridge)) (.init .empty) openedTwice = some s ∧
      s.shared.given.map (fun g => (g.1, g.2.netnsPath)) =
        [(⟨tick, 10⟩, some (Stamp.path ⟨tick, 1⟩)), (⟨tick, 1⟩, some (Stamp.path ⟨tick, 1⟩))] ∧
      s.shared.torn = [(Stamp.id ⟨tick, 10⟩, Stamp.path ⟨tick, 1⟩)] ∧ ¬ NoSharing s.shared := by
  have hof : netnsOf openedTwice = some
      ([(⟨tick, 10⟩, some (Stamp.path ⟨tick, 1⟩)), (⟨tick, 1⟩, some (Stamp.path ⟨tick, 1⟩))],
        [(Stamp.id ⟨tick, 10⟩, Stamp.path ⟨tick, 1⟩)]) := by
    decide +kernel
  obtain ⟨s, hs, hgiven⟩ := Option.map_eq_some_iff.mp hof
  have hpaths := congrArg Prod.fst hgiven
  refine ⟨s, hs, hpaths, congrArg Prod.snd hgiven, fun hno => ?_⟩
  have hnodup := hno.paths
  have hsnd := congrArg (List.filterMap Prod.snd) hpaths
  rw [List.filterMap_map] at hsnd
  rw [show (s.shared.given.filterMap fun g => g.2.netnsPath) = _ from hsnd] at hnodup
  exact (List.nodup_cons.mp hnodup).1 List.mem_cons_self

end LightrCri.Fake

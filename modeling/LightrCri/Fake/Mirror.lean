import LightrCri.Foundations.Runs
import LightrCri.Fake.Network
import Mathlib.Data.List.Forall2

/-!
# DEL after ADD

Sequences of the calls that work on the network, one after the other: `run_sandbox` gives the
plugins of the chain their ADD, and `remove_sandbox` their DEL, between whatever other calls. The
calls of the other planes leave all of this alone.

`del_mirrors_add`: the DELs of a sandbox that is removed are its ADDs in reverse, with the same
container id, namespace and configuration, exactly if the host ports of the sandbox make no
difference to the configuration of any plugin: `cni_teardown` runs the chain without them.
-/

namespace LightrCri.Fake

open Backend Foundations Net Function

structure NetState where
  counter : Nat
  sandboxes : SandboxId → Option SandboxRecord
  /-- The sandboxes that `run_sandbox` has returned. -/
  made : List SandboxRecord
  /-- What was done to the host. -/
  effects : List Effect

/-- What a call of `remove_sandbox` gets from outside. -/
structure RemoveOracle where
  /-- The error of the write in `stop_sandbox`. -/
  writeError : Option String := none
  /-- The error of stopping or removing a container. -/
  cascadeError : Option BackendError := none
  runs : Nat → PluginRun
  teardown : Teardown := {}

inductive NetLabel
  | run (clock stamp : Int) (cfg : SandboxConfig) (o : RunOracle)
  | stop (id : SandboxId) (writeError : Option String)
  | remove (id : SandboxId) (o : RemoveOracle)

section

variable (h : Host) (env : CniEnv)

/-- `cni_teardown`: the chain is run without port mappings. -/
def cniTeardown (id : SandboxId) (path : String) (o : RemoveOracle) : List Effect :=
  (if env.available then
    match env.conflist with
    | some conflist => (h.del conflist id.val path [] o.runs).1
    | none => []
  else []) ++ teardownNetns path o.teardown

/-- `stop_sandbox`, and whether it returns an error. -/
def stopSandbox (s : NetState) (id : SandboxId) (writeError : Option String) : NetState × Bool :=
  match s.sandboxes id with
  | none => (s, false)
  | some r =>
    if r.state = .notReady then (s, false)
    else
      ({ s with sandboxes := update s.sandboxes id (some { r with state := .notReady }) },
        writeError.isSome)

/-- One call. -/
def netStep (s : NetState) : NetLabel → Option NetState
  | .run clock stamp cfg o =>
    let id : SandboxId := ⟨newId "sb-" clock s.counter⟩
    let r := runSandbox h env id stamp cfg o
    let s := { s with counter := s.counter + 1, effects := s.effects ++ r.1 }
    match r.2 with
    | .error _ => some s
    | .ok r =>
      some { s with sandboxes := update s.sandboxes id (some r), made := s.made ++ [r] }
  | .stop id writeError => some (stopSandbox s id writeError).1
  | .remove id o =>
    match stopSandbox s id o.writeError with
    | (s, true) => some s
    | (s, false) =>
      match s.sandboxes id with
      | none => some s
      | some r =>
        if o.cascadeError.isSome then some s
        else
          some { s with
            effects := s.effects ++ r.netnsPath.elim [] fun path => cniTeardown h env id path o
            sandboxes := update s.sandboxes id none }

end

def NetState.init : NetState := ⟨0, fun _ => none, [], []⟩

/-! ## ADDs and DELs of a sandbox -/

/-- The plugin is run with this command for the container. -/
def Net.Effect.invocation (c : Command) (id : SandboxId) : Effect → Option Invocation
  | .exec i _ => if i.command = c ∧ i.containerId = id.val then some i else none
  | _ => none

def invocations (c : Command) (id : SandboxId) (es : List Effect) : List Invocation :=
  es.filterMap (Net.Effect.invocation c id)

/-- The DEL is for what the ADD was for: the same plugin, container, namespace and, but for the
previous result, configuration. -/
structure Mirrors (add del : Invocation) : Prop where
  plugin : add.plugin = del.plugin
  containerId : add.containerId = del.containerId
  netns : add.netns = del.netns
  config : ∀ k, k ≠ "prevResult" → add.config.get k = del.config.get k

/-- Every ADD for the sandbox has just one DEL, in reverse order, and there is no other DEL. -/
def Mirrored (id : SandboxId) (es : List Effect) : Prop :=
  List.Forall₂ Mirrors (invocations .add id es) (invocations .del id es).reverse

/-- The ports of the sandbox make no difference to the plugin. -/
def Unported (mappings : List PortMapping) (plugin : Json) : Prop :=
  hasPortMappings plugin = true → hostMappings mappings = [] ∨
    plugin.get "runtimeConfig" = some (runtimeConfig (hostMappings mappings))

theorem forall₂_mirrors {version name containerId netns : String} {mappings : List PortMapping}
    {plugins : List Json} {adds dels : List Invocation}
    (hadds : List.Forall₂ (fun plugin i => Host.IsAdd version name containerId netns mappings plugin
      (.exec i true)) plugins adds)
    (hdels : List.Forall₂ (fun plugin i => ∃ b, Host.IsDel version name containerId netns [] plugin
      (.exec i b)) plugins dels) :
    List.Forall₂ Mirrors adds dels ↔ ∀ plugin ∈ plugins, Unported mappings plugin := by
  induction hadds generalizing dels with
  | nil =>
    cases hdels
    exact ⟨fun _ _ h => absurd h List.not_mem_nil, fun _ => .nil⟩
  | @cons plugin add plugins adds hadd hrest ih =>
    obtain _ | ⟨hdel, hrest'⟩ := hdels
    obtain ⟨type, prevResult, htype, hadd⟩ := hadd
    obtain ⟨b, type', started, htype', hdel⟩ := hdel
    obtain ⟨rfl, -⟩ := Effect.exec.inj hadd
    obtain ⟨rfl, -⟩ := Effect.exec.inj hdel
    obtain rfl : type = type' := Except.ok.inj (htype.symm.trans htype')
    rw [List.forall₂_cons, List.forall_mem_cons, ih hrest']
    refine and_congr_left fun _ => ?_
    refine Iff.trans ?_ (derivePluginConfig_mappings plugin version name prevResult mappings)
    exact ⟨fun h => h.config, fun h => ⟨rfl, rfl, rfl, h⟩⟩

/-! ## What a sequence keeps -/

theorem invocations_append (c : Command) (id : SandboxId) (es es' : List Effect) :
    invocations c id (es ++ es') = invocations c id es ++ invocations c id es' :=
  List.filterMap_append

/-- What is not run for the container with the command is not counted. -/
theorem invocations_eq_nil {c : Command} {id : SandboxId} {es : List Effect}
    (h : ∀ i b, .exec i b ∈ es → i.command = c → i.containerId ≠ id.val) :
    invocations c id es = [] := by
  refine List.filterMap_eq_nil_iff.mpr fun e he => ?_
  cases e with
  | exec i b => exact if_neg fun hi => h i b he hi.1 hi.2
  | _ => rfl

theorem forall₂_invocations {c : Command} {id : SandboxId} {R : Json → Effect → Prop}
    {plugins : List Json} {es : List Effect} (h : List.Forall₂ R plugins es)
    (hR : ∀ plugin e, R plugin e → ∃ i b, e = .exec i b ∧ i.command = c ∧ i.containerId = id.val) :
    List.Forall₂ (fun plugin i => ∃ b, R plugin (.exec i b)) plugins (invocations c id es) := by
  induction h with
  | nil => exact .nil
  | @cons plugin e plugins es hhead _ ih =>
    obtain ⟨i, b, rfl, hcommand, hid⟩ := hR plugin e hhead
    have hcons : invocations c id (.exec i b :: es) = i :: invocations c id es :=
      List.filterMap_cons_some (if_pos ⟨hcommand, hid⟩)
    rw [hcons]
    exact .cons ⟨b, hhead⟩ ih

/-- The chain of the host, all of whose plugins have types. -/
structure Chain (env : CniEnv) (conflist : Json) (plugins : List Json) : Prop where
  found : env.conflist = some (.ok conflist)
  chain : conflistPlugins conflist = .ok plugins
  typed : ∀ plugin ∈ plugins, ∃ type, pluginType plugin = .ok type

/-- The ADDs of a sandbox. -/
def AddsOf (env : CniEnv) (r : SandboxRecord) (adds : List Invocation) : Prop :=
  match r.netnsPath with
  | none => adds = []
  | some path => ∃ conflist plugins, Chain env conflist plugins ∧
    List.Forall₂ (fun plugin i => Host.IsAdd (conflistVersion conflist) (conflistName conflist)
      r.id.val path r.config.portMappings plugin (.exec i true)) plugins adds

/-- The DELs of a sandbox that is removed, the last one first. -/
def DelsOf (env : CniEnv) (r : SandboxRecord) (dels : List Invocation) : Prop :=
  match r.netnsPath with
  | none => dels = []
  | some path => ∀ conflist plugins, Chain env conflist plugins →
    List.Forall₂ (fun plugin i => ∃ b, Host.IsDel (conflistVersion conflist) (conflistName conflist)
      r.id.val path [] plugin (.exec i b)) plugins dels

/-- What is so of a sandbox that was made. -/
structure Traced (env : CniEnv) (s : NetState) (r : SandboxRecord) : Prop where
  network : r.netnsPath = none ↔ r.config.hostNetwork = true ∨ env.available = false
  present : ∀ p, s.sandboxes r.id = some p → p.netnsPath = r.netnsPath
  adds : AddsOf env r (invocations .add r.id s.effects)
  held : s.sandboxes r.id ≠ none → invocations .del r.id s.effects = []
  gone : s.sandboxes r.id = none → DelsOf env r (invocations .del r.id s.effects).reverse

/-- The id is older than the counter. -/
def Older (id : String) (counter : Nat) : Prop := ∃ n c, id = newId "sb-" n c ∧ c < counter

structure NetInv (env : CniEnv) (s : NetState) : Prop where
  ids : ∀ i b, .exec i b ∈ s.effects → Older i.containerId s.counter
  made : ∀ r ∈ s.made, Older r.id.val s.counter
  held : ∀ id p, s.sandboxes id = some p → Older id.val s.counter
  traced : ∀ r ∈ s.made, Traced env s r

theorem Older.succ {id : String} {counter : Nat} (h : Older id counter) : Older id (counter + 1) := by
  obtain ⟨n, c, rfl, hc⟩ := h
  exact ⟨n, c, rfl, by omega⟩

theorem Older.ne {id : String} {counter : Nat} (h : Older id counter) (clock : Int) :
    id ≠ newId "sb-" clock counter := by
  rintro rfl
  obtain ⟨n, c, heq, hc⟩ := h
  have := newId_counter heq
  omega

section

variable {h : Host} {env : CniEnv} {s s' : NetState} {r : SandboxRecord}

/-- What is done for other sandboxes, and to other records, keeps what is so of this one. -/
theorem Traced.of_other (ht : Traced env s r) {es : List Effect}
    (heffects : s'.effects = s.effects ++ es)
    (hother : ∀ i b, .exec i b ∈ es → i.containerId ≠ r.id.val)
    (hsandboxes : (s'.sandboxes r.id).map SandboxRecord.netnsPath =
      (s.sandboxes r.id).map SandboxRecord.netnsPath) : Traced env s' r := by
  have hinv (c : Command) : invocations c r.id s'.effects = invocations c r.id s.effects := by
    rw [heffects, invocations_append, invocations_eq_nil fun i b hi _ => hother i b hi,
      List.append_nil]
  have hnone : s'.sandboxes r.id = none ↔ s.sandboxes r.id = none := by
    rw [← Option.map_eq_none_iff (f := SandboxRecord.netnsPath), hsandboxes, Option.map_eq_none_iff]
  refine ⟨ht.network, fun p hp => ?_, hinv .add ▸ ht.adds, fun hne => hinv .del ▸ ht.held ?_,
    fun hgone => hinv .del ▸ ht.gone (hnone.mp hgone)⟩
  · rw [hp] at hsandboxes
    obtain ⟨p', hp', hpath⟩ := Option.map_eq_some_iff.mp hsandboxes.symm
    rw [← hpath]
    exact ht.present p' hp'
  · exact fun hgone => hne (hnone.mpr hgone)

/-! ### `run_sandbox` -/

variable {id : SandboxId} {stamp : Int} {cfg : SandboxConfig} {o : RunOracle}

theorem mem_createNetns {name : String} {creation : Creation} {e : Effect}
    (he : e ∈ (createNetns name creation).1) : ∀ i b, e ≠ .exec i b := by
  rintro i b rfl
  cases creation with
  | threadFailed existed _ => cases existed <;> simp [createNetns] at he
  | created existed => cases existed <;> simp [createNetns] at he
  | _ => simp [createNetns] at he

theorem mem_cniSetup {mappings : List PortMapping} {i : Invocation} {b : Bool}
    (hi : .exec i b ∈ (cniSetup h env id mappings o).1) :
    i.command = .add ∧ i.containerId = id.val := by
  unfold cniSetup at hi
  rcases hcreate : createNetns (nsName id) o.creation with ⟨es, e | path⟩
  · have hmem := @mem_createNetns (nsName id) o.creation (.exec i b)
    rw [hcreate] at hi hmem
    exact absurd rfl (hmem hi i b)
  · have hmem := @mem_createNetns (nsName id) o.creation (.exec i b)
    rw [hcreate] at hi hmem
    dsimp only at hi hmem
    cases hconflist : env.conflist with
    | none =>
      rw [hconflist] at hi
      exact absurd rfl (hmem hi i b)
    | some conflist =>
      rw [hconflist] at hi
      dsimp only at hi
      have hadd : .exec i b ∈ (h.add conflist id.val path mappings o.runs).1 := by
        rcases hadd : h.add conflist id.val path mappings o.runs with ⟨es', e | ip⟩
        all_goals
          rw [hadd] at hi
          exact (List.mem_append.mp hi).resolve_left fun hes => hmem hes i b rfl
      obtain ⟨i', b', heq, hcommand, hid⟩ := Host.mem_add hadd
      obtain ⟨rfl, -⟩ := Effect.exec.inj heq
      exact ⟨hcommand, hid⟩

theorem mem_runSandbox {i : Invocation} {b : Bool}
    (hi : .exec i b ∈ (runSandbox h env id stamp cfg o).1) :
    i.command = .add ∧ i.containerId = id.val := by
  rw [runSandbox_effects, setupNetwork] at hi
  split at hi
  · exact absurd hi List.not_mem_nil
  · split at hi
    · have hmem := @mem_cniSetup h env id o cfg.portMappings i b
      rcases hsetup : cniSetup h env id cfg.portMappings o with ⟨es, e | ⟨ip, path⟩⟩
      all_goals
        rw [hsetup] at hi hmem
        exact hmem hi
    · exact absurd hi List.not_mem_nil

/-- The record of a sandbox that `run_sandbox` returns, and its ADDs. -/
theorem runSandbox_ok (hrun : (runSandbox h env id stamp cfg o).2 = .ok r) :
    r.id = id ∧ r.config = cfg ∧
      (r.netnsPath = none ↔ cfg.hostNetwork = true ∨ env.available = false) ∧
      AddsOf env r (invocations .add id (runSandbox h env id stamp cfg o).1) := by
  rw [runSandbox_effects]
  unfold runSandbox at hrun
  rcases hsetup : setupNetwork h env id cfg o with ⟨es, e | ⟨ip, netnsPath⟩⟩
  · rw [hsetup] at hrun
    cases hrun
  · rw [hsetup] at hrun
    dsimp only at hrun
    split at hrun
    · cases hrun
    · obtain rfl := Except.ok.inj hrun
      refine ⟨rfl, rfl, ?_⟩
      dsimp only
      unfold setupNetwork at hsetup
      split at hsetup
      · rename_i hhost
        obtain ⟨rfl, heq⟩ := Prod.mk.inj hsetup
        obtain ⟨-, rfl⟩ := Prod.mk.inj (Except.ok.inj heq)
        exact ⟨⟨fun _ => .inl hhost, fun _ => rfl⟩, rfl⟩
      · rename_i hhost
        split at hsetup
        · rename_i havailable
          rcases hcni : cniSetup h env id cfg.portMappings o with ⟨es', e | ⟨ip', path⟩⟩
          · rw [hcni] at hsetup
            cases hsetup
          · rw [hcni] at hsetup
            obtain ⟨rfl, heq⟩ := Prod.mk.inj hsetup
            obtain ⟨-, rfl⟩ := Prod.mk.inj (Except.ok.inj heq)
            refine ⟨⟨nofun, ?_⟩, ?_⟩
            · rintro (hhost' | havailable')
              · exact absurd hhost' hhost
              · exact absurd havailable (by rw [havailable']; decide)
            · obtain ⟨existed, conflist, plugins, adds, result, hcreation, hconflist, hplugins, hadd,
                rfl, -, rfl⟩ := cniSetup_ok.mp hcni
              have hall := Host.addFrom_isOk.mp ⟨adds, result, hadd⟩
              refine ⟨conflist, plugins, ⟨hconflist, hplugins, fun plugin hp => ?_⟩, ?_⟩
              · obtain ⟨k, hk⟩ := List.getElem?_of_mem hp
                exact (hall k plugin hk).1
              · rw [invocations_append, invocations_eq_nil fun i b hi => absurd rfl
                  (mem_createNetns hi i b), List.nil_append]
                refine List.Forall₂.imp ?_ (forall₂_invocations (Host.forall₂_addFrom hadd) ?_)
                · rintro plugin i ⟨b, type, prevResult, htype, heq⟩
                  obtain ⟨rfl, -⟩ := Effect.exec.inj heq
                  exact ⟨type, prevResult, htype, rfl⟩
                · rintro plugin e ⟨type, prevResult, -, rfl⟩
                  exact ⟨_, _, rfl, rfl, rfl⟩
        · rename_i havailable
          obtain ⟨rfl, heq⟩ := Prod.mk.inj hsetup
          obtain ⟨-, rfl⟩ := Prod.mk.inj (Except.ok.inj heq)
          exact ⟨⟨fun _ => .inr (eq_false_of_ne_true havailable), fun _ => rfl⟩, rfl⟩

/-! ### `stop_sandbox` and `remove_sandbox` -/

theorem stopSandbox_frame (s : NetState) (id : SandboxId) (e : Option String) :
    (stopSandbox s id e).1.counter = s.counter ∧ (stopSandbox s id e).1.made = s.made ∧
      (stopSandbox s id e).1.effects = s.effects ∧
      ∀ id', ((stopSandbox s id e).1.sandboxes id').map SandboxRecord.netnsPath =
        (s.sandboxes id').map SandboxRecord.netnsPath := by
  unfold stopSandbox
  split
  · exact ⟨rfl, rfl, rfl, fun _ => rfl⟩
  · rename_i r hr
    split
    · exact ⟨rfl, rfl, rfl, fun _ => rfl⟩
    · refine ⟨rfl, rfl, rfl, fun id' => ?_⟩
      dsimp only
      by_cases hid : id' = id
      · subst hid
        rw [update_self, hr]
        rfl
      · rw [update_of_ne hid]

theorem NetInv.stop (hinv : NetInv env s) (id : SandboxId) (e : Option String) :
    NetInv env (stopSandbox s id e).1 := by
  obtain ⟨hcounter, hmade, heffects, hsandboxes⟩ := stopSandbox_frame s id e
  refine ⟨?_, ?_, fun id' p hp => ?_, fun r hr => ?_⟩
  · rw [hcounter, heffects]
    exact hinv.ids
  · rw [hcounter, hmade]
    exact hinv.made
  · obtain ⟨p', hp', -⟩ := Option.map_eq_some_iff.mp ((hsandboxes id').symm.trans
      (congrArg (Option.map SandboxRecord.netnsPath) hp))
    rw [hcounter]
    exact hinv.held id' p' hp'
  · rw [hmade] at hr
    exact @Traced.of_other _ _ _ _ (hinv.traced r hr) [] (by rw [heffects, List.append_nil])
      (fun _ _ h => absurd h List.not_mem_nil) (hsandboxes r.id)

theorem mem_cniTeardown {id : SandboxId} {path : String} {o : RemoveOracle} {i : Invocation}
    {b : Bool} (hi : .exec i b ∈ cniTeardown h env id path o) :
    i.command = .del ∧ i.containerId = id.val := by
  rcases List.mem_append.mp hi with hi | hi
  · split at hi
    · split at hi
      · obtain ⟨i', b', heq, hcommand, hid⟩ := Host.mem_del hi
        obtain ⟨rfl, -⟩ := Effect.exec.inj heq
        exact ⟨hcommand, hid⟩
      · exact absurd hi List.not_mem_nil
    · exact absurd hi List.not_mem_nil
  · unfold teardownNetns at hi
    split at hi <;> simp at hi

/-- The DELs of `remove_sandbox`. -/
theorem delsOf_cniTeardown {path : String} {o : RemoveOracle} (hpath : r.netnsPath = some path)
    (havailable : env.available = true) :
    DelsOf env r (invocations .del r.id (cniTeardown h env r.id path o)).reverse := by
  unfold DelsOf
  rw [hpath]
  intro conflist plugins hchain
  have hteardown : invocations .del r.id (teardownNetns path o.teardown) = [] := by
    refine invocations_eq_nil fun i b hi _ => ?_
    unfold teardownNetns at hi
    split at hi <;> simp at hi
  rw [cniTeardown, if_pos havailable, hchain.found, invocations_append, hteardown, List.append_nil]
  dsimp only
  rw [Host.del, hchain.chain]
  refine List.forall₂_reverse_iff.mp ?_
  rw [List.reverse_reverse]
  refine forall₂_invocations (Host.forall₂_delFrom fun plugin hp => ?_) ?_
  · exact hchain.typed plugin (List.mem_reverse.mp hp)
  · rintro plugin e ⟨type, started, -, rfl⟩
    exact ⟨_, _, rfl, rfl, rfl⟩

theorem NetInv.remove (hinv : NetInv env s) {id : SandboxId} {p : SandboxRecord}
    (hp : s.sandboxes id = some p) (o : RemoveOracle) :
    NetInv env { s with
      effects := s.effects ++ p.netnsPath.elim [] fun path => cniTeardown h env id path o
      sandboxes := update s.sandboxes id none } := by
  have hnew : ∀ i b, .exec i b ∈ (p.netnsPath.elim [] fun path => cniTeardown h env id path o) →
      i.command = .del ∧ i.containerId = id.val := by
    intro i b hi
    cases hpath : p.netnsPath with
    | none =>
      rw [hpath] at hi
      exact absurd hi List.not_mem_nil
    | some path =>
      rw [hpath] at hi
      exact mem_cniTeardown hi
  refine ⟨fun i b hi => ?_, hinv.made, fun id' p' hp' => ?_, fun r hr => ?_⟩
  · rcases List.mem_append.mp hi with hi | hi
    · exact hinv.ids i b hi
    · rw [(hnew i b hi).2]
      exact hinv.held id p hp
  · dsimp only at hp'
    by_cases hid : id' = id
    · rw [hid, update_self] at hp'
      cases hp'
    · rw [update_of_ne hid] at hp'
      exact hinv.held id' p' hp'
  · have ht := hinv.traced r hr
    by_cases hid : r.id = id
    · subst hid
      have hpath := ht.present p hp
      have hadds : invocations .add r.id (p.netnsPath.elim []
          fun path => cniTeardown h env r.id path o) = [] :=
        invocations_eq_nil fun i b hi hcommand => by
          cases (hnew i b hi).1.symm.trans hcommand
      refine ⟨ht.network, fun p' hp' => ?_, ?_, fun hne => absurd (update_self _ _ _) hne,
        fun _ => ?_⟩
      · dsimp only at hp'
        rw [update_self] at hp'
        cases hp'
      · dsimp only
        rw [invocations_append, hadds, List.append_nil]
        exact ht.adds
      · dsimp only
        rw [invocations_append, ht.held (by rw [hp]; exact nofun), List.nil_append, hpath]
        cases hnet : r.netnsPath with
        | none =>
          unfold DelsOf
          rw [hnet]
          rfl
        | some path =>
          refine delsOf_cniTeardown hnet ?_
          by_contra havailable
          have hnone := ht.network.mpr (.inr (eq_false_of_ne_true havailable))
          rw [hnet] at hnone
          cases hnone
    · refine ht.of_other rfl (fun i b hi heq => ?_) ?_
      · have hval : r.id.val = id.val := heq.symm.trans (hnew i b hi).2
        exact hid (congrArg (Id.mk (p := .sandbox)) hval)
      · dsimp only
        rw [update_of_ne hid]

/-! ### Runs -/

theorem NetInv.run (hinv : NetInv env s) (clock stamp : Int) (cfg : SandboxConfig) (o : RunOracle)
    (hstep : netStep h env s (.run clock stamp cfg o) = some s') : NetInv env s' := by
  have hcall (i : Invocation) (b : Bool)
      (hi : .exec i b ∈ (runSandbox h env ⟨newId "sb-" clock s.counter⟩ stamp cfg o).1) :
      i.command = .add ∧ i.containerId = newId "sb-" clock s.counter := mem_runSandbox hi
  have hids : ∀ i b, .exec i b ∈
      s.effects ++ (runSandbox h env ⟨newId "sb-" clock s.counter⟩ stamp cfg o).1 →
      Older i.containerId (s.counter + 1) := by
    intro i b hi
    rcases List.mem_append.mp hi with hi | hi
    · exact (hinv.ids i b hi).succ
    · exact ⟨clock, s.counter, (hcall i b hi).2, Nat.lt_succ_self _⟩
  have hne {id : SandboxId} (hold : Older id.val s.counter) :
      id ≠ ⟨newId "sb-" clock s.counter⟩ := fun heq =>
    hold.ne clock (congrArg Id.val heq)
  have hother : ∀ r ∈ s.made, ∀ i b, .exec i b ∈
      (runSandbox h env ⟨newId "sb-" clock s.counter⟩ stamp cfg o).1 → i.containerId ≠ r.id.val :=
    fun r hr i b hi heq => (hinv.made r hr).ne clock (heq.symm.trans (hcall i b hi).2)
  rw [netStep] at hstep
  dsimp only at hstep
  split at hstep
  · obtain rfl := Option.some.inj hstep
    exact ⟨hids, fun r hr => (hinv.made r hr).succ, fun id p hp => (hinv.held id p hp).succ,
      fun r hr => (hinv.traced r hr).of_other rfl (hother r hr) rfl⟩
  · rename_i r₁ hok
    obtain rfl := Option.some.inj hstep
    obtain ⟨hid, hcfg, hnetwork, hadds⟩ := runSandbox_ok hok
    refine ⟨hids, fun r hr => ?_, fun id p hp => ?_, fun r hr => ?_⟩
    · rcases List.mem_append.mp hr with hr | hr
      · exact (hinv.made r hr).succ
      · rw [List.mem_singleton.mp hr, hid]
        exact ⟨clock, s.counter, rfl, Nat.lt_succ_self _⟩
    · dsimp only at hp
      by_cases heq : id = ⟨newId "sb-" clock s.counter⟩
      · rw [heq]
        exact ⟨clock, s.counter, rfl, Nat.lt_succ_self _⟩
      · rw [update_of_ne heq] at hp
        exact (hinv.held id p hp).succ
    · rcases List.mem_append.mp hr with hr | hr
      · refine (hinv.traced r hr).of_other rfl (hother r hr) ?_
        dsimp only
        rw [update_of_ne (hne (hinv.made r hr))]
      · obtain rfl := List.mem_singleton.mp hr
        have hfresh (c : Command) : invocations c r.id s.effects = [] :=
          invocations_eq_nil fun i b hi _ heq => by
            rw [hid] at heq
            exact (hinv.ids i b hi).ne clock heq
        have hdels : invocations .del r.id
            (runSandbox h env ⟨newId "sb-" clock s.counter⟩ stamp cfg o).1 = [] :=
          invocations_eq_nil fun i b hi hcommand => by cases (hcall i b hi).1.symm.trans hcommand
        refine ⟨hcfg ▸ hnetwork, fun p hp => ?_, ?_, fun _ => ?_, fun hgone => ?_⟩
        · dsimp only at hp
          rw [hid, update_self] at hp
          rw [Option.some.inj hp]
        · dsimp only
          rw [invocations_append, hfresh, List.nil_append, hid]
          exact hadds
        · dsimp only
          rw [invocations_append, hfresh, hdels]
          rfl
        · dsimp only at hgone
          rw [hid, update_self] at hgone
          cases hgone

theorem NetInv.step (hinv : NetInv env s) {l : NetLabel} (hstep : netStep h env s l = some s') :
    NetInv env s' := by
  cases l with
  | run clock stamp cfg o => exact hinv.run clock stamp cfg o hstep
  | stop id e =>
    obtain rfl := Option.some.inj hstep
    exact hinv.stop id e
  | remove id o =>
    have hstopped := hinv.stop id o.writeError
    rw [netStep] at hstep
    rcases hstop : stopSandbox s id o.writeError with ⟨s₁, _ | _⟩
    · rw [hstop] at hstep hstopped
      dsimp only at hstep hstopped
      split at hstep
      · obtain rfl := Option.some.inj hstep
        exact hstopped
      · rename_i p hp
        split at hstep
        · obtain rfl := Option.some.inj hstep
          exact hstopped
        · obtain rfl := Option.some.inj hstep
          exact hstopped.remove hp o
    · rw [hstop] at hstep hstopped
      obtain rfl := Option.some.inj hstep
      exact hstopped

theorem NetInv.init (env : CniEnv) : NetInv env .init :=
  ⟨fun _ _ h => absurd h List.not_mem_nil, fun _ h => absurd h List.not_mem_nil, nofun,
    fun _ h => absurd h List.not_mem_nil⟩

end

/-- **DEL mirrors ADD**, when the ports make no difference: after any sequence of calls, the DELs of
a sandbox that was made and is removed are just its ADDs in reverse, with the same configuration,
exactly if it has no network of its own, or no plugin that declares the capability `portMappings`
gets another `runtimeConfig` from the host ports of the sandbox than it has of itself. -/
theorem del_mirrors_add {h : Host} {env : CniEnv} {ls : List NetLabel} {s : NetState}
    (hrun : run (netStep h env) .init ls = some s) {r : SandboxRecord} (hr : r ∈ s.made)
    (hgone : s.sandboxes r.id = none) :
    Mirrored r.id s.effects ↔ r.config.hostNetwork = true ∨ env.available = false ∨
      ∀ conflist plugins, env.conflist = some (.ok conflist) →
        conflistPlugins conflist = .ok plugins → ∀ plugin ∈ plugins,
          Unported r.config.portMappings plugin := by
  have hinv : NetInv env s := invariant_run (P := fun _ _ => True)
    (fun _ _ _ hinv _ hstep => hinv.step hstep) (.init env) (Along.trivial _ _) hrun
  have ht := hinv.traced r hr
  have hadds := ht.adds
  have hdels := ht.gone hgone
  unfold AddsOf at hadds
  unfold DelsOf at hdels
  cases hnet : r.netnsPath with
  | none =>
    rw [hnet] at hadds hdels
    dsimp only at hadds hdels
    have hmirrored : Mirrored r.id s.effects := by
      rw [Mirrored, hadds, hdels]
      exact .nil
    refine iff_of_true hmirrored ?_
    rcases ht.network.mp hnet with hhost | havailable
    · exact .inl hhost
    · exact .inr (.inl havailable)
  | some path =>
    rw [hnet] at hadds hdels
    dsimp only at hadds hdels
    obtain ⟨conflist, plugins, hchain, hadds⟩ := hadds
    have hown : ¬ (r.config.hostNetwork = true ∨ env.available = false) := fun hown => by
      rw [ht.network.mpr hown] at hnet
      cases hnet
    rw [← or_assoc, or_iff_right hown, Mirrored,
      forall₂_mirrors hadds (hdels conflist plugins hchain)]
    constructor
    · intro hall conflist' plugins' hfound hplugins
      obtain rfl := Except.ok.inj (Option.some.inj (hchain.found.symm.trans hfound))
      obtain rfl := Except.ok.inj (hchain.chain.symm.trans hplugins)
      exact hall
    · exact fun hall => hall conflist plugins hchain.found hchain.chain

/-! ## One sandbox -/

/-- A host whose plugins answer with an empty object. -/
def quietHost : Host where
  parse text :=
    if text = "\x7b\x7d" then .ok (.object []) else .error "expected value at line 1 column 1"
  binDir := "/opt/cni/bin"

/-- A chain of one plugin. -/
def chainOf (plugin : Json) : CniEnv where
  available := true
  confDir := "/etc/cni/net.d"
  conflist := some (.ok (.object [("plugins", .array [plugin])]))

def bridge : Json := .object [("type", .string "bridge")]

def portmap : Json :=
  .object [("capabilities", .object [("portMappings", .bool true)]), ("type", .string "portmap")]

def portedConfig : SandboxConfig := { name := "pod", portMappings := [⟨.tcp, 80, 12000, ""⟩] }

/-- The sandbox is made and removed. -/
def oneSandbox : List NetLabel :=
  [.run 1 1 portedConfig ⟨.created false, fun _ => .succeeded (.ok "\x7b\x7d"), none⟩,
    .remove ⟨newId "sb-" 1 0⟩ { runs := fun _ => .succeeded (.ok "\x7b\x7d") }]

theorem del_mirrors_add_bridge : ∃ s r,
    run (netStep quietHost (chainOf bridge)) .init oneSandbox = some s ∧ r ∈ s.made ∧
      r.config = portedConfig ∧ Mirrored r.id s.effects := by
  obtain ⟨s, hs⟩ : ∃ s, run (netStep quietHost (chainOf bridge)) .init oneSandbox = some s := ⟨_, rfl⟩
  have hr : (⟨⟨newId "sb-" 1 0⟩, portedConfig, .ready, 1, none,
      some (Net.joinPath NETNS_DIR (nsName ⟨newId "sb-" 1 0⟩))⟩ : SandboxRecord) ∈ s.made := by
    obtain rfl := Option.some.inj hs
    exact List.mem_cons_self
  have hgone : s.sandboxes ⟨newId "sb-" 1 0⟩ = none := by
    obtain rfl := Option.some.inj hs
    rfl
  refine ⟨s, _, hs, hr, rfl, (del_mirrors_add hs hr hgone).mpr (.inr (.inr ?_))⟩
  intro conflist plugins hfound hplugins plugin hp hcap
  obtain rfl := Except.ok.inj (Option.some.inj hfound)
  obtain rfl := Except.ok.inj hplugins
  rw [List.mem_singleton.mp hp] at hcap
  exact absurd hcap (by decide)

/-- **A mapping that DEL does not know of**: the plugin for port mappings gets them with ADD, and
not with DEL. -/
theorem del_without_mappings :
    ¬ ∀ (h : Host) (env : CniEnv) (ls : List NetLabel) (s : NetState) (r : SandboxRecord),
      run (netStep h env) .init ls = some s → r ∈ s.made → s.sandboxes r.id = none →
        Mirrored r.id s.effects := by
  intro hall
  obtain ⟨s, hs⟩ : ∃ s, run (netStep quietHost (chainOf portmap)) .init oneSandbox = some s :=
    ⟨_, rfl⟩
  have hmirrored := hall quietHost (chainOf portmap) oneSandbox s
    ⟨⟨newId "sb-" 1 0⟩, portedConfig, .ready, 1, none,
      some (Net.joinPath NETNS_DIR (nsName ⟨newId "sb-" 1 0⟩))⟩ hs
    (by obtain rfl := Option.some.inj hs; exact List.mem_cons_self)
    (by obtain rfl := Option.some.inj hs; rfl)
  have hadds : invocations .add ⟨newId "sb-" 1 0⟩ s.effects =
      [⟨.add, "portmap", newId "sb-" 1 0, Net.joinPath NETNS_DIR (nsName ⟨newId "sb-" 1 0⟩),
        derivePluginConfig portmap "1.0.0" "" none portedConfig.portMappings⟩] := by
    obtain rfl := Option.some.inj hs
    rfl
  have hdels : invocations .del ⟨newId "sb-" 1 0⟩ s.effects =
      [⟨.del, "portmap", newId "sb-" 1 0, Net.joinPath NETNS_DIR (nsName ⟨newId "sb-" 1 0⟩),
        derivePluginConfig portmap "1.0.0" "" none []⟩] := by
    obtain rfl := Option.some.inj hs
    rfl
  rw [Mirrored, hadds, hdels] at hmirrored
  obtain _ | ⟨hmirrors, -⟩ := hmirrored
  have hsame := hmirrors.config "runtimeConfig" (by decide)
  cases hsame

end LightrCri.Fake

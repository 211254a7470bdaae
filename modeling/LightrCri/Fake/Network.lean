import LightrCri.Fake.Machine
import LightrCri.Net.Chain

/-!
# The network of a sandbox

What `run_sandbox` does to the network: `cni_setup` creates a network namespace and runs ADD on the
chain of the first conflist. The machine gets the result of that from its oracle; here it is
computed (`exec_runSandbox`), with what it leaves on the host. Nothing of it is undone when the call
fails (`runSandbox_undone`).
-/

namespace LightrCri.Fake

open Backend Net

/-- What the host has for CNI. -/
structure CniEnv where
  /-- `cni_available()` has an answer. -/
  available : Bool
  confDir : String
  /-- The conflist that comes first by name: its contents, or why it cannot be read. -/
  conflist : Option (Except String Json)

/-- What a call of `run_sandbox` gets from outside. -/
structure RunOracle where
  creation : Creation
  /-- What becomes of the plugins, by their place in the chain. -/
  runs : Nat → PluginRun
  /-- The error of the record's `atomic_write`, if it fails. -/
  writeError : Option String := none

def nsName (id : SandboxId) : String := "lightr-" ++ String.ofList (id.val.toList.take 24)

section

variable (h : Host) (env : CniEnv)

def cniSetup (id : SandboxId) (portMappings : List PortMapping) (o : RunOracle) :
    List Effect × Except String (Option String × String) :=
  match createNetns (nsName id) o.creation with
  | (es, .error e) => (es, .error e)
  | (es, .ok path) =>
    match env.conflist with
    | none => (es, .error ("no .conflist found in " ++ env.confDir))
    | some conflist =>
      match h.add conflist id.val path portMappings o.runs with
      | (es', .error e) => (es ++ es', .error ("CNI ADD: " ++ e))
      | (es', .ok ip) => (es ++ es', .ok (ip, path))

/-- The IP and the path of the network namespace. -/
def setupNetwork (id : SandboxId) (cfg : SandboxConfig) (o : RunOracle) :
    List Effect × Except String (Option String × Option String) :=
  if cfg.hostNetwork then ([], .ok (none, none))
  else if env.available then
    match cniSetup h env id cfg.portMappings o with
    | (es, .error e) => (es, .error e)
    | (es, .ok (ip, path)) => (es, .ok (ip, some path))
  else ([], .ok (none, none))

/-- `run_sandbox`, up to the insertion of the record. -/
def runSandbox (id : SandboxId) (stamp : Int) (cfg : SandboxConfig) (o : RunOracle) :
    List Effect × Except BackendError SandboxRecord :=
  match setupNetwork h env id cfg o with
  | (es, .error e) =>
    (es, .error (.internal ("CNI setup for sandbox " ++ id.val ++ ": " ++ e)))
  | (es, .ok (ip, netnsPath)) =>
    match o.writeError with
    | some e => (es, .error (.io e))
    | none => (es, .ok ⟨id, cfg, .ready, stamp, ip, netnsPath⟩)

/-- The machine's `run_sandbox`, when its oracle says what `cni_setup` gives. -/
theorem exec_runSandbox (w : World) (m : Oracle) (cfg : SandboxConfig) (o : RunOracle)
    (hcni : m.cni = if env.available then
      some (cniSetup h env ⟨newId "sb-" m.clock w.counter⟩ cfg.portMappings o).2 else none) :
    (Sys.runSandbox cfg).exec m w = some ({ w with counter := w.counter + 1 },
      match (setupNetwork h env ⟨newId "sb-" m.clock w.counter⟩ cfg o).2 with
      | .error e =>
        .halt (.error (.internal ("CNI setup for sandbox " ++ newId "sb-" m.clock w.counter ++ ": " ++
          e)))
      | .ok (ip, netnsPath) =>
        .next [.file (.write (.sandbox ⟨⟨newId "sb-" m.clock w.counter⟩, cfg, .ready, m.stamp, ip,
            netnsPath⟩) true),
          .crit (.insertSandbox ⟨⟨newId "sb-" m.clock w.counter⟩, cfg, .ready, m.stamp, ip,
            netnsPath⟩),
          .ret (.sandbox ⟨newId "sb-" m.clock w.counter⟩)]) := by
  unfold setupNetwork
  cases hhost : cfg.hostNetwork with
  | true => simp only [Sys.exec, hhost, if_true]
  | false =>
    cases havailable : env.available with
    | false => simp only [Sys.exec, hhost, hcni, havailable, Bool.false_eq_true, if_false]
    | true =>
      simp only [Sys.exec, hhost, hcni, havailable, Bool.false_eq_true, if_true, if_false]
      rcases cniSetup h env ⟨newId "sb-" m.clock w.counter⟩ cfg.portMappings o with
        ⟨es, e | ⟨ip, path⟩⟩
      · rfl
      · rfl

end

/-! ## What is undone -/

/-- No network namespace is left of those that were made, and every plugin that an ADD was given to
was given a DEL for the same container and namespace. -/
structure Undone (es : List Effect) : Prop where
  netns : ∀ path, .touch path ∈ es ∨ .mount path ∈ es → .unlink path ∈ es
  plugins : ∀ i, .exec i true ∈ es → i.command = .add → ∃ i', .exec i' true ∈ es ∧
    i'.command = .del ∧ i'.plugin = i.plugin ∧ i'.containerId = i.containerId ∧ i'.netns = i.netns

theorem Undone.nil : Undone [] :=
  ⟨fun _ h => absurd h (by simp), fun _ h => absurd h List.not_mem_nil⟩

/-- Every plugin of the chain has a type, and its ADD succeeds with a JSON text. -/
def AllAdded (h : Host) (env : CniEnv) (runs : Nat → PluginRun) : Prop :=
  ∃ conflist plugins, env.conflist = some (.ok conflist) ∧ conflistPlugins conflist = .ok plugins ∧
    ∀ k plugin, plugins[k]? = some plugin → (∃ type, pluginType plugin = .ok type) ∧
      ∃ stdout result, runs k = .succeeded (.ok stdout) ∧ h.parse stdout = .ok result

section

variable {h : Host} {env : CniEnv} {id : SandboxId}

/-- When `cni_setup` succeeds: the namespace is created and the whole chain succeeds. -/
theorem cniSetup_ok {mappings : List PortMapping} {o : RunOracle} {es : List Effect}
    {ip : Option String} {path : String} :
    cniSetup h env id mappings o = (es, .ok (ip, path)) ↔
      ∃ existed conflist plugins es' r, o.creation = .created existed ∧
        env.conflist = some (.ok conflist) ∧ conflistPlugins conflist = .ok plugins ∧
        h.addFrom (conflistVersion conflist) (conflistName conflist) id.val
          (Net.joinPath NETNS_DIR (nsName id)) mappings o.runs 0 none plugins = (es', .ok r) ∧
        path = Net.joinPath NETNS_DIR (nsName id) ∧ ip = r.bind Host.extractFirstIpv4 ∧
        es = (createNetns (nsName id) o.creation).1 ++ es' := by
  unfold cniSetup
  cases hcreation : o.creation with
  | created existed =>
    cases hconflist : env.conflist with
    | none => simp [createNetns]
    | some c =>
      cases c with
      | error e => simp [createNetns, Host.add]
      | ok conflist =>
        cases hplugins : conflistPlugins conflist with
        | error e => simp [createNetns, Host.add, hplugins]
        | ok plugins =>
          rcases hadd : h.addFrom (conflistVersion conflist) (conflistName conflist) id.val
            (Net.joinPath NETNS_DIR (nsName id)) mappings o.runs 0 none plugins with ⟨es', e | r⟩
          · simp [createNetns, Host.add, hplugins, hadd, Except.map]
          · simp [createNetns, Host.add, hplugins, hadd, Except.map]
            constructor
            · rintro ⟨rfl, rfl, rfl⟩
              exact ⟨rfl, rfl, rfl⟩
            · rintro ⟨rfl, rfl, rfl⟩
              exact ⟨rfl, rfl, rfl⟩
  | _ => simp [createNetns]

theorem runSandbox_effects (stamp : Int) (cfg : SandboxConfig) (o : RunOracle) :
    (runSandbox h env id stamp cfg o).1 = (setupNetwork h env id cfg o).1 := by
  unfold runSandbox
  rcases setupNetwork h env id cfg o with ⟨es, e | ⟨ip, netnsPath⟩⟩
  · rfl
  · cases o.writeError <;> rfl

theorem setupNetwork_effects {cfg : SandboxConfig} {o : RunOracle} (hhost : cfg.hostNetwork = false)
    (havailable : env.available = true) :
    (setupNetwork h env id cfg o).1 = (cniSetup h env id cfg.portMappings o).1 := by
  rw [setupNetwork, if_neg (by rw [hhost]; decide), if_pos havailable]
  rcases cniSetup h env id cfg.portMappings o with ⟨es, e | ⟨ip, path⟩⟩
  · rfl
  · rfl

/-- Where CNI is used, `run_sandbox` succeeds when everything does. -/
theorem runSandbox_isOk {stamp : Int} {cfg : SandboxConfig} {o : RunOracle}
    (hhost : cfg.hostNetwork = false) (havailable : env.available = true) :
    (¬ ∃ e, (runSandbox h env id stamp cfg o).2 = .error e) ↔
      (∃ existed, o.creation = .created existed) ∧ AllAdded h env o.runs ∧ o.writeError = none := by
  unfold runSandbox setupNetwork
  rw [if_neg (by rw [hhost]; decide), if_pos havailable]
  rcases hsetup : cniSetup h env id cfg.portMappings o with ⟨es, e | ⟨ip, path⟩⟩
  · refine ⟨fun hok => absurd ⟨_, rfl⟩ hok, fun ⟨⟨existed, hcreation⟩, hall, _⟩ => ?_⟩
    obtain ⟨conflist, plugins, hconflist, hplugins, hall⟩ := hall
    obtain ⟨es', r, hadd⟩ := (@Host.addFrom_isOk h (conflistVersion conflist)
      (conflistName conflist) id.val (Net.joinPath NETNS_DIR (nsName id)) cfg.portMappings o.runs plugins
      0 none).mpr fun k plugin hk => by simpa using hall k plugin hk
    have hok := cniSetup_ok.mpr ⟨existed, conflist, plugins, es', r, hcreation, hconflist, hplugins,
      hadd, rfl, rfl, rfl⟩
    cases hsetup.symm.trans hok
  · obtain ⟨existed, conflist, plugins, es', r, hcreation, hconflist, hplugins, hadd, -⟩ :=
      cniSetup_ok.mp hsetup
    have hall := Host.addFrom_isOk.mp ⟨es', r, hadd⟩
    cases hwrite : o.writeError with
    | none =>
      refine ⟨fun _ => ⟨⟨existed, hcreation⟩, ⟨conflist, plugins, hconflist, hplugins, ?_⟩, rfl⟩,
        fun _ => nofun⟩
      exact fun k plugin hk => by simpa using hall k plugin hk
    | some e => exact ⟨fun hok => absurd ⟨_, rfl⟩ hok, fun ⟨_, _, hnone⟩ => nomatch hnone⟩

theorem cniSetup_untouched {mappings : List PortMapping} {o : RunOracle}
    (huntouched : o.creation.untouched = true) : (cniSetup h env id mappings o).1 = [] := by
  unfold cniSetup
  cases hcreation : o.creation with
  | threadFailed existed e =>
    cases existed with
    | true => rfl
    | false =>
      rw [hcreation] at huntouched
      cases huntouched
  | created existed =>
    rw [hcreation] at huntouched
    cases huntouched
  | _ => rfl

/-- A namespace whose file is created is left. -/
theorem exists_left {mappings : List PortMapping} {o : RunOracle}
    (huntouched : ¬ o.creation.untouched = true) :
    ∃ path, (.touch path ∈ (cniSetup h env id mappings o).1 ∨
        .mount path ∈ (cniSetup h env id mappings o).1) ∧
      .unlink path ∉ (cniSetup h env id mappings o).1 := by
  refine ⟨Net.joinPath NETNS_DIR (nsName id), ?_⟩
  unfold cniSetup
  cases hcreation : o.creation with
  | threadFailed existed e =>
    cases existed with
    | true =>
      rw [hcreation] at huntouched
      exact absurd rfl huntouched
    | false => simp [createNetns]
  | created existed =>
    have hmount : .mount (Net.joinPath NETNS_DIR (nsName id)) ∈
        (createNetns (nsName id) (.created existed)).1 :=
      List.mem_append_right _ List.mem_cons_self
    have hunlink : .unlink (Net.joinPath NETNS_DIR (nsName id)) ∉
        (createNetns (nsName id) (.created existed)).1 := by
      cases existed <;> simp [createNetns]
    have hexec (conflist : Except String Json) : .unlink (Net.joinPath NETNS_DIR (nsName id)) ∉
        (h.add conflist id.val (Net.joinPath NETNS_DIR (nsName id)) mappings o.runs).1 := fun hmem => by
      obtain ⟨i, b, heq, -⟩ := Host.mem_add hmem
      cases heq
    cases env.conflist with
    | none => exact ⟨.inr hmount, hunlink⟩
    | some conflist =>
      have heffects : ∀ r, h.add conflist id.val (Net.joinPath NETNS_DIR (nsName id)) mappings o.runs =
          r → .unlink (Net.joinPath NETNS_DIR (nsName id)) ∉ r.1 := by
        rintro r rfl
        exact hexec conflist
      dsimp only [createNetns] at hmount hunlink ⊢
      rcases hadd : h.add conflist id.val (Net.joinPath NETNS_DIR (nsName id)) mappings o.runs with
        ⟨es', e | ip⟩
      all_goals
        exact ⟨.inr (List.mem_append_left _ hmount), fun hmem =>
          (List.mem_append.mp hmem).elim hunlink (heffects _ hadd)⟩
  | dirFailed | openFailed =>
    rw [hcreation] at huntouched
    exact absurd rfl huntouched

/-- **What a failed `run_sandbox` leaves behind.** It undoes nothing: if it fails, no namespace is
left and every ADD has its DEL exactly if it made none, because the sandbox is on the host network,
or there is no CNI, or the file of the namespace could not be created. -/
theorem runSandbox_undone (h : Host) (env : CniEnv) (id : SandboxId) (stamp : Int)
    (cfg : SandboxConfig) (o : RunOracle) :
    ((∃ e, (runSandbox h env id stamp cfg o).2 = .error e) →
        Undone (runSandbox h env id stamp cfg o).1) ↔
      cfg.hostNetwork = true ∨ env.available = false ∨ o.creation.untouched = true ∨
        (∃ existed, o.creation = .created existed) ∧ AllAdded h env o.runs ∧ o.writeError = none := by
  rw [runSandbox_effects]
  cases hhost : cfg.hostNetwork with
  | true =>
    rw [setupNetwork, if_pos hhost]
    exact ⟨fun _ => .inl rfl, fun _ _ => .nil⟩
  | false =>
    cases havailable : env.available with
    | false =>
      rw [setupNetwork, if_neg (by rw [hhost]; decide), if_neg (by rw [havailable]; decide)]
      exact ⟨fun _ => .inr (.inl rfl), fun _ _ => .nil⟩
    | true =>
      rw [setupNetwork_effects hhost havailable]
      constructor
      · intro hundone
        by_cases huntouched : o.creation.untouched = true
        · exact .inr (.inr (.inl huntouched))
        · refine .inr (.inr (.inr ?_))
          by_contra hfails
          obtain ⟨path, hpath, hnot⟩ := @exists_left h env id cfg.portMappings o huntouched
          refine hnot ((hundone ?_).netns path hpath)
          by_contra hok
          exact hfails ((runSandbox_isOk hhost havailable).mp hok)
      · rintro (hhost' | havailable' | huntouched | hok) herr
        · cases hhost'
        · cases havailable'
        · rw [cniSetup_untouched huntouched]
          exact .nil
        · exact absurd herr ((runSandbox_isOk hhost havailable).mpr hok)

end

/-- A chain of one plugin. -/
def bridgeEnv : CniEnv where
  available := true
  confDir := "/etc/cni/net.d"
  conflist := some (.ok (.object [("plugins", .array [.object [("type", .string "bridge")]])]))

/-- The plugin finds no free address. -/
def exhausted : RunOracle where
  creation := .created false
  runs _ := .failed "" "no IP addresses available in range set"

/-- A host whose plugins answer with no JSON. -/
def silentHost : Host := ⟨fun _ => .error "expected value", "/opt/cni/bin"⟩

/-- What `run_sandbox` does when the only plugin of the chain finds no address. -/
def exhaustedRun : List Effect × Except BackendError SandboxRecord :=
  runSandbox silentHost bridgeEnv ⟨"sb-1-0"⟩ 0 { name := "pod" } exhausted

/-- **A namespace that is left**: ADD fails, and the namespace stays. -/
theorem failed_add_left : (∃ e, exhaustedRun.2 = .error e) ∧ ¬ Undone exhaustedRun.1 := by
  refine ⟨⟨_, rfl⟩, fun hundone => ?_⟩
  rw [exhaustedRun, runSandbox_effects, setupNetwork_effects rfl rfl] at hundone
  obtain ⟨path, hpath, hnot⟩ :=
    @exists_left silentHost bridgeEnv ⟨"sb-1-0"⟩ [] exhausted (by decide)
  exact hnot (hundone.netns path hpath)

end LightrCri.Fake

import LightrCri.Fake.Mirror
import LightrCri.Net.Probe

/-!
# The probe and what is run

`run_sandbox` and `remove_sandbox` ask the probe for the directory of the conflist, and the chain
that they run takes the directory of the plugins from another variable than the probe. So what the
probe has checked is what is run exactly if both variables lead to one directory, and no plugin has
a type that leads out of it (`probe_truthful`).
-/

namespace LightrCri.Fake

open Backend Foundations LightrCri.Net

section

variable (env : Environment) (fs : FileSystem)

/-- What the probe and `first_conflist` find. -/
def probed : CniEnv :=
  match cniAvailable env fs with
  | none => ⟨false, "", none⟩
  | some c => ⟨true, c.confDir, (firstConflist fs c.confDir).map (fs.load c.confDir)⟩

/-- The plugins are those of `CNI_PATH`. -/
def hostOf (parse : String → Except String Json) : Host := ⟨parse, binDirFromEnv env⟩

/-- A plugin of this type is executed from this directory. -/
def ExecutedFrom (h : Host) (dir : String) (type : String) : Prop :=
  fs.execDir (Net.joinPath h.binDir type) = fs.dirId dir

/-- `run_sandbox` and `remove_sandbox` load a conflist from the one directory of the probe, and
execute plugins only from the other. -/
structure Truthful (parse : String → Except String Json) (c : Net.CniEnv) : Prop where
  conflist : ∃ names name, fs.readDir c.confDir = some names ∧ name ∈ names ∧ isConflist name = true ∧
    (probed env fs).conflist = some (fs.load c.confDir name)
  add : ∀ id stamp cfg o i started,
    .exec i started ∈ (runSandbox (hostOf env parse) (probed env fs) id stamp cfg o).1 →
      ExecutedFrom fs (hostOf env parse) c.binDir i.plugin
  del : ∀ id path o i started,
    .exec i started ∈ cniTeardown (hostOf env parse) (probed env fs) id path o →
      ExecutedFrom fs (hostOf env parse) c.binDir i.plugin

end

/-! ## The plugins of a chain -/

/-- The type is that of a plugin of the conflist. -/
def PluginOf (conflist : Option (Except String Json)) (type : String) : Prop :=
  ∃ c plugins plugin, conflist = some (.ok c) ∧ conflistPlugins c = .ok plugins ∧ plugin ∈ plugins ∧
    pluginType plugin = .ok type

section

variable {h : Host} {version name containerId netns : String} {mappings : List PortMapping}
  {runs : Nat → PluginRun} {plugins : List Json} {i : Nat} {inv : Invocation} {started : Bool}

/-- ADD is given to plugins of the chain. -/
theorem pluginType_of_mem_addFrom {prevResult : Option Json}
    (he : .exec inv started ∈
      (h.addFrom version name containerId netns mappings runs i prevResult plugins).1) :
    ∃ plugin ∈ plugins, pluginType plugin = .ok inv.plugin := by
  induction plugins generalizing i prevResult with
  | nil => exact absurd he List.not_mem_nil
  | cons plugin plugins ih =>
    rw [Host.addFrom] at he
    cases htype : pluginType plugin with
    | error e =>
      rw [htype] at he
      exact absurd he List.not_mem_nil
    | ok type =>
      rw [htype] at he
      dsimp only at he
      have hhead : ∀ e : Effect, e = .exec inv started →
          e = .exec ⟨.add, type, containerId, netns,
            derivePluginConfig plugin version name prevResult mappings⟩ (runs i).started →
          ∃ plugin' ∈ plugin :: plugins, pluginType plugin' = .ok inv.plugin := by
        rintro e rfl heq
        obtain ⟨rfl, -⟩ := Effect.exec.inj heq
        exact ⟨plugin, List.mem_cons_self, htype⟩
      split at he
      · exact hhead _ rfl (List.mem_singleton.mp he)
      · split at he
        · exact hhead _ rfl (List.mem_singleton.mp he)
        · rcases List.mem_cons.mp he with heq | he
          · exact hhead _ rfl heq
          · obtain ⟨plugin', hmem, htype'⟩ := ih he
            exact ⟨plugin', List.mem_cons_of_mem _ hmem, htype'⟩

/-- DEL is given to the plugins of the chain that have a type, whatever becomes of them. -/
theorem mem_delFrom_iff {type : String} :
    (∃ inv started, .exec inv started ∈
        (h.delFrom version name containerId netns mappings runs i plugins).1 ∧ inv.plugin = type) ↔
      ∃ plugin ∈ plugins, pluginType plugin = .ok type := by
  induction plugins generalizing i with
  | nil => simp [Host.delFrom]
  | cons plugin plugins ih =>
    have hrest := @ih (i + 1)
    rw [Host.delFrom]
    cases htype : pluginType plugin with
    | error e => simpa [htype] using hrest
    | ok type' =>
      dsimp only
      have hcons (r : List Effect × Option String) (e : Effect)
          (hr : r.1 = e :: (h.delFrom version name containerId netns mappings runs (i + 1) plugins).1)
          (he : ∃ inv started, e = .exec inv started ∧ inv.plugin = type') :
          (∃ inv started, .exec inv started ∈ r.1 ∧ inv.plugin = type) ↔
            ∃ plugin' ∈ plugin :: plugins, pluginType plugin' = .ok type := by
        obtain ⟨inv', started', rfl, rfl⟩ := he
        rw [hr]
        simp only [List.mem_cons, exists_eq_or_imp, htype, Except.ok.injEq]
        constructor
        · rintro ⟨inv, started, heq | hmem, rfl⟩
          · obtain ⟨rfl, -⟩ := Effect.exec.inj heq
            exact .inl rfl
          · exact .inr (hrest.mp ⟨inv, started, hmem, rfl⟩)
        · rintro (rfl | hplugin)
          · exact ⟨inv', started', .inl rfl, rfl⟩
          · obtain ⟨inv, started, hmem, hinv⟩ := hrest.mpr hplugin
            exact ⟨inv, started, .inr hmem, hinv⟩
      split
      · exact hcons _ _ rfl ⟨_, _, rfl, rfl⟩
      · exact hcons _ _ rfl ⟨_, _, rfl, rfl⟩

end

section

variable {h : Host} {env : CniEnv}

theorem exec_notMem_createNetns {name : String} {c : Creation} {i : Invocation} {started : Bool} :
    .exec i started ∉ (createNetns name c).1 := by
  cases c with
  | threadFailed existed e => cases existed <;> simp [createNetns]
  | created existed => cases existed <;> simp [createNetns]
  | _ => simp [createNetns]

theorem exec_notMem_teardownNetns {path : String} {t : Teardown} {i : Invocation} {started : Bool} :
    .exec i started ∉ teardownNetns path t := by
  unfold teardownNetns
  split <;> simp

theorem pluginOf_of_mem_add {conflist : Except String Json} {id netns : String}
    {mappings : List PortMapping} {runs : Nat → PluginRun} {i : Invocation} {started : Bool}
    (he : .exec i started ∈ (h.add conflist id netns mappings runs).1) :
    PluginOf (some conflist) i.plugin := by
  cases conflist with
  | error e => exact absurd he List.not_mem_nil
  | ok c =>
    rw [Host.add] at he
    dsimp only at he
    cases hplugins : conflistPlugins c with
    | error e =>
      rw [hplugins] at he
      exact absurd he List.not_mem_nil
    | ok plugins =>
      rw [hplugins] at he
      obtain ⟨plugin, hmem, htype⟩ := pluginType_of_mem_addFrom he
      exact ⟨c, plugins, plugin, rfl, hplugins, hmem, htype⟩

theorem mem_del_iff {conflist : Except String Json} {id netns : String}
    {mappings : List PortMapping} {runs : Nat → PluginRun} {type : String} :
    (∃ i started, .exec i started ∈ (h.del conflist id netns mappings runs).1 ∧ i.plugin = type) ↔
      PluginOf (some conflist) type := by
  cases conflist with
  | error e =>
    apply iff_of_false
    · rintro ⟨_, _, he, -⟩
      exact absurd he List.not_mem_nil
    · rintro ⟨c, plugins, plugin, hc, -⟩
      cases hc
  | ok c =>
    rw [Host.del]
    dsimp only
    cases hplugins : conflistPlugins c with
    | error e =>
      apply iff_of_false
      · rintro ⟨_, _, he, -⟩
        exact absurd he List.not_mem_nil
      · rintro ⟨c', plugins, plugin, hc, hok, -⟩
        obtain rfl := Except.ok.inj (Option.some.inj hc)
        cases hplugins.symm.trans hok
    | ok plugins =>
      dsimp only
      rw [mem_delFrom_iff]
      constructor
      · rintro ⟨plugin, hmem, htype⟩
        exact ⟨c, plugins, plugin, rfl, hplugins, List.mem_reverse.mp hmem, htype⟩
      · rintro ⟨c', plugins', plugin, hc, hok, hmem, htype⟩
        obtain rfl := Except.ok.inj (Option.some.inj hc)
        obtain rfl := Except.ok.inj (hplugins.symm.trans hok)
        exact ⟨plugin, List.mem_reverse.mpr hmem, htype⟩

/-- `run_sandbox` executes plugins of the conflist. -/
theorem pluginOf_of_mem_runSandbox {id : SandboxId} {stamp : Int} {cfg : SandboxConfig}
    {o : RunOracle} {i : Invocation} {started : Bool}
    (he : .exec i started ∈ (runSandbox h env id stamp cfg o).1) : PluginOf env.conflist i.plugin := by
  have hsetup : .exec i started ∈ (cniSetup h env id cfg.portMappings o).1 := by
    rw [runSandbox_effects] at he
    unfold setupNetwork at he
    split_ifs at he
    · exact absurd he List.not_mem_nil
    · rcases hsetup : cniSetup h env id cfg.portMappings o with ⟨es, e | ⟨ip, path⟩⟩
      · rwa [hsetup] at he
      · rwa [hsetup] at he
    · exact absurd he List.not_mem_nil
  unfold cniSetup at hsetup
  rcases hcreate : createNetns (nsName id) o.creation with ⟨es, e | path⟩
  · have hnot := @exec_notMem_createNetns (nsName id) o.creation i started
    rw [hcreate] at hsetup hnot
    exact absurd hsetup hnot
  · have hes : .exec i started ∉ es := by
      have hnot := @exec_notMem_createNetns (nsName id) o.creation i started
      rwa [hcreate] at hnot
    rw [hcreate] at hsetup
    dsimp only at hsetup
    cases hconflist : env.conflist with
    | none =>
      rw [hconflist] at hsetup
      exact absurd hsetup hes
    | some conflist =>
      rw [hconflist] at hsetup
      dsimp only at hsetup
      have hadd : .exec i started ∈ (h.add conflist id.val path cfg.portMappings o.runs).1 := by
        rcases hresult : h.add conflist id.val path cfg.portMappings o.runs with ⟨es', e | ip⟩
        · rw [hresult] at hsetup
          exact (List.mem_append.mp hsetup).resolve_left hes
        · rw [hresult] at hsetup
          exact (List.mem_append.mp hsetup).resolve_left hes
      exact pluginOf_of_mem_add hadd

/-- `cni_teardown` executes the plugins of the conflist that have a type. -/
theorem mem_cniTeardown_iff {id : SandboxId} {path : String} {o : RemoveOracle} {type : String}
    (havailable : env.available = true) :
    (∃ i started, .exec i started ∈ cniTeardown h env id path o ∧ i.plugin = type) ↔
      PluginOf env.conflist type := by
  have hleft (es : List Effect) (i : Invocation) (started : Bool) :
      .exec i started ∈ es ++ teardownNetns path o.teardown ↔ .exec i started ∈ es := by
    rw [List.mem_append, or_iff_left exec_notMem_teardownNetns]
  unfold cniTeardown
  simp only [hleft, if_pos havailable]
  cases env.conflist with
  | none =>
    apply iff_of_false
    · rintro ⟨_, _, he, -⟩
      exact absurd he List.not_mem_nil
    · rintro ⟨c, plugins, plugin, hc, -⟩
      cases hc
  | some conflist => exact mem_del_iff

end

/-! ## The probe is truthful -/

theorem probed_of_available {env : Environment} {fs : FileSystem} {c : Net.CniEnv}
    (hc : cniAvailable env fs = some c) :
    probed env fs = ⟨true, c.confDir, (firstConflist fs c.confDir).map (fs.load c.confDir)⟩ := by
  rw [probed, hc]

/-- **When the probe is truthful**: it has an answer, and every plugin of the conflist that is
loaded leads to the directory of `LIGHTR_CNI_BIN` from that of `CNI_PATH`. For a type without a
slash this says that the two directories are the same, or, if `CNI_PATH` is set to nothing, that
`PATH` leads there. -/
theorem probe_truthful {env : Environment} {fs : FileSystem} {c : Net.CniEnv}
    (hc : cniAvailable env fs = some c) (parse : String → Except String Json) :
    Truthful env fs parse c ↔
      ∀ name conflist plugins plugin type, firstConflist fs c.confDir = some name →
        fs.load c.confDir name = .ok conflist → conflistPlugins conflist = .ok plugins →
        plugin ∈ plugins → pluginType plugin = .ok type →
          if '/' ∈ type.toList then
            fs.dirId (dirOf (Net.joinPath (binDirFromEnv env) type)) = fs.dirId c.binDir
          else if binDirFromEnv env = "" then fs.onPath type = fs.dirId c.binDir
          else fs.dirId (binDirFromEnv env) = fs.dirId c.binDir := by
  have hprobed := probed_of_available hc
  have hfrom (type : String) : ExecutedFrom fs (hostOf env parse) c.binDir type ↔
      if '/' ∈ type.toList then
        fs.dirId (dirOf (Net.joinPath (binDirFromEnv env) type)) = fs.dirId c.binDir
      else if binDirFromEnv env = "" then fs.onPath type = fs.dirId c.binDir
      else fs.dirId (binDirFromEnv env) = fs.dirId c.binDir := by
    rw [ExecutedFrom, hostOf, execDir_joinPath]
    split_ifs <;> rfl
  have hplugin (type : String) : PluginOf (probed env fs).conflist type ↔
      ∃ name conflist plugins plugin, firstConflist fs c.confDir = some name ∧
        fs.load c.confDir name = .ok conflist ∧ conflistPlugins conflist = .ok plugins ∧
        plugin ∈ plugins ∧ pluginType plugin = .ok type := by
    rw [hprobed, PluginOf]
    constructor
    · rintro ⟨conflist, plugins, plugin, hload, hplugins, hmem, htype⟩
      obtain ⟨name, hname, hload⟩ := Option.map_eq_some_iff.mp hload
      exact ⟨name, conflist, plugins, plugin, hname, hload, hplugins, hmem, htype⟩
    · rintro ⟨name, conflist, plugins, plugin, hname, hload, hplugins, hmem, htype⟩
      exact ⟨conflist, plugins, plugin, Option.map_eq_some_iff.mpr ⟨name, hname, hload⟩, hplugins, hmem,
        htype⟩
  have havailable : (probed env fs).available = true := by rw [hprobed]
  constructor
  · intro htruthful name conflist plugins plugin type hname hload hplugins hmem htype
    have hof := (hplugin type).mpr ⟨name, conflist, plugins, plugin, hname, hload, hplugins, hmem, htype⟩
    obtain ⟨i, started, he, rfl⟩ := (@mem_cniTeardown_iff (hostOf env parse) _ ⟨""⟩ ""
      { runs := fun _ => .notStarted "" } type havailable).mpr hof
    exact (hfrom i.plugin).mp (htruthful.del _ _ _ i started he)
  · intro hsame
    have hexec (type : String) (hof : PluginOf (probed env fs).conflist type) :
        ExecutedFrom fs (hostOf env parse) c.binDir type := by
      obtain ⟨name, conflist, plugins, plugin, hname, hload, hplugins, hmem, htype⟩ :=
        (hplugin type).mp hof
      exact (hfrom type).mpr (hsame name conflist plugins plugin type hname hload hplugins hmem htype)
    obtain ⟨name, hname⟩ := exists_firstConflist hc
    obtain ⟨names, hnames, hmem, hconflist⟩ := mem_firstConflist hname
    refine ⟨⟨names, name, hnames, hmem, hconflist, ?_⟩, fun id stamp cfg o i started he => ?_,
      fun id path o i started he => ?_⟩
    · rw [hprobed, hname]
      rfl
    · exact hexec i.plugin (pluginOf_of_mem_runSandbox he)
    · exact hexec i.plugin ((mem_cniTeardown_iff havailable).mp ⟨i, started, he, rfl⟩)

/-! ## One host -/

/-- The path without the slashes at its end. -/
def trimSlashes (path : String) : List Char := path.toList.reverse.dropWhile (· = '/')

/-- A host with a chain of one plugin and two directories. -/
def twoDirs : FileSystem where
  readDir dir := if dir = "/etc/cni/net.d" then some [encodeUtf8 "10-bridge.conflist".toList] else none
  dirId path :=
    if trimSlashes path = trimSlashes "/opt/cni/bin" then some 0
    else if trimSlashes path = trimSlashes "/custom" then some 1
    else none
  dirId_slash dir _ := by
    have htrim : trimSlashes (dir ++ "/") = trimSlashes dir := by
      rw [trimSlashes, String.toList_append, List.reverse_append]
      rfl
    rw [htrim]
  onPath _ := none
  load _ _ := .ok (.object [("plugins", .array [.object [("type", .string "bridge")]])])
  privileged := true

/-- The variables of the probe are set, or not; `CNI_PATH` is not. -/
def withBin (binDir : Option String) : Environment := fun name =>
  if name = "LIGHTR_CNI_BIN" then binDir.map fun dir => encodeUtf8 dir.toList else none

theorem var_withBin (binDir : Option String) (name : String) :
    (withBin binDir).var name = if name = "LIGHTR_CNI_BIN" then binDir else none := by
  unfold Environment.var withBin
  split_ifs
  · cases binDir with
    | none => rfl
    | some dir =>
      rw [Option.map_some, Option.bind_some, decodeUtf8_eq_some.mpr rfl, Option.map_some,
        String.ofList_toList]
  · rfl

theorem cniAvailable_twoDirs {binDir : Option String}
    (hdir : (twoDirs.dirId (binDir.getD "/opt/cni/bin")).isSome = true) :
    cniAvailable (withBin binDir) twoDirs =
      some ⟨"/etc/cni/net.d", binDir.getD "/opt/cni/bin"⟩ := by
  refine cniAvailable_eq_some.mpr ⟨?_, ⟨_, rfl, by decide⟩, hdir, rfl⟩
  rw [var_withBin, var_withBin]
  rfl

/-- Without any variable. -/
theorem probe_truthful_defaults :
    cniAvailable (withBin none) twoDirs = some ⟨"/etc/cni/net.d", "/opt/cni/bin"⟩ ∧
      Truthful (withBin none) twoDirs (fun _ => .error "EOF") ⟨"/etc/cni/net.d", "/opt/cni/bin"⟩ := by
  have hc : cniAvailable (withBin none) twoDirs = some ⟨"/etc/cni/net.d", "/opt/cni/bin"⟩ :=
    cniAvailable_twoDirs rfl
  refine ⟨hc, (probe_truthful hc _).mpr fun name conflist plugins plugin type _ hload hplugins hmem
    htype => ?_⟩
  obtain rfl := Except.ok.inj hload
  obtain rfl := Except.ok.inj hplugins
  obtain rfl := List.mem_singleton.mp hmem
  obtain rfl := Except.ok.inj htype
  have hbin : binDirFromEnv (withBin none) = "/opt/cni/bin" := by
    rw [binDirFromEnv, var_withBin]
    rfl
  rw [hbin, if_neg (by decide), if_neg (by decide)]

/-- **A probe of another directory**: `LIGHTR_CNI_BIN` is checked, and `/opt/cni/bin` is executed.
-/
theorem bin_override_ignored :
    ¬ ∀ (env : Environment) (fs : FileSystem) (c : Net.CniEnv) (parse : String → Except String Json),
      cniAvailable env fs = some c → Truthful env fs parse c := by
  intro hall
  have hc : cniAvailable (withBin (some "/custom")) twoDirs = some ⟨"/etc/cni/net.d", "/custom"⟩ :=
    cniAvailable_twoDirs rfl
  have htruthful := hall _ _ _ (fun _ => .error "EOF") hc
  have hof : PluginOf (probed (withBin (some "/custom")) twoDirs).conflist "bridge" := by
    obtain ⟨name, hname⟩ := exists_firstConflist hc
    rw [probed_of_available hc, hname]
    exact ⟨.object [("plugins", .array [.object [("type", .string "bridge")]])],
      [.object [("type", .string "bridge")]], _, rfl, rfl, List.mem_cons_self, rfl⟩
  obtain ⟨i, started, he, hplugin⟩ := (@mem_cniTeardown_iff
    (hostOf (withBin (some "/custom")) fun _ => .error "EOF") _ ⟨"sb-1-0"⟩ "/run/netns/lightr-sb-1-0"
    { runs := fun _ => .notStarted "" } "bridge" (by rw [probed_of_available hc])).mpr hof
  have hfrom := htruthful.del _ _ _ i started he
  have hbin : binDirFromEnv (withBin (some "/custom")) = "/opt/cni/bin" := by
    rw [binDirFromEnv, var_withBin]
    rfl
  rw [hplugin, ExecutedFrom, hostOf, execDir_joinPath, if_neg (by decide), hbin,
    if_neg (by decide)] at hfrom
  cases hfrom

end LightrCri.Fake

import LightrCri.Backend.Vocabulary

/-!
# CNI chains

The crate `lightr-cri-net`: `add` runs the plugins of a conflist forward and stops at the first that
fails, `del` runs them in reverse and goes on past those that fail. A function returns what it did
to the host (`Effect`) next to its result. What becomes of a plugin (`PluginRun`), and of the system
calls for the network namespace, comes from outside, and so does the parser of JSON texts.
-/

namespace LightrCri.Net

open Backend

/-! ## JSON -/

/-- `serde_json::Value`. The fields of an object are sorted by name. -/
inductive Json
  | null
  | bool (b : Bool)
  | number (text : String)
  | string (s : String)
  | array (xs : List Json)
  | object (fields : List (String × Json))

/-- `Map::insert`. -/
def insertField (k : String) (v : Json) : List (String × Json) → List (String × Json)
  | [] => [(k, v)]
  | (k', v') :: fs =>
    if k = k' then (k, v) :: fs
    else if k < k' then (k, v) :: (k', v') :: fs
    else (k', v') :: insertField k v fs

def lookupField (k : String) : List (String × Json) → Option Json
  | [] => none
  | (k', v) :: fs => if k = k' then some v else lookupField k fs

namespace Json

def get (j : Json) (k : String) : Option Json :=
  match j with
  | .object fs => lookupField k fs
  | _ => none

def asStr : Json → Option String
  | .string s => some s
  | _ => none

def asBool : Json → Option Bool
  | .bool b => some b
  | _ => none

def asArray : Json → Option (List Json)
  | .array xs => some xs
  | _ => none

def asObject : Json → Option (List (String × Json))
  | .object fs => some fs
  | _ => none

end Json

/-! ## The configuration of a plugin -/

def serializePortMapping (pm : PortMapping) : Json :=
  .object [("containerPort", .number (toString pm.containerPort)), ("hostIP", .string pm.hostIp),
    ("hostPort", .number (toString pm.hostPort)),
    ("protocol", .string (match pm.protocol with
      | .tcp => "tcp"
      | .udp => "udp"
      | .sctp => "sctp"))]

/-- The plugin declares the capability `portMappings`. -/
def hasPortMappings (plugin : Json) : Bool :=
  (((plugin.get "capabilities").bind fun c => c.get "portMappings").bind Json.asBool).getD false

/-- The mappings that have a host port. -/
def hostMappings (portMappings : List PortMapping) : List Json :=
  (portMappings.filter fun pm => 0 < pm.hostPort).map serializePortMapping

/-- The `runtimeConfig` for the mappings. -/
def runtimeConfig (mappings : List Json) : Json := .object [("portMappings", .array mappings)]

def derivePluginConfig (plugin : Json) (cniVersion netName : String) (prevResult : Option Json)
    (portMappings : List PortMapping) : Json :=
  let obj := plugin.asObject.getD []
  let obj := insertField "cniVersion" (.string cniVersion) obj
  let obj := insertField "name" (.string netName) obj
  let obj :=
    match prevResult with
    | some prev => insertField "prevResult" prev obj
    | none => obj
  let obj :=
    if hasPortMappings plugin ∧ portMappings ≠ [] ∧ hostMappings portMappings ≠ [] then
      insertField "runtimeConfig" (runtimeConfig (hostMappings portMappings)) obj
    else obj
  .object obj

theorem lookupField_insertField (k k' : String) (v : Json) (fs : List (String × Json)) :
    lookupField k (insertField k' v fs) = if k = k' then some v else lookupField k fs := by
  induction fs with
  | nil => rfl
  | cons f fs ih =>
    obtain ⟨k₁, v₁⟩ := f
    rw [insertField]
    split
    · rename_i heq
      subst heq
      simp only [lookupField]
      split
      · rfl
      · rfl
    · rename_i hne
      split
      · rfl
      · simp only [lookupField, ih]
        by_cases hk : k = k₁
        · rw [if_pos hk, if_pos hk, if_neg (hk ▸ fun h => hne h.symm)]
        · rw [if_neg hk, if_neg hk]

theorem Json.get_eq (j : Json) (k : String) : j.get k = lookupField k (j.asObject.getD []) := by
  cases j <;> rfl

/-- The fields of a plugin's configuration. -/
theorem get_derivePluginConfig (plugin : Json) (version name : String) (prevResult : Option Json)
    (mappings : List PortMapping) {k : String} (hk : k ≠ "prevResult") :
    (derivePluginConfig plugin version name prevResult mappings).get k =
      if k = "runtimeConfig" ∧ hasPortMappings plugin = true ∧ hostMappings mappings ≠ [] then
        some (runtimeConfig (hostMappings mappings))
      else if k = "name" then some (.string name)
      else if k = "cniVersion" then some (.string version)
      else plugin.get k := by
  have hprev (obj : List (String × Json)) : lookupField k
      (match prevResult with
        | some prev => insertField "prevResult" prev obj
        | none => obj) = lookupField k obj := by
    cases prevResult with
    | none => rfl
    | some prev => rw [lookupField_insertField, if_neg hk]
  have hempty (hne : hostMappings mappings ≠ []) : mappings ≠ [] := by
    rintro rfl
    exact hne rfl
  rw [Json.get_eq plugin]
  show lookupField k (if _ then _ else _) = _
  by_cases hcap : hasPortMappings plugin = true ∧ hostMappings mappings ≠ []
  · rw [if_pos ⟨hcap.1, hempty hcap.2, hcap.2⟩, lookupField_insertField]
    by_cases hruntime : k = "runtimeConfig"
    · rw [if_pos hruntime, if_pos ⟨hruntime, hcap⟩]
    · rw [if_neg hruntime, if_neg fun h => hruntime h.1, hprev, lookupField_insertField,
        lookupField_insertField]
  · rw [if_neg fun h => hcap ⟨h.1, h.2.2⟩, if_neg fun h => hcap h.2, hprev, lookupField_insertField,
      lookupField_insertField]

/-- **When the mappings make no difference** to the configuration, but for the previous result. -/
theorem derivePluginConfig_mappings (plugin : Json) (version name : String)
    (prevResult : Option Json) (mappings : List PortMapping) :
    (∀ k, k ≠ "prevResult" → (derivePluginConfig plugin version name prevResult mappings).get k =
        (derivePluginConfig plugin version name none []).get k) ↔
      (hasPortMappings plugin = true → hostMappings mappings = [] ∨
        plugin.get "runtimeConfig" = some (runtimeConfig (hostMappings mappings))) := by
  have hnone (k : String) :
      ¬ (k = "runtimeConfig" ∧ hasPortMappings plugin = true ∧ hostMappings [] ≠ []) :=
    fun h => h.2.2 rfl
  constructor
  · intro hsame hcap
    by_cases hne : hostMappings mappings = []
    · exact .inl hne
    · have hruntime := hsame "runtimeConfig" (by decide)
      rw [get_derivePluginConfig _ _ _ _ _ (by decide), get_derivePluginConfig _ _ _ _ _ (by decide),
        if_pos ⟨rfl, hcap, hne⟩, if_neg (hnone _), if_neg (by decide), if_neg (by decide)] at hruntime
      exact .inr hruntime.symm
  · intro hcond k hk
    rw [get_derivePluginConfig _ _ _ _ _ hk, get_derivePluginConfig _ _ _ _ _ hk, if_neg (hnone k)]
    split
    · rename_i hset
      obtain ⟨rfl, hcap, hne⟩ := hset
      rw [if_neg (by decide), if_neg (by decide), (hcond hcap).resolve_left hne]
    · rfl

/-! ## The conflist -/

def conflistVersion (conflist : Json) : String :=
  ((conflist.get "cniVersion").bind Json.asStr).getD "1.0.0"

def conflistName (conflist : Json) : String := ((conflist.get "name").bind Json.asStr).getD ""

def conflistPlugins (conflist : Json) : Except String (List Json) :=
  match (conflist.get "plugins").bind Json.asArray with
  | some plugins => .ok plugins
  | none => .error "conflist missing 'plugins' array"

def pluginType (plugin : Json) : Except String String :=
  match (plugin.get "type").bind Json.asStr with
  | some type => .ok type
  | none => .error "plugin object missing 'type' field"

/-! ## Plugins -/

inductive Command
  | add
  | del
  deriving DecidableEq, Repr

/-- What a plugin is run with: its environment and its stdin. -/
structure Invocation where
  command : Command
  plugin : String
  containerId : String
  netns : String
  config : Json

inductive Effect
  /-- A file under `/run/netns` is created. -/
  | touch (path : String)
  /-- A new network namespace is bind-mounted on the file. -/
  | mount (path : String)
  | umount (path : String)
  | unlink (path : String)
  /-- `exec_plugin`; the plugin may fail to start. -/
  | exec (i : Invocation) (started : Bool)

/-- What becomes of a plugin. -/
inductive PluginRun
  | notStarted (e : String)
  | stdinFailed (e : String)
  | waitFailed (e : String)
  | failed (stdout stderr : String)
  /-- It exits with 0; its output may not be UTF-8. -/
  | succeeded (stdout : Except String String)

def PluginRun.started : PluginRun → Bool
  | .notStarted _ => false
  | _ => true

/-- `Path::join`. -/
def joinPath (dir name : String) : String :=
  if name.startsWith "/" then name
  else if dir = "" ∨ dir.endsWith "/" then dir ++ name
  else dir ++ "/" ++ name

/-- What the host provides to a chain. -/
structure Host where
  /-- `serde_json::from_str`. -/
  parse : String → Except String Json
  binDir : String

namespace Host

variable (h : Host)

def parseCniError (stdout : String) : String :=
  match h.parse stdout with
  | .error _ => stdout
  | .ok v =>
    match (v.get "msg").bind Json.asStr with
    | some msg => msg
    | none => ((v.get "details").bind Json.asStr).getD stdout

/-- The result of `exec_plugin`. -/
def execPlugin (type : String) : PluginRun → Except String String
  | .notStarted e => .error ("spawn " ++ joinPath h.binDir type ++ ": " ++ e)
  | .stdinFailed e => .error ("write stdin to " ++ type ++ ": " ++ e)
  | .waitFailed e => .error ("wait for " ++ type ++ ": " ++ e)
  | .succeeded (.error e) => .error ("non-utf8 stdout from " ++ type ++ ": " ++ e)
  | .succeeded (.ok stdout) => .ok stdout
  | .failed stdout stderr =>
    .error (type ++ ": " ++ if stdout = "" then stderr else h.parseCniError stdout)

/-- The loop of `add`, from the plugin number `i` on. -/
def addFrom (cniVersion netName containerId netns : String) (portMappings : List PortMapping)
    (runs : Nat → PluginRun) :
    Nat → Option Json → List Json → List Effect × Except String (Option Json)
  | _, prevResult, [] => ([], .ok prevResult)
  | i, prevResult, plugin :: plugins =>
    match pluginType plugin with
    | .error e => ([], .error e)
    | .ok type =>
      let config := derivePluginConfig plugin cniVersion netName prevResult portMappings
      let effect := .exec ⟨.add, type, containerId, netns, config⟩ (runs i).started
      match h.execPlugin type (runs i) with
      | .error e => ([effect], .error e)
      | .ok stdout =>
        match h.parse stdout with
        | .error e => ([effect], .error ("parse result from " ++ type ++ ": " ++ e))
        | .ok result =>
          let r := addFrom cniVersion netName containerId netns portMappings runs (i + 1)
            (some result) plugins
          (effect :: r.1, r.2)

/-- The address of an entry of `ips`, without the length of its network. -/
def ipv4 (addr : String) : Option String :=
  if addr.toList.contains ':' then none
  else some (String.ofList (addr.toList.takeWhile (· ≠ '/')))

/-- The first IPv4 address of the entries, up to one without an address. -/
def firstIpv4 : List Json → Option String
  | [] => none
  | entry :: ips =>
    match (entry.get "address").bind Json.asStr with
    | none => none
    | some addr =>
      match ipv4 addr with
      | some ip => some ip
      | none => firstIpv4 ips

def extractFirstIpv4 (result : Json) : Option String :=
  ((result.get "ips").bind Json.asArray).bind firstIpv4

/-- `chain::add`. The conflist is the contents of its file, or why it cannot be read. -/
def add (conflist : Except String Json) (containerId netns : String)
    (portMappings : List PortMapping) (runs : Nat → PluginRun) :
    List Effect × Except String (Option String) :=
  match conflist with
  | .error e => ([], .error e)
  | .ok conflist =>
    match conflistPlugins conflist with
    | .error e => ([], .error e)
    | .ok plugins =>
      let r := h.addFrom (conflistVersion conflist) (conflistName conflist) containerId netns
        portMappings runs 0 none plugins
      (r.1, r.2.map fun prevResult => prevResult.bind extractFirstIpv4)

/-- The loop of `del`, and the last error of it. -/
def delFrom (cniVersion netName containerId netns : String) (portMappings : List PortMapping)
    (runs : Nat → PluginRun) : Nat → List Json → List Effect × Option String
  | _, [] => ([], none)
  | i, plugin :: plugins =>
    let r := delFrom cniVersion netName containerId netns portMappings runs (i + 1) plugins
    match pluginType plugin with
    | .error _ => r
    | .ok type =>
      let config := derivePluginConfig plugin cniVersion netName none portMappings
      let effect := .exec ⟨.del, type, containerId, netns, config⟩ (runs i).started
      match h.execPlugin type (runs i) with
      | .ok _ => (effect :: r.1, r.2)
      | .error e => (effect :: r.1, r.2 <|> some e)

/-- `chain::del`. -/
def del (conflist : Except String Json) (containerId netns : String)
    (portMappings : List PortMapping) (runs : Nat → PluginRun) : List Effect × Except String Unit :=
  match conflist with
  | .error e => ([], .error e)
  | .ok conflist =>
    match conflistPlugins conflist with
    | .error e => ([], .error e)
    | .ok plugins =>
      let r := h.delFrom (conflistVersion conflist) (conflistName conflist) containerId netns
        portMappings runs 0 plugins.reverse
      (r.1, match r.2 with
        | some e => .error e
        | none => .ok ())

variable {h}

theorem execPlugin_ok {type stdout : String} {run : PluginRun} :
    h.execPlugin type run = .ok stdout ↔ run = .succeeded (.ok stdout) := by
  constructor
  · intro hok
    cases run with
    | succeeded stdout' =>
      cases stdout' with
      | ok out =>
        obtain rfl : out = stdout := Except.ok.inj hok
        rfl
      | error e => cases hok
    | _ => cases hok
  · rintro rfl
    rfl

section

variable {version name containerId netns : String} {mappings : List PortMapping}
  {runs : Nat → PluginRun}

/-- A chain succeeds when its first plugin has a type and succeeds with a JSON text, and the rest
succeeds with that for its previous result. -/
theorem addFrom_cons {i : Nat} {prevResult r : Option Json} {plugin : Json} {plugins : List Json}
    {es : List Effect} :
    h.addFrom version name containerId netns mappings runs i prevResult (plugin :: plugins) =
        (es, .ok r) ↔
      ∃ type stdout result es', pluginType plugin = .ok type ∧
        runs i = .succeeded (.ok stdout) ∧ h.parse stdout = .ok result ∧
        h.addFrom version name containerId netns mappings runs (i + 1) (some result) plugins =
          (es', .ok r) ∧
        es = .exec ⟨.add, type, containerId, netns,
          derivePluginConfig plugin version name prevResult mappings⟩ true :: es' := by
  constructor
  · intro hadd
    rw [addFrom] at hadd
    split at hadd
    · cases hadd
    · rename_i type htype
      split at hadd
      · cases hadd
      · rename_i stdout hexec
        have hrun := execPlugin_ok.mp hexec
        split at hadd
        · cases hadd
        · rename_i result hparse
          obtain ⟨rfl, hr⟩ := Prod.mk.inj hadd
          rw [hrun]
          exact ⟨type, stdout, result, _, htype, rfl, hparse, Prod.ext rfl hr, rfl⟩
  · rintro ⟨type, stdout, result, es', htype, hrun, hparse, hrest, rfl⟩
    rw [addFrom, htype]
    dsimp only
    rw [execPlugin_ok.mpr hrun]
    dsimp only
    rw [hparse, hrun]
    dsimp only
    rw [hrest]
    rfl

/-- The chain succeeds when every plugin of it does. -/
theorem addFrom_isOk {plugins : List Json} {i : Nat} {prevResult : Option Json} :
    (∃ es r, h.addFrom version name containerId netns mappings runs i prevResult plugins =
        (es, .ok r)) ↔
      ∀ k plugin, plugins[k]? = some plugin → (∃ type, pluginType plugin = .ok type) ∧
        ∃ stdout result, runs (i + k) = .succeeded (.ok stdout) ∧ h.parse stdout = .ok result := by
  induction plugins generalizing i prevResult with
  | nil => exact ⟨fun _ k _ hk => (by simp at hk), fun _ => ⟨[], prevResult, rfl⟩⟩
  | cons plugin plugins ih =>
    constructor
    · rintro ⟨es, r, hadd⟩ k plugin' hk
      obtain ⟨type, stdout, result, es', htype, hrun, hparse, hrest, -⟩ := addFrom_cons.mp hadd
      cases k with
      | zero =>
        obtain rfl : plugin = plugin' := Option.some.inj hk
        exact ⟨⟨type, htype⟩, stdout, result, hrun, hparse⟩
      | succ k =>
        rw [Nat.add_comm k 1, ← Nat.add_assoc]
        exact ih.mp ⟨es', r, hrest⟩ k plugin' hk
    · intro hall
      obtain ⟨⟨type, htype⟩, stdout, result, hrun, hparse⟩ := hall 0 plugin rfl
      obtain ⟨es, r, hrest⟩ := (@ih (i + 1) (some result)).mpr
        fun k plugin' hk => by
          rw [Nat.add_assoc, Nat.add_comm 1 k]
          exact hall (k + 1) plugin' hk
      exact ⟨_, r, addFrom_cons.mpr ⟨type, stdout, result, es, htype, hrun, hparse, hrest, rfl⟩⟩

/-- The ADD of a plugin. -/
def IsAdd (version name containerId netns : String) (mappings : List PortMapping) (plugin : Json)
    (e : Effect) : Prop :=
  ∃ type prevResult, pluginType plugin = .ok type ∧ e = .exec ⟨.add, type, containerId, netns,
    derivePluginConfig plugin version name prevResult mappings⟩ true

/-- The DEL of a plugin. -/
def IsDel (version name containerId netns : String) (mappings : List PortMapping) (plugin : Json)
    (e : Effect) : Prop :=
  ∃ type started, pluginType plugin = .ok type ∧ e = .exec ⟨.del, type, containerId, netns,
    derivePluginConfig plugin version name none mappings⟩ started

/-- A chain that succeeds gives every plugin its ADD. -/
theorem forall₂_addFrom {plugins : List Json} {i : Nat} {prevResult r : Option Json}
    {es : List Effect} (hadd : h.addFrom version name containerId netns mappings runs i prevResult
      plugins = (es, .ok r)) :
    List.Forall₂ (IsAdd version name containerId netns mappings) plugins es := by
  induction plugins generalizing i prevResult es with
  | nil =>
    obtain ⟨rfl, -⟩ := Prod.mk.inj hadd
    exact .nil
  | cons plugin plugins ih =>
    obtain ⟨type, stdout, result, es', htype, -, -, hrest, rfl⟩ := addFrom_cons.mp hadd
    exact .cons ⟨type, prevResult, htype, rfl⟩ (ih hrest)

/-- A chain whose plugins have types gives every plugin its DEL, whatever becomes of the others. -/
theorem forall₂_delFrom {plugins : List Json} {i : Nat}
    (htyped : ∀ plugin ∈ plugins, ∃ type, pluginType plugin = .ok type) :
    List.Forall₂ (IsDel version name containerId netns mappings) plugins
      (h.delFrom version name containerId netns mappings runs i plugins).1 := by
  induction plugins generalizing i with
  | nil => exact .nil
  | cons plugin plugins ih =>
    obtain ⟨type, htype⟩ := htyped plugin List.mem_cons_self
    have hrest := ih (i := i + 1) fun p hp => htyped p (List.mem_cons_of_mem _ hp)
    rw [delFrom, htype]
    dsimp only
    split
    · exact .cons ⟨type, _, htype, rfl⟩ hrest
    · exact .cons ⟨type, _, htype, rfl⟩ hrest

/-- A chain only runs plugins, with DEL. -/
theorem mem_delFrom {plugins : List Json} {i : Nat} {e : Effect}
    (he : e ∈ (h.delFrom version name containerId netns mappings runs i plugins).1) :
    ∃ inv b, e = .exec inv b ∧ inv.command = .del ∧ inv.containerId = containerId := by
  induction plugins generalizing i with
  | nil => exact absurd he List.not_mem_nil
  | cons plugin plugins ih =>
    rw [delFrom] at he
    split at he
    · exact ih he
    · dsimp only at he
      split at he
      · rcases List.mem_cons.mp he with rfl | he
        · exact ⟨_, _, rfl, rfl, rfl⟩
        · exact ih he
      · rcases List.mem_cons.mp he with rfl | he
        · exact ⟨_, _, rfl, rfl, rfl⟩
        · exact ih he

/-- A chain only runs plugins, with ADD. -/
theorem mem_addFrom {plugins : List Json} {i : Nat} {prevResult : Option Json} {e : Effect}
    (he : e ∈ (h.addFrom version name containerId netns mappings runs i prevResult plugins).1) :
    ∃ inv b, e = .exec inv b ∧ inv.command = .add ∧ inv.containerId = containerId := by
  induction plugins generalizing i prevResult with
  | nil => exact absurd he List.not_mem_nil
  | cons plugin plugins ih =>
    rw [addFrom] at he
    split at he
    · exact absurd he List.not_mem_nil
    · split at he
      · exact ⟨_, _, List.mem_singleton.mp he, rfl, rfl⟩
      · split at he
        · exact ⟨_, _, List.mem_singleton.mp he, rfl, rfl⟩
        · rcases List.mem_cons.mp he with rfl | he
          · exact ⟨_, _, rfl, rfl, rfl⟩
          · exact ih he

end

theorem mem_add {conflist : Except String Json} {containerId netns : String}
    {mappings : List PortMapping} {runs : Nat → PluginRun} {e : Effect}
    (he : e ∈ (h.add conflist containerId netns mappings runs).1) :
    ∃ inv b, e = .exec inv b ∧ inv.command = .add ∧ inv.containerId = containerId := by
  unfold add at he
  split at he
  · exact absurd he List.not_mem_nil
  · split at he
    · exact absurd he List.not_mem_nil
    · exact mem_addFrom he

theorem mem_del {conflist : Except String Json} {containerId netns : String}
    {mappings : List PortMapping} {runs : Nat → PluginRun} {e : Effect}
    (he : e ∈ (h.del conflist containerId netns mappings runs).1) :
    ∃ inv b, e = .exec inv b ∧ inv.command = .del ∧ inv.containerId = containerId := by
  unfold del at he
  split at he
  · exact absurd he List.not_mem_nil
  · split at he
    · exact absurd he List.not_mem_nil
    · exact mem_delFrom he

end Host

/-! ## Network namespaces -/

def NETNS_DIR : String := "/run/netns"

/-- How `netns::create` goes. -/
inductive Creation
  /-- `create_dir_all` fails. -/
  | dirFailed (e : String)
  /-- The file cannot be opened. -/
  | openFailed (e : String)
  /-- The file was there already, or not; the thread fails in `unshare` or in `mount`. -/
  | threadFailed (existed : Bool) (e : String)
  | created (existed : Bool)
  deriving DecidableEq, Repr

/-- The file of the namespace is not created. -/
def Creation.untouched : Creation → Bool
  | .dirFailed _ | .openFailed _ | .threadFailed true _ => true
  | _ => false

/-- `netns::create`. -/
def createNetns (name : String) : Creation → List Effect × Except String String
  | .dirFailed e | .openFailed e => ([], .error e)
  | .threadFailed existed e =>
    (if existed then [] else [.touch (joinPath NETNS_DIR name)], .error e)
  | .created existed =>
    ((if existed then [] else [.touch (joinPath NETNS_DIR name)]) ++
      [.mount (joinPath NETNS_DIR name)], .ok (joinPath NETNS_DIR name))

/-- How `netns::teardown` goes: the errors of `umount2` and of `unlink`. -/
structure Teardown where
  umountError : Option String := none
  unlinkError : Option String := none

/-- `netns::teardown`: without the `umount2` the file is not unlinked. -/
def teardownNetns (path : String) (t : Teardown) : List Effect :=
  match t.umountError, t.unlinkError with
  | some _, _ => []
  | none, some _ => [.umount path]
  | none, none => [.umount path, .unlink path]

end LightrCri.Net

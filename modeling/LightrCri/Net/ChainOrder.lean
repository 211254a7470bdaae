import LightrCri.Net.Chain

/-!
# The order of a chain

Which plugins `add` and `del` run, with what, and what becomes of the chain, by the places of the
plugins in the conflist. The loop of `add` goes on as long as its plugins are done (`Done`), the
loop of `del` whatever becomes of them.
-/

namespace LightrCri.Net

open Backend

/-! ## The configuration -/

theorem get_prevResult (plugin : Json) (version name : String) (prevResult : Option Json)
    (mappings : List PortMapping) :
    (derivePluginConfig plugin version name prevResult mappings).get "prevResult" =
      prevResult.or (plugin.get "prevResult") := by
  rw [Json.get_eq plugin]
  show lookupField "prevResult" (if _ then _ else _) = _
  have hbase : lookupField "prevResult"
      (insertField "name" (.string name)
        (insertField "cniVersion" (.string version) (plugin.asObject.getD []))) =
      lookupField "prevResult" (plugin.asObject.getD []) := by
    rw [lookupField_insertField, if_neg (by decide), lookupField_insertField, if_neg (by decide)]
  split
  · rw [lookupField_insertField, if_neg (by decide)]
    cases prevResult with
    | none => exact hbase
    | some prev => exact (lookupField_insertField ..).trans (if_pos rfl)
  · cases prevResult with
    | none => exact hbase
    | some prev => exact (lookupField_insertField ..).trans (if_pos rfl)

theorem hasPortMappings_eq_true {plugin : Json} : hasPortMappings plugin = true ↔
    ((plugin.get "capabilities").bind fun c => c.get "portMappings") = some (.bool true) := by
  unfold hasPortMappings
  cases (plugin.get "capabilities").bind fun c => c.get "portMappings" with
  | none => exact iff_of_false Bool.false_ne_true (by simp)
  | some v => cases v <;> simp [Json.asBool]

namespace Host

variable (h : Host)

/-! ## Which plugins are run -/

/-- The JSON value that the plugin at a place has printed. -/
def printed (runs : Nat → PluginRun) (k : Nat) : Option Json :=
  match runs k with
  | .succeeded (.ok stdout) => (h.parse stdout).toOption
  | _ => none

/-- The plugin has a type and has printed a JSON value. -/
def Done (runs : Nat → PluginRun) (k : Nat) (plugin : Json) : Prop :=
  (∃ type, pluginType plugin = .ok type) ∧ (h.printed runs k).isSome

/-- The previous result for the plugin `k` places behind the place `i`, where it is `prev`. -/
def resultBefore (runs : Nat → PluginRun) (prev : Option Json) (i : Nat) : Nat → Option Json
  | 0 => prev
  | k + 1 => h.printed runs (i + k)

/-- The DEL of the plugin at a place. -/
def delOf (version name containerId netns : String) (mappings : List PortMapping)
    (runs : Nat → PluginRun) (p : Json × Nat) : Option Effect :=
  (pluginType p.1).toOption.map fun type => .exec ⟨.del, type, containerId, netns,
    derivePluginConfig p.1 version name none mappings⟩ (runs p.2).started

variable {h} {version name containerId netns : String} {mappings : List PortMapping}
  {runs : Nat → PluginRun}

theorem printed_eq_some {k : Nat} {result : Json} : h.printed runs k = some result ↔
    ∃ stdout, runs k = .succeeded (.ok stdout) ∧ h.parse stdout = .ok result := by
  unfold printed
  split
  case h_1 stdout hrun =>
    cases hparse : h.parse stdout with
    | ok v =>
      constructor
      · intro hv
        exact ⟨stdout, hrun, by rw [hparse]; exact congrArg _ (Option.some.inj hv)⟩
      · rintro ⟨out, hout, hv⟩
        cases hrun.symm.trans hout
        rw [hparse] at hv
        exact congrArg some (Except.ok.inj hv)
    | error e =>
      refine iff_of_false (by simp [Except.toOption]) ?_
      rintro ⟨out, hout, hv⟩
      cases hrun.symm.trans hout
      rw [hparse] at hv
      cases hv
  case h_2 hrun =>
    refine iff_of_false (by simp) ?_
    rintro ⟨out, hout, -⟩
    exact hrun out hout

/-- What `add` does with its first plugin. -/
theorem addFrom_cases (plugin : Json) (plugins : List Json) (i : Nat) (prev : Option Json) :
    let r := h.addFrom version name containerId netns mappings runs i prev (plugin :: plugins)
    ((∀ type, pluginType plugin ≠ .ok type) ∧ r.1 = [] ∧ ∃ e, r.2 = .error e) ∨
      ∃ type, pluginType plugin = .ok type ∧
        let effect := .exec ⟨.add, type, containerId, netns,
          derivePluginConfig plugin version name prev mappings⟩ (runs i).started
        (h.printed runs i = none ∧ r.1 = [effect] ∧ ∃ e, r.2 = .error e) ∨
          ∃ result, h.printed runs i = some result ∧
            let rest := h.addFrom version name containerId netns mappings runs (i + 1) (some result)
              plugins
            r.1 = effect :: rest.1 ∧ r.2 = rest.2 := by
  intro r
  have hr : r = h.addFrom version name containerId netns mappings runs i prev (plugin :: plugins) := rfl
  rw [addFrom] at hr
  cases htype : pluginType plugin with
  | error e =>
    rw [htype] at hr
    exact .inl ⟨fun _ h => (by cases h), by rw [hr], e, by rw [hr]⟩
  | ok type =>
    refine .inr ⟨type, rfl, ?_⟩
    rw [htype] at hr
    dsimp only at hr
    cases hexec : h.execPlugin type (runs i) with
    | error e =>
      rw [hexec] at hr
      refine .inl ⟨?_, by rw [hr], e, by rw [hr]⟩
      refine Option.eq_none_iff_forall_ne_some.mpr fun v hv => ?_
      obtain ⟨stdout, hrun, -⟩ := printed_eq_some.mp hv
      rw [execPlugin_ok.mpr hrun] at hexec
      cases hexec
    | ok stdout =>
      have hrun := execPlugin_ok.mp hexec
      rw [hexec] at hr
      dsimp only at hr
      cases hparse : h.parse stdout with
      | error e =>
        rw [hparse] at hr
        refine .inl ⟨?_, by rw [hr], _, by rw [hr]⟩
        refine Option.eq_none_iff_forall_ne_some.mpr fun v hv => ?_
        obtain ⟨out, hout, hv⟩ := printed_eq_some.mp hv
        cases hrun.symm.trans hout
        rw [hparse] at hv
        cases hv
      | ok result =>
        rw [hparse] at hr
        exact .inr ⟨result, printed_eq_some.mpr ⟨stdout, hrun, hparse⟩, by rw [hr], by rw [hr]⟩

theorem resultBefore_succ {prev : Option Json} {i : Nat} (k : Nat) :
    h.resultBefore runs prev i (k + 1) = h.resultBefore runs (h.printed runs i) (i + 1) k := by
  cases k with
  | zero => rfl
  | succ k => exact congrArg (h.printed runs) (by omega)

/-- The plugins before the place `k` are done. -/
def DoneBefore (h : Host) (runs : Nat → PluginRun) (plugins : List Json) (i k : Nat) : Prop :=
  ∀ j p, j < k → plugins[j]? = some p → h.Done runs (i + j) p

theorem doneBefore_succ {plugin : Json} {plugins : List Json} {i k : Nat} :
    DoneBefore h runs (plugin :: plugins) i (k + 1) ↔
      h.Done runs i plugin ∧ DoneBefore h runs plugins (i + 1) k := by
  constructor
  · intro hall
    refine ⟨hall 0 plugin (Nat.succ_pos k) rfl, fun j p hj hp => ?_⟩
    rw [Nat.add_assoc, Nat.add_comm 1 j]
    exact hall (j + 1) p (Nat.succ_lt_succ hj) hp
  · rintro ⟨hfirst, hall⟩ j p hj hp
    cases j with
    | zero =>
      obtain rfl := Option.some.inj hp
      exact hfirst
    | succ j =>
      rw [← Nat.add_assoc, Nat.add_right_comm]
      exact hall j p (Nat.lt_of_succ_lt_succ hj) hp

/-- **What `add` runs**: a plugin with a type, once those before it are done. -/
theorem getElem?_addFrom {plugins : List Json} {i : Nat} {prev : Option Json} {k : Nat} {e : Effect} :
    (h.addFrom version name containerId netns mappings runs i prev plugins).1[k]? = some e ↔
      ∃ plugin type, plugins[k]? = some plugin ∧ pluginType plugin = .ok type ∧
        DoneBefore h runs plugins i k ∧
        e = .exec ⟨.add, type, containerId, netns, derivePluginConfig plugin version name
          (h.resultBefore runs prev i k) mappings⟩ (runs (i + k)).started := by
  induction plugins generalizing i prev k with
  | nil => simp [addFrom]
  | cons plugin plugins ih =>
    have hbefore : DoneBefore h runs (plugin :: plugins) i 0 := fun j _ hj => by omega
    obtain ⟨hnone, hr, -⟩ | ⟨type, htype, ⟨hprinted, hr, -⟩ | ⟨result, hprinted, hr, -⟩⟩ :=
      @addFrom_cases h version name containerId netns mappings runs plugin plugins i prev
    · rw [hr]
      refine iff_of_false (by simp) ?_
      rintro ⟨p, type, hp, htype, hdone, -⟩
      cases k with
      | zero =>
        obtain rfl := Option.some.inj hp
        exact hnone type htype
      | succ k =>
        obtain ⟨type, htype⟩ := (doneBefore_succ.mp hdone).1.1
        exact hnone type htype
    · rw [hr]
      cases k with
      | zero =>
        constructor
        · intro he
          obtain rfl := Option.some.inj he
          exact ⟨plugin, type, rfl, htype, hbefore, rfl⟩
        · rintro ⟨p, type', hp, htype', -, rfl⟩
          obtain rfl := Option.some.inj hp
          obtain rfl := Except.ok.inj (htype.symm.trans htype')
          rfl
      | succ k =>
        refine iff_of_false (by simp) ?_
        rintro ⟨p, type', -, -, hdone, -⟩
        have hsome := (doneBefore_succ.mp hdone).1.2
        rw [hprinted] at hsome
        cases hsome
    · rw [hr]
      cases k with
      | zero =>
        constructor
        · intro he
          obtain rfl := Option.some.inj he
          exact ⟨plugin, type, rfl, htype, hbefore, rfl⟩
        · rintro ⟨p, type', hp, htype', -, rfl⟩
          obtain rfl := Option.some.inj hp
          obtain rfl := Except.ok.inj (htype.symm.trans htype')
          rfl
      | succ k =>
        have hfirst : h.Done runs i plugin := ⟨⟨type, htype⟩, by rw [hprinted]; rfl⟩
        have hplace : i + 1 + k = i + (k + 1) := by omega
        rw [List.getElem?_cons_succ, ih, hplace]
        simp only [List.getElem?_cons_succ, doneBefore_succ, hfirst, true_and, resultBefore_succ,
          hprinted]

/-- **What becomes of `add`**: it succeeds when all plugins are done, with what the last has
printed. -/
theorem addFrom_ok {plugins : List Json} {i : Nat} {prev r : Option Json} :
    (h.addFrom version name containerId netns mappings runs i prev plugins).2 = .ok r ↔
      DoneBefore h runs plugins i plugins.length ∧
        r = h.resultBefore runs prev i plugins.length := by
  induction plugins generalizing i prev with
  | nil =>
    constructor
    · intro hok
      exact ⟨fun j _ hj => absurd hj (Nat.not_lt_zero j), (Except.ok.inj hok).symm⟩
    · rintro ⟨-, rfl⟩
      rfl
  | cons plugin plugins ih =>
    rw [List.length_cons, doneBefore_succ, resultBefore_succ]
    obtain ⟨hnone, -, e, hr⟩ | ⟨type, htype, ⟨hprinted, -, e, hr⟩ | ⟨result, hprinted, -, hr⟩⟩ :=
      @addFrom_cases h version name containerId netns mappings runs plugin plugins i prev
    · rw [hr]
      refine iff_of_false (fun h => by cases h) ?_
      rintro ⟨⟨⟨⟨type, htype⟩, -⟩, -⟩, -⟩
      exact hnone type htype
    · rw [hr]
      refine iff_of_false (fun h => by cases h) ?_
      rintro ⟨⟨⟨-, hsome⟩, -⟩, -⟩
      rw [hprinted] at hsome
      cases hsome
    · have hfirst : h.Done runs i plugin := ⟨⟨type, htype⟩, by rw [hprinted]; rfl⟩
      rw [hr, ih, hprinted, and_iff_right hfirst]

/-- **What `del` runs**: every plugin that has a type. -/
theorem delFrom_effects (plugins : List Json) (i : Nat) :
    (h.delFrom version name containerId netns mappings runs i plugins).1 =
      (plugins.zipIdx i).filterMap (delOf version name containerId netns mappings runs) := by
  induction plugins generalizing i with
  | nil => rfl
  | cons plugin plugins ih =>
    rw [delFrom, List.zipIdx_cons, List.filterMap_cons, delOf]
    cases htype : pluginType plugin with
    | error e => exact ih (i + 1)
    | ok type =>
      dsimp only [Except.toOption, Option.map_some]
      rw [← ih (i + 1)]
      cases h.execPlugin type (runs i) <;> rfl

/-- **What becomes of `del`**: it fails when a plugin that has a type does. -/
theorem delFrom_error (plugins : List Json) (i : Nat) :
    (h.delFrom version name containerId netns mappings runs i plugins).2.isSome ↔
      ∃ k plugin type e, plugins[k]? = some plugin ∧ pluginType plugin = .ok type ∧
        h.execPlugin type (runs (i + k)) = .error e := by
  induction plugins generalizing i with
  | nil => simp [delFrom]
  | cons plugin plugins ih =>
    have hsplit : (∃ k p type e, (plugin :: plugins)[k]? = some p ∧ pluginType p = .ok type ∧
        h.execPlugin type (runs (i + k)) = .error e) ↔
        (∃ type e, pluginType plugin = .ok type ∧ h.execPlugin type (runs i) = .error e) ∨
          ∃ k p type e, plugins[k]? = some p ∧ pluginType p = .ok type ∧
            h.execPlugin type (runs (i + 1 + k)) = .error e := by
      constructor
      · rintro ⟨k, p, type, e, hp, htype, hexec⟩
        cases k with
        | zero =>
          obtain rfl := Option.some.inj hp
          exact .inl ⟨type, e, htype, hexec⟩
        | succ k => exact .inr ⟨k, p, type, e, hp, htype, by rwa [Nat.add_right_comm]⟩
      · rintro (⟨type, e, htype, hexec⟩ | ⟨k, p, type, e, hp, htype, hexec⟩)
        · exact ⟨0, plugin, type, e, rfl, htype, hexec⟩
        · exact ⟨k + 1, p, type, e, hp, htype, by rwa [Nat.add_right_comm] at hexec⟩
    rw [hsplit, ← ih (i + 1), delFrom]
    cases htype : pluginType plugin with
    | error e => simp
    | ok type =>
      dsimp only
      cases hexec : h.execPlugin type (runs i) with
      | ok stdout => simp [hexec]
      | error e => simp [hexec]

/-! ## The chain of a conflist -/

theorem hostMappings_ne_nil : hostMappings mappings ≠ [] ↔
    (mappings.any fun pm => 0 < pm.hostPort) = true := by
  simp [hostMappings]

/-- The configuration of a plugin: its own object, with what is injected. -/
theorem get_config (plugin : Json) (prevResult : Option Json) (k : String) :
    (derivePluginConfig plugin version name prevResult mappings).get k =
      if k = "runtimeConfig" ∧ hasPortMappings plugin = true ∧
          (mappings.any fun pm => 0 < pm.hostPort) = true then
        some (.object [("portMappings",
          .array ((mappings.filter fun pm => 0 < pm.hostPort).map serializePortMapping))])
      else if k = "prevResult" then prevResult.or (plugin.get k)
      else if k = "name" then some (.string name)
      else if k = "cniVersion" then some (.string version)
      else plugin.get k := by
  by_cases hk : k = "prevResult"
  · subst hk
    have hruntime (p : Prop) : ¬ ("prevResult" = "runtimeConfig" ∧ p) :=
      fun h => absurd h.1 (by decide)
    rw [get_prevResult, if_neg (hruntime _), if_pos rfl]
  · rw [get_derivePluginConfig _ _ _ _ _ hk]
    simp only [hostMappings_ne_nil, if_neg hk]
    rfl

theorem map_eq_ok {α β : Type} {x : Except String α} {f : α → β} {b : β} :
    x.map f = .ok b ↔ ∃ a, x = .ok a ∧ f a = b := by
  cases x with
  | error e => exact iff_of_false (fun h => by cases h) fun ⟨a, ha, _⟩ => by cases ha
  | ok a =>
    constructor
    · intro h
      exact ⟨a, rfl, Except.ok.inj h⟩
    · rintro ⟨a', ha, rfl⟩
      rw [Except.ok.inj ha]
      rfl

/-- The previous result for the plugin at a place. -/
def resultAt (h : Host) (runs : Nat → PluginRun) (k : Nat) : Option Json :=
  if k = 0 then none else h.printed runs (k - 1)

theorem resultBefore_eq (k : Nat) : h.resultBefore runs none 0 k = h.resultAt runs k := by
  cases k with
  | zero => rfl
  | succ k =>
    show h.printed runs (0 + k) = _
    rw [Nat.zero_add]
    rfl

theorem doneBefore_zero {plugins : List Json} {k : Nat} : DoneBefore h runs plugins 0 k ↔
    ∀ j p, j < k → plugins[j]? = some p → h.Done runs j p := by
  simp only [DoneBefore, Nat.zero_add]

/-- **The semantics of a chain**, by the places of its plugins. `add` runs the plugin at a place if
it has a type and those before it are done, with what the one before has printed; it succeeds when
all are done, with the address in the last result. `del` runs all that have a type, from the last to
the first and without a previous result; it fails when one of them does. -/
theorem chain_semantics (h : Host) (conflist : Json) (containerId netns : String)
    (mappings : List PortMapping) (runs : Nat → PluginRun) :
    (∀ e, conflistPlugins conflist = .error e →
      h.add (.ok conflist) containerId netns mappings runs = ([], .error e) ∧
        h.del (.ok conflist) containerId netns mappings runs = ([], .error e)) ∧
    (∀ plugins, conflistPlugins conflist = .ok plugins →
      (∀ k e, (h.add (.ok conflist) containerId netns mappings runs).1[k]? = some e ↔
        ∃ plugin type, plugins[k]? = some plugin ∧ pluginType plugin = .ok type ∧
          (∀ j p, j < k → plugins[j]? = some p → h.Done runs j p) ∧
          e = .exec ⟨.add, type, containerId, netns, derivePluginConfig plugin
            (conflistVersion conflist) (conflistName conflist) (h.resultAt runs k)
            mappings⟩ (runs k).started) ∧
      (∀ ip, (h.add (.ok conflist) containerId netns mappings runs).2 = .ok ip ↔
        (∀ j p, plugins[j]? = some p → h.Done runs j p) ∧
          ip = (h.resultAt runs plugins.length).bind extractFirstIpv4) ∧
      (h.del (.ok conflist) containerId netns mappings runs).1 =
        plugins.reverse.zipIdx.filterMap (delOf (conflistVersion conflist) (conflistName conflist)
          containerId netns mappings runs) ∧
      ((∃ e, (h.del (.ok conflist) containerId netns mappings runs).2 = .error e) ↔
        ∃ k plugin type e, plugins.reverse[k]? = some plugin ∧ pluginType plugin = .ok type ∧
          h.execPlugin type (runs k) = .error e)) ∧
    ∀ (plugin : Json) (version name : String) (prevResult : Option Json) (k : String),
      (hasPortMappings plugin = true ↔
        ((plugin.get "capabilities").bind fun c => c.get "portMappings") = some (.bool true)) ∧
      (derivePluginConfig plugin version name prevResult mappings).get k =
        if k = "runtimeConfig" ∧ hasPortMappings plugin = true ∧
            (mappings.any fun pm => 0 < pm.hostPort) = true then
          some (.object [("portMappings",
            .array ((mappings.filter fun pm => 0 < pm.hostPort).map serializePortMapping))])
        else if k = "prevResult" then prevResult.or (plugin.get k)
        else if k = "name" then some (.string name)
        else if k = "cniVersion" then some (.string version)
        else plugin.get k := by
  refine ⟨fun e he => ⟨by rw [add, he], by rw [del, he]⟩, fun plugins hplugins => ⟨?_, ?_, ?_, ?_⟩,
    fun plugin version name prevResult k => ⟨hasPortMappings_eq_true, get_config plugin prevResult k⟩⟩
  · intro k e
    rw [add, hplugins]
    dsimp only
    rw [getElem?_addFrom]
    simp only [doneBefore_zero, resultBefore_eq, Nat.zero_add]
  · intro ip
    rw [add, hplugins]
    dsimp only
    rw [map_eq_ok]
    have hall : DoneBefore h runs plugins 0 plugins.length ↔
        ∀ j p, plugins[j]? = some p → h.Done runs j p := by
      rw [doneBefore_zero]
      refine ⟨fun hdone j p hp => hdone j p (List.getElem?_eq_some_iff.mp hp).1 hp,
        fun hdone j p _ hp => hdone j p hp⟩
    constructor
    · rintro ⟨r, hr, rfl⟩
      obtain ⟨hdone, rfl⟩ := addFrom_ok.mp hr
      exact ⟨hall.mp hdone, by rw [resultBefore_eq]⟩
    · rintro ⟨hdone, rfl⟩
      exact ⟨_, addFrom_ok.mpr ⟨hall.mpr hdone, rfl⟩, by rw [resultBefore_eq]⟩
  · rw [del, hplugins]
    exact delFrom_effects plugins.reverse 0
  · rw [del, hplugins]
    dsimp only
    have hfails := @delFrom_error h (conflistVersion conflist) (conflistName conflist) containerId
      netns mappings runs plugins.reverse 0
    simp only [Nat.zero_add] at hfails
    rw [← hfails]
    cases (h.delFrom (conflistVersion conflist) (conflistName conflist) containerId netns mappings
      runs 0 plugins.reverse).2 with
    | none => exact iff_of_false (fun ⟨e, he⟩ => by cases he) Bool.false_ne_true
    | some e => exact iff_of_true ⟨e, rfl⟩ rfl

/-! ## A chain of two -/

def twoPlugins : Json :=
  .object [("name", .string "pod-net"), ("plugins", .array [.object [("type", .string "bridge")],
    .object [("type", .string "portmap")]])]

/-- A host that reads the empty object. -/
def emptyObjects : Host where
  parse text :=
    if text = "\x7b\x7d" then .ok (.object []) else .error "expected value at line 1 column 1"
  binDir := "/opt/cni/bin"

/-- The second plugin gets what the first has printed. -/
theorem chain_semantics_twoPlugins :
    let runs := fun _ => PluginRun.succeeded (.ok "\x7b\x7d")
    (emptyObjects.add (.ok twoPlugins) "sb-1-0" "/run/netns/lightr-sb-1-0" [] runs).1[1]? =
      some (Effect.exec ⟨.add, "portmap", "sb-1-0", "/run/netns/lightr-sb-1-0",
        derivePluginConfig (.object [("type", .string "portmap")]) "1.0.0" "pod-net"
          (some (.object [])) []⟩ true) := by
  intro runs
  refine (((chain_semantics emptyObjects twoPlugins "sb-1-0" "/run/netns/lightr-sb-1-0" []
    runs).2.1 _ rfl).1 1 _).mpr ⟨_, "portmap", rfl, rfl, fun j p hj hp => ?_, rfl⟩
  obtain rfl : j = 0 := by omega
  obtain rfl := Option.some.inj hp
  exact ⟨⟨"bridge", rfl⟩, rfl⟩

end Host

end LightrCri.Net

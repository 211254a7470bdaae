import LightrCri.Fake.Origin
import LightrCri.Fake.Status
import LightrCri.Shell.Runtime
import LightrCri.Stream.Server

/-!
# The service

The server as a whole: the shells over the fake backend, and the streaming server beside them, with
the registry of tokens that both share. An RPC that changes the backend becomes one of its calls. A
streaming RPC checks the state of its object in one critical section of the cache and mints a token
in one of the registry, with anything in between. A kill of the listener loses the registry and the
RPCs at work; the next listener has the address of another port.

The first law is about what the replies show. The backend stores what the RPCs have asked for,
passes it through its files and from one listener to the next, and the replies give it back:
`shown_as_requested`.
-/

namespace LightrCri.Shell

open Backend Fake Foundations LightrCri.Stream

/-! ## Streaming RPCs -/

/-- Exec, Attach and PortForward, with their requests. -/
inductive StreamRpc
  | exec (containerId : String) (cmd : List String) (tty stdin : Bool)
  | attach (containerId : String) (tty stdin : Bool)
  | portForward (podSandboxId : String) (port : List Int)
  deriving DecidableEq, Repr

def StreamRpc.verb : StreamRpc → StreamVerb
  | .exec _ _ _ _ => .exec
  | .attach _ _ _ => .attach
  | .portForward _ _ => .portForward

/-- The `{:?}` form of the state of a sandbox. -/
def sandboxStateDebug : SandboxState → String
  | .ready => "Ready"
  | .notReady => "NotReady"

def validateContainerRunning (c : Cache) (id : ContainerId) : Except Status Unit :=
  match Fake.containerStatus c id with
  | .error e => .error (mapErr e)
  | .ok cs =>
    if cs.state ≠ .running then
      .error ⟨.failedPrecondition, "container " ++ id.val ++ " is not Running (state=" ++
        cs.state.debug ++ ")"⟩
    else .ok ()

/-- The address to dial, and the netns to dial it in. -/
def validateSandboxReadyGetIp (c : Cache) (id : SandboxId) :
    Except Status (String × Option String) :=
  match Fake.sandboxStatus c id with
  | .error e => .error (mapErr e)
  | .ok ss =>
    if ss.state ≠ .ready then
      .error ⟨.failedPrecondition, "sandbox " ++ id.val ++ " is not Ready (state=" ++
        sandboxStateDebug ss.state ++ ")"⟩
    else
      let dial := if ss.netnsPath.isSome then "127.0.0.1" else ss.ip.getD "127.0.0.1"
      .ok (dial, ss.netnsPath)

/-- What the RPC checks, and the parameters that it mints a token for. -/
def StreamRpc.check (c : Cache) : StreamRpc → Except Status StreamParams
  | .exec id cmd tty stdin => (validateContainerRunning c ⟨id⟩).map fun _ =>
    { container := some id, cmd := cmd, tty := tty, stdin := stdin }
  | .attach id tty stdin => (validateContainerRunning c ⟨id⟩).map fun _ =>
    { container := some id, tty := tty, stdin := stdin }
  | .portForward id port => (validateSandboxReadyGetIp c ⟨id⟩).map fun d =>
    { sandbox := some id, ports := port, dialTarget := some d.1, netnsPath := d.2 }

/-- The address that `mint_url` answers with. -/
def mintUrl (baseUrl : String) (verb : StreamVerb) (token : String) : String :=
  baseUrl ++ "/" ++ verb.path ++ "/" ++ token

/-! ## The machine -/

structure Service where
  backend : State
  registry : TokenRegistry
  /-- The address of the streaming server. -/
  baseUrl : String
  /-- The streaming RPCs that have been checked, with the parameters for their tokens. -/
  checked : List (StreamRpc × StreamParams)
  /-- The last reading of the clock. -/
  clock : Nat

inductive ServiceLabel
  | call (r : Rpc)
  | check (r : StreamRpc)
  /-- The checked RPC `i` mints its token. -/
  | mint (i now : Nat) (draw : Nat → Option (Vector UInt8 6))
  /-- A client connects to the streaming server. -/
  | connect (now : Nat) (r : Request)
  | backend (l : Fake.Label)
  | restart (rs : Restart) (baseUrl : String)

/-- A step of the tasks, the processes and the kernel. -/
def inner : Fake.Label → Bool
  | .invoke _ => false
  | .restart _ => false
  | _ => true

def Service.step (s : Service) : ServiceLabel → Option Service
  | .call r =>
    match r.call with
    | .error _ => some s
    | .ok c => (Fake.step s.backend (.invoke c)).map fun b => { s with backend := b }
  | .check r =>
    if s.backend.shared.lock = none then
      match r.check s.backend.shared.cache with
      | .error _ => some s
      | .ok params => some { s with checked := s.checked ++ [(r, params)] }
    else none
  | .mint i now draw =>
    match s.checked[i]? with
    | none => none
    | some (r, params) =>
      if s.clock ≤ now then
        some { s with
          registry := (mint s.registry now r.verb params draw).1
          checked := s.checked.eraseIdx i
          clock := now }
      else none
  | .connect now r =>
    if s.clock ≤ now then
      some { s with registry := (handle s.registry now r).1, clock := now }
    else none
  | .backend l =>
    if inner l then (Fake.step s.backend l).map fun b => { s with backend := b } else none
  | .restart rs baseUrl =>
    (Fake.step s.backend (.restart rs)).map fun b => ⟨b, ∅, baseUrl, [], s.clock⟩

def Service.init (listener : Nat) (blake3 : String → String) (baseUrl : String) : Service :=
  ⟨Fake.init listener blake3, ∅, baseUrl, [], 0⟩

/-- A restart reads the files that are there. -/
def Service.ReadsDisk (s : Service) : ServiceLabel → Prop
  | .restart rs _ => rs.Lists s.backend.shared.disk
  | _ => True

instance (s : Service) (l : ServiceLabel) : Decidable (s.ReadsDisk l) := by
  cases l <;> unfold Service.ReadsDisk <;> infer_instance

/-! ## What is remembered of a run -/

/-- A streaming RPC has read the cache and found what it checks. -/
structure Check where
  rpc : StreamRpc
  cache : Cache
  params : StreamParams

/-- An address that a streaming RPC has answered with. -/
structure Url where
  check : Check
  baseUrl : String
  token : String
  mintedAt : Nat

def Url.url (u : Url) : String := mintUrl u.baseUrl u.check.rpc.verb u.token

/-- A session that a request has opened. -/
structure Opened where
  now : Nat
  request : Request
  session : Session

structure Served where
  rpcs : List Rpc := []
  /-- What the checked RPCs have seen. -/
  pending : List Check := []
  urls : List Url := []
  opened : List Opened := []

/-- The session that the handlers answer a request with. -/
def sessionOf : Response → Option Session
  | .upgrade _ s => some s
  | _ => none

def serve (h : Served) (s : Service) (l : ServiceLabel) (_ : Service) : Served :=
  match l with
  | .call r => { h with rpcs := h.rpcs ++ [r] }
  | .check r =>
    let cache := s.backend.shared.cache
    { h with pending := h.pending ++ ((r.check cache).toOption.map fun p => ⟨r, cache, p⟩).toList }
  | .mint i now draw =>
    match h.pending[i]? with
    | none => h
    | some c =>
      let token := (mint s.registry now c.rpc.verb c.params draw).2
      { h with
        pending := h.pending.eraseIdx i
        urls := h.urls ++ (token.map fun t => ⟨c, s.baseUrl, t, now⟩).toList }
  | .connect now r =>
    let session := sessionOf (handle s.registry now r).2
    { h with opened := h.opened ++ (session.map fun x => ⟨now, r, x⟩).toList }
  | .backend _ => h
  | .restart _ _ => { h with pending := [] }

/-! ## The backend below -/

/-- The step of the backend below a step of the service. -/
inductive Below (s : Service) : ServiceLabel → Fake.Label → Prop
  | call (r c) (h : r.call = .ok c) : Below s (.call r) (.invoke c)
  | backend (l) (h : inner l) : Below s (.backend l) l
  | restart (rs baseUrl) : Below s (.restart rs baseUrl) (.restart rs)

section Below

variable {s s' : Service} {l : ServiceLabel}

/-- A step of the service is one of the backend or leaves the backend alone. -/
theorem Service.step_backend (h : s.step l = some s') :
    s'.backend = s.backend ∨ ∃ l', Below s l l' ∧ Fake.step s.backend l' = some s'.backend := by
  cases l with
  | call r =>
    simp only [Service.step] at h
    split at h
    · obtain rfl := Option.some.inj h
      exact .inl rfl
    · rename_i c hc
      obtain ⟨b, hb, rfl⟩ := Option.map_eq_some_iff.mp h
      exact .inr ⟨_, .call r c hc, hb⟩
  | check r =>
    left
    simp only [Service.step] at h
    split at h
    · split at h <;> obtain rfl := Option.some.inj h <;> rfl
    · cases h
  | mint i now draw =>
    left
    simp only [Service.step] at h
    split at h
    · cases h
    · split at h
      · obtain rfl := Option.some.inj h
        rfl
      · cases h
  | connect now r =>
    left
    simp only [Service.step] at h
    split at h
    · obtain rfl := Option.some.inj h
      rfl
    · cases h
  | backend l =>
    simp only [Service.step] at h
    split at h
    · rename_i hl
      obtain ⟨b, hb, rfl⟩ := Option.map_eq_some_iff.mp h
      exact .inr ⟨_, .backend l hl, hb⟩
    · cases h
  | restart rs baseUrl =>
    simp only [Service.step] at h
    obtain ⟨b, hb, rfl⟩ := Option.map_eq_some_iff.mp h
    exact .inr ⟨_, .restart rs baseUrl, hb⟩

theorem Below.readsDisk {l' : Fake.Label} (hb : Below s l l') (hl : s.ReadsDisk l) :
    Fake.ReadsDisk s.backend l' := by
  cases hb with
  | call r c h => exact True.intro
  | backend l' h =>
    cases l' with
    | restart rs => cases h
    | _ => exact True.intro
  | restart rs baseUrl => exact hl

end Below

/-! ## Every call is an RPC's -/

/-- The calls of the tasks, and those that have made records, are those of RPCs. -/
structure Requested (rpcs : List Rpc) (b : List (Call × DiskRecord)) (s : State) : Prop where
  origin : Origin b s
  made : ∀ c r, (c, r) ∈ b → ∃ rpc ∈ rpcs, rpc.call = .ok c
  called : ∀ t ∈ s.tasks, ∀ c, t.tag = .call c → ∃ rpc ∈ rpcs, rpc.call = .ok c

section Requested

variable {rpcs : List Rpc} {b : List (Call × DiskRecord)} {s s' : State}

theorem Requested.mono {rpcs' : List Rpc} (h : Requested rpcs b s) (hsub : rpcs ⊆ rpcs') :
    Requested rpcs' b s where
  origin := h.origin
  made c r hcr := by
    obtain ⟨rpc, hrpc, hc⟩ := h.made c r hcr
    exact ⟨rpc, hsub hrpc, hc⟩
  called t ht c htag := by
    obtain ⟨rpc, hrpc, hc⟩ := h.called t ht c htag
    exact ⟨rpc, hsub hrpc, hc⟩

/-- **The step of the invariant**: a call that starts is that of an RPC. -/
theorem Requested.step {l : Fake.Label} (h : Requested rpcs b s) (hl : Fake.ReadsDisk s l)
    (hnew : ∀ c, l = .invoke c → ∃ rpc ∈ rpcs, rpc.call = .ok c)
    (hstep : Fake.step s l = some s') : Requested rpcs (births b s l s') s' := by
  refine ⟨h.origin.step hl hstep, ?_, ?_⟩
  · cases l with
    | step i o =>
      intro c r hcr
      obtain ⟨t, f, k, out, hadv⟩ := Pool.advance_eq_some hstep
      rcases (mem_births hadv.task hadv.frames).mp hcr with hcr | ⟨htag, -⟩
      · exact h.made c r hcr
      · exact h.called t hadv.mem c htag
    | _ => exact h.made
  · cases l with
    | invoke c =>
      obtain rfl := Option.some.inj hstep
      intro t ht c' htag
      rcases Pool.mem_tasks_start.mp ht with ht | rfl
      · exact h.called t ht c' htag
      · obtain rfl := Tag.call.inj htag
        exact hnew c rfl
    | step i o =>
      obtain ⟨t, f, k, out, hadv⟩ := Pool.advance_eq_some hstep
      refine hadv.forall_tasks h.called (fun hown c htag => ?_) (fun _ hu => hu)
        fun _ u hu c htag => ?_
      · rw [Task.resume_tag] at htag
        exact hown c htag
      · obtain ⟨id, q, -, rfl⟩ := children_reaper hadv hu
        cases htag
    | exit q st =>
      obtain ⟨p, -, rfl⟩ := step_exit hstep
      exact h.called
    | foreign pid =>
      obtain ⟨-, -, rfl⟩ := step_foreign hstep
      exact h.called
    | restart rs =>
      obtain rfl := Option.some.inj hstep
      intro t ht
      cases ht

theorem Requested.init (listener : Nat) (blake3 : String → String) :
    Requested [] [] (Fake.init listener blake3) where
  origin := .init listener blake3
  made c r h := by cases h
  called t h := by cases h

end Requested

theorem mem_rpcs_serve {h : Served} {s s' : Service} {l : ServiceLabel} :
    h.rpcs ⊆ (serve h s l s').rpcs := by
  intro r hr
  cases l with
  | call r' => exact List.mem_append_left _ hr
  | mint i now draw =>
    simp only [serve]
    split <;> exact hr
  | _ => exact hr

theorem requested_step {h : Served} {s s' : Service} {l : ServiceLabel}
    (hr : ∃ b, Requested h.rpcs b s.backend) (hl : s.ReadsDisk l) (hstep : s.step l = some s') :
    ∃ b, Requested (serve h s l s').rpcs b s'.backend := by
  obtain ⟨b, hb⟩ := hr
  have hb : Requested (serve h s l s').rpcs b s.backend := hb.mono mem_rpcs_serve
  rcases Service.step_backend hstep with hsame | ⟨l', hbelow, hstep'⟩
  · exact ⟨b, hsame ▸ hb⟩
  · refine ⟨_, hb.step (hbelow.readsDisk hl) (fun c hc => ?_) hstep'⟩
    subst hc
    cases hbelow with
    | call r _ hcall => exact ⟨r, List.mem_append_right _ (List.mem_singleton_self r), hcall⟩
    | backend _ hinner => cases hinner

theorem requested_run {listener : Nat} {blake3 : String → String} {baseUrl : String}
    {ls : List ServiceLabel} {h : Served} {s : Service}
    (hreads : Along Service.step Service.ReadsDisk (.init listener blake3 baseUrl) ls)
    (hrun : run (withHistory Service.step serve) ({}, .init listener blake3 baseUrl) ls =
      some (h, s)) : ∃ b, Requested h.rpcs b s.backend := by
  refine invariant_run (I := fun p : Served × Service => ∃ b, Requested p.1.rpcs b p.2.backend) ?_
    ⟨[], .init listener blake3⟩ (hreads.withHistory _) hrun
  rintro p l p' hp hl hstep
  obtain ⟨hs, hh⟩ := withHistory_eq_some.mp hstep
  exact hh ▸ requested_step hp hl hs

/-! ## What the replies show -/

section Shown

variable {rpcs : List Rpc} {b : List (Call × DiskRecord)} {s : State}

/-- The request behind the record of a sandbox. -/
theorem Requested.sandbox (h : Requested rpcs b s) {r : SandboxRecord}
    (hr : Known s (.sandbox r)) :
    ∃ config, .runPodSandbox (some config) ∈ rpcs ∧ SandboxOf config r.config := by
  obtain ⟨c, r', hb, hid⟩ := h.origin.held _ hr
  have hasks := h.origin.asks c r' hb
  cases r' with
  | sandbox r' =>
    obtain ⟨-, hcfg, -⟩ := Identity.sandbox.inj hid
    cases c with
    | runSandbox cfg =>
      obtain ⟨rpc, hmem, hcall⟩ := h.made _ _ hb
      obtain ⟨config, rfl, hof⟩ := Rpc.call_runSandbox hcall
      have hsame : r'.config = cfg := hasks
      exact ⟨config, hmem, by rw [← hcfg, hsame]; exact hof⟩
    | _ => exact hasks.elim
  | _ => cases hid

/-- The request behind the record of a container. -/
theorem Requested.container (h : Requested rpcs b s) {r : ContainerRecord}
    (hr : Known s (.container r)) : ∃ config,
      .createContainer r.sandbox.val (some config) ∈ rpcs ∧ ContainerOf config r.config := by
  obtain ⟨c, r', hb, hid⟩ := h.origin.held _ hr
  have hasks := h.origin.asks c r' hb
  cases r' with
  | container r' =>
    obtain ⟨-, hsb, hcfg, -⟩ := Identity.container.inj hid
    cases c with
    | createContainer sb cfg =>
      obtain ⟨rpc, hmem, hcall⟩ := h.made _ _ hb
      obtain ⟨config, rfl, hof⟩ := Rpc.call_createContainer hcall
      have hsame : r'.sandbox = sb ∧ r'.config = cfg := hasks
      refine ⟨config, ?_, ?_⟩
      · rw [← hsb, hsame.1]
        exact hmem
      · rw [← hcfg, hsame.2]
        exact hof
    | _ => exact hasks.elim
  | _ => cases hid

end Shown

/-- What is shown of a sandbox is what was asked for. -/
structure ShowsPod (config : PodSandboxConfig) (md : PodSandboxMetadata)
    (labels annotations : List (String × String)) : Prop where
  metadata : config.metadata = some md
  labels : labels = config.labels
  annotations : annotations = config.annotations

structure ShowsContainer (config : ProtoContainerConfig) (md : ContainerMetadata) (image : String)
    (labels annotations : List (String × String)) : Prop where
  metadata : config.metadata = some md
  image : image = config.image.getD ""
  labels : labels = config.labels
  annotations : annotations = config.annotations

/-- The replies show of every object what an RPC has asked for. -/
structure ShownAsRequested (rpcs : List Rpc) (c : Cache) : Prop where
  podSandboxStatus : ∀ id st, podSandboxStatus c id = .ok st → st.id = id ∧
    ∃ config, .runPodSandbox (some config) ∈ rpcs ∧
      ShowsPod config st.metadata st.labels st.annotations
  listPodSandbox : ∀ filter, ∀ p ∈ listPodSandbox c filter,
    ∃ config, .runPodSandbox (some config) ∈ rpcs ∧
      ShowsPod config ⟨p.name, p.uid, p.nspace, p.attempt⟩ p.labels p.annotations
  containerStatus : ∀ id st, containerStatus c id = .ok st → st.id = id ∧
    ∃ podId config, .createContainer podId (some config) ∈ rpcs ∧
      ShowsContainer config st.metadata st.image st.labels st.annotations ∧
      st.mounts = config.mounts ∧
      -- under the log directory that was asked for the container's own sandbox
      (st.logPath = config.logPath ∨ ∃ r podConfig, c.sandboxes[(⟨podId⟩ : SandboxId)]? = some r ∧
        .runPodSandbox (some podConfig) ∈ rpcs ∧ SandboxOf podConfig r.config ∧
        st.logPath = joinPath podConfig.logDirectory config.logPath)
  listContainers : ∀ filter, ∀ x ∈ listContainers c filter,
    ∃ config, .createContainer x.podSandboxId (some config) ∈ rpcs ∧
      ShowsContainer config ⟨x.name, x.attempt⟩ x.image x.labels x.annotations
  containerStats : ∀ rec md, (containerStats c rec).metadata = some md →
    ∃ podId config, .createContainer podId (some config) ∈ rpcs ∧ config.metadata = some md ∧
      (containerStats c rec).labels = config.labels ∧
      (containerStats c rec).annotations = config.annotations

section Replies

variable {c : Cache}

/-- The status of a container is that of its record, with the log directory of its sandbox. -/
theorem containerStatus_eq_ok {id : ContainerId} {cs : Fake.ContainerStatus}
    (h : Fake.containerStatus c id = .ok cs) :
    ∃ r, c.containers[id]? = some r ∧ cs = recToStatus r (c.logDir r) := by
  unfold Fake.containerStatus at h
  split at h
  · cases h
  · rename_i r hr
    refine ⟨r, hr, ?_⟩
    obtain rfl := Except.ok.inj h
    unfold Cache.logDir
    cases c.sandboxes[r.sandbox]? <;> rfl

theorem sandboxStatus_eq_ok {id : SandboxId} {ss : SandboxStatus}
    (h : Fake.sandboxStatus c id = .ok ss) :
    ∃ r, c.sandboxes[id]? = some r ∧ ss = sandboxRecToStatus r := by
  unfold Fake.sandboxStatus at h
  split at h
  · cases h
  · rename_i r hr
    exact ⟨r, hr, (Except.ok.inj h).symm⟩

/-- The log path of a status is that of the record, or it is under a log directory. -/
theorem recToStatus_logPath (r : ContainerRecord) (dir : String) :
    (recToStatus r dir).config.logPath = r.config.logPath ∨
      dir ≠ "" ∧ (recToStatus r dir).config.logPath = joinPath dir r.config.logPath := by
  by_cases h : r.config.logPath ≠ "" ∧ dir ≠ ""
  · exact .inr ⟨h.2, by simp only [recToStatus, if_pos h]⟩
  · exact .inl (by simp only [recToStatus, if_neg h])

/-- Of the configuration a status changes only the log path. -/
theorem recToStatus_config (r : ContainerRecord) (dir : String) :
    { (recToStatus r dir).config with logPath := r.config.logPath } = r.config := by
  unfold recToStatus
  split_ifs <;> rfl

theorem ContainerOf.shows {config : ProtoContainerConfig} {r : ContainerRecord} (dir : String)
    (h : ContainerOf config r.config) :
    ShowsContainer config ⟨(recToStatus r dir).config.name, (recToStatus r dir).config.attempt⟩
      (recToStatus r dir).config.imageRef (recToStatus r dir).config.labels
      (recToStatus r dir).config.annotations := by
  have hsame := recToStatus_config r dir
  rw [← hsame] at h
  exact ⟨h.metadata, h.image, h.labels, h.annotations⟩

end Replies

theorem Requested.shown {rpcs : List Rpc} {b : List (Call × DiskRecord)} {s : State}
    (h : Requested rpcs b s) : ShownAsRequested rpcs s.shared.cache where
  podSandboxStatus id st hst := by
    obtain ⟨ss, hss, rfl⟩ := map_eq_ok (mapError_eq_ok hst)
    obtain ⟨r, hr, rfl⟩ := sandboxStatus_eq_ok hss
    have hget := Cache.get_sandbox_eq_some hr
    obtain ⟨config, hmem, hof⟩ := h.sandbox (.cached _ hget)
    have hid : r.id = ⟨id⟩ := Obj.sandbox.inj (h.origin.keyed _ _ hget)
    exact ⟨congrArg Id.val hid, config, hmem, hof.metadata, hof.labels, hof.annotations⟩
  listPodSandbox filter p hp := by
    obtain ⟨ss, hss, rfl⟩ := List.mem_map.mp hp
    obtain ⟨r, hr, rfl⟩ := List.mem_map.mp hss
    obtain ⟨id, hid⟩ := mem_values.mp (List.mem_filter.mp hr).1
    obtain ⟨config, hmem, hof⟩ := h.sandbox (.cached _ (Cache.get_sandbox_eq_some hid))
    exact ⟨config, hmem, hof.metadata, hof.labels, hof.annotations⟩
  containerStatus id st hst := by
    obtain ⟨cs, hcs, rfl⟩ := map_eq_ok (mapError_eq_ok hst)
    obtain ⟨r, hr, rfl⟩ := containerStatus_eq_ok hcs
    have hget := Cache.get_container_eq_some hr
    obtain ⟨config, hmem, hof⟩ := h.container (.cached _ hget)
    have hid : r.id = ⟨id⟩ := Obj.container.inj (h.origin.keyed _ _ hget)
    refine ⟨congrArg Id.val hid, _, config, hmem, hof.shows _, ?_, ?_⟩
    · have hsame := congrArg ContainerConfig.mounts
        (recToStatus_config r (s.shared.cache.logDir r))
      exact (congrArg _ hsame).trans hof.mounts
    · rcases recToStatus_logPath r (s.shared.cache.logDir r) with hlog | ⟨hdir, hlog⟩
      · exact .inl (hlog.trans hof.logPath)
      · right
        unfold Cache.logDir at hdir
        cases hsb : s.shared.cache.sandboxes[r.sandbox]? with
        | none => simp [hsb] at hdir
        | some sb =>
          obtain ⟨podConfig, hpod, hpodOf⟩ := h.sandbox (.cached _ (Cache.get_sandbox_eq_some hsb))
          refine ⟨sb, podConfig, rfl, hpod, hpodOf, hlog.trans ?_⟩
          rw [hof.logPath, ← hpodOf.logDirectory]
          simp [Cache.logDir, hsb]
  listContainers filter x hx := by
    obtain ⟨cs, hcs, rfl⟩ := List.mem_map.mp hx
    obtain ⟨r, hr, rfl⟩ := List.mem_map.mp hcs
    obtain ⟨id, hid⟩ := mem_values.mp (List.mem_filter.mp hr).1
    obtain ⟨config, hmem, hof⟩ := h.container (.cached _ (Cache.get_container_eq_some hid))
    exact ⟨config, hmem, hof.shows _⟩
  containerStats rec md hmd := by
    obtain ⟨cs, hcs, rfl⟩ := Option.map_eq_some_iff.mp hmd
    obtain ⟨r, hr, rfl⟩ := containerStatus_eq_ok (toOption_eq_some hcs)
    obtain ⟨config, hmem, hof⟩ := h.container (.cached _ (Cache.get_container_eq_some hr))
    have hshows := hof.shows (s.shared.cache.logDir r)
    refine ⟨_, config, hmem, hshows.metadata, ?_, ?_⟩
    · rw [Shell.containerStats, hcs]
      exact hshows.labels
    · rw [Shell.containerStats, hcs]
      exact hshows.annotations

/-- **The replies show what was requested**, over every run of the service, with any interleaving,
failing file operations, kills and reopens: what a status, a list or the statistics show of a pod or
a container is what the RunPodSandbox or CreateContainer request has said, labels and annotations
unaltered. -/
theorem shown_as_requested {listener : Nat} {blake3 : String → String} {baseUrl : String}
    {ls : List ServiceLabel} {h : Served} {s : Service}
    (hreads : Along Service.step Service.ReadsDisk (.init listener blake3 baseUrl) ls)
    (hrun : run (withHistory Service.step serve) ({}, .init listener blake3 baseUrl) ls =
      some (h, s)) : ShownAsRequested h.rpcs s.backend.shared.cache := by
  obtain ⟨b, hb⟩ := requested_run hreads hrun
  exact hb.shown

/-- The steps of the task `i`. -/
def inside (i n : Nat) : List ServiceLabel := (steps i n).map ServiceLabel.backend

def podConfig : PodSandboxConfig where
  metadata := some { name := "pod" }
  logDirectory := "/var/log/pods"

def mainConfig : ProtoContainerConfig where
  metadata := some { name := "main" }
  image := some "img"
  annotations := [("io.kubernetes.container.hash", "1")]
  logPath := "main/0.log"

/-- A container is created in a pod. -/
def createdRun : List ServiceLabel :=
  .call (.runPodSandbox (some podConfig)) :: inside 0 5 ++
    .call (.createContainer "sb-0-0" (some mainConfig)) :: inside 1 6

/-- The next listener on the state root. -/
def nextListener : Restart where
  pid := 2
  listing sub :=
    ((run Service.step (.init 1 id "http://127.0.0.1:9") createdRun).elim ∅ fun s =>
      s.backend.shared.disk sub).toList

def keptRun : List ServiceLabel :=
  createdRun ++ [ServiceLabel.restart nextListener "http://127.0.0.1:10"]

theorem shown_as_requested_keptRun : ∃ h s st podId config,
    run (withHistory Service.step serve) ({}, .init 1 id "http://127.0.0.1:9") keptRun =
        some (h, s) ∧
      containerStatus s.backend.shared.cache "ct-0-1" = .ok st ∧
      .createContainer podId (some config) ∈ h.rpcs ∧
      ShowsContainer config st.metadata st.image st.labels st.annotations := by
  have hrun : (run (withHistory Service.step serve) ({}, .init 1 id "http://127.0.0.1:9")
      keptRun).any fun p => (containerStatus p.2.backend.shared.cache "ct-0-1").toOption.isSome := by
    decide
  obtain ⟨⟨h, s⟩, hs, hend⟩ := (Option.any_eq_true _ _).mp hrun
  obtain ⟨st, hst⟩ := Option.isSome_iff_exists.mp hend
  have hok := toOption_eq_some hst
  obtain ⟨-, podId, config, hmem, hshows, -⟩ :=
    (shown_as_requested (by decide) hs).containerStatus _ _ hok
  exact ⟨h, s, st, podId, config, hs, hok, hmem, hshows⟩

end LightrCri.Shell

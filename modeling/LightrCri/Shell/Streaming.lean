import LightrCri.Foundations.Vouchers
import LightrCri.Shell.Service
import Mathlib.Data.List.InsertIdx

/-!
# Streaming sessions

From a streaming RPC to the session of a client: the RPC checks its object and mints a token, the
client presents the token to the streaming server, and the handler opens a session. An address is a
voucher for one session. Over every run of the service, with any interleaving of RPCs, clients and
the backend, and across kills of the listener, the sessions go injectively to the addresses, and each
session is the one its RPC has asked for, of an object that was Running or Ready when the RPC looked
(`sessions_granted`). Nor is an address lost: for a minute, until it is presented, it opens its
session (`address_opens`).
-/

namespace LightrCri.Shell

open Backend Fake Foundations LightrCri.Stream

/-! ## The session of a request -/

/-- The host that a port-forward of the parameters dials. -/
def dialHost (params : StreamParams) : String :=
  if params.netnsPath.isSome then "127.0.0.1" else params.dialTarget.getD "127.0.0.1"

/-- A session with the parameters of its token. -/
inductive SessionOf (params : StreamParams) : StreamVerb → Session → Prop
  | spdyExec (verb) (exec : verb ≠ .portForward) : SessionOf params verb (.spdyExec verb params)
  | wsExec (proto verb) (exec : verb ≠ .portForward) :
    SessionOf params verb (.wsExec proto verb params)
  | spdyPortforward :
    SessionOf params .portForward (.spdyPortforward (dialHost params) params.netnsPath)
  | wsPortforward (ports) :
    SessionOf params .portForward (.wsPortforward ports (dialHost params) params.netnsPath)

/-- The client offers an upgrade that the server speaks. -/
def acceptable (r : Request) : Bool :=
  if wantsSpdy r then
    match r.route with
    | .portforward => r.streamProtocol.all fun h => (split ',' h).any fun p =>
        trim p = SPDY_PORTFORWARD
    | _ => r.streamProtocol.all fun h => (negotiateExecProtocol h).isSome
  else r.websocket

section Handle

variable {map : TokenRegistry} {now : Nat} {r : Request} {params : StreamParams}

theorem execAttach_session (hr : r.route ≠ .portforward)
    (hc : (consume map now r.token).2 = some (r.route.verb, params)) :
    (∀ s, sessionOf (execAttach map now r).2 = some s → SessionOf params r.route.verb s) ∧
      (acceptable r → (sessionOf (execAttach map now r).2).isSome) := by
  have hverb : r.route.verb = r.pathVerb := (pathVerb_eq hr).symm
  have hexec : r.route.verb ≠ .portForward := by
    cases hroute : r.route with
    | portforward => exact absurd hroute hr
    | _ => simp [Route.verb]
  have hacc : acceptable r = if wantsSpdy r then
      r.streamProtocol.all fun h => (negotiateExecProtocol h).isSome else r.websocket := by
    unfold acceptable
    cases hroute : r.route with
    | portforward => exact absurd hroute hr
    | _ => rfl
  rw [hacc]
  rcases hcons : consume map now r.token with ⟨map', x⟩
  rw [hcons] at hc
  obtain rfl : x = some (r.route.verb, params) := hc
  simp only [execAttach, hcons, ne_eq, hverb, not_true_eq_false, if_false]
  rw [hverb] at hexec
  by_cases hspdy : wantsSpdy r
  · simp only [hspdy, if_true, spdyExecUpgrade]
    cases hp : r.streamProtocol with
    | none =>
      refine ⟨fun s hs => ?_, fun _ => rfl⟩
      obtain rfl := Option.some.inj hs
      exact .spdyExec _ hexec
    | some p =>
      cases hn : negotiateExecProtocol p with
      | none => simp [sessionOf, hn]
      | some v =>
        refine ⟨fun s hs => ?_, fun _ => by simp [sessionOf, hn]⟩
        simp only [hn, sessionOf, Option.some.injEq] at hs
        subst hs
        exact .spdyExec _ hexec
  · simp only [hspdy, Bool.false_eq_true, if_false]
    by_cases hws : r.websocket
    · simp only [hws, if_true]
      refine ⟨fun s hs => ?_, fun _ => rfl⟩
      obtain rfl := Option.some.inj hs
      exact .wsExec _ _ hexec
    · simp [hws, sessionOf]

theorem portforwardHandler_session (hr : r.route = .portforward)
    (hc : (consume map now r.token).2 = some (.portForward, params)) :
    (∀ s, sessionOf (portforwardHandler map now r).2 = some s → SessionOf params .portForward s) ∧
      (acceptable r → (sessionOf (portforwardHandler map now r).2).isSome) := by
  have hacc : acceptable r = if wantsSpdy r then
      r.streamProtocol.all fun h => (split ',' h).any fun p => trim p = SPDY_PORTFORWARD
      else r.websocket := by
    unfold acceptable
    rw [hr]
  rw [hacc]
  rcases hcons : consume map now r.token with ⟨map', x⟩
  rw [hcons] at hc
  obtain rfl : x = some (.portForward, params) := hc
  simp only [portforwardHandler, hcons, ne_eq, not_true_eq_false, if_false]
  by_cases hspdy : wantsSpdy r
  · simp only [hspdy, if_true]
    rw [spdyPortforwardUpgrade]
    split
    · refine ⟨fun s hs => ?_, fun _ => rfl⟩
      obtain rfl := Option.some.inj hs
      exact .spdyPortforward
    · rename_i hno
      refine ⟨fun s hs => ?_, fun h => absurd h hno⟩
      cases hs
  · simp only [hspdy, Bool.false_eq_true, if_false]
    by_cases hws : r.websocket
    · simp only [hws, if_true]
      refine ⟨fun s hs => ?_, fun _ => rfl⟩
      obtain rfl := Option.some.inj hs
      exact .wsPortforward _
    · simp [hws, sessionOf]

/-- **The session of a token that is good**: it has the parameters of the token, and is there if the
client offers an upgrade that the server speaks. -/
theorem handle_session (hc : (consume map now r.token).2 = some (r.route.verb, params)) :
    (∀ s, sessionOf (handle map now r).2 = some s → SessionOf params r.route.verb s) ∧
      (acceptable r → (sessionOf (handle map now r).2).isSome) := by
  unfold handle
  cases hr : r.route with
  | exec | attach =>
    have h := execAttach_session (by simp [hr]) hc
    rw [hr] at h
    exact h
  | portforward =>
    rw [hr] at hc
    exact portforwardHandler_session hr hc

/-- A session is opened for a token of its route. -/
theorem consume_of_session {s : Session} (h : sessionOf (handle map now r).2 = some s) :
    ∃ params, (consume map now r.token).2 = some (r.route.verb, params) ∧
      SessionOf params r.route.verb s := by
  cases hresp : (handle map now r).2 with
  | upgrade proto s' =>
    obtain ⟨params, hc⟩ := handle_upgrade hresp
    exact ⟨params, hc, (handle_session hc).1 s h⟩
  | _ => simp [hresp, sessionOf] at h

end Handle

/-! ## The session of an RPC -/

/-- The session is the one that the RPC asks for, of an object that it has found in the cache in the
state it has to be in. -/
inductive Serves (c : Cache) : StreamRpc → Session → Prop
  | exec (id cmd tty stdin) (r : ContainerRecord) (s)
    (found : c.containers[(⟨id⟩ : ContainerId)]? = some r) (running : r.state = .running)
    (session : SessionOf { container := some id, cmd := cmd, tty := tty, stdin := stdin } .exec s) :
    Serves c (.exec id cmd tty stdin) s
  | attach (id tty stdin) (r : ContainerRecord) (s)
    (found : c.containers[(⟨id⟩ : ContainerId)]? = some r) (running : r.state = .running)
    (session : SessionOf { container := some id, tty := tty, stdin := stdin } .attach s) :
    Serves c (.attach id tty stdin) s
  /-- In the netns of the sandbox, and else at its address. -/
  | portForward (id port) (r : SandboxRecord) (host) (s)
    (found : c.sandboxes[(⟨id⟩ : SandboxId)]? = some r) (ready : r.state = .ready)
    (target : host = if r.netnsPath.isSome then "127.0.0.1" else r.ip.getD "127.0.0.1")
    (session : s = .spdyPortforward host r.netnsPath ∨
      ∃ ports, s = .wsPortforward ports host r.netnsPath) : Serves c (.portForward id port) s

theorem validateContainerRunning_ok {c : Cache} {id : ContainerId} {u : Unit}
    (h : validateContainerRunning c id = .ok u) :
    ∃ r, c.containers[id]? = some r ∧ r.state = .running := by
  unfold validateContainerRunning at h
  split at h
  · cases h
  · rename_i cs hcs
    obtain ⟨r, hr, rfl⟩ := containerStatus_eq_ok hcs
    split at h
    · cases h
    · rename_i hrunning
      exact ⟨r, hr, not_not.mp hrunning⟩

theorem validateSandboxReadyGetIp_ok {c : Cache} {id : SandboxId} {d : String × Option String}
    (h : validateSandboxReadyGetIp c id = .ok d) :
    ∃ r, c.sandboxes[id]? = some r ∧ r.state = .ready ∧
      d = (if r.netnsPath.isSome then "127.0.0.1" else r.ip.getD "127.0.0.1", r.netnsPath) := by
  unfold validateSandboxReadyGetIp at h
  split at h
  · cases h
  · rename_i ss hss
    obtain ⟨r, hr, rfl⟩ := sandboxStatus_eq_ok hss
    split at h
    · cases h
    · rename_i hready
      exact ⟨r, hr, not_not.mp hready, (Except.ok.inj h).symm⟩

/-- **The session of a check.** -/
theorem StreamRpc.serves {c : Cache} {rpc : StreamRpc} {params : StreamParams} {s : Session}
    (hcheck : rpc.check c = .ok params) (hs : SessionOf params rpc.verb s) : Serves c rpc s := by
  cases rpc with
  | exec id cmd tty stdin =>
    obtain ⟨u, hu, rfl⟩ := map_eq_ok hcheck
    obtain ⟨r, hr, hrunning⟩ := validateContainerRunning_ok hu
    exact .exec id cmd tty stdin r s hr hrunning hs
  | attach id tty stdin =>
    obtain ⟨u, hu, rfl⟩ := map_eq_ok hcheck
    obtain ⟨r, hr, hrunning⟩ := validateContainerRunning_ok hu
    exact .attach id tty stdin r s hr hrunning hs
  | portForward id port =>
    obtain ⟨d, hd, rfl⟩ := map_eq_ok hcheck
    obtain ⟨r, hr, hready, rfl⟩ := validateSandboxReadyGetIp_ok hd
    refine .portForward id port r _ s hr hready rfl ?_
    have hhost : dialHost
        { sandbox := some id, ports := port,
          dialTarget := some (if r.netnsPath.isSome then "127.0.0.1" else r.ip.getD "127.0.0.1"),
          netnsPath := r.netnsPath } =
        if r.netnsPath.isSome then "127.0.0.1" else r.ip.getD "127.0.0.1" := by
      unfold dialHost
      cases r.netnsPath <;> rfl
    cases hs with
    | spdyExec _ exec | wsExec _ _ exec => exact absurd rfl exec
    | spdyPortforward => exact .inl (congrArg (Session.spdyPortforward · _) hhost)
    | wsPortforward ports => exact .inr ⟨ports, congrArg (Session.wsPortforward _ · _) hhost⟩

/-! ## The books -/

/-- The entry of the registry that the address stands for. -/
def Url.entry (u : Url) : Entry := ⟨u.check.rpc.verb, u.check.params, u.mintedAt⟩

/-- The address covers the session. -/
structure Grants (u : Url) (o : Opened) : Prop where
  token : o.request.token = u.token
  route : o.request.route.verb = u.check.rpc.verb
  inTime : o.now - u.mintedAt < TTL
  serves : Serves u.check.cache u.check.rpc o.session

/-- The address `i` is the last one with its token. -/
def Latest (urls : List Url) (i : Nat) (u : Url) : Prop :=
  urls[i]? = some u ∧ ∀ j u', i < j → urls[j]? = some u' → u'.token ≠ u.token

/-- The token of the address `i` is registered for it. -/
def Standing (urls : List Url) (registry : TokenRegistry) (i : Nat) : Prop :=
  ∃ u, Latest urls i u ∧ registry[u.token]? = some u.entry

theorem latest_append {urls : List Url} {v u : Url} {i : Nat} : Latest (urls ++ [v]) i u ↔
    Latest urls i u ∧ v.token ≠ u.token ∨ i = urls.length ∧ u = v := by
  constructor
  · rintro ⟨hu, hlast⟩
    rcases Nat.lt_trichotomy i urls.length with hlt | rfl | hgt
    · rw [List.getElem?_append_left hlt] at hu
      refine .inl ⟨⟨hu, fun j u' hj hu' => hlast j u' hj ?_⟩, hlast _ v hlt (by simp)⟩
      rwa [List.getElem?_append_left (List.getElem?_eq_some_iff.mp hu').1]
    · rw [List.getElem?_concat_length] at hu
      exact .inr ⟨rfl, (Option.some.inj hu).symm⟩
    · rw [List.getElem?_eq_none (by simp; omega)] at hu
      cases hu
  · rintro (⟨⟨hu, hlast⟩, hne⟩ | ⟨rfl, rfl⟩)
    · have hlt := (List.getElem?_eq_some_iff.mp hu).1
      refine ⟨by rw [List.getElem?_append_left hlt, hu], fun j u' hj hu' => ?_⟩
      rcases Nat.lt_trichotomy j urls.length with hjlt | rfl | hgt
      · rw [List.getElem?_append_left hjlt] at hu'
        exact hlast j u' hj hu'
      · rw [List.getElem?_concat_length] at hu'
        exact Option.some.inj hu' ▸ hne
      · rw [List.getElem?_eq_none (by simp; omega)] at hu'
        cases hu'
    · refine ⟨List.getElem?_concat_length, fun j u' hj hu' => ?_⟩
      rw [List.getElem?_eq_none (by simp; omega)] at hu'
      cases hu'

/-- What the history knows of the registry. -/
structure Streams (h : Served) (s : Service) : Prop where
  pending : h.pending.map (fun c => (c.rpc, c.params)) = s.checked
  checks : ∀ c ∈ h.pending, c.rpc.check c.cache = .ok c.params
  minted : ∀ u ∈ h.urls, u.check.rpc.check u.check.cache = .ok u.check.params
  registered : ∀ (t : String) e, s.registry[t]? = some e →
    ∃ i u, Latest h.urls i u ∧ u.token = t ∧ u.entry = e
  books : Vouchers Grants h.urls h.opened (Standing h.urls s.registry)

theorem Streams.init (listener : Nat) (blake3 : String → String) (baseUrl : String) :
    Streams {} (.init listener blake3 baseUrl) where
  pending := rfl
  checks c hc := by cases hc
  minted u hu := by cases hu
  registered t e h := by simp [Service.init] at h
  books := (Vouchers.nil Grants).expire fun i hi => by
    obtain ⟨u, hu, -⟩ := hi
    cases hu.1

section Step

variable {h : Served} {s s' : Service}

/-- A registry that only loses entries. -/
theorem Standing.mono {urls : List Url} {m m' : TokenRegistry} {i : Nat}
    (hsub : ∀ (t : String) e, m'[t]? = some e → m[t]? = some e) (hi : Standing urls m' i) :
    Standing urls m i := by
  obtain ⟨u, hu, hreg⟩ := hi
  exact ⟨u, hu, hsub _ _ hreg⟩

/-- **A mint issues a voucher.** -/
theorem Streams.mint {i now : Nat} {draw : Nat → Option (Vector UInt8 6)} (H : Streams h s)
    (hstep : s.step (.mint i now draw) = some s') : Streams (serve h s (.mint i now draw) s') s' := by
  simp only [Service.step] at hstep
  split at hstep
  · cases hstep
  · rename_i rpc params hi
    split at hstep
    · obtain rfl := Option.some.inj hstep
      obtain ⟨c, hc, hcp⟩ : ∃ c, h.pending[i]? = some c ∧ (c.rpc, c.params) = (rpc, params) := by
        rw [← H.pending, List.getElem?_map] at hi
        exact Option.map_eq_some_iff.mp hi
      obtain ⟨rfl, rfl⟩ := Prod.mk.inj hcp
      have hpending : (h.pending.eraseIdx i).map (fun c => (c.rpc, c.params)) =
          s.checked.eraseIdx i := by
        rw [← H.pending, List.eraseIdx_map]
      have hchecks : ∀ c ∈ h.pending.eraseIdx i, c.rpc.check c.cache = .ok c.params :=
        fun c hc => H.checks c (List.mem_of_mem_eraseIdx hc)
      have hsub : ∀ (t : String) e, (sweep s.registry now)[t]? = some e →
          s.registry[t]? = some e := fun t e he => (getElem?_sweep_eq_some.mp he).1
      simp only [serve, hc]
      rcases @mint_cases s.registry now c.rpc.verb c.params draw with ⟨t, ht, -, hm⟩ | hm
      · rw [hm]
        simp only [Option.map_some, Option.toList_some]
        have hinsert : ∀ (t' : String), ((sweep s.registry now).insert t
            ⟨c.rpc.verb, c.params, now⟩)[t']? =
            if t = t' then some ⟨c.rpc.verb, c.params, now⟩ else (sweep s.registry now)[t']? :=
          fun t' => by rw [Std.ExtTreeMap.getElem?_insert]; simp
        refine ⟨hpending, hchecks, fun u hu => ?_, fun t' e he => ?_, ?_⟩
        · rcases List.mem_append.mp hu with hu | hu
          · exact H.minted u hu
          · obtain rfl := List.mem_singleton.mp hu
            exact H.checks c (List.mem_of_getElem? hc)
        · rw [hinsert] at he
          split at he
          · rename_i heq
            obtain rfl := Option.some.inj he
            exact ⟨_, _, latest_append.mpr (.inr ⟨rfl, rfl⟩), heq, rfl⟩
          · rename_i hne
            obtain ⟨j, u, hlatest, rfl, hentry⟩ := H.registered t' e (hsub t' e he)
            exact ⟨j, u, latest_append.mpr (.inl ⟨hlatest, hne⟩), rfl, hentry⟩
        · refine (H.books.issue _).expire fun j hj => ?_
          obtain ⟨u, hlatest, hreg⟩ := hj
          rcases latest_append.mp hlatest with ⟨hlatest, hne⟩ | ⟨rfl, -⟩
          · left
            rw [hinsert, if_neg hne] at hreg
            exact ⟨u, hlatest, hsub _ _ hreg⟩
          · exact .inr rfl
      · rw [hm]
        simp only [Option.map_none, Option.toList_none, List.append_nil]
        exact ⟨hpending, hchecks, H.minted, fun t e he => H.registered t e (hsub t e he),
          H.books.expire fun i hi => hi.mono hsub⟩
    · cases hstep

/-- **A session uses a voucher.** -/
theorem Streams.connect {now : Nat} {r : Request} (H : Streams h s)
    (hstep : s.step (.connect now r) = some s') : Streams (serve h s (.connect now r) s') s' := by
  simp only [Service.step] at hstep
  split at hstep
  · obtain rfl := Option.some.inj hstep
    have hget : ∀ t : String, (handle s.registry now r).1[t]? =
        if t = r.token then none else s.registry[t]? := fun t => by
      rw [fst_handle, getElem?_consume]
    have hsub : ∀ (t : String) e, (handle s.registry now r).1[t]? = some e →
        s.registry[t]? = some e := fun t e he => by
      rw [hget] at he
      split at he
      · cases he
      · exact he
    refine ⟨H.pending, H.checks, H.minted, fun t e he => H.registered t e (hsub t e he), ?_⟩
    simp only [serve]
    cases hsession : sessionOf (handle s.registry now r).2 with
    | none =>
      simp only [Option.map_none, Option.toList_none, List.append_nil]
      exact H.books.expire fun i hi => hi.mono hsub
    | some x =>
      simp only [Option.map_some, Option.toList_some]
      obtain ⟨params, hconsume, hx⟩ := consume_of_session hsession
      obtain ⟨τ, hentry, hlive⟩ := consume_eq_some.mp hconsume
      obtain ⟨i, u, hlatest, htoken, hu⟩ := H.registered _ _ hentry
      obtain ⟨hverb, hparams, hτ⟩ := Entry.mk.inj hu
      have hgrants : Grants u ⟨now, r, x⟩ := by
        refine ⟨htoken.symm, hverb.symm, by rw [hτ]; exact hlive, ?_⟩
        refine StreamRpc.serves (H.minted u (List.mem_of_getElem? hlatest.1)) ?_
        rw [hparams, hverb]
        exact hx
      have hstanding : Standing h.urls s.registry i := ⟨u, hlatest, by rw [htoken, hentry, hu]⟩
      refine (H.books.use hstanding hlatest.1 hgrants).expire fun j hj => ⟨hj.mono hsub, ?_⟩
      rintro rfl
      obtain ⟨u', hlatest', hreg⟩ := hj
      obtain rfl := Option.some.inj (hlatest'.1.symm.trans hlatest.1)
      rw [hget, if_pos htoken] at hreg
      cases hreg
  · cases hstep

/-- **The step of the invariant.** -/
theorem Streams.step {l : ServiceLabel} (H : Streams h s) (hstep : s.step l = some s') :
    Streams (serve h s l s') s' := by
  cases l with
  | mint i now draw => exact H.mint hstep
  | connect now r => exact H.connect hstep
  | call r =>
    simp only [Service.step] at hstep
    split at hstep
    · obtain rfl := Option.some.inj hstep
      exact ⟨H.pending, H.checks, H.minted, H.registered, H.books⟩
    · obtain ⟨b, -, rfl⟩ := Option.map_eq_some_iff.mp hstep
      exact ⟨H.pending, H.checks, H.minted, H.registered, H.books⟩
  | check r =>
    simp only [Service.step] at hstep
    split at hstep
    · split at hstep
      · rename_i e he
        obtain rfl := Option.some.inj hstep
        simpa [serve, he, Except.toOption] using H
      · rename_i params hparams
        obtain rfl := Option.some.inj hstep
        simp only [serve, hparams, Except.toOption, Option.map_some, Option.toList_some]
        refine ⟨?_, fun c hc => ?_, H.minted, H.registered, H.books⟩
        · rw [List.map_append, H.pending]
          rfl
        · rcases List.mem_append.mp hc with hc | hc
          · exact H.checks c hc
          · obtain rfl := List.mem_singleton.mp hc
            exact hparams
    · cases hstep
  | backend l =>
    simp only [Service.step] at hstep
    split at hstep
    · obtain ⟨b, -, rfl⟩ := Option.map_eq_some_iff.mp hstep
      exact ⟨H.pending, H.checks, H.minted, H.registered, H.books⟩
    · cases hstep
  | restart rs baseUrl =>
    simp only [Service.step] at hstep
    obtain ⟨b, -, rfl⟩ := Option.map_eq_some_iff.mp hstep
    refine ⟨rfl, fun c hc => ?_, H.minted, fun t e he => ?_, H.books.expire fun i hi => ?_⟩
    · cases hc
    · simp at he
    · obtain ⟨u, -, hreg⟩ := hi
      simp at hreg

theorem streams_run {listener : Nat} {blake3 : String → String} {baseUrl : String}
    {ls : List ServiceLabel}
    (hrun : run (withHistory Service.step serve) ({}, .init listener blake3 baseUrl) ls =
      some (h, s)) : Streams h s := by
  refine invariant_run (I := fun p : Served × Service => Streams p.1 p.2) ?_
    (.init listener blake3 baseUrl) (Along.trivial _ _) hrun
  rintro p l p' hp - hstep
  obtain ⟨hs, hh⟩ := withHistory_eq_some.mp hstep
  exact hh ▸ hp.step hs

end Step

/-- **One session for an address**, over every run of the service: the sessions that requests have
opened go injectively to the addresses that streaming RPCs have answered with. The request has the
token of the address, at the route of the RPC, within a minute; and the session is the one that the
RPC has asked for, of a container or sandbox that was in the right state as the RPC looked. -/
theorem sessions_granted {listener : Nat} {blake3 : String → String} {baseUrl : String}
    {ls : List ServiceLabel} {h : Served} {s : Service}
    (hrun : run (withHistory Service.step serve) ({}, .init listener blake3 baseUrl) ls =
      some (h, s)) :
    ∃ f : Fin h.opened.length → Fin h.urls.length, Function.Injective f ∧
      ∀ k, Grants (h.urls.get (f k)) (h.opened.get k) :=
  (streams_run hrun).books.injective

/-! ## Addresses are not lost -/

/-- The step leaves the token alone: the listener lives, and no client presents the token. -/
def spareToken (token : String) : ServiceLabel → Bool
  | .restart _ _ => false
  | .connect _ r => r.token ≠ token
  | _ => true

section Lost

variable {s s' : Service} {l : ServiceLabel}

theorem clock_step (hstep : s.step l = some s') : s.clock ≤ s'.clock := by
  cases l with
  | mint i now draw =>
    simp only [Service.step] at hstep
    split at hstep
    · cases hstep
    · split at hstep
      · obtain rfl := Option.some.inj hstep
        assumption
      · cases hstep
  | connect now r =>
    simp only [Service.step] at hstep
    split at hstep
    · obtain rfl := Option.some.inj hstep
      assumption
    · cases hstep
  | call r =>
    simp only [Service.step] at hstep
    split at hstep
    · obtain rfl := Option.some.inj hstep
      exact le_refl _
    · obtain ⟨b, -, rfl⟩ := Option.map_eq_some_iff.mp hstep
      exact le_refl _
  | check r =>
    simp only [Service.step] at hstep
    split at hstep
    · split at hstep <;> obtain rfl := Option.some.inj hstep <;> exact le_refl _
    · cases hstep
  | backend l =>
    simp only [Service.step] at hstep
    split at hstep
    · obtain ⟨b, -, rfl⟩ := Option.map_eq_some_iff.mp hstep
      exact le_refl _
    · cases hstep
  | restart rs baseUrl =>
    simp only [Service.step] at hstep
    obtain ⟨b, -, rfl⟩ := Option.map_eq_some_iff.mp hstep
    exact le_refl _

/-- The token of the address that a mint answers with is registered for it. -/
theorem Streams.registers {h : Served} {i τ : Nat} {draw : Nat → Option (Vector UInt8 6)} {u : Url}
    (H : Streams h s) (hstep : s.step (.mint i τ draw) = some s')
    (hurl : (serve h s (.mint i τ draw) s').urls = h.urls ++ [u]) :
    u.mintedAt = τ ∧ u.check.rpc.check u.check.cache = .ok u.check.params ∧
      s'.registry[u.token]? = some u.entry := by
  simp only [serve] at hurl
  split at hurl
  · simp at hurl
  · rename_i c hc
    obtain ⟨t, ht, rfl⟩ : ∃ t, (Stream.mint s.registry τ c.rpc.verb c.params draw).2 = some t ∧
        u = ⟨c, s.baseUrl, t, τ⟩ := by
      have hlist := List.append_cancel_left hurl
      cases ht : (Stream.mint s.registry τ c.rpc.verb c.params draw).2 with
      | none => simp [ht] at hlist
      | some t =>
        simp only [ht, Option.map_some, Option.toList_some, List.cons.injEq, and_true] at hlist
        exact ⟨t, rfl, hlist.symm⟩
    refine ⟨rfl, H.checks c (List.mem_of_getElem? hc), ?_⟩
    have hchecked : s.checked[i]? = some (c.rpc, c.params) := by
      rw [← H.pending, List.getElem?_map, hc, Option.map_some]
    simp only [Service.step, hchecked] at hstep
    split at hstep
    · obtain rfl := Option.some.inj hstep
      exact mint_minted ht
    · cases hstep

/-- The entry of an unexpired token stays. -/
theorem entry_step {t : String} {e : Entry} (hl : spareToken t l)
    (hget : s.registry[t]? = some e) (hstep : s.step l = some s') (hlive : e.live s'.clock) :
    s'.registry[t]? = some e := by
  cases l with
  | mint i now draw =>
    simp only [Service.step] at hstep
    split at hstep
    · cases hstep
    · split at hstep
      · obtain rfl := Option.some.inj hstep
        exact mint_kept hget hlive
      · cases hstep
  | connect now r =>
    simp only [Service.step] at hstep
    split at hstep
    · obtain rfl := Option.some.inj hstep
      have hne : r.token ≠ t := of_decide_eq_true hl
      show (handle s.registry now r).1[t]? = some e
      rw [fst_handle, getElem?_consume, if_neg (Ne.symm hne), hget]
    · cases hstep
  | call r =>
    simp only [Service.step] at hstep
    split at hstep
    · obtain rfl := Option.some.inj hstep
      exact hget
    · obtain ⟨b, -, rfl⟩ := Option.map_eq_some_iff.mp hstep
      exact hget
  | check r =>
    simp only [Service.step] at hstep
    split at hstep
    · split at hstep <;> obtain rfl := Option.some.inj hstep <;> exact hget
    · cases hstep
  | backend l =>
    simp only [Service.step] at hstep
    split at hstep
    · obtain ⟨b, -, rfl⟩ := Option.map_eq_some_iff.mp hstep
      exact hget
    · cases hstep
  | restart rs baseUrl => cases hl

theorem clock_run {ls : List ServiceLabel} (hrun : run Service.step s ls = some s') :
    s.clock ≤ s'.clock := by
  refine relation_run (I := fun _ => True) (R := fun a b : Service => a.clock ≤ b.clock)
    (P := fun _ _ => True) (fun _ => le_refl _) (fun _ _ _ => le_trans) ?_ trivial
    (Along.trivial _ _) hrun
  intro a l b _ _ hab
  exact ⟨trivial, clock_step hab⟩

theorem entry_run {ls : List ServiceLabel} {t : String} {e : Entry} {now : Nat}
    (hls : ∀ l ∈ ls, spareToken t l) (hget : s.registry[t]? = some e)
    (hrun : run Service.step s ls = some s') (hnow : s'.clock ≤ now) (hlive : e.live now) :
    s'.registry[t]? = some e := by
  induction ls generalizing s with
  | nil =>
    obtain rfl := Option.some.inj hrun
    exact hget
  | cons l ls ih =>
    obtain ⟨s₁, h₁, h₂⟩ := run_cons_eq_some.mp hrun
    have hlive₁ : e.live s₁.clock := Entry.live_of_le hlive ((clock_run h₂).trans hnow)
    refine ih (fun l' hl' => hls l' (List.mem_cons_of_mem _ hl')) ?_ h₂
    exact entry_step (hls l List.mem_cons_self) hget h₁ hlive₁

end Lost

/-- **An address opens its session**: after any run of the service a streaming RPC answers with an
address; for a minute, whatever the other RPCs, clients and tasks do, and as long as the token is
not presented and the listener lives, a request to the address that offers an upgrade the server
speaks is answered with the session of the RPC. -/
theorem address_opens {listener : Nat} {blake3 : String → String} {baseUrl : String}
    {ls ls' : List ServiceLabel} {h h₁ : Served} {s s₁ s' : Service} {i τ now : Nat}
    {draw : Nat → Option (Vector UInt8 6)} {u : Url} {r : Request}
    (hrun : run (withHistory Service.step serve) ({}, .init listener blake3 baseUrl) ls =
      some (h, s))
    (hmint : withHistory Service.step serve (h, s) (.mint i τ draw) = some (h₁, s₁))
    (hurl : h₁.urls = h.urls ++ [u]) (hls : ∀ l ∈ ls', spareToken u.token l)
    (hrun' : run Service.step s₁ ls' = some s') (hnow : s'.clock ≤ now)
    (hlive : now - τ < TTL) (htoken : r.token = u.token)
    (hroute : r.route.verb = u.check.rpc.verb) (hacc : acceptable r) :
    ∃ proto session, (handle s'.registry now r).2 = .upgrade proto session ∧
      Serves u.check.cache u.check.rpc session := by
  obtain ⟨hstep, hh⟩ := withHistory_eq_some.mp hmint
  obtain rfl : h₁ = serve h s (.mint i τ draw) s₁ := hh
  obtain ⟨hτ, hcheck, hentry⟩ := (streams_run hrun).registers hstep hurl
  have hlive' : u.entry.live now := by
    simp only [Entry.live, decide_eq_true_eq, Url.entry, hτ]
    exact hlive
  have hget := entry_run hls hentry hrun' hnow hlive'
  have hconsume : (consume s'.registry now r.token).2 =
      some (r.route.verb, u.check.params) := by
    rw [htoken, hroute]
    exact consume_eq_some.mpr ⟨τ, hτ ▸ hget, hlive⟩
  obtain ⟨hsession, hopens⟩ := handle_session hconsume
  cases hresp : (handle s'.registry now r).2 with
  | upgrade proto session =>
    refine ⟨proto, session, rfl, StreamRpc.serves hcheck ?_⟩
    rw [← hroute]
    exact hsession session (by rw [hresp]; rfl)
  | _ =>
    have hsome := hopens hacc
    rw [hresp] at hsome
    cases hsome

/-! ## A run -/

/-- The container of the pod is started. -/
def runningRun : List ServiceLabel :=
  createdRun ++ ServiceLabel.call (.startContainer "ct-0-1") :: inside 2 14

/-- An Exec answers with an address. -/
def execRun : List ServiceLabel :=
  runningRun ++ [ServiceLabel.check (.exec "ct-0-1" ["ls"] false true)]

/-- The random bytes of the first draw. -/
def zeroDraw : Nat → Option (Vector UInt8 6) := fun _ => some (Vector.replicate 6 0)

/-- A client connects to the address. -/
def execRequest : Request where
  route := .exec
  segment := "AAAAAAAA"
  token := "AAAAAAAA"
  websocket := true

theorem sessions_granted_execRun : ∃ h s u o,
    run (withHistory Service.step serve) ({}, .init 1 id "http://127.0.0.1:9")
        (execRun ++ [ServiceLabel.mint 0 5 zeroDraw, .connect 7 execRequest]) = some (h, s) ∧
      h.urls = [u] ∧ h.opened = [o] ∧ Grants u o := by
  have hrun : (run (withHistory Service.step serve) ({}, .init 1 id "http://127.0.0.1:9")
      (execRun ++ [ServiceLabel.mint 0 5 zeroDraw, .connect 7 execRequest])).any fun p =>
        p.1.urls.length = 1 ∧ p.1.opened.length = 1 := by decide
  obtain ⟨⟨⟨rpcs, pending, urls, opened⟩, s⟩, hs, hend⟩ := (Option.any_eq_true _ _).mp hrun
  obtain ⟨hurls, hopened⟩ := of_decide_eq_true hend
  obtain ⟨u, rfl⟩ := List.length_eq_one_iff.mp hurls
  obtain ⟨o, rfl⟩ := List.length_eq_one_iff.mp hopened
  obtain ⟨f, -, hf⟩ := sessions_granted hs
  have hu : [u].get (f 0) = u := List.mem_singleton.mp (List.get_mem _ _)
  exact ⟨_, s, u, o, hs, rfl, rfl, hu ▸ hf 0⟩

/-- The container exits before the client connects. -/
theorem address_opens_execRun : ∃ (u : Url) (s' : Service) (proto : String) (session : Session),
    (handle s'.registry 9 execRequest).2 = .upgrade proto session ∧
      Serves u.check.cache u.check.rpc session := by
  have hrun : (run (withHistory Service.step serve) ({}, .init 1 id "http://127.0.0.1:9")
      execRun).any fun p => p.1.urls.length = 0 ∧
        (withHistory Service.step serve p (.mint 0 5 zeroDraw)).any fun p₁ =>
          p₁.1.urls.length = 1 ∧
            (p₁.1.urls.all fun u => u.token = "AAAAAAAA" ∧ u.check.rpc.verb = .exec) ∧
            (run Service.step p₁.2 [.backend (.exit 0 (.exited 1))]).any fun s' =>
              s'.clock ≤ 9 := by decide
  obtain ⟨⟨h, s⟩, hs, hend⟩ := (Option.any_eq_true _ _).mp hrun
  obtain ⟨hnil, hany⟩ := of_decide_eq_true hend
  obtain ⟨⟨⟨rpcs, pending, urls, opened⟩, s₁⟩, hs₁, hend⟩ := (Option.any_eq_true _ _).mp hany
  obtain ⟨hone, hall, hany⟩ := of_decide_eq_true hend
  obtain ⟨u, rfl⟩ := List.length_eq_one_iff.mp hone
  obtain ⟨s', hs', hclock⟩ := (Option.any_eq_true _ _).mp hany
  obtain ⟨htoken, hverb⟩ := of_decide_eq_true (List.all_eq_true.mp hall u List.mem_cons_self)
  have hurl : [u] = h.urls ++ [u] := by rw [List.length_eq_zero_iff.mp hnil, List.nil_append]
  have hlive : 9 - 5 < TTL := by decide
  obtain ⟨proto, session, hopens, hserves⟩ := address_opens (r := execRequest) hs hs₁ hurl
    (by simp [spareToken]) hs' (of_decide_eq_true hclock) hlive htoken.symm hverb.symm (by decide)
  exact ⟨u, s', proto, session, hopens, hserves⟩

end LightrCri.Shell

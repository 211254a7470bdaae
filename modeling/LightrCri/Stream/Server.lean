import LightrCri.Stream.Token
import LightrCri.Stream.PortForward

/-!
# The streaming server

The routes of the HTTP server: a handler consumes the token of the request and upgrades the
connection to a session, or answers with an error. A run is a sequence of calls of `mint`, of
`consume` and of requests, from any threads, in the order in which they get the mutex of the
registry; its trace says what each returned.

`registry_law` is the law of the registry over runs. The invariant is `Agrees`: an entry of the
registry was minted and not presented since (`Issued`), and such an entry is there as long as it has
not expired.
-/

namespace LightrCri.Stream

open Foundations

/-! ## Requests -/

inductive Route
  | exec
  | attach
  | portforward
  deriving DecidableEq, Repr

/-- The verb a route is for. -/
def Route.verb : Route → StreamVerb
  | .exec => .exec
  | .attach => .attach
  | .portforward => .portForward

/-- A request to a route, with the headers that the handlers read. -/
structure Request where
  route : Route
  /-- The segment behind the route, as it stands in the path. -/
  segment : String
  /-- The segment decoded. -/
  token : String
  query : String := ""
  upgrade : Option String := none
  streamProtocol : Option String := none
  /-- The request is a WebSocket handshake. -/
  websocket : Bool := false
  wsProtocol : Option String := none

def Request.path (r : Request) : String := "/" ++ r.route.verb.path ++ "/" ++ r.segment

/-- What a connection is upgraded to. -/
inductive Session
  | spdyExec (verb : StreamVerb) (params : StreamParams)
  | wsExec (proto : String) (verb : StreamVerb) (params : StreamParams)
  | spdyPortforward (dialHost : String) (netnsPath : Option String)
  | wsPortforward (ports : List UInt16) (dialHost : String) (netnsPath : Option String)
  deriving DecidableEq, Repr

inductive Response
  | notFound
  | badRequest (msg : String)
  /-- 403, with the protocol versions that are supported. -/
  | protocolMismatch (versions : List String)
  /-- 101, with the protocol chosen. -/
  | upgrade (proto : String) (s : Session)
  deriving DecidableEq, Repr

/-! ## Negotiation -/

def SPDY_PROTOCOL_V4 : String := "v4.channel.k8s.io"
def SPDY_PORTFORWARD : String := "portforward.k8s.io"

def SPDY_EXEC_PROTOCOLS : List String :=
  ["channel.k8s.io", "v2.channel.k8s.io", "v3.channel.k8s.io", "v4.channel.k8s.io",
    "v5.channel.k8s.io"]

/-- The highest version that is both supported and offered. -/
def negotiateExecProtocol (header : String) : Option String :=
  let offered := (((split ',' header).flatMap (split ' ')).map trim).filter (· ≠ "")
  SPDY_EXEC_PROTOCOLS.reverse.find? fun v => offered.contains v

def ALLOWED_PROTOCOLS : List String :=
  ["v5.channel.k8s.io", "v5.base64.channel.k8s.io", "v4.channel.k8s.io",
    "v4.base64.channel.k8s.io", "channel.k8s.io", "base64.channel.k8s.io"]

/-- The first of the candidates that the client offers, or none. -/
def pickProtocol (candidates : List String) (offered : String) : String :=
  (candidates.find? fun c => (split ',' offered).any fun p => trim p = c).getD ""

/-- The subprotocol of a WebSocket session. -/
def negotiate (offered : Option String) : String := offered.elim "" (pickProtocol ALLOWED_PROTOCOLS)

def pickPfProtocol (offered : String) : String :=
  pickProtocol ["v4.portforward.k8s.io", "portforward.k8s.io"] offered

/-! ## The handlers -/

def wantsSpdy (r : Request) : Bool := r.upgrade.any (eqIgnoreAsciiCase · "SPDY/3.1")

/-- The verb that the path of an exec or attach request stands for. -/
def Request.pathVerb (r : Request) : StreamVerb :=
  if "/attach/".toList.isPrefixOf r.path.toList then .attach else .exec

def spdyExecUpgrade (r : Request) (verb : StreamVerb) (params : StreamParams) : Response :=
  match r.streamProtocol with
  | some h =>
    match negotiateExecProtocol h with
    | some p => .upgrade p (.spdyExec verb params)
    | none => .protocolMismatch SPDY_EXEC_PROTOCOLS
  | none => .upgrade SPDY_PROTOCOL_V4 (.spdyExec verb params)

def spdyPortforwardUpgrade (r : Request) (dialHost : String) (netnsPath : Option String) :
    Response :=
  if r.streamProtocol.all fun h => (split ',' h).any fun p => trim p = SPDY_PORTFORWARD then
    .upgrade SPDY_PORTFORWARD (.spdyPortforward dialHost netnsPath)
  else .protocolMismatch [SPDY_PORTFORWARD]

/-- `exec_attach`, at the time `now`. -/
def execAttach (map : TokenRegistry) (now : Nat) (r : Request) : TokenRegistry × Response :=
  match consume map now r.token with
  | (map, none) => (map, .notFound)
  | (map, some (verb, params)) =>
    if verb ≠ r.pathVerb then (map, .notFound)
    else if wantsSpdy r then (map, spdyExecUpgrade r verb params)
    else if r.websocket then
      let proto := negotiate r.wsProtocol
      (map, .upgrade proto (.wsExec proto verb params))
    else (map, .badRequest "expected websocket or SPDY/3.1 upgrade")

/-- `portforward_handler`, at the time `now`. -/
def portforwardHandler (map : TokenRegistry) (now : Nat) (r : Request) :
    TokenRegistry × Response :=
  match consume map now r.token with
  | (map, none) => (map, .notFound)
  | (map, some (verb, params)) =>
    if verb ≠ .portForward then (map, .notFound)
    else
      let dialHost :=
        if params.netnsPath.isSome then "127.0.0.1" else params.dialTarget.getD "127.0.0.1"
      if wantsSpdy r then (map, spdyPortforwardUpgrade r dialHost params.netnsPath)
      else if r.websocket then
        (map, .upgrade (r.wsProtocol.elim "" pickPfProtocol)
          (.wsPortforward (PortForward.parsePorts r.query) dialHost params.netnsPath))
      else (map, .badRequest "expected websocket or SPDY/3.1 upgrade")

def handle (map : TokenRegistry) (now : Nat) (r : Request) : TokenRegistry × Response :=
  match r.route with
  | .exec => execAttach map now r
  | .attach => execAttach map now r
  | .portforward => portforwardHandler map now r

/-! ## Runs -/

/-- A call, at the time it reads the clock. -/
inductive Label
  | mint (now : Nat) (verb : StreamVerb) (params : StreamParams)
    (draw : Nat → Option (Vector UInt8 6))
  | consume (now : Nat) (token : String)
  | request (now : Nat) (r : Request)

def Label.now : Label → Nat
  | .mint now _ _ _ => now
  | .consume now _ => now
  | .request now _ => now

inductive Reply
  | minted (token : Option String)
  | consumed (result : Option (StreamVerb × StreamParams))
  | response (r : Response)

def serve (map : TokenRegistry) : Label → TokenRegistry × Reply
  | .mint now verb params draw => ((mint map now verb params draw).1,
    .minted (mint map now verb params draw).2)
  | .consume now token => ((consume map now token).1, .consumed (consume map now token).2)
  | .request now r => ((handle map now r).1, .response (handle map now r).2)

/-- The calls made so far, with what they returned. -/
abbrev Trace := List (Label × Reply)

def step (map : TokenRegistry) (l : Label) : Option TokenRegistry := some (serve map l).1

def record (tr : Trace) (map : TokenRegistry) (l : Label) (_ : TokenRegistry) : Trace :=
  tr ++ [(l, (serve map l).2)]

/-- The call presents the token. -/
def Label.presents (t : String) : Label → Bool
  | .mint _ _ _ _ => false
  | .consume _ token => token = t
  | .request _ r => r.token = t

/-- The token was minted for the entry, and has not been presented since. -/
def Issued (tr : Trace) (t : String) (e : Entry) : Prop :=
  ∃ pre draw post, tr = pre ++ (.mint e.mintedAt e.verb e.params draw, .minted (some t)) :: post ∧
    ∀ x ∈ post, x.1.presents t = false

/-! ## The handlers consume the token -/

section

variable {map : TokenRegistry} {now : Nat} {r : Request} {proto : String} {s : Session}

/-- Whatever a handler answers, the token of the request is consumed. -/
theorem fst_handle : (handle map now r).1 = (consume map now r.token).1 := by
  have hexec : (execAttach map now r).1 = (consume map now r.token).1 := by
    unfold execAttach
    rcases consume map now r.token with ⟨map', _ | ⟨verb, params⟩⟩
    · rfl
    · dsimp only
      split_ifs <;> rfl
  unfold handle
  cases r.route with
  | exec => exact hexec
  | attach => exact hexec
  | portforward =>
    show (portforwardHandler map now r).1 = _
    unfold portforwardHandler
    rcases consume map now r.token with ⟨map', _ | ⟨verb, params⟩⟩
    · rfl
    · dsimp only
      split_ifs <;> rfl

/-- The path of a request to the exec or the attach route stands for the verb of the route. -/
theorem pathVerb_eq (h : r.route ≠ .portforward) : r.pathVerb = r.route.verb := by
  unfold Request.pathVerb Request.path
  simp only [String.toList_append]
  cases hr : r.route with
  | exec => rfl
  | attach => rfl
  | portforward => exact absurd hr h

theorem execAttach_upgrade (h : (execAttach map now r).2 = .upgrade proto s) :
    ∃ params, (consume map now r.token).2 = some (r.pathVerb, params) := by
  unfold execAttach at h
  rcases hc : consume map now r.token with ⟨map', _ | ⟨verb, params⟩⟩
  · simp [hc] at h
  · simp only [hc] at h
    split at h
    · cases h
    · rename_i hverb
      exact ⟨params, by rw [not_not.mp hverb]⟩

theorem portforwardHandler_upgrade (h : (portforwardHandler map now r).2 = .upgrade proto s) :
    ∃ params, (consume map now r.token).2 = some (.portForward, params) := by
  unfold portforwardHandler at h
  rcases hc : consume map now r.token with ⟨map', _ | ⟨verb, params⟩⟩
  · simp [hc] at h
  · simp only [hc] at h
    split at h
    · cases h
    · rename_i hverb
      exact ⟨params, by rw [not_not.mp hverb]⟩

/-- **An upgrade needs a token of the verb of its route.** -/
theorem handle_upgrade (h : (handle map now r).2 = .upgrade proto s) :
    ∃ params, (consume map now r.token).2 = some (r.route.verb, params) := by
  unfold handle at h
  cases hr : r.route with
  | exec =>
    rw [hr] at h
    obtain ⟨params, hc⟩ := execAttach_upgrade h
    rw [pathVerb_eq (by simp [hr]), hr] at hc
    exact ⟨params, hc⟩
  | attach =>
    rw [hr] at h
    obtain ⟨params, hc⟩ := execAttach_upgrade h
    rw [pathVerb_eq (by simp [hr]), hr] at hc
    exact ⟨params, hc⟩
  | portforward =>
    rw [hr] at h
    exact portforwardHandler_upgrade h

end

/-! ## What a call does -/

section

variable {map : TokenRegistry} {l : Label} {t : String} {e : Entry}

/-- The call has registered the token for the entry. -/
def Minted (x : Label × Reply) (t : String) (e : Entry) : Prop :=
  ∃ draw, x = (.mint e.mintedAt e.verb e.params draw, .minted (some t))

/-- The entry of an unexpired token stays until the token is presented. -/
theorem serve_kept (h : map[t]? = some e) (hlive : e.live l.now) (hl : l.presents t = false) :
    (serve map l).1[t]? = some e := by
  cases l with
  | mint now verb params draw => exact mint_kept h hlive
  | consume now token =>
    have hne : t ≠ token := fun heq => by simp [Label.presents, heq] at hl
    show (consume map now token).1[t]? = some e
    rw [getElem?_consume, if_neg hne, h]
  | request now r =>
    have hne : t ≠ r.token := fun heq => by simp [Label.presents, heq] at hl
    show (handle map now r).1[t]? = some e
    rw [fst_handle, getElem?_consume, if_neg hne, h]

/-- An entry after a call was there and its token not presented, or the call has registered it. -/
theorem serve_new (h : (serve map l).1[t]? = some e) :
    map[t]? = some e ∧ l.presents t = false ∨ Minted (l, (serve map l).2) t e := by
  cases l with
  | mint now verb params draw =>
    rcases mint_new h with h | ⟨hm, rfl⟩
    · exact Or.inl ⟨h, rfl⟩
    · refine Or.inr ⟨draw, ?_⟩
      rw [← hm]
      rfl
  | consume now token =>
    change (consume map now token).1[t]? = some e at h
    rw [getElem?_consume] at h
    split at h
    · cases h
    · rename_i hne
      exact Or.inl ⟨h, by simpa [Label.presents] using Ne.symm hne⟩
  | request now r =>
    change (handle map now r).1[t]? = some e at h
    rw [fst_handle, getElem?_consume] at h
    split at h
    · cases h
    · rename_i hne
      exact Or.inl ⟨h, by simpa [Label.presents] using Ne.symm hne⟩

/-- What a call has registered is there. -/
theorem serve_minted (h : Minted (l, (serve map l).2) t e) : (serve map l).1[t]? = some e := by
  obtain ⟨draw, h⟩ := h
  obtain ⟨rfl, hr⟩ := Prod.mk.inj h
  exact mint_minted (Reply.minted.inj hr)

theorem size_serve (h : map.size ≤ MAX_INFLIGHT) : (serve map l).1.size ≤ MAX_INFLIGHT := by
  cases l with
  | mint now verb params draw => exact size_mint h
  | consume now token => exact size_consume h
  | request now r =>
    show (handle map now r).1.size ≤ MAX_INFLIGHT
    rw [fst_handle]
    exact size_consume h

end

/-! ## The registry agrees with the trace -/

/-- A token is issued after one more call if it was and is not presented, or if it is minted. -/
theorem issued_append {tr : Trace} {x : Label × Reply} {t : String} {e : Entry} :
    Issued (tr ++ [x]) t e ↔ Issued tr t e ∧ x.1.presents t = false ∨ Minted x t e := by
  constructor
  · rintro ⟨pre, draw, post, heq, hpost⟩
    rcases List.eq_nil_or_concat post with rfl | ⟨post, y, rfl⟩
    · obtain ⟨-, hx⟩ := List.append_inj' heq rfl
      exact Or.inr ⟨draw, List.singleton_inj.mp hx⟩
    · rw [List.concat_eq_append, ← List.cons_append, ← List.append_assoc] at heq
      obtain ⟨htr, hx⟩ := List.append_inj' heq rfl
      obtain rfl := List.singleton_inj.mp hx
      rw [List.concat_eq_append] at hpost
      exact Or.inl ⟨⟨pre, draw, post, htr, fun z hz => hpost z (by simp [hz])⟩,
        hpost x (by simp)⟩
  · rintro (⟨⟨pre, draw, post, rfl, hpost⟩, hx⟩ | ⟨draw, rfl⟩)
    · refine ⟨pre, draw, post ++ [x], by simp, fun z hz => ?_⟩
      rcases List.mem_append.mp hz with hz | hz
      · exact hpost z hz
      · rw [List.mem_singleton.mp hz, hx]
    · exact ⟨tr, draw, [], rfl, by simp⟩

/-- Every upgrade of the trace was for an unexpired token of the verb of its route, minted before
and not presented since. -/
def Opens (tr : Trace) : Prop :=
  ∀ pre now r proto s post, tr = pre ++ (.request now r, .response (.upgrade proto s)) :: post →
    ∃ params τ, Issued pre r.token ⟨r.route.verb, params, τ⟩ ∧ now - τ < TTL

/-- The registry holds what the trace says. -/
structure Agrees (tr : Trace) (map : TokenRegistry) : Prop where
  cap : map.size ≤ MAX_INFLIGHT
  sound : ∀ t e, map[t]? = some e → Issued tr t e
  complete : ∀ t e now, Issued tr t e → (∀ x ∈ tr, x.1.now ≤ now) → e.live now →
    map[t]? = some e
  opens : Opens tr

theorem Entry.live_of_le {e : Entry} {now now' : Nat} (h : e.live now') (hle : now ≤ now') :
    e.live now := by
  simp only [Entry.live, decide_eq_true_eq] at h ⊢
  omega

/-- **What a consume returns**, in terms of the trace. -/
theorem Agrees.consume_eq_some {tr : Trace} {map : TokenRegistry} (h : Agrees tr map) {now : Nat}
    (hnow : ∀ x ∈ tr, x.1.now ≤ now) {t : String} {verb : StreamVerb} {params : StreamParams} :
    (consume map now t).2 = some (verb, params) ↔
      ∃ τ, Issued tr t ⟨verb, params, τ⟩ ∧ now - τ < TTL := by
  rw [Stream.consume_eq_some]
  constructor
  · rintro ⟨τ, hget, hlive⟩
    exact ⟨τ, h.sound t _ hget, hlive⟩
  · rintro ⟨τ, hissued, hlive⟩
    exact ⟨τ, h.complete t _ now hissued hnow (decide_eq_true hlive), hlive⟩

/-- **The step of the invariant.** -/
theorem Agrees.after {tr : Trace} {map : TokenRegistry} (h : Agrees tr map) {l : Label}
    (hl : ∀ x ∈ tr, x.1.now ≤ l.now) :
    Agrees (tr ++ [(l, (serve map l).2)]) (serve map l).1 where
  cap := size_serve h.cap
  sound t e hget := by
    rw [issued_append]
    rcases serve_new hget with ⟨hold, hpresents⟩ | hm
    · exact Or.inl ⟨h.sound t e hold, hpresents⟩
    · exact Or.inr hm
  complete t e now hissued hnow hlive := by
    have hlnow : l.now ≤ now := hnow (l, (serve map l).2) (by simp)
    have hlive' := Entry.live_of_le hlive hlnow
    rcases issued_append.mp hissued with ⟨hold, hpresents⟩ | hm
    · exact serve_kept (h.complete t e l.now hold hl hlive') hlive' hpresents
    · exact serve_minted hm
  opens pre now r proto s post heq := by
    rcases List.eq_nil_or_concat post with rfl | ⟨post, y, rfl⟩
    · obtain ⟨rfl, hx⟩ := List.append_inj' heq rfl
      obtain ⟨rfl, hr⟩ := Prod.mk.inj (List.singleton_inj.mp hx)
      obtain ⟨params, hc⟩ := handle_upgrade (Reply.response.inj hr)
      obtain ⟨τ, hissued, hlive⟩ := (h.consume_eq_some hl).mp hc
      exact ⟨params, τ, hissued, hlive⟩
    · rw [List.concat_eq_append, ← List.cons_append, ← List.append_assoc] at heq
      exact h.opens pre now r proto s post (List.append_inj' heq rfl).1

theorem Agrees.nil : Agrees [] ∅ where
  cap := by simp
  sound t e h := by simp at h
  complete t e now := by
    rintro ⟨pre, draw, post, heq, -⟩
    simp at heq
  opens pre now r proto s post heq := by simp at heq

/-- A clock that does not go back is, at each call, past the calls made so far. -/
theorem along_of_pairwise {tr : Trace} {map : TokenRegistry} {ls : List Label}
    (hclock : ls.Pairwise fun a b => a.now ≤ b.now)
    (hpast : ∀ x ∈ tr, ∀ l ∈ ls, x.1.now ≤ l.now) :
    Along (withHistory step record) (fun p l => ∀ x ∈ p.1, x.1.now ≤ l.now) (tr, map) ls := by
  induction ls generalizing tr map with
  | nil => exact True.intro
  | cons l ls ih =>
    obtain ⟨hl, hclock⟩ := List.pairwise_cons.mp hclock
    refine ⟨fun x hx => hpast x hx l List.mem_cons_self, fun p hp => ?_⟩
    obtain ⟨-, htr⟩ := withHistory_eq_some.mp hp
    have htr : p.1 = tr ++ [(l, (serve map l).2)] := htr
    refine @ih p.1 p.2 hclock fun x hx l' hl' => ?_
    rw [htr] at hx
    rcases List.mem_append.mp hx with hx | hx
    · exact hpast x hx l' (List.mem_cons_of_mem _ hl')
    · rw [List.mem_singleton.mp hx]
      exact hl l' hl'

theorem Agrees.run {tr : Trace} {map : TokenRegistry} {ls : List Label}
    (hclock : ls.Pairwise fun a b => a.now ≤ b.now)
    (hrun : run (withHistory step record) ([], ∅) ls = some (tr, map)) : Agrees tr map := by
  refine invariant_run (I := fun p : Trace × TokenRegistry => Agrees p.1 p.2) ?_ Agrees.nil
    (along_of_pairwise hclock (by simp)) hrun
  intro p l p' hp hl hstep
  obtain ⟨hs, htr⟩ := withHistory_eq_some.mp hstep
  have hs : (serve p.2 l).1 = p'.2 := Option.some.inj hs
  rw [htr, ← hs]
  exact hp.after hl

/-! ## The law -/

/-- The law of the registry after the calls of the trace. -/
structure RegistryLaw (tr : Trace) (map : TokenRegistry) : Prop where
  /-- The registry never holds more than the maximum. -/
  cap : map.size ≤ MAX_INFLIGHT
  /-- A consume returns what the token was minted for, exactly if that was less than a minute ago
  and it was not presented since. -/
  consumes : ∀ now t verb params, (∀ x ∈ tr, x.1.now ≤ now) →
    ((consume map now t).2 = some (verb, params) ↔
      ∃ τ, Issued tr t ⟨verb, params, τ⟩ ∧ now - τ < TTL)
  /-- A mint keeps the entry of every unexpired token, whether it succeeds or fails. -/
  keeps : ∀ now verb params draw (t : String) (e : Entry), map[t]? = some e → e.live now →
    (mint map now verb params draw).1[t]? = some e
  /-- A mint fails only when as many unexpired tokens as are allowed are in flight, when the random
  source fails or when eight draws collide with unexpired tokens. -/
  refuses : ∀ now verb params draw, (mint map now verb params draw).2 = none →
    (sweep map now).size = MAX_INFLIGHT ∨ (∃ i < 8, draw i = none) ∨
      ∀ i < 8, ∃ (t : String) (e : Entry), randomToken (draw i) = some t ∧ map[t]? = some e ∧
        e.live now
  /-- A session is opened only for an unexpired token of the verb of the route. -/
  opens : Opens tr
  /-- Between two sessions opened for a token, the token was minted again. -/
  once : ∀ pre mid post n₁ r₁ p₁ s₁ n₂ r₂ p₂ s₂,
    tr = pre ++ (.request n₁ r₁, .response (.upgrade p₁ s₁)) ::
      (mid ++ (.request n₂ r₂, .response (.upgrade p₂ s₂)) :: post) →
    r₁.token = r₂.token → ∃ x ∈ mid, ∃ e, Minted x r₂.token e

/-- A token that is issued after it was presented was minted in between. -/
theorem Issued.minted_since {pre mid : Trace} {x : Label × Reply} {t : String} {e : Entry}
    (h : Issued (pre ++ x :: mid) t e) (hx : x.1.presents t = true) :
    ∃ y ∈ mid, Minted y t e := by
  induction mid using List.reverseRecOn with
  | nil =>
    rcases issued_append.mp h with ⟨-, hpresents⟩ | ⟨draw, rfl⟩
    · rw [hx] at hpresents
      cases hpresents
    · cases hx
  | append_singleton mid y ih =>
    rw [← List.cons_append, ← List.append_assoc] at h
    rcases issued_append.mp h with ⟨h, -⟩ | hm
    · obtain ⟨z, hz, hzm⟩ := ih h
      exact ⟨z, List.mem_append_left _ hz, hzm⟩
    · exact ⟨y, by simp, hm⟩

/-- **The law of the token registry**, after any sequence of calls of `mint`, `consume` and the
handlers with any tokens, at times that do not decrease. -/
theorem registry_law {tr : Trace} {map : TokenRegistry} {ls : List Label}
    (hclock : ls.Pairwise fun a b => a.now ≤ b.now)
    (hrun : run (withHistory step record) ([], ∅) ls = some (tr, map)) : RegistryLaw tr map := by
  have h := Agrees.run hclock hrun
  exact {
    cap := h.cap
    consumes := fun now t verb params hnow => h.consume_eq_some hnow
    keeps := fun now verb params draw t e hget hlive => mint_kept hget hlive
    refuses := by
      intro now verb params draw hm
      rcases mint_refused hm with hsize | hrest
      · have hle : (sweep map now).size ≤ MAX_INFLIGHT :=
          le_trans Std.ExtTreeMap.size_filter_le_size h.cap
        exact Or.inl (le_antisymm hle hsize)
      · exact Or.inr hrest
    opens := h.opens
    once := by
      intro pre mid post n₁ r₁ p₁ s₁ n₂ r₂ p₂ s₂ heq htoken
      rw [← List.cons_append, ← List.append_assoc] at heq
      obtain ⟨params, τ, hissued, -⟩ := h.opens _ _ _ _ _ _ heq
      obtain ⟨y, hy, hm⟩ := hissued.minted_since (decide_eq_true htoken)
      exact ⟨y, hy, _, hm⟩ }

/-- A token is minted, opens an exec session, and is presented again. -/
def reusedCalls : List Label :=
  [.mint 5 .exec {} fun _ => some (Vector.replicate 6 0),
    .request 7 { route := .exec, segment := "AAAAAAAA", token := "AAAAAAAA", websocket := true },
    .consume 7 "AAAAAAAA"]

theorem registry_law_reused :
    ∃ tr map, run (withHistory step record) ([], ∅) reusedCalls = some (tr, map) ∧
      RegistryLaw tr map :=
  ⟨_, _, rfl, @registry_law _ _ reusedCalls (by simp [reusedCalls, Label.now]) rfl⟩

end LightrCri.Stream

import LightrCri.Spdy.Portforward

/-!
# Routing of port-forward data

To which connection the payload of a DATA frame goes. `Book` keeps what the client and the dials
have done: the data streams opened and the connection dialed for each, the connection dialed last
under each key, and for every DATA frame on a stream that is not finished the connection to which
its payload was written.

The loop routes by the key of the pair, and a stream that is opened with the same key takes over the
pair's connection. `routing` says exactly when each payload goes to the connection dialed for its
stream; `routing_taken_over` is a run in which it does not.
-/

namespace LightrCri.Spdy.Portforward

open Foundations LightrCri.Stream Function

/-! ## The book -/

/-- A data stream that was opened. -/
structure Opening where
  /-- How many were opened before. -/
  no : Nat
  key : String
  /-- The connection dialed for it. -/
  conn : Option ConnId
  /-- The client has sent FLAG_FIN. -/
  finished : Bool
  deriving DecidableEq

/-- A DATA frame on a data stream, and the connection to which its payload was written. -/
structure Sending where
  no : Nat
  data : Bytes
  target : Option ConnId
  deriving DecidableEq

structure Book where
  stream : UInt32 → Option Opening
  /-- The connections dialed for the data streams opened so far. -/
  openings : List (Option ConnId)
  /-- The connection dialed last for a key, if its write half was not shut down since. -/
  last : String → Option ConnId
  log : List Sending

def Book.init : Book := ⟨fun _ => none, [], fun _ => none, []⟩

/-- The connection that takes what the loop writes. -/
def written (s : State) : Option ConnId :=
  match s.pc with
  | .writing _ c _ _ => if isShut s c then none else some c
  | _ => none

/-- The loop neither dials nor writes. -/
def Pc.idle : Pc → Bool
  | .reading => true
  | .done => true
  | _ => false

/-- The loop shuts down the write half after the write. -/
def shutsDown (s : State) : Bool :=
  match s.pc with
  | .writing _ _ _ fin => fin
  | _ => false

/-- The book after a data stream was opened. -/
def Book.open (b : Book) (id : UInt32) (key : String) : Book :=
  { b with
    stream := update b.stream id (some ⟨b.openings.length, key, none, false⟩)
    openings := b.openings ++ [none] }

/-- The book after a DATA frame. -/
def Book.send (b : Book) (id : UInt32) (o : Opening) (flags : UInt8) (data : Bytes)
    (target : Option ConnId) : Book :=
  { b with
    stream := update b.stream id (some { o with finished := flags &&& FLAG_FIN != 0 })
    log := b.log ++ [⟨o.no, data, target⟩] }

/-- The book after a dial that succeeds. -/
def Book.dial (b : Book) (id : UInt32) (o : Opening) (c : ConnId) : Book :=
  { b with
    stream := update b.stream id (some { o with conn := some c })
    openings := b.openings.set o.no (some c)
    last := update b.last o.key (some c) }

/-- The book after the write half of the stream's connection was shut down. -/
def Book.shut (b : Book) (o : Opening) : Book := { b with last := update b.last o.key none }

/-- The book after a step. -/
def keep (b : Book) (s : State) (l : Label) (s' : State) : Book :=
  match l with
  | .recv (.frame (.synStream id hdr)) => if isError hdr then b else b.open id (reqId hdr)
  | .recv (.frame (.data id flags data)) =>
    match b.stream id with
    | some o => if o.finished then b else b.send id o flags data (written s')
    | none => b
  | .dialed id ok =>
    match b.stream id with
    | some o => if ok then b.dial id o (id, (s.conns id).length) else b
    | none => b
  | .flushed id _ =>
    match b.stream id with
    | some o => if shutsDown s then b.shut o else b
    | none => b
  | _ => b

/-- **Routing**: what was written to a connection of the payloads of a data stream is, in order, all
of them if it is the connection dialed for the stream, and nothing otherwise. -/
def Routed (b : Book) : Prop :=
  ∀ no c, (b.log.filter fun x => x.no = no ∧ x.target = some c).flatMap Sending.data =
    if b.openings[no]? = some (some c) then (b.log.filter (·.no = no)).flatMap Sending.data else []

/-- A payload arrives on a data stream only while the connection dialed last for the stream's key,
if it was not shut down since, is the one dialed for the stream. -/
def OwnConnection (p : Book × State) : Label → Prop
  | .recv (.frame (.data id _ data)) =>
    ∀ o, p.1.stream id = some o → o.finished = false → data ≠ [] → p.1.last o.key = o.conn
  | _ => True

/-! ## Sendings -/

/-- The payload went to the connection dialed for its stream. -/
def Sending.Own (openings : List (Option ConnId)) (x : Sending) : Prop :=
  x.data ≠ [] → openings[x.no]? = some x.target

theorem flatMap_filter_eq_nil {p : Sending → Bool} {log : List Sending}
    (h : ∀ x ∈ log, p x = true → x.data = []) : (log.filter p).flatMap Sending.data = [] := by
  rw [List.flatMap_eq_nil_iff]
  intro x hx
  obtain ⟨hx, hp⟩ := List.mem_filter.mp hx
  exact h x hx hp

/-- Two filters that differ only on empty payloads keep the same bytes. -/
theorem flatMap_filter_congr {p q : Sending → Bool} {log : List Sending}
    (h : ∀ x ∈ log, x.data ≠ [] → p x = q x) :
    (log.filter p).flatMap Sending.data = (log.filter q).flatMap Sending.data := by
  induction log with
  | nil => rfl
  | cons x log ih =>
    have ih := ih fun y hy => h y (List.mem_cons_of_mem x hy)
    by_cases hdata : x.data = []
    · rw [List.filter_cons, List.filter_cons]
      split <;> split <;> simp [hdata, ih]
    · rw [List.filter_cons, List.filter_cons, h x List.mem_cons_self hdata]
      split
      · rw [List.flatMap_cons, List.flatMap_cons, ih]
      · exact ih

/-- A filter that passes fewer nonempty payloads keeps fewer bytes. -/
theorem length_flatMap_filter_lt {p q : Sending → Bool} {log : List Sending}
    (hpq : ∀ x ∈ log, p x = true → q x = true) {x : Sending} (hx : x ∈ log) (hdata : x.data ≠ [])
    (hp : p x = false) (hq : q x = true) :
    ((log.filter p).flatMap Sending.data).length < ((log.filter q).flatMap Sending.data).length := by
  have hle (log : List Sending) (hpq : ∀ x ∈ log, p x = true → q x = true) :
      ((log.filter p).flatMap Sending.data).length ≤
        ((log.filter q).flatMap Sending.data).length := by
    induction log with
    | nil => simp
    | cons y log ih =>
      have ih := ih fun z hz => hpq z (List.mem_cons_of_mem y hz)
      have hy := hpq y List.mem_cons_self
      rw [List.filter_cons, List.filter_cons]
      cases hpy : p y with
      | true => simpa [hy hpy] using ih
      | false =>
        cases q y with
        | true => simpa using Nat.le_add_left_of_le ih
        | false => simpa using ih
  obtain ⟨a, b, rfl⟩ := List.append_of_mem hx
  have ha := hle a fun y hy => hpq y (List.mem_append_left _ hy)
  have hb := hle b fun y hy => hpq y (List.mem_append_right _ (List.mem_cons_of_mem x hy))
  have hpos := List.length_pos_iff.mpr hdata
  simp only [List.filter_append, List.filter_cons, hp, hq, List.flatMap_append, List.length_append,
    Bool.false_eq_true, if_false, if_true, List.flatMap_cons]
  omega

/-- Routing, payload by payload. -/
theorem routed_iff {b : Book} (hno : ∀ x ∈ b.log, x.no < b.openings.length) :
    Routed b ↔ ∀ x ∈ b.log, x.Own b.openings := by
  constructor
  · intro h x hx hdata
    obtain ⟨o, ho⟩ : ∃ o, b.openings[x.no]? = some o :=
      ⟨_, List.getElem?_eq_getElem (hno x hx)⟩
    rw [ho]
    by_contra hne
    cases htarget : x.target with
    | none =>
      rw [htarget] at hne
      obtain ⟨c, rfl⟩ : ∃ c, o = some c := Option.ne_none_iff_exists'.mp fun h => hne (h ▸ rfl)
      have hc := h x.no c
      rw [if_pos ho] at hc
      have hlt := length_flatMap_filter_lt (p := fun y => y.no = x.no ∧ y.target = some c)
        (q := fun y => y.no = x.no) (fun y _ hy => by simp at hy ⊢; exact hy.1) hx hdata
        (by simp [htarget]) (by simp)
      rw [hc] at hlt
      exact lt_irrefl _ hlt
    | some c =>
      have hc := h x.no c
      rw [if_neg (by rw [ho]; rw [htarget] at hne; exact hne), List.flatMap_eq_nil_iff] at hc
      exact hdata (hc x (List.mem_filter.mpr ⟨hx, by simp [htarget]⟩))
  · intro h no c
    split
    · rename_i hdialed
      apply flatMap_filter_congr
      intro x hx hdata
      by_cases hxno : x.no = no
      · have hown := h x hx hdata
        rw [hxno, hdialed] at hown
        simp [hxno, ← Option.some.inj hown]
      · simp [hxno]
    · rename_i hdialed
      apply flatMap_filter_eq_nil
      intro x hx hp
      by_contra hdata
      have hp : x.no = no ∧ x.target = some c := by simpa using hp
      have hown := h x hx hdata
      rw [hp.1, hp.2] at hown
      exact hdialed hown

/-! ## The invariant -/

/-- The connection that the pair of a key holds. -/
def tcpOf (s : State) (key : String) : Option ConnId := (s.pairs key).bind Pair.tcp

theorem route_eq (s : State) (id : UInt32) : route s id = (s.dataRoute id).bind (tcpOf s) := by
  unfold route
  rw [Option.bind_assoc]
  rfl

/-- The book says what the maps of the loop say. -/
structure Kept (b : Book) (s : State) : Prop where
  route : ∀ id, s.dataRoute id = (b.stream id).map Opening.key
  last : ∀ key, b.last key = (tcpOf s key).filter fun c => !isShut s c
  valid : ∀ key c, tcpOf s key = some c → c.2 < (s.conns c.1).length
  unique : ∀ key key' c, tcpOf s key = some c → tcpOf s key' = some c → key = key'
  opened : ∀ id o, b.stream id = some o → b.openings[o.no]? = some o.conn
  distinct : ∀ id id' o o', b.stream id = some o → b.stream id' = some o' → o.no = o'.no → id = id'
  logged : ∀ x ∈ b.log, x.no < b.openings.length
  dialing : ∀ id key, s.pc = .dialing id key →
    ∃ o, b.stream id = some o ∧ o.key = key ∧ (s.pairs key).isSome ∧ ∀ x ∈ b.log, x.no ≠ o.no
  writing : ∀ id c rest fin, s.pc = .writing id c rest fin →
    ∃ o, b.stream id = some o ∧ tcpOf s o.key = some c

theorem Kept.init : Kept Book.init init where
  route _ := rfl
  last _ := rfl
  valid _ _ h := by cases h
  unique _ _ _ h := by cases h
  opened _ _ h := by cases h
  distinct _ _ _ _ h := by cases h
  logged _ h := by cases h
  dialing _ _ h := by cases h
  writing _ _ _ _ h := by cases h

/-- A change that leaves the write half as it is shuts nothing down. -/
theorem isShut_setConn {s : State} {c : ConnId} {f : Conn → Conn} (hf : ∀ x, (f x).shut = x.shut)
    (c' : ConnId) : isShut (setConn s c f) c' = isShut s c' := by
  unfold isShut
  rw [getConn_setConn]
  split
  · rename_i hc
    rw [hc]
    cases getConn s c with
    | none => rfl
    | some x => exact hf x
  · rfl

section

variable {b : Book} {s s' : State}

theorem Kept.lt_length (h : Kept b s) {id : UInt32} {o : Opening} (ho : b.stream id = some o) :
    o.no < b.openings.length :=
  (List.getElem?_eq_some_iff.mp (h.opened id o ho)).1

/-- A step that leaves what the pairs hold, the routes and the state of the write halves as they
are. -/
theorem Kept.mono (h : Kept b s) (htcp : tcpOf s' = tcpOf s) (hroute : s'.dataRoute = s.dataRoute)
    (hshut : ∀ c, isShut s' c = isShut s c)
    (hlen : ∀ id, (s'.conns id).length = (s.conns id).length)
    (hdial : ∀ id key, s'.pc = .dialing id key → s.pc = .dialing id key ∧ s'.pairs = s.pairs)
    (hwrite : ∀ id c rest fin, s'.pc = .writing id c rest fin →
      ∃ rest', s.pc = .writing id c rest' fin) : Kept b s' := by
  refine ⟨?_, ?_, ?_, ?_, h.opened, h.distinct, h.logged, ?_, ?_⟩
  · rw [hroute]
    exact h.route
  · intro key
    rw [htcp, h.last key]
    simp only [hshut]
  · intro key c hc
    rw [htcp] at hc
    rw [hlen]
    exact h.valid key c hc
  · rw [htcp]
    exact h.unique
  · intro id key hpc
    rw [(hdial id key hpc).2]
    exact h.dialing id key (hdial id key hpc).1
  · intro id c rest fin hpc
    obtain ⟨rest', hpc'⟩ := hwrite id c rest fin hpc
    rw [htcp]
    exact h.writing id c rest' fin hpc'

/-- A step after which the loop is neither dialing nor writing. -/
theorem Kept.mono_idle (h : Kept b s) (htcp : tcpOf s' = tcpOf s)
    (hroute : s'.dataRoute = s.dataRoute) (hconns : s'.conns = s.conns) (hpc : s'.pc.idle = true) :
    Kept b s' := by
  refine h.mono htcp hroute (fun c => ?_) (fun id => by rw [hconns]) (fun id key hd => ?_)
    fun id c rest fin hw => ?_
  · unfold isShut getConn
    rw [hconns]
  · rw [hd] at hpc
    cases hpc
  · rw [hw] at hpc
    cases hpc

theorem tcpOf_update {f : String → Option Pair} {key : String} {pair : Pair} (hs : s.pairs = f)
    (hs' : s'.pairs = update f key (some pair)) (htcp : pair.tcp = (f key).bind Pair.tcp) :
    tcpOf s' = tcpOf s := by
  funext key'
  unfold tcpOf
  rw [hs', hs, update_apply]
  split
  · rename_i hkey
    rw [hkey]
    exact htcp
  · rfl

/-- Opening a stream leaves every pair with the connection that it holds. -/
theorem tcpOf_synStream (s : State) (id : UInt32) (hdr : Headers) :
    tcpOf (synStream s id hdr) = tcpOf s := by
  unfold synStream
  dsimp only
  split
  · exact tcpOf_update rfl rfl (entry_tcp s.pairs hdr)
  · exact tcpOf_update rfl rfl (entry_tcp s.pairs hdr)

/-- Opening an error stream changes nothing that matters here. -/
theorem Kept.synStream_error (h : Kept b s) (hpc : s.pc = .reading) {id : UInt32} {hdr : Headers}
    (herr : isError hdr = true) : Kept b (synStream s id hdr) := by
  apply h.mono_idle (tcpOf_synStream s id hdr)
  · unfold synStream
    dsimp only
    rw [if_pos herr]
  · unfold synStream
    dsimp only
    rw [if_pos herr]
  · unfold synStream
    dsimp only
    rw [if_pos herr]
    dsimp only
    rw [hpc]
    rfl

theorem Kept.synStream_data (h : Kept b s) {id : UInt32} {hdr : Headers}
    (hdata : isError hdr = false) : Kept (b.open id (reqId hdr)) (synStream s id hdr) := by
  have htcp := tcpOf_synStream s id hdr
  have hs : synStream s id hdr =
      { s with
        pc := .dialing id (reqId hdr)
        pairs := update s.pairs (reqId hdr) (some { entry s.pairs hdr with dataStream := some id })
        dataRoute := update s.dataRoute id (some (reqId hdr))
        out := s.out ++ [.synReply id] } := by
    unfold synStream
    dsimp only
    rw [if_neg (by simp [hdata])]
  have hold {o : Opening} {id' : UInt32} (ho : (b.open id (reqId hdr)).stream id' = some o) :
      id' = id ∧ o = ⟨b.openings.length, reqId hdr, none, false⟩ ∨ id' ≠ id ∧ b.stream id' = some o := by
    change update b.stream id _ id' = some o at ho
    rw [update_apply] at ho
    split at ho
    · rename_i heq
      exact Or.inl ⟨heq, (Option.some.inj ho).symm⟩
    · rename_i hne
      exact Or.inr ⟨hne, ho⟩
  rw [hs] at htcp ⊢
  refine ⟨?_, ?_, ?_, ?_, ?_, ?_, ?_, ?_, ?_⟩
  · intro id'
    show update s.dataRoute id _ id' = Option.map Opening.key (update b.stream id _ id')
    rw [update_apply, update_apply]
    split
    · rfl
    · exact h.route id'
  · rw [htcp]
    exact h.last
  · rw [htcp]
    exact h.valid
  · rw [htcp]
    exact h.unique
  · intro id' o ho
    show (b.openings ++ [none])[o.no]? = some o.conn
    rcases hold ho with ⟨-, rfl⟩ | ⟨-, ho⟩
    · simp
    · rw [List.getElem?_append_left (h.lt_length ho)]
      exact h.opened id' o ho
  · intro id₁ id₂ o₁ o₂ h₁ h₂ hno
    rcases hold h₁ with ⟨hid₁, hnew₁⟩ | ⟨-, hold₁⟩ <;>
      rcases hold h₂ with ⟨hid₂, hnew₂⟩ | ⟨-, hold₂⟩
    · rw [hid₁, hid₂]
    · rw [hnew₁] at hno
      exact absurd hno (Nat.ne_of_gt (h.lt_length hold₂))
    · rw [hnew₂] at hno
      exact absurd hno (Nat.ne_of_lt (h.lt_length hold₁))
    · exact h.distinct id₁ id₂ o₁ o₂ hold₁ hold₂ hno
  · intro x hx
    show x.no < (b.openings ++ [none]).length
    rw [List.length_append]
    exact Nat.lt_add_right _ (h.logged x hx)
  · intro id' key hd
    obtain ⟨rfl, rfl⟩ := Pc.dialing.inj hd
    refine ⟨⟨b.openings.length, reqId hdr, none, false⟩, update_self _ _ _, rfl, ?_, ?_⟩
    · show (update s.pairs (reqId hdr) _ (reqId hdr)).isSome
      rw [update_self]
      rfl
    · intro x hx
      exact Nat.ne_of_lt (h.logged x hx)
  · intro _ _ _ _ hw
    cases hw

theorem Kept.send (h : Kept b s) {id : UInt32} {o : Opening} (ho : b.stream id = some o)
    (hpc : ∀ id key, s.pc ≠ .dialing id key) {flags : UInt8} {data : Bytes}
    {target : Option ConnId} : Kept (b.send id o flags data target) s := by
  have hold {o' : Opening} {id' : UInt32}
      (ho' : (b.send id o flags data target).stream id' = some o') :
      ∃ o₀, b.stream id' = some o₀ ∧ o'.no = o₀.no ∧ o'.key = o₀.key ∧ o'.conn = o₀.conn := by
    change update b.stream id _ id' = some o' at ho'
    rw [update_apply] at ho'
    split at ho'
    · rename_i heq
      obtain rfl := Option.some.inj ho'
      exact ⟨o, by rw [heq, ho], rfl, rfl, rfl⟩
    · exact ⟨o', ho', rfl, rfl, rfl⟩
  have hmap (id' : UInt32) : ((b.send id o flags data target).stream id').map Opening.key =
      (b.stream id').map Opening.key := by
    show (update b.stream id _ id').map Opening.key = _
    rw [update_apply]
    split
    · rename_i heq
      rw [heq, ho]
      rfl
    · rfl
  refine ⟨fun id' => (h.route id').trans (hmap id').symm, h.last, h.valid, h.unique, ?_, ?_, ?_, ?_,
    ?_⟩
  · intro id' o' ho'
    obtain ⟨o₀, ho₀, hno, -, hconn⟩ := hold ho'
    rw [hno, hconn]
    exact h.opened id' o₀ ho₀
  · intro id₁ id₂ o₁ o₂ h₁ h₂ hno
    obtain ⟨a₁, ha₁, hno₁, -⟩ := hold h₁
    obtain ⟨a₂, ha₂, hno₂, -⟩ := hold h₂
    exact h.distinct id₁ id₂ a₁ a₂ ha₁ ha₂ (by rw [← hno₁, ← hno₂, hno])
  · intro x hx
    rcases List.mem_append.mp hx with hx | hx
    · exact h.logged x hx
    · rw [List.mem_singleton.mp hx]
      exact h.lt_length ho
  · intro id' key hd
    exact absurd hd (hpc id' key)
  · intro id' c rest fin hw
    obtain ⟨o₀, ho₀, htcp⟩ := h.writing id' c rest fin hw
    have hkey := hmap id'
    rw [ho₀, Option.map_some, Option.map_eq_some_iff] at hkey
    obtain ⟨o', ho', hkey⟩ := hkey
    exact ⟨o', ho', by rw [hkey]; exact htcp⟩

/-- After the arm of DATA the loop writes to the connection dialed last for the stream's key. -/
theorem Kept.data (h : Kept b s) (hpc : s.pc = .reading) (id : UInt32) (flags : UInt8)
    (data : Bytes) :
    Kept b (Portforward.data s id flags data) ∧
      (∀ id' key, (Portforward.data s id flags data).pc ≠ .dialing id' key) ∧
      ∀ o, b.stream id = some o →
        written (Portforward.data s id flags data) = b.last o.key := by
  have hr : Portforward.route s id = (b.stream id).bind fun o => tcpOf s o.key := by
    rw [route_eq, h.route, Option.bind_map]
    rfl
  unfold Portforward.data
  split
  · rename_i c hc
    rw [hr] at hc
    obtain ⟨o, ho, hc⟩ := Option.bind_eq_some_iff.mp hc
    refine ⟨?_, (fun _ _ hd => by cases hd), fun o' ho' => ?_⟩
    · refine ⟨h.route, h.last, h.valid, h.unique, h.opened, h.distinct, h.logged,
        fun _ _ hd => (by cases hd), fun id' c' rest fin hw => ?_⟩
      obtain ⟨rfl, rfl, -, -⟩ := Pc.writing.inj hw
      exact ⟨o, ho, hc⟩
    · obtain rfl := Option.some.inj (ho.symm.trans ho')
      rw [h.last, hc]
      show (if isShut s c = true then none else some c) = _
      rw [Option.filter]
      cases isShut s c <;> rfl
  · rename_i hc
    rw [hr] at hc
    refine ⟨h, (fun _ _ hd => by rw [hpc] at hd; cases hd), fun o ho => ?_⟩
    rw [ho, Option.bind_some] at hc
    rw [h.last, hc, written, hpc]
    rfl

/-- The connections that other pairs hold are left as they are by a dropped write half. -/
theorem getElem?_dropped {tcp : Option ConnId} {c : ConnId} (hne : tcp ≠ some c) :
    (dropped s.conns tcp c.1)[c.2]? = getConn s c := by
  cases tcp with
  | none => rfl
  | some c' =>
    have hc : c ≠ c' := fun heq => hne (congrArg some heq.symm)
    have h := getConn_setConn s c' c fun k => { k with shut := true }
    rw [if_neg hc] at h
    exact h

theorem Kept.dial (h : Kept b s) {id : UInt32} {o : Opening} (ho : b.stream id = some o)
    {pair : Pair} (hpair : s.pairs o.key = some pair) :
    Kept (b.dial id o (id, (s.conns id).length))
      { s with
        pc := .reading
        pairs := update s.pairs o.key (some { pair with tcp := some (id, (s.conns id).length) })
        conns := connected s id pair } := by
  generalize hs' : ({ s with
    pc := .reading
    pairs := update s.pairs o.key (some { pair with tcp := some (id, (s.conns id).length) })
    conns := connected s id pair } : State) = s'
  have hheld : tcpOf s o.key = pair.tcp := by rw [tcpOf, hpair, Option.bind_some]
  have hlen := length_dropped s.conns pair.tcp
  have hconns : s'.conns = update (dropped s.conns pair.tcp) id
      (dropped s.conns pair.tcp id ++ [⟨pair.port, [], false, true⟩]) := by
    rw [← hs']
    rfl
  have htcp (key : String) : tcpOf s' key =
      if key = o.key then some (id, (s.conns id).length) else tcpOf s key := by
    rw [← hs']
    show (update s.pairs o.key _ key).bind Pair.tcp = _
    rw [update_apply]
    split <;> rfl
  have hgrow (id' : UInt32) : (s.conns id').length ≤ (s'.conns id').length := by
    rw [hconns, update_apply]
    split
    · rename_i heq
      rw [heq, List.length_append, hlen]
      exact Nat.le_add_right _ _
    · exact (hlen id').ge
  have hnew : getConn s' (id, (s.conns id).length) = some ⟨pair.port, [], false, true⟩ := by
    unfold getConn
    rw [hconns, update_self, ← hlen]
    simp
  -- a connection that another key holds is neither the new one nor the one that is dropped
  have hold {key : String} {c : ConnId} (hkey : key ≠ o.key) (hc : tcpOf s key = some c) :
      getConn s' c = getConn s c := by
    have hne : pair.tcp ≠ some c := fun heq =>
      hkey (h.unique key o.key c hc (hheld.trans heq))
    have hin : c.2 < (dropped s.conns pair.tcp c.1).length := (hlen c.1).symm ▸ h.valid key c hc
    rw [← getElem?_dropped (s := s) hne]
    show (s'.conns c.1)[c.2]? = _
    rw [hconns, update_apply]
    split
    · rename_i heq
      rw [← heq, List.getElem?_append_left hin]
    · rfl
  have hstream {o' : Opening} {id' : UInt32}
      (ho' : (b.dial id o (id, (s.conns id).length)).stream id' = some o') :
      id' = id ∧ o' = { o with conn := some (id, (s.conns id).length) } ∨
        id' ≠ id ∧ b.stream id' = some o' := by
    change update b.stream id _ id' = some o' at ho'
    rw [update_apply] at ho'
    split at ho'
    · rename_i heq
      exact Or.inl ⟨heq, (Option.some.inj ho').symm⟩
    · rename_i hne
      exact Or.inr ⟨hne, ho'⟩
  have hlt := h.lt_length ho
  refine ⟨?_, ?_, ?_, ?_, ?_, ?_, ?_, ?_, ?_⟩
  · intro id'
    have hroute : s'.dataRoute = s.dataRoute := by rw [← hs']
    show s'.dataRoute id' = Option.map Opening.key (update b.stream id _ id')
    rw [hroute, h.route, update_apply]
    split
    · rename_i heq
      rw [heq, ho]
      rfl
    · rfl
  · intro key
    show update b.last o.key _ key = _
    rw [update_apply, htcp]
    split
    · rw [Option.filter, isShut, hnew]
      rfl
    · rename_i hkey
      rw [h.last]
      cases hc : tcpOf s key with
      | none => rfl
      | some c => rw [Option.filter, Option.filter, isShut, isShut, hold hkey hc]
  · intro key c hc
    rw [htcp] at hc
    split at hc
    · obtain rfl := Option.some.inj hc
      exact (List.getElem?_eq_some_iff.mp hnew).1
    · exact lt_of_lt_of_le (h.valid key c hc) (hgrow c.1)
  · intro key key' c hc hc'
    have hfresh (key : String) (hk : tcpOf s key = some (id, (s.conns id).length)) : False :=
      lt_irrefl _ (h.valid key _ hk)
    rw [htcp] at hc hc'
    split at hc <;> split at hc'
    · rename_i hk hk'
      rw [hk, hk']
    · obtain rfl := Option.some.inj hc
      exact (hfresh key' hc').elim
    · obtain rfl := Option.some.inj hc'
      exact (hfresh key hc).elim
    · exact h.unique key key' c hc hc'
  · intro id' o' ho'
    show (b.openings.set o.no _)[o'.no]? = some o'.conn
    rcases hstream ho' with ⟨-, rfl⟩ | ⟨hne, hold'⟩
    · exact List.getElem?_set_self hlt
    · have hno : o.no ≠ o'.no := fun heq => hne (h.distinct id id' o o' ho hold' heq).symm
      rw [List.getElem?_set_ne hno]
      exact h.opened id' o' hold'
  · intro id₁ id₂ o₁ o₂ h₁ h₂ hno
    have hback {o' : Opening} {id' : UInt32}
        (ho' : (b.dial id o (id, (s.conns id).length)).stream id' = some o') :
        ∃ o₀, b.stream id' = some o₀ ∧ o₀.no = o'.no := by
      rcases hstream ho' with ⟨rfl, rfl⟩ | ⟨-, hold'⟩
      · exact ⟨o, ho, rfl⟩
      · exact ⟨o', hold', rfl⟩
    obtain ⟨a₁, ha₁, hno₁⟩ := hback h₁
    obtain ⟨a₂, ha₂, hno₂⟩ := hback h₂
    exact h.distinct id₁ id₂ a₁ a₂ ha₁ ha₂ (by rw [hno₁, hno₂, hno])
  · intro x hx
    show x.no < (b.openings.set o.no _).length
    rw [List.length_set]
    exact h.logged x hx
  · intro _ _ hd
    rw [← hs'] at hd
    cases hd
  · intro _ _ _ _ hw
    rw [← hs'] at hw
    cases hw

theorem Kept.shut (h : Kept b s) {o : Opening} {c : ConnId} (hc : tcpOf s o.key = some c) :
    Kept (b.shut o)
      { setConn s c fun x => { x with shut := x.shut || true } with pc := .reading } := by
  have hvalid := h.valid o.key c hc
  have hshut (c' : ConnId) : isShut ({ setConn s c fun x => { x with shut := x.shut || true } with
      pc := .reading } : State) c' = if c' = c then true else isShut s c' := by
    show (getConn (setConn s c fun x => { x with shut := x.shut || true }) c').any Conn.shut = _
    rw [getConn_setConn]
    split
    · unfold getConn
      rw [List.getElem?_eq_getElem hvalid]
      simp
    · rfl
  refine ⟨h.route, ?_, ?_, h.unique, h.opened, h.distinct, h.logged, ?_, ?_⟩
  · intro key
    show update b.last o.key none key = (tcpOf s key).filter _
    simp only [hshut]
    rw [update_apply]
    split
    · rename_i hkey
      rw [hkey, hc, Option.filter, if_pos rfl]
      rfl
    · rename_i hkey
      rw [h.last]
      cases hc' : tcpOf s key with
      | none => rfl
      | some c' =>
        have hne : c' ≠ c := fun heq => hkey (h.unique key o.key c (heq ▸ hc') hc)
        rw [Option.filter, Option.filter, if_neg hne]
  · intro key c' hc'
    show c'.2 < (update s.conns c.1 _ c'.1).length
    rw [update_apply]
    split
    · rename_i heq
      rw [List.length_modify, ← heq]
      exact h.valid key c' hc'
    · exact h.valid key c' hc'
  · intro _ _ hd
    cases hd
  · intro _ _ _ _ hw
    cases hw

/-- All payloads went to the connections dialed for their streams. -/
def Book.Own (b : Book) : Prop := ∀ x ∈ b.log, x.Own b.openings

/-- **The step lemma**: the book is kept, and its payloads stay with their connections exactly if
the step meets the condition. -/
theorem Kept.step (h : Kept b s) {l : Label} (hstep : step s l = some s') :
    Kept (keep b s l s') s' ∧ ((keep b s l s').Own ↔ b.Own ∧ OwnConnection (b, s) l) := by
  have hsame (hk : Kept b s') (hl : OwnConnection (b, s) l) :
      Kept b s' ∧ (b.Own ↔ b.Own ∧ OwnConnection (b, s) l) :=
    ⟨hk, (and_iff_left hl).symm⟩
  cases l with
  | recv f =>
    unfold Portforward.step at hstep
    dsimp only at hstep
    split at hstep
    · rename_i hpc
      split at hstep <;> obtain rfl := Option.some.inj hstep
      · rename_i id hdr
        unfold keep
        dsimp only
        split
        · rename_i herr
          exact hsame (h.synStream_error hpc herr) True.intro
        · rename_i hdata
          refine ⟨h.synStream_data (by simpa using hdata), ?_⟩
          rw [and_iff_left (show OwnConnection (b, s) (.recv (.frame (.synStream id hdr))) from
            True.intro)]
          apply forall₂_congr
          intro x hx
          have hx : x.no < b.openings.length := h.logged x hx
          unfold Sending.Own
          rw [show (b.open id (reqId hdr)).openings = b.openings ++ [none] from rfl,
            List.getElem?_append_left hx]
      · rename_i id flags bytes
        obtain ⟨hk, hdial, hwritten⟩ := h.data hpc id flags bytes
        unfold keep
        dsimp only
        split
        · rename_i o ho
          split
          · rename_i hfin
            refine hsame hk fun o' ho' hfin' => ?_
            obtain rfl := Option.some.inj (ho.symm.trans ho')
            rw [hfin] at hfin'
            cases hfin'
          · rename_i hfin
            refine ⟨hk.send ho hdial, ?_⟩
            have hopened : b.openings[o.no]? = some o.conn := h.opened id o ho
            have hlog : ∀ x : Sending, x ∈ (b.send id o flags bytes
                (written (Portforward.data s id flags bytes))).log ↔
                x ∈ b.log ∨ x = ⟨o.no, bytes, b.last o.key⟩ := by
              intro x
              rw [← hwritten o ho]
              exact List.mem_append.trans (or_congr Iff.rfl List.mem_singleton)
            unfold Book.Own
            constructor
            · intro hown
              refine ⟨fun x hx => hown x ((hlog x).mpr (Or.inl hx)), fun o' ho' _ hne => ?_⟩
              obtain rfl := Option.some.inj (ho.symm.trans ho')
              have hnew := hown _ ((hlog _).mpr (Or.inr rfl)) hne
              exact Option.some.inj (hnew.symm.trans hopened)
            · rintro ⟨hown, hcond⟩ x hx hne
              rcases (hlog x).mp hx with hx | rfl
              · exact hown x hx hne
              · have hlast : b.last o.key = o.conn := hcond o ho (by simpa using hfin) hne
                rw [hlast]
                exact hopened
        · rename_i hnone
          refine hsame hk fun o' ho' => ?_
          rw [hnone] at ho'
          cases ho'
      · exact hsame (h.mono_idle rfl rfl rfl (by rw [hpc]; rfl)) True.intro
      · exact hsame (h.mono_idle rfl rfl rfl rfl) True.intro
      · exact hsame (h.mono_idle rfl rfl rfl rfl) True.intro
      · exact hsame (h.mono_idle rfl rfl rfl rfl) True.intro
    · cases hstep
  | dialed id ok =>
    unfold Portforward.step at hstep
    dsimp only at hstep
    split at hstep
    · rename_i id' key hpc
      split at hstep
      · rename_i heq
        subst heq
        obtain rfl := Option.some.inj hstep
        obtain ⟨o, ho, rfl, hpair, hlog⟩ := h.dialing id key hpc
        obtain ⟨pair, hpair⟩ := Option.isSome_iff_exists.mp hpair
        unfold keep Portforward.dialed
        dsimp only
        rw [ho, hpair]
        dsimp only
        cases ok with
        | true =>
          rw [if_pos rfl, if_pos rfl]
          refine ⟨h.dial ho hpair, ?_⟩
          rw [and_iff_left (show OwnConnection (b, s) (.dialed id true) from True.intro)]
          apply forall₂_congr
          intro x hx
          have hne : o.no ≠ x.no := (hlog x hx).symm
          unfold Sending.Own
          rw [show (b.dial id o (id, (s.conns id).length)).openings =
            b.openings.set o.no (some (id, (s.conns id).length)) from rfl,
            List.getElem?_set_ne hne]
        | false => exact ⟨h.mono_idle rfl rfl rfl rfl, (and_iff_left True.intro).symm⟩
      · cases hstep
    · cases hstep
  | accept id n =>
    unfold Portforward.step at hstep
    dsimp only at hstep
    split at hstep
    · rename_i id' c rest fin hpc
      split at hstep
      · rename_i hcond
        obtain ⟨rfl, -⟩ := hcond
        obtain rfl := Option.some.inj hstep
        refine hsame (h.mono rfl rfl (isShut_setConn fun _ => rfl) (fun i => ?_)
          (fun _ _ hd => (by cases hd)) fun id' c' rest' fin' hw => ?_) True.intro
        · show (update s.conns c.1 _ i).length = _
          rw [update_apply]
          split
          · rename_i heq
            rw [List.length_modify, heq]
          · rfl
        · obtain ⟨rfl, rfl, -, rfl⟩ := Pc.writing.inj hw
          exact ⟨rest, hpc⟩
      · cases hstep
    · cases hstep
  | flushed id ok =>
    unfold Portforward.step at hstep
    dsimp only at hstep
    split at hstep
    · rename_i id' c rest fin hpc
      split at hstep
      · rename_i hcond
        obtain ⟨rfl, -⟩ := hcond
        obtain rfl := Option.some.inj hstep
        obtain ⟨o, ho, hc⟩ := h.writing id c rest fin hpc
        unfold keep
        dsimp only
        rw [ho, shutsDown, hpc]
        dsimp only
        cases fin with
        | true => exact ⟨h.shut hc, (and_iff_left True.intro).symm⟩
        | false =>
          refine hsame ?_ True.intro
          refine h.mono rfl rfl (isShut_setConn fun x => Bool.or_false x.shut) (fun i => ?_)
            (fun _ _ hd => (by cases hd)) fun _ _ _ _ hw => (by cases hw)
          show (update s.conns c.1 _ i).length = _
          rw [update_apply]
          split
          · rename_i heq
            rw [List.length_modify, heq]
          · rfl
      · cases hstep
    · cases hstep
  | fromTcp c bytes =>
    unfold Portforward.step at hstep
    dsimp only at hstep
    split at hstep
    · obtain rfl := Option.some.inj hstep
      exact hsame (h.mono rfl rfl (fun _ => rfl) (fun _ => rfl) (fun _ _ hd => ⟨hd, rfl⟩)
        fun _ _ rest _ hw => ⟨rest, hw⟩) True.intro
    · cases hstep
  | eofTcp c =>
    unfold Portforward.step at hstep
    dsimp only at hstep
    split at hstep
    · obtain rfl := Option.some.inj hstep
      refine hsame (h.mono rfl rfl (isShut_setConn fun _ => rfl) (fun i => ?_)
        (fun _ _ hd => ⟨hd, rfl⟩) fun _ _ rest _ hw => ⟨rest, hw⟩) True.intro
      show (update s.conns c.1 _ i).length = _
      rw [update_apply]
      split
      · rename_i heq
        rw [List.length_modify, heq]
      · rfl
    · cases hstep
  | deadline =>
    unfold Portforward.step at hstep
    dsimp only at hstep
    split at hstep
    · obtain rfl := Option.some.inj hstep
      exact hsame (h.mono rfl rfl (fun _ => rfl) (fun _ => rfl) (fun _ _ hd => ⟨hd, rfl⟩)
        fun _ _ rest _ hw => ⟨rest, hw⟩) True.intro
    · cases hstep

end

/-! ## The claim -/

theorem Kept.run {b b' : Book} {s s' : State} {ls : List Label} (h : Kept b s)
    (hrun : run (withHistory Portforward.step keep) (b, s) ls = some (b', s')) :
    Kept b' s' ∧
      (b'.Own ↔ b.Own ∧ Along (withHistory Portforward.step keep) OwnConnection (b, s) ls) := by
  induction ls generalizing b s with
  | nil =>
    obtain ⟨rfl, rfl⟩ := Prod.mk.inj (Option.some.inj hrun)
    exact ⟨h, (and_iff_left True.intro).symm⟩
  | cons l ls ih =>
    obtain ⟨⟨b₁, s₁⟩, hstep, hrest⟩ := run_cons_eq_some.mp hrun
    obtain ⟨hs₁, hb₁⟩ := withHistory_eq_some.mp hstep
    obtain rfl : b₁ = keep b s l s₁ := hb₁
    obtain ⟨hk, hown⟩ := h.step hs₁
    obtain ⟨hk', hown'⟩ := ih hk hrest
    refine ⟨hk', hown'.trans ?_⟩
    rw [hown, and_assoc]
    apply and_congr_right
    intro _
    apply and_congr_right
    intro _
    constructor
    · intro hrest p hp
      obtain rfl := Option.some.inj (hstep.symm.trans hp)
      exact hrest
    · intro hall
      exact hall _ hstep

/-- **Routing**: the payloads of every data stream are written, in order and once, to the connection
dialed for it and to no other, exactly if each arrives while that connection is the one dialed last
for the stream's key and not shut down since. -/
theorem routing {b : Book} {s : State} {ls : List Label}
    (hrun : run (withHistory step keep) (Book.init, init) ls = some (b, s)) :
    Routed b ↔ Along (withHistory step keep) OwnConnection (Book.init, init) ls := by
  obtain ⟨hk, hown⟩ := Kept.init.run hrun
  have hempty : Book.init.Own := fun x hx => by cases hx
  rw [routed_iff hk.logged]
  exact hown.trans (and_iff_right hempty)

/-- The headers of a data stream without a requestID. -/
def portHeaders : Headers := [("streamType", "data"), ("port", "80")]

/-- A stream is opened and its payload written. -/
def oneStreamRun : List Label :=
  [.recv (.frame (.synStream 1 portHeaders)), .dialed 1 true, .recv (.frame (.data 1 0 [5])),
    .accept 1 1, .flushed 1 true]

/-- A second stream to the same port is opened before the payload of the first arrives. -/
def takenOverRun : List Label :=
  [.recv (.frame (.synStream 1 portHeaders)), .dialed 1 true,
    .recv (.frame (.synStream 3 portHeaders)), .dialed 3 true, .recv (.frame (.data 1 0 [5])),
    .accept 1 1, .flushed 1 true]

theorem routing_oneStream :
    ∃ b s, run (withHistory step keep) (Book.init, init) oneStreamRun = some (b, s) ∧
      (Routed b ↔ Along (withHistory step keep) OwnConnection (Book.init, init) oneStreamRun) :=
  ⟨_, _, rfl, @routing _ _ oneStreamRun rfl⟩

/-- **The second stream takes the connection over**: the payload of the first is written to the
connection dialed for the second. -/
theorem routing_taken_over :
    ∃ b s, run (withHistory step keep) (Book.init, init) takenOverRun = some (b, s) ∧
      (getConn s (1, 0)).map Conn.written = some [] ∧
      (getConn s (3, 0)).map Conn.written = some [5] ∧ ¬Routed b := by
  refine ⟨_, _, rfl, rfl, rfl, fun h => ?_⟩
  have hsecond := h 0 (3, 0)
  revert hsecond
  decide

end LightrCri.Spdy.Portforward

import LightrCri.Foundations.Guarded
import LightrCri.Spdy.Exec
import LightrCri.Spdy.Portforward

/-!
# The writer of a connection

`Writer` is the write half of a connection and the compressor of its header blocks behind one mutex,
and this is every place of `run_exec` and of `run_portforward` that writes (`Site`), at the level of
the pieces in which the transport takes the bytes.

* `writer_atomic`: whatever the tasks do, and in whatever order, what is on the wire are whole
  frames, up to the one that is being written; each is the frame of what a task has asked to write,
  and has the length that its header says; each task finds all that it has asked for in its order,
  and the blocks of the SYN_REPLYs are the successive results of the compressor.
* `Exec.out_sites`, `Portforward.out_sites`: what the state machines of the two drivers write at
  once is what one site writes, so the machines say no more than that with the mutex.
-/

namespace LightrCri.Spdy

open Foundations Foundations.Guarded LightrCri.Stream

/-! ## The compressor -/

/-- A compression engine with the dictionary installed. A call with `Z_SYNC_FLUSH` and a buffer of
`n` bytes returns the number of bytes read and the bytes written. -/
structure Deflate where
  State : Type
  new : State
  compress : State → Bytes → (n : Nat) → State × Nat × Bytes

section

variable (E : Deflate)

/-- The loop of `compress`, with `input` still to be read and `out` written. -/
def compressLoop : Nat → E.State → Bytes → Bytes → Option (E.State × Bytes)
  | 0, _, _, _ => none
  | fuel + 1, z, input, out =>
    match E.compress z input BUFFER with
    | (z, read, wrote) =>
      if input.length ≤ read ∧ wrote.length < BUFFER then some (z, out ++ wrote)
      else if read = 0 ∧ wrote = [] then some (z, out ++ wrote)
      else compressLoop fuel z (input.drop read) (out ++ wrote)

/-- Compress one header block. -/
def headerCompress (fuel : Nat) (z : E.State) (input : Bytes) : Option (E.State × Bytes) :=
  compressLoop E fuel z input []

/-- The engine is where the compressor leaves it after some header blocks. -/
inductive Flushed : E.State → Prop
  | new : Flushed E.new
  | block {z z' : E.State} {fuel : Nat} {input out : Bytes} (h : Flushed z)
    (hblock : headerCompress E fuel z input = some (z', out)) : Flushed z'

/-- Calls of the engine with the buffer of the loop, each with what is left of the input, write the
bytes. -/
inductive Calls : E.State → Bytes → E.State → Bytes → Prop
  | none {z : E.State} {input : Bytes} : Calls z input z []
  | call {z z' z'' : E.State} {input wrote out : Bytes} {read : Nat}
    (hcall : E.compress z input BUFFER = (z', read, wrote))
    (h : Calls z' (input.drop read) z'' out) : Calls z input z'' (wrote ++ out)

/-- The engine has nothing pending after a flush, and makes at most `b n` bytes of a header block of
`n` bytes (`deflateBound`). -/
def Bounded (b : Nat → Nat) : Prop :=
  ∀ z z' input out, Flushed E z → Calls E z input z' out → out.length ≤ b input.length

/-- The blocks are the successive results of the compressor for the empty list of headers. -/
inductive Compressions : List Bytes → E.State → Prop
  | new : Compressions [] E.new
  | block {blocks : List Bytes} {z z' : E.State} {fuel : Nat} {block : Bytes}
    (h : Compressions blocks z)
    (hblock : headerCompress E fuel z (serializeHeaders []) = some (z', block)) :
    Compressions (blocks ++ [block]) z'

end

/-! ## The places that write -/

/-- The tasks of a connection. -/
inductive Task
  | readLoop
  /-- The pump of an output of the session. -/
  | output (o : Output)
  /-- The completion path of `run_exec`. -/
  | completion
  /-- The pump of a TCP connection. -/
  | tcp (c : Portforward.ConnId)
  deriving DecidableEq

/-- A place that writes, and what it writes there. -/
inductive Site
  | reply (id : UInt32)
  | ping (id : UInt32)
  /-- The dial fails. -/
  | refusal (id : UInt32) (errorStream : Option UInt32)
  | output (o : Output) (id : UInt32) (chunk : Bytes)
  | finish (exit : Int32) (stdout stderr error : Option UInt32)
  | tcp (c : Portforward.ConnId) (chunk : Bytes)
  | tcpEnd (c : Portforward.ConnId)

def Site.task : Site → Task
  | .reply _ => .readLoop
  | .ping _ => .readLoop
  | .refusal _ _ => .readLoop
  | .output o _ _ => .output o
  | .finish _ _ _ _ => .completion
  | .tcp c _ => .tcp c
  | .tcpEnd c => .tcp c

/-- What is written with the mutex held. -/
def Site.frames : Site → List Outbound
  | .reply id => [.synReply id]
  | .ping id => [.ping id]
  | .refusal id errorStream => Portforward.refusal id errorStream
  | .output _ id chunk => [.data id 0 chunk]
  | .finish exit stdout stderr error => Exec.fins exit stdout stderr error
  | .tcp c chunk => [.data c.1 0 chunk]
  | .tcpEnd c => [.data c.1 FLAG_FIN []]

/-- The site is one of the driver, and what it writes was read into a buffer of 8192 bytes. -/
def Site.allowed : Loop → Site → Bool
  | _, .reply _ => true
  | _, .ping _ => true
  | .runPortforward, .refusal _ _ => true
  | .runExec, .output _ _ chunk => 0 < chunk.length && chunk.length ≤ 8192
  | .runExec, .finish _ _ _ _ => true
  | .runPortforward, .tcp _ chunk => 0 < chunk.length && chunk.length ≤ 8192
  | .runPortforward, .tcpEnd _ => true
  | _, _ => false

/-- `syn_reply`, `data`, `rst` and `write_frame`, up to the write. -/
def encodeFrame (E : Deflate) (fuel : Nat) (z : E.State) : Outbound → Option (E.State × Frame)
  | .synReply id =>
    (headerCompress E fuel z (serializeHeaders [])).map fun x => (x.1, .synReply id 0 x.2)
  | .data id flags data => some (z, .data id flags data)
  | .rst id status => some (z, .rstStream id status)
  | .ping id => some (z, .ping id)

def writer (E : Deflate) (loop : Loop) : Discipline Task Site Outbound Frame UInt8 E.State Nat where
  task := Site.task
  requests := Site.frames
  allowed := Site.allowed loop
  encode := encodeFrame E
  bytes := Frame.serialize

/-! ## The length of a frame -/

/-- The bytes of the header that give the length. -/
def lengthField (bs : Bytes) : Nat := ofBE ((bs.drop 5).take 3)

theorem Frame.serialize_eq (f : Frame) :
    ∃ head payload, f.serialize = head ++ (lengthBytes payload.length ++ payload) ∧ head.length = 5 ∧
      f.payloadLength = payload.length := by
  cases hc : f.control with
  | none =>
    cases f with
    | data id flags payload =>
      exact ⟨toBeBytes (id &&& 0x7fffffff) ++ [flags], payload, by simp [Frame.serialize], by simp, rfl⟩
    | _ => cases hc
  | some c =>
    obtain ⟨ftype, flags, payload⟩ := c
    obtain ⟨hser, hlength⟩ := Frame.serialize_of_control hc
    refine ⟨[(0x80 : UInt8) ||| (SPDY_VERSION >>> 8).toUInt8, (SPDY_VERSION &&& 0xff).toUInt8,
      (ftype >>> 8).toUInt8, ftype.toUInt8, flags], payload, ?_, rfl, hlength⟩
    rw [hser, controlHeader, List.append_assoc]

theorem length_lengthBytes (n : Nat) : (lengthBytes n).length = 3 := rfl

/-- **The length field is exact** when the payload is shorter than `2 ^ 24`. -/
theorem Frame.lengthField_serialize {f : Frame} (h : f.payloadLength < 2 ^ 24) :
    lengthField f.serialize = f.payloadLength ∧ f.serialize.length = 8 + lengthField f.serialize := by
  obtain ⟨head, payload, hser, hhead, hlength⟩ := f.serialize_eq
  have hfield : lengthField f.serialize = f.payloadLength := by
    rw [lengthField, hser, ← hhead, List.drop_left, ← length_lengthBytes payload.length,
      List.take_left, lengthBytes_eq, hlength]
    exact ofBE_toBE_of_lt (hlength ▸ h)
  refine ⟨hfield, ?_⟩
  rw [hfield, hser, hlength, List.length_append, List.length_append, length_lengthBytes, hhead]
  omega

/-! ## What is written is short -/

theorem length_utf8_le (s : String) : (utf8 s).length ≤ 4 * s.length := by
  have hbytes : utf8 s = s.toList.flatMap String.utf8EncodeChar := by
    have hofList : utf8 (String.ofList s.toList) = s.toList.flatMap String.utf8EncodeChar := by
      simp only [utf8, String.toUTF8_eq_toByteArray, String.toByteArray_ofList, List.utf8Encode]
      simp
    rwa [String.ofList_toList] at hofList
  rw [hbytes, List.length_flatMap, ← String.length_toList]
  induction s.toList with
  | nil => simp
  | cons c cs ih =>
    have hc : (String.utf8EncodeChar c).length ≤ 4 := by
      rw [String.length_utf8EncodeChar]
      exact Char.utf8Size_le_four c
    rw [List.map_cons, List.sum_cons, List.length_cons]
    omega

theorem length_toString_toInt_le (x : Int32) : (toString x.toInt).length ≤ 11 := by
  have hlo := x.le_toInt
  have hhi := x.toInt_lt
  have hrepr (n : Nat) (h : n < 10 ^ 10) : n.repr.length ≤ 10 :=
    (Nat.length_repr_le_iff (by omega)).mpr h
  rw [Int.toString_eq_repr]
  unfold Int.repr
  split
  · rename_i n hn
    rw [hn, Int.ofNat_eq_natCast] at hhi
    exact Nat.le_succ_of_le (hrepr n (by omega))
  · rename_i n hn
    rw [hn, Int.negSucc_eq] at hlo
    have hdigits := hrepr (n + 1) (by omega)
    rw [String.length_append]
    exact Nat.add_comm _ _ ▸ Nat.succ_le_succ hdigits

theorem length_exitStatusJson_lt (exit : Int32) : (exitStatusJson exit).length < 2 ^ 24 := by
  have hcode := length_toString_toInt_le exit
  unfold exitStatusJson
  split
  · refine Nat.lt_of_le_of_lt (length_utf8_le _) ?_
    decide
  · refine Nat.lt_of_le_of_lt (length_utf8_le _) ?_
    simp only [String.length_append]
    generalize (toString exit.toInt).length = n at hcode
    revert n
    decide

/-- The payload of what is requested is short. -/
def Outbound.Short (r : Outbound) : Prop :=
  ∀ id flags data, r = .data id flags data → data.length < 2 ^ 24

theorem Outbound.short_data {id : UInt32} {flags : UInt8} {data : Bytes} (h : data.length < 2 ^ 24) :
    (Outbound.data id flags data).Short := by
  intro id' flags' data' heq
  cases heq
  exact h

theorem Site.short {loop : Loop} {site : Site} (hsite : site.allowed loop = true) {r : Outbound}
    (hr : r ∈ site.frames) : r.Short := by
  have hchunk {chunk : Bytes} (h : (0 < chunk.length && chunk.length ≤ 8192) = true) :
      chunk.length < 2 ^ 24 := by
    have hlen : chunk.length ≤ 8192 := of_decide_eq_true (Bool.and_eq_true_iff.mp h).2
    omega
  cases site with
  | reply id =>
    rw [List.mem_singleton.mp hr]
    exact fun _ _ _ heq => by cases heq
  | ping id =>
    rw [List.mem_singleton.mp hr]
    exact fun _ _ _ heq => by cases heq
  | refusal id errorStream =>
    cases errorStream with
    | none =>
      rw [List.mem_singleton.mp hr]
      exact fun _ _ _ heq => by cases heq
    | some eid =>
      have hmem : r = .data eid FLAG_FIN (utf8 "dial failed") ∨ r = .rst id RST_REFUSED_STREAM ∨
          r = .rst eid RST_REFUSED_STREAM := by
        simpa [Site.frames, Portforward.refusal] using hr
      rcases hmem with rfl | rfl | rfl
      · exact Outbound.short_data (by decide)
      · exact fun _ _ _ heq => by cases heq
      · exact fun _ _ _ heq => by cases heq
  | output o id chunk =>
    rw [List.mem_singleton.mp hr]
    cases loop with
    | runExec => exact Outbound.short_data (hchunk hsite)
    | runPortforward => cases hsite
  | finish exit stdout stderr error =>
    have hmem : (∃ id, stdout = some id ∧ .data id FLAG_FIN [] = r) ∨
        (∃ id, stderr = some id ∧ .data id FLAG_FIN [] = r) ∨
        ∃ id, error = some id ∧ .data id FLAG_FIN (exitStatusJson exit) = r := by
      simpa [Site.frames, Exec.fins] using hr
    rcases hmem with ⟨id, -, rfl⟩ | ⟨id, -, rfl⟩ | ⟨id, -, rfl⟩
    · exact Outbound.short_data (Nat.two_pow_pos 24)
    · exact Outbound.short_data (Nat.two_pow_pos 24)
    · exact Outbound.short_data (length_exitStatusJson_lt exit)
  | tcp c chunk =>
    rw [List.mem_singleton.mp hr]
    cases loop with
    | runExec => cases hsite
    | runPortforward => exact Outbound.short_data (hchunk hsite)
  | tcpEnd c =>
    rw [List.mem_singleton.mp hr]
    exact Outbound.short_data (Nat.two_pow_pos 24)

/-! ## The wire -/

section

variable {E : Deflate}

theorem compressLoop_calls {fuel : Nat} {z z' : E.State} {input out out' : Bytes}
    (h : compressLoop E fuel z input out = some (z', out')) :
    ∃ wrote, out' = out ++ wrote ∧ Calls E z input z' wrote := by
  induction fuel generalizing z input out with
  | zero => cases h
  | succ fuel ih =>
    rw [compressLoop] at h
    rcases hcall : E.compress z input BUFFER with ⟨z₁, read, wrote⟩
    rw [hcall] at h
    dsimp only at h
    have hlast : some (z₁, out ++ wrote) = some (z', out') →
        ∃ wrote, out' = out ++ wrote ∧ Calls E z input z' wrote := by
      intro heq
      obtain ⟨rfl, rfl⟩ := Prod.mk.inj (Option.some.inj heq)
      exact ⟨wrote ++ [], by rw [List.append_nil], .call hcall .none⟩
    split_ifs at h
    · exact hlast h
    · exact hlast h
    · obtain ⟨wrote', rfl, hcalls⟩ := ih h
      exact ⟨wrote ++ wrote', List.append_assoc _ _ _, .call hcall hcalls⟩

/-- The header block of a SYN_REPLY. -/
def replyBlock : Frame → Option Bytes
  | .synReply _ _ block => some block
  | _ => none

def replyBlocks (log : List (Entry Task Outbound Frame)) : List Bytes :=
  log.filterMap fun e => replyBlock e.item

/-- The frame is the one that is asked for; what the block of a SYN_REPLY is depends on the
compressor. -/
def Outbound.IsFrame : Outbound → Frame → Prop
  | .synReply id, f => ∃ block, f = .synReply id 0 block
  | .data id flags bytes, f => f = .data id flags bytes
  | .rst id status, f => f = .rstStream id status
  | .ping id, f => f = .ping id

/-- What the log says about the frames, about the compressor and about the lengths. -/
theorem encoded_frames {b : Nat → Nat} (hE : Bounded E b)
    (hb : 4 + b (serializeHeaders []).length < 2 ^ 24)
    {log : List (Entry Task Outbound Frame)} {z : E.State}
    (h : Encoded (encodeFrame E) E.new log z) :
    Compressions E (replyBlocks log) z ∧ Flushed E z ∧ ∀ e ∈ log, e.request.IsFrame e.item ∧
      (e.request.Short → e.item.payloadLength < 2 ^ 24) := by
  induction h with
  | nil => exact ⟨.new, .new, fun _ he => absurd he List.not_mem_nil⟩
  | @snoc log z z' t fuel r f _ hf ih =>
    obtain ⟨hblocks, hflushed, hframes⟩ := ih
    have hlog (hframe : r.IsFrame f) (hlast : r.Short → f.payloadLength < 2 ^ 24) :
        ∀ e : Entry Task Outbound Frame, e ∈ log ++ [⟨t, r, f⟩] → e.request.IsFrame e.item ∧
          (e.request.Short → e.item.payloadLength < 2 ^ 24) := by
      intro e he
      rcases List.mem_append.mp he with hold | hnew
      · exact hframes e hold
      · obtain rfl := List.mem_singleton.mp hnew
        exact ⟨hframe, hlast⟩
    have hplain (hf : replyBlock f = none) : replyBlocks (log ++ [⟨t, r, f⟩]) = replyBlocks log := by
      simp [replyBlocks, hf]
    cases r with
    | synReply id =>
      obtain ⟨⟨z₁, block⟩, hblock, heq⟩ := Option.map_eq_some_iff.mp hf
      obtain ⟨rfl, rfl⟩ := Prod.mk.inj heq
      obtain ⟨wrote, hwrote, hcalls⟩ := compressLoop_calls hblock
      rw [List.nil_append] at hwrote
      subst hwrote
      have hle := hE _ _ _ _ hflushed hcalls
      refine ⟨?_, .block hflushed hblock, hlog ⟨block, rfl⟩ fun _ => ?_⟩
      · have happend : replyBlocks (log ++ [⟨t, .synReply id, .synReply id 0 block⟩]) =
            replyBlocks log ++ [block] := by
          simp [replyBlocks, replyBlock]
        rw [happend]
        exact .block hblocks hblock
      · show 4 + block.length < 2 ^ 24
        omega
    | data id flags data =>
      obtain ⟨rfl, rfl⟩ := Prod.mk.inj (Option.some.inj hf)
      rw [hplain rfl]
      exact ⟨hblocks, hflushed, hlog rfl fun hshort => hshort id flags data rfl⟩
    | rst id status =>
      obtain ⟨rfl, rfl⟩ := Prod.mk.inj (Option.some.inj hf)
      rw [hplain rfl]
      exact ⟨hblocks, hflushed, hlog rfl fun _ => (by decide : 8 < 2 ^ 24)⟩
    | ping id =>
      obtain ⟨rfl, rfl⟩ := Prod.mk.inj (Option.some.inj hf)
      rw [hplain rfl]
      exact ⟨hblocks, hflushed, hlog rfl fun _ => (by decide : 4 < 2 ^ 24)⟩

end

/-- What is on the wire, when the frames were written in the order of the log. -/
structure OnWire (E : Deflate) (s : Guarded.State Task Site Outbound Frame UInt8 E.State)
    (log : List (Entry Task Outbound Frame)) : Prop where
  whole : (∀ t, (s.phase t).left = []) → s.wire = bytesOf Frame.serialize log
  /-- In the middle of a frame, the rest of it is still to be written, by the task whose frame it
  is. -/
  partly : ∀ t, (s.phase t).left ≠ [] →
    s.wire ++ (s.phase t).left = bytesOf Frame.serialize log ∧
      ∃ e, log.getLast? = some e ∧ e.task = t ∧ (s.phase t).left <:+ e.item.serialize
  exact : ∀ e ∈ log, e.item.payloadLength < 2 ^ 24 ∧
    lengthField e.item.serialize = e.item.payloadLength ∧
    e.item.serialize.length = 8 + e.item.payloadLength
  /-- A frame is the one that was asked for. -/
  frames : ∀ e ∈ log, e.request.IsFrame e.item
  /-- What a task asks for is written, in its order, or still to go. -/
  asked : ∀ t, s.asked t = requestsOf t log ++ (s.phase t).pending Site.frames
  order : ∀ t, itemsOf t log = s.wrote t
  encoded : Encoded (encodeFrame E) E.new log s.codec
  blocks : Compressions E (replyBlocks log) s.codec

/-- **Frames are written whole**: in every run of the tasks of a connection there is one order of
the frames that is the wire's, that of each task and that of the compressor. -/
theorem writer_atomic (E : Deflate) (loop : Loop) {b : Nat → Nat} (hE : Bounded E b)
    (hb : 4 + b (serializeHeaders []).length < 2 ^ 24) {ls : List (Guarded.Label Task Site Nat)}
    {s : Guarded.State Task Site Outbound Frame UInt8 E.State}
    (hrun : run (Guarded.step (writer E loop)) (Guarded.init E.new) ls = some s) :
    ∃ log, OnWire E s log := by
  obtain ⟨log, sites, h⟩ := logged_run hrun
  obtain ⟨hblocks, -, hframes⟩ := encoded_frames hE hb h.encoded
  refine ⟨log, h.whole, fun t hleft => ⟨(h.held t (Phase.inside_of_left hleft)).1, h.partly t hleft⟩,
    fun e he => ?_, fun e he => (hframes e he).1, h.asked, fun t => (h.wrote t).symm, h.encoded,
    hblocks⟩
  obtain ⟨site, hsite, hrequest⟩ := h.request_mem he
  have hlt := (hframes e he).2 (Site.short (h.passed site hsite) hrequest)
  obtain ⟨hfield, hlen⟩ := Frame.lengthField_serialize hlt
  exact ⟨hlt, hfield, hfield ▸ hlen⟩

/-! ### One connection -/

/-- An engine that writes what `zlib` does for the block of the empty list, first with the header of
the stream; it only writes to a buffer that has room for all of it. -/
def emptyBlocks : Deflate where
  State := Bool
  new := true
  compress fresh input n :=
    if input = [] ∨ n < 16 then (fresh, 0, [])
    else
      (false, input.length,
        if fresh then
          [0x78, 0xbb, 0xe3, 0xc6, 0xa7, 0xc2, 0x02, 0xa6, 0x23, 0x06, 0x00, 0x00, 0x00, 0x00, 0xff, 0xff]
        else [0x02, 0x01, 0x00, 0x00, 0x00, 0x00, 0xff, 0xff])

theorem emptyBlocks_calls {z z' : emptyBlocks.State} {input out : Bytes}
    (h : Calls emptyBlocks z input z' out) :
    (input = [] → out = []) ∧ out.length ≤ 16 := by
  induction h with
  | none => exact ⟨fun _ => rfl, Nat.zero_le _⟩
  | @call z z₁ z' input wrote out read hcall _ ih =>
    simp only [emptyBlocks] at hcall
    split_ifs at hcall with hnone
    · obtain ⟨-, rfl, rfl⟩ := hcall
      rwa [List.drop_zero] at ih
    all_goals
      obtain ⟨-, rfl, rfl⟩ := hcall
      rw [ih.1 (List.drop_length)]
      exact ⟨fun hinput => (hnone (.inl hinput)).elim, by decide⟩

theorem emptyBlocks_bounded : Bounded emptyBlocks fun _ => 16 := by
  intro z z' input out _ hcalls
  exact (emptyBlocks_calls hcalls).2

/-- The pump waits for the mutex while the read loop writes a SYN_REPLY, and then writes in pieces.
-/
def replyRun : List (Guarded.Label Task Site Nat) :=
  [.enter (.reply 1), .lock .readLoop, .enter (.output .stdout 1 [104, 105]), .encode .readLoop 2,
    .put .readLoop 20, .put .readLoop 8, .flush .readLoop, .unlock .readLoop, .lock (.output .stdout),
    .encode (.output .stdout) 0, .put (.output .stdout) 3]

theorem writer_atomic_reply : ∃ s log,
    run (Guarded.step (writer emptyBlocks .runExec)) (Guarded.init emptyBlocks.new) replyRun = some s ∧
      s.wire.length = 31 ∧ OnWire emptyBlocks s log := by
  have h := @writer_atomic emptyBlocks .runExec (fun _ => 16) emptyBlocks_bounded (by decide)
    replyRun _ rfl
  obtain ⟨log, hwire⟩ := h
  exact ⟨_, log, rfl, rfl, hwire⟩

/-! ## The drivers -/

/-- What was written was written at sites. -/
def AtSites (loop : Loop) (out : List Outbound) : Prop :=
  ∃ sites : List Site, (∀ site ∈ sites, site.allowed loop = true) ∧ out = sites.flatMap Site.frames

theorem AtSites.nil (loop : Loop) : AtSites loop [] :=
  ⟨[], fun _ hx => absurd hx List.not_mem_nil, rfl⟩

theorem AtSites.snoc {loop : Loop} {out : List Outbound} (h : AtSites loop out) (site : Site)
    (hsite : site.allowed loop = true) : AtSites loop (out ++ site.frames) := by
  obtain ⟨sites, hall, heq⟩ := h
  refine ⟨sites ++ [site], fun x hx => ?_, ?_⟩
  · rcases List.mem_append.mp hx with hold | hnew
    · exact hall x hold
    · rw [List.mem_singleton.mp hnew]
      exact hsite
  · rw [heq, List.flatMap_append, List.flatMap_singleton]

namespace Exec

/-- What the pumps are about to write fits into their buffer. -/
def Buffered (s : State) : Prop :=
  ∀ o id chunk, s.pumps o = some (.sending id chunk) → 0 < chunk.length ∧ chunk.length ≤ 8192

variable {cfg : Config} {s s' : State} {l : Label}

theorem taskStep_pumpRead {o : Output} {n : Nat} (h : taskStep cfg s (.pumpRead o n) = some s') :
    n ≤ 8192 := by
  unfold taskStep at h
  dsimp only at h
  split at h
  · split at h
    · rename_i hn
      exact hn.2.1
    · cases h
  · cases h

theorem pumpRead_le {o : Output} {n : Nat} (h : step cfg s (.pumpRead o n) = some s') : n ≤ 8192 := by
  have hlive : s.main ≠ .done := fun hdone => by
    rw [show step cfg s (.pumpRead o n) = none from if_pos hdone] at h
    cases h
  rw [show step cfg s (.pumpRead o n) = taskStep cfg s (.pumpRead o n) from if_neg hlive] at h
  exact taskStep_pumpRead h

theorem Buffered.update {o : Output} {p : Option Pump} (h : Buffered s)
    (hp : ∀ id chunk, p = some (.sending id chunk) → 0 < chunk.length ∧ chunk.length ≤ 8192)
    (hpumps : s'.pumps = Function.update s.pumps o p) : Buffered s' := by
  intro o' id chunk hs
  rw [hpumps, Function.update_apply] at hs
  split_ifs at hs
  · exact hp id chunk hs
  · exact h o' id chunk hs

theorem atSites_step (hbuffered : Buffered s) (h : AtSites .runExec s.out)
    (hstep : step cfg s l = some s') : Buffered s' ∧ AtSites .runExec s'.out := by
  cases step_cases hstep with
  | @ping id => exact ⟨hbuffered, h.snoc (.ping id) rfl⟩
  | @reply id => exact ⟨hbuffered, h.snoc (.reply id) rfl⟩
  | @finish exit stdout stderr error => exact ⟨hbuffered, h.snoc (.finish exit stdout stderr error) rfl⟩
  | spawn => exact ⟨hbuffered.update (fun _ _ he => by cases he) rfl, h⟩
  | @pumpRead o n id hpump hn hbuf =>
    have hle := pumpRead_le hstep
    refine ⟨hbuffered.update (fun id' chunk he => ?_) rfl, h⟩
    obtain ⟨rfl, rfl⟩ := Pump.sending.inj (Option.some.inj he)
    have hlen : (s.world.taken o n).length = n := by
      rw [World.taken, List.length_take, Nat.min_eq_left hbuf]
    omega
  | @pumpSend o id bytes hpump =>
    obtain ⟨hpos, hle⟩ := hbuffered o id bytes hpump
    refine ⟨hbuffered.update (fun _ _ he => by cases he) rfl, h.snoc (.output o id bytes) ?_⟩
    exact Bool.and_eq_true_iff.mpr ⟨decide_eq_true hpos, decide_eq_true hle⟩
  | pumpFail => exact ⟨hbuffered.update (fun _ _ he => by cases he) rfl, h⟩
  | pumpEof => exact ⟨hbuffered.update (fun _ _ he => by cases he) rfl, h⟩
  | _ => exact ⟨hbuffered, h⟩

/-- **What `run_exec` writes at once is what one site writes.** -/
theorem out_sites (cfg : Config) (w : World) {ls : List Label} {s : State}
    (hrun : run (step cfg) (init cfg w) ls = some s) : AtSites .runExec s.out := by
  have h : Buffered s ∧ AtSites .runExec s.out :=
    invariant_run (I := fun s => Buffered s ∧ AtSites .runExec s.out) (P := fun _ _ => True)
      (fun _ _ _ h _ hstep => atSites_step h.1 h.2 hstep)
      ⟨fun _ _ _ he => (by cases he), .nil _⟩ (Along.trivial _ _) hrun
  exact h.2

end Exec

namespace Portforward

/-- What a pump reads fits into its buffer. -/
def Label.Buffered (l : Label) : Prop :=
  ∀ c bytes, l = .fromTcp c bytes → bytes.length ≤ 8192

variable {s s' : State} {l : Label}

theorem atSites_step (h : AtSites .runPortforward s.out) (hl : l.Buffered)
    (hstep : step s l = some s') : AtSites .runPortforward s'.out := by
  cases step_cases hstep with
  | @opened id hdr hpc =>
    have hout : (synStream s id hdr).out = s.out ++ [.synReply id] := by
      unfold synStream
      split <;> rfl
    rw [hout]
    exact h.snoc (.reply id) rfl
  | @data id flags bytes hpc =>
    have hout : (data s id flags bytes).out = s.out := by
      unfold data
      split <;> rfl
    rw [hout]
    exact h
  | @ping id => exact h.snoc (.ping id) rfl
  | @dialed id key ok hpc =>
    unfold dialed
    split
    · exact h
    · rename_i pair hpair
      cases ok with
      | true => exact h
      | false => exact h.snoc (.refusal id pair.errorStream) rfl
  | @fromTcp c bytes habort hpump hbytes =>
    refine h.snoc (.tcp c bytes) ?_
    exact Bool.and_eq_true_iff.mpr
      ⟨decide_eq_true (List.length_pos_iff.mpr hbytes), decide_eq_true (hl c bytes rfl)⟩
  | @eofTcp c => exact h.snoc (.tcpEnd c) rfl
  | _ => exact h

/-- **What `run_portforward` writes at once is what one site writes**, when no read gives more than
the buffer holds. -/
theorem out_sites {ls : List Label} {s : State}
    (hls : Along step (fun _ l => l.Buffered) init ls) (hrun : run step init ls = some s) :
    AtSites .runPortforward s.out :=
  invariant_run (I := fun s => AtSites .runPortforward s.out)
    (fun _ _ _ h hl hstep => atSites_step h hl hstep) (.nil _) hls hrun

end Portforward

end LightrCri.Spdy

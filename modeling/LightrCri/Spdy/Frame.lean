import LightrCri.Foundations.BigEndian
import Mathlib.Data.Nat.Bitwise

/-!
# SPDY/3.1 frames

The framing of a SPDY connection: `parseFrame` takes a frame from the front of a buffer and
`Frame.serialize` writes one. Header blocks stay compressed here.

* `Frame.parse_serialize`: a frame whose fields fit is parsed back from what it is serialized to,
  whatever follows.
* `fits_of_parseFrame`: what is parsed fits, and takes no more than the buffer holds.
-/

namespace LightrCri.Spdy

open Foundations

abbrev Bytes := List UInt8

/-! ## Constants -/

def SPDY_VERSION : UInt16 := 3

def TYPE_SYN_STREAM : UInt16 := 1
def TYPE_SYN_REPLY : UInt16 := 2
def TYPE_RST_STREAM : UInt16 := 3
def TYPE_SETTINGS : UInt16 := 4
def TYPE_PING : UInt16 := 6
def TYPE_GOAWAY : UInt16 := 7
def TYPE_HEADERS : UInt16 := 8
def TYPE_WINDOW_UPDATE : UInt16 := 9

def FLAG_FIN : UInt8 := 0x01

def RST_REFUSED_STREAM : UInt32 := 3

/-! ## Frames -/

/-- A parsed frame. -/
inductive Frame
  | synStream (streamId assocStreamId : UInt32) (priority flags : UInt8) (headerBlock : Bytes)
  | synReply (streamId : UInt32) (flags : UInt8) (headerBlock : Bytes)
  | rstStream (streamId status : UInt32)
  | settings (payload : Bytes)
  | ping (id : UInt32)
  | goAway (lastGoodStreamId status : UInt32)
  | headers (streamId : UInt32) (flags : UInt8) (headerBlock : Bytes)
  | windowUpdate (streamId delta : UInt32)
  | data (streamId : UInt32) (flags : UInt8) (data : Bytes)
  deriving DecidableEq, Repr

/-- The outcome of a parse attempt. -/
inductive ParseResult
  /-- A frame and the number of bytes it took. -/
  | frame (f : Frame) (n : Nat)
  | needMore
  | error (e : String)
  deriving DecidableEq, Repr

/-- `u32::from_be_bytes` of the first four bytes. -/
def beU32 (b : Bytes) : UInt32 := UInt32.ofNat (ofBE (b.take 4))

/-- `u32::to_be_bytes`. -/
def toBeBytes (x : UInt32) : Bytes := toBE 4 x.toNat

/-- The control frame of a type, from its flags and payload. -/
def parseControl (ftype : UInt16) (flags : UInt8) (payload : Bytes) : Except String Frame :=
  if ftype = TYPE_SYN_STREAM then
    if payload.length < 10 then .error "short SYN_STREAM"
    else
      .ok (.synStream (beU32 payload &&& 0x7fffffff) (beU32 (payload.drop 4) &&& 0x7fffffff)
        (payload.getD 8 0 >>> 5) flags (payload.drop 10))
  else if ftype = TYPE_SYN_REPLY then
    if payload.length < 4 then .error "short SYN_REPLY"
    else .ok (.synReply (beU32 payload &&& 0x7fffffff) flags (payload.drop 4))
  else if ftype = TYPE_RST_STREAM then
    if payload.length < 8 then .error "short RST_STREAM"
    else .ok (.rstStream (beU32 payload &&& 0x7fffffff) (beU32 (payload.drop 4)))
  else if ftype = TYPE_SETTINGS then .ok (.settings payload)
  else if ftype = TYPE_PING then
    if payload.length < 4 then .error "short PING"
    else .ok (.ping (beU32 payload))
  else if ftype = TYPE_GOAWAY then
    if payload.length < 8 then .error "short GOAWAY"
    else .ok (.goAway (beU32 payload &&& 0x7fffffff) (beU32 (payload.drop 4)))
  else if ftype = TYPE_HEADERS then
    if payload.length < 4 then .error "short HEADERS"
    else .ok (.headers (beU32 payload &&& 0x7fffffff) flags (payload.drop 4))
  else if ftype = TYPE_WINDOW_UPDATE then
    if payload.length < 8 then .error "short WINDOW_UPDATE"
    else
      .ok (.windowUpdate (beU32 payload &&& 0x7fffffff) (beU32 (payload.drop 4) &&& 0x7fffffff))
  else .error ("unknown control frame type " ++ toString ftype.toNat)

/-- Take one frame from the front of a buffer. -/
def parseFrame (buf : Bytes) : ParseResult :=
  match buf with
  | b0 :: b1 :: b2 :: b3 :: flags :: b5 :: b6 :: b7 :: rest =>
    let length := (b5.toUInt32 <<< 16 ||| b6.toUInt32 <<< 8 ||| b7.toUInt32).toNat
    let total := 8 + length
    if buf.length < total then .needMore
    else
      let payload := rest.take length
      if b0 &&& 0x80 = 0 then
        .frame (.data (beU32 [b0, b1, b2, b3] &&& 0x7fffffff) flags payload) total
      else
        let version := (b0 &&& 0x7f).toUInt16 <<< 8 ||| b1.toUInt16
        if version = SPDY_VERSION then
          match parseControl (b2.toUInt16 <<< 8 ||| b3.toUInt16) flags payload with
          | .ok f => .frame f total
          | .error e => .error e
        else .error ("unsupported SPDY version " ++ toString version.toNat)
  | _ => .needMore

/-- The three bytes of a length, the higher ones cut off. -/
def lengthBytes (length : Nat) : Bytes :=
  [UInt8.ofNat (length >>> 16), UInt8.ofNat (length >>> 8), UInt8.ofNat length]

/-- The header of a control frame. -/
def controlHeader (ftype : UInt16) (flags : UInt8) (length : Nat) : Bytes :=
  [(0x80 : UInt8) ||| (SPDY_VERSION >>> 8).toUInt8, (SPDY_VERSION &&& 0xff).toUInt8,
    (ftype >>> 8).toUInt8, ftype.toUInt8, flags] ++ lengthBytes length

/-- Write a frame. -/
def Frame.serialize : Frame → Bytes
  | .synReply id flags block =>
    controlHeader TYPE_SYN_REPLY flags (4 + block.length) ++ toBeBytes (id &&& 0x7fffffff) ++ block
  | .synStream id assoc priority flags block =>
    controlHeader TYPE_SYN_STREAM flags (10 + block.length) ++ toBeBytes (id &&& 0x7fffffff) ++
      toBeBytes (assoc &&& 0x7fffffff) ++ [priority <<< 5, 0] ++ block
  | .headers id flags block =>
    controlHeader TYPE_HEADERS flags (4 + block.length) ++ toBeBytes (id &&& 0x7fffffff) ++ block
  | .rstStream id status =>
    controlHeader TYPE_RST_STREAM 0 8 ++ toBeBytes (id &&& 0x7fffffff) ++ toBeBytes status
  | .ping id => controlHeader TYPE_PING 0 4 ++ toBeBytes id
  | .goAway last status =>
    controlHeader TYPE_GOAWAY 0 8 ++ toBeBytes (last &&& 0x7fffffff) ++ toBeBytes status
  | .settings payload => controlHeader TYPE_SETTINGS 0 payload.length ++ payload
  | .windowUpdate id delta =>
    controlHeader TYPE_WINDOW_UPDATE 0 8 ++ toBeBytes (id &&& 0x7fffffff) ++
      toBeBytes (delta &&& 0x7fffffff)
  | .data id flags payload =>
    toBeBytes (id &&& 0x7fffffff) ++ [flags] ++ lengthBytes payload.length ++ payload

/-! ## Bytes and bits -/

theorem toNat_lengthOr (b5 b6 b7 : UInt8) :
    (b5.toUInt32 <<< 16 ||| b6.toUInt32 <<< 8 ||| b7.toUInt32).toNat = ofBE [b5, b6, b7] := by
  have h5 : b5.toNat < 256 := b5.toNat_lt
  have h6 : b6.toNat < 256 := b6.toNat_lt
  have h7 : b7.toNat < 256 := b7.toNat_lt
  have hhigh : (b5.toNat <<< 16 ||| b6.toNat <<< 8) = (b5.toNat * 256 + b6.toNat) <<< 8 := by
    rw [← Nat.shiftLeft_add_eq_or_of_lt (by rw [Nat.shiftLeft_eq]; omega)]
    simp only [Nat.shiftLeft_eq]
    ring
  have hall : (b5.toNat <<< 16 ||| b6.toNat <<< 8 ||| b7.toNat) =
      (b5.toNat * 256 + b6.toNat) * 256 + b7.toNat := by
    rw [hhigh, ← Nat.shiftLeft_add_eq_or_of_lt (by omega), Nat.shiftLeft_eq]
  simp [ofBE, Nat.shiftLeft_eq] at hall ⊢
  rw [Nat.mod_eq_of_lt (by omega), Nat.mod_eq_of_lt (by omega), hall]

theorem toUInt16_or (x : UInt16) : (x >>> 8).toUInt8.toUInt16 <<< 8 ||| x.toUInt8.toUInt16 = x := by
  apply UInt16.toNat_inj.mp
  have hx : x.toNat < 65536 := x.toNat_lt
  have hor : (x.toNat / 256) <<< 8 ||| x.toNat % 256 = x.toNat := by
    rw [← Nat.shiftLeft_add_eq_or_of_lt (by omega), Nat.shiftLeft_eq]
    omega
  simp [Nat.shiftLeft_eq, Nat.shiftRight_eq_div_pow] at hor ⊢
  rw [Nat.mod_eq_of_lt (by omega), Nat.mod_eq_of_lt (by omega), hor]

theorem toNat_and_mask (x : UInt32) : (x &&& 0x7fffffff).toNat = x.toNat % 2 ^ 31 := by
  rw [UInt32.toNat_and]
  exact Nat.and_two_pow_sub_one_eq_mod x.toNat 31

theorem and_mask_of_lt {x : UInt32} (h : x.toNat < 2 ^ 31) : x &&& 0x7fffffff = x := by
  apply UInt32.toNat_inj.mp
  rw [toNat_and_mask, Nat.mod_eq_of_lt h]

theorem and_control_bit {b : UInt8} (h : b.toNat < 128) : b &&& 0x80 = 0 := by
  apply UInt8.toNat_inj.mp
  rw [UInt8.toNat_and]
  have := Nat.and_two_pow b.toNat 7
  rw [Nat.testBit_lt_two_pow h] at this
  simpa using this

theorem priority_shift {p : UInt8} (h : p.toNat < 8) : p <<< 5 >>> 5 = p := by
  apply UInt8.toNat_inj.mp
  simp [Nat.shiftLeft_eq, Nat.shiftRight_eq_div_pow]
  omega

theorem toNat_shiftRight_five (p : UInt8) : (p >>> 5).toNat < 8 := by
  have hp : p.toNat < 256 := p.toNat_lt
  simp [Nat.shiftRight_eq_div_pow]
  omega

@[simp] theorem length_toBeBytes (x : UInt32) : (toBeBytes x).length = 4 := length_toBE 4 _

theorem beU32_toBeBytes (x : UInt32) (rest : Bytes) : beU32 (toBeBytes x ++ rest) = x := by
  have hx : x.toNat < 256 ^ 4 := x.toNat_lt
  rw [beU32, List.take_append_of_le_length (by simp), List.take_of_length_le (by simp), toBeBytes,
    ofBE_toBE_of_lt hx, UInt32.ofNat_toNat]

theorem lengthBytes_eq (n : Nat) : lengthBytes n = toBE 3 n := by
  simp [lengthBytes, toBE, Nat.shiftRight_eq_div_pow, Nat.div_div_eq_div_mul]

theorem toNat_lengthBytes {n : Nat} (h : n < 2 ^ 24) :
    ((UInt8.ofNat (n >>> 16)).toUInt32 <<< 16 ||| (UInt8.ofNat (n >>> 8)).toUInt32 <<< 8 |||
      (UInt8.ofNat n).toUInt32).toNat = n := by
  rw [toNat_lengthOr]
  show ofBE (lengthBytes n) = n
  rw [lengthBytes_eq, ofBE_toBE_of_lt h]

/-! ## Frames that fit -/

/-- The length that the header of a frame gives its payload. -/
def Frame.payloadLength : Frame → Nat
  | .synStream _ _ _ _ block => 10 + block.length
  | .synReply _ _ block => 4 + block.length
  | .rstStream _ _ => 8
  | .settings payload => payload.length
  | .ping _ => 4
  | .goAway _ _ => 8
  | .headers _ _ block => 4 + block.length
  | .windowUpdate _ _ => 8
  | .data _ _ payload => payload.length

/-- The fields of 31 bits are below `2 ^ 31`, and the priority is below 8. -/
def Frame.fieldsFit : Frame → Prop
  | .synStream id assoc priority _ _ =>
    id.toNat < 2 ^ 31 ∧ assoc.toNat < 2 ^ 31 ∧ priority.toNat < 8
  | .synReply id _ _ => id.toNat < 2 ^ 31
  | .rstStream id _ => id.toNat < 2 ^ 31
  | .settings _ => True
  | .ping _ => True
  | .goAway last _ => last.toNat < 2 ^ 31
  | .headers id _ _ => id.toNat < 2 ^ 31
  | .windowUpdate id delta => id.toNat < 2 ^ 31 ∧ delta.toNat < 2 ^ 31
  | .data id _ _ => id.toNat < 2 ^ 31

/-- The fields of the frame fit into the bits they have on the wire. -/
structure Frame.Fits (f : Frame) : Prop where
  fields : f.fieldsFit
  length : f.payloadLength < 2 ^ 24

/-! ## Round trip -/

theorem beU32_toBeBytes' (x : UInt32) : beU32 (toBeBytes x) = x := by
  have := beU32_toBeBytes x []
  rwa [List.append_nil] at this

theorem drop_toBeBytes (x : UInt32) (rest : Bytes) : (toBeBytes x ++ rest).drop 4 = rest := by
  rw [List.drop_append_of_le_length (by simp), List.drop_of_length_le (by simp), List.nil_append]

/-- The payload of a control frame is what follows its header. -/
theorem parseFrame_controlHeader (ftype : UInt16) (flags : UInt8) {payload : Bytes}
    (h : payload.length < 2 ^ 24) (rest : Bytes) :
    parseFrame (controlHeader ftype flags payload.length ++ (payload ++ rest)) =
      match parseControl ftype flags payload with
      | .ok f => .frame f (8 + payload.length)
      | .error e => .error e := by
  have hlen := toNat_lengthBytes h
  simp only [controlHeader, lengthBytes, List.cons_append, List.nil_append, parseFrame, hlen]
  have htotal : ¬ (payload ++ rest).length + 1 + 1 + 1 + 1 + 1 + 1 + 1 + 1 < 8 + payload.length := by
    rw [List.length_append]
    omega
  rw [toUInt16_or]
  simp only [List.length_cons, if_neg htotal, List.take_left]
  rw [if_neg (by decide), if_pos (by decide)]

/-- A control frame: the type, the flags and the payload that its serialization has. -/
def Frame.control : Frame → Option (UInt16 × UInt8 × Bytes)
  | .synStream id assoc priority flags block =>
    some (TYPE_SYN_STREAM, flags, toBeBytes (id &&& 0x7fffffff) ++
      (toBeBytes (assoc &&& 0x7fffffff) ++ ([priority <<< 5, 0] ++ block)))
  | .synReply id flags block =>
    some (TYPE_SYN_REPLY, flags, toBeBytes (id &&& 0x7fffffff) ++ block)
  | .rstStream id status =>
    some (TYPE_RST_STREAM, 0, toBeBytes (id &&& 0x7fffffff) ++ toBeBytes status)
  | .settings payload => some (TYPE_SETTINGS, 0, payload)
  | .ping id => some (TYPE_PING, 0, toBeBytes id)
  | .goAway last status =>
    some (TYPE_GOAWAY, 0, toBeBytes (last &&& 0x7fffffff) ++ toBeBytes status)
  | .headers id flags block =>
    some (TYPE_HEADERS, flags, toBeBytes (id &&& 0x7fffffff) ++ block)
  | .windowUpdate id delta =>
    some (TYPE_WINDOW_UPDATE, 0,
      toBeBytes (id &&& 0x7fffffff) ++ toBeBytes (delta &&& 0x7fffffff))
  | .data _ _ _ => none

theorem Frame.serialize_of_control {f : Frame} {ftype : UInt16} {flags : UInt8} {payload : Bytes}
    (h : f.control = some (ftype, flags, payload)) :
    f.serialize = controlHeader ftype flags payload.length ++ payload ∧
      f.payloadLength = payload.length := by
  cases f <;> simp only [Frame.control, Option.some.injEq, Prod.mk.injEq, reduceCtorEq] at h <;>
    obtain ⟨rfl, rfl, rfl⟩ := h
  case synStream id assoc priority fl block =>
    have hlen : 10 + block.length = (toBeBytes (id &&& 0x7fffffff) ++
        (toBeBytes (assoc &&& 0x7fffffff) ++ ([priority <<< 5, 0] ++ block))).length := by
      simp
      omega
    refine ⟨?_, hlen⟩
    rw [← hlen]
    simp [Frame.serialize]
  all_goals simp [Frame.serialize, Frame.payloadLength]

/-- The payload that a control frame is written with is parsed back. -/
theorem parseControl_of_control {f : Frame} {ftype : UInt16} {flags : UInt8} {payload : Bytes}
    (h : f.control = some (ftype, flags, payload)) (hf : f.fieldsFit) :
    parseControl ftype flags payload = .ok f := by
  cases f <;> simp only [Frame.control, Option.some.injEq, Prod.mk.injEq, reduceCtorEq] at h <;>
    obtain ⟨rfl, rfl, rfl⟩ := h
  case synStream id assoc priority fl block =>
    obtain ⟨hid, hassoc, hpriority⟩ := hf
    rw [and_mask_of_lt hid, and_mask_of_lt hassoc]
    have hdrop : (toBeBytes id ++ (toBeBytes assoc ++ ([priority <<< 5, 0] ++ block))).drop 10 =
        block := by
      rw [← List.append_assoc, ← List.append_assoc]
      exact List.drop_left' (by simp)
    have hget : (toBeBytes id ++ (toBeBytes assoc ++ ([priority <<< 5, 0] ++ block))).getD 8 0 =
        priority <<< 5 := by
      rw [← List.append_assoc, List.getD_append_right _ _ _ _ (by simp)]
      simp
    have hlen : ¬ (toBeBytes id ++ (toBeBytes assoc ++ ([priority <<< 5, 0] ++ block))).length <
        10 := by
      simp
      omega
    rw [parseControl, if_pos rfl, if_neg hlen, hdrop, hget, priority_shift hpriority,
      drop_toBeBytes, beU32_toBeBytes, beU32_toBeBytes, and_mask_of_lt hid, and_mask_of_lt hassoc]
  case windowUpdate id delta =>
    obtain ⟨hid, hdelta⟩ := hf
    rw [and_mask_of_lt hid, and_mask_of_lt hdelta]
    simp [parseControl, TYPE_SYN_STREAM, TYPE_SYN_REPLY, TYPE_RST_STREAM, TYPE_SETTINGS, TYPE_PING,
      TYPE_GOAWAY, TYPE_HEADERS, TYPE_WINDOW_UPDATE, beU32_toBeBytes, beU32_toBeBytes',
      and_mask_of_lt hid, and_mask_of_lt hdelta]
  case settings => rfl
  case ping id =>
    simp [parseControl, TYPE_SYN_STREAM, TYPE_SYN_REPLY, TYPE_RST_STREAM, TYPE_SETTINGS, TYPE_PING,
      beU32_toBeBytes']
  all_goals
    rw [and_mask_of_lt hf]
    simp [parseControl, TYPE_SYN_STREAM, TYPE_SYN_REPLY, TYPE_RST_STREAM, TYPE_SETTINGS, TYPE_PING,
      TYPE_GOAWAY, TYPE_HEADERS, beU32_toBeBytes, beU32_toBeBytes', and_mask_of_lt hf]

theorem parseFrame_data {id : UInt32} (hid : id.toNat < 2 ^ 31) (flags : UInt8) {payload : Bytes}
    (h : payload.length < 2 ^ 24) (rest : Bytes) :
    parseFrame (toBeBytes id ++ ([flags] ++ (lengthBytes payload.length ++ (payload ++ rest)))) =
      .frame (.data id flags payload) (8 + payload.length) := by
  have hlen := toNat_lengthBytes h
  have hbytes : toBeBytes id = [UInt8.ofNat (id.toNat / 256 / 256 / 256),
      UInt8.ofNat (id.toNat / 256 / 256), UInt8.ofNat (id.toNat / 256), UInt8.ofNat id.toNat] := by
    simp [toBeBytes, toBE]
  have hcontrol : UInt8.ofNat (id.toNat / 256 / 256 / 256) &&& 0x80 = 0 := by
    refine and_control_bit ?_
    rw [UInt8.toNat_ofNat']
    omega
  have hid' := beU32_toBeBytes' id
  rw [hbytes] at hid' ⊢
  simp only [lengthBytes, List.cons_append, List.nil_append, parseFrame, hlen]
  have htotal : ¬ (payload ++ rest).length + 1 + 1 + 1 + 1 + 1 + 1 + 1 + 1 < 8 + payload.length := by
    rw [List.length_append]
    omega
  simp only [List.length_cons, if_neg htotal, List.take_left, hcontrol, if_true, hid',
    and_mask_of_lt hid]

/-- **A frame that fits is parsed back**, whatever follows. -/
theorem Frame.parse_serialize {f : Frame} (hf : f.Fits) (rest : Bytes) :
    parseFrame (f.serialize ++ rest) = .frame f f.serialize.length := by
  cases hc : f.control with
  | none =>
    cases f with
    | data id flags payload =>
      have hid : id.toNat < 2 ^ 31 := hf.fields
      have hlen : (Frame.data id flags payload).serialize.length = 8 + payload.length := by
        simp [Frame.serialize, lengthBytes]
        omega
      rw [hlen, ← parseFrame_data hid flags hf.length rest]
      simp [Frame.serialize, and_mask_of_lt hid]
    | _ => cases hc
  | some c =>
    obtain ⟨ftype, flags, payload⟩ := c
    obtain ⟨hser, hlength⟩ := Frame.serialize_of_control hc
    have hpayload : payload.length < 2 ^ 24 := hlength ▸ hf.length
    rw [hser, List.append_assoc, parseFrame_controlHeader ftype flags hpayload rest,
      parseControl_of_control hc hf.fields, List.length_append]
    rfl

/-! ## What is parsed -/

theorem toNat_and_mask_lt (x : UInt32) : (x &&& 0x7fffffff).toNat < 2 ^ 31 := by
  rw [toNat_and_mask]
  exact Nat.mod_lt _ (Nat.two_pow_pos 31)

/-- What is parsed in either branch of a choice. -/
theorem ite_ok {c Q : Prop} {_ : Decidable c} {x y : Except String Frame} {f : Frame}
    (hx : c → x = .ok f → Q) (hy : ¬c → y = .ok f → Q) (h : (if c then x else y) = .ok f) : Q := by
  by_cases hc : c
  · exact hx hc ((if_pos hc).symm.trans h)
  · exact hy hc ((if_neg hc).symm.trans h)

theorem fits_of_parseControl {ftype : UInt16} {flags : UInt8} {payload : Bytes} {f : Frame}
    (h : parseControl ftype flags payload = .ok f) :
    f.fieldsFit ∧ f.payloadLength ≤ payload.length := by
  revert h
  unfold parseControl
  refine
    ite_ok (fun _ => ite_ok (fun _ h => by cases h) fun hlen h => ?synStream) fun _ =>
    ite_ok (fun _ => ite_ok (fun _ h => by cases h) fun hlen h => ?synReply) fun _ =>
    ite_ok (fun _ => ite_ok (fun _ h => by cases h) fun hlen h => ?rstStream) fun _ =>
    ite_ok (fun _ h => ?settings) fun _ =>
    ite_ok (fun _ => ite_ok (fun _ h => by cases h) fun hlen h => ?ping) fun _ =>
    ite_ok (fun _ => ite_ok (fun _ h => by cases h) fun hlen h => ?goAway) fun _ =>
    ite_ok (fun _ => ite_ok (fun _ h => by cases h) fun hlen h => ?headers) fun _ =>
    ite_ok (fun _ => ite_ok (fun _ h => by cases h) fun hlen h => ?windowUpdate) fun _ h => by
      cases h
  all_goals
    obtain rfl := Except.ok.inj h
    simp only [Frame.fieldsFit, Frame.payloadLength, List.length_drop, toNat_and_mask_lt,
      toNat_shiftRight_five, true_and, and_true]
    omega

/-- **What is parsed fits**, and takes no more than the buffer holds. -/
theorem fits_of_parseFrame {b : Bytes} {f : Frame} {n : Nat} (h : parseFrame b = .frame f n) :
    n ≤ b.length ∧ f.Fits := by
  unfold parseFrame at h
  split at h
  · rename_i b0 b1 b2 b3 flags b5 b6 b7 rest
    simp only at h
    split at h
    · cases h
    · rename_i htotal
      have hlt : ofBE [b5, b6, b7] < 2 ^ 24 := by
        have hbytes := ofBE_lt [b5, b6, b7]
        simpa using hbytes
      rw [← toNat_lengthOr] at hlt
      have hpayload : (rest.take (b5.toUInt32 <<< 16 ||| b6.toUInt32 <<< 8 |||
          b7.toUInt32).toNat).length < 2 ^ 24 :=
        lt_of_le_of_lt (List.length_take_le _ _) hlt
      split at h
      · obtain ⟨rfl, rfl⟩ := ParseResult.frame.inj h
        exact ⟨Nat.le_of_not_lt htotal, toNat_and_mask_lt _, hpayload⟩
      · split at h
        · split at h
          · rename_i f' hf
            obtain ⟨rfl, rfl⟩ := ParseResult.frame.inj h
            obtain ⟨hfields, hlength⟩ := fits_of_parseControl hf
            exact ⟨Nat.le_of_not_lt htotal, hfields, lt_of_le_of_lt hlength hpayload⟩
          · cases h
        · cases h
  · cases h

/-- **The frame format.** A frame that fits is parsed back from its serialization, whatever bytes
follow; and what is parsed from any buffer fits, takes no more than the buffer, and is parsed back
from its own serialization. -/
theorem frame_format :
    (∀ (f : Frame) (suffix : Bytes), f.Fits →
      parseFrame (f.serialize ++ suffix) = .frame f f.serialize.length) ∧
    ∀ (b : Bytes) (f : Frame) (n : Nat), parseFrame b = .frame f n →
      n ≤ b.length ∧ f.Fits ∧ parseFrame f.serialize = .frame f f.serialize.length := by
  refine ⟨fun f suffix hf => Frame.parse_serialize hf suffix, fun b f n h => ?_⟩
  obtain ⟨hn, hf⟩ := fits_of_parseFrame h
  have hself := Frame.parse_serialize hf []
  rw [List.append_nil] at hself
  exact ⟨hn, hf, hself⟩

/-- A last DATA frame, with another byte behind it. -/
theorem frame_format_fin :
    parseFrame ((Frame.data 5 FLAG_FIN [1, 2]).serialize ++ [9]) =
        .frame (.data 5 FLAG_FIN [1, 2]) 10 ∧
      parseFrame (Frame.data 5 FLAG_FIN [1, 2]).serialize = .frame (.data 5 FLAG_FIN [1, 2]) 10 := by
  have hfields : (Frame.data 5 FLAG_FIN [1, 2]).fieldsFit := by
    show (5 : UInt32).toNat < 2 ^ 31
    decide
  have hparse := frame_format.1 (.data 5 FLAG_FIN [1, 2]) [9] ⟨hfields, by decide⟩
  exact ⟨hparse, (frame_format.2 _ _ _ hparse).2.2⟩

end LightrCri.Spdy

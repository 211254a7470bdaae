import LightrCri.Foundations.Incremental
import LightrCri.Spdy.Frame

/-!
# Reading frames

`readFrame` takes frames off a connection that arrives in reads of any size: it tries `parseFrame`
on its buffer, and appends the next read when that needs more. `parseFrame` is an incremental parser
(`incremental_parseFrame`), so what the calls return is the scan of the bytes of the connection,
however they are cut (`frames_of_segments`).

The accesses of `parse_frame` are total in `parseFrame`. In the namespace `Checked` each of them is
an access that panics out of range, as the source has it; none does (`Checked.parseFrame_eq`).
-/

namespace LightrCri.Spdy

open Foundations

/-! ## Checked accesses -/

namespace Checked

/-- `&b[i..j]`, which panics out of range. -/
def slice (b : Bytes) (i j : Nat) : Option Bytes :=
  if i ≤ j ∧ j ≤ b.length then some ((b.take j).drop i) else none

/-- `&b[i..]` -/
def sliceFrom (b : Bytes) (i : Nat) : Option Bytes :=
  if i ≤ b.length then some (b.drop i) else none

def beU32 (b : Bytes) : Option UInt32 := do
  let b0 ← b[0]?
  let b1 ← b[1]?
  let b2 ← b[2]?
  let b3 ← b[3]?
  return Spdy.beU32 [b0, b1, b2, b3]

def parseControl (ftype : UInt16) (flags : UInt8) (payload : Bytes) :
    Option (Except String Frame) :=
  if ftype = TYPE_SYN_STREAM then
    if payload.length < 10 then some (.error "short SYN_STREAM")
    else do
      let streamId ← beU32 (← slice payload 0 4)
      let assocStreamId ← beU32 (← slice payload 4 8)
      let priority ← payload[8]?
      let block ← sliceFrom payload 10
      return .ok (.synStream (streamId &&& 0x7fffffff) (assocStreamId &&& 0x7fffffff)
        (priority >>> 5) flags block)
  else if ftype = TYPE_SYN_REPLY then
    if payload.length < 4 then some (.error "short SYN_REPLY")
    else do
      let streamId ← beU32 (← slice payload 0 4)
      let block ← sliceFrom payload 4
      return .ok (.synReply (streamId &&& 0x7fffffff) flags block)
  else if ftype = TYPE_RST_STREAM then
    if payload.length < 8 then some (.error "short RST_STREAM")
    else do
      let streamId ← beU32 (← slice payload 0 4)
      let status ← beU32 (← slice payload 4 8)
      return .ok (.rstStream (streamId &&& 0x7fffffff) status)
  else if ftype = TYPE_SETTINGS then some (.ok (.settings payload))
  else if ftype = TYPE_PING then
    if payload.length < 4 then some (.error "short PING")
    else do
      let id ← beU32 (← slice payload 0 4)
      return .ok (.ping id)
  else if ftype = TYPE_GOAWAY then
    if payload.length < 8 then some (.error "short GOAWAY")
    else do
      let last ← beU32 (← slice payload 0 4)
      let status ← beU32 (← slice payload 4 8)
      return .ok (.goAway (last &&& 0x7fffffff) status)
  else if ftype = TYPE_HEADERS then
    if payload.length < 4 then some (.error "short HEADERS")
    else do
      let streamId ← beU32 (← slice payload 0 4)
      let block ← sliceFrom payload 4
      return .ok (.headers (streamId &&& 0x7fffffff) flags block)
  else if ftype = TYPE_WINDOW_UPDATE then
    if payload.length < 8 then some (.error "short WINDOW_UPDATE")
    else do
      let streamId ← beU32 (← slice payload 0 4)
      let delta ← beU32 (← slice payload 4 8)
      return .ok (.windowUpdate (streamId &&& 0x7fffffff) (delta &&& 0x7fffffff))
  else some (.error ("unknown control frame type " ++ toString ftype.toNat))

/-- `parse_frame`; `none` is a panic. -/
def parseFrame (buf : Bytes) : Option ParseResult :=
  if buf.length < 8 then some .needMore
  else do
    let b5 ← buf[5]?
    let b6 ← buf[6]?
    let b7 ← buf[7]?
    let length := (b5.toUInt32 <<< 16 ||| b6.toUInt32 <<< 8 ||| b7.toUInt32).toNat
    let total := 8 + length
    if buf.length < total then return .needMore
    else
      let payload ← slice buf 8 total
      let flags ← buf[4]?
      let b0 ← buf[0]?
      if b0 &&& 0x80 = 0 then
        let streamId ← beU32 (← slice buf 0 4)
        return .frame (.data (streamId &&& 0x7fffffff) flags payload) total
      else
        let b1 ← buf[1]?
        let version := (b0 &&& 0x7f).toUInt16 <<< 8 ||| b1.toUInt16
        if version = SPDY_VERSION then
          let b2 ← buf[2]?
          let b3 ← buf[3]?
          match ← parseControl (b2.toUInt16 <<< 8 ||| b3.toUInt16) flags payload with
          | .ok f => return .frame f total
          | .error e => return .error e
        else return .error ("unsupported SPDY version " ++ toString version.toNat)

theorem beU32_slice {b : Bytes} {i : Nat} (h : i + 4 ≤ b.length) :
    (slice b i (i + 4)).bind beU32 = some (Spdy.beU32 (b.drop i)) := by
  have hslice : slice b i (i + 4) = some ((b.drop i).take 4) := by
    rw [slice, if_pos ⟨by omega, h⟩, List.drop_take]
    congr 2
    omega
  have hlen : 4 ≤ (b.drop i).length := by
    rw [List.length_drop]
    omega
  rw [hslice, Option.bind_some]
  match b.drop i, hlen with
  | b0 :: b1 :: b2 :: b3 :: rest, _ => rfl

theorem sliceFrom_of_le {b : Bytes} {i : Nat} (h : i ≤ b.length) :
    sliceFrom b i = some (b.drop i) :=
  if_pos h

/-- A choice that is made alike with the checked accesses and without. -/
theorem ite_eq_some {α : Type*} {c : Prop} {_ : Decidable c} {x y : Option α} {a b : α}
    (hx : c → x = some a) (hy : ¬c → y = some b) :
    (if c then x else y) = some (if c then a else b) := by
  by_cases h : c
  · rw [if_pos h, if_pos h, hx h]
  · rw [if_neg h, if_neg h, hy h]

theorem parseControl_eq (ftype : UInt16) (flags : UInt8) (payload : Bytes) :
    parseControl ftype flags payload = some (Spdy.parseControl ftype flags payload) := by
  have hid (h : 4 ≤ payload.length) : (slice payload 0 4).bind beU32 = some (Spdy.beU32 payload) :=
    beU32_slice (i := 0) (by omega)
  have hword (h : 8 ≤ payload.length) :
      (slice payload 4 8).bind beU32 = some (Spdy.beU32 (payload.drop 4)) :=
    beU32_slice (i := 4) h
  unfold parseControl Spdy.parseControl
  refine
    ite_eq_some (fun _ => ite_eq_some (fun _ => rfl) fun hlen => ?synStream) fun _ =>
    ite_eq_some (fun _ => ite_eq_some (fun _ => rfl) fun hlen => ?synReply) fun _ =>
    ite_eq_some (fun _ => ite_eq_some (fun _ => rfl) fun hlen => ?rstStream) fun _ =>
    ite_eq_some (fun _ => rfl) fun _ =>
    ite_eq_some (fun _ => ite_eq_some (fun _ => rfl) fun hlen => ?ping) fun _ =>
    ite_eq_some (fun _ => ite_eq_some (fun _ => rfl) fun hlen => ?goAway) fun _ =>
    ite_eq_some (fun _ => ite_eq_some (fun _ => rfl) fun hlen => ?headers) fun _ =>
    ite_eq_some (fun _ => ite_eq_some (fun _ => rfl) fun hlen => ?windowUpdate) fun _ => rfl
  all_goals
    simp only [bind, pure, ← Option.bind_assoc]
    rw [hid (by omega), Option.bind_some]
  case synStream =>
    have hpriority : payload[8]? = some (payload.getD 8 0) := by
      rw [List.getD_eq_getElem _ _ (by omega), List.getElem?_eq_getElem]
    rw [hword (by omega), Option.bind_some, hpriority, Option.bind_some,
      sliceFrom_of_le (by omega), Option.bind_some]
  case synReply | headers => rw [sliceFrom_of_le (by omega), Option.bind_some]
  case rstStream | goAway | windowUpdate => rw [hword (by omega), Option.bind_some]

/-- **No access is out of range.** -/
theorem parseFrame_eq (buf : Bytes) : parseFrame buf = some (Spdy.parseFrame buf) := by
  unfold parseFrame
  match buf with
  | [] | [_] | [_, _] | [_, _, _] | [_, _, _, _] | [_, _, _, _, _] | [_, _, _, _, _, _]
  | [_, _, _, _, _, _, _] => rfl
  | b0 :: b1 :: b2 :: b3 :: flags :: b5 :: b6 :: b7 :: rest =>
    rw [if_neg (by simp)]
    simp only [bind, pure, List.getElem?_cons_succ, List.getElem?_cons_zero, Option.bind_some]
    rw [Spdy.parseFrame]
    dsimp only
    split
    · rfl
    · rename_i htotal
      have hpayload : slice (b0 :: b1 :: b2 :: b3 :: flags :: b5 :: b6 :: b7 :: rest) 8
          (8 + (b5.toUInt32 <<< 16 ||| b6.toUInt32 <<< 8 ||| b7.toUInt32).toNat) =
          some (rest.take (b5.toUInt32 <<< 16 ||| b6.toUInt32 <<< 8 ||| b7.toUInt32).toNat) := by
        rw [slice, if_pos ⟨by omega, by omega⟩, List.drop_take, Nat.add_sub_cancel_left]
        rfl
      rw [hpayload, Option.bind_some]
      split
      · rfl
      · split
        · rw [parseControl_eq, Option.bind_some]
          cases Spdy.parseControl (b2.toUInt16 <<< 8 ||| b3.toUInt16) flags
            (rest.take (b5.toUInt32 <<< 16 ||| b6.toUInt32 <<< 8 ||| b7.toUInt32).toNat) <;> rfl
        · rfl

end Checked

/-! ## Reading -/

/-- Read one frame. The results are those of the call, the buffer and the reads that remain. A read
of no bytes is the end of the connection, as is the end of the list. -/
def readFrame : Bytes → List (Except String Bytes) →
    Except String (Option Frame) × Bytes × List (Except String Bytes)
  | buf, [] =>
    match parseFrame buf with
    | .frame f n => (.ok (some f), buf.drop n, [])
    | .error e => (.error e, buf, [])
    | .needMore => (.ok none, buf, [])
  | buf, r :: rs =>
    match parseFrame buf with
    | .frame f n => (.ok (some f), buf.drop n, r :: rs)
    | .error e => (.error e, buf, r :: rs)
    | .needMore =>
      match r with
      | .error e => (.error e, buf, rs)
      | .ok tmp => if tmp.isEmpty then (.ok none, buf, rs) else readFrame (buf ++ tmp) rs

/-- The frames of at most so many calls of `readFrame`, until one returns none or an error; `none`
if all of them return a frame. -/
def readFrames : Nat → Bytes → List (Except String Bytes) → Option (List Frame × Except String Unit)
  | 0, _, _ => none
  | calls + 1, buf, rs =>
    match readFrame buf rs with
    | (.ok (some f), buf', rs') => (readFrames calls buf' rs').map fun r => (f :: r.1, r.2)
    | (.ok none, _, _) => some ([], .ok ())
    | (.error e, _, _) => some ([], .error e)

/-- The frames at the front of a list of bytes, up to where `parseFrame` finds no further one: it
needs more bytes, or there is an error. -/
inductive Frames : Bytes → List Frame → Except String Unit → Prop
  | needMore {b : Bytes} : parseFrame b = .needMore → Frames b [] (.ok ())
  | error {b : Bytes} {e : String} : parseFrame b = .error e → Frames b [] (.error e)
  | frame {b : Bytes} {f : Frame} {n : Nat} {fs : List Frame} {w : Except String Unit} :
      parseFrame b = .frame f n → Frames (b.drop n) fs w → Frames b (f :: fs) w

/-! ## `parseFrame` is incremental -/

def attempt (b : Bytes) : Attempt Frame String :=
  match parseFrame b with
  | .frame f n => .item f n
  | .needMore => .more
  | .error e => .error e

/-- The length that the header at the front of a buffer gives. -/
def headerLength (b : Bytes) : Nat := ofBE ((b.drop 5).take 3)

/-- What `parseFrame` says depends only on the bytes of the frame. -/
theorem parseFrame_append {b : Bytes} (h : parseFrame b ≠ .needMore) (c : Bytes) :
    parseFrame (b ++ c) = parseFrame b := by
  match b with
  | [] | [_] | [_, _] | [_, _, _] | [_, _, _, _] | [_, _, _, _, _] | [_, _, _, _, _, _]
  | [_, _, _, _, _, _, _] => exact absurd rfl h
  | b0 :: b1 :: b2 :: b3 :: flags :: b5 :: b6 :: b7 :: rest =>
    simp only [parseFrame, List.cons_append] at h ⊢
    split at h
    · exact absurd rfl h
    · rename_i htotal
      have hlen : (b5.toUInt32 <<< 16 ||| b6.toUInt32 <<< 8 ||| b7.toUInt32).toNat ≤ rest.length := by
        simp only [List.length_cons] at htotal
        omega
      have htotal' : ¬ (b0 :: b1 :: b2 :: b3 :: flags :: b5 :: b6 :: b7 :: (rest ++ c)).length <
          8 + (b5.toUInt32 <<< 16 ||| b6.toUInt32 <<< 8 ||| b7.toUInt32).toNat := by
        simp only [List.length_cons, List.length_append]
        omega
      rw [if_neg htotal', if_neg htotal, List.take_append_of_le_length hlen]

/-- A frame takes the header and as many bytes as that says. -/
theorem consumed_of_parseFrame {b : Bytes} {f : Frame} {n : Nat} (h : parseFrame b = .frame f n) :
    n = 8 + headerLength b ∧ n ≤ b.length := by
  refine ⟨?_, (fits_of_parseFrame h).1⟩
  unfold parseFrame at h
  split at h
  · rename_i b0 b1 b2 b3 flags b5 b6 b7 rest
    have hlength : (b5.toUInt32 <<< 16 ||| b6.toUInt32 <<< 8 ||| b7.toUInt32).toNat =
        headerLength (b0 :: b1 :: b2 :: b3 :: flags :: b5 :: b6 :: b7 :: rest) :=
      toNat_lengthOr b5 b6 b7
    simp only [hlength] at h
    repeat' split at h
    all_goals
      first
      | exact (ParseResult.frame.inj h).2.symm
      | cases h
  · cases h

theorem attempt_item {b : Bytes} {f : Frame} {n : Nat} :
    attempt b = .item f n ↔ parseFrame b = .frame f n := by
  unfold attempt
  cases parseFrame b <;> simp

theorem attempt_more {b : Bytes} : attempt b = .more ↔ parseFrame b = .needMore := by
  unfold attempt
  cases parseFrame b <;> simp

theorem attempt_error {b : Bytes} {e : String} :
    attempt b = .error e ↔ parseFrame b = .error e := by
  unfold attempt
  cases parseFrame b <;> simp

theorem incremental_parseFrame : Incremental attempt where
  pos h := by
    obtain ⟨hn, hle⟩ := consumed_of_parseFrame (attempt_item.mp h)
    exact ⟨by omega, hle⟩
  item h c := by
    have hparse := attempt_item.mp h
    exact attempt_item.mpr ((parseFrame_append (by rw [hparse]; exact nofun) c).trans hparse)
  error h c := by
    have hparse := attempt_error.mp h
    exact attempt_error.mpr ((parseFrame_append (by rw [hparse]; exact nofun) c).trans hparse)

/-! ## Frames of a connection -/

/-- How reading ends, as `Result`. -/
def result : Ending String → Except String Unit
  | .closed => .ok ()
  | .failed e => .error e

theorem frames_iff {b : Bytes} {fs : List Frame} {w : Except String Unit} :
    Frames b fs w ↔ ∃ w', Scan attempt b fs w' ∧ result w' = w := by
  constructor
  · intro h
    induction h with
    | needMore h => exact ⟨_, .more (attempt_more.mpr h), rfl⟩
    | error h => exact ⟨_, .error (attempt_error.mpr h), rfl⟩
    | frame h _ ih =>
      obtain ⟨w', hscan, hw⟩ := ih
      exact ⟨w', .item (attempt_item.mpr h) hscan, hw⟩
  · rintro ⟨w', hscan, rfl⟩
    induction hscan with
    | more h => exact .needMore (attempt_more.mp h)
    | error h => exact .error (attempt_error.mp h)
    | item h _ ih => exact .frame (attempt_item.mp h) ih

/-- A call that returns a frame has read on until the frame is there, and takes it off the buffer.
-/
theorem readFrame_frame {buf buf' : Bytes} {rs rs' : List (Except String Bytes)} {f : Frame}
    (h : readFrame buf rs = (.ok (some f), buf', rs')) :
    ∃ (taken : List Bytes) (n : Nat), rs = taken.map .ok ++ rs' ∧
      parseFrame (buf ++ taken.flatten) = .frame f n ∧ buf' = (buf ++ taken.flatten).drop n := by
  induction rs generalizing buf with
  | nil =>
    rw [readFrame] at h
    cases hparse : parseFrame buf with
    | frame g n =>
      rw [hparse] at h
      obtain ⟨rfl, rfl, rfl⟩ : g = f ∧ buf.drop n = buf' ∧ [] = rs' := by simpa using h
      exact ⟨[], n, rfl, by simpa using hparse, by simp⟩
    | needMore | error e => simp [hparse] at h
  | cons r rs ih =>
    rw [readFrame.eq_def] at h
    dsimp only at h
    cases hparse : parseFrame buf with
    | frame g n =>
      rw [hparse] at h
      obtain ⟨rfl, rfl, rfl⟩ : g = f ∧ buf.drop n = buf' ∧ r :: rs = rs' := by simpa using h
      exact ⟨[], n, rfl, by simpa using hparse, by simp⟩
    | error e => simp [hparse] at h
    | needMore =>
      rw [hparse] at h
      cases r with
      | error e => simp at h
      | ok tmp =>
        dsimp only at h
        split at h
        · simp at h
        · obtain ⟨taken, n, rfl, hframe, hbuf⟩ := ih h
          rw [List.append_assoc] at hframe hbuf
          exact ⟨tmp :: taken, n, rfl, hframe, hbuf⟩

/-- `readFrame` on reads that do not fail is the reader of the parser. -/
theorem readFrame_eq (buf : Bytes) (cs : List Bytes) :
    readFrame buf (cs.map .ok) =
      ((readItem attempt buf cs).1.elim (fun f => .ok (some f)) fun w => (result w).map fun _ => none,
        (readItem attempt buf cs).2.1, (readItem attempt buf cs).2.2.map .ok) := by
  induction cs generalizing buf with
  | nil =>
    rw [List.map_nil, readFrame, readItem, attempt]
    cases parseFrame buf <;> rfl
  | cons c cs ih =>
    rw [List.map_cons, readFrame, readItem, attempt]
    cases parseFrame buf with
    | frame f n => rfl
    | error e => rfl
    | needMore =>
      dsimp only
      split
      · rfl
      · exact ih (buf ++ c)

theorem readFrames_eq (calls : Nat) (buf : Bytes) (cs : List Bytes) :
    readFrames calls buf (cs.map .ok) =
      (readItems attempt calls buf cs).map fun r => (r.1, result r.2) := by
  induction calls generalizing buf cs with
  | zero => rfl
  | succ calls ih =>
    rw [readFrames, readItems, readFrame_eq]
    rcases readItem attempt buf cs with ⟨f | w, buf', cs'⟩
    · dsimp only [Sum.elim_inl]
      rw [ih, Option.map_map, Option.map_map]
      rfl
    · cases w <;> rfl

/-- **Frames do not depend on the segments they arrive in.** The bytes of a connection have one
sequence of frames at their front and one way it ends, and at most one frame for 8 bytes. Whatever
non-empty reads the bytes arrive in, the calls of `readFrame` return those frames and end that way.
A frame that is returned takes its header and payload off the buffer, and no buffer makes
`parse_frame` index out of range. -/
theorem frames_of_segments :
    (∀ bytes : Bytes, ∃ frames ending, Frames bytes frames ending) ∧
    (∀ (bytes : Bytes) (frames : List Frame) (ending : Except String Unit),
      Frames bytes frames ending → 8 * frames.length ≤ bytes.length ∧
        ∀ segments : List Bytes, (∀ c ∈ segments, c ≠ []) → segments.flatten = bytes →
          ∀ calls, frames.length < calls →
            readFrames calls [] (segments.map .ok) = some (frames, ending)) ∧
    (∀ (buf buf' : Bytes) (rs rs' : List (Except String Bytes)) (f : Frame),
      readFrame buf rs = (.ok (some f), buf', rs') →
        ∃ taken : List Bytes, rs = taken.map .ok ++ rs' ∧
          parseFrame (buf ++ taken.flatten) =
            .frame f (8 + headerLength (buf ++ taken.flatten)) ∧
          buf ++ taken.flatten =
            (buf ++ taken.flatten).take (8 + headerLength (buf ++ taken.flatten)) ++ buf' ∧
          (buf ++ taken.flatten).length = 8 + headerLength (buf ++ taken.flatten) + buf'.length) ∧
    ∀ buf, Checked.parseFrame buf = some (parseFrame buf) := by
  refine ⟨fun bytes => ?_, fun bytes frames ending h => ?_, fun buf buf' rs rs' f h => ?_,
    Checked.parseFrame_eq⟩
  · obtain ⟨frames, w, hscan⟩ := incremental_parseFrame.exists_scan bytes
    exact ⟨frames, result w, frames_iff.mpr ⟨w, hscan, rfl⟩⟩
  · obtain ⟨w, hscan, rfl⟩ := frames_iff.mp h
    refine ⟨?_, fun segments hne hbytes calls hcalls => ?_⟩
    · refine hscan.length_le fun hitem => ?_
      obtain ⟨hn, hle⟩ := consumed_of_parseFrame (attempt_item.mp hitem)
      exact ⟨by omega, hle⟩
    · rw [readFrames_eq, incremental_parseFrame.readItems hscan hcalls hne hbytes]
      rfl
  · obtain ⟨taken, n, hrs, hparse, rfl⟩ := readFrame_frame h
    obtain ⟨rfl, hle⟩ := consumed_of_parseFrame hparse
    refine ⟨taken, hrs, hparse, (List.take_append_drop _ _).symm, ?_⟩
    rw [List.length_drop]
    omega

/-- A PING cut inside its header, and behind it a frame of an unknown version in two reads. -/
theorem frames_of_segments_cut :
    readFrames 2 [] ([[0x80, 3, 0, 6, 0, 0], [0, 4, 0, 0, 0, 7, 0x80, 2, 0], [1, 0, 0, 0, 0]].map
      .ok) = some ([.ping 7], .error "unsupported SPDY version 2") := by
  have hframes : Frames [0x80, 3, 0, 6, 0, 0, 0, 4, 0, 0, 0, 7, 0x80, 2, 0, 1, 0, 0, 0, 0] [.ping 7]
      (.error "unsupported SPDY version 2") :=
    .frame (n := 12) (by decide) (.error (by decide))
  exact (frames_of_segments.2.1 _ _ _ hframes).2 _ (by decide) rfl 2 (by decide)

end LightrCri.Spdy

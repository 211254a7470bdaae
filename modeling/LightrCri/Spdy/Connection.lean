import LightrCri.Spdy.Zlib

/-!
# Reading a connection

The read loops of `run_exec` and `run_portforward`, up to what they do with a frame: how they
dispatch on its type (`runExecArm`, `runPortforwardArm`), and what they decode of a SYN_STREAM.

The client compresses all its header blocks with one zlib stream (`Compressed`), so the decompressor
has to be fed every block. Both loops drop the blocks of SYN_REPLY and HEADERS frames
(`headers_desync`), and a list of more than 1024 pairs is read as the empty list; `contexts_in_step`
says that nothing else goes wrong.
-/

namespace LightrCri.Spdy

open Foundations LightrCri.Stream

/-! ## The loops -/

/-- Which arm of a loop a frame is handled by. -/
inductive Arm
  | synStream (streamId : UInt32) (headerBlock : Bytes)
  | data (streamId : UInt32) (flags : UInt8) (data : Bytes)
  | ping (id : UInt32)
  /-- The loop ends. -/
  | close
  | skip

/-- The read loop of `run_exec`. -/
def runExecArm : Frame → Arm
  | .synStream id _ _ _ block => .synStream id block
  | .data id flags data => .data id flags data
  | .ping id => .ping id
  | .rstStream _ _ => .close
  | .goAway _ _ => .close
  | .settings _ => .skip
  | .windowUpdate _ _ => .skip
  | .headers _ _ _ => .skip
  | .synReply _ _ _ => .skip

/-- The loop of `run_portforward`. -/
def runPortforwardArm : Frame → Arm
  | .synStream id _ _ _ block => .synStream id block
  | .data id flags data => .data id flags data
  | .ping id => .ping id
  | .rstStream _ _ => .close
  | .goAway _ _ => .close
  | _ => .skip

inductive Loop
  | runExec
  | runPortforward

def Loop.arm : Loop → Frame → Arm
  | .runExec => runExecArm
  | .runPortforward => runPortforwardArm

/-- What the body of a loop goes on with: a frame, the header block of a SYN_STREAM decoded. -/
inductive Inbound
  | synStream (streamId : UInt32) (hdr : Headers)
  | data (streamId : UInt32) (flags : UInt8) (data : Bytes)
  | ping (id : UInt32)
  deriving DecidableEq, Repr

/-- What a loop reads next; the frames that both loops skip are left out. -/
inductive Received
  | frame (f : Inbound)
  | rstStream (id : UInt32)
  | goAway
  /-- The end of the transport or an error. -/
  | closed
  deriving DecidableEq, Repr

/-- A frame to the client. -/
inductive Outbound
  | synReply (id : UInt32)
  | data (id : UInt32) (flags : UInt8) (data : Bytes)
  | rst (id : UInt32) (status : UInt32)
  | ping (id : UInt32)
  deriving DecidableEq, Repr

/-- The stream of a frame. -/
def Outbound.stream : Outbound → Option UInt32
  | .synReply id => some id
  | .data id _ _ => some id
  | .rst id _ => some id
  | .ping _ => none

variable (E : Inflate) (dict : Bytes)

/-- What a loop has read, with the blocks that it has fed to its decompressor. -/
structure Reading where
  decomp : HeaderDecompressor E
  fed : List Bytes
  inbound : List Inbound

def Reading.new : Reading E := ⟨HeaderDecompressor.new E, [], []⟩

/-- The list of a SYN_STREAM, empty if it cannot be decoded. -/
def decodeHeaders (fuel : Nat) (decomp : HeaderDecompressor E) (block : Bytes) :
    Option (HeaderDecompressor E × Headers) :=
  (decomp.decompress E dict fuel block).map fun (decomp, res) =>
    (decomp, (res.toOption.bind deserializeHeaders).getD [])

/-- A loop on the frames of a connection, up to its end or that of the frames. -/
def readLoop (loop : Loop) (fuel : Nat) : Reading E → List Frame → Option (Reading E)
  | s, [] => some s
  | s, f :: fs =>
    match loop.arm f with
    | .synStream id block =>
      (decodeHeaders E dict fuel s.decomp block).bind fun (decomp, hdr) =>
        readLoop loop fuel ⟨decomp, s.fed ++ [block], s.inbound ++ [.synStream id hdr]⟩ fs
    | .data id flags data =>
      readLoop loop fuel { s with inbound := s.inbound ++ [.data id flags data] } fs
    | .ping id => readLoop loop fuel { s with inbound := s.inbound ++ [.ping id] } fs
    | .close => some s
    | .skip => readLoop loop fuel s fs

/-! ## The client -/

/-- The frames of a client; with each the name/value list that its header block encodes, if it has
one. -/
abbrev Sent := List (Frame × Headers)

def Frame.headerBlock : Frame → Option Bytes
  | .synStream _ _ _ _ block => some block
  | .synReply _ _ block => some block
  | .headers _ _ block => some block
  | _ => none

def Frame.isSynStream : Frame → Bool
  | .synStream _ _ _ _ _ => true
  | _ => false

/-- The frame ends a loop. -/
def Frame.closes : Frame → Bool
  | .rstStream _ _ => true
  | .goAway _ _ => true
  | _ => false

/-- The header blocks in wire order, with their lists. -/
def blocks (sent : Sent) : List (Bytes × Headers) :=
  sent.filterMap fun x => x.1.headerBlock.map (·, x.2)

/-- The lists of the SYN_STREAMs in wire order. -/
def opened (sent : Sent) : List Headers := (sent.filter (·.1.isSynStream)).map Prod.snd

/-- The frames that a loop receives, up to one that ends it. -/
def received (sent : Sent) : Sent := sent.takeWhile fun x => !x.1.closes

/-- The bytes of the zlib stream of the client. -/
def stream (sent : Sent) : Bytes := ((blocks sent).map Prod.fst).flatten

/-- The client has compressed its lists with one zlib stream, a block for each: a number of blocks
determines as many lists. -/
structure Compressed (text : Bytes → Bytes) (sent : Sent) : Prop where
  fits : ∀ x ∈ blocks sent, FitsU32 x.2
  text : ∀ p, p <+: blocks sent →
    text (p.map Prod.fst).flatten = (p.map fun x => serializeHeaders x.2).flatten

/-! ## The claim -/

def Inbound.hdr : Inbound → Option Headers
  | .synStream _ hdr => some hdr
  | _ => none

/-- Every block received was fed to the decompressor, once and in order, and the list of every
SYN_STREAM is the one that the client encoded. -/
structure InStep {E : Inflate} (sent : Sent) (r : Reading E) : Prop where
  fed : r.fed = (blocks (received sent)).map Prod.fst
  hdr : r.inbound.filterMap Inbound.hdr = opened (received sent)

instance {E : Inflate} (sent : Sent) (r : Reading E) : Decidable (InStep sent r) :=
  decidable_of_iff (_ ∧ _) ⟨fun h => ⟨h.1, h.2⟩, fun h => ⟨h.fed, h.hdr⟩⟩

/-! ## One frame -/

variable {E dict}

theorem arm_eq (loop : Loop) (f : Frame) : loop.arm f = runExecArm f := by
  cases loop <;> cases f <;> rfl

/-- What a loop does with one frame: it decodes a SYN_STREAM, it ends, or it goes on without the
decompressor. -/
theorem readLoop_cons_cases (loop : Loop) (f : Frame) :
    (∃ id block, f.headerBlock = some block ∧ f.isSynStream = true ∧ f.closes = false ∧
        ∀ fuel (s : Reading E) fs, readLoop E dict loop fuel s (f :: fs) =
          (decodeHeaders E dict fuel s.decomp block).bind fun x =>
            readLoop E dict loop fuel
              ⟨x.1, s.fed ++ [block], s.inbound ++ [.synStream id x.2]⟩ fs) ∨
      (f.closes = true ∧ ∀ fuel (s : Reading E) fs,
        readLoop E dict loop fuel s (f :: fs) = some s) ∨
      (f.isSynStream = false ∧ f.closes = false ∧ ∃ inbound,
        inbound.filterMap Inbound.hdr = [] ∧ ∀ fuel (s : Reading E) fs,
          readLoop E dict loop fuel s (f :: fs) =
            readLoop E dict loop fuel { s with inbound := s.inbound ++ inbound } fs) := by
  have hskip (h : runExecArm f = .skip) (fuel : Nat) (s : Reading E) (fs : List Frame) :
      readLoop E dict loop fuel s (f :: fs) =
        readLoop E dict loop fuel { s with inbound := s.inbound ++ [] } fs := by
    rw [readLoop, arm_eq, h, List.append_nil]
  have hclose (h : runExecArm f = .close) (fuel : Nat) (s : Reading E) (fs : List Frame) :
      readLoop E dict loop fuel s (f :: fs) = some s := by
    rw [readLoop, arm_eq, h]
  cases f with
  | synStream id assoc priority flags block =>
    refine Or.inl ⟨id, block, rfl, rfl, rfl, fun fuel s fs => ?_⟩
    rw [readLoop, arm_eq]
    rfl
  | synReply id flags block => exact Or.inr (Or.inr ⟨rfl, rfl, [], rfl, hskip rfl⟩)
  | rstStream id status => exact Or.inr (Or.inl ⟨rfl, hclose rfl⟩)
  | settings payload => exact Or.inr (Or.inr ⟨rfl, rfl, [], rfl, hskip rfl⟩)
  | ping id =>
    refine Or.inr (Or.inr ⟨rfl, rfl, [.ping id], rfl, fun fuel s fs => ?_⟩)
    rw [readLoop, arm_eq]
    rfl
  | goAway id status => exact Or.inr (Or.inl ⟨rfl, hclose rfl⟩)
  | headers id flags block => exact Or.inr (Or.inr ⟨rfl, rfl, [], rfl, hskip rfl⟩)
  | windowUpdate id delta => exact Or.inr (Or.inr ⟨rfl, rfl, [], rfl, hskip rfl⟩)
  | data id flags data =>
    refine Or.inr (Or.inr ⟨rfl, rfl, [.data id flags data], rfl, fun fuel s fs => ?_⟩)
    rw [readLoop, arm_eq]
    rfl

theorem received_cons_of_closes {x : Frame × Headers} {sent : Sent} (h : x.1.closes = true) :
    received (x :: sent) = [] := by
  simp [received, h]

theorem received_cons {x : Frame × Headers} {sent : Sent} (h : x.1.closes = false) :
    received (x :: sent) = x :: received sent := by
  simp [received, h]

/-! ## What is fed -/

/-- The blocks of the SYN_STREAMs. -/
def synBlocks (sent : Sent) : List Bytes :=
  (sent.filter (·.1.isSynStream)).filterMap (·.1.headerBlock)

theorem map_fst_blocks (sent : Sent) :
    (blocks sent).map Prod.fst = sent.filterMap (·.1.headerBlock) := by
  simp [blocks, List.map_filterMap, Function.comp_def]

/-- A loop feeds the blocks of the SYN_STREAMs, whatever the engine makes of them. -/
theorem fed_readLoop {loop : Loop} {fuel : Nat} {sent : Sent} {s r : Reading E}
    (h : readLoop E dict loop fuel s (sent.map Prod.fst) = some r) :
    r.fed = s.fed ++ synBlocks (received sent) := by
  induction sent generalizing s with
  | nil =>
    obtain rfl := Option.some.inj h
    simp [received, synBlocks]
  | cons x sent ih =>
    rw [List.map_cons] at h
    rcases @readLoop_cons_cases E dict loop x.1 with
      ⟨id, block, hblock, hsyn, hclose, hstep⟩ | ⟨hclose, hstep⟩ |
        ⟨hsyn, hclose, inbound, -, hstep⟩
    · rw [hstep] at h
      obtain ⟨y, -, h⟩ := Option.bind_eq_some_iff.mp h
      have hrest := ih h
      rw [hrest, received_cons hclose]
      simp [synBlocks, hsyn, hblock]
    · rw [hstep] at h
      obtain rfl := Option.some.inj h
      simp [received_cons_of_closes hclose, synBlocks]
    · rw [hstep] at h
      have hrest := ih h
      rw [hrest, received_cons hclose]
      simp [synBlocks, hsyn]

/-- Filtering loses nothing of a `filterMap` exactly if what that takes passes the filter. -/
theorem filterMap_filter_eq_iff {α β : Type} {p : α → Bool} {g : α → Option β} {l : List α} :
    (l.filter p).filterMap g = l.filterMap g ↔ ∀ x ∈ l, (g x).isSome → p x = true := by
  induction l with
  | nil => simp
  | cons a l ih =>
    rw [List.forall_mem_cons, ← ih]
    cases hp : p a with
    | true =>
      rw [List.filter_cons_of_pos hp, List.filterMap_cons, List.filterMap_cons]
      cases g a with
      | none => simp
      | some b => simp
    | false =>
      rw [List.filter_cons_of_neg (by simp [hp]), List.filterMap_cons]
      cases g a with
      | none => simp
      | some b =>
        -- the left side is too short
        have hle := ((List.filter_sublist (p := p) (l := l)).filterMap g).length_le
        have hne : (l.filter p).filterMap g ≠ b :: l.filterMap g := by
          intro h
          have hlen := congrArg List.length h
          rw [List.length_cons] at hlen
          omega
        simp [hne]

/-! ## What is decoded -/

theorem decodeHeaders_mono {fuel fuel' : Nat} (hle : fuel ≤ fuel') {d : HeaderDecompressor E}
    {block : Bytes} {x : HeaderDecompressor E × Headers}
    (h : decodeHeaders E dict fuel d block = some x) : decodeHeaders E dict fuel' d block = some x := by
  obtain ⟨y, hy, rfl⟩ := Option.map_eq_some_iff.mp h
  rw [decodeHeaders, HeaderDecompressor.decompress_mono hle hy]
  rfl

theorem readLoop_mono {loop : Loop} {fuel fuel' : Nat} (hle : fuel ≤ fuel') {fs : List Frame}
    {s r : Reading E} (h : readLoop E dict loop fuel s fs = some r) :
    readLoop E dict loop fuel' s fs = some r := by
  induction fs generalizing s with
  | nil => exact h
  | cons f fs ih =>
    rcases @readLoop_cons_cases E dict loop f with
      ⟨id, block, -, -, -, hstep⟩ | ⟨-, hstep⟩ | ⟨-, -, inbound, -, hstep⟩
    · rw [hstep] at h ⊢
      obtain ⟨y, hy, h⟩ := Option.bind_eq_some_iff.mp h
      rw [decodeHeaders_mono hle hy, Option.bind_some]
      exact ih h
    · rw [hstep] at h ⊢
      exact h
    · rw [hstep] at h ⊢
      exact ih h

/-- The list that a loop makes of one that the client has encoded. -/
def guarded (hdr : Headers) : Headers := if MAX_PAIRS < hdr.length then [] else hdr

theorem guarded_eq_self {hdr : Headers} : guarded hdr = hdr ↔ hdr.length ≤ MAX_PAIRS := by
  unfold guarded
  split
  · rename_i hlong
    constructor
    · rintro rfl
      exact Nat.zero_le _
    · intro h
      omega
  · rename_i hshort
    simpa using hshort

section

variable {text : Bytes → Bytes} {sent : Sent}

/-- A synced decompressor decodes the next block. -/
theorem decodeHeaders_correct (hE : Inflates E dict text (stream sent))
    (hclient : Compressed text sent) {p : List (Bytes × Headers)} {block : Bytes} {hdr : Headers}
    (hp : p ++ [(block, hdr)] <+: blocks sent) {d : HeaderDecompressor E}
    (hd : Synced E dict text d (p.map Prod.fst).flatten) :
    ∃ bound, ∀ fuel, bound ≤ fuel → ∃ d',
      decodeHeaders E dict fuel d block = some (d', guarded hdr) ∧
      Synced E dict text d' ((p ++ [(block, hdr)]).map Prod.fst).flatten := by
  have hfed : ((p ++ [(block, hdr)]).map Prod.fst).flatten = (p.map Prod.fst).flatten ++ block := by
    simp
  have hpre : (p.map Prod.fst).flatten ++ block <+: stream sent := by
    obtain ⟨t, ht⟩ := hp
    refine ⟨(t.map Prod.fst).flatten, ?_⟩
    rw [stream, ← ht]
    simp
  obtain ⟨bound, hbound⟩ := decompress_correct hE hd hpre
  refine ⟨bound, fun fuel hfuel => ?_⟩
  obtain ⟨d', out, hout, htext, hsynced⟩ := hbound fuel hfuel
  refine ⟨d', ?_, by rw [hfed]; exact hsynced⟩
  have hold := hclient.text p ((List.prefix_append p _).trans hp)
  have hnew := hclient.text _ hp
  rw [hfed, ← htext, hold, List.map_append, List.flatten_append] at hnew
  have hout' : out = serializeHeaders hdr := by simpa using List.append_cancel_left hnew
  have hfits := hclient.fits _ (hp.subset (List.mem_append_right p (List.mem_singleton_self _)))
  have hlist : (deserializeHeaders out).getD [] = guarded hdr := by
    rw [hout', deserialize_serialize hfits, guarded]
    split <;> rfl
  rw [decodeHeaders, hout]
  exact congrArg some (congrArg (Prod.mk d') hlist)

/-- **The run of a loop that skips no block**: it ends, and every list is decoded to what the guard
lets pass. -/
theorem readLoop_correct (hE : Inflates E dict text (stream sent)) (hclient : Compressed text sent)
    (loop : Loop) {rest : Sent} {p : List (Bytes × Headers)} {s : Reading E}
    (hp : p ++ blocks (received rest) <+: blocks sent)
    (hall : ∀ x ∈ received rest, x.1.headerBlock.isSome → x.1.isSynStream = true)
    (hs : Synced E dict text s.decomp (p.map Prod.fst).flatten) :
    ∃ bound, ∀ fuel, bound ≤ fuel → ∃ r,
      readLoop E dict loop fuel s (rest.map Prod.fst) = some r ∧
      r.inbound.filterMap Inbound.hdr =
        s.inbound.filterMap Inbound.hdr ++ (opened (received rest)).map guarded := by
  induction rest generalizing p s with
  | nil => exact ⟨0, fun fuel _ => ⟨s, rfl, by simp [received, opened]⟩⟩
  | cons x rest ih =>
    rcases @readLoop_cons_cases E dict loop x.1 with
      ⟨id, block, hblock, hsyn, hclose, hstep⟩ | ⟨hclose, hstep⟩ |
        ⟨hsyn, hclose, inbound, hhdr, hstep⟩
    · rw [received_cons hclose] at hp hall ⊢
      have hsplit : blocks (x :: received rest) = (block, x.2) :: blocks (received rest) := by
        simp [blocks, hblock]
      rw [hsplit, List.append_cons] at hp
      obtain ⟨b₁, h₁⟩ := decodeHeaders_correct hE hclient ((List.prefix_append _ _).trans hp) hs
      have hnext (d' : HeaderDecompressor E)
          (hd' : Synced E dict text d' ((p ++ [(block, x.2)]).map Prod.fst).flatten) :=
        @ih (p ++ [(block, x.2)])
          ⟨d', s.fed ++ [block], s.inbound ++ [.synStream id (guarded x.2)]⟩ hp
          (fun y hy => hall y (List.mem_cons_of_mem _ hy)) hd'
      obtain ⟨d₁, hd₁, hsynced₁⟩ := h₁ b₁ (le_refl _)
      obtain ⟨b₂, h₂⟩ := hnext d₁ hsynced₁
      refine ⟨max b₁ b₂, fun fuel hfuel => ?_⟩
      obtain ⟨r, hr, hinbound⟩ := h₂ fuel (le_trans (le_max_right _ _) hfuel)
      refine ⟨r, ?_, ?_⟩
      · rw [List.map_cons, hstep, decodeHeaders_mono (le_trans (le_max_left _ _) hfuel) hd₁]
        exact hr
      · rw [hinbound]
        simp [opened, hsyn, Inbound.hdr]
    · refine ⟨0, fun fuel _ => ⟨s, ?_, ?_⟩⟩
      · rw [List.map_cons, hstep]
      · simp [received_cons_of_closes hclose, opened]
    · rw [received_cons hclose] at hp hall ⊢
      have hnone : x.1.headerBlock = none := by
        by_contra hsome
        have hmem := hall x List.mem_cons_self (Option.isSome_iff_ne_none.mpr hsome)
        rw [hsyn] at hmem
        cases hmem
      have hsplit : blocks (x :: received rest) = blocks (received rest) := by
        simp [blocks, hnone]
      rw [hsplit] at hp
      obtain ⟨bound, hbound⟩ := @ih p { s with inbound := s.inbound ++ inbound } hp
        (fun y hy => hall y (List.mem_cons_of_mem _ hy)) hs
      refine ⟨bound, fun fuel hfuel => ?_⟩
      obtain ⟨r, hr, hinbound⟩ := hbound fuel hfuel
      refine ⟨r, ?_, ?_⟩
      · rw [List.map_cons, hstep]
        exact hr
      · rw [hinbound]
        simp [opened, hsyn, hhdr]

end

end LightrCri.Spdy

import LightrCri.Spdy.Exec
import LightrCri.Foundations.Cuts
import LightrCri.Foundations.Digits

/-!
# Resizes of the terminal

The client writes the sizes of its terminal one after the other to the resize stream. `run_exec`
gives every DATA frame of the stream to `parse_resize` on its own, which parses as many sizes as
there are at the front of the payload and takes the last one. A size that is cut by the end of a
frame is so lost, with all that follow it in the next (`cut_size`): the terminal has the last size
that has arrived, after every frame, exactly if no frame that begins inside a size brings another
one (`resize_framing`).
-/

namespace LightrCri.Spdy.Exec

open Foundations LightrCri.Stream

/-! ## `parse_resize` -/

structure TerminalSize where
  width : UInt16
  height : UInt16
  deriving DecidableEq, Repr

/-- As the client writes it. -/
def TerminalSize.json (sz : TerminalSize) : Bytes :=
  utf8 ("\x7b\"Width\":" ++ toString sz.width.toNat ++ ",\"Height\":" ++ toString sz.height.toNat ++ "\x7d")

/-- The white space of JSON. -/
def isJsonBlank (b : UInt8) : Bool := b = 0x20 ∨ b = 0x09 ∨ b = 0x0a ∨ b = 0x0d

/-- What is relied on of the stream deserializer of `serde_json`, where `sizes` are the values it
gives for a payload before its end or its first error: an object needs no separator behind it, is no
value as long as it is incomplete, and the value of a structure begins, after white space, with a
brace or a bracket. -/
structure Deserializer (sizes : Bytes → List TerminalSize) : Prop where
  nil : sizes [] = []
  object : ∀ sz rest, sizes (TerminalSize.json sz ++ rest) = sz :: sizes rest
  incomplete : ∀ sz p, p <+: TerminalSize.json sz → p ≠ TerminalSize.json sz → sizes p = []
  start : ∀ b rest, isJsonBlank b = false → b ≠ 0x7b → b ≠ 0x5b → sizes (b :: rest) = []

def parseResize (sizes : Bytes → List TerminalSize) (payload : Bytes) : Option TerminalSize :=
  (sizes payload).getLast?

/-! ## The terminal -/

/-- The payloads of the resize stream that the read loop has read, each with the size of the
terminal after it. -/
abbrev Resizes := List (Bytes × Option TerminalSize)

def Resizes.window (g : Resizes) : Option TerminalSize := g.getLast?.bind Prod.snd

/-- The arm for a DATA frame of the resize stream. -/
def resize (sizes : Bytes → List TerminalSize) (pty : Bool) (window : Option TerminalSize) (data : Bytes) :
    Option TerminalSize :=
  match parseResize sizes data with
  | some sz => if pty then some sz else window
  | none => window

/-- The frame that the read loop takes is one of the resize stream. -/
def resizing (s : State) : Label → Option Bytes
  | .readLoop =>
    match s.readLoop, s.inbox with
    | .reading, .frame (.data id _ data) :: _ => if s.roles id = some RESIZE then some data else none
    | _, _ => none
  | _ => none

def recordResize (sizes : Bytes → List TerminalSize) (cfg : Config) (g : Resizes) (s : State) (l : Label)
    (_ : State) : Resizes :=
  match resizing s l with
  | some data => g ++ [(data, resize sizes (cfg.session.any StreamSession.ptyMaster) g.window data)]
  | none => g

/-! ## The bytes of a size -/

/-- What is behind the first brace. -/
def TerminalSize.body (sz : TerminalSize) : List Char :=
  "\"Width\":".toList ++ (Nat.toDigits 10 sz.width.toNat ++ (",\"Height\":".toList ++
    (Nat.toDigits 10 sz.height.toNat ++ "\x7d".toList)))

/-- The byte is ASCII, and no value of a structure begins with it. -/
def inner (c : Char) : Bool :=
  decide (c.toNat < 128) && !isJsonBlank (UInt8.ofNat c.toNat) && UInt8.ofNat c.toNat != 0x7b &&
    UInt8.ofNat c.toNat != 0x5b

theorem inner_digit {c : Char} {n : Nat} (hc : c ∈ Nat.toDigits 10 n) : inner c = true := by
  have hdigit := Nat.isDigit_of_mem_toDigits (by omega) (by omega) hc
  have hall : ∀ k : Fin 10, inner (Char.ofNat (48 + k)) = true := by decide
  have hlow : 48 ≤ c.toNat ∧ c.toNat ≤ 57 := by
    simp only [Char.isDigit, Bool.and_eq_true, decide_eq_true_eq] at hdigit
    exact hdigit
  have hk := hall ⟨c.toNat - 48, by omega⟩
  have heq : 48 + (c.toNat - 48) = c.toNat := by omega
  dsimp only at hk
  rwa [heq, Char.ofNat_toNat] at hk

theorem inner_of_mem_body {sz : TerminalSize} {c : Char} (hc : c ∈ sz.body) : inner c = true := by
  have hwidth : "\"Width\":".toList.all inner = true := by decide
  have hheight : ",\"Height\":".toList.all inner = true := by decide
  have hend : "\x7d".toList.all inner = true := by decide
  rcases List.mem_append.mp hc with hc | hc
  · exact List.all_eq_true.mp hwidth c hc
  · rcases List.mem_append.mp hc with hc | hc
    · exact inner_digit hc
    · rcases List.mem_append.mp hc with hc | hc
      · exact List.all_eq_true.mp hheight c hc
      · rcases List.mem_append.mp hc with hc | hc
        · exact inner_digit hc
        · exact List.all_eq_true.mp hend c hc

theorem toList_size (w h : Nat) : ("\x7b\"Width\":" ++ toString w ++ ",\"Height\":" ++ toString h ++
    "\x7d").toList = '\x7b' :: ("\"Width\":".toList ++ (Nat.toDigits 10 w ++ (",\"Height\":".toList ++
      (Nat.toDigits 10 h ++ "\x7d".toList)))) := by
  have hbrace : ∀ cs : List Char, "\x7b\"Width\":".toList ++ cs = '\x7b' :: ("\"Width\":".toList ++ cs) :=
    fun _ => rfl
  rw [← hbrace, String.toList_append, String.toList_append, String.toList_append, String.toList_append,
    Nat.toString_eq_repr, Nat.toString_eq_repr, Nat.toList_repr, Nat.toList_repr, List.append_assoc,
    List.append_assoc, List.append_assoc]

theorem json_eq (sz : TerminalSize) : sz.json = 0x7b :: sz.body.map fun c => UInt8.ofNat c.toNat := by
  have hascii : ∀ c ∈ '\x7b' :: sz.body, c.toNat < 128 := by
    intro c hc
    rcases List.mem_cons.mp hc with rfl | hc
    · decide
    · have hinner := inner_of_mem_body hc
      unfold inner at hinner
      simp only [Bool.and_eq_true, decide_eq_true_eq] at hinner
      exact hinner.1.1.1
  have hbytes := utf8_ascii hascii
  have hbody : ("\x7b\"Width\":" ++ toString sz.width.toNat ++ ",\"Height\":" ++
      toString sz.height.toNat ++ "\x7d").toList = '\x7b' :: sz.body := toList_size _ _
  rw [← hbody, String.ofList_toList, hbody, List.map_cons] at hbytes
  exact hbytes

theorem json_ne_nil (sz : TerminalSize) : sz.json ≠ [] := by
  rw [json_eq]
  exact List.cons_ne_nil _ _

/-- No size begins inside another one. -/
theorem Deserializer.parses {sizes : Bytes → List TerminalSize} (h : Deserializer sizes) :
    Parses TerminalSize.json sizes where
  nil := h.nil
  object := h.object
  incomplete := h.incomplete
  inside sz b hb rest := by
    rw [json_eq, List.tail_cons] at hb
    obtain ⟨c, hc, rfl⟩ := List.mem_map.mp hb
    have hinner := inner_of_mem_body hc
    unfold inner at hinner
    simp only [Bool.and_eq_true, Bool.not_eq_true', bne_iff_ne] at hinner
    exact h.start _ rest hinner.1.1.2 hinner.1.2 hinner.2

/-! ## Runs -/

/-- How many bytes of the stream were read. -/
def Resizes.received (g : Resizes) : Nat := (g.map Prod.fst).flatten.length

/-- The last of the sizes that has arrived. -/
def Resizes.current (xs : List TerminalSize) (g : Resizes) : Option TerminalSize :=
  (complete TerminalSize.json xs g.received).getLast?

/-- The terminal has the last size that was found in the payloads, after each of them. -/
def Resizes.Tracks (sizes : Bytes → List TerminalSize) (g : Resizes) : Prop :=
  ∀ g', g' <+: g → Resizes.window g' = seen sizes (g'.map Prod.fst)

theorem resize_eq (sizes : Bytes → List TerminalSize) (window : Option TerminalSize) (data : Bytes) :
    resize sizes true window data = (sizes data).getLast?.or window := by
  unfold resize parseResize
  cases (sizes data).getLast? with
  | none => rfl
  | some sz => rfl

theorem Resizes.Tracks.concat {sizes : Bytes → List TerminalSize} {g : Resizes} (h : g.Tracks sizes)
    (data : Bytes) : Resizes.Tracks sizes (g ++ [(data, resize sizes true g.window data)]) := by
  intro g' hg'
  rcases List.prefix_concat_iff.mp hg' with rfl | hg'
  · rw [window, List.getLast?_concat, List.map_append]
    show resize sizes true g.window data = seen sizes (g.map Prod.fst ++ [data])
    rw [seen_append, resize_eq, h g (List.prefix_refl g)]
  · exact h g' hg'

theorem tracks_run {sizes : Bytes → List TerminalSize} {cfg : Config} {world : World} {ls : List Label}
    {g : Resizes} {s : State} (hpty : cfg.session.any StreamSession.ptyMaster = true)
    (hrun : run (withHistory (step cfg) (recordResize sizes cfg)) ([], init cfg world) ls = some (g, s)) :
    g.Tracks sizes := by
  refine invariant_run (I := fun p => Resizes.Tracks sizes p.1) (P := fun _ _ => True) ?_ ?_
    (Along.trivial _ _) hrun
  · intro p l p' htracks _ hstep
    obtain ⟨-, hhistory⟩ := withHistory_eq_some.mp hstep
    rw [hhistory, recordResize]
    cases resizing p.2 l with
    | none => exact htracks
    | some data =>
      rw [hpty]
      exact htracks.concat data
  · intro g' hg'
    rw [List.prefix_nil.mp hg']
    rfl

/-- **Resizes and framing**: where the client writes sizes, and the session has a terminal, this has
after every frame the last size that has arrived, exactly if no frame that begins inside a size
brings one that is another than the last before. -/
theorem resize_framing {sizes : Bytes → List TerminalSize} (hsizes : Deserializer sizes) {cfg : Config}
    (hpty : cfg.session.any StreamSession.ptyMaster = true) {world : World} {ls : List Label} {g : Resizes}
    {s : State}
    (hrun : run (withHistory (step cfg) (recordResize sizes cfg)) ([], init cfg world) ls = some (g, s))
    {xs : List TerminalSize} (hstream : (g.map Prod.fst).flatten <+: xs.flatMap TerminalSize.json) :
    (∀ g', g' <+: g → Resizes.window g' = Resizes.current xs g') ↔
      ∀ g' e, g' ++ [e] <+: g → ¬ Between TerminalSize.json xs (Resizes.received g') →
        Resizes.current xs (g' ++ [e]) = Resizes.current xs g' := by
  have htracks := tracks_run hpty hrun
  have hseen := hsizes.parses.seen_iff json_ne_nil hstream
  constructor
  · intro hall g' e hg' hnot
    have hcs : g'.map Prod.fst ++ [e.1] <+: g.map Prod.fst := by
      have hmap := hg'.map Prod.fst
      rwa [List.map_append] at hmap
    have hcond := hseen.mp (fun cs' hcs' => ?_) _ _ hcs hnot
    · unfold Resizes.current Resizes.received
      rw [List.map_append]
      exact hcond
    · obtain ⟨g', hg', rfl⟩ := List.prefix_map_iff.mp hcs'
      rw [← htracks g' hg', hall g' hg']
      rfl
  · intro hcond g' hg'
    rw [htracks g' hg']
    refine hseen.mpr (fun cs' c hcs hnot => ?_) _ (hg'.map Prod.fst)
    obtain ⟨g₁, hg₁, heq⟩ := List.prefix_map_iff.mp hcs
    obtain ⟨g'', last, rfl, rfl, hlast⟩ := List.map_eq_append_iff.mp heq.symm
    obtain ⟨e, rfl, rfl⟩ := List.map_eq_singleton_iff.mp hlast
    have hsame := hcond g'' e hg₁ hnot
    unfold Resizes.current Resizes.received at hsame
    rwa [List.map_append] at hsame

/-! ## A deserializer -/

def strip (pre cs : List Char) : Option (List Char) :=
  if pre.isPrefixOf cs then some (cs.drop pre.length) else none

/-- A number without leading zeros. -/
def readU16 (cs : List Char) : Option (UInt16 × List Char) :=
  let ds := cs.takeWhile Char.isDigit
  let n := UInt16.ofNat (Nat.ofDigitChars 10 ds 0)
  if Nat.toDigits 10 n.toNat = ds then some (n, cs.dropWhile Char.isDigit) else none

/-- A size as the client writes it. -/
def readSize (cs : List Char) : Option (TerminalSize × List Char) :=
  (strip "\x7b\"Width\":".toList cs).bind fun cs =>
    (readU16 cs).bind fun w =>
      (strip ",\"Height\":".toList w.2).bind fun cs =>
        (readU16 cs).bind fun h =>
          (strip "\x7d".toList h.2).bind fun cs => some (⟨w.1, h.1⟩, cs)

theorem strip_eq_some {pre cs rest : List Char} : strip pre cs = some rest ↔ cs = pre ++ rest := by
  rw [strip, Option.ite_none_right_eq_some, List.isPrefixOf_iff_prefix, Option.some_inj]
  constructor
  · rintro ⟨⟨t, rfl⟩, rfl⟩
    rw [List.drop_left]
  · rintro rfl
    exact ⟨List.prefix_append _ _, List.drop_left⟩

theorem eq_of_readU16 {cs rest : List Char} {n : UInt16} (h : readU16 cs = some (n, rest)) :
    cs = Nat.toDigits 10 n.toNat ++ rest := by
  unfold readU16 at h
  dsimp only at h
  split at h
  · rename_i hdigits
    obtain ⟨rfl, rfl⟩ := Prod.mk.inj (Option.some.inj h)
    rw [hdigits, List.takeWhile_append_dropWhile]
  · cases h

/-- What is behind a number does not begin with a digit. -/
theorem readU16_append (n : UInt16) {c : Char} (hc : c.isDigit = false) (rest : List Char) :
    readU16 (Nat.toDigits 10 n.toNat ++ c :: rest) = some (n, c :: rest) := by
  have hdigits : ∀ d ∈ Nat.toDigits 10 n.toNat, d.isDigit = true := fun d hd =>
    Nat.isDigit_of_mem_toDigits (by omega) (by omega) hd
  have htake : (Nat.toDigits 10 n.toNat ++ c :: rest).takeWhile Char.isDigit = Nat.toDigits 10 n.toNat := by
    rw [List.takeWhile_append_of_pos hdigits, List.takeWhile_cons_of_neg (by rw [hc]; decide), List.append_nil]
  have hdrop : (Nat.toDigits 10 n.toNat ++ c :: rest).dropWhile Char.isDigit = c :: rest := by
    rw [List.dropWhile_append_of_pos hdigits, List.dropWhile_cons_of_neg (by rw [hc]; decide)]
  unfold readU16
  rw [htake, hdrop]
  dsimp only
  rw [Nat.ofDigitChars_ten_toDigits, UInt16.ofNat_toNat, if_pos rfl]

theorem readSize_eq_some {cs rest : List Char} {sz : TerminalSize} :
    readSize cs = some (sz, rest) ↔ cs = '\x7b' :: sz.body ++ rest := by
  have hbrace : ∀ cs : List Char, "\x7b\"Width\":".toList ++ cs = '\x7b' :: ("\"Width\":".toList ++ cs) :=
    fun _ => rfl
  have hbody : '\x7b' :: sz.body ++ rest = "\x7b\"Width\":".toList ++ (Nat.toDigits 10 sz.width.toNat ++
      (",\"Height\":".toList ++ (Nat.toDigits 10 sz.height.toNat ++ ("\x7d".toList ++ rest)))) := by
    rw [hbrace, List.cons_append, List.cons_inj_right, ← List.append_assoc, ← List.append_assoc,
      ← List.append_assoc, ← List.append_assoc, List.append_left_inj, List.append_assoc, List.append_assoc,
      List.append_assoc]
    rfl
  rw [hbody, readSize]
  constructor
  · intro h
    obtain ⟨cs₁, h₁, h⟩ := Option.bind_eq_some_iff.mp h
    obtain ⟨⟨w, cs₂⟩, h₂, h⟩ := Option.bind_eq_some_iff.mp h
    obtain ⟨cs₃, h₃, h⟩ := Option.bind_eq_some_iff.mp h
    obtain ⟨⟨h', cs₄⟩, h₄, h⟩ := Option.bind_eq_some_iff.mp h
    obtain ⟨cs₅, h₅, h⟩ := Option.bind_eq_some_iff.mp h
    obtain ⟨rfl, rfl⟩ := Prod.mk.inj (Option.some.inj h)
    dsimp only at h₃ h₅ ⊢
    rw [strip_eq_some.mp h₁, eq_of_readU16 h₂, strip_eq_some.mp h₃, eq_of_readU16 h₄, strip_eq_some.mp h₅]
  · rintro rfl
    have hwidth (cs : List Char) : readU16 (Nat.toDigits 10 sz.width.toNat ++ (",\"Height\":".toList ++ cs)) =
        some (sz.width, ",\"Height\":".toList ++ cs) :=
      @readU16_append sz.width ',' (by decide) ("\"Height\":".toList ++ cs)
    have hheight (cs : List Char) : readU16 (Nat.toDigits 10 sz.height.toNat ++ ("\x7d".toList ++ cs)) =
        some (sz.height, "\x7d".toList ++ cs) :=
      @readU16_append sz.height '\x7d' (by decide) cs
    rw [strip_eq_some.mpr rfl, Option.bind_some, hwidth, Option.bind_some, strip_eq_some.mpr rfl,
      Option.bind_some, hheight, Option.bind_some, strip_eq_some.mpr rfl]
    rfl

/-- The sizes at the front of a text. -/
def readSizes (cs : List Char) : List TerminalSize :=
  match _hcs : readSize cs with
  | some (sz, rest) => sz :: readSizes rest
  | none => []
termination_by cs.length
decreasing_by
  rw [readSize_eq_some.mp _hcs, List.length_append, List.length_cons]
  omega

theorem readSizes_append (sz : TerminalSize) (rest : List Char) :
    readSizes ('\x7b' :: sz.body ++ rest) = sz :: readSizes rest := by
  rw [readSizes]
  split
  · rename_i sz' rest' h
    obtain ⟨rfl, rfl⟩ := Prod.mk.inj (Option.some.inj ((readSize_eq_some.mpr rfl).symm.trans h))
    rfl
  · rename_i h
    cases (readSize_eq_some.mpr rfl).symm.trans h

theorem readSizes_eq_nil {cs : List Char} (h : readSize cs = none) : readSizes cs = [] := by
  rw [readSizes]
  split
  · rename_i h'
    cases h.symm.trans h'
  · rfl

def toChars (bs : Bytes) : List Char := bs.map fun b => Char.ofNat b.toNat

/-- A deserializer that knows the sizes only as the client writes them. -/
def plainSizes (bs : Bytes) : List TerminalSize := readSizes (toChars bs)

theorem toNat_ofNat_byte (b : UInt8) : (Char.ofNat b.toNat).toNat = b.toNat := by
  have hlt := b.toNat_lt
  rw [Char.ofNat, dif_pos (Or.inl (by omega))]
  rfl

theorem toChars_json (sz : TerminalSize) : toChars sz.json = '\x7b' :: sz.body := by
  rw [json_eq, toChars, List.map_cons, List.map_map]
  refine congrArg₂ List.cons rfl ((List.map_congr_left fun c hc => ?_).trans (List.map_id _))
  have hinner := inner_of_mem_body hc
  unfold inner at hinner
  simp only [Bool.and_eq_true, decide_eq_true_eq] at hinner
  have hlt := hinner.1.1.1
  show Char.ofNat (UInt8.ofNat c.toNat).toNat = c
  rw [UInt8.toNat_ofNat', Nat.mod_eq_of_lt (by omega)]
  exact Char.ofNat_toNat c

theorem deserializer_plainSizes : Deserializer plainSizes where
  nil := readSizes_eq_nil (by decide)
  object sz rest := by
    rw [plainSizes, toChars, List.map_append]
    show readSizes (toChars sz.json ++ toChars rest) = _
    rw [toChars_json, readSizes_append]
    rfl
  incomplete sz p hp hne := by
    refine readSizes_eq_nil ?_
    obtain ⟨more, hmore⟩ := hp
    cases hread : readSize (toChars p) with
    | none => rfl
    | some r =>
      have hp := readSize_eq_some.mp hread
      have hwhole : '\x7b' :: sz.body ++ [] = '\x7b' :: r.1.body ++ (r.2 ++ toChars more) := by
        rw [List.append_nil, ← toChars_json, ← hmore, ← List.append_assoc, ← hp, toChars, List.map_append]
        rfl
      have hsame := (readSize_eq_some.mpr hwhole).symm.trans (readSize_eq_some.mpr rfl)
      have hmore' := (List.append_eq_nil_iff.mp (Prod.mk.inj (Option.some.inj hsame)).2).2
      rw [List.map_eq_nil_iff.mp hmore', List.append_nil] at hmore
      exact absurd hmore hne
  start b rest _ hbrace _ := by
    refine readSizes_eq_nil ?_
    cases hread : readSize (toChars (b :: rest)) with
    | none => rfl
    | some r =>
      have hfirst := congrArg Char.toNat (List.cons.inj (readSize_eq_some.mp hread)).1
      rw [toNat_ofNat_byte] at hfirst
      exact absurd (UInt8.toNat_inj.mp hfirst) hbrace

/-! ## A size that is cut -/

def sizeSession : Config where
  attach := false
  stdin := false
  tty := true
  session := some ⟨false, true, false, true, .child⟩

/-- The client opens the resize stream and writes the chunks. -/
def resizeRun (chunks : List Bytes) : List Label :=
  .client (.frame (.synStream 1 [("streamType", "resize")])) :: List.replicate 5 .readLoop ++
    chunks.flatMap fun c => [.client (.frame (.data 1 0 c)), .readLoop]

theorem exists_resizeRun (a b : Bytes) : ∃ g s,
    run (withHistory (step sizeSession) (recordResize plainSizes sizeSession))
      ([], init sizeSession (.init 0 0 0)) (resizeRun [a, b]) = some (g, s) ∧ g.map Prod.fst = [a, b] :=
  ⟨_, _, rfl, rfl⟩

def small : TerminalSize := ⟨80, 24⟩

def large : TerminalSize := ⟨120, 40⟩

/-- A frame for each size. -/
theorem resize_framing_whole : ∃ g s,
    run (withHistory (step sizeSession) (recordResize plainSizes sizeSession))
      ([], init sizeSession (.init 0 0 0)) (resizeRun [small.json, large.json]) = some (g, s) ∧
      ∀ g', g' <+: g → Resizes.window g' = Resizes.current [small, large] g' := by
  obtain ⟨g, s, hrun, hg⟩ := exists_resizeRun small.json large.json
  have hframes : g.map Prod.fst = [small, large].map TerminalSize.json := hg
  have hstream : (g.map Prod.fst).flatten = [small, large].flatMap TerminalSize.json := by
    rw [hframes, List.flatMap_def]
  refine ⟨g, s, hrun, (resize_framing deserializer_plainSizes rfl hrun ⟨[], ?_⟩).mpr ?_⟩
  · rw [List.append_nil, hstream]
  intro g' e hg' hnot
  have hpart := ((List.prefix_append g' [e]).trans hg').map Prod.fst
  rw [hframes] at hpart
  obtain ⟨xs, ⟨ys, hys⟩, heq⟩ := List.prefix_map_iff.mp hpart
  refine absurd ?_ hnot
  rw [Resizes.received, heq, ← List.flatMap_def, ← hys]
  exact between_append json_ne_nil xs ys

/-- **A size that is cut**: of the size 80 x 24 in two frames, the first of which has the brace, the
terminal hears nothing. -/
theorem cut_size : ∃ (b : UInt8) (bs : Bytes) (g : Resizes) (s : State),
    small.json = 0x7b :: b :: bs ∧ Deserializer plainSizes ∧
    run (withHistory (step sizeSession) (recordResize plainSizes sizeSession))
      ([], init sizeSession (.init 0 0 0)) (resizeRun [[0x7b], b :: bs]) = some (g, s) ∧
    g.map Prod.fst = [[0x7b], b :: bs] ∧ g.window = none := by
  have hbody : small.body ≠ [] := List.append_ne_nil_of_left_ne_nil (by decide) _
  obtain ⟨c, cs, hcs⟩ := List.exists_cons_of_ne_nil hbody
  have hjson := json_eq small
  rw [hcs, List.map_cons] at hjson
  generalize UInt8.ofNat c.toNat = b at hjson
  generalize cs.map (fun c => UInt8.ofNat c.toNat) = bs at hjson
  obtain ⟨g, s, hrun, hg⟩ := exists_resizeRun [0x7b] (b :: bs)
  refine ⟨b, bs, g, s, hjson, deserializer_plainSizes, hrun, hg, ?_⟩
  have hfirst : plainSizes [0x7b] = [] := by
    refine deserializer_plainSizes.incomplete small _ ?_ ?_
    · rw [hjson]
      exact ⟨b :: bs, rfl⟩
    · rw [hjson]
      exact fun h => List.cons_ne_nil _ _ (List.cons.inj h).2.symm
  have hsecond : plainSizes (b :: bs) = [] := by
    refine deserializer_plainSizes.parses.inside small b ?_ bs
    rw [hjson]
    exact List.mem_cons_self
  rw [tracks_run rfl hrun g (List.prefix_refl g), hg, seen, List.foldl_cons, List.foldl_cons, hfirst,
    hsecond]
  rfl

end LightrCri.Spdy.Exec

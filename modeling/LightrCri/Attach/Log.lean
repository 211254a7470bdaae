import LightrCri.Attach.Progress
import LightrCri.Attach.Timestamp

/-!
# The log file

The log file is read back line by line (`parseLog`): a line is a timestamp, the name of a stream, a
tag and a payload. The payloads of a stream, with a newline behind those of a full line, are what
the process wrote to it (`log_reassembles`).
-/

namespace LightrCri.Attach

open Foundations LightrCri.Stream Function Spdy

/-! ## Reading the file -/

def SPACE : UInt8 := 32

/-- A line of the file. -/
structure Entry where
  time : Timestamp
  stream : Output
  /-- The tag: `F`, or else `P`. -/
  full : Bool
  payload : Bytes
  deriving DecidableEq, Repr

def decodeAscii (b : Bytes) : List Char := b.map fun x => Char.ofNat x.toNat

def parseStream (cs : List Char) : Option Output :=
  if cs = ['s', 't', 'd', 'o', 'u', 't'] then some .stdout
  else if cs = ['s', 't', 'd', 'e', 'r', 'r'] then some .stderr
  else none

def parseTag (cs : List Char) : Option Bool :=
  if cs = ['F'] then some true else if cs = ['P'] then some false else none

/-- Read a line without its newline: three fields that end with a space, and the payload. -/
def parseLine (parseTime : List Char → Option Timestamp) (line : Bytes) : Option Entry := do
  let (time, rest) ← cutAt SPACE line
  let (stream, rest) ← cutAt SPACE rest
  let (tag, payload) ← cutAt SPACE rest
  return ⟨← parseTime (decodeAscii time), ← parseStream (decodeAscii stream),
    ← parseTag (decodeAscii tag), payload⟩

/-- Read the file, which ends with a newline unless it is empty. -/
def parseLog (parseTime : List Char → Option Timestamp) (file : Bytes) : Option (List Entry) :=
  if unterminated NEWLINE file = [] then
    (lines NEWLINE file).mapM fun line => parseLine parseTime line.dropLast
  else none

/-- What an entry stands for. -/
def Entry.bytes (e : Entry) : Bytes := e.payload ++ if e.full then [NEWLINE] else []

def State.logFile (s : State) : Bytes := (s.log.map LogLine.format).flatten

/-- The tags and payloads for a stream, from the stream alone. -/
def framed (bytes : Bytes) : List (Bool × Bytes) :=
  (lines NEWLINE bytes).map (fun line => (true, line.dropLast)) ++
    if unterminated NEWLINE bytes = [] then [] else [(false, unterminated NEWLINE bytes)]

/-- The times of the label are those of clock readings in `P`. -/
def Label.Clocked (P : Duration → Prop) : Label → Prop
  | .tee _ (.line time) | .tee _ (.eof time) => ∃ c, P c ∧ time = timestamp c
  | _ => True

/-! ## Bytes of texts -/

def ascii (cs : List Char) : Bytes := cs.map fun c => UInt8.ofNat c.toNat

theorem utf8_append (s t : String) : utf8 (s ++ t) = utf8 s ++ utf8 t := by
  simp [utf8]

/-- The characters are printable ASCII, without the space. -/
def Graphic (cs : List Char) : Prop := ∀ c ∈ cs, 33 ≤ c.toNat ∧ c.toNat < 128

instance (cs : List Char) : Decidable (Graphic cs) := List.decidableBAll _ _

theorem utf8_ofList {cs : List Char} (h : Graphic cs) : utf8 (String.ofList cs) = ascii cs :=
  utf8_ascii fun c hc => (h c hc).2

theorem decodeAscii_ascii {cs : List Char} (h : Graphic cs) : decodeAscii (ascii cs) = cs := by
  unfold decodeAscii ascii
  rw [List.map_map]
  refine (List.map_congr_left fun c hc => ?_).trans (List.map_id cs)
  have hlt := (h c hc).2
  show Char.ofNat (UInt8.ofNat c.toNat).toNat = c
  rw [UInt8.toNat_ofNat', Nat.mod_eq_of_lt (by omega)]
  exact Char.ofNat_toNat c

/-- A printable text has none of the bytes that separate. -/
theorem notMem_ascii {cs : List Char} (h : Graphic cs) {b : UInt8} (hb : b.toNat < 33) :
    b ∉ ascii cs := by
  intro hmem
  obtain ⟨c, hc, rfl⟩ := List.mem_map.mp hmem
  obtain ⟨hlow, hhigh⟩ := h c hc
  rw [UInt8.toNat_ofNat', Nat.mod_eq_of_lt (by omega)] at hb
  omega

theorem graphic_digits (width n : Nat) : Graphic (digits width n) := by
  intro c hc
  have hdigit := isDigit_of_mem_digits hc
  rw [Char.isDigit, Bool.and_eq_true, decide_eq_true_eq, decide_eq_true_eq] at hdigit
  have hlow : 48 ≤ c.toNat := hdigit.1
  have hhigh : c.toNat ≤ 57 := hdigit.2
  omega

theorem Graphic.append {cs ds : List Char} (hcs : Graphic cs) (hds : Graphic ds) :
    Graphic (cs ++ ds) :=
  List.forall_mem_append.mpr ⟨hcs, hds⟩

theorem Graphic.cons {c : Char} {cs : List Char} (hc : 33 ≤ c.toNat ∧ c.toNat < 128)
    (hcs : Graphic cs) : Graphic (c :: cs) :=
  List.forall_mem_cons.mpr ⟨hc, hcs⟩

theorem graphic_chars (t : Timestamp) : Graphic t.chars := by
  unfold Timestamp.chars
  refine (graphic_digits _ _).append (.cons (by decide) ?_)
  refine (graphic_digits _ _).append (.cons (by decide) ?_)
  refine (graphic_digits _ _).append (.cons (by decide) ?_)
  refine (graphic_digits _ _).append (.cons (by decide) ?_)
  refine (graphic_digits _ _).append (.cons (by decide) ?_)
  refine (graphic_digits _ _).append (.cons (by decide) ?_)
  exact (graphic_digits _ _).append (by decide)

/-! ## A line -/

def LogLine.payload (l : LogLine) : Bytes := if l.full then l.data.dropLast else l.data

/-- The payload, with the newline of a full line. -/
theorem LogLine.payload_append (l : LogLine) :
    l.payload ++ (if l.full then [NEWLINE] else []) = l.data := by
  unfold LogLine.payload
  split
  · rename_i hfull
    have hlast : l.data.getLast? = some NEWLINE := of_decide_eq_true hfull
    exact List.dropLast_append_getLast? _ hlast
  · exact List.append_nil _

/-- The fields of a line, each with a space behind it, the payload and the newline. -/
theorem LogLine.format_eq {l : LogLine} {c : Duration} (hl : l.time = timestamp c) :
    l.format = ascii c.timestamp.chars ++ SPACE :: (ascii (streamName l.stream).toList ++ SPACE ::
      (ascii [if l.full then 'F' else 'P'] ++ SPACE :: l.payload)) ++ [NEWLINE] := by
  have htime : utf8 l.time = ascii c.timestamp.chars := by
    rw [hl, timestamp, utf8_ofList (graphic_chars _)]
  have hstream : utf8 (streamName l.stream) = ascii (streamName l.stream).toList := by
    cases l.stream <;> decide
  have hspace : utf8 " " = [SPACE] := by decide
  have hdata := l.payload_append
  unfold LogLine.format
  rw [utf8_append, utf8_append, utf8_append, utf8_append, utf8_append, htime, hstream, hspace]
  cases hfull : l.full with
  | true =>
    rw [hfull] at hdata
    rw [← hdata]
    simp [show utf8 "F" = ascii ['F'] by decide]
  | false =>
    rw [hfull] at hdata
    rw [← hdata]
    simp [show utf8 "P" = ascii ['P'] by decide]

/-- **A line is read back.** -/
theorem parseLine_format {parseTime : List Char → Option Timestamp} {l : LogLine} {c : Duration}
    (hl : l.time = timestamp c) :
    parseLine parseTime l.format.dropLast =
      (parseTime (timestamp c).toList).map fun t => ⟨t, l.stream, l.full, l.payload⟩ := by
  have hstream : Graphic (streamName l.stream).toList := by cases l.stream <;> decide
  have htag : Graphic [if l.full then 'F' else 'P'] := by cases l.full <;> decide
  have hcut {cs : List Char} (h : Graphic cs) (rest : Bytes) :
      cutAt SPACE (ascii cs ++ SPACE :: rest) = some (ascii cs, rest) :=
    cutAt_append (notMem_ascii h (by decide)) rest
  rw [LogLine.format_eq hl, List.dropLast_concat, timestamp, String.toList_ofList, parseLine]
  simp only [bind, pure, hcut (graphic_chars _), hcut hstream, hcut htag, Option.bind_some,
    decodeAscii_ascii (graphic_chars _), decodeAscii_ascii hstream, decodeAscii_ascii htag]
  have hparse : parseStream (streamName l.stream).toList = some l.stream := by
    cases l.stream <;> decide
  have hparse' : parseTag [if l.full then 'F' else 'P'] = some l.full := by
    cases l.full <;> decide
  rw [hparse, hparse']
  cases parseTime c.timestamp.chars <;> rfl

/-! ## The file -/

/-- What a line is read back as. -/
def LogLine.entry (parseTime : List Char → Option Timestamp) (l : LogLine) : Option Entry :=
  (parseTime l.time.toList).map fun t => ⟨t, l.stream, l.full, l.payload⟩

theorem mapM_congr {α β : Type} {f g : α → Option β} {xs : List α} (h : ∀ x ∈ xs, f x = g x) :
    xs.mapM f = xs.mapM g := by
  induction xs with
  | nil => rfl
  | cons x xs ih =>
    rw [List.mapM_cons, List.mapM_cons, h x List.mem_cons_self,
      ih fun x' hx' => h x' (List.mem_cons_of_mem _ hx')]

theorem parseLog_eq {parseTime : List Char → Option Timestamp} {log : List LogLine}
    (hpayload : ∀ l ∈ log, NEWLINE ∉ l.payload) (htime : ∀ l ∈ log, ∃ c, l.time = timestamp c) :
    parseLog parseTime (log.map LogLine.format).flatten = log.mapM (LogLine.entry parseTime) := by
  have hlines : ∀ b ∈ log.map LogLine.format, ∃ p, b = p ++ [NEWLINE] ∧ NEWLINE ∉ p := by
    intro b hb
    obtain ⟨l, hl, rfl⟩ := List.mem_map.mp hb
    obtain ⟨c, hc⟩ := htime l hl
    refine ⟨_, LogLine.format_eq hc, ?_⟩
    have hstream : Graphic (streamName l.stream).toList := by cases l.stream <;> decide
    have htag : Graphic [if l.full then 'F' else 'P'] := by cases l.full <;> decide
    have hspace : NEWLINE ≠ SPACE := by decide
    simp only [List.mem_append, List.mem_cons, not_or]
    exact ⟨notMem_ascii (graphic_chars _) (by decide), hspace, notMem_ascii hstream (by decide),
      hspace, notMem_ascii htag (by decide), hspace, hpayload l hl⟩
  obtain ⟨hsplit, hrest⟩ := lines_flatten hlines
  rw [parseLog, if_pos hrest, hsplit, List.mapM_map]
  refine mapM_congr fun l hl => ?_
  obtain ⟨c, hc⟩ := htime l hl
  rw [Function.comp_apply, parseLine_format hc, LogLine.entry, hc]

/-- The parts of a line that do not depend on the clock. -/
def LogLine.untimed (l : LogLine) : Output × Bool × Bytes := (l.stream, l.full, l.payload)

def Entry.untimed (e : Entry) : Output × Bool × Bytes := (e.stream, e.full, e.payload)

theorem exists_entries {parseTime : List Char → Option Timestamp} {log : List LogLine}
    (h : ∀ l ∈ log, ∃ t, parseTime l.time.toList = some t) :
    ∃ entries, log.mapM (LogLine.entry parseTime) = some entries ∧
      entries.map Entry.untimed = log.map LogLine.untimed := by
  induction log with
  | nil => exact ⟨[], rfl, rfl⟩
  | cons l log ih =>
    obtain ⟨t, ht⟩ := h l List.mem_cons_self
    obtain ⟨entries, hentries, huntimed⟩ := ih fun l' hl' => h l' (List.mem_cons_of_mem _ hl')
    refine ⟨⟨t, l.stream, l.full, l.payload⟩ :: entries, ?_, ?_⟩
    · rw [List.mapM_cons, hentries, LogLine.entry, ht]
      rfl
    · rw [List.map_cons, List.map_cons, huntimed]
      rfl

/-! ## The records of a stream -/

/-- The tag and the payload of a record. -/
def tagged (data : Bytes) : Bool × Bytes :=
  if data.getLast? = some NEWLINE then (true, data.dropLast) else (false, data)

theorem LogLine.tagged_data (l : LogLine) : tagged l.data = (l.full, l.payload) := by
  unfold tagged LogLine.payload
  by_cases hlast : l.data.getLast? = some NEWLINE
  · have hfull : l.full = true := decide_eq_true hlast
    rw [if_pos hlast, hfull, if_pos rfl]
  · have hfull : l.full = false := decide_eq_false hlast
    rw [if_neg hlast, hfull, if_neg (by decide)]

theorem tagged_line {p : Bytes} : tagged (p ++ [NEWLINE]) = (true, p) := by
  rw [tagged, if_pos List.getLast?_concat, List.dropLast_concat]

theorem tagged_of_notMem {data : Bytes} (h : NEWLINE ∉ data) : tagged data = (false, data) :=
  if_neg fun hlast => h (List.mem_of_getLast? hlast)

theorem map_tagged_records (bytes : Bytes) : (records bytes).map tagged = framed bytes := by
  have hlines : (lines NEWLINE bytes).map tagged =
      (lines NEWLINE bytes).map fun line => (true, line.dropLast) :=
    List.map_congr_left fun l hl => by
      obtain ⟨p, rfl, -⟩ := exists_of_mem_lines hl
      rw [tagged_line, List.dropLast_concat]
  rw [records, framed, List.map_append, hlines]
  split
  · rfl
  · rw [List.map_singleton, tagged_of_notMem (unterminated_notMem bytes)]

theorem notMem_tagged {bytes data : Bytes} (h : data ∈ records bytes) :
    NEWLINE ∉ (tagged data).2 := by
  rw [records, List.mem_append] at h
  rcases h with h | h
  · obtain ⟨p, rfl, hp⟩ := exists_of_mem_lines h
    rwa [tagged_line]
  · split at h
    · exact absurd h List.not_mem_nil
    · rw [List.mem_singleton.mp h, tagged_of_notMem (unterminated_notMem bytes)]
      exact unterminated_notMem bytes

/-- The frames of a stream stand for the stream. -/
theorem flatten_framed (bytes : Bytes) :
    ((framed bytes).map fun r => r.2 ++ if r.1 then [NEWLINE] else []).flatten = bytes := by
  have hlines : (lines NEWLINE bytes).map
      ((fun r : Bool × Bytes => r.2 ++ if r.1 then [NEWLINE] else []) ∘
        fun line => (true, line.dropLast)) = lines NEWLINE bytes := by
    refine (List.map_congr_left fun l hl => ?_).trans (List.map_id _)
    obtain ⟨p, rfl, -⟩ := exists_of_mem_lines hl
    simp
  rw [framed, List.map_append, List.map_map, hlines, List.flatten_append]
  conv_rhs => rw [← @flatten_lines _ _ NEWLINE bytes]
  congr 1
  split
  · rename_i hnil
    rw [hnil]
    rfl
  · simp

/-- Only the last frame of a stream is not full. -/
theorem full_of_mem_dropLast_framed {bytes : Bytes} {r : Bool × Bytes}
    (h : r ∈ (framed bytes).dropLast) : r.1 = true := by
  have hmem : r ∈ (lines NEWLINE bytes).map fun line => (true, line.dropLast) := by
    unfold framed at h
    split at h
    · rw [List.append_nil] at h
      exact List.mem_of_mem_dropLast h
    · rwa [List.dropLast_concat] at h
  obtain ⟨line, -, rfl⟩ := List.mem_map.mp hmem
  rfl

/-! ## The log of a run -/

variable {s s' : State}

theorem Step.log {l : Label} {P : Duration → Prop} (hstep : Step s l s') (hl : l.Clocked P)
    (h : ∀ r ∈ s.log, ∃ c, P c ∧ r.time = timestamp c) :
    ∀ r ∈ s'.log, ∃ c, P c ∧ r.time = timestamp c := by
  cases hstep with
  | line => exact List.forall_mem_append.mpr ⟨h, List.forall_mem_singleton.mpr hl⟩
  | @finish o time htee hend =>
    show ∀ r ∈ if s.pending o = [] then s.log else s.log ++ [⟨time, o, s.pending o⟩], _
    split
    · exact h
    · exact List.forall_mem_append.mpr ⟨h, List.forall_mem_singleton.mpr hl⟩
  | _ => exact h

theorem clocked_run {world : World} {P : Duration → Prop} {ls : List Label}
    (hclock : ∀ l ∈ ls, l.Clocked P) (hrun : run step (init world) ls = some s) :
    ∀ r ∈ s.log, ∃ c, P c ∧ r.time = timestamp c :=
  invariant_run (I := fun s => ∀ r ∈ s.log, ∃ c, P c ∧ r.time = timestamp c)
    (P := fun _ l => l.Clocked P) (fun _ _ _ h hl hstep => (step_cases hstep).log hl h) (fun _ h => absurd h List.not_mem_nil)
    (Along.of_labels hclock) hrun

/-- **The log is read back.** When both threads have come to the end of their streams, every line of
the file is a timestamp, a stream, a tag and a payload, and the payloads for a stream, with a
newline behind those of full lines, are the stream. The tags and payloads depend on the stream
alone, and only the last is not that of a full line. Up to the year 9999 the timestamps have the RFC
3339 form. -/
theorem log_reassembles {stdin stdout stderr : Nat} (hout : 0 < stdout) (herr : 0 < stderr)
    {ls : List Label} (hclock : ∀ l ∈ ls, l.Clocked fun _ => True)
    (hrun : run step (init (World.init stdin stdout stderr)) ls = some s)
    (hended : ∀ o, s.tee o = .ended) :
    ∃ entries, parseLog parseTimestamp s.logFile = some entries ∧
      (∀ o, ((entries.filter fun e => e.stream = o).map Entry.bytes).flatten = s.world.produced o ∧
        ((entries.filter fun e => e.stream = o).map fun e => (e.full, e.payload)) =
          framed (s.world.produced o) ∧
        ∀ e ∈ (entries.filter fun e => e.stream = o).dropLast, e.full = true) ∧
      ((∀ l ∈ ls, l.Clocked fun c => c.secs < 253402300800) →
        parseLog parseRfc3339Nano s.logFile = some entries) := by
  have h := Inv.run hout herr hrun
  have hlogged (o : Output) : s.logged o = records (s.world.produced o) := by
    rw [(h.logged o).ended (hended o), (h.idle (.inr (hended o))).1]
  have hpayload : ∀ l ∈ s.log, NEWLINE ∉ l.payload := by
    intro l hl
    have hmem : l.data ∈ records (s.world.produced l.stream) := by
      rw [← hlogged]
      exact List.mem_map_of_mem (List.mem_filter.mpr ⟨hl, decide_eq_true rfl⟩)
    have := notMem_tagged hmem
    rwa [l.tagged_data] at this
  have htime : ∀ l ∈ s.log, ∃ c, l.time = timestamp c := fun l hl => by
    obtain ⟨c, -, hc⟩ := clocked_run hclock hrun l hl
    exact ⟨c, hc⟩
  obtain ⟨entries, hentries, huntimed⟩ := @exists_entries parseTimestamp s.log fun l hl => by
      obtain ⟨c, hc⟩ := htime l hl
      exact ⟨_, hc ▸ parseTimestamp_timestamp c⟩
  have hframed (o : Output) : ((entries.filter fun e => e.stream = o).map fun e =>
      (e.full, e.payload)) = framed (s.world.produced o) := by
    have hfilter := congrArg (fun us => ((us.filter fun u => u.1 = o).map fun u => u.2)) huntimed
    simp only [List.filter_map, List.map_map] at hfilter
    rw [← map_tagged_records, ← hlogged, State.logged, List.map_map]
    refine hfilter.trans (List.map_congr_left fun l _ => ?_)
    exact l.tagged_data.symm
  refine ⟨entries, (parseLog_eq hpayload htime).trans hentries, fun o => ⟨?_, hframed o, ?_⟩, ?_⟩
  · rw [← flatten_framed (s.world.produced o), ← hframed o, List.map_map]
    rfl
  · intro e he
    have hmem := List.mem_map_of_mem (f := fun e : Entry => (e.full, e.payload)) he
    rw [List.map_dropLast, hframed o] at hmem
    exact full_of_mem_dropLast_framed hmem
  · intro hbefore
    rw [State.logFile, parseLog_eq hpayload htime, ← hentries]
    refine mapM_congr fun l hl => ?_
    obtain ⟨c, hc, htimed⟩ := clocked_run hbefore hrun l hl
    rw [LogLine.entry, LogLine.entry, htimed, parseTimestamp_timestamp, parseRfc3339Nano_timestamp hc]

def epoch : Duration := ⟨0, 0, Nat.two_pow_pos 64, Nat.pow_pos (Nat.zero_lt_succ 9)⟩

/-- A line and what follows it, cut before the newline. -/
def splitRun : List Label :=
  [.process (.write .stdout [97, 10, 98]), .process (.put 3), .process (.exit 0),
    .tee .stdout (.read 1), .tee .stdout .lock, .tee .stdout .unlock, .tee .stdout .resume,
    .tee .stderr (.eof (timestamp epoch)), .tee .stdout (.read 2), .tee .stdout .lock,
    .tee .stdout .unlock, .tee .stdout (.line (timestamp epoch)), .tee .stdout .resume,
    .tee .stdout (.eof (timestamp epoch))]

theorem log_reassembles_split : ∃ s entries,
    run step (init (World.init 4 4 4)) splitRun = some s ∧
      parseLog parseRfc3339Nano s.logFile = some entries ∧
      ((entries.filter fun e => e.stream = .stdout).map fun e => (e.full, e.payload)) =
        [(true, [97]), (false, [98])] := by
  have hrun : (run step (init (World.init 4 4 4)) splitRun).any fun s => decide
      ((∀ o, s.tee o = .ended) ∧ s.world.produced .stdout = [97, 10, 98]) := by decide
  obtain ⟨s, hs, hall⟩ := (Option.any_eq_true _ _).mp hrun
  obtain ⟨hended, hproduced⟩ := of_decide_eq_true hall
  have hclock (P : Duration → Prop) (h : P epoch) : ∀ l ∈ splitRun, l.Clocked P := by
    have htimes : ∃ c, P c ∧ timestamp epoch = timestamp c := ⟨epoch, h, rfl⟩
    simp [splitRun, Label.Clocked, htimes]
  obtain ⟨entries, -, hstream, hstrict⟩ :=
    log_reassembles (by decide) (by decide) (hclock _ True.intro) hs hended
  refine ⟨s, entries, hs, hstrict (hclock _ (by decide)), ?_⟩
  rw [(hstream .stdout).2.1, hproduced]
  decide

end LightrCri.Attach

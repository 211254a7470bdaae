import LightrCri.Spdy.Frame

/-!
# Channels, payloads and verdicts

What the streaming server shares between its two transports: the verbs and parameters of a token,
the text of headers, base64, the framing of the WebSocket channels, and `exit_status_json`, the
verdict on a session.
-/

namespace LightrCri.Stream

open Spdy

/-! ## Verbs and parameters -/

inductive StreamVerb
  | exec
  | attach
  | portForward
  deriving DecidableEq, Repr

/-- The path segment of the verb. -/
def StreamVerb.path : StreamVerb → String
  | .exec => "exec"
  | .attach => "attach"
  | .portForward => "portforward"

/-- What a token stands for. -/
structure StreamParams where
  container : Option String := none
  sandbox : Option String := none
  cmd : List String := []
  tty : Bool := false
  stdin : Bool := false
  ports : List Int := []
  dialTarget : Option String := none
  netnsPath : Option String := none
  deriving DecidableEq, Repr

/-! ## Text -/

/-- `str::split` at a character. -/
def split (sep : Char) (s : String) : List String := (s.toList.splitOn sep).map String.ofList

/-- `str::trim` of a header value, which has no white space but blanks and tabs. -/
def trim (s : String) : String :=
  String.ofList ((s.toList.dropWhile Char.isWhitespace).reverse.dropWhile
    Char.isWhitespace).reverse

/-- `str::parse::<u16>`: decimal digits, after a plus sign or none. -/
def parseU16 (s : String) : Option UInt16 :=
  let digits := match s.toList with
    | '+' :: ds => ds
    | ds => ds
  if digits ≠ [] ∧ digits.all Char.isDigit then
    let n := digits.foldl (fun n c => n * 10 + (c.toNat - '0'.toNat)) 0
    if n < 2 ^ 16 then some (UInt16.ofNat n) else none
  else none

/-- `eq_ignore_ascii_case`. -/
def eqIgnoreAsciiCase (s t : String) : Bool := s.toList.map Char.toLower = t.toList.map Char.toLower

/-! ## Base64 -/

def STD_ALPHABET : List Char :=
  "ABCDEFGHIJKLMNOPQRSTUVWXYZabcdefghijklmnopqrstuvwxyz0123456789+/".toList

def URL_ALPHABET : List Char :=
  "ABCDEFGHIJKLMNOPQRSTUVWXYZabcdefghijklmnopqrstuvwxyz0123456789-_".toList

/-- The digit for the six bits of `n` from bit `i` on. -/
def digit (alphabet : List Char) (n i : UInt32) : Char :=
  alphabet.getD ((n >>> i) &&& 0x3f).toNat 'A'

def encodeWith (alphabet : List Char) (pad : Bool) : Bytes → List Char
  | a :: b :: c :: rest =>
    let n := a.toUInt32 <<< 16 ||| b.toUInt32 <<< 8 ||| c.toUInt32
    digit alphabet n 18 :: digit alphabet n 12 :: digit alphabet n 6 :: digit alphabet n 0 ::
      encodeWith alphabet pad rest
  | [a, b] =>
    let n := a.toUInt32 <<< 16 ||| b.toUInt32 <<< 8
    [digit alphabet n 18, digit alphabet n 12, digit alphabet n 6] ++ if pad then ['='] else []
  | [a] =>
    let n := a.toUInt32 <<< 16
    [digit alphabet n 18, digit alphabet n 12] ++ if pad then ['=', '='] else []
  | [] => []

/-- URL-safe base64 without padding, the alphabet of tokens. -/
def encodeUrlNopad (input : Bytes) : String := String.ofList (encodeWith URL_ALPHABET false input)

/-- Standard base64, padded. -/
def encodeStd (input : Bytes) : String := String.ofList (encodeWith STD_ALPHABET true input)

/-- The index of a digit in the alphabet. -/
def decodeValue (alphabet : List Char) (b : UInt8) : Option UInt32 :=
  (alphabet.findIdx? fun c => c.toNat = b.toNat).map UInt32.ofNat

/-- Standard base64 decoding of the rest of the input, with `nbits` bits left over in `acc`. -/
def decodeFrom (acc : UInt32) (nbits : Nat) : Bytes → Option Bytes
  | [] => some []
  | b :: rest =>
    if b = '='.toUInt8 ∨ b = '\r'.toUInt8 ∨ b = '\n'.toUInt8 then decodeFrom acc nbits rest
    else
      match decodeValue STD_ALPHABET b with
      | none => none
      | some v =>
        let acc := acc <<< 6 ||| v
        if 8 ≤ nbits + 6 then
          let nbits := nbits + 6 - 8
          (decodeFrom acc nbits rest).map ((acc >>> UInt32.ofNat nbits).toUInt8 :: ·)
        else decodeFrom acc (nbits + 6) rest

/-- Standard base64 decoding; padding and line breaks are skipped. -/
def decodeStd (input : Bytes) : Option Bytes := decodeFrom 0 0 input

/-! ## Channels -/

def STDIN : UInt8 := 0
def STDOUT : UInt8 := 1
def STDERR : UInt8 := 2
def ERROR : UInt8 := 3
def RESIZE : UInt8 := 4

/-- An inbound frame of a binary subprotocol: the channel and the payload. -/
def decodeBinary : Bytes → Option (UInt8 × Bytes)
  | [] => none
  | c :: rest => some (c, rest)

/-- An inbound frame of a base64 subprotocol. -/
def decodeBase64 : Bytes → Option (UInt8 × Bytes)
  | [] => none
  | c :: rest =>
    if '0'.toUInt8 ≤ c ∧ c ≤ '9'.toUInt8 then
      (decodeStd rest).map fun payload => (c - '0'.toUInt8, payload)
    else none

/-! ## The verdict -/

/-- The bytes of a text. -/
def utf8 (s : String) : Bytes := s.toUTF8.data.toList

theorem utf8EncodeChar_of_lt {c : Char} (h : c.toNat < 128) :
    String.utf8EncodeChar c = [UInt8.ofNat c.toNat] := by
  have hval : c.val.toNat ≤ 0x7f := Nat.le_of_lt_succ h
  unfold String.utf8EncodeChar
  exact if_pos hval

/-- An ASCII text has one byte for each character. -/
theorem utf8_ascii {cs : List Char} (h : ∀ c ∈ cs, c.toNat < 128) :
    utf8 (String.ofList cs) = cs.map fun c => UInt8.ofNat c.toNat := by
  have hbytes : utf8 (String.ofList cs) = cs.flatMap String.utf8EncodeChar := by
    simp [utf8, List.utf8Encode]
  rw [hbytes]
  clear hbytes
  induction cs with
  | nil => rfl
  | cons c cs ih =>
    rw [List.flatMap_cons, utf8EncodeChar_of_lt (h c List.mem_cons_self), List.map_cons,
      ih fun c' hc' => h c' (List.mem_cons_of_mem _ hc')]
    rfl

/-- The `metav1.Status` of a session that has ended with the exit code. -/
def exitStatusJson (exitCode : Int32) : Bytes :=
  if exitCode = 0 then utf8 "\x7b\"metadata\":\x7b\x7d,\"status\":\"Success\"\x7d"
  else
    let code := toString exitCode.toInt
    utf8 ("\x7b\"metadata\":\x7b\x7d,\"status\":\"Failure\",\"message\":\"command terminated with " ++
      "non-zero exit code: error executing command, exit status " ++ code ++
      "\",\"reason\":\"NonZeroExitCode\",\"details\":\x7b\"causes\":[\x7b\"type\":\"ExitCode\"," ++
      "\"message\":\"" ++ code ++ "\"\x7d]\x7d\x7d")

end LightrCri.Stream

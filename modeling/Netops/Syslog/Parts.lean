import Netops.Lib.Base64
import Netops.Lib.Json
import Netops.Lib.Sha256

/-!
# Records in syslog messages (`syslog_parts.py`)

An audit record is cut into parts of 1024 bytes; every part travels in one syslog message, as a JSON
object after a header of 55 bytes.  The decoder reads an archive of message bodies, in which the
parts of many records are mixed, and puts one record together again.

* `encodeMessages`   the messages of a record;
* `selectedPart`     `_selected`: what a message body says about the record asked for;
* `decodeMessages`   the record asked for, and the warnings.

`json.loads` refuses texts that nest too deep for the interpreter; `depth` is what it allows.
-/

namespace Netops.Syslog

abbrev Bytes := List UInt8

def schema : String := "netops-syslog-part/1"
def chunkBytes : Nat := 1024
def maxParts : Nat := 8192
def maxMessage : Nat := 4 * 1024 * 1024
def maxRecordBytes : Nat := maxMessage * 2
def maxMessageBytes : Nat := 2048
def headerBytes : Nat := 55

/-- the code points of a text -/
def points (s : String) : List Nat := s.toList.map Char.toNat

def fieldNames : List (List Nat) :=
  ["schema", "record_id", "part", "parts", "sha256", "data_b64"].map points

/-- `.encode("ascii")` of an ASCII text -/
def ascii (cs : List Char) : Bytes := cs.map fun c => UInt8.ofNat c.toNat

/-! ## encoding -/

/-- `ID.fullmatch` -/
def isId (recordId : String) : Bool :=
  recordId.toList.length = 32 && recordId.toList.all Sha256.lowerHex

def requireId (recordId : String) : Except String Unit :=
  if isId recordId then .ok () else .error "An explicit lowercase 32-hex record ID is required"

/-- every character matches its class, and there are as many as classes -/
def matchesAll : List (Char → Bool) → List Char → Bool
  | [], [] => true
  | p :: ps, c :: cs => p c && matchesAll ps cs
  | _, _ => false

/-- the classes of `STAMP`; `d` stands for a digit -/
def stampClasses : List (Char → Bool) :=
  "dddd-dd-ddTdd:dd:dd.dddddd+00:00".toList.map fun c => if c = 'd' then Char.isDigit else (· == c)

def leap (year : Nat) : Bool := year % 4 = 0 && (year % 100 ≠ 0 || year % 400 = 0)

def daysInMonth (year month : Nat) : Nat :=
  if month = 2 then (if leap year then 29 else 28)
  else if month ∈ [4, 6, 9, 11] then 30 else 31

/-- `datetime.fromisoformat` on a text that matches `STAMP`; 24:00 is the midnight of the next day -/
def isMoment (cs : List Char) : Bool :=
  let field (start size : Nat) : Nat := Nat.ofDigitChars 10 ((cs.drop start).take size) 0
  let year := field 0 4
  let month := field 5 2
  let day := field 8 2
  let hour := field 11 2
  let date := 1 ≤ year && 1 ≤ month && month ≤ 12 && 1 ≤ day && day ≤ daysInMonth year month
  let time := hour < 24 && field 14 2 < 60 && field 17 2 < 60
  let midnight := hour = 24 && field 14 2 = 0 && field 17 2 = 0 && field 20 6 = 0
    && !(year = 9999 && month = 12 && day = 31)
  date && (time || midnight)

/-- `_header` -/
def header (timestamp : String) : Except String Bytes :=
  if matchesAll stampClasses timestamp.toList = false then
    .error "A fixed UTC timestamp with six fractional digits is required"
  else if isMoment timestamp.toList = false then .error "Invalid UTC timestamp"
  else
    let header := ascii "<134>1 ".toList ++ ascii timestamp.toList
      ++ ascii " - netops - - - ".toList
    if header.length ≠ headerBytes then .error "Unsupported syslog header length"
    else .ok header

def partCount (raw : Bytes) : Nat := (raw.length + chunkBytes - 1) / chunkBytes

/-- `raw_record[part * CHUNK_BYTES:(part + 1) * CHUNK_BYTES]` -/
def chunk (raw : Bytes) (part : Nat) : Bytes := (raw.drop (part * chunkBytes)).take chunkBytes

/-- the object of a part -/
def partRow (raw : Bytes) (recordId : String) (part : Nat) : Json.Value := .obj
  [(points "schema", .str (points schema)), (points "record_id", .str (points recordId)),
    (points "part", .int part), (points "parts", .int (partCount raw)),
    (points "sha256", .str ((Sha256.hexdigest raw).map Char.toNat)),
    (points "data_b64", .str ((Base64.encode (chunk raw part)).map Char.toNat))]

/-- the message without its header -/
def partBody (raw : Bytes) (recordId : String) (part : Nat) : Bytes :=
  ascii (Json.dumps (Json.sorted (partRow raw recordId part)))

/-- `encode_messages`, all messages -/
def encodeMessages (raw : Bytes) (recordId timestamp : String) : Except String (List Bytes) := do
  requireId recordId
  if raw.length < 1 ∨ maxRecordBytes < raw.length then
    throw "Audit record exceeds its supported byte limit"
  let header ← header timestamp
  (List.range (partCount raw)).mapM fun part =>
    let message := header ++ partBody raw recordId part
    if maxMessageBytes < message.length then .error "Encoded syslog message exceeds 2048 bytes"
    else .ok message

/-! ## decoding -/

/-- `_compact`: no space outside a string -/
def compactFrom (quoted escaped : Bool) : Bytes → Bool
  | [] => true
  | b :: bs =>
    if quoted then
      if escaped then compactFrom true false bs
      else if b = 92 then compactFrom true true bs
      else if b = 34 then compactFrom false false bs
      else compactFrom true false bs
    else if b = 34 then compactFrom true false bs
    else if b = 32 ∨ b = 9 ∨ b = 13 ∨ b = 10 then false
    else compactFrom false false bs

def compact (raw : Bytes) : Bool := compactFrom false false raw

/-- `raw.decode("utf-8", "strict")` -/
def decodeUtf8 (raw : Bytes) : Option (List Char) :=
  (ByteArray.mk raw.toArray).utf8Decode?.map Array.toList

/-- the fields of a part, as they are read -/
structure Row where
  schema : List Nat
  recordId : List Nat
  part : Nat
  parts : Nat
  sha256 : List Nat
  data : List Nat
  deriving DecidableEq

/-- the value of a key -/
def field (fs : List (List Nat × Json.Value)) (key : String) : Option Json.Value :=
  (fs.find? fun f => f.1 = points key).map (·.2)

/-- `SHA.fullmatch` -/
def isSha (s : List Nat) : Bool :=
  s.length = 64 && s.all fun n => n < 128 && Sha256.lowerHex (Char.ofNat n)

/-- the part number and the total -/
def readNumbers (fs : List (List Nat × Json.Value)) : Option (Nat × Nat) :=
  match field fs "part", field fs "parts" with
  | some (.int part), some (.int parts) =>
    if 1 ≤ parts ∧ parts ≤ maxParts ∧ 0 ≤ part ∧ part < parts then some (part.toNat, parts.toNat)
    else none
  | _, _ => none

/-- `base64.b64decode` of a text; another than an ASCII text is refused -/
def readBase64 (data : List Nat) : Option Bytes :=
  if data.all (· < 128) then Base64.decode (data.map Char.ofNat) else none

/-- the checks of `_selected` on the fields of a part of the record -/
def readRow (recordId : String) (fs : List (List Nat × Json.Value)) : Except String (Row × Bytes) := do
  if fs.length ≠ fieldNames.length ∨ ¬ (fs.map (·.1)).Perm fieldNames then
    throw "Selected MSG has duplicate, missing or unknown fields"
  match field fs "schema" with
  | some (.str s) => if s ≠ points schema then throw "Unsupported selected MSG schema"
  | _ => throw "Unsupported selected MSG schema"
  let some (part, parts) := readNumbers fs | throw "Invalid selected part number or total"
  match field fs "sha256", field fs "data_b64" with
  | some (.str sha256), some (.str data) =>
    if isSha sha256 = false then throw "Invalid selected SHA or base64 field"
    let some chunk := readBase64 data | throw "Invalid selected base64"
    if (Base64.encode chunk).map Char.toNat ≠ data then throw "Noncanonical selected base64"
    if part ≠ parts - 1 ∧ chunk.length ≠ chunkBytes
        ∨ part = parts - 1 ∧ ¬ (1 ≤ chunk.length ∧ chunk.length ≤ chunkBytes) then
      throw "Invalid selected raw part length"
    return (⟨points schema, points recordId, part, parts, sha256, data⟩, chunk)
  | _, _ => throw "Invalid selected SHA or base64 field"

/-- `_selected`; `none` for a part of another record -/
def selectedPart (depth : Nat) (raw : Bytes) (recordId : String) :
    Except String (Option (Row × Bytes)) :=
  match (decodeUtf8 raw).bind (Json.loads depth) with
  | none => .error "Invalid or unattributable MSG JSON"
  | some (.obj fs) =>
    match fs.filter fun f => f.1 = points "record_id" with
    | [(_, .str id)] =>
      if id ≠ points recordId then .ok none
      else if ¬ raw.all (· < 128) then .error "Selected MSG must be ASCII"
      else if maxMessageBytes < raw.length ∨ compact raw = false then
        .error "Selected MSG must use bounded compact ASCII JSON"
      else (readRow recordId fs).map some
    | _ => .error "MSG has a missing, ambiguous or non-string record_id"
  | some _ => .error "MSG must be a JSON object with one record_id"

structure ReassemblyError where
  lineNumber : Nat
  message : String
  atEnd : Bool

inductive WarningCode where
  | lateInvalid | lateConflict
  deriving DecidableEq

structure ReassemblyWarning where
  code : WarningCode
  lineNumber : Nat
  deriving DecidableEq

/-- what `decode_messages` has put together so far -/
structure Decoder where
  selected : List (Nat × Row × Bytes)
  identity : Option (Nat × List Nat)
  completed : Option Bytes
  warnings : List ReassemblyWarning

def Decoder.initial : Decoder := ⟨[], none, none, []⟩

namespace Decoder

/-- `selected.get(part)` -/
def part (d : Decoder) (n : Nat) : Option (Row × Bytes) := d.selected.lookup n

/-- `selected[part] = ...`, where the part is there already or new -/
def put (d : Decoder) (n : Nat) (x : Row × Bytes) : List (Nat × Row × Bytes) :=
  if d.selected.any (·.1 = n) then d.selected.map fun y => if y.1 = n then (n, x) else y
  else d.selected ++ [(n, x)]

/-- the parts in their order -/
def joined (selected : List (Nat × Row × Bytes)) (parts : Nat) : Bytes :=
  (List.range parts).flatMap fun n => ((selected.lookup n).map (·.2)).getD []

/-- a part, before the record is complete -/
def accept (d : Decoder) (line : Nat) (row : Row) (chunk : Bytes) :
    Except ReassemblyError Decoder :=
  let identity := d.identity.getD (row.parts, row.sha256)
  if identity ≠ (row.parts, row.sha256) then
    .error ⟨line, "Conflicting selected record metadata", false⟩
  else if (d.part row.part).isSome ∧ d.part row.part ≠ some (row, chunk) then
    .error ⟨line, "Conflicting selected duplicate part", false⟩
  else
    let selected := d.put row.part (row, chunk)
    if selected.length = identity.1 then
      let original := joined selected identity.1
      if ¬ (1 ≤ original.length ∧ original.length ≤ maxRecordBytes)
          ∨ (Sha256.hexdigest original).map Char.toNat ≠ identity.2 then
        .error ⟨line, "Selected record length or whole SHA does not match", false⟩
      else .ok { d with selected := selected, identity := some identity, completed := some original }
    else .ok { d with selected := selected, identity := some identity }

def warn (d : Decoder) (code : WarningCode) (line : Nat) : Decoder :=
  { d with warnings := d.warnings ++ [⟨code, line⟩] }

/-- one message of the archive -/
def step (depth : Nat) (recordId : String) (d : Decoder) (line : Nat) (raw : Bytes) :
    Except ReassemblyError Decoder :=
  match selectedPart depth raw recordId with
  | .error message =>
    if d.completed.isNone then .error ⟨line, message, false⟩ else .ok (d.warn .lateInvalid line)
  | .ok none => .ok d
  | .ok (some (row, chunk)) =>
    if d.completed.isSome then
      if some (row.parts, row.sha256) ≠ d.identity ∨ d.part row.part ≠ some (row, chunk) then
        .ok (d.warn .lateConflict line)
      else .ok d
    else d.accept line row chunk

/-- the messages from the line `line` on -/
def steps (depth : Nat) (recordId : String) (d : Decoder) (line : Nat) :
    List Bytes → Except ReassemblyError Decoder
  | [] => .ok d
  | raw :: rest => do
    let d ← d.step depth recordId line raw
    steps depth recordId d (line + 1) rest

end Decoder

inductive DecodeError where
  | value (message : String)
  | reassembly (error : ReassemblyError)

/-- `decode_messages`: the record and the warnings -/
def decodeMessages (depth : Nat) (messages : List Bytes) (recordId : String) :
    Except DecodeError (Bytes × List ReassemblyWarning) :=
  match requireId recordId with
  | .error message => .error (.value message)
  | .ok () =>
    match Decoder.initial.steps depth recordId 1 messages with
    | .error e => .error (.reassembly e)
    | .ok d =>
      match d.completed with
      | none => .error (.reassembly ⟨messages.length, "Selected record is missing or incomplete", true⟩)
      | some original => .ok (original, d.warnings)

end Netops.Syslog

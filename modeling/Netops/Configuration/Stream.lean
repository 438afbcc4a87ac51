import Netops.Configuration.Policy
import Netops.Lib.Shlex
import Netops.Lib.Utf8

/-!
# The stream redactor (`StreamRedactor` of `configuration.py`)

Bytes come in chunks, are decoded and cut into physical lines; quotes join physical lines to logical
records, and every record adds to the content that may be shown.

* `Book`, `record`       what the records lead to: the content, the open sections, the counters and
                         the buffer of a header pair;
* `Scan`, `line`, `feed` how the bytes become records.  `State.seen` lists the records, for the
                         statements about them only;
* `finish`, `redact`, `output`.

A script inside of a configuration is redacted by a redactor of its own (`embedded`), up to two levels
deep.  The checks of the memory that the process may use are taken to pass, and a failure is known by
its kind only, not by line and context.
-/

namespace Netops.Configuration

abbrev Bytes := List UInt8

/-- why no content is returned: a limit was exceeded, the redaction could not be verified, the stream
is not complete, or the device refused the command -/
inductive Failure where
  | limit | unverifiable | incomplete | refused
  deriving DecidableEq, Repr

/-- what a header pair has in its buffer: a line, or the value of the pair -/
inductive Item where
  | line (t : Text)
  | header (context : Context) (field : Text) (values : List Text)

/-- what Python brings along: `hmac.digest` with the key of the process, `str.isalnum`, and how many
bytes the buffer of a header pair takes -/
structure Runtime where
  digest : Bytes → Bytes
  isalnum : Char → Bool
  siblingMemory : List Item → Option Text → Nat

/-- the arguments of a `StreamRedactor` -/
structure Setup where
  rt : Runtime
  forbidden : List Text
  «section» : Text
  policy : Option FullConfigPolicy
  limits : Limits
  scriptMode : Bool

def Setup.maximum (su : Setup) : Nat :=
  if su.section = text "all" then su.limits.allBytes else su.limits.sectionBytes

/-! ## content -/

/-- `ContentBuilder`: the content so far and the end of it in which a marker may have begun -/
structure Builder where
  data : Bytes
  tail : Bytes

/-- what must not occur in the content -/
def Setup.markers (su : Setup) : List Bytes :=
  (su.forbidden.filter (· ≠ [])).map Utf8.encode ++
    if su.policy.isNone then
      ["-----BEGIN", "ENC ", "$6$", "$9$"].map fun m => Utf8.encode (text m)
    else []

/-- one less than the length of the longest marker -/
def Setup.overlap (su : Setup) : Nat := (su.markers.map List.length).foldr max 0 - 1

/-- `ContentBuilder.add` -/
def Builder.add (su : Setup) (t : Text) (b : Builder) : Except Failure Builder :=
  if t.any (fun c => 128 ≤ c.toNat) then .error .unverifiable
  else
    let data := t.map fun c => UInt8.ofNat c.toNat
    if b.data.length + data.length > su.maximum then .error .limit
    else
      let combined := b.tail ++ data
      if su.markers.any fun m => occurs m combined then .error .unverifiable
      else .ok ⟨b.data ++ data, combined.drop (combined.length - su.overlap)⟩

/-! ## the book -/

/-- an open block: `config` with its name, `edit` with what stands for its name -/
inductive Part where
  | config (name : Text)
  | edit (key : Bytes)

def Part.bytes : Part → Bytes
  | .config name => Utf8.encode (text "config") ++ 0 :: Utf8.encode name
  | .edit key => Utf8.encode (text "edit") ++ 0 :: key

structure Book where
  started : Bool
  header : Bool
  configured : Bool
  operationalSeen : Bool
  result : Builder
  hidden : List (Bytes × Bytes)
  /-- `stack` and `path`, the innermost block last -/
  path : List Part
  editIndex : Nat
  count : Nat
  credentialCount : Nat
  unverifiedCount : Nat
  unsupportedFormatCount : Nat
  unverifiedFields : List Text
  unverifiedTruncated : Bool
  siblingOutput : List Item
  siblingName : Option Text
  siblingNameCount : Nat
  siblingValueCount : Nat

/-- a new redactor; a nested one goes on with the numbers of the credentials -/
def Book.start (credentialCount : Nat) : Book where
  started := false
  header := false
  configured := false
  operationalSeen := false
  result := ⟨[], []⟩
  hidden := []
  path := []
  editIndex := 0
  count := 0
  credentialCount := credentialCount
  unverifiedCount := 0
  unsupportedFormatCount := 0
  unverifiedFields := []
  unverifiedTruncated := false
  siblingOutput := []
  siblingName := none
  siblingNameCount := 0
  siblingValueCount := 0

/-- `summary()` -/
structure Summary where
  credentialRedactions : Nat
  unverifiedCount : Nat
  unsupportedFormatCount : Nat
  unverifiedFields : List Text
  unverifiedTruncated : Bool
  deriving DecidableEq

/-- what a run returns -/
structure Output where
  content : Bytes
  hidden : List (Bytes × Bytes)
  count : Nat
  summary : Summary
  deriving DecidableEq

/-- a script inside of a configuration, as its own redactor shows it -/
structure Embedded where
  text : Text
  credentialCount : Nat
  count : Nat

namespace Book
variable (su : Setup) (b : Book)

def context : Context := b.path.filterMap fun
  | .config name => some name
  | .edit _ => none

def inConfig : Bool := match b.path.getLast? with
  | some (.config _) => true
  | _ => false

def inEdit : Bool := match b.path.getLast? with
  | some (.edit _) => true
  | _ => false

/-- `_credential` -/
def credential : Text × Book :=
  (text "<REDACTED:credential#" ++ number (b.credentialCount + 1) ++ text ">",
    { b with credentialCount := b.credentialCount + 1 })

/-- `_unverified` -/
def unverified (context : Context) (field : Text) (unsupported : Bool) : Text × Book :=
  let label := (joinWith (text " / ") (context ++ [field])).take 768
  let known := label ∈ b.unverifiedFields ∨ b.unverifiedFields.length < 32
  (if unsupported then text "<UNVERIFIED:unsupported-format>"
    else text "<UNVERIFIED:unclassified-field>",
    { b with
      unverifiedCount := b.unverifiedCount + 1
      unsupportedFormatCount := b.unsupportedFormatCount + if unsupported then 1 else 0
      unverifiedFields :=
        if label ∉ b.unverifiedFields ∧ b.unverifiedFields.length < 32 then
          b.unverifiedFields ++ [label]
        else b.unverifiedFields
      unverifiedTruncated := b.unverifiedTruncated || !decide known })

/-- a line of the content -/
def add (t : Text) : Except Failure Book :=
  (b.result.add su t).map fun result => { b with result }

/-- one more was withheld -/
def withhold (withheld : Bool) : Book := { b with count := b.count + if withheld then 1 else 0 }

/-- `_sibling_add` -/
def siblingAdd (item : Item) : Except Failure Book :=
  let items := b.siblingOutput ++ [item]
  if su.rt.siblingMemory items b.siblingName > 1024 * 1024 then .error .unverifiable
  else .ok { b with siblingOutput := items }

/-- what is shown of the value of a header pair -/
def pairHeader (values : List Text) : Header :=
  match values, b.siblingName with
  | [[]], _ => .plain []
  | [value], some name =>
    if b.siblingNameCount = 1 ∧ b.siblingValueCount = 1 then
      let start := name ++ [':']
      match inlineHeader [start ++ value] with
      | .unknown => .unknown
      | .plain t => .plain (t.drop start.length)
      | .credential kept => .credential (kept.drop start.length)
    else .unknown
  | _, _ => .unknown

/-- an item of the buffer goes to the content -/
def flushItem (item : Item) : Except Failure Book :=
  match item with
  | .line t => b.add su t
  | .header context field values => do
    let (value, withheld, b) := match b.pairHeader values with
      | .unknown =>
        let (value, b) := b.unverified context field true
        (value, true, b)
      | .plain t => (quotedValue t, false, b)
      | .credential kept =>
        let (value, b) := b.credential
        (quotedValue (kept ++ value), true, b)
    let b ← b.add su (text "    set " ++ field ++ ' ' :: value ++ ['\n'])
    return b.withhold withheld

def flushItems : List Item → Book → Except Failure Book
  | [], b => .ok b
  | item :: rest, b => do flushItems rest (← b.flushItem su item)

/-- `_sibling_flush` -/
def siblingFlush : Except Failure Book := do
  let b ← flushItems su b.siblingOutput b
  return { b with
    siblingOutput := []
    siblingName := none
    siblingNameCount := 0
    siblingValueCount := 0 }

/-- which half of a header pair the record is about, if it is about one -/
def noteSibling (policy : FullConfigPolicy) (context : Context) (words : List Text) : Book :=
  match policy.sibling context, words with
  | some (nameField, valueField), command :: field :: values =>
    if command ≠ text "set" ∧ command ≠ text "unset" then b
    else if field = nameField then
      { b with
        siblingNameCount := min 2 (b.siblingNameCount + 1)
        siblingName :=
          if min 2 (b.siblingNameCount + 1) = 1 ∧ command = text "set" ∧ values.length = 1 ∧
              (context, field) ∉ policy.secretFields ∧ publicValue su.forbidden values ∧
              Regex.fullMatch (Regex.plus (.char tokenChar)) (values.headD []) then values.head?
          else none }
    else if field = valueField then
      { b with siblingValueCount := min 2 (b.siblingValueCount + 1) }
    else b
  | _, _ => b

end Book

/-! ## one record -/

/-- the record as it is shown, and whether something was withheld; `none` where the value of a header
pair has to wait -/
abbrev Shown := Option (Text × Bool)

section
variable (su : Setup) (embedded : Nat → Text → Except Failure (Option Embedded))

/-- `_embedded_cli` -/
def embeddedCli (values : List Text) (b : Book) : Except Failure (Option Text × Book) :=
  match values with
  | [[]] => .ok (some [], b)
  | [script] => do
    match ← embedded b.credentialCount script with
    | none => return (none, b)
    | some e => return (some e.text, { b with
        credentialCount := e.credentialCount
        count := b.count + e.count })
  | _ => .ok (none, b)

/-- a script of an automation -/
def isScript (policy : FullConfigPolicy) (context : Context) (field : Text) : Bool :=
  policy.platform = .fortios && field = text "script" &&
    [[], [text "global"], [text "vdom"]].any fun start =>
      [text "system auto-script", text "system automation-action"].any fun name =>
        context = start ++ [name]

/-- `set` with a policy; `b` already has the counts of a header pair -/
def showSet (policy : FullConfigPolicy) (context : Context) (field : Text) (values : List Text)
    (b : Book) : Except Failure (Shown × Book) :=
  let item := (context, field)
  let set := text "set " ++ field ++ [' ']
  let withheld := fun (x : Text × Book) => (some (set ++ x.1, true), x.2)
  if item ∈ policy.secretFields then .ok (withheld b.credential)
  else if isScript policy context field then do
    let (script, b) ← embeddedCli embedded values b
    match script with
    | none => return withheld (b.unverified context (text "script") true)
    | some script => return (some (set ++ quotedValue script, false), b)
  else if !publicValue su.forbidden values then .ok (withheld b.credential)
  else if item ∈ policy.unverifiedFields ∧ values = [[]] then
    .ok (some (set ++ text "\"\"", false), b)
  else if (policy.sibling context).any fun pair => field = pair.2 then .ok (none, b)
  else if item ∈ policy.inlineHeaderFields then
    match inlineHeader values with
    | .unknown => .ok (withheld (b.unverified context field true))
    | .plain t => .ok (some (set ++ quotedValue t, false), b)
    | .credential kept =>
      let (value, b) := b.credential
      .ok (some (set ++ quotedValue (kept ++ value), true), b)
  else if item ∈ policy.unverifiedFields ∨ policy.isOpaque context then
    .ok (withheld (b.unverified context field true))
  else if item ∉ policy.publicFields then .ok (withheld (b.unverified context field false))
  else .ok (some (set ++ joinWith [' '] (values.map quotedValue), false), b)

/-- `set` without a policy -/
def showSetMinimal (field : Text) (values : List Text) : Text :=
  if field = text "status" ∧ (values = [text "up"] ∨ values = [text "down"]) then
    text "set status " ++ values.headD []
  else text "set " ++ field ++ text " <REDACTED>"

def Setup.grammar : Regex Char :=
  match su.policy with
  | some policy => policy.platform.grammar
  | none => named Char.isLower fun c => c.isLower || c.isDigit || c = '-'

/-- a name after `edit` or `config rule iotd`: shown if names of this section are public -/
def showName (start : Text) (shown : Bool) (context : Context) (field name : Text) (b : Book) :
    Shown × Book :=
  if !shown then
    let (value, b) := b.unverified context field false
    (some (start ++ value, true), b)
  else if !publicValue su.forbidden [name] then
    let (value, b) := b.credential
    (some (start ++ value, true), b)
  else (some (start ++ quotedValue name, false), b)

/-- `config rule iotd NAME`, which FortiOS writes without quotes -/
def showRule (policy : FullConfigPolicy) (words : List Text) (b : Book) :
    Except Failure (Shown × Book) :=
  let context := b.context
  let name := words.getD 2 []
  if ¬ (words.length = 3 ∧ (context = [] ∨ context = [text "global"] ∨ context = [text "vdom"]) ∧
      name ≠ [] ∧ name.length ≤ 63 ∧ name.head?.any su.rt.isalnum ∧
      name.all fun c => su.rt.isalnum c || among "_+().-" c) then .error .unverifiable
  else if b.path = [] ∧ su.section ≠ text "all" ∧ su.section ≠ text "rule iotd" then
    .error .unverifiable
  else
    let b := { b with
      configured := true
      path := b.path ++ [.config (text "rule iotd")] }
    .ok (showName su (text "config rule iotd ")
      (context ++ [text "rule iotd"] ∈ policy.publicEditSections) context (text "rule-iotd-name")
      name b)

def showConfig (words : List Text) (b : Book) : Except Failure (Shown × Book) :=
  let name := joinWith [' '] words
  if words = [text "vdom"] ∧ ¬ su.policy.any (fun policy => policy.allowVdom) then
    .error .unverifiable
  else if b.path = [] ∧ su.section ≠ text "all" ∧ name ≠ su.section then .error .unverifiable
  else .ok (some (text "config " ++ name, false), { b with
    configured := true
    path := b.path ++ [.config name] })

def showEdit (name : Text) (b : Book) : Shown × Book :=
  let context := b.context
  let key := match su.policy with
    | some _ => Utf8.encode (number (b.editIndex + 1))
    | none => su.rt.digest (Utf8.encode name)
  let b := { b with
    editIndex := b.editIndex + 1
    path := b.path ++ [.edit key] }
  match su.policy with
  | none => (some (text "edit <REDACTED>", false), b)
  | some policy =>
    showName su (text "edit ") (context ∈ policy.publicEditSections) context
      (text "edit-name") name b

/-- the branches of `_record`; `some none` where the value of a header pair has to wait, `none` where
the command is not known -/
def showCommand (command : Text) (words : List Text) (b : Book) :
    Except Failure (Option Shown × Book) :=
  let found := fun (x : Shown × Book) => (some x.1, x.2)
  let field := words.headD []
  let isRule := command = text "config" ∧ words.length ≥ 3 ∧
    words.take 2 = [text "rule", text "iotd"]
  match su.policy with
  | some policy =>
    if policy.platform = .fortios ∧ isRule then (showRule su policy words b).map found
    else rest found field (fun values b => showSet su embedded policy b.context field values b)
  | none =>
    rest found field fun values b => .ok (some (showSetMinimal field values, false), b)
where
  rest (found : Shown × Book → Option Shown × Book) (field : Text)
      (showSet : List Text → Book → Except Failure (Shown × Book)) :
      Except Failure (Option Shown × Book) :=
    if command = text "config" ∧ words ≠ [] ∧ words.all (Regex.fullMatch su.grammar) then
      (showConfig su words b).map found
    else if command = text "edit" ∧ words.length = 1 ∧ b.inConfig then
      .ok (found (showEdit su field b))
    else if command = text "next" ∧ words = [] ∧ b.inEdit then
      .ok (some (some (text "next", false)), { b with path := b.path.dropLast })
    else if command = text "end" ∧ words = [] ∧ b.inConfig then
      .ok (some (some (text "end", false)), { b with path := b.path.dropLast })
    else if (command = text "set" ∨ command = text "unset") ∧ words ≠ [] ∧ b.path ≠ [] ∧
        Regex.fullMatch su.grammar field then
      if command = text "unset" ∧ words.length = 1 then
        .ok (some (some (text "unset " ++ field, false)), b)
      else if command = text "set" ∧ words.length ≥ 2 then (showSet words.tail b).map found
      else .ok (none, b)
    else .ok (none, b)

/-- `_operational_cli` -/
def operational (words : List Text) (b : Book) : Option (Text × Bool) × Book :=
  match operationalPrefix words with
  | none => (none, b)
  | some (n, raw) =>
    if !publicValue su.forbidden (words.take n) then (none, b)
    else
      let step := fun (x : List Text × Bool × Book) (word : Text) =>
        if publicValue su.forbidden [word] then
          (x.1 ++ [if raw then word else quotedValue word], x.2)
        else
          let (value, b) := x.2.2.credential
          (x.1 ++ [value], true, b)
      let (rendered, withheld, b) := (words.drop n).foldl step (words.take n, false, b)
      (some (joinWith [' '] rendered, withheld), b)

/-- the four bytes of a length -/
def lengthBytes (n : Nat) : Bytes :=
  [n / 16777216, n / 65536, n / 256, n].map fun x => UInt8.ofNat (x % 256)

/-- a record that was withheld is known by keyed digests of its place and its text -/
def hide (command field line : Text) (b : Book) : Except Failure Book :=
  let parts := b.path.map Part.bytes ++
    [Utf8.encode command, if command = text "set" then Utf8.encode field else []]
  let material := parts.flatMap fun part => lengthBytes part.length ++ part
  let location := (su.rt.digest material).take 16
  if b.hidden.any fun record => record.1 = location then .error .unverifiable
  else .ok { b with
    hidden := b.hidden ++ [(location, (su.rt.digest (Utf8.encode line)).take 16)] }

/-- what is shown of a record goes to the content, or to the buffer of a header pair -/
def emitShown (command line : Text) (words : List Text) (sibling : Bool) (shown : Shown)
    (context : Context) (b : Book) : Except Failure Book :=
  let isField := command = text "set" ∨ command = text "unset"
  match shown with
  | none => b.siblingAdd su (.header context (words.headD []) words.tail)
  | some (clean, withheld) => do
    let withheld := withheld || (su.policy.isNone && occurs (text "<REDACTED>") clean)
    let b := b.withhold withheld
    let b ← if withheld ∧ su.policy.isNone then hide su command (words.headD []) line b else .ok b
    let output := (if isField then text "    " ++ clean else clean) ++ ['\n']
    if sibling ∧ isField then b.siblingAdd su (.line output) else b.add su output

/-- a record that is a command -/
def recordWords (line command : Text) (words : List Text) (b : Book) : Except Failure Book := do
  let context := b.context
  let b ← if command ∈ ["config", "edit", "next", "end"].map text then b.siblingFlush su else .ok b
  let b := match su.policy with
    | some policy => b.noteSibling su policy context (command :: words)
    | none => b
  let (shown, b) ← showCommand su embedded command words b
  let sibling := su.policy.any fun policy => (policy.sibling context).isSome
  match shown with
  | some shown => emitShown su command line words sibling shown context b
  | none =>
    if su.scriptMode ∧ su.policy.any (fun policy => policy.platform = .fortios) ∧ b.path = [] then
      match operational su (command :: words) b with
      | (some shown, b) =>
        emitShown su command line words sibling (some shown) context
          { b with operationalSeen := true }
      | (none, _) => .error .unverifiable
    else .error .unverifiable

/-- the words of a record; without a policy the value of a field is not looked at -/
def wordsOf (line : Text) : Option (List Text) :=
  let rest := line.dropWhile Fortios.isBlank
  let afterSet := rest.drop 3
  let field := afterSet.dropWhile Fortios.isBlank
  let name := field.takeWhile fun c => c.isLower || c.isDigit || c = '-'
  let afterName := field.drop name.length
  if su.policy.isNone ∧ rest.take 3 = text "set" ∧ afterSet.head?.any Fortios.isBlank ∧
      name.head?.any Char.isLower ∧ afterName.head?.any Fortios.isBlank ∧ name ≠ text "status" ∧
      strip (afterName.dropWhile Fortios.isBlank) ≠ [] then
    some [text "set", name, text "<private-value>"]
  else Shlex.split line

/-- a comment: only a header before the first command -/
def comment (line : Text) (b : Book) : Except Failure Book :=
  let known := match su.policy with
    | some policy => policy.header (strip line)
    | none => Regex.fullMatch knownHeader (strip line)
  if b.started ∨ '\n' ∈ line ∨ !known then .error .unverifiable
  else do
    let b ← match su.policy with
      | some _ =>
        if publicValue su.forbidden [line] then b.add su (strip line ++ ['\n'])
        else
          let (value, b) := b.credential
          b.add su (text "# " ++ value ++ ['\n'])
      | none => if b.header then .ok b else b.add su (text "# configuration\n")
    return { b with header := true }

/-- `_record` -/
def record (line : Text) (b : Book) : Except Failure Book :=
  if strip line = [] then .ok b
  else if (lstrip line).head? = some '#' then comment su line b
  else match wordsOf su line with
    | some (command :: words) => recordWords su embedded line command words { b with started := true }
    | _ => .error .unverifiable

end

/-! ## lines -/

structure Scan where
  pending : List Text
  logicalBytes : Nat
  quote : Option Char
  frameFirst : Bool
  frameEnded : Bool
  framePrompt : Option Text
  refused : Bool

structure State where
  decoder : Option Utf8.Pending
  rawBytes : Nat
  afterCr : Bool
  physical : List Text
  physicalBytes : Nat
  scan : Scan
  book : Book
  /-- the logical records so far; nothing reads them -/
  seen : List Text

def State.start (frameFirst : Bool) (credentialCount : Nat) : State where
  decoder := none
  rawBytes := 0
  afterCr := false
  physical := []
  physicalBytes := 0
  scan :=
    { pending := []
      logicalBytes := 0
      quote := none
      frameFirst := frameFirst
      frameEnded := false
      framePrompt := none
      refused := false }
  book := .start credentialCount
  seen := []

/-- the prompt at the start of the first line (`prompt.prefix(platform).match`) -/
def promptPrefix (line : Text) : Option Text :=
  let name := line.takeWhile fun c => c ≠ '#' && c ≠ '$' && c ≠ '\n'
  match line.drop name.length with
  | marker :: ' ' :: _ =>
    if 2 ≤ name.length ∧ name.getLast? = some ' ' ∧ (marker = '#' ∨ marker = '$') then
      some (name ++ [marker, ' '])
    else none
  | _ => none

/-- the quotes that are open after the rest of a line; `none` where a backslash is its last
character -/
def scanQuotes (quote : Option Char) (escaped : Bool) : Text → Option (Option Char)
  | [] => if escaped then none else some quote
  | c :: rest =>
    if escaped then scanQuotes quote false rest
    else if c = '\\' ∧ quote ≠ some '\'' then scanQuotes quote true rest
    else match quote with
      | some q => scanQuotes (if c = q then none else some q) false rest
      | none => scanQuotes (if c = '"' ∨ c = '\'' then some c else none) false rest

/-- what the scan of a line leads to: nothing yet, or a logical record -/
abbrev Scanned := Scan × Option Text

section
variable (su : Setup)

/-- the prompt of the first line is taken off -/
def takeFrame (line : Text) (s : Scan) : Text × Scan :=
  if s.frameFirst then
    match promptPrefix line with
    | some found => (line.drop found.length,
      { s with
        frameFirst := false
        framePrompt := some (rstrip found) })
    | none => (line, { s with frameFirst := false })
  else (line, s)

def isRefusal (line : Text) : Bool := Regex.fullMatch fortiadcRefusal (strip line)

/-- the line is the prompt again -/
def atPrompt (line : Text) (s : Scan) : Bool := s.framePrompt = some (rstrip line)

/-- the part of `_line` before the quotes: `none` where the line is not part of a record -/
def scanFrame (line : Text) (b : Book) (s : Scan) : Except Failure (Option Unit × Scan) :=
  let refusal := su.policy.any (fun policy => policy.platform = .fortiadc) && !b.started &&
    !b.configured && s.pending.isEmpty && s.quote.isNone && isRefusal line
  if s.refused ∨ refusal then
    if atPrompt line s ∧ !s.frameEnded then
      .ok (none, { s with
        frameEnded := true
        refused := true })
    else if strip line ≠ [] ∧ (s.frameEnded ∨ !isRefusal line) then .error .unverifiable
    else .ok (none, { s with refused := true })
  else if s.quote = none ∧ atPrompt line s then
    if b.path ≠ [] ∨ s.pending ≠ [] ∨ !b.configured then .error .unverifiable
    else .ok (none, { s with frameEnded := true })
  else if s.frameEnded ∧ strip line ≠ [] then .error .unverifiable
  else .ok (some (), s)

/-- the part of `_line` that joins physical lines -/
def scanRecord (line : Text) (s : Scan) : Except Failure Scanned :=
  let logicalBytes := s.logicalBytes + byteLength line + 1
  if byteLength line > su.limits.physicalLineBytes then .error .limit
  else if logicalBytes > su.limits.logicalRecordBytes then .error .limit
  else match scanQuotes s.quote false line with
    | none => .error .unverifiable
    | some (some q) => .ok ({ s with
        pending := s.pending ++ [line]
        logicalBytes := logicalBytes
        quote := some q }, none)
    | some none =>
      let logical := joinWith ['\n'] (s.pending ++ [line])
      if occurs (text "--More--") logical then .error .unverifiable
      else .ok ({ s with
        pending := []
        logicalBytes := 0
        quote := none }, some logical)

/-- `_line` up to `_record` -/
def scanLine (b : Book) (physical : Text) (s : Scan) : Except Failure Scanned := do
  let (line, s) := takeFrame physical s
  match ← scanFrame su line b s with
  | (none, s) => return (s, none)
  | (some _, s) => scanRecord su line s

variable (embedded : Nat → Text → Except Failure (Option Embedded))

/-- `_line` -/
def line (s : State) : Except Failure State := do
  let (scan, logical) ← scanLine su s.book s.physical.flatten s.scan
  let s := { s with
    physical := []
    physicalBytes := 0
    scan := scan }
  match logical with
  | none => return s
  | some logical =>
    let book ← record su embedded logical s.book
    return { s with
      book := book
      seen := s.seen ++ [logical] }

/-! ## chunks -/

/-- control characters, line separators and the replacement character are refused -/
def isBad (c : Char) : Bool :=
  let n := c.toNat
  n ≤ 8 || n = 11 || n = 12 || (14 ≤ n && n ≤ 31) || n = 0x85 || n = 0x2028 || n = 0x2029 ||
    n = 0xfffd

/-- `text.replace('\r\n', '\n').replace('\r', '\n')` -/
def newlines : Text → Text
  | [] => []
  | '\r' :: '\n' :: rest => '\n' :: newlines rest
  | '\r' :: rest => '\n' :: newlines rest
  | c :: rest => c :: newlines rest

/-- a part of a physical line -/
def addPart (part : Text) (s : State) : Except Failure State :=
  let physicalBytes := s.physicalBytes + byteLength part
  if physicalBytes > su.limits.physicalLineBytes then .error .limit
  else .ok { s with
    physicalBytes := physicalBytes
    physical := s.physical ++ [part] }

/-- the parts of a chunk; all but the last one end a line -/
def feedParts : List Text → State → Except Failure State
  | [], s => .ok s
  | [part], s => addPart su part s
  | part :: rest, s => do
    let s ← addPart su part s
    let s ← line su embedded s
    feedParts rest s

/-- the text of a chunk -/
def feedText (t : Text) (s : State) : Except Failure State :=
  if t = [] then .ok s
  else if t.any isBad then .error .unverifiable
  else
    let t := if s.afterCr ∧ t.head? = some '\n' then t.tail else t
    let s := { s with afterCr := t.getLast? = some '\r' }
    feedParts su embedded (Fortios.splitLines (newlines t)) s

/-- `feed` -/
def feed (data : Bytes) (s : State) : Except Failure State :=
  let rawBytes := s.rawBytes + data.length
  if rawBytes > su.maximum then .error .limit
  else match Utf8.decode s.decoder data with
    | none => .error .unverifiable
    | some (t, decoder) => feedText su embedded t { s with
        rawBytes := rawBytes
        decoder := decoder }

def feedAll : List Bytes → State → Except Failure State
  | [], s => .ok s
  | data :: rest, s => do feedAll rest (← feed su embedded data s)

/-- a last line without a newline -/
def lastLine (s : State) : Except Failure State :=
  if s.physical.any (· ≠ []) then line su embedded s else .ok s

/-- everything is closed, and there was a configuration -/
def finished (s : State) : Except Failure State :=
  if s.scan.pending ≠ [] ∨ s.scan.quote ≠ none ∨ s.book.path ≠ [] then .error .incomplete
  else if s.scan.refused then .error .refused
  else if s.book.configured ∨ su.scriptMode ∧ s.book.operationalSeen then .ok s
  else .error .unverifiable

/-- `finish` -/
def finish (s : State) : Except Failure State :=
  if s.rawBytes = 0 ∨ s.decoder ≠ none then .error .incomplete
  else (lastLine su embedded s).bind (finished su)

end

/-- what `finish` and `summary` return -/
def Book.output (b : Book) : Output where
  content := b.result.data
  hidden := b.hidden
  count := b.count
  summary := ⟨b.credentialCount, b.unverifiedCount, b.unsupportedFormatCount, b.unverifiedFields,
    b.unverifiedTruncated⟩

/-- the redactor of a script: its content, unless it could not be verified; only an exceeded limit
ends the capture.  `n` is how much deeper scripts may be nested. -/
def embeddedAt : Nat → Setup → Nat → Text → Except Failure (Option Embedded)
  | 0, _, _, _ => .ok none
  | n+1, su, credentialCount, script =>
    let nested := { su with
      «section» := text "all"
      scriptMode := true }
    let inner := embeddedAt n nested
    match (feed nested inner (Utf8.encode script) (.start false credentialCount)).bind
        (finish nested inner) with
    | .error .limit => .error .limit
    | .error _ => .ok none
    | .ok s =>
      if (s.book.configured ∨ s.book.operationalSeen) ∧ s.book.unverifiedCount = 0 then
        .ok (some ⟨s.book.result.data.map fun b => Char.ofNat b.toNat, s.book.credentialCount,
          s.book.count⟩)
      else .ok none

/-- the chunks are fed in order, then `finish` -/
def redact (su : Setup) (chunks : List Bytes) : Except Failure State :=
  (feedAll su (embeddedAt 2 su) chunks (.start true 0)).bind (finish su (embeddedAt 2 su))

/-- a run of the redactor -/
def output (su : Setup) (chunks : List Bytes) : Except Failure Output :=
  (redact su chunks).map fun s => s.book.output

end Netops.Configuration

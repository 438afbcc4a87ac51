import Netops.Fortios.Parse
import Netops.Lib.Json
import Netops.Lib.Regex

/-!
# What of a configuration may be shown (`configuration.py`)

The policy of a full configuration, the limits of a capture and the tests on values, headers and
commands.

* `FullConfigPolicy`     which fields are public, secret or not verified, with the checks of
                         `__post_init__` as a field;
* `publicValue`, `quotedValue`, `inlineHeader`;
* `operational`          `_operational_cli`: which words of a diagnostic command are shown.
-/

namespace Netops.Configuration

open Regex
export Fortios (Text)

/-- `str.strip` and its halves -/
def isSpace (c : Char) : Bool := Fortios.isSpace c
def strip (t : Text) : Text := Fortios.strip t
def lstrip (t : Text) : Text := t.dropWhile isSpace
def rstrip (t : Text) : Text := (t.reverse.dropWhile isSpace).reverse

def text (s : String) : Text := s.toList

/-- `sep.join(parts)` -/
def joinWith (sep : Text) : List Text → Text
  | [] => []
  | [t] => t
  | t :: ts => t ++ sep ++ joinWith sep ts

/-- `t.split(' ')` -/
def splitBlanks : Text → List Text
  | [] => [[]]
  | c :: cs =>
    if c = ' ' then [] :: splitBlanks cs
    else match splitBlanks cs with
      | [] => [[c]]
      | w :: ws => (c :: w) :: ws

/-- `part in t` -/
def occurs {α : Type} [DecidableEq α] (part : List α) (t : List α) : Bool :=
  t.tails.any fun rest => part.isPrefixOf rest

/-- `len(t.encode())` -/
def byteLength (t : Text) : Nat := (t.map Char.utf8Size).sum

def number (n : Nat) : Text := Nat.toDigits 10 n

/-! ## expressions -/

def isLetter (c : Char) : Bool := c.isLower || c.isUpper
def isAlnum (c : Char) : Bool := isLetter c || c.isDigit
def among (s : String) (c : Char) : Bool := s.toList.contains c

def exactly (s : String) : Regex Char := word (s.toList.map fun c d => d = c)
def anyOf (ws : List String) : Regex Char := oneOf (ws.map exactly)
def blanks : Regex Char := .star (.char Fortios.isBlank)

/-- one character and then any number of others -/
def named (first rest : Char → Bool) : Regex Char := .seq (.char first) (.star (.char rest))

/-- what may follow the name of a header -/
def headerEnd : Regex Char := maybe (.seq (.char (among "= :")) (.star (.char (· ≠ '\n'))))

/-- `_HEADER` -/
def knownHeader : Regex Char :=
  .seq (exactly "#")
    (.seq (anyOf ["config-version", "conf_file_ver", "buildno", "global_vdom"]) headerEnd)

/-- `_FORTIADC_REFUSAL` -/
def fortiadcRefusal : Regex Char :=
  .alt
    (.seq (exactly "Parsing error at '")
      (.seq (.seq (.char nameChar) (upTo (.char nameChar) 63)) (.seq (exactly "'. err=")
        (.seq (maybe (exactly "-")) digits))))
    (.seq (exactly "Command fail. Return code is ")
      (.seq (maybe (.char (among "+-"))) (.seq digits (.seq (exactly " (")
        (.seq (.alt (.seq (.char inside) (upTo (.char inside) 127)) (exactly "(null)"))
          (exactly ")"))))))
where
  nameChar (c : Char) : Bool := isAlnum c || among "_.-" c
  inside (c : Char) : Bool := c ≠ '(' && c ≠ ')' && c ≠ '\r' && c ≠ '\n'
  digits : Regex Char := .seq (.char Char.isDigit) (upTo (.char Char.isDigit) 5)

/-- `_PRIVATE_PEM` -/
def privatePem : Regex Char :=
  .seq (exactly "-----BEGIN ")
    (.seq (.star (.seq (plus (.char fun c => c.isUpper || c.isDigit)) (exactly " ")))
      (.seq (exactly "PRIVATE KEY") (.seq (maybe (exactly " BLOCK")) (exactly "-----"))))

/-- `_CREDENTIAL_HASH` -/
def credentialHash : Regex Char :=
  .seq (exactly "$") (.seq (.alt (.char Char.isDigit) (.alt (exactly "apr1")
    (.seq (exactly "2") (.char (among "aby"))))) (exactly "$"))

/-- a character of `_HTTP_TOKEN` -/
def tokenChar (c : Char) : Bool := isAlnum c || among "!#$%&'*+.^_`|~-" c

/-- `_SHELL_ARGUMENT` -/
def shellArgument : Regex Char :=
  .alt (plus (.char argumentChar))
    (.seq (exactly "-") (.seq (maybe (exactly "-"))
      (.seq (named isAlnum fun c => isAlnum c || among "_-" c)
        (.seq (exactly "=") (plus (.char argumentChar))))))
where
  argumentChar (c : Char) : Bool := isAlnum c || among "_./+-" c

/-! ## limits and policy -/

/-- `ConfigurationLimits`; the times and the memory of a capture are left out -/
structure Limits where
  sectionBytes : Nat
  allBytes : Nat
  physicalLineBytes : Nat
  logicalRecordBytes : Nat
  ok : 1 ≤ sectionBytes ∧ sectionBytes ≤ 64 * 1024 * 1024 ∧ 1 ≤ allBytes ∧
    allBytes ≤ 256 * 1024 * 1024 ∧ 1 ≤ physicalLineBytes ∧ physicalLineBytes ≤ 65536 ∧
    1 ≤ logicalRecordBytes ∧ logicalRecordBytes ≤ 1024 * 1024 ∧ sectionBytes ≤ allBytes ∧
    physicalLineBytes ≤ logicalRecordBytes ∧ logicalRecordBytes ≤ allBytes

inductive Platform where
  | fortios | fortiadc
  deriving DecidableEq, Repr

/-- the names of the open `config` sections -/
abbrev Context := List Text

scoped instance : LawfulBEq (Context × Text) := inferInstance

/-- `policy.grammar` -/
def Platform.grammar : Platform → Regex Char
  | .fortiadc => named isLetter fun c => isAlnum c || among "_+-" c
  | .fortios => named isAlnum fun c => isAlnum c || among "_+().-" c

/-- `path_ok` -/
def pathOk (platform : Platform) (path : Context) : Bool :=
  1 ≤ path.length && path.length ≤ 32 && path.all fun part =>
    part.length ≤ 256 && (splitBlanks part).all (fullMatch platform.grammar)

/-- the fields of a policy, before they are checked -/
structure PolicyFields where
  platform : Platform
  publicFields : List (Context × Text)
  publicEditSections : List Context
  opaqueSections : List Context
  headerKeys : List Text
  allowVdom : Bool
  secretFields : List (Context × Text)
  unverifiedFields : List (Context × Text)
  inlineHeaderFields : List (Context × Text)
  siblingHeaderFields : List (Context × Text × Text)

/-- the checks of `FullConfigPolicy.__post_init__` -/
def PolicyFields.valid (p : PolicyFields) : Bool :=
  let word := fullMatch p.platform.grammar
  let item := fun (i : Context × Text) => pathOk p.platform i.1 && word i.2
  [p.publicFields.length, p.publicEditSections.length, p.opaqueSections.length, p.headerKeys.length,
    p.secretFields.length, p.unverifiedFields.length, p.inlineHeaderFields.length,
    p.siblingHeaderFields.length].all (· ≤ 65536) &&
  p.publicFields.all item && p.secretFields.all item && p.unverifiedFields.all item &&
  p.inlineHeaderFields.all item &&
  (p.siblingHeaderFields.all fun i =>
    pathOk p.platform i.1 && word i.2.1 && word i.2.2 && i.2.1 ≠ i.2.2) &&
  decide (p.siblingHeaderFields.map Prod.fst).Nodup &&
  p.publicEditSections.all (pathOk p.platform) && p.opaqueSections.all (pathOk p.platform) &&
  p.headerKeys.all word

structure FullConfigPolicy extends PolicyFields where
  valid : toPolicyFields.valid = true

namespace FullConfigPolicy
variable (policy : FullConfigPolicy)

/-- `policy.opaque` -/
def isOpaque (context : Context) : Bool :=
  policy.opaqueSections.any fun start => start.isPrefixOf context

/-- `policy.header` -/
def header (line : Text) : Bool :=
  match line with
  | '#' :: rest =>
    let key := rest.takeWhile fun c => c.isLower || c.isDigit || among "_-" c
    key.head?.any Char.isLower && fullMatch headerEnd (rest.drop key.length) &&
      policy.headerKeys.contains key
  | _ => false

/-- `_sibling_fields.get(context)` -/
def sibling (context : Context) : Option (Text × Text) :=
  (policy.siblingHeaderFields.find? fun i => i.1 = context).map Prod.snd

end FullConfigPolicy

/-! ## values -/

/-- `_public_value` -/
def publicValue (forbidden : List Text) (values : List Text) : Bool :=
  values ≠ [] && !(values.length > 1 && values.head? = some (text "ENC")) &&
    values.all fun value =>
      !occursIn privatePem value && !matchesStart credentialHash value &&
        !forbidden.any fun secret => secret ≠ [] && occurs secret value

/-- `_quoted_value` -/
def quotedValue (value : Text) : Text :=
  if fullMatch (plus (.char fun c => isAlnum c || among "_./:@%+*-" c)) value then value
  else Json.dumps (.str (value.map Char.toNat))

/-- a header line: name, white space and value (`_HTTP_HEADER.fullmatch`) -/
def httpHeader (t : Text) : Option (Text × Text × Text) :=
  let name := t.takeWhile tokenChar
  match t.drop name.length with
  | ':' :: rest =>
    let space := rest.takeWhile Fortios.isBlank
    let value := rest.drop space.length
    if name ≠ [] ∧ value.all (fun c => c ≠ '\r' && c ≠ '\n') then some (name, space, value) else none
  | _ => none

/-- the scheme of an authorization with the white space after it (`_HTTP_AUTH_SCHEME.fullmatch`) -/
def authScheme (value : Text) : Option Text :=
  let token := value.takeWhile tokenChar
  let space := (value.drop token.length).takeWhile Fortios.isBlank
  match value.drop (token.length + space.length) with
  | [] => none
  | rest => if token ≠ [] ∧ space ≠ [] ∧ rest.tail.all (· ≠ '\n') then some (token ++ space) else none

def credentialHeaders : List Text := ["authorization", "proxy-authorization", "x-api-key"].map text
def schemeHeaders : List Text := ["authorization", "proxy-authorization"].map text

/-- `_inline_header`: nothing, or the header with what stands for its credential -/
inductive Header where
  | unknown
  | plain (t : Text)
  /-- what is kept before the credential -/
  | credential (kept : Text)

def inlineHeader (values : List Text) : Header :=
  match values with
  | [[]] => .plain []
  | [value] =>
    if value.contains '\\' then .unknown
    else match httpHeader value with
      | none => .unknown
      | some (name, space, rest) =>
        let lower := name.map Char.toLower
        if lower ∉ credentialHeaders ∨ strip rest = [] then .plain value
        else
          let scheme := if lower ∈ schemeHeaders then (authScheme rest).getD [] else []
          .credential (name ++ ':' :: space ++ scheme)
  | _ => .unknown

/-! ## diagnostic commands -/

def fixedCommands : List (List Text) :=
  [["get", "system", "status"], ["get", "system", "performance", "status"],
    ["get", "system", "arp"], ["get", "system", "ha", "status"],
    ["diagnose", "sys", "session", "stat"], ["diagnose", "sys", "session6", "stat"],
    ["diagnose", "sys", "vd", "list"], ["diagnose", "sys", "cmdb", "info"],
    ["diagnose", "hardware", "sysinfo", "memory"], ["diagnose", "hardware", "sysinfo", "slab"],
    ["fnsysctl", "date"]].map (·.map text)

def countedCommands : List (Text × Nat) :=
  [("top", 3), ("mpstat", 2), ("top-mem", 1), ("top-fd", 1)].map fun x => (text x.1, x.2)

def profileCommands : List Text :=
  ["cpumask", "module", "report", "show", "start", "stop", "sysmap"].map text

def shellCommands : List (Text × Nat × Nat) :=
  [("ps", 0, 0), ("df", 0, 1), ("du", 1, 4)].map fun x => (text x.1, x.2)

/-- one to ten digits -/
def shortNumber : Regex Char := .seq (.char Char.isDigit) (upTo (.char Char.isDigit) 9)

/-- a command written out in full -/
def canonicalCommand (words : List Text) : List Text :=
  match words with
  | [] => []
  | first :: rest =>
    if first = text "get" then
      match fixedCommands.filter fun shape =>
          shape.head? = some (text "get") && shape.length = words.length &&
            (words.zip shape).all fun x => x.1 ≠ [] && x.1.isPrefixOf x.2 with
      | [shape] => shape
      | _ => words
    else if first = text "diag" then text "diagnose" :: rest
    else words

/-- how many words of a diagnostic command are shown as they are, and whether the others are too -/
def operationalPrefix (words : List Text) : Option (Nat × Bool) :=
  let canonical := canonicalCommand words
  let starts := fun (ws : List String) => (ws.map text).isPrefixOf canonical
  let at_ := fun n => canonical.getD n []
  let counted := (countedCommands.find? fun c => c.1 = at_ 2).map Prod.snd
  let shell := (shellCommands.find? fun c => c.1 = words.getD 1 []).map Prod.snd
  if canonical ∈ fixedCommands then some (words.length, false)
  else if starts ["diagnose", "sys"] ∧ words.length ≥ 3 ∧
      counted.any (fun n => words.length ≤ 3 + n) then
    if (words.drop 3).all (fullMatch shortNumber) then some (3, false) else none
  else if starts ["diagnose", "sys", "profile"] ∧ words.length = 4 ∧ at_ 3 ∈ profileCommands then
    some (4, false)
  else if starts ["diagnose", "sys", "process", "pidof"] ∧ words.length = 5 then
    if fullMatch (.seq (.char shellArgument.argumentChar) (upTo (.char shellArgument.argumentChar) 127))
        (words.getD 4 []) then some (4, false) else none
  else if starts ["diagnose", "test"] ∧ words.length = 5 ∧
      (at_ 2 = text "application" ∨ at_ 2 = text "app") ∧ at_ 3 = text "hasync" then
    if fullMatch shortNumber (words.getD 4 []) then some (4, false) else none
  else if canonical.head? = some (text "fnsysctl") ∧ words.length ≥ 2 ∧ shell ≠ none then
    if shell.any (fun bounds => bounds.1 ≤ words.length - 2 && words.length - 2 ≤ bounds.2) &&
        (words.drop 2).all fun word => word.length ≤ 1024 && fullMatch shellArgument word then
      some (2, true)
    else none
  else none

end Netops.Configuration

import Mathlib.Data.Char
import Mathlib.Data.List.Lex
import Mathlib.Data.List.Sort
import Netops.Exos.Membership
import Netops.Engine.Address

/-!
# Profiles and requests (`profiles.py`, `request.py`)

A profile says which attributes of the objects of a table may be changed, and how.  A request names an
object and new values of its attributes; `canonicalValue` checks a value and brings it into the form in
which it is compared and written.

`Letters` stands for what the standard library says of the letters of a text.
-/

namespace Netops.Engine
open Netops.Fortios Netops.Exos

structure Letters where
  casefold : Text → Text
  lower : Text → Text
  isdigit : Text → Bool

def lowerChar (c : Char) : Char := if 'A' ≤ c ∧ c ≤ 'Z' then Char.ofNat (c.toNat + 32) else c

/-- on ASCII texts -/
def Letters.ascii : Letters where
  casefold := List.map lowerChar
  lower := List.map lowerChar
  isdigit t := t ≠ [] && t.all isDigit

inductive Platform where
  | fortios | exos
  deriving DecidableEq

inductive Op where
  | create | update | delete
  deriving DecidableEq

/-- why a request is refused (`Rejected`) -/
inductive Refusal where
  | notNames (name : Text)
  | notAddress (name : Text)
  | notMac (name : Text)
  | notUnicast (name : Text)
  | notInteger (name : Text)
  | outOfRange (name : Text) (minimum maximum : Int)
  | notString (name : Text)
  | notNetwork (name : Text)
  | emptyString (name : Text)
  | tooLong (name : Text) (limit : Nat)
  | notPrintable (name : Text)
  | notPrintablePlain (name : Text)
  | noMatch (name : Text)
  | keyword (name value : Text)
  | notInProfile (name : Text)
  | notRemovable (name : Text)
  | reserved (name value : Text)
  | noProfile (table : Text)
  | notMeasured (table firmware : Text)
  | enrollmentName
  | notEnabled (op : Op)
  | badKey (key : Text)
  | isProtected (key : Text)
  | noSection (table : Text)
  | letterCase (key : Text)
  | needs (name value : Text) (others : List Text)
  | inUse (key : Text)
  | createNeeds (names : List Text)
  | createValues (names : List Text)
  | absent (key : Text)
  | outsideProfile (key : Text) (what : List Text)
  | notUpdatable (name : Text)
  | isReferenced (name : Text) (count : Nat)
  | noAttribute
  | changesNothing
  | deleteChanges
  | referencedObject (key : Text)
  | notRecreatable (key : Text) (missing : List Text)
  | references (reasons : List Refusal)
  | touches (names : List Text)
  | protectedPort
  | placeholder
  | expanded
  | controlCharacter
  | unsafeText (value : Text)
  | groupEmpty
  | missingMember
  | dhcpRange
  | dhcpServer
  | dhcpAddress
  | dhcpSubnet
  | policyId
  | interfaceMissing (name : Text)
  | missingObject
  | managementPath (names : List Text)
  | notLast
  | scriptLimit
  | portUnknown (port : Text)
  | portLists (lines : List Text)
  | membership
  | aggregation
  | aggregationUnknown
  | native
  | vlanMissing
  | nativeTagged
  | autoMove
  | tagUsed (tag : Text)
  /-- a `ValueError` or `KeyError` that nothing catches -/
  | uncaught

/-! ## profiles -/

inductive AttributeType where
  | ipv4Network | ipv4Address | macAddress | nameList | text | integer
  deriving DecidableEq

structure Attribute where
  type : AttributeType
  default : Option Text
  requiredOnCreate : Bool
  update : Bool
  unset : Bool
  referencedUpdate : Bool
  maxLength : Nat
  minimum : Int
  maximum : Int
  forbiddenValues : List Text
  pattern : Option (Text → Bool)
  undoToDefault : Bool

structure Profile where
  platform : Platform
  table : Text
  versions : List Text
  ops : List Op
  keyPattern : Text → Bool
  protectedKeys : List Text
  attributes : List (Text × Attribute)
  fixed : List (Text × Text)
  volatile : List Text
  reservedValues : List (Text × List Text)
  implicitKeys : Bool
  undoOps : List Op
  exactVersions : Bool
  tableScopedKey : Bool
  createValues : List (Text × Text)
  isolatedUpdate : List Text
  valueRequires : List (Text × List (Text × List Text))

/-- an expression of one character and then at most `most` others -/
def shaped (first rest : Char → Bool) (most : Nat) : Text → Bool
  | [] => false
  | c :: cs => first c && cs.all rest && cs.length ≤ most

def isLetter (c : Char) : Bool := ('A' ≤ c && c ≤ 'Z') || ('a' ≤ c && c ≤ 'z')
def isNonzero (c : Char) : Bool := '1' ≤ c && c ≤ '9'
def isNameChar (c : Char) : Bool := isLetter c || isDigit c || c = '.' || c = '_' || c = '-'

/-- `[A-Za-z0-9][A-Za-z0-9._-]{0,78}` -/
def objectName : Text → Bool := shaped (fun c => isLetter c || isDigit c) isNameChar 78

def oneOfTexts (ts : List String) (t : Text) : Bool := ts.any fun s => s.toList = t

/-! ## requests -/

/-- a value of a request; an item of a list that is no string is `none` -/
inductive Change where
  | null
  | text (t : Text)
  | int (n : Int)
  | list (items : List (Option Text))

structure Request where
  table : Text
  op : Op
  key : Text
  changes : List (Text × Change)

def isHex (c : Char) : Bool := isDigit c || ('a' ≤ c && c ≤ 'f') || ('A' ≤ c && c ≤ 'F')

/-- `(?:[0-9A-Fa-f]{2}:){5}[0-9A-Fa-f]{2}` -/
def isMac (t : Text) : Bool :=
  let parts := t.splitOn ':'
  parts.length = 6 && parts.all fun part => part.length = 2 && part.all isHex

/-- `int(t, 16)` for a hexadecimal digit -/
def hexDigit (c : Char) : Nat :=
  if isDigit c then c.toNat - 48 else if 'a' ≤ c then c.toNat - 87 else c.toNat - 55

/-- the second digit of the first byte is odd -/
def isMulticast (t : Text) : Bool := (t.drop 1).head?.any fun c => hexDigit c % 2 = 1

def isZeroMac (t : Text) : Bool := t.all fun c => c = ':' || c = '0'

def isPrintable (c : Char) : Bool := 32 ≤ c.toNat && c.toNat ≤ 126

/-- `TEXT_VALUE`: printable and without quotes and backslashes -/
def isPlainChar (c : Char) : Bool := isPrintable c && c ≠ '"' && c ≠ '\\'

/-- the value of a text attribute, after its type is known -/
def canonicalText (letters : Letters) (a : Attribute) (name : Text) (platform : Platform) (t : Text) :
    Except (List Refusal) Text :=
  if t = [] then .error [.emptyString name]
  else if a.maxLength < t.length then .error [.tooLong name a.maxLength]
  else if platform = .fortios ∧ ¬t.all isPrintable then .error [.notPrintable name]
  else if platform ≠ .fortios ∧ ¬t.all isPlainChar then .error [.notPrintablePlain name]
  else if a.pattern.any (fun p => !p t) then .error [.noMatch name]
  else if letters.casefold t ∈ a.forbiddenValues.map letters.casefold then .error [.keyword name t]
  else .ok t

def canonicalNetwork (name t : Text) : Except (List Refusal) Text :=
  let text := strip t
  let parts := if '/' ∈ text then text.splitOn '/' else splitWords text
  match parts with
  | [base, length] =>
    match network true base length with
    | some n => .ok (addressText n.address ++ ' ' :: addressText (mask n.length))
    | none => .error [.notNetwork name]
  | _ => .error [.notNetwork name]

def canonicalInteger (a : Attribute) (name : Text) (n : Int) : Except (List Refusal) Text :=
  if a.minimum ≤ n ∧ n ≤ a.maximum then .ok (toString n).toList
  else .error [.outOfRange name a.minimum a.maximum]

/-- `canonical_value` -/
def canonicalValue (letters : Letters) (a : Attribute) (name : Text) (platform : Platform) :
    Change → Except (List Refusal) Text
  | value =>
    match a.type, value with
    | .nameList, .list items =>
      let names := items.filterMap id
      if items.length ≤ 128 ∧ names.length = items.length ∧ names.all objectName ∧ names.Nodup then
        .ok (joinWords (names.insertionSort (· ≤ ·)))
      else .error [.notNames name]
    | .nameList, _ => .error [.notNames name]
    | .ipv4Address, .text t =>
      match address t with
      | some n => .ok (addressText n)
      | none => .error [.notAddress name]
    | .ipv4Address, _ => .error [.notAddress name]
    | .macAddress, .text t =>
      if !isMac t then .error [.notMac name]
      else if isMulticast t || isZeroMac t then .error [.notUnicast name]
      else .ok (t.map lowerChar)
    | .macAddress, _ => .error [.notMac name]
    | .integer, .int n => canonicalInteger a name n
    | .integer, .text t =>
      if t ≠ [] ∧ t.length ≤ 10 ∧ t.all isDigit then canonicalInteger a name (decimal t)
      else .error [.notInteger name]
    | .integer, _ => .error [.notInteger name]
    | .ipv4Network, .text t => canonicalNetwork name t
    | .text, .text t => canonicalText letters a name platform t
    | _, _ => .error [.notString name]

/-- one change of a request; `none` removes the value -/
def canonicalChange (letters : Letters) (profile : Profile) (name : Text) (change : Change) :
    Except (List Refusal) (Option Text) :=
  match Dict.get name profile.attributes with
  | none => .error [.notInProfile name]
  | some a =>
    match change with
    | .null => if a.unset then .ok none else .error [.notRemovable name]
    | value =>
      match canonicalValue letters a name profile.platform value with
      | .error e => .error e
      | .ok v =>
        if v ∈ (Dict.get name profile.reservedValues).getD [] then .error [.reserved name v]
        else .ok (some v)

/-- all values, or all the reasons -/
def collect {V : Type} : List (Text × Except (List Refusal) V) → Except (List Refusal) (List (Text × V))
  | [] => .ok []
  | (name, r) :: rest =>
    match r, collect rest with
    | .ok v, .ok vs => .ok ((name, v) :: vs)
    | .ok _, .error e => .error e
    | .error e, .ok _ => .error e
    | .error e, .error e' => .error (e ++ e')

/-- `canonical_changes` -/
def canonicalChanges (letters : Letters) (profile : Profile) (changes : List (Text × Change)) :
    Except (List Refusal) (List (Text × Option Text)) :=
  collect ((Dict.sorted changes).map fun x => (x.1, canonicalChange letters profile x.1 x.2))

end Netops.Engine

import Mathlib.Data.Char
import Netops.Fortios.Parse
import Netops.Lib.Json
import Netops.Lib.Sha256
import Netops.Lib.Utf8

/-!
# The digest of everything but the planned object

`Snapshot` and `Snapshot.rest_digest` of `netops_admin/fortios.py`: the configuration without the
planned object and without the safeguard of the operation, in a canonical form, hashed.

* `Snapshot.load`      the header, the parser and the refused sections;
* `canonical`, `restText`, `restDigest`;
* `Place`, `Reading`   where a node stands, and which nodes count as the target, as objects of the
                       safeguard, as lists without an order and as volatile secrets;
* `prune`, `Alike`     what is taken away, and what is ignored in the comparison of two trees.
-/

namespace Netops.Fortios

/-! ## snapshots -/

def isUpperOrDigit (c : Char) : Bool := ('A' ≤ c && c ≤ 'Z') || ('0' ≤ c && c ≤ '9')
def isDigit (c : Char) : Bool := '0' ≤ c && c ≤ '9'

/-- one or more characters of a class, as many as there are -/
def some1 (p : Char → Bool) (t : Text) : Option (Text × Text) :=
  match t.takeWhile p with
  | [] => none
  | w => some (w, t.dropWhile p)

def literal (w : String) (t : Text) : Option Text :=
  if w.toList.isPrefixOf t then some (t.drop w.length) else none

/-- the header line: the version, the build and the number of `vdom` -/
def header (t : Text) : Option (Text × Text × Text) := do
  let t ← literal "#config-version=" t
  let (_, t) ← some1 isUpperOrDigit t
  let t ← literal "-" t
  let (a, t) ← some1 isDigit t
  let t ← literal "." t
  let (b, t) ← some1 isDigit t
  let t ← literal "." t
  let (c, t) ← some1 isDigit t
  let t ← literal "-FW-build" t
  let (build, t) ← some1 isDigit t
  let t ← literal "-" t
  let (_, t) ← some1 isDigit t
  let t ← literal ":opmode=" t
  let (_, t) ← some1 isDigit t
  let t ← literal ":vdom=" t
  let (vdom, _) ← some1 isDigit t
  return (a ++ '.' :: b ++ '.' :: c, build, vdom)

inductive SnapshotError where
  | noHeader
  | otherFirmware (found expected : Text)
  | vdomsEnabled
  | parse (e : ParseError)
  | unsupported (names : List Text)

structure Snapshot where
  firmware : Text
  root : Node
  text : Text

def multiVdomSections : List Text := ["vdom".toList, "global".toList]

/-- `Snapshot.__init__` -/
def Snapshot.load (text : Text) (firmware : Option Text) : Except SnapshotError Snapshot :=
  let first := strip ((text.dropWhile (· = '\uFEFF')).takeWhile (· ≠ '\n'))
  match header first with
  | none => .error .noHeader
  | some (version, build, vdom) =>
    let found := version ++ " build".toList ++ build
    if firmware.isSome ∧ firmware ≠ some found then
      .error (.otherFirmware found (firmware.getD []))
    else if vdom ≠ "0".toList then .error .vdomsEnabled
    else match parse text with
      | .error e => .error (.parse e)
      | .ok root =>
        match multiVdomSections.filter (· ∈ Dict.keys root.sub) with
        | [] => .ok ⟨found, root, text⟩
        | present => .error (.unsupported present)

/-! ## the canonical form -/

def safeguardPrefix : Text := "netops-sg-".toList

def safeguardNames (changeId : Text) : List (Text × Text) :=
  let base := safeguardPrefix ++ changeId.take 12
  [("action".toList, base ++ "-a".toList), ("trigger".toList, base ++ "-t".toList),
    ("stitch".toList, base ++ "-s".toList)]

def webhookNames (changeId : Text) : List (Text × Text) :=
  let base := safeguardPrefix ++ changeId.take 12
  [("api-user".toList, base ++ "-u".toList), ("accprofile".toList, base ++ "-p".toList)]

def dhcpServer : Text := "system dhcp server".toList
def reservedAddress : Text := "reserved-address".toList

/-- the path of the planned object; `none` where `sid, rid = key.split(":")` raises -/
def targetPath (table key : Text) : Option (List Text) :=
  if table = dhcpServer ++ '/' :: reservedAddress then
    match key.splitOn ':' with
    | [sid, rid] => some [dhcpServer, sid, reservedAddress, rid]
    | _ => none
  else some [table, key]

/-- the objects of the safeguard, as table and name; `if safeguard_id` is false for an empty one -/
def ignored (safeguardId : Option Text) : List (Text × Text) :=
  match safeguardId with
  | none | some [] => []
  | some id =>
    (safeguardNames id).map (fun x => ("system automation-".toList ++ x.1, x.2)) ++
      (webhookNames id).map fun x => ("system ".toList ++ x.1, x.2)

/-- an attribute whose value the device encrypts anew at every reading -/
def volatile (path : List Text) (name : Text) : Bool :=
  (path.head? = some "vpn certificate local".toList &&
    (name = "password".toList || name = "private-key".toList)) ||
  (path.head? = some "wireless-controller vap".toList && name = "sae-password".toList)

def opaqueCiphertext : Text := "<opaque-ciphertext>".toList

def maskValues (isVolatile : Bool) (values : List Text) : List Text :=
  match values with
  | [enc, _] => if isVolatile ∧ enc = "ENC".toList then [enc, opaqueCiphertext] else values
  | _ => values

/-- sections that are left out when nothing is in them -/
def collapsible (name : Text) : Bool :=
  "system automation-".toList.isPrefixOf name || name = reservedAddress ||
    name = "system api-user".toList

/-- nodes whose entries have no order -/
def unordered (path : List Text) : Bool :=
  path = ["firewall address".toList] || path = ["firewall addrgrp".toList] ||
    path.getLast? = some reservedAddress

def points (t : Text) : List Nat := t.map Char.toNat
def str (t : Text) : Json.Value := .str (points t)
def fields (d : List (Text × Json.Value)) : Json.Value := .obj (d.map fun x => (points x.1, x.2))

/-- the JSON object of a node, its keys in the order of `sort_keys` -/
def body (attributes : List (Text × Json.Value)) (entries : List (Text × Json.Value))
    (sections : List (Text × Json.Value)) : Json.Value :=
  fields [("attributes".toList, fields attributes),
    ("entries".toList, .arr (entries.map fun x => .arr [str x.1, x.2])),
    ("sections".toList, fields sections)]

/-- the value of an attribute: `[values, unset]` -/
def attrValue (isVolatile : Bool) (a : Attr) : Json.Value :=
  .arr [.arr ((maskValues isVolatile a.values).map str), .bool a.unset]

/-- what `rest_digest` leaves out: the target and the objects of the safeguard -/
structure Excluded where
  target : List Text
  ignore : List (Text × Text)

/-- the entry of this name is skipped -/
def Excluded.skips (x : Excluded) (path : List Text) (name : Text) : Bool :=
  path ++ [name] = x.target ||
    match path with
    | [table] => decide ((table, name) ∈ x.ignore)
    | _ => false

mutual

def canonical (x : Excluded) (path : List Text) : Node → Json.Value
  | .mk _ attrs sub entries _ =>
    body (Dict.sorted (attrs.map fun a => (a.1, attrValue (volatile path a.1) a.2)))
      (let items := canonicalEntries x path entries
       if unordered path then Dict.sorted items else items)
      (Dict.sorted (canonicalSections x path sub))

def canonicalSections (x : Excluded) (path : List Text) :
    List (Text × Node) → List (Text × Json.Value)
  | [] => []
  | (name, n) :: rest =>
    let value := canonical x (path ++ [name]) n
    if collapsible name ∧ value = body [] [] [] then canonicalSections x path rest
    else (name, value) :: canonicalSections x path rest

def canonicalEntries (x : Excluded) (path : List Text) :
    List (Text × Node) → List (Text × Json.Value)
  | [] => []
  | (name, n) :: rest =>
    if x.skips path name then canonicalEntries x path rest
    else (name, canonical x (path ++ [name]) n) :: canonicalEntries x path rest

end

/-- the text that is hashed; it is ASCII, which UTF-8 writes the same -/
def Snapshot.restText (s : Snapshot) (table key : Text) (safeguardId : Option Text) :
    Option (List UInt8) := do
  let target ← targetPath table key
  return Utf8.encode (Json.dumps (canonical ⟨target, ignored safeguardId⟩ [] s.root))

/-- `Snapshot.rest_digest` -/
def Snapshot.restDigest (s : Snapshot) (table key : Text) (safeguardId : Option Text) :
    Option (List Char) :=
  (s.restText table key safeguardId).map Sha256.hexdigest

/-! ## what the digest is for -/

/-- where a node stands: the blocks around it, the outermost first -/
abbrev Place := List (Kind × Text)

/-- which nodes and attributes are treated in a special way, given where they stand -/
structure Reading where
  /-- the entry of this name in the node at this place is left out -/
  skips : Place → Text → Bool
  /-- the entries of the node at this place have no order -/
  unordered : Place → Bool
  /-- the ciphertext of this attribute does not count -/
  volatile : Place → Text → Bool

section
variable (r : Reading)

/-- nothing is in the node -/
def Node.isVacant (n : Node) : Bool := n.attrs.isEmpty && n.sub.isEmpty && n.entries.isEmpty

mutual

/-- the tree without what is left out, and without collapsible sections that are empty then -/
def prune (p : Place) : Node → Node
  | .mk line attrs sub entries tokens =>
    .mk line attrs (pruneSections p sub) (pruneEntries p entries) tokens

def pruneSections (p : Place) : List (Text × Node) → List (Text × Node)
  | [] => []
  | (name, n) :: rest =>
    let m := prune (p ++ [(.config, name)]) n
    if collapsible name ∧ m.isVacant then pruneSections p rest
    else (name, m) :: pruneSections p rest

def pruneEntries (p : Place) : List (Text × Node) → List (Text × Node)
  | [] => []
  | (name, n) :: rest =>
    if r.skips p name then pruneEntries p rest
    else (name, prune (p ++ [(.edit, name)]) n) :: pruneEntries p rest

end

/-- an attribute without its line, and without its ciphertext where that does not count -/
def shown (p : Place) (a : Text × Attr) : Text × List Text × Bool :=
  (a.1, maskValues (r.volatile p a.1) a.2.values, a.2.unset)

mutual

/-- the two trees differ in nothing but lines, quoting, the order of attributes and sections, the
order of entries where they have none, and ciphertext that does not count -/
def Alike (p : Place) : Node → Node → Prop
  | .mk _ attrs sub entries _, m =>
    (attrs.map (shown r p)).Perm (m.attrs.map (shown r p)) ∧
    (∃ ss : List (Text × Node), ss.Perm m.sub ∧ AlikeAll .config p sub ss) ∧
    ∃ es : List (Text × Node), (if r.unordered p then es.Perm m.entries else es = m.entries) ∧
      AlikeAll .edit p entries es

/-- one by one, with the same names -/
def AlikeAll (kind : Kind) (p : Place) : List (Text × Node) → List (Text × Node) → Prop
  | [], [] => True
  | (name, n) :: rest, (name', m) :: rest' =>
    name = name' ∧ Alike (p ++ [(kind, name)]) n m ∧ AlikeAll kind p rest rest'
  | _, _ => False

end

end

/-- the reading of the code: places are known by their names alone -/
def byNames (x : Excluded) : Reading where
  skips p name := x.skips (p.map Prod.snd) name
  unordered p := unordered (p.map Prod.snd)
  volatile p name := volatile (p.map Prod.snd) name

/-- the place of the planned object -/
def targetPlace (table key : Text) : Option Place :=
  if table = dhcpServer ++ '/' :: reservedAddress then
    match key.splitOn ':' with
    | [sid, rid] =>
      some [(.config, dhcpServer), (.edit, sid), (.config, reservedAddress), (.edit, rid)]
    | _ => none
  else some [(.config, table), (.edit, key)]

/-- a stricter reading: a table is a section, and only its own entries are meant -/
def byPlace (target : Place) (ignore : List (Text × Text)) : Reading where
  skips p name := p ++ [(.edit, name)] = target ||
    match p with
    | [(.config, table)] => decide ((table, name) ∈ ignore)
    | _ => false
  unordered p := p = [(.config, "firewall address".toList)] ||
    p = [(.config, "firewall addrgrp".toList)] || p.getLast? = some (.config, reservedAddress)
  volatile p name := match p with
    | (.config, top) :: _ => volatile [top] name
    | _ => false

end Netops.Fortios

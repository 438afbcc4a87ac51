import Netops.Engine.Plan
import Netops.Fortios.Words
import Netops.Lib.Worklist

/-!
# The FortiOS adapter (`netops_admin/fortios.py`)

* `Snapshot.entries`, `entryState`, `references`, `inUse`   what the planner reads of a snapshot;
* `renderCreate`, `renderUpdate`, `renderDelete`            the command lines of a change;
* `memberClosure`, `containingGroups`, `protectedClosure`   what protected names are connected with;
* `prechecks`, `policyPrechecks`;
* `device`                                                  the adapter for `buildPlan`.

An entry stands with its path, which the tree does not hold.
-/

namespace Netops.Fortios
open Netops.Engine Netops.Exos

/-! ## reading a tree -/

def Attr.value (a : Attr) : Text := joinWords a.values

/-- `node.value(name)` -/
def Node.value (n : Node) (name : Text) : Option Text :=
  match Dict.get name n.attrs with
  | some a => if a.unset then none else some a.value
  | none => none

/-- `node.values(name)` -/
def Node.valuesOf (n : Node) (name : Text) : List Text :=
  match Dict.get name n.attrs with
  | some a => if a.unset then [] else a.values
  | none => []

mutual

/-- all nodes with their paths (`_walk`) -/
def walk (path : List Text) : Node → List (List Text × Node)
  | .mk line attrs sub entries tokens =>
    (path, .mk line attrs sub entries tokens) :: (walkAll path sub ++ walkAll path entries)

def walkAll (path : List Text) : List (Text × Node) → List (List Text × Node)
  | [] => []
  | (name, n) :: rest => walk (path ++ [name]) n ++ walkAll path rest

end

def unnamedParts : List Text :=
  ["password", "passwd", "passphrase", "pwd", "secret", "psk", "key", "community", "token", "comment",
    "description"].map String.toList

def unnamedAttributes (path : List Text) : List Text :=
  if path.take 1 = ["system snmp community".toList] then ["name".toList] else []

/-- the attributes whose values may name other objects (`_named_values`) -/
def namedValues (letters : Letters) (path : List Text) (n : Node) : List (Text × List Text) :=
  (n.attrs.filter fun x =>
    !(unnamedParts.any fun part => decide (part <:+: letters.casefold x.1)) &&
      x.1 ∉ unnamedAttributes path).map fun x => (x.1, x.2.values)

/-! ## repeated lines -/

/-- the loop of `_repetitions` -/
structure Repeats where
  found : List (List Text × Text)
  stack : List (List Text)
  entries : List (List Text)
  attributes : List (List Text × Text)

def Repeats.top (r : Repeats) : List Text := r.stack.headD []

def repeatsLine (r : Repeats) (line : Nat × Text) : Repeats :=
  let text := strip line.2
  let number := "line ".toList ++ decimalText line.1 ++ ": repeated ".toList
  if text = [] ∨ text.head? = some '#' then r
  else match tokenize text with
    | [] => r
    | command :: words =>
      if command = "config".toList then { r with stack := (r.top ++ [joinWords words]) :: r.stack }
      else if command = "edit".toList then
        let path := r.top ++ [words.headD []]
        { r with
          found := if path ∈ r.entries then r.found ++ [(path, number ++ "edit".toList)] else r.found
          entries := r.entries ++ [path]
          stack := path :: r.stack }
      else if (command = "set".toList ∨ command = "unset".toList) ∧ words ≠ [] then
        let name := words.headD []
        { r with
          found := if (r.top, name) ∈ r.attributes then r.found ++ [(r.top, number ++ name)] else r.found
          attributes := r.attributes ++ [(r.top, name)] }
      else if (command = "next".toList ∨ command = "end".toList) ∧ 1 < r.stack.length then
        { r with stack := r.stack.tail }
      else r

/-- `_repetitions` -/
def repetitions (text : Text) : List (List Text × Text) :=
  ((logicalLines text).1.foldl repeatsLine ⟨[], [[]], [], []⟩).found

/-! ## what the planner reads of a snapshot -/

/-- an entry and its path -/
abbrev Entry := List Text × Node

def reservedTable : Text := dhcpServer ++ '/' :: reservedAddress

/-- the reservations of a server -/
def reservations (server : Text × Node) : List (Text × Entry) :=
  match Dict.get reservedAddress server.2.sub with
  | none => []
  | some section' => section'.entries.map fun x =>
      (server.1 ++ ':' :: x.1, ([dhcpServer, server.1, reservedAddress, x.1], x.2))

/-- `Snapshot.entries` -/
def Snapshot.entries (s : Snapshot) (table : Text) : Option (List (Text × Entry)) :=
  if table = reservedTable then
    match Dict.get dhcpServer s.root.sub with
    | none => none
    | some servers =>
      some ((servers.entries.flatMap reservations).foldl (fun d x => Dict.set x.1 x.2 d) [])
  else match Dict.get table s.root.sub with
    | none => none
    | some n => some (n.entries.map fun x => (x.1, ([table, x.1], x.2)))

/-- the entries of a table, none where there is no such section -/
def Snapshot.tableEntries (s : Snapshot) (table : Text) : List (Text × Entry) :=
  (s.entries table).getD []

def Snapshot.entryNames (s : Snapshot) (table : Text) : List Text := Dict.keys (s.tableEntries table)

/-- `Snapshot.entry_state` -/
def Snapshot.entryState (s : Snapshot) (entry : Entry) (lists : List Text) : Engine.State × List Text :=
  let attributes := (entry.2.attrs.filter fun x => !x.2.unset).map fun x => (x.1, x.2.value)
  let spaced := (lists.filter fun name =>
    (Dict.get name entry.2.attrs).any fun a => a.values.any fun item => item.any isSpace).map
      (· ++ ": a list item holds whitespace".toList)
  let nested := if entry.2.sub ≠ [] ∨ entry.2.entries ≠ [] then ["nested configuration".toList] else []
  let unset := (entry.2.attrs.filter fun x => x.2.unset).map fun x => "unset ".toList ++ x.1
  let repeated := ((repetitions s.text).filter fun x => x.1 = entry.1).map Prod.snd
  (attributes, spaced ++ nested ++ unset ++ repeated)

/-- `" / ".join(path)` -/
def pathText : List Text → Text
  | [] => []
  | [name] => name
  | name :: rest => name ++ " / ".toList ++ pathText rest

/-- `Snapshot.references` -/
def Snapshot.references (letters : Letters) (s : Snapshot) (table key : Text) : List Text :=
  if table = reservedTable then []
  else
    (((walk [] s.root).filter fun n => n.1.take 2 ≠ [table, key]).flatMap fun n =>
      ((namedValues letters n.1 n.2).filter fun x =>
        x.2.any fun token => letters.casefold token = letters.casefold key).map fun x =>
          (if n.1 = [] then "(top)".toList else pathText n.1) ++ ": ".toList ++ x.1).insertionSort (· ≤ ·)

/-- `Snapshot.in_use` -/
def Snapshot.inUse (letters : Letters) (s : Snapshot) (key : Text) : Bool :=
  (walk [] s.root).any fun n =>
    (n.2.entries.any fun x => letters.casefold x.1 = letters.casefold key) ||
      (namedValues letters n.1 n.2).any fun x =>
        x.2.any fun token => letters.casefold token = letters.casefold key

/-! ## command lines -/

/-- `CONTROL` -/
def isControl (c : Char) : Bool := c.toNat < 32 || c.toNat = 127

/-- `_quoted` -/
def quoted (value : Text) : Except (List Refusal) Text :=
  if value.any isControl then .error [.controlCharacter] else .ok (inQuotes value)

/-- `_value` -/
def renderValue (profile : Profile) (name value : Text) : Except (List Refusal) Text :=
  match (Dict.get name profile.attributes).map Attribute.type with
  | some .nameList => ((splitWords value).mapM quoted).map joinWords
  | some .text => quoted value
  | some _ => .ok value
  | none => .error [.uncaught]

/-- the lines around an entry, and its key (`_context`) -/
structure Context where
  before : List Text
  localKey : Text
  after : List Text

def context (profile : Profile) (key : Text) : Except (List Refusal) Context :=
  if profile.table = reservedTable then
    match key.splitOn ':' with
    | [sid, rid] => .ok ⟨["config system dhcp server".toList, "edit ".toList ++ sid,
        "config reserved-address".toList], rid, ["end".toList, "next".toList, "end".toList]⟩
    | _ => .error [.uncaught]
  else (quoted key).map fun localKey =>
    ⟨["config ".toList ++ profile.table], localKey, ["end".toList]⟩

def editLine (localKey : Text) : Text := "    edit ".toList ++ localKey
def setLine (name value : Text) : Text := "        set ".toList ++ name ++ ' ' :: value
def unsetLine (name : Text) : Text := "        unset ".toList ++ name
def deleteLine (localKey : Text) : Text := "    delete ".toList ++ localKey
def nextLine : Text := "    next".toList

/-- the `set` lines of some attributes -/
def setLines (profile : Profile) (attributes : Engine.State) : Except (List Refusal) (List Text) :=
  (Dict.sorted attributes).mapM fun x => (renderValue profile x.1 x.2).map (setLine x.1)

/-- `render_create` -/
def renderCreate (profile : Profile) (key : Text) (attributes : Engine.State) :
    Except (List Refusal) (List Text) := do
  let c ← context profile key
  let sets ← setLines profile attributes
  return c.before ++ [editLine c.localKey] ++ sets ++ [nextLine] ++ c.after

/-- `render_update` -/
def renderUpdate (profile : Profile) (key : Text) (assign : Engine.State) (remove : List Text) :
    Except (List Refusal) (List Text) := do
  let c ← context profile key
  let sets ← setLines profile assign
  return c.before ++ [editLine c.localKey] ++ sets ++
    (remove.insertionSort (· ≤ ·)).map unsetLine ++ [nextLine] ++ c.after

/-- `render_delete` -/
def renderDelete (profile : Profile) (key : Text) : Except (List Refusal) (List Text) := do
  let c ← context profile key
  return c.before ++ [deleteLine c.localKey] ++ c.after

/-! ## connected names -/

def groupMemberAttributes : List Text := ["member".toList, "exclude-member".toList]

/-- the names in a group, without letter case; an attribute that was unset has no values -/
def membersOf (letters : Letters) (n : Node) : List Text :=
  (groupMemberAttributes.flatMap fun name =>
    ((Dict.get name n.attrs).map fun a => a.values.map letters.casefold).getD []).dedup

/-- `_group_members` -/
def groupMembers (letters : Letters) (entries : List (Text × Entry)) : List (Text × List Text) :=
  entries.map fun x => (x.1, membersOf letters x.2.2)

/-- the groups by their names without letter case; of two such groups the last one counts -/
def foldedGroups (letters : Letters) (entries : List (Text × Entry)) : List (Text × List Text) :=
  (groupMembers letters entries).foldl (fun d x => Dict.set (letters.casefold x.1) x.2 d) []

/-- the members of a group -/
def memberSteps (letters : Letters) (entries : List (Text × Entry)) : Worklist.Steps Text Text where
  expand name := (Dict.get name (foldedGroups letters entries)).getD []
  place name := name

/-- all members of all groups -/
def allMembers (letters : Letters) (entries : List (Text × Entry)) : List Text :=
  ((groupMembers letters entries).flatMap Prod.snd).dedup

/-- `member_closure` -/
def memberClosure (letters : Letters) (entries : List (Text × Entry)) (names : List Text) : List Text :=
  Worklist.explore (memberSteps letters entries)
    (names.length + (allMembers letters entries).length) [] (names.map letters.casefold).reverse

/-- the groups that hold a name -/
def groupSteps (letters : Letters) (entries : List (Text × Entry)) : Worklist.Steps Text Text where
  expand inner := ((groupMembers letters entries).filter fun x => inner ∈ x.2).map Prod.fst
  place name := letters.casefold name

/-- `containing_groups` -/
def containingGroups (letters : Letters) (entries : List (Text × Entry)) (key : Text) : List Text :=
  Worklist.explore (groupSteps letters entries) (1 + entries.length) [] [letters.casefold key]

/-- an interface or a switch, and what it is made of -/
def interfaceRules (letters : Letters) (s : Snapshot) : List (Text × List Text) :=
  (s.tableEntries "system interface".toList ++ s.tableEntries "system switch-interface".toList).map
    fun x =>
      let parent := ((x.2.2.value "interface".toList).filter fun name => name ≠ []).toList
      (letters.casefold x.1, (parent ++ x.2.2.valuesOf "member".toList).map letters.casefold)

/-- `protected_closure` -/
def protectedClosure (letters : Letters) (s : Snapshot) (names : List Text) : List Text :=
  let rules := interfaceRules letters s
  Worklist.saturate rules (rules.length + 1) (names.map letters.casefold).dedup

/-- `sdwan_zones` -/
structure SdwanZones where
  zones : List Text
  members : List (Text × Text)

def sdwanDefaultZone : Text := "virtual-wan-link".toList

def sdwanZones (s : Snapshot) : SdwanZones :=
  match Dict.get "system sdwan".toList s.root.sub with
  | none => ⟨[], []⟩
  | some n =>
    let entriesOf (name : String) : List (Text × Node) :=
      ((Dict.get name.toList n.sub).map Node.entries).getD []
    ⟨Dict.keys (entriesOf "zone"), (entriesOf "members").foldl (fun d x =>
      match x.2.value "interface".toList with
      | none | some [] => d
      | some interface =>
        Dict.set interface ((x.2.value "zone".toList).getD sdwanDefaultZone) d) []⟩

/-- `protected_exposure` -/
def protectedExposure (letters : Letters) (s : Snapshot) (protectedNames names : List Text) :
    List Text :=
  let closure := protectedClosure letters s protectedNames
  let zones := ((s.tableEntries "system zone".toList).filter fun x =>
    (x.2.2.valuesOf "interface".toList).any fun item => letters.casefold item ∈ closure).map
      fun x => letters.casefold x.1
  let sdwan := ((sdwanZones s).members.filter fun x => letters.casefold x.1 ∈ closure).map
    fun x => letters.casefold x.2
  let blocked := closure ++ "any".toList :: zones ++ sdwan
  (names.filter fun name => letters.casefold name ∈ blocked).insertionSort (· ≤ ·)

/-! ## checks -/

def stateText (state : Option Engine.State) (name : String) : Text :=
  (Dict.get name.toList (state.getD [])).getD []

def groupTable : Text := "firewall addrgrp".toList
def addressTable : Text := "firewall address".toList
def policyTable : Text := "firewall policy".toList

/-- the address of a reservation lies in the subnet of its server -/
def reservationChecks (server : Node) (after : Engine.State) : List Refusal :=
  match address ((server.value "default-gateway".toList).getD []) with
  | none => [.dhcpSubnet]
  | some gateway =>
    match network false (addressText gateway) ((server.value "netmask".toList).getD []),
      (Dict.get "ip".toList after).bind address with
    | some n, some a =>
      if !n.contains a || a = n.address || a = n.broadcast || a = gateway then [.dhcpAddress] else []
    | _, _ => [.dhcpSubnet]

/-- `prechecks` -/
def prechecks (s : Snapshot) (profile : Profile) (key : Text) (after : Option Engine.State) :
    Except (List Refusal) (List Refusal) :=
  if profile.table = groupTable then
    let members := splitWords (stateText after "member")
    let known := s.entryNames addressTable ++ s.entryNames groupTable
    if members = [] then .ok [.groupEmpty]
    else if members.any fun name => name ∉ known then .ok [.missingMember]
    else .ok []
  else if profile.table = reservedTable then
    match key.splitOn ':' with
    | [sid, rid] =>
      if decimal sid > 4294967295 ∨ decimal rid > 4294967295 then .ok [.dhcpRange]
      else match (Dict.get dhcpServer s.root.sub).bind fun servers => Dict.get sid servers.entries with
        | none => .ok [.dhcpServer]
        | some server =>
          if (server.value "status".toList).getD "enable".toList ≠ "enable".toList ∨
              (server.value "server-type".toList).getD "regular".toList ≠ "regular".toList then
            .ok [.dhcpServer]
          else match after with
            | none | some [] => .ok []
            | some after => .ok (reservationChecks server after)
    | _ => .error [.uncaught]
  else .ok []

def policyIdMax : Nat := 4294967294
def safeguardScriptLimit : Nat := 1023

/-- `POLICY_REFERENCES` -/
def policyReferences : List (String × List String × List String) :=
  [("srcaddr", ["firewall address", "firewall addrgrp"], ["all"]),
    ("dstaddr", ["firewall address", "firewall addrgrp"], ["all"]),
    ("service", ["firewall service custom", "firewall service group"], []),
    ("schedule", ["firewall schedule onetime", "firewall schedule recurring",
      "firewall schedule group"], ["always"])]

/-- `"\n".join(...)`, as bytes -/
def scriptLength (inverse : List Text) : Nat :=
  (Utf8.encode (joinNewlines (inverse.map fun line => escaped (strip line)))).length

/-- `policy_prechecks` -/
def policyPrechecks (letters : Letters) (s : Snapshot) (op : Engine.Op) (key : Text)
    (before after : Option Engine.State) (inverse : List Text) (protectedNames : List (Text × List Text)) :
    List Refusal :=
  let guarded := (Dict.get "system interface".toList protectedNames).getD []
  let interfaces := s.entryNames "system interface".toList
  let missing := (guarded.filter fun name => name ∉ interfaces).map Refusal.interfaceMissing
  let namesIn (state : Option Engine.State) (name : String) : List Text := splitWords (stateText state name)
  let unknownObject := policyReferences.any fun r =>
    (namesIn after r.1).any fun name =>
      name ∉ r.2.2.map String.toList ++ r.2.1.flatMap fun t => s.entryNames t.toList
  let known := interfaces ++ s.entryNames "system zone".toList ++ (sdwanZones s).zones
  let unknownInterface := ["srcintf", "dstintf"].any fun a =>
    (namesIn after a).any fun name => name ∉ known && name ≠ "any".toList
  let first := (if op = .create ∧ decimal key > policyIdMax then [.policyId] else []) ++ missing ++
    if after ≠ none ∧ after ≠ some [] ∧ (unknownObject || unknownInterface) then [.missingObject] else []
  let touched := protectedExposure letters s guarded
    ([before, after].flatMap fun side => ["srcintf", "dstintf"].flatMap fun a => namesIn side a)
  first ++ (if guarded ≠ [] ∧ first.isEmpty ∧ touched ≠ [] then [.managementPath touched.dedup] else []) ++
    (if op = .delete ∧ (s.entryNames policyTable).getLast? ≠ some key then [.notLast] else []) ++
    (if scriptLength inverse > safeguardScriptLimit then [.scriptLimit] else [])

/-! ## the adapter -/

def device (letters : Letters) (s : Snapshot) : Engine.Device Entry where
  platform := .fortios
  firmware := s.firmware
  entries table := .ok (s.entries table)
  entryState := s.entryState
  references := s.references letters
  inUse := s.inUse letters
  absent _ key := [.absent key]
  renderCreate := renderCreate
  renderUpdate := renderUpdate
  renderDelete := renderDelete
  linked profile key :=
    if profile.table = groupTable then
      .ok (containingGroups letters (s.tableEntries groupTable) key)
    else .ok []
  closure profile names :=
    if profile.table = groupTable ∨ profile.table = policyTable then
      memberClosure letters (s.tableEntries groupTable) names
    else []
  prechecks profile _ key after := prechecks s profile key after
  policyChecks _ := policyPrechecks letters s
  restDigest table key safeguardId :=
    match s.restDigest table key safeguardId with
    | none => .error [.uncaught]
    | some digest => .ok digest

end Netops.Fortios

import Mathlib.Data.Finset.Union
import Netops.Engine.Plan
import Netops.Exos.Parse
import Netops.Fortios.Device

/-!
# The ExtremeXOS adapter (`netops_admin/exos.py`, `membership.py`, `management.py`)

* `ports`, `exosModel`       port lists, and the VLAN memberships of a configuration;
* `Snapshot`                 VLANs and display strings with their attributes;
* `model`, `states`          memberships, with the default VLAN where the switch leaves it out;
* `renderCreate`, `renderUpdate`, `renderDelete`, `prechecks`;
* `device`                   the adapter for `buildPlan`.
-/

namespace Netops.Exos
open Netops.Fortios Netops.Engine

/-! ## port lists -/

/-- why a list of ports is refused; `number` is a `ValueError` of `int` -/
inductive PortError where
  | list | number

/-- `[1-9][0-9]{0,3}` -/
def smallNumber : Text → Bool := shaped isNonzero isDigit 3

/-- `PORT` -/
def isPort (t : Text) : Bool :=
  match t.splitOn ':' with
  | [n] => smallNumber n
  | [slot, n] => smallNumber slot && smallNumber n
  | _ => false

def isNumber (t : Text) : Bool := t ≠ [] && t.all isDigit

/-- a port of a range: its slot, if there is one, and its number -/
def rangePort (t : Text) : Option (Option Text × Text) :=
  match t.splitOn ':' with
  | [n] => if isNumber n then some (none, n) else none
  | [slot, n] => if isNumber slot ∧ isNumber n then some (some slot, n) else none
  | _ => none

/-- slot and number, for a port of the inventory -/
def portOrder (t : Text) : Nat × Nat :=
  match t.splitOn ':' with
  | [slot, n] => (decimal slot, decimal n)
  | _ => (0, decimal t)

def portLe (a b : Text) : Bool :=
  (portOrder a).1 < (portOrder b).1 ||
    (portOrder a).1 = (portOrder b).1 && (portOrder a).2 ≤ (portOrder b).2

/-- the longest text that `int` takes -/
def maxDigits : Nat := 4300

/-- `int` takes the slot and the number -/
def isReadable (port : Text) : Bool := (port.splitOn ':').all fun part => part.length ≤ maxDigits

/-- `_slot_range`: the ports of the inventory between two of them -/
def slotRange (inventory : Finset Text) (first last : Option Text × Text) :
    Except PortError (Finset Text) :=
  match first.1, last.1 with
  | some slot, some slot' =>
    let a := slot ++ ':' :: first.2
    let b := slot' ++ ':' :: last.2
    if a ∉ inventory ∨ b ∉ inventory then .error .list
    else if ¬∀ port ∈ inventory, isReadable port then .error .number
    else if portLe a b then .ok (inventory.filter fun port => portLe a port ∧ portLe port b)
    else .error .list
  | _, _ => .error .list

/-- one item of a list of ports -/
def portItem (inventory : Finset Text) (item : Text) : Except PortError (Finset Text) :=
  if isPort item then .ok {item}
  else if item = "all".toList ∧ inventory ≠ ∅ then .ok inventory
  else match (item.splitOn '-').map rangePort with
    | [some first, some last] =>
      if last.1 ≠ none ∧ last.1 ≠ first.1 then slotRange inventory first last
      else if maxDigits < first.2.length ∨ maxDigits < last.2.length then .error .number
      else if 1 ≤ decimal first.2 ∧ decimal first.2 ≤ decimal last.2 ∧ decimal last.2 ≤ 4096 then
        let slot := (first.1.map fun slot => slot ++ [':']).getD []
        .ok (((List.range (decimal last.2 + 1 - decimal first.2)).map fun i =>
          slot ++ decimalText (decimal first.2 + i)).toFinset)
      else .error .list
    | _ => .error .list

def portItems (inventory : Finset Text) : List Text → Except PortError (Finset Text)
  | [] => .ok ∅
  | item :: rest =>
    match portItem inventory item, portItems inventory rest with
    | .error e, _ => .error e
    | .ok _, .error e => .error e
    | .ok a, .ok b => .ok (a ∪ b)

/-- `ports` -/
def ports (value : Text) (inventory : Finset Text) : Except PortError (Finset Text) :=
  match portItems inventory (value.splitOn ',') with
  | .error e => .error e
  | .ok found => if 4096 < found.card then .error .list else .ok found

/-! ## memberships -/

def wordAt (c : CommandLine) (i : Nat) : Text := (c.tokens.drop i).headD []

def isRouterPorts (letters : Letters) (c : CommandLine) : Bool :=
  c.tokens.length = 6 && wordAt c 0 = "configure".toList && letters.casefold (wordAt c 1) = "vr".toList &&
    (wordAt c 3 = "add".toList || wordAt c 3 = "delete".toList) && wordAt c 4 = "ports".toList

/-- `port_inventory`: empty where a list is refused -/
def portInventory (letters : Letters) : List CommandLine → Except PortError (Finset Text)
  | [] => .ok ∅
  | c :: rest =>
    if isRouterPorts letters c then
      match ports (wordAt c 5) ∅ with
      | .error .list => .ok ∅
      | .error .number => .error .number
      | .ok found =>
        match inventoryKnown letters rest with
        | .error e => .error e
        | .ok false => .ok ∅
        | .ok true => (portInventory letters rest).map (found ∪ ·)
    else portInventory letters rest
where
  /-- no later list is refused -/
  inventoryKnown (letters : Letters) : List CommandLine → Except PortError Bool
    | [] => .ok true
    | c :: rest =>
      if isRouterPorts letters c then
        match ports (wordAt c 5) ∅ with
        | .error .list => .ok false
        | .error .number => .error .number
        | .ok _ => inventoryKnown letters rest
      else inventoryKnown letters rest

/-- VLANs, and the memberships of ports -/
structure Model where
  vlans : List Text
  members : List (Text × Vlans)

def Model.addVlan (m : Model) (name : Text) : Model :=
  if name ∈ m.vlans then m else { m with vlans := m.vlans ++ [name] }

def Model.membersOf (m : Model) (port : Text) : Vlans := (Dict.get port m.members).getD ⟨∅, ∅⟩

/-- the ports become members of the VLAN -/
def Model.addPorts (m : Model) (found : Finset Text) (name : Text) (tagged : Bool) : Model :=
  { m with members := found.sort.foldl (fun d port =>
      let v := (Dict.get port d).getD ⟨∅, ∅⟩
      Dict.set port (if tagged then { v with tagged := insert name v.tagged }
        else { v with untagged := insert name v.untagged }) d) m.members }

/-- one command of `_exos_view` -/
def modelLine (inventory : Finset Text) (m : Model) (c : CommandLine) : Except PortError Model :=
  if c.startsWith ["create", "vlan"] ∧ 3 ≤ c.tokens.length then .ok (m.addVlan (wordAt c 2))
  else if c.startsWith ["configure", "vlan"] ∧ 5 ≤ c.tokens.length then
    let m := m.addVlan (wordAt c 2)
    if wordAt c 3 = "tag".toList ∧ c.tokens.length = 5 then .ok m
    else if wordAt c 3 = "add".toList ∧ wordAt c 4 = "ports".toList then
      if c.tokens.length = 7 ∧ (wordAt c 6 = "tagged".toList ∨ wordAt c 6 = "untagged".toList) then
        match ports (wordAt c 5) inventory with
        | .error e => .error e
        | .ok found => .ok (m.addPorts found (wordAt c 2) (wordAt c 6 = "tagged".toList))
      else .error .list
    else .ok m
  else if c.startsWith ["configure", "ports"] ∧ c.tokens.length = 5 ∧
      wordAt c 3 = "display-string".toList then
    match ports (wordAt c 2) inventory with
    | .error e => .error e
    | .ok _ => .ok m
  else .ok m

def modelLines (inventory : Finset Text) : Model → List CommandLine → Except PortError Model
  | m, [] => .ok m
  | m, c :: rest =>
    match modelLine inventory m c with
    | .error e => .error e
    | .ok m => modelLines inventory m rest

/-- `exos_model`, with the inventory of the configuration (`_expanded`) -/
def exosModel (letters : Letters) (c : Configuration) : Except (List Refusal) Model :=
  match portInventory letters c.active with
  | .error _ => .error [.membership]
  | .ok inventory =>
    match modelLines inventory ⟨[], []⟩ c.active with
    | .error _ => .error [.membership]
    | .ok m => if c.unterminatedUpm then .error [.membership] else .ok m

/-! ## snapshots -/

structure Entry where
  attributes : Engine.State
  unsupported : List Text

structure Snapshot where
  firmware : Text
  inventory : Option (Finset Text)
  configuration : Configuration
  commands : List CommandLine
  vlans : List (Text × Entry)
  ports : List (Text × Entry)
  portLists : List Text

/-- `SAFEGUARD_NAME` -/
def isSafeguardName (t : Text) : Bool :=
  "netops".toList.isPrefixOf t && t.length = 13 &&
    ((t.drop 6).take 6).all (fun c => isDigit c || ('a' ≤ c && c ≤ 'f')) &&
    (t.getLast? = some 'p' || t.getLast? = some 't')

/-- `_without_safeguards` -/
def withoutSafeguards (own : Text → Bool) : Bool → List CommandLine → List CommandLine
  | _, [] => []
  | true, c :: rest => withoutSafeguards own (strip c.text ≠ ['.']) rest
  | false, c :: rest =>
    if c.module = "upm".toList ∧ c.startsWith ["create", "upm", "profile"] ∧ c.tokens.length = 4 ∧
        own (wordAt c 3) then withoutSafeguards own true rest
    else if c.module = "upm".toList ∧ 4 ≤ c.tokens.length ∧ wordAt c 1 = "upm".toList ∧
        wordAt c 2 = "timer".toList ∧ own (wordAt c 3) then withoutSafeguards own false rest
    else c :: withoutSafeguards own false rest

def lineText (c : CommandLine) (what : String) : Text :=
  "line ".toList ++ decimalText c.line ++ what.toList

def addUnsupported (e : Entry) (what : Text) : Entry :=
  { e with unsupported := e.unsupported ++ [what] }

/-- `create vlan` -/
def vlanLine (vlans : List (Text × Entry)) (c : CommandLine) : List (Text × Entry) :=
  if c.startsWith ["create", "vlan"] ∧ 3 ≤ c.tokens.length then
    let name := wordAt c 2
    let e := (Dict.get name vlans).getD ⟨[], []⟩
    Dict.set name (if c.tokens.length = 3 then e else addUnsupported e (lineText c ": create options")) vlans
  else vlans

/-- `_is_display_string` -/
def isDisplayString (c : CommandLine) : Bool :=
  5 ≤ c.tokens.length && c.startsWith ["configure", "ports"] && wordAt c 3 = "display-string".toList

/-- an attribute is set; that it was set before is noted -/
def setAttribute (c : CommandLine) (e : Entry) (name value : Text) : Entry :=
  let e := if name ∈ Dict.keys e.attributes then addUnsupported e (lineText c ": repeated " ++ name) else e
  { e with attributes := Dict.set name value e.attributes }

/-- `configure ports ... display-string` -/
def portLine (letters : Letters) (found : List (Text × Entry) × List Text) (c : CommandLine) :
    List (Text × Entry) × List Text :=
  if isDisplayString c then
    let port := wordAt c 2
    if letters.isdigit port then
      let e := (Dict.get port found.1).getD ⟨[], []⟩
      (Dict.set port (setAttribute c e "display-string".toList (joinWords (c.tokens.drop 4))) found.1,
        found.2)
    else (found.1, found.2 ++ [lineText c ""])
  else found

/-- the VLAN of this name, in any letter case (`_entry`) -/
def vlanNamed (letters : Letters) (vlans : List (Text × Entry)) (name : Text) : Option (Text × Entry) :=
  vlans.find? fun x => letters.casefold x.1 = letters.casefold name

def ownAttributes : List Text := ["tag".toList, "description".toList]

/-- the VLAN that a command is about (`_owner`) -/
def owner (letters : Letters) (vlans : List (Text × Entry)) (c : CommandLine) : Option (Text × Entry) :=
  if c.tokens.length = 5 ∧ c.startsWith ["configure", "vlan"] ∧ wordAt c 3 ∈ ownAttributes then
    vlanNamed letters vlans (wordAt c 2)
  else none

def ownerLine (letters : Letters) (vlans : List (Text × Entry)) (c : CommandLine) :
    List (Text × Entry) :=
  match owner letters vlans c with
  | none => vlans
  | some (name, e) => Dict.set name (setAttribute c e (wordAt c 3) (wordAt c 4)) vlans

/-- why a text is no snapshot -/
inductive SnapshotError where
  | noFirmware | unreadable | incomplete

/-- `Snapshot.__init__` -/
def Snapshot.load (letters : Letters) (text firmware : Text) (inventory : Option (Finset Text)) :
    Except SnapshotError Snapshot :=
  if firmware = [] then .error .noFirmware
  else match parse text with
    | none => .error .unreadable
    | some configuration =>
      if "vlan".toList ∉ configuration.modules then .error .incomplete
      else
        let commands := withoutSafeguards isSafeguardName false configuration.commands
        let (ports, portLists) := commands.foldl (portLine letters) ([], [])
        .ok ⟨firmware, inventory, configuration, commands,
          commands.foldl (ownerLine letters) (commands.foldl vlanLine []), ports, portLists⟩

/-! ## memberships of a snapshot -/

def foldedTokens (letters : Letters) (c : CommandLine) : List Text := c.tokens.map letters.casefold

def explicitDefault : List Text :=
  ["configure", "vlan", "default", "delete", "ports", "all"].map String.toList

def defaultVlan : Text := "Default".toList

/-- `_implicit` -/
def Snapshot.implicit (letters : Letters) (s : Snapshot) : Bool :=
  s.inventory.isSome && !s.commands.any fun c => foldedTokens letters c = explicitDefault

/-- `model` -/
def Snapshot.model (letters : Letters) (s : Snapshot) : Except (List Refusal) Model :=
  match exosModel letters s.configuration with
  | .error e => .error e
  | .ok m =>
    if s.implicit letters then
      .ok ((s.inventory.getD ∅).sort.foldl (fun m port =>
        let v := m.membersOf port
        let v := if v.untagged = ∅ then { v with untagged := {defaultVlan} } else v
        { m with members := Dict.set port v m.members })
        (m.addVlan defaultVlan))
    else .ok m

/-- the state of a port with one native VLAN -/
def portState (v : Vlans) : Option Engine.State :=
  match v.untagged.sort with
  | [native] => some [("untagged".toList, native), ("tagged".toList, joinWords v.tagged.sort)]
  | _ => none

/-- `states` -/
def Snapshot.states (letters : Letters) (s : Snapshot) : Except (List Refusal) (List (Text × Engine.State)) :=
  (s.model letters).map fun m =>
    m.members.filterMap fun x => (portState x.2).map fun state => (x.1, state)

/-- `lag_ports` -/
def lagPorts : List CommandLine → Except (List Refusal) (Finset Text)
  | [] => .ok ∅
  | c :: rest =>
    if c.startsWith ["enable", "sharing"] then
      let grouping := "grouping".toList
      let word := if grouping ∈ c.tokens then grouping else "group".toList
      match c.tokens[2]?, c.tokens.findIdx? (· = word), lagPorts rest with
      | some port, some i, .ok found =>
        match ports port ∅, (c.tokens[i + 1]?).map fun t => ports t ∅ with
        | .ok a, some (.ok b) => .ok (a ∪ b ∪ found)
        | _, _ => .error [.aggregationUnknown]
      | _, _, _ => .error [.aggregationUnknown]
    else lagPorts rest

/-! ## what the planner reads of a snapshot -/

def secretSubjects : List Text := ["snmp".toList, "snmpv3".toList]

def secretWords : List Text :=
  ["community", "encrypted", "password", "shared-secret"].map String.toList

def freeText : List Text :=
  ["description", "description-string", "display-string", "syscontact", "syslocation", "sysname"].map
    String.toList

def keywords : List Text := secretSubjects ++ secretWords ++ freeText

/-- the tokens up to a free text, without those after a secret word -/
def namedFrom (letters : Letters) : Option Text → List Text → List Text
  | _, [] => []
  | previous, token :: rest =>
    let folded := letters.casefold token
    if folded ∈ freeText then []
    else if previous.any fun w => w ∈ secretWords then namedFrom letters (some folded) rest
    else token :: namedFrom letters (some folded) rest

/-- `_named_tokens` -/
def namedTokens (letters : Letters) (c : CommandLine) : List Text :=
  if (foldedTokens letters c)[1]?.any fun w => w ∈ secretSubjects then []
  else namedFrom letters none c.tokens

/-- `_mentions` -/
def mentions (letters : Letters) (c : CommandLine) (key : Text) : Bool :=
  (if letters.casefold key ∈ keywords then c.tokens else namedTokens letters c).any fun token =>
    letters.casefold token = letters.casefold key

/-- `_is_own` -/
def Snapshot.isOwn (letters : Letters) (s : Snapshot) (c : CommandLine) (key : Text) : Bool :=
  (c.startsWith ["create", "vlan"] && 3 ≤ c.tokens.length &&
    letters.casefold (wordAt c 2) = letters.casefold key) ||
  (owner letters s.vlans c).any fun x => letters.casefold x.1 = letters.casefold key

def vlanTable : Text := "vlan".toList
def portsTable : Text := "ports".toList

/-- `Snapshot.entries` -/
def Snapshot.entries (letters : Letters) (s : Snapshot) (table : Text) :
    Except (List Refusal) (Option (List (Text × Entry))) :=
  if table = vlanMembership then
    (s.states letters).map fun found => some (found.map fun x => (x.1, ⟨x.2, []⟩))
  else if table = portsTable then
    if s.portLists ≠ [] then .error [.portLists s.portLists] else .ok (some s.ports)
  else if table = vlanTable then .ok (some s.vlans)
  else .ok none

/-- `Snapshot.references` -/
def Snapshot.references (letters : Letters) (s : Snapshot) (table key : Text) : List Text :=
  if table = portsTable ∨ table = vlanMembership then []
  else
    ((s.commands.filter fun c => mentions letters c key && !s.isOwn letters c key).map fun c =>
      lineText c " (module " ++ (if c.module = [] then ['-'] else c.module) ++ [')']).insertionSort (· ≤ ·)

def Snapshot.inUse (letters : Letters) (s : Snapshot) (key : Text) : Bool :=
  s.commands.any fun c => mentions letters c key

/-- `tags` -/
def Snapshot.tags (s : Snapshot) : List Text :=
  s.vlans.filterMap fun x => Dict.get "tag".toList x.2.attributes

/-- `absent` -/
def Snapshot.absent (s : Snapshot) (table key : Text) : List Refusal :=
  if table = vlanMembership then
    match lagPorts s.commands with
    | .error reasons => reasons
    | .ok lag =>
      if key ∈ lag then [.aggregation]
      else match s.inventory with
        | some inventory => if key ∉ inventory then [.portUnknown key] else [.native]
        | none => [.absent key]
  else [.absent key]

/-! ## command lines -/

/-- `_text` -/
def plainText (spaces : Bool) (value : Text) : Except (List Refusal) Text :=
  if '"' ∈ value ∨ '\\' ∈ value ∨ value.any isControl ∨ (!spaces ∧ value.any isSpace) then
    .error [.unsafeText value]
  else .ok value

def createLine (key tag : Text) : Text :=
  "create vlan ".toList ++ key ++ " tag ".toList ++ tag

def descriptionLine (key value : Text) : Text :=
  "configure vlan ".toList ++ key ++ " description \"".toList ++ value ++ ['"']

def clearDescriptionLine (key : Text) : Text :=
  "unconfigure vlan ".toList ++ key ++ " description".toList

def displayLine (key value : Text) : Text :=
  "configure ports ".toList ++ key ++ " display-string ".toList ++ value

def clearDisplayLine (key : Text) : Text :=
  "unconfigure ports ".toList ++ key ++ " display-string".toList

def deleteVlanLine (key : Text) : Text := "delete vlan ".toList ++ key

/-- the line of a description, if there is one -/
def descriptionLines (key : Text) (attributes : Engine.State) : Except (List Refusal) (List Text) :=
  match Dict.get "description".toList attributes with
  | none => .ok []
  | some value => (plainText true value).map fun v => [descriptionLine key v]

/-- `render_create` -/
def renderCreate (key : Text) (attributes : Engine.State) : Except (List Refusal) (List Text) :=
  match Dict.get "tag".toList attributes with
  | none => .error [.uncaught]
  | some tag => (descriptionLines key attributes).map (createLine key tag :: ·)

/-- `render_update` -/
def renderUpdate (profile : Profile) (key : Text) (assign : Engine.State) (remove : List Text) :
    Except (List Refusal) (List Text) :=
  if profile.table = vlanMembership then .ok []
  else if profile.table = portsTable then
    (assign.mapM fun x => (plainText false x.2).map (displayLine key)).map
      (· ++ remove.map fun _ => clearDisplayLine key)
  else (descriptionLines key assign).map
    (· ++ if "description".toList ∈ remove then [clearDescriptionLine key] else [])

/-! ## checks -/

def noAutoMove : List Text :=
  ["configure", "vlan", "untagged-ports", "auto-move", "off"].map String.toList

/-- `membership.prechecks` -/
def Snapshot.membershipChecks (letters : Letters) (s : Snapshot) (key : Text) (before after : Engine.State) :
    Except (List Refusal) (List Refusal) :=
  (s.model letters).map fun m =>
    let native := (Dict.get "untagged".toList after).getD []
    let tagged := splitWords ((Dict.get "tagged".toList after).getD [])
    if (Dict.get key m.members).all (fun v => v.untagged.card ≠ 1) ∨ native = [] then [.native]
    else if (native :: tagged).any fun name => name ∉ m.vlans then [.vlanMissing]
    else if native ∈ tagged then [.nativeTagged]
    else match lagPorts s.commands with
      | .error reasons => reasons
      | .ok lag =>
        if key ∈ lag then [.aggregation]
        else if s.commands.any (fun c => c.tokens = noAutoMove) ∧
            Dict.get "untagged".toList before ≠ some native then [.autoMove]
        else []

/-- `prechecks` -/
def Snapshot.prechecks (letters : Letters) (s : Snapshot) (profile : Profile) (op : Engine.Op) (key : Text)
    (after : Option Engine.State) : Except (List Refusal) (List Refusal) :=
  if profile.table = portsTable ∧ s.inventory.any (fun inventory => key ∉ inventory) then
    .ok [.portUnknown key]
  else if profile.table = vlanMembership then
    match s.states letters, after with
    | .error e, _ => .error e
    | .ok _, none => .error [.uncaught]
    | .ok found, some after => s.membershipChecks letters key ((Dict.get key found).getD []) after
  else if op = .create ∧ (after.bind fun a => Dict.get "tag".toList a).any (fun tag => tag ∈ s.tags) then
    .ok [.tagUsed ((after.bind fun a => Dict.get "tag".toList a).getD [])]
  else .ok []

/-- `_linked` -/
def Snapshot.linked (letters : Letters) (s : Snapshot) (profile : Profile) (key : Text) :
    Except (List Refusal) (List Text) :=
  if profile.table = portsTable then
    (s.model letters).map fun m => ((m.membersOf key).tagged ∪ (m.membersOf key).untagged).sort
  else if profile.table = vlanTable then
    (s.model letters).map fun m => (m.members.filter fun x =>
      decide (∃ name ∈ x.2.tagged ∪ x.2.untagged, letters.casefold name = letters.casefold key)).map
        Prod.fst
  else .ok []

/-! ## the digest of everything but the planned object -/

/-- `safeguard_names` -/
def safeguardNames (changeId : Text) : List Text :=
  let base := "netops".toList ++ changeId.take 6
  [base ++ ['p'], base ++ ['t']]

/-- the names of the safeguard of an operation -/
def isOwnSafeguard (safeguardId : Option Text) (name : Text) : Bool :=
  safeguardId.any fun id => decide (name ∈ safeguardNames id)

/-- `DEFAULT_RECOVERY` -/
def defaultRecovery : List Text := ["configure", "sys-recovery-level", "switch", "reset"].map String.toList

/-- the commands that a digest is about -/
def Snapshot.restCommands (letters : Letters) (s : Snapshot) (safeguardId : Option Text) :
    List CommandLine :=
  (withoutSafeguards (isOwnSafeguard safeguardId) false s.configuration.commands).filter fun c =>
    foldedTokens letters c ≠ defaultRecovery

/-- `_default_rendering`: a line that the switch prints or leaves out -/
def Snapshot.defaultRendering (letters : Letters) (s : Snapshot) (c : CommandLine) : Bool :=
  s.inventory.any fun inventory =>
    let tokens := foldedTokens letters c
    tokens = explicitDefault ||
      (tokens.length = 6 && tokens.take 3 = ["configure", "vr", "vr-default"].map String.toList &&
        ((tokens.drop 3).head? = some "add".toList || (tokens.drop 3).head? = some "delete".toList) &&
        (tokens.drop 4).head? = some "ports".toList &&
        match Exos.ports (wordAt c 5) ∅ with
        | .ok found => found = inventory
        | .error _ => false)

/-- `configure vlan X add ports` -/
def isAddPorts (c : CommandLine) : Bool :=
  c.startsWith ["configure", "vlan"] && (c.tokens.drop 3).take 2 = ["add".toList, "ports".toList]

/-- the memberships of the other ports -/
def otherMemberships (m : Model) (port : Option Text) : List (Text × Vlans) :=
  m.members.filter fun x => some x.1 ≠ port

def namesValue (names : Finset Text) : Json.Value := .arr (names.sort.map str)

/-- the JSON object of memberships, its keys in the order of `sort_keys` -/
def membershipsValue (members : List (Text × Vlans)) : Json.Value :=
  fields (Dict.sorted (members.map fun x => (x.1, fields [("tagged".toList, namesValue x.2.tagged),
    ("untagged".toList, namesValue x.2.untagged)])))

/-- the lines that a digest over memberships holds -/
def Snapshot.otherLines (letters : Letters) (s : Snapshot) (commands : List CommandLine) : List Text :=
  (commands.filter fun c => !isAddPorts c && !s.defaultRendering letters c).map CommandLine.text

/-- the text that `membership.rest_digest` hashes -/
def Snapshot.membershipText (letters : Letters) (s : Snapshot) (port : Option Text)
    (commands : List CommandLine) : Except (List Refusal) (List UInt8) :=
  (s.model letters).map fun m => Utf8.encode (Json.dumps (fields
    [("configuration".toList, .arr ((s.otherLines letters commands).map str)),
      ("other_memberships".toList, membershipsValue (otherMemberships m port))]))

/-- the commands of other ports -/
def notDisplayOf (key : Text) (c : CommandLine) : Bool := !(isDisplayString c && wordAt c 2 = key)

/-- the text that `Snapshot.rest_digest` hashes -/
def Snapshot.restText (letters : Letters) (s : Snapshot) (table key : Text) (safeguardId : Option Text) :
    Except (List Refusal) (List UInt8) :=
  let commands := s.restCommands letters safeguardId
  if table = vlanMembership then s.membershipText letters (some key) commands
  else if table = portsTable then
    let kept := commands.filter (notDisplayOf key)
    if s.inventory.isSome then s.membershipText letters none kept
    else .ok (Utf8.encode (joinNewlines (kept.map CommandLine.text)))
  else .ok (Utf8.encode (joinNewlines
    ((commands.filter fun c => !s.isOwn letters c key).map CommandLine.text)))

/-- `Snapshot.rest_digest` -/
def Snapshot.restDigest (letters : Letters) (s : Snapshot) (table key : Text)
    (safeguardId : Option Text) : Except (List Refusal) Text :=
  (s.restText letters table key safeguardId).map Sha256.hexdigest

/-! ## the adapter -/

def device (letters : Letters) (s : Snapshot) : Engine.Device Entry where
  platform := .exos
  firmware := s.firmware
  entries := s.entries letters
  entryState entry _ := (entry.attributes, entry.unsupported)
  references := s.references letters
  inUse := s.inUse letters
  absent := s.absent
  renderCreate _ := renderCreate
  renderUpdate := renderUpdate
  renderDelete _ key := .ok [deleteVlanLine key]
  linked := s.linked letters
  closure _ _ := []
  prechecks := s.prechecks letters
  policyChecks _ _ _ _ _ _ _ := []
  restDigest := s.restDigest letters

end Netops.Exos

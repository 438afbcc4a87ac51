import Netops.Engine.Profile

/-!
# Planning a change (`engine.py`)

`buildPlan` reads the object of a request in a snapshot, checks the request against the profile of its
table, and gives the command lines of the change, those that undo it, and the state of the object before
and after.

* `Device`       what the planner uses of a snapshot and of the adapter of its platform;
* `normalize`    the attributes of an object as the profile compares them;
* `buildPlan`    one function for each operation, and the checks that all of them pass.
-/

namespace Netops.Engine
open Netops.Fortios Netops.Exos

/-- attributes by name -/
abbrev State := List (Text × Text)

/-- a snapshot and its adapter (`fortios`, `exos`) -/
structure Device (E : Type) where
  platform : Platform
  firmware : Text
  entries : Text → Except (List Refusal) (Option (List (Text × E)))
  /-- the attributes, and what else the object holds -/
  entryState : E → List Text → State × List Text
  references : Text → Text → List Text
  inUse : Text → Bool
  absent : Text → Text → List Refusal
  renderCreate : Profile → Text → State → Except (List Refusal) (List Text)
  renderUpdate : Profile → Text → State → List Text → Except (List Refusal) (List Text)
  renderDelete : Profile → Text → Except (List Refusal) (List Text)
  /-- `_linked` -/
  linked : Profile → Text → Except (List Refusal) (List Text)
  /-- what the names hold of other names (`member_closure`) -/
  closure : Profile → List Text → List Text
  prechecks : Profile → Op → Text → Option State → Except (List Refusal) (List Refusal)
  /-- `policy_prechecks` -/
  policyChecks : Profile → Op → Text → Option State → Option State → List Text →
    List (Text × List Text) → List Refusal
  /-- `rest_digest`: of a table and a key, and without the safeguard of an operation -/
  restDigest : Text → Text → Option Text → Except (List Refusal) Text

/-! ## profiles -/

/-- `7\.6\.[0-9]+ build[0-9]+`, with the start as a parameter -/
def isBuildOf (start firmware : Text) : Bool :=
  start.isPrefixOf firmware &&
    let rest := firmware.drop start.length
    let digits := rest.takeWhile isDigit
    let rest := rest.drop digits.length
    digits ≠ [] && " build".toList.isPrefixOf rest &&
      rest.length > 6 && (rest.drop 6).all isDigit

/-- `33\.7\.[0-9]+\.[0-9]+` -/
def isVersionOf (start firmware : Text) : Bool :=
  start.isPrefixOf firmware &&
    match (firmware.drop start.length).splitOn '.' with
    | [a, b] => a ≠ [] && a.all isDigit && b ≠ [] && b.all isDigit
    | _ => false

/-- `find_profile` -/
def findProfile (profiles : List Profile) (platform : Platform) (table firmware : Text) :
    Except (List Refusal) Profile :=
  match profiles.find? fun p => p.platform = platform && p.table = table with
  | none => .error [.noProfile table]
  | some p =>
    let family := !p.exactVersions && match platform with
      | .fortios => p.versions.any (fun v => "7.6.".toList.isPrefixOf v) &&
          isBuildOf "7.6.".toList firmware
      | .exos => isVersionOf "33.7.".toList firmware
    if firmware ∈ p.versions ∨ family then .ok p else .error [.notMeasured table firmware]

/-! ## states -/

/-- what becomes of an attribute -/
inductive Normal where
  | dropped
  | unsupported (what : Text)
  | kept (value : Text)

def normalizeValue (letters : Letters) (type : AttributeType) (value : Text) : Text :=
  match type with
  | .nameList => joinWords ((splitWords value).insertionSort (· ≤ ·))
  | .macAddress => letters.lower value
  | _ => value

def normalizeOne (letters : Letters) (profile : Profile) (name value : Text) : Normal :=
  if name ∈ profile.volatile then .dropped
  else match Dict.get name profile.fixed with
    | some wanted => if value = wanted then .dropped else .unsupported (name ++ ' ' :: value)
    | none =>
      match Dict.get name profile.attributes with
      | none => .unsupported name
      | some a =>
        if a.default = some value then .dropped
        else .kept (normalizeValue letters a.type value)

def Normal.kept? : Normal → Option Text
  | .kept v => some v
  | _ => none

def Normal.unsupported? : Normal → Option Text
  | .unsupported what => some what
  | _ => none

/-- `normalize` -/
def normalize (letters : Letters) (profile : Profile) (attributes : State) : State × List Text :=
  (attributes.filterMap fun x =>
      (normalizeOne letters profile x.1 x.2).kept?.map fun v => (x.1, v),
    attributes.filterMap fun x => (normalizeOne letters profile x.1 x.2).unsupported?)

/-- `full_state`: an attribute outside of the profile keeps its value -/
def fullState (letters : Letters) (profile : Profile) (attributes : State) : State :=
  attributes.filterMap fun x =>
    if x.1 ∈ profile.volatile then none
    else if x.1 ∈ Dict.keys profile.attributes ∨ x.1 ∈ Dict.keys profile.fixed then
      (normalizeOne letters profile x.1 x.2).kept?.map fun v => (x.1, v)
    else some x

/-- `_without_defaults` -/
def withoutDefaults (profile : Profile) (values : List (Text × Option Text)) : State :=
  values.filterMap fun x => match x.2 with
    | none => none
    | some v =>
      if (Dict.get x.1 profile.attributes).bind Attribute.default = some v then none
      else some (x.1, v)

/-- the values of a request that are not null -/
def assigned (changes : List (Text × Option Text)) : State :=
  changes.filterMap fun x => x.2.map fun v => (x.1, v)

def nameLists (profile : Profile) : List Text :=
  (profile.attributes.filter fun x => x.2.type = .nameList).map Prod.fst

/-- `dict.pop(name, None)` -/
def without (name : Text) (state : State) : State := state.filter fun x => x.1 ≠ name

/-- one change of an update -/
def applyChange (profile : Profile) (state : State) (change : Text × Option Text) : State :=
  match change.2 with
  | none => without change.1 state
  | some v =>
    if (Dict.get change.1 profile.attributes).bind Attribute.default = some v then
      without change.1 state
    else Dict.set change.1 v state

/-- the state after an update -/
def updated (profile : Profile) (before : State) (changes : List (Text × Option Text)) : State :=
  changes.foldl (applyChange profile) before

/-- two dictionaries are equal: the order of the keys does not count -/
def sameState (a b : State) : Bool :=
  a.length = b.length && a.all fun x => Dict.get x.1 b = some x.2

/-! ## protected names -/

def referenceTextAttributes (table : Text) : List Text :=
  if table = "vlan-membership".toList then ["untagged".toList]
  else if table = "firewall policy".toList then ["schedule".toList]
  else []

/-- `_referenced` -/
def referenced (profile : Profile) (state : Option State) : List Text :=
  (state.getD []).flatMap fun x =>
    match Dict.get x.1 profile.attributes with
    | some a =>
      if a.type = .nameList ∨ x.1 ∈ referenceTextAttributes profile.table then splitWords x.2 else []
    | none => []

/-- `_protected_references` -/
def protectedReferences {E : Type} (letters : Letters) (d : Device E) (profile : Profile)
    (protectedNames : List (Text × List Text)) (key : Text) (before after : Option State) :
    Except (List Refusal) (List Text) :=
  let guarded := (protectedNames.flatMap Prod.snd).map letters.casefold
  if guarded = [] then .ok []
  else match d.linked profile key with
    | .error reasons => .error [.references reasons]
    | .ok linked =>
      let names := referenced profile before ++ referenced profile after ++ linked
      let names := names ++ d.closure profile names
      .ok ((names.filter fun name => letters.casefold name ∈ guarded).dedup.insertionSort (· ≤ ·))

/-! ## plans -/

structure Plan where
  table : Text
  op : Op
  key : Text
  firmware : Text
  commands : List Text
  inverse : List Text
  before : Option State
  after : Option State
  restSha256 : Text

/-- what an operation gives before the checks that all operations pass -/
structure Draft where
  before : Option State
  after : Option State
  commands : List Text
  inverse : List Text

/-- `if condition: raise Rejected(reasons)` -/
def refuse (condition : Prop) [Decidable condition] (reasons : List Refusal) :
    Except (List Refusal) Unit :=
  if condition then .error reasons else .ok ()

section
variable {E : Type} (letters : Letters) (d : Device E) (profile : Profile) (key : Text)

/-- the entries of the table; a snapshot without its section is refused -/
def tableEntries (table : Text) : Except (List Refusal) (List (Text × E)) :=
  match d.entries table with
  | .error reasons => .error reasons
  | .ok none => .error [.noSection table]
  | .ok (some entries) => .ok entries

/-- `_find_entry` -/
def findEntry (entries : List (Text × E)) : Except (List Refusal) (Option E) :=
  match Dict.get key entries with
  | some e => .ok (some e)
  | none =>
    if entries.any fun x => letters.casefold x.1 = letters.casefold key then .error [.letterCase key]
    else .ok none

/-- the first value that needs others in the same request -/
def checkRequires (changes : List (Text × Option Text)) :
    List (Text × List (Text × List Text)) → Except (List Refusal) Unit
  | [] => .ok ()
  | (name, values) :: rest =>
    match (Dict.get name changes).join with
    | none => checkRequires changes rest
    | some v =>
      let needed := (Dict.get v values).getD []
      if needed.any fun other => other ∉ Dict.keys changes then .error [.needs name v needed]
      else checkRequires changes rest

/-- the `create` branch of `build_plan` -/
def planCreate (entry : Option E) (changes : List (Text × Option Text)) :
    Except (List Refusal) Draft := do
  refuse (entry.isSome ∨ (!profile.tableScopedKey ∧ d.inUse key)) [.inUse key]
  let missing := ((Dict.sorted profile.attributes).filter fun x =>
    x.2.requiredOnCreate ∧ (Dict.get x.1 changes).join = none).map Prod.fst
  refuse (missing ≠ []) [.createNeeds missing]
  let wrong := (profile.createValues.filter fun x =>
    (Dict.get x.1 changes).join ≠ some x.2).map Prod.fst
  refuse (wrong ≠ []) [.createValues (wrong.insertionSort (· ≤ ·))]
  let commands ← d.renderCreate profile key (assigned changes)
  let inverse ← d.renderDelete profile key
  return ⟨none, some (withoutDefaults profile changes), commands, inverse⟩

/-- the state of an existing object; only some attributes may be changed where it holds others -/
def stateBefore (op : Op) (entry : Option E) (changes : List (Text × Option Text)) :
    State × List Text :=
  match entry with
  | none => ([], [])
  | some e =>
    let (attributes, unsupported) := d.entryState e (nameLists profile)
    if op = .update ∧ profile.isolatedUpdate ≠ [] ∧ changes ≠ [] ∧
        changes.all (fun x => x.1 ∈ profile.isolatedUpdate) then
      (fullState letters profile attributes, unsupported)
    else
      let (state, unknown) := normalize letters profile attributes
      (state, unsupported ++ unknown)

/-- why an attribute may not be changed -/
def updateReason (references : Nat) (name : Text) : Option Refusal :=
  match Dict.get name profile.attributes with
  | none => some .uncaught
  | some a =>
    if !a.update then some (.notUpdatable name)
    else if references ≠ 0 ∧ !a.referencedUpdate then some (.isReferenced name references)
    else none

/-- the `update` branch of `build_plan` -/
def planUpdate (before : State) (references : List Text) (changes : List (Text × Option Text)) :
    Except (List Refusal) Draft := do
  let reasons := changes.filterMap (fun x => updateReason profile references.length x.1) ++
    if changes = [] then [.noAttribute] else []
  refuse (!reasons.isEmpty) reasons
  let after := updated profile before changes
  refuse (sameState after before) [.changesNothing]
  let remove := (changes.filter fun x => x.2 = none).map Prod.fst
  let commands ← d.renderUpdate profile key (assigned changes) (remove.insertionSort (· ≤ ·))
  let restore := changes.filterMap fun x => (Dict.get x.1 before).map fun v => (x.1, v)
  let clear := (changes.filter fun x => x.1 ∉ Dict.keys before).map Prod.fst
  let inverse ← d.renderUpdate profile key restore (clear.insertionSort (· ≤ ·))
  return ⟨some before, some after, commands, inverse⟩

/-- the `delete` branch of `build_plan` -/
def planDelete (before : State) (references : List Text) (changes : List (Text × Option Text)) :
    Except (List Refusal) Draft := do
  refuse (changes ≠ []) [.deleteChanges]
  refuse (references ≠ []) [.referencedObject key]
  let missing := ((Dict.sorted profile.attributes).filter fun x =>
    x.2.requiredOnCreate ∧ !x.2.undoToDefault ∧ x.1 ∉ Dict.keys before).map Prod.fst
  refuse (missing ≠ []) [.notRecreatable key missing]
  let commands ← d.renderDelete profile key
  let inverse ← d.renderCreate profile key before
  return ⟨some before, none, commands, inverse⟩

def membershipOf (state : Option State) : Membership where
  untagged := (Dict.get "untagged".toList (state.getD [])).getD []
  tagged := Dict.get "tagged".toList (state.getD [])

def vlanMembership : Text := "vlan-membership".toList

/-- the lines of a change of memberships are written from the states -/
def rerender (protectedNames : List (Text × List Text)) (draft : Draft) :
    Except (List Refusal) Draft :=
  if profile.table = vlanMembership then
    if key ∈ (Dict.get "ports".toList protectedNames).getD [] then .error [.protectedPort]
    else .ok { draft with
      commands := render key (membershipOf draft.before) (membershipOf draft.after)
      inverse := render key (membershipOf draft.after) (membershipOf draft.before) }
  else .ok draft

/-- the checks that all operations pass -/
def finish (op : Op) (protectedNames : List (Text × List Text)) (draft : Draft) :
    Except (List Refusal) Plan := do
  let touched ← protectedReferences letters d profile protectedNames key draft.before draft.after
  refuse (touched ≠ []) [.touches touched]
  let draft ← rerender profile key protectedNames draft
  refuse (d.platform = .fortios ∧
    (draft.commands ++ draft.inverse).any fun line => decide ("%%".toList <:+: line)) [.placeholder]
  refuse (d.platform = .exos ∧ draft.inverse.any fun line => decide ("$(".toList <:+: line))
    [.expanded]
  let reasons ← d.prechecks profile op key draft.after
  let reasons := reasons ++
    if d.platform = .fortios ∧ profile.table = "firewall policy".toList then
      d.policyChecks profile op key draft.before draft.after draft.inverse protectedNames
    else []
  refuse (!reasons.isEmpty) reasons
  let rest ← d.restDigest profile.table key none
  return ⟨profile.table, op, key, d.firmware, draft.commands, draft.inverse, draft.before, draft.after,
    rest⟩

/-- a key that counts in its own table only is not referenced -/
def referencesTo : List Text :=
  if profile.tableScopedKey then [] else d.references profile.table key

/-- the draft of an operation -/
def draftOf (op : Op) (entry : Option E) (changes : List (Text × Option Text)) :
    Except (List Refusal) Draft :=
  match op with
  | .create => planCreate d profile key entry changes
  | op =>
    if entry.isNone ∧ !profile.implicitKeys then .error (d.absent profile.table key)
    else
      let (before, unsupported) := stateBefore letters d profile op entry changes
      if unsupported ≠ [] then .error [.outsideProfile key unsupported]
      else
        let references := referencesTo d profile key
        if op = .update then planUpdate d profile key before references changes
        else planDelete d profile key before references changes

end

/-- `build_plan` -/
def buildPlan {E : Type} (letters : Letters) (profiles : List Profile) (d : Device E)
    (request : Request) (protectedNames : List (Text × List Text))
    (enrollmentProbe undo : Bool) : Except (List Refusal) Plan := do
  let profile ← findProfile profiles d.platform request.table d.firmware
  let key := request.key
  let op := request.op
  refuse ("netops-enroll-".toList.isPrefixOf (letters.casefold key) ∧ !enrollmentProbe)
    [.enrollmentName]
  refuse (op ∉ profile.ops ∧ ¬(undo ∧ op ∈ profile.undoOps)) [.notEnabled op]
  refuse (!profile.keyPattern key) [.badKey key]
  let guarded := profile.protectedKeys ++ (Dict.get profile.table protectedNames).getD []
  refuse (letters.casefold key ∈ guarded.map letters.casefold) [.isProtected key]
  let entries ← tableEntries d profile.table
  let entry ← findEntry letters key entries
  let changes ← canonicalChanges letters profile request.changes
  checkRequires changes (Dict.sorted profile.valueRequires)
  let draft ← draftOf letters d profile key op entry changes
  finish letters d profile key op protectedNames draft

end Netops.Engine

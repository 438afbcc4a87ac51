import Netops.Engine.Address
import Netops.Lib.Dict
import Netops.Lib.Patterns
import Netops.Lib.Shlex

/-!
# What a load balancer answers (`triage_slb.py`)

The parsers of the triage.  `Failure.unparsed` is `TriageParseError`, which the triage notes as a missing
step; `Failure.raised` is any other exception, and ends it.

* `parseConfigObject`    an object of the configuration: its fields, and the members of a pool;
* `parseVsStat`          the state of a virtual server, with a row for each member;
* `parseSlbLoad`, `parseTlsStats`, `parseDos`, `parseKeyValues`.
-/

namespace Netops.TriageSlb

open Regex Patterns
open Netops.Fortios (Text isSpace strip splitLines)

inductive Failure where
  | unparsed
  | raised
  deriving DecidableEq

/-- what the interpreter knows of characters outside ASCII -/
structure Python where
  isDigit : Char → Bool
  int : Text → Option Nat
  casefold : Text → Text

def isAsciiDigit (c : Char) : Bool := '0' ≤ c && c ≤ '9'

/-- the digits that `int` takes -/
def maxDigits : Nat := 4300

def Python.value (py : Python) (t : Text) : Option Nat :=
  if t.all isAsciiDigit then if t.length ≤ maxDigits then some (Engine.decimal t) else none else py.int t

/-- `int` -/
def Python.number (py : Python) (t : Text) : Except Failure Nat :=
  match py.value t with
  | some n => .ok n
  | none => .error .raised

/-- `int` of a number that may have a sign -/
def Python.signed (py : Python) : Text → Except Failure Int
  | '-' :: t => (py.number t).map fun n => -(n : Int)
  | t => (py.number t).map fun n => (n : Int)

/-- `str.isdigit` -/
def Python.isDigits (py : Python) (t : Text) : Bool := t ≠ [] && t.all fun c => isAsciiDigit c || py.isDigit c

/-! ## patterns -/

def space : Regex Char := .char isSpace
def notSpace : Regex Char := .char (!isSpace ·)
def word : Regex Char := plus notSpace
def number : Regex Char := plus digit
def letter (c : Char) : Bool := isUpper c || isLower c

/-- as few times as possible, and at most `n` times -/
def fewest (r : Regex Char) : Nat → Regex Char
  | 0 => .empty
  | n+1 => .alt .empty (.seq r (fewest r n))

/-- the groups of a pattern of which some parts are literal -/
def groups (rs : List (Regex Char)) (line : Text) : Option (List Text) := parts rs (none, line)

/-- `STATE` -/
def isState (t : Text) : Bool := fullMatch (plus (.char fun c => isUpper c || c = '_')) t

/-- `_ECHO` -/
def echo : Regex Char := sequence [oneOf [lit "diagnose", lit "execute", lit "get"], lit " ", notSpace]

/-- `_VDOM` -/
def vdomLine (line : Text) : Option Text :=
  match groups [lit "vdom name is", plus space, word] line with
  | some [_, _, vdom] => some vdom
  | _ => none

/-- `_VS_STAT` -/
def vsStatLine (line : Text) : Option (Text × Text) :=
  match groups [lit "\tvirtual-server: ", word, lit ", availability:", word] line with
  | some [_, name, _, availability] => some (name, availability)
  | _ => none

/-- `_COUNTER` -/
def counterLine (line : Text) : Option (Text × Text) :=
  let name := Regex.seq (.char letter) (upTo (.char fun c => letter c || c = ' ') 40)
  match groups [name, lit ": ", .seq (maybe (lit "-")) number] line with
  | some [name, _, value] => some (name, value)
  | _ => none

/-- `_POOL` -/
def poolLine (line : Text) : Option Text :=
  match groups [lit "\t\treal-server-pool: ", word] line with
  | some [_, name] => some name
  | _ => none

/-- `[0-9]{4}-[0-9]{2}-[0-9]{2} [0-9]{2}:[0-9]{2}:[0-9]{2}` -/
def changeTime : Regex Char :=
  sequence [times digit 4, lit "-", times digit 2, lit "-", times digit 2, lit " ", times digit 2, lit ":",
    times digit 2, lit ":", times digit 2]

/-- `_MEMBER_STAT` -/
def memberStatLine (line : Text) : Option (Text × Text × Text) :=
  match groups [lit "\t\tid:", number, lit ", hc_state: ", word, lit ", last-state-change-time: ", changeTime]
      line with
  | some [_, id, _, state, _, change] => some (id, state, change)
  | _ => none

/-- `_LOAD_VS` -/
def loadVsLine (line : Text) : Option Text :=
  match groups [lit "\tvirtual-server ", word] line with
  | some [_, name] => some name
  | _ => none

/-- `_LOAD_POOL` -/
def loadPoolLine (line : Text) : Option Text :=
  match groups [lit "\t\treal-server ", word] line with
  | some [_, name] => some name
  | _ => none

/-- `_LOAD_MEMBER` -/
def loadMemberLine (line : Text) : Option (Text × Text × Text) :=
  match groups [lit "\t\tid:", number, lit ", status ", number, lit ", weight ", number] line with
  | some [_, id, _, status, _, weight] => some (id, status, weight)
  | _ => none

/-- `_TLS_CLIENT` -/
def tlsClient : Text := "VS client-side SSL statistics:".toList

/-- `_TLS_SERVER` -/
def tlsServerLine (line : Text) : Option Text :=
  match groups [lit "VS server-side SSL statistics for server with id ", number, lit ":"] line with
  | some [_, id, _] => some id
  | _ => none

/-- `_TLS_OK` -/
def tlsOkLine (line : Text) : Option Text :=
  match groups [lit "\t# of succeeded HANDSHAKEs: ", number, lit ", average latency ", number, lit "(us)"] line with
  | some [_, count, _, _, _] => some count
  | _ => none

/-- `_TLS_FAIL` -/
def tlsFailLine (line : Text) : Option Text :=
  match groups [lit "\t# of failed HANDSHAKEs: ", number, lit "(", .star (lit " "), number, lit "%)"] line with
  | some [_, count, _, _, _, _] => some count
  | _ => none

/-- `_DOS` -/
def dosLine (line : Text) : Option (Text × Text × Text) :=
  match groups [lit "[vs: ", word, lit "]: ", .alt (lit "Total access alloc node =") (lit "Alloced num"), lit " ",
      number] line with
  | some [_, name, _, metric, _, value] => some (name, metric, value)
  | _ => none

/-- `_DOS_TRAILER` -/
def dosTrailer (line : Text) : Bool :=
  fullMatch (sequence [plus (lit "="), lit "Only show ", number, lit " items", plus (lit "=")]) line

/-- `_KV` -/
def keyValueLine (line : Text) : Option (Text × Text) :=
  match groups [.star space, .seq (.char letter) (fewest (noneIn ":") 79), .star space, lit ":", .star space,
      .star (noneIn "\n")] line with
  | some [_, key, _, _, _, value] => some (key, value)
  | _ => none

/-! ## lines -/

/-- `text.replace("\r\n", "\n")` -/
def plainEnds : Text → Text
  | '\r' :: '\n' :: t => '\n' :: plainEnds t
  | c :: t => c :: plainEnds t
  | [] => []

/-- the lines that are not blank, without the command that the device repeats -/
def answerLines (text : Text) : List Text :=
  match (splitLines (plainEnds text)).filter fun l => !l.all isSpace with
  | [] => []
  | l :: ls => if matchesStart echo l then ls else l :: ls

/-- `_lines` -/
def linesOf (text : Text) : Except Failure (List Text) :=
  match answerLines text with
  | [] => .error .unparsed
  | ls => .ok ls

/-- the last one changes -/
def onLast {α : Type} (f : α → α) (l : List α) : List α := l.dropLast ++ (l.getLast?.map f).toList

theorem onLast_append {α : Type} (f : α → α) (l : List α) (x : α) : onLast f (l ++ [x]) = l ++ [f x] := by
  rw [onLast, List.dropLast_concat, List.getLast?_concat]
  rfl

/-! ## the configuration -/

abbrev Fields := List (Text × List Text)

structure MemberEntry where
  id : Text
  fields : Fields

inductive Frame where
  | config (name : Text)
  | edit (name : Text)
  deriving DecidableEq

def Frame.isEdit : Frame → Bool
  | .edit _ => true
  | .config _ => false

structure Object where
  fields : Fields := []
  members : List MemberEntry := []
  stack : List Frame := []
  found : Bool := false

/-- an entry of the pool's members is open -/
def Object.inMembers (o : Object) : Bool := o.stack[1]? = some (.config "pool_member".toList)

/-- one line; `none` for the `end` of the whole block -/
def Object.step (name : Text) (o : Object) (words : List Text) : Except Failure (Option Object) :=
  let top := o.stack.getLast?
  match words with
  | verb :: args =>
    if verb = "edit".toList ∧ args.length = 1 ∧ top.all (!·.isEdit) = true then
      let own := args.headD []
      if top.isNone then
        if o.found ∨ own ≠ name then .error .unparsed
        else .ok (some { o with found := true, stack := o.stack ++ [.edit own] })
      else
        let members :=
          if o.stack.length = 2 ∧ o.inMembers = true then o.members ++ [⟨own, []⟩] else o.members
        .ok (some { o with members := members, stack := o.stack ++ [.edit own] })
    else if verb = "config".toList ∧ args.length = 1 ∧ top.any Frame.isEdit = true then
      .ok (some { o with stack := o.stack ++ [.config (args.headD [])] })
    else if (verb = "set".toList ∨ verb = "unset".toList) ∧ 1 ≤ args.length ∧ top.any Frame.isEdit = true then
      if verb = "unset".toList then .ok (some o)
      else if o.stack.length = 1 then
        .ok (some { o with fields := Dict.set (args.headD []) args.tail o.fields })
      else if o.stack.length = 3 ∧ o.inMembers = true then
        .ok (some { o with
          members := onLast (fun m => { m with fields := Dict.set (args.headD []) args.tail m.fields }) o.members })
      else .ok (some o)
    else if verb = "next".toList ∧ args = [] ∧ top.any Frame.isEdit = true then
      .ok (some { o with stack := o.stack.dropLast })
    else if verb = "end".toList ∧ args = [] ∧ top.all (!·.isEdit) = true then
      if top.isNone then .ok none else .ok (some { o with stack := o.stack.dropLast })
    else .error .unparsed
  | [] => .error .raised

/-- the lines up to the `end` of the block -/
def Object.run (name : Text) (o : Object) : List Text → Except Failure Object
  | [] => .error .unparsed
  | raw :: rest =>
    match Shlex.split raw with
    | none => .error .unparsed
    | some words =>
      match o.step name words with
      | .error e => .error e
      | .ok none => .ok o
      | .ok (some o) => o.run name rest

/-- `parse_config_object` -/
def parseConfigObject (text : Text) (family name : Text) : Except Failure Object :=
  let lines := ((splitLines text).map strip).filter (· ≠ [])
  match lines.dropWhile (· ≠ "config ".toList ++ family) with
  | [] => .error .unparsed
  | _ :: rest =>
    match ({} : Object).run name rest with
    | .error e => .error e
    | .ok o => if o.found then .ok o else .error .unparsed

/-- `_one` -/
def one (fields : Fields) (key : String) : Except Failure (Option Text) :=
  match Dict.get key.toList fields with
  | none | some [] => .ok none
  | some [value] => .ok (some value)
  | some _ => .error .unparsed

structure VirtualServer where
  status : Text
  kind : Option Text
  pool : Option Text
  clientSslProfile : Option Text
  wafProfile : Option Text
  dosProfile : Option Text

/-- `virtual_server_config` -/
def virtualServerConfig (text name : Text) : Except Failure VirtualServer := do
  let o ← parseConfigObject text "load-balance virtual-server".toList name
  match ← one o.fields "status" with
  | none => .error .unparsed
  | some status =>
    return ⟨status, ← one o.fields "type", ← one o.fields "load-balance-pool",
      ← one o.fields "client-ssl-profile", ← one o.fields "waf-profile", ← one o.fields "dos-profile"⟩

structure Member where
  id : Nat
  realServer : Option Text
  port : Option Text
  status : Text
  /-- the checks of its own, where it does not take those of the pool -/
  healthCheck : Option (List Text)
  deriving DecidableEq

def enable : Text := "enable".toList
def disable : Text := "disable".toList

section
variable (py : Python)

def memberOf (m : MemberEntry) : Except Failure Member := do
  match ← one m.fields "status" with
  | none => .error .unparsed
  | some status =>
    if !py.isDigits m.id then .error .unparsed
    else
      let own := (Dict.get "health-check-list".toList m.fields).getD []
      let inherit_ ← one m.fields "health-check-inherit"
      return ⟨← py.number m.id, ← one m.fields "real-server", ← one m.fields "pool_member_service_port", status,
        if inherit_ = some disable then some own else none⟩

structure Pool where
  healthCheckCtrl : Option Text
  healthCheck : List Text
  members : List Member

/-- `pool_config` -/
def poolConfig (text name : Text) : Except Failure Pool := do
  let o ← parseConfigObject text "load-balance pool".toList name
  let members ← o.members.mapM (memberOf py)
  let control ← one o.fields "health-check-ctrl"
  return ⟨control,
    if control ≠ some disable then (Dict.get "health-check-list".toList o.fields).getD [] else [], members⟩

/-- `health_check_config` -/
def healthCheckConfig (text name : Text) : Except Failure (List (String × Option Text)) := do
  let o ← parseConfigObject text "system health-check".toList name
  (["type", "port", "interval", "timeout", "up-retry", "down-retry"].filter fun key =>
    (Dict.get key.toList o.fields).isSome).mapM fun key => do return (key, ← one o.fields key)

/-! ## the state of a virtual server -/

abbrev Counters := List (Text × Int)

/-- a row of a member -/
structure MemberStat where
  id : Nat
  hcState : Text
  lastStateChange : Text
  counters : Counters := []

structure StatPool where
  name : Text
  members : List MemberStat := []

/-- what the counters of the next line belong to -/
inductive Owner where
  | none | server | member
  deriving DecidableEq

structure VsStat where
  availability : Option Text := none
  counters : Counters := []
  pools : List StatPool := []
  owner : Owner := .none

def MemberStat.count (name : Text) (value : Int) (m : MemberStat) : MemberStat :=
  { m with counters := Dict.set name value m.counters }

def StatPool.count (name : Text) (value : Int) (p : StatPool) : StatPool :=
  { p with members := onLast (MemberStat.count name value) p.members }

def StatPool.add (m : MemberStat) (p : StatPool) : StatPool := { p with members := p.members ++ [m] }

/-- `owner["counters"][name] = value` -/
def VsStat.count (s : VsStat) (name : Text) (value : Int) : VsStat :=
  match s.owner with
  | .none => s
  | .server => { s with counters := Dict.set name value s.counters }
  | .member => { s with pools := onLast (StatPool.count name value) s.pools }

/-- the line of a counter, behind as many tabs as its owner has -/
def counterOf (owner : Owner) (line : Text) : Option (Text × Text) :=
  let depth := if owner = .member then 3 else 2
  if List.replicate depth '\t' <+: line ∧ getElem? line depth ≠ some '\t' then counterLine (line.drop depth) else none

/-- one line -/
def VsStat.step (virtualServer : Text) (s : VsStat) (line : Text) : Except Failure VsStat :=
  match vsStatLine line with
  | some (name, availability) =>
    if name ≠ virtualServer ∨ s.availability.isSome ∨ !isState availability then .error .unparsed
    else .ok { s with availability := some availability, owner := .server }
  | none =>
    if s.availability.isNone then .error .unparsed
    else
      match poolLine line with
      | some name => .ok { s with pools := s.pools ++ [⟨name, []⟩], owner := .none }
      | none =>
        match memberStatLine line with
        | some (id, state, change) =>
          if s.pools = [] ∨ !isState state then .error .unparsed
          else
            (py.number id).map fun n =>
              { s with pools := onLast (StatPool.add ⟨n, state, change, []⟩) s.pools, owner := .member }
        | none =>
          match counterOf s.owner line with
          | some (name, value) =>
            if s.owner = .none then .error .unparsed else (py.signed value).map fun v => s.count name v
          | none => .error .unparsed

def VsStat.run (virtualServer : Text) (s : VsStat) : List Text → Except Failure VsStat
  | [] => .ok s
  | line :: rest =>
    match s.step py virtualServer line with
    | .error e => .error e
    | .ok s => s.run virtualServer rest

/-- `parse_vs_stat` -/
def parseVsStat (text virtualServer vdom : Text) : Except Failure VsStat :=
  match linesOf text with
  | .error e => .error e
  | .ok [] => .error .raised
  | .ok (first :: rest) =>
    if vdomLine first ≠ some vdom then .error .unparsed
    else
      match ({} : VsStat).run py virtualServer rest with
      | .error e => .error e
      | .ok s => if s.availability.isNone then .error .unparsed else .ok s

/-! ## the load -/

structure LoadMember where
  id : Nat
  status : Nat
  weight : Nat

structure LoadPool where
  name : Text
  members : List LoadMember := []

/-- the virtual servers so far; the last one, and the last of its pools, are open -/
abbrev Servers := List (Text × List LoadPool)

/-- one line -/
def Servers.step (s : Servers) (line : Text) : Except Failure Servers :=
  match loadVsLine line with
  | some name => if name ∈ Dict.keys s then .error .unparsed else .ok (s ++ [(name, [])])
  | none =>
    match loadPoolLine line, s with
    | some name, _ :: _ => .ok (onLast (fun x => (x.1, x.2 ++ [⟨name, []⟩])) s)
    | _, _ =>
      match loadMemberLine line with
      | some (id, status, weight) =>
        if s.getLast?.any (fun x => x.2 ≠ []) then do
          let member : LoadMember := ⟨← py.number id, ← py.number status, ← py.number weight⟩
          return onLast (fun x => (x.1, onLast (fun p => { p with members := p.members ++ [member] }) x.2)) s
        else .error .unparsed
      | none => .error .unparsed

def Servers.run (s : Servers) : List Text → Except Failure Servers
  | [] => .ok s
  | line :: rest =>
    match s.step py line with
    | .error e => .error e
    | .ok s => Servers.run s rest

structure Load where
  present : Bool
  pools : List LoadPool

/-- `parse_slb_load` -/
def parseSlbLoad (text virtualServer : Text) : Except Failure Load :=
  match linesOf text with
  | .error e => .error e
  | .ok [] => .error .raised
  | .ok (first :: rest) =>
    if (vdomLine first).isNone then .error .unparsed
    else
      match Servers.run py [] rest with
      | .error e => .error e
      | .ok s => .ok ⟨virtualServer ∈ Dict.keys s, (Dict.get virtualServer s).getD []⟩

/-! ## handshakes -/

/-- a side of the virtual server: `none` for the clients -/
structure Side where
  server : Option Nat
  succeeded : Option Nat := none
  failed : Option Nat := none
  deriving DecidableEq

/-- one line -/
def sidesStep (sides : List Side) (line : Text) : Except Failure (List Side) :=
  match tlsServerLine line with
  | some id => (py.number id).map fun n => sides ++ [{ server := some n }]
  | none =>
    if line = tlsClient then .ok (sides ++ [{ server := none }])
    else if sides = [] ∨ line.head? ≠ some '\t' then .error .unparsed
    else
      match tlsOkLine line with
      | some count => (py.number count).map fun n => onLast (fun s => { s with succeeded := some n }) sides
      | none =>
        match tlsFailLine line with
        | some count => (py.number count).map fun n => onLast (fun s => { s with failed := some n }) sides
        | none => .ok sides

def sidesRun (sides : List Side) : List Text → Except Failure (List Side)
  | [] => .ok sides
  | line :: rest =>
    match sidesStep py sides line with
    | .error e => .error e
    | .ok sides => sidesRun sides rest

/-- `parse_tls_stats`: the first side is that of the clients -/
def parseTlsStats (text : Text) : Except Failure (List Side) :=
  match linesOf text with
  | .error e => .error e
  | .ok lines =>
    match sidesRun py [] lines with
    | .error e => .error e
    | .ok sides =>
      if (sides.head?.all fun s => s.server.isSome) ∨
          sides.any fun s => s.succeeded.isNone || s.failed.isNone then .error .unparsed
      else .ok sides

/-! ## the other answers -/

structure Dos where
  metric : Text
  value : Nat

/-- `parse_dos` -/
def parseDos (text virtualServer : Text) : Except Failure Dos :=
  match linesOf text with
  | .error e => .error e
  | .ok [first, trailer] =>
    if !dosTrailer trailer then .error .unparsed
    else
      match dosLine first with
      | some (name, metric, value) =>
        if name ≠ virtualServer then .error .unparsed
        else (py.number value).map fun n =>
          ⟨(metric.reverse.dropWhile fun c => c = ' ' || c = '=').reverse, n⟩
      | none => .error .unparsed
  | .ok _ => .error .unparsed

/-- `parse_key_values` -/
def parseKeyValues (text : Text) : Except Failure (List (Text × Text)) :=
  match linesOf text with
  | .error e => .error e
  | .ok lines =>
    lines.foldlM (fun values line =>
      match keyValueLine line with
      | some (key, value) =>
        if key ∈ Dict.keys values then .error .unparsed else .ok (values ++ [(key, strip value)])
      | none => .error .unparsed) []

end

end Netops.TriageSlb

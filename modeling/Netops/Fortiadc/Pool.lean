import Netops.Fortiadc.State
import Netops.Lib.Play

/-!
# Changes of a pool

`run` of `fortiadc.py`, `add` and `remove` of `fortiadc_member.py`.  The device answers every query with any
text or not at all, and takes the lines of a change or raises anything.

* `Op`, `sig`             what is asked of the device;
* `prechecks`             whether the pool stays served;
* `run`, `add`, `remove`  each reads the pool, checks, writes, and reads it again.
-/

namespace Netops.Fortiadc

open Fortios (Text isSpace isBlank)
open Effect

/-- `access.query`, `access.diagnose_query` and `access.apply` with the prompt of the device -/
inductive Op where
  | query (command : Text)
  | diagnose (command : Text)
  | apply (steps : List Text) (hostname : Text)

/-- a text, or nothing where the query raises; the name of the exception where the lines are not taken -/
def Op.Ans : Op → Type
  | .query _ => Option Text
  | .diagnose _ => Option Text
  | .apply _ _ => Option Text

def sig : Sig := ⟨Op, fun _ => Unit, Op.Ans⟩

abbrev P := Prog sig Exn

/-- what the standard library says of characters -/
structure Unicode where
  isWord : Char → Bool
  decimal : Char → Option Nat

/-! ## names and numbers -/

def isAlnum (c : Char) : Bool := ('A' ≤ c && c ≤ 'Z') || ('a' ≤ c && c ≤ 'z') || ('0' ≤ c && c ≤ '9')

/-- `[A-Za-z0-9][A-Za-z0-9._-]{0,most}` -/
def isName (most : Nat) : Text → Bool
  | [] => false
  | c :: cs => isAlnum c && cs.length ≤ most && cs.all fun c => isAlnum c || c = '.' || c = '_' || c = '-'

/-- `[1-9][0-9]{0,most}` -/
def isNumber (most : Nat) : Text → Bool
  | [] => false
  | c :: cs => ('1' ≤ c && c ≤ '9') && cs.length ≤ most && cs.all fun c => '0' ≤ c && c ≤ '9'

/-- `POOL`, `MEMBER`, `HOSTNAME`, `PORT` and `WEIGHT` -/
def isPool : Text → Bool := isName 62
def isMember : Text → Bool := isNumber 8
def isHostname : Text → Bool := isName 63
def isPort : Text → Bool := isNumber 4
def isWeight : Text → Bool := isNumber 2

/-- the value of digits, with single underscores between them -/
def digitsFrom (u : Unicode) : Nat → Bool → Text → Option Nat
  | n, digit, [] => if digit then some n else none
  | n, digit, c :: cs =>
    match u.decimal c with
    | some d => digitsFrom u (10 * n + d) true cs
    | none => if c = '_' ∧ digit = true then digitsFrom u n false cs else none

/-- `int` -/
def toInt (u : Unicode) (t : Text) : Option Int :=
  let stripped := ((t.dropWhile isSpace).reverse.dropWhile isSpace).reverse
  let digits := fun cs : Text =>
    if (cs.filter fun c => (u.decimal c).isSome).length ≤ 4300 then digitsFrom u 0 false cs else none
  match stripped with
  | '-' :: cs => (digits cs).map fun n => -(n : Int)
  | '+' :: cs => (digits cs).map Int.ofNat
  | cs => (digits cs).map Int.ofNat

/-- `sorted(keys, key=int)` -/
def sortedByInt (u : Unicode) (keys : List Text) : Except Exn (List Text) :=
  match keys.mapM fun k => (toInt u k).map fun n => (n, k) with
  | none => .error .valueError
  | some pairs => .ok ((pairs.insertionSort fun a b => a.1 ≤ b.1).map Prod.snd)

/-! ## the health of the members -/

/-- a letter of an expression, whatever its case -/
def sameLetter (d c : Char) : Bool :=
  c = d || c.toLower = d || (d = 'k' && c.toNat = 8490) || (d = 's' && c.toNat = 383) ||
    (d = 'i' && (c.toNat = 304 || c.toNat = 305))

def ignoringCase (w : String) : Regex Char := Regex.word (w.toList.map sameLetter)

def healthRefusals : Regex Char :=
  Regex.oneOf (["parsing error", "command fail", "permission", "not authorized", "unknown action",
    "invalid"].map ignoringCase)

def isLetter (c : Char) : Bool := ('A' ≤ c && c ≤ 'Z') || ('a' ≤ c && c ≤ 'z')
def isAsciiDigit (c : Char) : Bool := '0' ≤ c && c ≤ '9'

section
variable (u : Unicode)

/-- `\bname:[ \t]*` and what comes after -/
def labelled (name : String) (value : Regex Char) : Regex Char :=
  .seq (.after fun c => !u.isWord c)
    (.seq (Regex.word (name.toList.map fun d c => c = d)) (.seq (.star (.char isBlank)) value))

def availability : Regex Char := labelled u "availability:" (.plus (.char isLetter))
def memberId : Regex Char :=
  labelled u "id:" (.seq (.plus (.char isAsciiDigit)) (.unless (.char u.isWord)))
def hcState : Regex Char := labelled u "hc_state:" (.plus (.char isLetter))

/-- the value after a label -/
def labelledValue (r : Regex Char) (name : String) (line : Text) : Option Text :=
  (r.search none line).map fun found =>
    (((line.drop found.1).take found.2).drop name.length).dropWhile isBlank

/-- `_health_unreadable` -/
def healthUnreadable (why : String) : Exn :=
  .rejected ("the health of the pool members cannot be read (".toList ++ why.toList ++
    "); the change is refused".toList)

def asciiValue (digits : Text) : Nat := digits.foldl (fun n c => 10 * n + (c.toNat - 48)) 0

def vsStatFrom : List Text → Option Nat → List (Nat × Text) → Except Exn (List (Nat × Text))
  | [], _, states =>
    if states = [] then .error (healthUnreadable "vs_stat lists no members") else .ok states
  | line :: rest, current, states =>
    let found := labelledValue (memberId u) "id:" line
    if found.any fun digits => 4300 < digits.length then .error .valueError
    else
      let current := (found.map asciiValue).or current
      match (labelledValue (hcState u) "hc_state:" line).map (List.map Char.toUpper) with
      | none => vsStatFrom rest current states
      | some state =>
        match current with
        | none => .error (healthUnreadable "vs_stat member list is not recognised")
        | some number =>
          if number ∈ Dict.keys states ∨ (state ≠ "UP".toList ∧ state ≠ "DOWN".toList) then
            .error (healthUnreadable "vs_stat member list is not recognised")
          else vsStatFrom rest (some number) (Dict.set number state states)

/-- `parse_vs_stat` -/
def parseVsStat (text : Text) : Except Exn (List (Nat × Text)) :=
  if healthRefusals.occursIn text then .error (healthUnreadable "vs_stat was refused")
  else if (plainLines text).countP (availability u).occursIn ≠ 1 then
    .error (healthUnreadable "vs_stat output is not recognised")
  else vsStatFrom u (plainLines text) none []

end

/-! ## before a change -/

def rejected {α : Type} (reason : String) : P α := .raise (.rejected reason.toList)

/-- a query, and what is said where it raises -/
def ask (command : Text) (otherwise : Exn) : P Text :=
  .op (.query command) fun
    | none => .raise otherwise
    | some text => .ret text

def stateUnreadable : Exn := .rejected "the device state cannot be read".toList

/-- the names of the lines `Hostname: ...` -/
def hostnames (text : Text) : List Text :=
  let line := Regex.seq (Regex.word ("Hostname:".toList.map fun d c => c = d))
    (.seq (.plus (.char isBlank)) (.seq (.plus (.char fun c => !isSpace c)) (.star (.char isBlank))))
  ((Fortios.splitLines (text.filter (· ≠ '\r'))).filter line.fullMatch).map fun l =>
    ((l.drop 9).dropWhile isBlank).takeWhile fun c => !isSpace c

/-- `_hostname` -/
def hostname : P Text :=
  (ask "get system status".toList stateUnreadable).bind fun text =>
    match hostnames text with
    | [name] => if isHostname name then .ret name else rejected "the device hostname cannot be established"
    | _ => rejected "the device hostname cannot be established"

def showCommand (pool : Text) : Text := "show load-balance pool ".toList ++ pool

/-- `_listing` -/
def listing (pool : Text) : P Text := ask (showCommand pool) stateUnreadable

def vsCommand : Text := "show load-balance virtual-server".toList
def vsStatCommand (vs : Text) : Text := "diagnose server-load-balance vs_stat vdom root vs ".toList ++ vs

/-- `_blocks(access.query(VS_COMMAND), ...)`: whatever is raised, the servers cannot be read -/
def virtualServers : P Table :=
  let unreadable := Exn.rejected "the virtual servers cannot be read".toList
  (ask vsCommand unreadable).bind fun text =>
    match blocks text "load-balance virtual-server".toList with
    | .ok t => .ret t
    | .error (.rejected why) => .raise (.rejected why)
    | .error _ => .raise unreadable

/-- the servers that use the pool -/
def usersOf (pool : Text) : Table → Except Exn (List Text)
  | [] => .ok []
  | (name, attributes) :: rest =>
    if (Dict.get "content-routing".toList attributes).getD "disable".toList ≠ "disable".toList ∨
        (Dict.get "schedule-pool-list".toList attributes).getD [] ≠ [] then
      .error (.rejected ("the virtual server ".toList ++ name ++
        " selects pools by content routing or schedule; the pool use cannot be evaluated".toList))
    else
      (usersOf pool rest).map fun users =>
        if Dict.get "load-balance-pool".toList attributes = some pool then name :: users else users

section
variable (u : Unicode)

/-- `read_health` -/
def readHealth (vs : Text) : P (List (Nat × Text)) :=
  .op (.diagnose (vsStatCommand vs)) fun
    | none => .raise (healthUnreadable "vs_stat query failed")
    | some text => Prog.ofExcept (parseVsStat u text)

/-- one of the members is enabled and healthy -/
def anyHealthy (health : List (Nat × Text)) : List (Text × Text) → Except Exn Bool
  | [] => .ok false
  | (number, state) :: rest =>
    if state = "enable".toList then
      match toInt u number with
      | none => .error .valueError
      | some n =>
        if health.any fun x => (x.1 : Int) = n && x.2 = "UP".toList then .ok true
        else anyHealthy health rest
    else anyHealthy health rest

def checkUsers (after : List (Text × Text)) : List Text → P Unit
  | [] => .ret ()
  | vs :: rest =>
    (readHealth u vs).bind fun health =>
      (Prog.ofExcept (anyHealthy u health after)).bind fun healthy =>
        if healthy then checkUsers after rest
        else .raise (.rejected ("the change would leave virtual server ".toList ++ vs ++
          " without a healthy enabled member".toList))

/-- the statuses of the members of the listing, as they would be -/
def statusesAfter (pool member status text : Text) : Except Exn (List (Text × Text)) :=
  match memberNumbers text with
  | .error e => .error e
  | .ok numbers =>
    match numbers.mapM fun number => (parseStatus pool number text).map fun s => (number, s) with
    | .error e => .error e
    | .ok pairs => .ok (Dict.set member status (pairs.foldl (fun d x => Dict.set x.1 x.2 d) []))

def prechecks (pool member status text : Text) : P Unit :=
  virtualServers.bind fun servers =>
    (Prog.ofExcept (usersOf pool servers)).bind fun users =>
      if users = [] then rejected "no virtual server uses the pool; the effect of the change cannot be evaluated"
      else (Prog.ofExcept (statusesAfter pool member status text)).bind fun after => checkUsers u after users

end

/-! ## the changes -/

inductive Result where
  | confirmed | unchanged | rolledBack | unknown
  deriving DecidableEq

/-- what a change would do -/
structure Preview where
  commands : List Text
  existingMembers : List Text
  virtualServers : List Text
  memberBefore : Option Attributes
  inverse : List Text

structure Record where
  pool : Text
  member : Text
  requested : Option Text
  before : Option Text
  preview : Option Preview
  reason : Option Text
  /-- whether the member was written back, and how that went -/
  restore : Option (Option Text)
  result : Result
  after : Option Text

def quoted (t : Text) : Text := '"' :: t ++ ['"']

/-- the lines around the lines of a member -/
def inPool (pool : Text) (body : List Text) : List Text :=
  ["config load-balance pool".toList, "edit ".toList ++ quoted pool, "config pool_member".toList] ++ body ++
    ["end".toList, "next".toList, "end".toList]

def render (pool member status : Text) : List Text :=
  inPool pool ["edit ".toList ++ member, "set status ".toList ++ status, "next".toList]

/-- `_write`: why it failed -/
def write (steps : List Text) (host : Text) : P (Option Text) :=
  .op (.apply steps host) fun
    | none => .ret none
    | some name => .ret (some ("write failed (".toList ++ name ++ ")".toList))

/-- a refusal is no answer; anything else is raised on -/
def unlessRejected {α : Type} (m : P α) : P (Option α) :=
  (m.bind fun a => .ret (some a)).tryCatch fun
    | .rejected _ => .ret none
    | e => .raise e

/-- `_read` -/
def read (pool member : Text) : P Text :=
  (listing pool).bind fun text => Prog.ofExcept (parseStatus pool member text)

/-- `_readback` -/
def readback (pool member : Text) : P (Option Text) := unlessRejected (read pool member)

def whyNot {α : Type} (failure : Option Text) (after : Option α) : Text :=
  failure.getD (if after.isSome then "read-back differs".toList else "read-back unreadable".toList)

/-- `run`, from the write on -/
def settleRun (host pool member status before : Text) : P Record :=
  (write (render pool member status) host).bind fun failure =>
    (readback pool member).bind fun after =>
      let record : Record := ⟨pool, member, some status, some before, none, none, none, .confirmed, after⟩
      if failure = none ∧ after = some status then .ret record
      else
        let record := { record with reason := some (whyNot failure after) }
        let finish := fun after : Option Text =>
          { record with result := if after = some before then .rolledBack else .unknown, after := after }
        if after ≠ some before then
          (write (render pool member before) host).bind fun _ =>
            (readback pool member).bind fun after => .ret (finish after)
        else .ret (finish after)

def run (u : Unicode) (pool member status : Text) : P Record :=
  if !isPool pool then rejected "the pool name is not valid"
  else if !isMember member then rejected "the member must be a pool member number"
  else if status ∉ statuses then rejected "the status must be one of: enable, disable, maintain"
  else
    hostname.bind fun host =>
      (listing pool).bind fun text =>
        (Prog.ofExcept (parseStatus pool member text)).bind fun before =>
          if before = status then
            .ret ⟨pool, member, some status, some before, none, none, none, .unchanged, some before⟩
          else (prechecks u pool member status text).bind fun _ => settleRun host pool member status before

/-- `_members` -/
def members (pool : Text) : P Table :=
  (listing pool).bind fun text => Prog.ofExcept (parseMembers pool text)

/-- `_members_back` -/
def membersBack (pool : Text) : P (Option Table) := unlessRejected (members pool)

def renderAdd (pool member realServer port : Text) : List Text :=
  inPool pool ["edit ".toList ++ member, "set real-server ".toList ++ quoted realServer,
    "set pool_member_service_port ".toList ++ port, "set status disable".toList, "next".toList]

def renderRemove (pool member : Text) : List Text := inPool pool ["delete ".toList ++ member]

/-- `RESTORABLE`: the attributes that can be written back, whether in quotes, and their values -/
def restorable : List (Text × Bool × (Text → Bool)) :=
  [("real-server".toList, true, isPool),
    ("status".toList, false, fun v => v = "disable".toList || v = "maintain".toList),
    ("pool_member_service_port".toList, false, isPort),
    ("pool_member_cookie".toList, true, isPool),
    ("pool_member_weight".toList, false, isWeight)]

def renderCreate (pool member : Text) (entry : Attributes) : List Text :=
  let sets := restorable.filterMap fun x => (Dict.get x.1 entry).map fun value =>
    "set ".toList ++ x.1 ++ ' ' :: (if x.2.1 then quoted value else value)
  inPool pool (("edit ".toList ++ member) :: sets ++ ["next".toList])

/-- `_unrestorable` -/
def unrestorable (entry : Attributes) : List Text :=
  (Dict.keys (entry.filter fun x =>
    !(restorable.any fun y => y.1 = x.1 && y.2.2 x.2))).insertionSort (· ≤ ·)

/-- `_users` -/
def users (pool : Text) : P (List Text) :=
  virtualServers.bind fun servers =>
    .ret ((Dict.keys (servers.filter fun x =>
      Dict.get "load-balance-pool".toList x.2 = some pool)).insertionSort (· ≤ ·))

/-- `_real_server_exists` -/
def realServerExists (realServer : Text) : P Bool :=
  (ask "show load-balance real-server".toList (.rejected "the real servers cannot be read".toList)).bind fun text =>
    (Prog.ofExcept (blocks text "load-balance real-server".toList)).bind fun t =>
      .ret (decide (realServer ∈ Dict.keys t))

/-- `_matches` -/
def isWanted (entry : Attributes) (realServer port : Text) : Bool :=
  Dict.get "real-server".toList entry = some realServer &&
    Dict.get "pool_member_service_port".toList entry = some port &&
    Dict.get "status".toList entry = some "disable".toList

/-- `other == table` where there may be no other -/
def isTable (other : Option Table) (t : Table) : Bool := other.any fun a => sameTable a t

def withoutMember (member : Text) (t : Table) : Table := t.filter fun x => x.1 ≠ member

/-- `add`, from the write on -/
def settleAdd (host pool member realServer port : Text) (before : Table) (preview : Preview) : P Record :=
  (write (renderAdd pool member realServer port) host).bind fun failure =>
    (membersBack pool).bind fun after =>
      let record : Record := ⟨pool, member, some "disable".toList, none, some preview, none, none, .confirmed,
        some "disable".toList⟩
      let others := after.map (withoutMember member)
      if failure = none ∧ isTable others before = true ∧
          ((after.bind (Dict.get member)).any fun entry => isWanted entry realServer port) = true then .ret record
      else
        let record := { record with reason := some (whyNot failure after) }
        let finish := fun after : Option Table =>
          if isTable after before then { record with result := .rolledBack, after := none }
          else { record with result := .unknown, after := some "unverified".toList }
        if (after.map fun a => decide (member ∈ Dict.keys a)) ≠ some false then
          (write (renderRemove pool member) host).bind fun _ =>
            (membersBack pool).bind fun after => .ret (finish after)
        else .ret (finish after)

/-- `_check` -/
def check (pool member : Text) (realServer port : Option Text) : P Unit :=
  if !isPool pool then rejected "the pool name is not valid"
  else if !isMember member then rejected "the member must be a pool member number"
  else if !realServer.all isPool then rejected "the real server name is not valid"
  else if !(port.all fun p => isPort p && asciiValue p ≤ 65535) then
    rejected "the service port must be a number from 1 to 65535"
  else .ret ()

def add (u : Unicode) (pool member realServer port : Text) : P Record :=
  (check pool member (some realServer) (some port)).bind fun _ =>
    hostname.bind fun host =>
      (members pool).bind fun before =>
        if member ∈ Dict.keys before then rejected "the member number is already used in the pool"
        else if before.any fun x => Dict.get "real-server".toList x.2 = some realServer &&
            Dict.get "pool_member_service_port".toList x.2 = some port then
          rejected "the real server with this port is already a member of the pool"
        else
          (realServerExists realServer).bind fun known =>
            if !known then rejected "the real server is not configured on the device"
            else
              (Prog.ofExcept (sortedByInt u (Dict.keys before))).bind fun existing =>
                (users pool).bind fun servers =>
                  settleAdd host pool member realServer port before
                    ⟨renderAdd pool member realServer port, existing, servers, none, renderRemove pool member⟩

/-- `remove`, from the write on -/
def settleRemove (host pool member : Text) (before : Table) (preview : Preview) : P Record :=
  (write preview.commands host).bind fun failure =>
    (membersBack pool).bind fun after =>
      let record : Record := ⟨pool, member, none, none, some preview, none, none, .confirmed, some "absent".toList⟩
      if failure = none ∧ isTable after (withoutMember member before) = true then .ret record
      else
        let record := { record with reason := some (whyNot failure after) }
        let finish := fun (record : Record) (after : Option Table) =>
          if isTable after before then { record with result := .rolledBack, after := some "present".toList }
          else { record with result := .unknown, after := some "unverified".toList }
        if (after.map fun a => decide (member ∈ Dict.keys a)) ≠ some true then
          (write preview.inverse host).bind fun restore =>
            (membersBack pool).bind fun after =>
              .ret (finish { record with restore := some (some (restore.getD "ok".toList)) } after)
        else .ret (finish { record with restore := some none } after)

def remove (u : Unicode) (pool member : Text) : P Record :=
  (check pool member none none).bind fun _ =>
    hostname.bind fun host =>
      (members pool).bind fun before =>
        match Dict.get member before with
        | none => rejected "the member is not in the pool"
        | some entry =>
          let status := Dict.get "status".toList entry
          if status ≠ some "disable".toList ∧ status ≠ some "maintain".toList then
            rejected "only a disabled or maintained member can be removed"
          else if before.length = 1 then rejected "the last member of a pool is never removed"
          else if unrestorable entry ≠ [] ∨ "real-server".toList ∉ Dict.keys entry then
            .raise (.rejected ("the member has settings that cannot be restored: ".toList ++
              if unrestorable entry ≠ [] then (", ".toList).intercalate (unrestorable entry)
              else "no real-server".toList))
          else
            (Prog.ofExcept (sortedByInt u (Dict.keys before))).bind fun existing =>
              (users pool).bind fun servers =>
                settleRemove host pool member before
                  ⟨renderRemove pool member, existing, servers, some entry, renderCreate pool member entry⟩

end Netops.Fortiadc

import Netops.Diagnostics.Shell
import Netops.Engine.Address
import Netops.Lib.Dict
import Netops.Lib.Lines
import Netops.Lib.Patterns

/-!
# Diagnostics on FortiOS (`fortios_diagnostics.py`)

`run` changes options, filters or the debugging of the device for a diagnostic, and takes the changes back in
`finally`.  The list of what is to be taken back grows while the changes are made, so an exception inside of
`try` carries the list as it was then: `Kept`.

* `Command`        what is sent;
* `restore`        `_restore`, in one session;
* `body`, `run`    the steps inside of `try`, and the whole.
-/

namespace Netops.Diagnostics

open Effect Regex Patterns
open Netops.Fortios (Text isSpace strip)

namespace Fortios

/-! ## commands -/

inductive Recipe where
  | ping | traceroute | sniffer | sessions | flow | logs
  deriving DecidableEq

def Recipe.name : Recipe → String
  | .ping => "ping"
  | .traceroute => "traceroute"
  | .sniffer => "sniffer"
  | .sessions => "sessions"
  | .flow => "flow"
  | .logs => "logs"

inductive Command where
  | systemStatus
  | showInterface (name : Text)
  | interfaceList (name : Text)
  | viewSettings (recipe : Recipe)
  | setOption (recipe : Recipe) (option value : Text)
  | debugInfo
  | showFilter (recipe : Recipe)
  | setFilter (recipe : Recipe) (selector : Text)
  | clearFilter (recipe : Recipe)
  | debugDisable
  | debugEnable
  | traceStop
  | traceStart (count : Nat)
  | logFilterDump
  | execute (recipe : Recipe) (address : Text)
  | sniff (interface selector : Text) (count : Nat)
  | sessionList
  | logDisplay
  deriving DecidableEq

/-- `execute ping-options ` -/
def optionsOf (recipe : Recipe) : Text := ("execute " ++ recipe.name ++ "-options ").toList

/-- `display` of the filters -/
def filterOf : Recipe → Text
  | .sessions => "diagnose sys session filter".toList
  | _ => "diagnose debug flow filter".toList

/-- the text that is sent -/
def Command.text : Command → Text
  | .systemStatus => "get system status".toList
  | .showInterface name => "show full-configuration system interface \"".toList ++ name ++ ['"']
  | .interfaceList name => "diagnose netlink interface list ".toList ++ name
  | .viewSettings recipe => optionsOf recipe ++ "view-settings".toList
  | .setOption recipe option value => optionsOf recipe ++ option ++ [' '] ++ value
  | .debugInfo => "diagnose debug info".toList
  | .showFilter recipe => filterOf recipe
  | .setFilter recipe selector => filterOf recipe ++ [' '] ++ selector
  | .clearFilter recipe => filterOf recipe ++ " clear".toList
  | .debugDisable => "diagnose debug disable".toList
  | .debugEnable => "diagnose debug enable".toList
  | .traceStop => "diagnose debug flow trace stop".toList
  | .traceStart count => ("diagnose debug flow trace start " ++ toString count).toList
  | .logFilterDump => "execute log filter dump".toList
  | .execute recipe address => ("execute " ++ recipe.name ++ " ").toList ++ address
  | .sniff interface selector count =>
    "diagnose sniffer packet ".toList ++ interface ++ " \"".toList ++ selector ++ "\" 1 ".toList ++
      (toString count).toList ++ " l".toList
  | .sessionList => "diagnose sys session list".toList
  | .logDisplay => "execute log display".toList

/-! ## reading answers -/

/-- `(?mi)^…:[ \t]*…[ \t]*$` -/
def hasLine (label value : String) (text : Text) : Bool :=
  occursIn (sequence [lineStart, anyCase label, blanks, anyCase value, blanks, lineStop]) text

/-- the answer to `diagnose debug info` says that nothing is written -/
def debugDisabled (text : Text) : Bool := hasLine "debug output:" "disable" text

/-- `(?m)^if=…(?:\s|$)` -/
def interfaceShown (name text : Text) : Bool :=
  occursIn (sequence [lineStart, lit "if=", word (name.map fun d c => c = d), .alt (.char isSpace) lineStop]) text

/-- the pairs of a text with `:` in its lines -/
def pairOf (line : Text) : Option (Text × Text) :=
  if ':' ∈ line then
    some (strip (line.takeWhile (· ≠ ':')), strip ((line.dropWhile (· ≠ ':')).drop 1))
  else none

/-- `fields`; `none` where a key stands twice -/
def fields (text : Text) : Option (List (Text × Text)) :=
  ((Lines.splitlines text).filterMap pairOf).foldlM
    (fun d x => if x.1 ∈ Dict.keys d then none else some (Dict.set x.1 x.2 d)) []

/-- `baseline.split(mark, 1)[0]` -/
def beforeMark (mark : Text) : Text → Text
  | [] => []
  | c :: t => if mark <+: c :: t then [] else c :: beforeMark mark t

def sessionFields : List String :=
  ["vd", "sintf", "dintf", "proto", "proto-state", "source ip", "NAT'd source ip", "dest ip", "source port",
    "NAT'd source port", "dest port", "policy id", "expire", "duration", "state1", "state2"]

def flowFields : List String := ["vf", "proto", "Host addr", "Host saddr", "Host daddr", "port", "sport", "dport"]

def logFilterFields : List String :=
  ["category", "device", "start-line", "view-lines", "max-checklines", "HA member", "log search mode",
    "pre-fetch-pages", "Oftp search string"]

/-- the keys are these -/
def hasKeys (state : List (Text × Text)) (expected : List String) : Bool :=
  (Dict.keys state).all (fun k => expected.any fun e => e.toList = k) &&
    expected.all fun e => (Dict.keys state).contains e.toList

def any : Text := "any".toList

/-- `empty_filter`; `false` where it raises -/
def emptyFilter (text : Text) (recipe : Recipe) : Bool :=
  match fields text with
  | none => false
  | some state =>
    if recipe = .sessions then
      let rest := state.filter fun x => x.1 ≠ "session filter".toList && x.1 ≠ "ngfw id".toList
      Dict.get "session filter".toList state = some [] &&
        (Dict.get "ngfw id".toList state).all (· = any) && hasKeys rest sessionFields && rest.all (·.2 = any)
    else hasKeys state flowFields && state.all (·.2 = any)

/-- `log_filter`; `false` where it raises -/
def logFilter (isDigits : Text → Bool) (text : Text) : Bool :=
  match fields text with
  | none => false
  | some state => hasKeys state logFilterFields && (Dict.get "view-lines".toList state).any isDigits

/-! ## options -/

structure Setting where
  option : String
  label : String
  value : Text

/-- the options of a recipe -/
def settings (recipe : Recipe) (interface : Text) (count : Nat) : List Setting :=
  match recipe with
  | .ping =>
    [⟨"repeat-count", "Repeat Count", (toString count).toList⟩, ⟨"timeout", "Timeout", "1".toList⟩,
      ⟨"interval", "Interval", "1".toList⟩, ⟨"data-size", "Data Size", "56".toList⟩,
      ⟨"adaptive-ping", "Adaptive Ping", "disable".toList⟩, ⟨"interface", "Interface", interface⟩,
      ⟨"source", "Source Address", "auto".toList⟩, ⟨"use-sdwan", "Use SD-WAN", "no".toList⟩]
  | _ =>
    [⟨"queries", "Number of probes per hop", (toString count).toList⟩, ⟨"device", "Device", interface⟩,
      ⟨"source", "Source Address", "auto".toList⟩, ⟨"use-sdwan", "Use SD-WAN", "no".toList⟩]

/-- `REFUSABLE_OPTIONS` -/
def refusable (option : String) : Bool := option = "interface" || option = "device" || option = "source"

/-- the exact text of a refusal -/
def refusal (option : String) : Text :=
  ("command parse error before '" ++ option ++ "'\nCommand fail. Return code -61").toList

/-- `re.fullmatch(r"[A-Za-z0-9_.-]{1,15}", previous)` -/
def isSafeValue (t : Text) : Bool :=
  1 ≤ t.length && t.length ≤ 15 && t.all fun c => isAlnum c || c = '_' || c = '.' || c = '-'

/-- the value that an option had; `none` where it cannot be put back -/
def previousOf (current : List (Text × Text)) (s : Setting) : Option Text :=
  match Dict.get s.label.toList current with
  | none => none
  | some previous =>
    if !isSafeValue previous then none
    else if s.option = "source" ∧ previous ≠ "auto".toList ∧ (Engine.address previous).isNone then none
    else if s.option = "use-sdwan" then
      if previous = "no".toList ∨ previous = "disable".toList then some "no".toList
      else if previous = "yes".toList ∨ previous = "enable".toList then some "yes".toList
      else none
    else some previous

/-- the options as the baseline shows them -/
def currentOf (baseline : Text) : Option (List (Text × Text)) :=
  fields (beforeMark "Default Ping Options:".toList baseline)

/-! ## restoring -/

/-- what `finally` knows: what is to be taken back, and what is to be shown then -/
structure Kept where
  cleanup : List Command := []
  display : Option Command := none
  baseline : Option Text := none

section
variable {ε : Type}

/-- the commands of the list, each one tried: all of them are accepted -/
def sendAll (who : Who) : List Command → Prog (shell Command) ε Bool
  | [] => .ret true
  | c :: cs => (tried who .restore c).bind fun r => (sendAll who cs).bind fun rest => .ret (r.isOk && rest)

/-- the answer to a command satisfies this -/
def checked (who : Who) (c : Command) (good : Text → Bool) : Prog (shell Command) ε Bool :=
  (tried who .restore c).bind fun r =>
    .ret (match r with
      | .ok text => good text
      | .error _ => false)

/-- `_restore` -/
def restore (who : Who) (kept : Kept) (recipe : Recipe) : Prog (shell Command) ε Bool :=
  (sendAll who kept.cleanup).bind fun sent =>
    (match kept.display, kept.baseline with
      | some display, some baseline => checked who display fun text => text = baseline
      | _, _ => .ret true).bind fun shown =>
        (if recipe = Recipe.flow ∧ Command.debugDisable ∈ kept.cleanup then checked who .debugInfo debugDisabled
          else .ret true).bind fun quiet => .ret (sent && shown && quiet)

end

/-! ## the run -/

structure Identity where
  platform : Text
  version : Text
  build : Text
  deriving DecidableEq

inductive Mode where
  | disable | multiple
  deriving DecidableEq

/-- a tuple of addresses, ports and a protocol -/
structure Tuple where
  sourceAddress : Text
  sourcePort : Nat
  destinationPort : Nat
  protocol : Nat

structure Input where
  recipe : Recipe
  address : Text
  interface : Text
  count : Nat
  vdom : Option Text
  tuple : Option Tuple
  /-- a second session may be opened -/
  reconnect : Bool

/-- what the program makes of answers, as far as it is not modelled here -/
structure Reader where
  /-- `status_identity`: the identity, the current VDOM and the mode -/
  statusIdentity : Text → Except Exn (Identity × Text × Mode)
  /-- the VDOM that owns the interface, if the answer says so -/
  owner : Text → Text → Option Text
  isDigits : Text → Bool
  /-- `log_read` -/
  logRead : Text → Text → Bool → Except Exn Text

def identityOf (platform version build : String) : Identity := ⟨platform.toList, version.toList, build.toList⟩

def identities : List Identity :=
  [identityOf "FortiGate-VM64" "8.0.2" "0251", identityOf "FortiGate-VM64-KVM" "7.6.7" "3704",
    identityOf "FortiGate-VM64-KVM" "8.0.0" "0167", identityOf "FortiGate-80F" "8.0.2" "0251"]

/-- `TUPLE_IDENTITIES`, and `TIMESTAMP_IDENTITIES` -/
def tupleIdentities : List Identity :=
  [identityOf "FortiGate-VM64" "8.0.2" "0251", identityOf "FortiGate-60F" "7.6.8" "3744",
    identityOf "FortiGate-80F" "8.0.2" "0251"]

def rangeTupleIdentities : List Identity := [identityOf "FortiGate-60F" "7.6.8" "3744"]

def natText (n : Nat) : Text := (toString n).toList

/-- the selector of the sniffer -/
def sniffSelector (i : Input) : Text :=
  match i.tuple with
  | none => "host ".toList ++ i.address ++ " and icmp".toList
  | some t =>
    (if t.protocol = 6 then "tcp".toList else "udp".toList) ++ " and ((src host ".toList ++ t.sourceAddress ++
      " and src port ".toList ++ natText t.sourcePort ++ " and dst host ".toList ++ i.address ++
      " and dst port ".toList ++ natText t.destinationPort ++ ") or (src host ".toList ++ i.address ++
      " and src port ".toList ++ natText t.destinationPort ++ " and dst host ".toList ++ t.sourceAddress ++
      " and dst port ".toList ++ natText t.sourcePort ++ "))".toList

/-- the selectors of the filters -/
def selectors (i : Input) (identity : Identity) : List Text :=
  let sessions : Bool := i.recipe = .sessions
  match i.tuple with
  | none => [(if sessions then "dst ".toList else "addr ".toList) ++ i.address, "proto 1".toList]
  | some t =>
    [(if sessions then "src" else "saddr", t.sourceAddress), (if sessions then "dst" else "daddr", i.address),
      ("sport", natText t.sourcePort), ("dport", natText t.destinationPort), ("proto", natText t.protocol)].map
        fun (x : String × Text) =>
          x.1.toList ++ [' '] ++ x.2 ++
            if rangeTupleIdentities.contains identity ∧ (sessions = true ∨ x.1 ≠ "proto") then [' '] ++ x.2 else []

/-- a step inside of `try`: its exception carries what is kept -/
abbrev Step (α : Type) : Type := Prog (shell Command) (Exn × Kept) α

def sendKept (kept : Kept) (c : Command) : Step Text := sendWith (fun e => (e, kept)) .original .body c

/-- the loop over the options -/
def setOptions (recipe : Recipe) (current : List (Text × Text)) : List Setting → Kept → Step Kept
  | [], kept => .ret kept
  | s :: rest, kept =>
    match previousOf current s with
    | none => .raise (.value, kept)
    | some previous =>
      let grown := { kept with cleanup := .setOption recipe s.option.toList previous :: kept.cleanup }
      Prog.bind (tried .original .body (.setOption recipe s.option.toList s.value)) fun r =>
        match r with
        | .ok _ => setOptions recipe current rest grown
        | .error e =>
          if refusable s.option ∧ e = .refused (refusal s.option) then .raise (.optionRefused, kept)
          else .raise (e, grown)

/-- the loop over the filters -/
def setFilters (recipe : Recipe) (kept : Kept) : List Text → Step Unit
  | [] => .ret ()
  | s :: rest => (sendKept kept (.setFilter recipe s)).bind fun _ => setFilters recipe kept rest

/-- the recipes that set options -/
def optionBody (i : Input) : Step (Option Command × Kept) :=
  let display : Command := .viewSettings i.recipe
  (sendKept { display := display } display).bind fun baseline =>
    let kept : Kept := { display := display, baseline := baseline }
    match currentOf baseline with
    | none => .raise (.value, kept)
    | some current =>
      (setOptions i.recipe current (settings i.recipe i.interface i.count) kept).bind fun kept =>
        .ret (some (.execute i.recipe i.address), kept)

/-- the recipes that set filters -/
def filterBody (i : Input) (identity : Identity) : Step (Option Command × Kept) :=
  (if i.recipe = .flow then
    (sendKept {} .debugInfo).bind fun debug =>
      if !debugDisabled debug then .raise (.value, {})
      else if !tupleIdentities.contains identity && hasLine "console timestamp:" "enable" debug then
        .raise (.optionRefused, {})
      else .ret ()
  else .ret ()).bind fun _ =>
    let display : Command := .showFilter i.recipe
    (sendKept { display := display } display).bind fun baseline =>
      let kept : Kept := { display := display, baseline := baseline }
      if !emptyFilter baseline i.recipe then .raise (.value, kept)
      else
        let kept := { kept with cleanup := [.clearFilter i.recipe] }
        (setFilters i.recipe kept (selectors i identity)).bind fun _ =>
          if i.recipe = .sessions then .ret (some .sessionList, kept)
          else
            let kept := { kept with cleanup := .debugDisable :: .traceStop :: kept.cleanup }
            (sendKept kept (.traceStart i.count)).bind fun _ =>
              (sendKept kept .debugEnable).bind fun _ => .ret (none, kept)

variable (reader : Reader)

/-- the steps of a recipe up to the command that is bounded -/
def prepare (i : Input) (identity : Identity) : Step (Option Command × Kept) :=
  match i.recipe with
  | .ping | .traceroute => optionBody i
  | .sniffer => .ret (some (.sniff i.interface (sniffSelector i) i.count), {})
  | .logs =>
    let display : Command := .logFilterDump
    (sendKept { display := display } display).bind fun baseline =>
      let kept : Kept := { display := display, baseline := baseline }
      if !logFilter reader.isDigits baseline then .raise (.value, kept) else .ret (some .logDisplay, kept)
  | .sessions | .flow => filterBody i identity

structure Output where
  text : Text
  timedOut : Bool
  identity : Identity
  domain : Text

/-- the steps inside of `try` -/
def body (i : Input) (identity : Identity) (domain : Text) : Step (Output × Kept) :=
  (prepare reader i identity).bind fun (command, kept) =>
    (boundedWith (fun e => (e, kept)) command).bind fun (output, timedOut) =>
      if i.recipe = .logs then
        match reader.logRead output (kept.baseline.getD []) timedOut with
        | .ok text => .ret (⟨text, timedOut, identity, domain⟩, kept)
        | .error e => .raise (e, kept)
      else .ret (⟨output, timedOut, identity, domain⟩, kept)

/-- `finally`; the second session is on the same device, in the same VDOM and mode, and restores everything -/
def finish (i : Input) (kept : Kept) (found : Identity × Text × Mode) : Prog (shell Command) Exn Unit :=
  (orReconnect (restore .original kept i.recipe)
    (i.reconnect && (decide (kept.cleanup ≠ []) || decide (i.recipe = .logs)))
    (onSame reader.statusIdentity .systemStatus found (restore .repair kept i.recipe))).bind fun restored =>
      if restored = true then .ret () else .raise .restoreUnverified

/-- `try: … finally: …` -/
def guarded (i : Input) (found : Identity × Text × Mode) : Prog (shell Command) Exn Output :=
  (body reader i found.1 found.2.1).outcome.bind fun r =>
    match r with
    | .ok (output, kept) => (finish reader i kept found).bind fun _ => .ret output
    | .error (e, kept) => (finish reader i kept found).bind fun _ => .raise e

/-- the checks before the first change -/
def admission (i : Input) (found : Identity × Text × Mode) : Option Exn :=
  if i.tuple.isNone ∧ !identities.contains found.1 then some .value
  else if i.tuple.isSome ∧ !tupleIdentities.contains found.1 then some .value
  else if i.vdom.isNone ∧ found.2.2 ≠ .disable then some .unsupportedPlatform
  else if i.vdom.isSome ∧ i.vdom ≠ some found.2.1 then some .unsupportedPlatform
  else none

/-- `run` -/
def run (i : Input) : Prog (shell Command) Exn Output :=
  (send .original .before .systemStatus).bind fun status =>
    match reader.statusIdentity status with
    | .error e => .raise e
    | .ok found =>
      match admission i found with
      | some e => .raise e
      | none =>
        (tried .original .before (.showInterface i.interface)).bind fun shown =>
          match shown with
          | .error _ => .raise .value
          | .ok text =>
            match reader.owner text i.interface with
            | none => .raise .value
            | some owner =>
              if owner ≠ found.2.1 then .raise .scopeRefused
              else
                (send .original .before (.interfaceList i.interface)).bind fun info =>
                  if !interfaceShown i.interface info then .raise .value else guarded reader i found

end Fortios

end Netops.Diagnostics

import Netops.Diagnostics.Shell
import Netops.Engine.Profile
import Netops.Lib.Dict
import Netops.Lib.Lines
import Netops.Lib.Patterns

/-!
# Diagnostics on FortiADC (`fortiadc_diagnostics.py`)

A filter is set, a listing is read, and the filter is cleared again.  No exception of the steps inside of `try`
gets out; the result says whether the filter is as it was.

* `Command`                          what is sent;
* `isRefusal`, `eventRows`, …        reading answers;
* `restore`, `run`                   the listings of the log;
* `restoreState`, `runStateList`     the listings of sessions;
* `run_plays`, `runStateList_plays`  what the results say about the filter.
-/

namespace Netops.Diagnostics

open Effect Regex Patterns
open Netops.Engine (Letters)
open Netops.Fortios (Text isSpace strip)

namespace Fortiadc

/-! ## commands -/

inductive Recipe where
  | systemEventLogs | wafAttackLogs
  deriving DecidableEq

/-- `RECIPES` -/
def Recipe.filter : Recipe → String × String
  | .systemEventLogs => ("event", "system")
  | .wafAttackLogs => ("attack", "waf")

inductive StateRecipe where
  | sessionList | persistenceList
  deriving DecidableEq

/-- `STATE_RECIPES` -/
def StateRecipe.family : StateRecipe → String
  | .sessionList => "session"
  | .persistenceList => "persistence"

inductive Command where
  | getStatus
  | show_
  | display
  | clear
  | filterType (recipe : Recipe)
  | filterSubtype (recipe : Recipe)
  | stateShow (recipe : StateRecipe)
  | stateSelect (recipe : StateRecipe) (virtualServer : Text)
  | stateClear (recipe : StateRecipe)
  | stateListing (recipe : StateRecipe)
  deriving DecidableEq

def StateRecipe.stem (recipe : StateRecipe) : Text :=
  ("diagnose server-load-balance " ++ recipe.family).toList

/-- the text that is sent -/
def Command.text : Command → Text
  | .getStatus => "get system status".toList
  | .show_ => "execute log filter show".toList
  | .display => "execute log display 0".toList
  | .clear => "execute log filter clear".toList
  | .filterType recipe => ("execute log filter type " ++ recipe.filter.1).toList
  | .filterSubtype recipe => ("execute log filter subtype " ++ recipe.filter.2).toList
  | .stateShow recipe => recipe.stem ++ " filter show".toList
  | .stateSelect recipe virtualServer => recipe.stem ++ " filter 'vs-name ".toList ++ virtualServer ++ ['\'']
  | .stateClear recipe => recipe.stem ++ " filter clear".toList
  | .stateListing recipe => recipe.stem ++ " list".toList

/-! ## reading answers -/

/-- what the program makes of answers, as far as it is not modelled here -/
structure Reader (I : Type) where
  letters : Letters
  /-- `\d` -/
  decimal : Char → Bool
  /-- `verify_identity` -/
  verifyIdentity : Text → Except Exn I

/-- `text.replace("\r\n", "\n").replace("\r", "\n")` -/
def newlines (text : Text) : Text := replaceAll ['\r'] ['\n'] (replaceAll ['\r', '\n'] ['\n'] text)

/-- `_clean` -/
def clean (text : Text) : Text := strip (newlines text)

def displayRefusal : Text := "Please set filter type and subtype firstly".toList

section
variable {I : Type} (reader : Reader I)

/-- `CLI_REFUSAL` -/
def cliRefusal : Regex Char :=
  wholeLine (sequence [blanks, oneOf [
    sequence [anyCase "Command fail. Return code is ", maybe (oneIn "+-"), plus (.char reader.decimal), lit " (",
      plus (noneIn "()\r\n"), lit ")"],
    sequence [anyCase "command parse error", .star (noneIn "\r\n")],
    sequence [anyCase "unknown action", .star (noneIn "\r\n")],
    sequence [anyCase "permission denied", .star (noneIn "\r\n")]]])

/-- `_is_refusal` -/
def isRefusal (text : Text) : Bool :=
  reader.letters.casefold (clean text) = reader.letters.casefold displayRefusal ||
    occursIn (cliRefusal reader) (clean text)

/-- `RECORD_START` -/
def recordStart : Regex Char :=
  let digits (n : Nat) : Regex Char := times (.char reader.decimal) n
  sequence [lit "date=", digits 4, lit "-", digits 2, lit "-", digits 2, lit " time=", digits 2, lit ":", digits 2,
    lit ":", digits 2, .alt (lit " ") atEnd]

def footers : List Text :=
  ["begin to search logs".toList,
    ("display 20 lines log messages one time at most,you can tune the starline if you want to see more " ++
      "logs").toList]

/-- `_event_rows` -/
def eventRows (text : Text) : List Text × Bool :=
  let rows := (Lines.splitlines (newlines text)).filter fun row =>
    !(strip row).isEmpty && !footers.contains (reader.letters.casefold (strip row))
  (rows.filter (matchesStart (recordStart reader)), rows.any fun row => !matchesStart (recordStart reader) row)

/-- `_filter_values`; `none` where it raises -/
def filterValues (text : Text) : Option (List (Text × Text)) :=
  ((Lines.splitlines (clean text)).filter fun row => !(strip row).isEmpty).foldlM
    (fun values row =>
      let key := strip (row.takeWhile (· ≠ ':'))
      if ':' ∉ row ∨ key ∈ Dict.keys values then none
      else some (Dict.set key (strip ((row.dropWhile (· ≠ ':')).drop 1)) values)) []

/-- `STATE_FIELDS` -/
def StateRecipe.fields (recipe : StateRecipe) : List String :=
  ["source ip range", "source port range", "dest ip range", "dest port range", "virtual server"] ++
    match recipe with
    | .sessionList =>
      ["type", "protocol", "trans source ip range", "trans source port range", "trans dest ip range",
        "trans dest port range", "real server"]
    | .persistenceList => []

/-- `_state_filter` -/
def stateFilter (recipe : StateRecipe) (flag : String) (virtualServer : Text) : List (Text × Text) :=
  Dict.set "virtual server".toList virtualServer (Dict.set "filter flag".toList flag.toList
    (recipe.fields.map fun key => (key.toList, "any".toList)))

/-- two dictionaries are equal -/
def sameValues (d e : List (Text × Text)) : Bool :=
  (Dict.keys d).all (fun k => Dict.get k d = Dict.get k e) && (Dict.keys e).all fun k => Dict.get k e = Dict.get k d

/-- `LIST_HEADERS` -/
def StateRecipe.header : StateRecipe → Text
  | .sessionList =>
    ("client-ip/port virtual-server-ip/port local-ip/port real-server-ip/port protocol service state " ++
      "in-bytes out-bytes expire virtual-server-name real-server-name").toList
  | .persistenceList =>
    ("client-ip/port virtual-server-ip/port local-ip/port real-server-ip/port protocol service expire " ++
      "virtual-server-name real-server-name").toList

/-- `VIRTUAL_SERVER.fullmatch` -/
def isVirtualServer : Text → Bool
  | [] => false
  | c :: cs => isAlnum c && cs.length ≤ 62 && cs.all fun d => isAlnum d || d = '_' || d = '.' || d = '-'

/-! ## restoring -/

/-- the session is asked whether it is ready; without, all has failed -/
def whenReady (who : Who) (m : Prog (shell Command) Exn Bool) : Prog (shell Command) Exn Bool :=
  .op (.ready who) fun ready => cond ready m (.ret false)

/-- what was answered satisfies this -/
def holds (good : Text → Bool) : Except Exn Text → Bool
  | .ok text => good text
  | .error _ => false

/-- `_restore` -/
def restore (baselineShow baselineDisplay : Text) (who : Who) : Prog (shell Command) Exn Bool :=
  whenReady who ((tried who .restore .clear).bind fun cleared =>
    whenReady who ((tried who .restore .show_).bind fun shown =>
      whenReady who ((tried who .restore .display).bind fun displayed =>
        .ret (holds (fun text => !isRefusal reader text) cleared &&
          holds (fun text => clean text = baselineShow) shown &&
          holds (fun text => isRefusal reader (clean text) && clean text = baselineDisplay) displayed))))

/-- `_restore_state` -/
def restoreState (recipe : StateRecipe) (baselineShow : Text) (who : Who) : Prog (shell Command) Exn Bool :=
  whenReady who ((tried who .restore (.stateClear recipe)).bind fun cleared =>
    if holds (fun text => !isRefusal reader text) cleared = true then
      whenReady who ((tried who .restore (.stateShow recipe)).bind fun shown =>
        .ret (holds (fun text => clean text = baselineShow) shown))
    else .ret false)

variable [DecidableEq I]

/-- `finally`: whether the filter is as it was -/
def finish (reconnects : Bool) (identity : I) (restore : Who → Prog (shell Command) Exn Bool) :
    Prog (shell Command) Exn Bool :=
  orReconnect (restore .original) reconnects
    (onSame reader.verifyIdentity .getStatus identity (restore .repair))

end

/-! ## the listings of the log -/

inductive State where
  | incomplete | deviceRefused | data
  deriving DecidableEq

/-- what the steps inside of `try` have found -/
structure Found where
  state : State := .incomplete
  fullText : Text := []
  selectedText : Text := []
  rows : List Text := []
  unknown : Bool := false
  timedOut : Bool := false

inductive Cleanup where
  | verified | unverified
  deriving DecidableEq

structure Result (I : Type) where
  state : State
  ok : Bool
  output : Text
  rawOutput : Text
  identity : I
  timedOut : Bool
  cleanup : Cleanup
  loadedRecords : Nat
  returnedRecords : Nat
  countTruncated : Bool
  unrecognizedBody : Bool

structure LogResult (I : Type) extends Result I where
  lineCount : Nat

structure StateResult (I : Type) extends Result I where
  virtualServer : Text
  headerOnly : Bool

/-- `"\n".join` -/
def joinLines (lines : List Text) : Text := ['\n'].intercalate lines

section
variable {I : Type} (reader : Reader I)

/-- the listing -/
def foundRows (count : Nat) (text : Text) (timedOut : Bool) : Found :=
  let text := newlines text
  if isRefusal reader text then { state := .deviceRefused, fullText := text, timedOut := timedOut }
  else
    let (rows, unknown) := eventRows reader text
    if timedOut || unknown || rows.isEmpty || 20 < rows.length then
      { state := .incomplete, fullText := text, rows := rows, unknown := unknown, timedOut := timedOut }
    else
      { state := .data, fullText := text, selectedText := joinLines (rows.take count), rows := rows,
        unknown := unknown, timedOut := timedOut }

/-- a command of `try`: an exception leaves nothing, and a refusal leaves its text -/
def attempt (c : Command) (f : Text → Prog (shell Command) Exn Found) : Prog (shell Command) Exn Found :=
  (tried .original .body c).bind fun r =>
    match r with
    | .error _ => .ret {}
    | .ok text => f text

/-- a listing under a timer: an exception leaves nothing -/
def listed (c : Command) (f : Text → Bool → Found) : Prog (shell Command) Exn Found :=
  .op (.bounded (some c)) fun r =>
    .ret (match (r : Except Exn (Text × Bool)) with
      | .error _ => {}
      | .ok (text, timedOut) => f text timedOut)

/-- the steps inside of `try` -/
def body (recipe : Recipe) (count : Nat) : Prog (shell Command) Exn Found :=
  attempt (.filterType recipe) fun text =>
    if isRefusal reader text then .ret { state := .deviceRefused, fullText := text }
    else attempt (.filterSubtype recipe) fun text =>
      if isRefusal reader text then .ret { state := .deviceRefused, fullText := text }
      else listed .display (foundRows reader count)

/-- the result -/
def result (identity : I) (count : Nat) (found : Found) (verified : Bool) : Result I :=
  let state := if verified = true then found.state else .incomplete
  let output := if state = .data then found.selectedText else found.fullText
  { state := state
    ok := decide (state = .data) && verified && !found.timedOut
    output := output
    rawOutput := found.fullText
    identity := identity
    timedOut := found.timedOut
    cleanup := if verified = true then .verified else .unverified
    loadedRecords := found.rows.length
    returnedRecords := if state = .data then min found.rows.length count else 0
    countTruncated := decide (state = .data) && decide (count < found.rows.length)
    unrecognizedBody := found.unknown }

def logResult (identity : I) (count : Nat) (found : Found) (verified : Bool) : LogResult I :=
  let result := result identity count found verified
  { result with lineCount := (Lines.splitlines result.output).length }

def stateResult (virtualServer : Text) (identity : I) (count : Nat) (found : Found) (verified : Bool) :
    StateResult I :=
  let result := result identity count found verified
  { result with
    virtualServer := virtualServer
    headerOnly := decide (result.state = .data) && found.rows.isEmpty }

variable [DecidableEq I]

/-- `run` -/
def run (recipe : Recipe) (count : Nat) (reconnects : Bool) : Prog (shell Command) Exn (LogResult I) :=
  (send .original .before .getStatus).bind fun status =>
    match reader.verifyIdentity status with
    | .error e => .raise e
    | .ok identity =>
      (send .original .before .show_).bind fun shown =>
        if clean shown ≠ [] then .raise .value
        else (send .original .before .display).bind fun displayed =>
          if reader.letters.casefold (clean displayed) ≠ reader.letters.casefold displayRefusal then .raise .value
          else (body reader recipe count).bind fun found =>
            (finish reader reconnects identity (restore reader (clean shown) (clean displayed))).bind fun verified =>
              .ret (logResult identity count found verified)

/-! ## the listings of sessions -/

/-- the listing -/
def foundLines (recipe : StateRecipe) (count : Nat) (text : Text) (timedOut : Bool) : Found :=
  let text := newlines text
  if isRefusal reader text then { state := .deviceRefused, fullText := text, timedOut := timedOut }
  else
    let lines := (Lines.splitlines text).filter fun row => !(strip row).isEmpty
    let unknown : Bool := lines.head?.map strip ≠ some recipe.header
    if !timedOut && !unknown && !decide ("--More--".toList <:+: text) then
      { state := .data, fullText := text, selectedText := joinLines (lines.take 1 ++ (lines.drop 1).take count),
        rows := lines.drop 1, unknown := unknown, timedOut := timedOut }
    else { state := .incomplete, fullText := text, unknown := unknown, timedOut := timedOut }

/-- the steps inside of `try` -/
def stateBody (recipe : StateRecipe) (virtualServer : Text) (count : Nat) : Prog (shell Command) Exn Found :=
  attempt (.stateSelect recipe virtualServer) fun text =>
    if isRefusal reader text then .ret { state := .deviceRefused, fullText := text }
    else attempt (.stateShow recipe) fun shown =>
      if (filterValues shown).any (sameValues · (stateFilter recipe "1000" virtualServer)) then
        listed (.stateListing recipe) (foundLines reader recipe count)
      else .ret {}

/-- `run_state_list` -/
def runStateList (recipe : StateRecipe) (virtualServer : Text) (count : Nat) (reconnects : Bool) :
    Prog (shell Command) Exn (StateResult I) :=
  if !isVirtualServer virtualServer then .raise .value
  else
    (send .original .before .getStatus).bind fun status =>
      match reader.verifyIdentity status with
      | .error e => .raise e
      | .ok identity =>
        (send .original .before (.stateShow recipe)).bind fun shown =>
          if (filterValues (clean shown)).any (sameValues · (stateFilter recipe "0" "any".toList)) then
            (stateBody reader recipe virtualServer count).bind fun found =>
              (finish reader reconnects identity (restoreState reader recipe (clean shown))).bind fun verified =>
                .ret (stateResult virtualServer identity count found verified)
          else .raise .value

end

end Fortiadc

end Netops.Diagnostics

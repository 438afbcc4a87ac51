import Mathlib.Data.Bool.AllAny
import Netops.Fortios.Parse
import Netops.Lib.Lines
import Netops.Lib.Utf8

/-!
# The metadata of a remote path (`sftp.py`)

`stat` gives a batch of commands to the client, and reads what the client has printed.  Where the path has to
stay inside of some roots, the batch first changes to each of them and to the path, and prints where it is.

* `checkedRemotePath`, `checkedRoots`   the checks before;
* `segments`, `resolvedInside`          what was printed on each command, and where the path leads;
* `stat`                                the entry, from the result of a run;
* `Server`, `Client`                    what a server resolves, and what the client prints.
-/

namespace Netops.Sftp

open Netops.Fortios (Text isSpace strip)

abbrev Bytes := List UInt8

inductive Refusal where
  | badPath
  | outsideRoots
  | failed
  | tooLarge
  | unknownBatch
  | notResolved
  | resolvedOutside
  | notListed
  | unknownListing
  deriving DecidableEq

/-! ## paths -/

def pathMaxChars : Nat := 2000

/-- `FORBIDDEN_PATH_MARKS` -/
def forbidden (c : Char) : Bool := c = '"' || c = '\\' || c = '\n' || c = '\r' || c = '\x00'

/-- `_checked_remote_path` -/
def checkedRemotePath (path : Text) : Bool :=
  !path.all isSpace && path.head? = some '/' && path.length ≤ pathMaxChars && !path.any forbidden &&
    path = strip path && !(path.splitOn '/').contains ['.', '.']

/-- `root.rstrip("/")` -/
def rstripSlash (t : Text) : Text := (t.reverse.dropWhile (· = '/')).reverse

/-- `_under` -/
def under (path root : Text) : Bool := path = root || decide (rstripSlash root ++ ['/'] <+: path)

/-- `_checked_roots` -/
def checkedRoots (roots : List Text) (path : Text) : Except Refusal (List Text) :=
  if !roots.all checkedRemotePath then .error .badPath
  else
    let matching := roots.filter (under path)
    if matching = [] then .error .outsideRoots
    else if path ∈ matching then .ok []
    else .ok matching

/-! ## commands -/

inductive Command where
  | cd (path : Text)
  | pwd
  | ls (path : Text)

def Command.line : Command → Text
  | .cd path => "cd \"".toList ++ path ++ ['"']
  | .pwd => "pwd".toList
  | .ls path => "ls -ln \"".toList ++ path ++ ['"']

/-- `_resolution_batch` -/
def resolutionBatch (roots : List Text) (path : Text) : List Command :=
  (roots ++ [path]).flatMap fun p => [.cd p, .pwd]

/-- the batch -/
def batch (confined : List Text) (path : Text) : List Command :=
  (if confined = [] then [] else resolutionBatch confined path) ++ [.ls path]

/-! ## what was printed -/

def echoMark : Text := "sftp> ".toList
def pwdMark : Text := "Remote working directory: ".toList
def notDirectoryHead : Text := "Can't change directory: \"".toList
def notDirectoryTail : Text := "\" is not a directory".toList

def isEcho (line : Text) : Bool := decide (echoMark <+: line)
def isBlankLine (line : Text) : Bool := line.all isSpace

/-- `data.decode("utf-8", "replace").splitlines()` -/
def linesOf (data : Bytes) : List Text := Lines.splitlines (Utf8.decodeReplace none data)

/-- the loop of `_segments` -/
def segmentsFrom : List (List Text) → List Text → List (List Text)
  | segs, [] => segs
  | segs, line :: rest =>
    if isEcho line then segmentsFrom (segs ++ [[]]) rest
    else if isBlankLine line ∨ segs = [] then segmentsFrom segs rest
    else segmentsFrom (segs.dropLast ++ [segs.getLast?.getD [] ++ [line]]) rest

/-- `_segments` -/
def segments (data : Bytes) : List (List Text) := segmentsFrom [] (linesOf data)

/-- `_not_directory` -/
def notDirectory (line : Text) : Option Text :=
  if notDirectoryHead <+: line ∧ notDirectoryTail <:+ line then
    let name := (line.take (line.length - notDirectoryTail.length)).drop notDirectoryHead.length
    if name = [] then none else some name
  else none

/-- the answer to `pwd` -/
def place (answer : List Text) : Option Text :=
  match answer with
  | [line] => if pwdMark <+: line then some (line.drop pwdMark.length) else none
  | _ => none

/-- the answers to `cd` and `pwd`, one after the other -/
def places : List (List Text) → Option (List Text)
  | [] => some []
  | [_] => none
  | cd :: pwd :: rest =>
    if cd ≠ [] then none
    else
      match place pwd, places rest with
      | some p, some ps => some (p :: ps)
      | _, _ => none

/-- `_resolved_inside` -/
def resolvedInside (roots : List Text) (data : Bytes) (reported : List Text) : Except Refusal (List Text) :=
  let segs := segments data
  if segs.length ≠ 2 * (roots.length + 1) + 1 then .error .unknownBatch
  else
    match places segs.dropLast with
    | none => .error .unknownBatch
    | some ps =>
      let files := reported.map notDirectory
      if files.any Option.isNone || 1 < files.length then .error .notResolved
      else
        let target := (files.head?.bind id).getD (ps.getLast?.getD [])
        if ps.dropLast.any (under target) then .ok (segs.getLast?.getD []) else .error .resolvedOutside

/-! ## the entry -/

inductive Kind where
  | file | directory | symlink | other
  deriving DecidableEq

structure Entry where
  kind : Kind
  mode : Option Nat := none
  size : Option Nat := none
  modifiedLs : Option Text := none
  name : Option Text := none
  entryCount : Option Nat := none
  deriving DecidableEq

/-- `text.split(None, n)` -/
def splitWords : Nat → Text → List Text
  | 0, t => if t.all isSpace then [] else [t.dropWhile isSpace]
  | n+1, t =>
    if t.all isSpace then []
    else
      let rest := t.dropWhile isSpace
      rest.takeWhile (!isSpace ·) :: splitWords n (rest.dropWhile (!isSpace ·))

/-- `MODE_LETTERS` and `MODE_SPECIAL`: the letter of a place, its bit, and the letters in its stead -/
def modeLetters : List (Char × Nat × List (Char × Nat)) :=
  [('r', 0o400, []), ('w', 0o200, []), ('x', 0o100, [('s', 0o4100), ('S', 0o4000)]),
    ('r', 0o040, []), ('w', 0o020, []), ('x', 0o010, [('s', 0o2010), ('S', 0o2000)]),
    ('r', 0o004, []), ('w', 0o002, []), ('x', 0o001, [('t', 0o1001), ('T', 0o1000)])]

/-- the bits of one letter -/
def letterBits (c : Char) (x : Char × Nat × List (Char × Nat)) : Option Nat :=
  if c = x.1 then some x.2.1 else if c = '-' then some 0 else x.2.2.lookup c

/-- `_mode_bits` -/
def modeBits (text : Text) : Option Nat :=
  if text.length ≠ 10 then none
  else ((text.tail.zip modeLetters).mapM fun x => letterBits x.1 x.2).map fun bits => bits.foldl (· ||| ·) 0

def kindOf (c : Option Char) : Kind :=
  match c with
  | some '-' => .file
  | some 'd' => .directory
  | some 'l' => .symlink
  | _ => .other

def decimal (t : Text) : Nat := t.foldl (fun n c => n * 10 + (c.toNat - 48)) 0

/-- `_listed` -/
def listed (line : Text) : Option Entry :=
  match splitWords 5 line with
  | [permissions, _, _, _, size, tail] =>
    match modeBits permissions, splitWords 3 tail with
    | some mode, [a, b, c, name] =>
      if size.all (fun c => '0' ≤ c && c ≤ '9') ∧ size ≠ [] ∧ size.length ≤ 20 then
        some ⟨kindOf permissions.head?, some mode, some (decimal size), some (a ++ [' '] ++ b ++ [' '] ++ c), some name,
          none⟩
      else none
    | _, _ => none
  | _ => none

def listingMaxBytes : Nat := 262144

/-- `_listing` -/
def listing (data : Bytes) : Except Refusal (List Text) :=
  if listingMaxBytes < data.length then .error .tooLarge
  else .ok ((linesOf data).filter fun l => !isEcho l && !isBlankLine l)

/-- `PROGRESS_LINE` for a host, without the brackets of an address -/
def progressLine (name : Text) : Text :=
  let shown := if name.head? = some '[' ∧ name.getLast? = some ']' then name.tail.dropLast else name
  "Connected to ".toList ++ shown ++ ['.']

/-- what stands behind the last line of this kind; everything, if there is none -/
def afterLast (line : Text) (lines : List Text) : List Text := (lines.reverse.takeWhile (· ≠ line)).reverse

/-- `_reported` -/
def reported (name : Text) (stderr : Bytes) : List Text :=
  afterLast (progressLine name) (((linesOf stderr).filter fun l => !isBlankLine l).map strip)

structure Result where
  code : Int
  stdout : Bytes
  stderr : Bytes

/-- what `stat` makes of the lines of the listing -/
def entryOf (path : Text) (lines reported : List Text) : Except Refusal Entry :=
  match lines with
  | [] => if reported ≠ [] then .error .notListed else .ok { kind := .directory, entryCount := some 0 }
  | [line] =>
    match listed line with
    | none => .error .unknownListing
    | some e => .ok (if e.name = some path then e else { kind := .directory, entryCount := some 1 })
  | lines => .ok { kind := .directory, entryCount := some lines.length }

/-- `stat` for given roots; `run` is what the client makes of the batch -/
def stat (name path : Text) (roots : List Text) (run : List Command → Result) : Except Refusal Entry :=
  if !checkedRemotePath path then .error .badPath
  else
    match checkedRoots roots path with
    | .error e => .error e
    | .ok confined =>
      let result := run (batch confined path)
      if result.code ≠ 0 then .error .failed
      else
        match listing result.stdout with
        | .error e => .error e
        | .ok lines =>
          let said := reported name result.stderr
          if confined = [] then entryOf path lines said
          else
            match resolvedInside confined result.stdout said with
            | .error e => .error e
            | .ok lines => entryOf path lines (said.filter fun l => (notDirectory l).isNone)

/-! ## the client -/

/-- what a path leads to, and the name that the server gives to it -/
inductive Found where
  | directory (name : Bytes)
  | file (name : Bytes)
  deriving DecidableEq

def Found.name : Found → Bytes
  | .directory name => name
  | .file name => name

/-- a server: what it resolves, where a session starts, and what it lists.  The names have no newline. -/
structure Server where
  resolve : Text → Option Found
  home : Bytes
  list : Text → Bytes
  plain : ∀ path found, resolve path = some found → 0 ∉ found.name ∧ 10 ∉ found.name

namespace Server

variable (server : Server)

/-- what the client prints of a command behind its echo, what it reports, and where it is then -/
def perform (cwd : Bytes) : Command → Bytes × Bytes × Bytes
  | .cd path =>
    match server.resolve path with
    | some (.directory name) => ([], [], name)
    | some (.file name) => ([], Utf8.encode notDirectoryHead ++ name ++ Utf8.encode (notDirectoryTail ++ ['\n']), cwd)
    | none => ([], Utf8.encode "Couldn't canonicalize: No such file\n".toList, cwd)
  | .pwd => (Utf8.encode pwdMark ++ cwd ++ Utf8.encode ['\n'], [], cwd)
  | .ls path =>
    match server.resolve path with
    | some _ => (server.list path, [], cwd)
    | none => ([], Utf8.encode ("Can't ls: \"".toList ++ path ++ "\" not found\n".toList), cwd)

/-- the echo of a command -/
def echo (c : Command) : Bytes := Utf8.encode (echoMark ++ c.line ++ ['\n'])

/-- the commands one after the other: what is printed, and what is reported -/
def session (cwd : Bytes) : List Command → Bytes × Bytes
  | [] => ([], [])
  | c :: cs =>
    let done := server.perform cwd c
    let rest := session done.2.2 cs
    (echo c ++ done.1 ++ rest.1, done.2.1 ++ rest.2)

/-- a session of the client; it reports the `banner` of the server, and that it is connected -/
def client (name banner : Text) (commands : List Command) : Result :=
  let done := server.session server.home commands
  ⟨0, done.1, Utf8.encode (banner ++ '\n' :: (progressLine name ++ ['\n'])) ++ done.2⟩

end Server

end Netops.Sftp

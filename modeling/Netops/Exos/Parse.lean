import Netops.Fortios.Parse

/-!
# The ExtremeXOS configuration parser (`l1_exos.py`)

One command a line, under the header of its module.  The lines between `create upm profile` and a line
with a dot are the script of that profile; they are commands too, and marked with its name.
-/

namespace Netops.Exos
open Netops.Fortios

structure CommandLine where
  line : Nat
  module : Text
  tokens : List Text
  text : Text
  upmProfile : Text
  deriving DecidableEq

def CommandLine.startsWith (c : CommandLine) (words : List String) : Bool :=
  c.tokens.take words.length = words.map String.toList

structure Configuration where
  commands : List CommandLine
  modules : List Text
  unterminatedUpm : Bool

/-- the commands outside of scripts -/
def Configuration.active (c : Configuration) : List CommandLine :=
  c.commands.filter fun x => x.upmProfile = []

/-- the words of the rest of a line; `none` where a quoted value stays open -/
def tokenizeFrom (current : Text) (inQuotes quoted : Bool) : Text → Option (List Text)
  | [] => if inQuotes then none else some (if current ≠ [] ∨ quoted then [current] else [])
  | char :: rest =>
    if char = '"' then tokenizeFrom current (!inQuotes) true rest
    else if isBlank char ∧ !inQuotes then
      if current ≠ [] ∨ quoted then (tokenizeFrom [] inQuotes false rest).map (current :: ·)
      else tokenizeFrom current inQuotes quoted rest
    else tokenizeFrom (current ++ [char]) inQuotes quoted rest

def tokenize (text : Text) : Option (List Text) := tokenizeFrom [] false false text

def afterSpaces (t : Text) : Option Text :=
  if t.head?.any isSpace then some (t.dropWhile isSpace) else none

/-- the module that a line is the header of (`MODULE_HEADER`) -/
def moduleHeader (content : Text) : Option Text :=
  match content with
  | '#' :: rest =>
    let rest := rest.dropWhile isSpace
    if "Module".toList.isPrefixOf rest then do
      let rest ← afterSpaces (rest.drop 6)
      let name := rest.takeWhile fun c => !isSpace c
      let rest ← afterSpaces (rest.drop name.length)
      if name ≠ [] ∧ rest = "configuration.".toList then some name else none
    else none
  | _ => none

/-- the loop of `parse` -/
structure Reading where
  commands : List CommandLine
  modules : List Text
  module : Text
  profile : Text

def upmUnnamed : Text := "-".toList

/-- the profile whose script starts after a line -/
def scriptOf (tokens : List Text) : Text :=
  if tokens.take 3 = ["create".toList, "upm".toList, "profile".toList] then
    match tokens.drop 3 with
    | name :: _ => if name = [] then upmUnnamed else name
    | [] => upmUnnamed
  else []

/-- one line; `none` where a quoted value stays open -/
def readLine (r : Reading) (number : Nat) (raw : Text) : Option Reading :=
  let content := strip raw
  if content = [] then some r
  else if r.profile ≠ [] ∧ content = ['.'] then
    some { r with commands := r.commands ++ [⟨number, r.module, [['.']], content, r.profile⟩], profile := [] }
  else if content.head? = some '#' then
    match (if r.profile ≠ [] then none else moduleHeader content) with
    | none => some r
    | some name => some { r with
        module := name, modules := if name ∈ r.modules then r.modules else r.modules ++ [name] }
  else match tokenize content with
    | none => none
    | some [] => some r
    | some tokens => some { r with
        commands := r.commands ++ [⟨number, r.module, tokens, content, r.profile⟩]
        profile := if r.profile = [] then scriptOf tokens else r.profile }

def readLines : Reading → Nat → List Text → Option Reading
  | r, _, [] => some r
  | r, number, line :: rest =>
    match readLine r number line with
    | none => none
    | some r => readLines r (number + 1) rest

/-- `parse` -/
def parse (text : Text) : Option Configuration :=
  (readLines ⟨[], [], [], []⟩ 1 (splitLines text)).map fun r =>
    ⟨r.commands, r.modules, r.profile ≠ []⟩

end Netops.Exos

import Mathlib.Data.List.Basic

/-!
# Words of a shell line

`shlex.split(text, comments=False, posix=True)`: words are separated by white space, both kinds of
quotes keep what is inside of them, a backslash keeps the next character.  Inside of double quotes a
backslash that stands before another character than a backslash or a double quote is kept as well.
-/

namespace Shlex

abbrev Text := List Char

def isSpace (c : Char) : Bool := c = ' ' || c = '\t' || c = '\r' || c = '\n'

def isQuote (c : Char) : Bool := c = '"' || c = '\''

/-- between words, in a word, in quotes, or after a backslash: then with the quotes to go back to -/
inductive Mode where
  | blank
  | word
  | quote (q : Char)
  | escape (back : Option Char)
  deriving DecidableEq, Repr

/-- where a word goes on after an escaped character -/
def Mode.after : Option Char → Mode
  | none => .word
  | some q => .quote q

/-- what a backslash and the character after it stand for -/
def escaped : Option Char → Char → Text
  | some q, c => if c ≠ '\\' ∧ c ≠ q then ['\\', c] else [c]
  | none, c => [c]

/-- the words of the rest of the text, with the word at hand and whether it was `quoted`; `none` where
quotes stay open or a backslash is the last character -/
def splitFrom : Mode → Text → Bool → Text → Option (List Text)
  | .blank, _, _, [] => some []
  | .blank, _, _, c :: rest =>
    if isSpace c then splitFrom .blank [] false rest
    else if c = '\\' then splitFrom (.escape none) [] false rest
    else if isQuote c then splitFrom (.quote c) [] true rest
    else splitFrom .word [c] false rest
  | .word, token, quoted, [] => some (if token ≠ [] ∨ quoted then [token] else [])
  | .word, token, quoted, c :: rest =>
    if isSpace c then
      (splitFrom .blank [] false rest).map fun words =>
        if token ≠ [] ∨ quoted then token :: words else words
    else if isQuote c then splitFrom (.quote c) token true rest
    else if c = '\\' then splitFrom (.escape none) token quoted rest
    else splitFrom .word (token ++ [c]) quoted rest
  | .quote _, _, _, [] => none
  | .quote q, token, _, c :: rest =>
    if c = q then splitFrom .word token true rest
    else if c = '\\' ∧ q = '"' then splitFrom (.escape (some q)) token true rest
    else splitFrom (.quote q) (token ++ [c]) true rest
  | .escape _, _, _, [] => none
  | .escape back, token, quoted, c :: rest =>
    splitFrom (Mode.after back) (token ++ escaped back c) quoted rest

def split (text : Text) : Option (List Text) := splitFrom .blank [] false text

end Shlex

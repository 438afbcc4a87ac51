import Netops.Lib.Regex

/-!
# Patterns over characters

What the patterns of `re` are made of: literal texts, classes, repetitions, and the ends of lines where a
pattern is searched in several of them.
-/

namespace Patterns

open Regex

/-- a text as it stands -/
def lit (s : String) : Regex Char := word (s.toList.map fun d c => c = d)

/-- a letter of a pattern, whatever its case; some characters outside ASCII count as one -/
def sameLetter (d c : Char) : Bool :=
  c = d || c.toLower = d.toLower || (d.toLower = 'k' && c.toNat = 0x212a) ||
    (d.toLower = 's' && c.toNat = 0x17f) || (d.toLower = 'i' && (c.toNat = 0x130 || c.toNat = 0x131))

/-- a text in capital or small letters -/
def anyCase (s : String) : Regex Char := word (s.toList.map sameLetter)

def oneIn (s : String) : Regex Char := .char fun c => s.toList.contains c
def noneIn (s : String) : Regex Char := .char fun c => !s.toList.contains c

def digit : Regex Char := .char fun c => '0' ≤ c && c ≤ '9'
def isUpper (c : Char) : Bool := 'A' ≤ c && c ≤ 'Z'
def isLower (c : Char) : Bool := 'a' ≤ c && c ≤ 'z'
def isAlnum (c : Char) : Bool := isUpper c || isLower c || ('0' ≤ c && c ≤ '9')

/-- `[ \t]*` and `[ \t]+` -/
def blanks : Regex Char := .star (oneIn " \t")
def gap : Regex Char := plus (oneIn " \t")

variable {α : Type}

def sequence (rs : List (Regex α)) : Regex α := rs.foldr .seq .empty

/-- `{m,n}` -/
def between (r : Regex α) (m n : Nat) : Regex α := .seq (times r m) (upTo r (n - m))

/-- `(?m)^` and `(?m)$` -/
def lineStart : Regex Char := .after (· = '\n')
def lineStop : Regex Char := .alt atEnd (.ahead (lit "\n"))

/-- `(?m)^…[ \t]*\r?$` -/
def wholeLine (r : Regex Char) : Regex Char :=
  sequence [lineStart, r, blanks, maybe (lit "\r"), lineStop]

end Patterns

import Mathlib.Algebra.Ring.Nat
import Mathlib.Data.Char
import Mathlib.Data.List.Lex
import Mathlib.Data.List.Sort
import Mathlib.Data.List.TakeWhile

/-!
# JSON texts

`json.dumps` without spaces, and `json.loads` with an `object_pairs_hook` that keeps all pairs.  A
string is the list of its code points: an escape may name half of a surrogate pair, which is no
character.

* `Value`       JSON values; a number that is no integer keeps its text;
* `write`       the text of a value, for any way to write the code points of a string:
                `dumps` with `ensure_ascii`, `dumpsRaw` without it;
* `sorted`      puts the keys of the objects of a value in order;
* `loads`       the value of a text; `none` where `json.loads` raises;
* `loads_write` a value with `Value.Printable` is read back as it was written;
* `dumps_injective`;
* `loads_size`   a value is no larger than the text it is read from.
-/

namespace Json

inductive Value where
  | null
  | bool (b : Bool)
  | int (n : Int)
  | float (text : List Char)
  | str (points : List Nat)
  | arr (items : List Value)
  | obj (fields : List (List Nat × Value))

mutual

/-- the two values are equal -/
def Value.same : Value → Value → Bool
  | .null, .null => true
  | .bool a, .bool b => a = b
  | .int a, .int b => a = b
  | .float a, .float b => a = b
  | .str a, .str b => a = b
  | .arr a, .arr b => sameItems a b
  | .obj a, .obj b => sameFields a b
  | _, _ => false

def sameItems : List Value → List Value → Bool
  | [], [] => true
  | v :: vs, w :: ws => v.same w && sameItems vs ws
  | _, _ => false

def sameFields : List (List Nat × Value) → List (List Nat × Value) → Bool
  | [], [] => true
  | (k, v) :: fs, (l, w) :: gs => k = l && v.same w && sameFields fs gs
  | _, _ => false

end

mutual

theorem Value.same_iff : ∀ v w : Value, v.same w = true ↔ v = w
  | .null, w => by cases w <;> simp [Value.same]
  | .bool a, w => by cases w <;> simp [Value.same]
  | .int a, w => by cases w <;> simp [Value.same]
  | .float a, w => by cases w <;> simp [Value.same]
  | .str a, w => by cases w <;> simp [Value.same]
  | .arr a, w => by cases w <;> simp [Value.same, sameItems_iff a]
  | .obj a, w => by cases w <;> simp [Value.same, sameFields_iff a]

theorem sameItems_iff : ∀ vs ws : List Value, sameItems vs ws = true ↔ vs = ws
  | [], ws => by cases ws <;> simp [sameItems]
  | v :: vs, ws => by cases ws <;> simp [sameItems, Value.same_iff v, sameItems_iff vs]

theorem sameFields_iff : ∀ fs gs : List (List Nat × Value), sameFields fs gs = true ↔ fs = gs
  | [], gs => by cases gs <;> simp [sameFields]
  | (k, v) :: fs, gs => by
    cases gs <;> simp [sameFields, Value.same_iff v, sameFields_iff fs, Prod.ext_iff]

end

instance : DecidableEq Value := fun v w => decidable_of_iff _ (Value.same_iff v w)

mutual

/-- the strings of a value, without the keys -/
def Value.strings : Value → List (List Nat)
  | .str s => [s]
  | .arr vs => stringsOfItems vs
  | .obj fs => stringsOfFields fs
  | _ => []

def stringsOfItems : List Value → List (List Nat)
  | [] => []
  | v :: vs => v.strings ++ stringsOfItems vs

def stringsOfFields : List (List Nat × Value) → List (List Nat)
  | [] => []
  | (_, v) :: fs => v.strings ++ stringsOfFields fs

end

mutual

/-- the keys of all objects in a value -/
def Value.keys : Value → List (List Nat)
  | .arr vs => keysOfItems vs
  | .obj fs => keysOfFields fs
  | _ => []

def keysOfItems : List Value → List (List Nat)
  | [] => []
  | v :: vs => v.keys ++ keysOfItems vs

def keysOfFields : List (List Nat × Value) → List (List Nat)
  | [] => []
  | (k, v) :: fs => k :: v.keys ++ keysOfFields fs

end

/-- a string or a key, or a number -/
inductive Leaf where
  | text (s : List Nat)
  | number (v : Value)

mutual

/-- the strings, keys and numbers of a value -/
def Value.leaves : Value → List Leaf
  | .str s => [.text s]
  | .int n => [.number (.int n)]
  | .float t => [.number (.float t)]
  | .arr vs => leavesOfItems vs
  | .obj fs => leavesOfFields fs
  | _ => []

def leavesOfItems : List Value → List Leaf
  | [] => []
  | v :: vs => v.leaves ++ leavesOfItems vs

def leavesOfFields : List (List Nat × Value) → List Leaf
  | [] => []
  | (k, v) :: fs => .text k :: v.leaves ++ leavesOfFields fs

end

theorem mem_leavesOfItems {x : Leaf} {vs : List Value} :
    x ∈ leavesOfItems vs ↔ ∃ v ∈ vs, x ∈ v.leaves := by
  induction vs with
  | nil => simp [leavesOfItems]
  | cons v vs ih => simp [leavesOfItems, ih]

theorem mem_leavesOfFields {x : Leaf} {fs : List (List Nat × Value)} :
    x ∈ leavesOfFields fs ↔ ∃ f ∈ fs, x = .text f.1 ∨ x ∈ f.2.leaves := by
  induction fs with
  | nil => simp [leavesOfFields]
  | cons f fs ih =>
    obtain ⟨k, v⟩ := f
    simp [leavesOfFields, ih, or_assoc]

/-! ## writing -/

/-- `\uXXXX` -/
def unicodeEscape (n : Nat) : List Char :=
  ['\\', 'u', Nat.digitChar (n / 4096), Nat.digitChar (n / 256 % 16), Nat.digitChar (n / 16 % 16),
    Nat.digitChar (n % 16)]

/-- one code point in a string literal -/
def escape (n : Nat) : List Char :=
  if n = 34 then ['\\', '"']
  else if n = 92 then ['\\', '\\']
  else if n = 10 then ['\\', 'n']
  else if n = 13 then ['\\', 'r']
  else if n = 9 then ['\\', 't']
  else if n = 12 then ['\\', 'f']
  else if n = 8 then ['\\', 'b']
  else if 32 ≤ n ∧ n ≤ 126 then [Char.ofNat n]
  else if n < 65536 then unicodeEscape n
  else unicodeEscape (55296 + (n - 65536) / 1024 % 1024) ++ unicodeEscape (56320 + (n - 65536) % 1024)

/-- one code point in a string literal, with `ensure_ascii=False` -/
def escapeRaw (n : Nat) : List Char :=
  if n < 127 then escape n else [Char.ofNat n]

def intText : Int → List Char
  | .ofNat n => Nat.toDigits 10 n
  | .negSucc n => '-' :: Nat.toDigits 10 (n + 1)

section
variable (esc : Nat → List Char)

def quote (s : List Nat) : List Char := '"' :: s.flatMap esc ++ ['"']

mutual

def write : Value → List Char
  | .null => ['n', 'u', 'l', 'l']
  | .bool true => ['t', 'r', 'u', 'e']
  | .bool false => ['f', 'a', 'l', 's', 'e']
  | .int n => intText n
  | .float text => text
  | .str s => quote esc s
  | .arr vs => '[' :: writeItems vs ++ [']']
  | .obj fs => '{' :: writeFields fs ++ ['}']

def writeItems : List Value → List Char
  | [] => []
  | v :: vs => write v ++ writeMore vs

def writeMore : List Value → List Char
  | [] => []
  | v :: vs => ',' :: write v ++ writeMore vs

def writeFields : List (List Nat × Value) → List Char
  | [] => []
  | (k, v) :: fs => quote esc k ++ ':' :: write v ++ writeMoreFields fs

def writeMoreFields : List (List Nat × Value) → List Char
  | [] => []
  | (k, v) :: fs => ',' :: quote esc k ++ ':' :: write v ++ writeMoreFields fs

end

end

/-- `json.dumps` -/
def dumps (v : Value) : List Char := write escape v

/-- `json.dumps` with `ensure_ascii=False` -/
def dumpsRaw (v : Value) : List Char := write escapeRaw v

/-! ## `sort_keys` -/

mutual

/-- the value with the keys of every object in order -/
def sorted : Value → Value
  | .arr vs => .arr (sortedItems vs)
  | .obj fs => .obj ((sortedFields fs).insertionSort fun f g => f.1 ≤ g.1)
  | v => v

def sortedItems : List Value → List Value
  | [] => []
  | v :: vs => sorted v :: sortedItems vs

def sortedFields : List (List Nat × Value) → List (List Nat × Value)
  | [] => []
  | (k, v) :: fs => (k, sorted v) :: sortedFields fs

end

mutual

/-- the order of the keys does not change what there is -/
theorem mem_leaves_sorted : ∀ (v : Value) (x : Leaf), x ∈ (sorted v).leaves ↔ x ∈ v.leaves
  | .null, _ | .bool _, _ | .int _, _ | .float _, _ | .str _, _ => Iff.rfl
  | .arr vs, x => by
    rw [sorted, Value.leaves, Value.leaves, mem_leaves_sortedItems vs x]
  | .obj fs, x => by
    rw [sorted, Value.leaves, Value.leaves, ← mem_leaves_sortedFields fs x, mem_leavesOfFields,
      mem_leavesOfFields]
    exact exists_congr fun f => and_congr_left fun _ => List.mem_insertionSort _

theorem mem_leaves_sortedItems : ∀ (vs : List Value) (x : Leaf),
    x ∈ leavesOfItems (sortedItems vs) ↔ x ∈ leavesOfItems vs
  | [], _ => Iff.rfl
  | v :: vs, x => by
    rw [sortedItems, leavesOfItems, leavesOfItems, List.mem_append, List.mem_append,
      mem_leaves_sorted v x, mem_leaves_sortedItems vs x]

theorem mem_leaves_sortedFields : ∀ (fs : List (List Nat × Value)) (x : Leaf),
    x ∈ leavesOfFields (sortedFields fs) ↔ x ∈ leavesOfFields fs
  | [], _ => Iff.rfl
  | (k, v) :: fs, x => by
    simp only [sortedFields, leavesOfFields, List.cons_append, List.mem_cons, List.mem_append,
      mem_leaves_sorted v x, mem_leaves_sortedFields fs x]

end

/-! ## reading -/

def isSpace (c : Char) : Bool := c = ' ' || c = '\t' || c = '\n' || c = '\r'

def skip (cs : List Char) : List Char := cs.dropWhile isSpace

def hexValue (c : Char) : Option Nat :=
  if '0' ≤ c ∧ c ≤ '9' then some (c.toNat - 48)
  else if 'a' ≤ c ∧ c ≤ 'f' then some (c.toNat - 87)
  else if 'A' ≤ c ∧ c ≤ 'F' then some (c.toNat - 55)
  else none

/-- four hexadecimal digits -/
def hex4 : List Char → Option (Nat × List Char)
  | a :: b :: c :: d :: cs => do
    let a ← hexValue a
    let b ← hexValue b
    let c ← hexValue c
    let d ← hexValue d
    return (a * 4096 + b * 256 + c * 16 + d, cs)
  | _ => none

/-- the second half of a surrogate pair, if it is there -/
def lowSurrogate : List Char → Option (Nat × List Char)
  | '\\' :: 'u' :: cs => do
    let (n, cs) ← hex4 cs
    if 56320 ≤ n ∧ n ≤ 57343 then return (n, cs) else none
  | _ => none

/-- `\uXXXX`, after the `u`; two halves of a pair are one code point -/
def unicode (cs : List Char) : Option (Nat × List Char) := do
  let (n, cs) ← hex4 cs
  if 55296 ≤ n ∧ n ≤ 56319 then
    match lowSurrogate cs with
    | some (m, cs) => return (65536 + (n - 55296) * 1024 + (m - 56320), cs)
    | none => return (n, cs)
  else return (n, cs)

/-- an escape, after the backslash -/
def unescape : List Char → Option (Nat × List Char)
  | [] => none
  | c :: cs =>
    if c = 'u' then unicode cs
    else if c = '"' then some (34, cs)
    else if c = '\\' then some (92, cs)
    else if c = '/' then some (47, cs)
    else if c = 'b' then some (8, cs)
    else if c = 'f' then some (12, cs)
    else if c = 'n' then some (10, cs)
    else if c = 'r' then some (13, cs)
    else if c = 't' then some (9, cs)
    else none

/-- a string, after its opening quote; control characters are refused -/
def string : Nat → List Char → Option (List Nat × List Char)
  | 0, _ => none
  | _+1, [] => none
  | n+1, c :: cs =>
    if c = '"' then some ([], cs)
    else if c = '\\' then do
      let (x, cs) ← unescape cs
      let (s, cs) ← string n cs
      return (x :: s, cs)
    else if c.toNat < 32 then none
    else do
      let (s, cs) ← string n cs
      return (c.toNat :: s, cs)

/-- the longest text of an integer that is read -/
def maxDigits : Nat := 4300

/-- `.` and digits, if they are there -/
def fraction : List Char → List Char × List Char
  | '.' :: c :: cs => if c.isDigit then
      ('.' :: (c :: cs).takeWhile Char.isDigit, (c :: cs).dropWhile Char.isDigit) else ([], '.' :: c :: cs)
  | cs => ([], cs)

/-- `e`, a sign and digits, if they are there -/
def exponent : List Char → List Char × List Char
  | [] => ([], [])
  | e :: cs =>
    if e = 'e' ∨ e = 'E' then
      let (sign, rest) : List Char × List Char := match cs with
        | '-' :: cs => (['-'], cs)
        | '+' :: cs => (['+'], cs)
        | cs => ([], cs)
      if (rest.head?.map Char.isDigit).getD false then
        (e :: sign ++ rest.takeWhile Char.isDigit, rest.dropWhile Char.isDigit)
      else ([], e :: cs)
    else ([], e :: cs)

/-- the digits of the integral part; a leading zero stands alone -/
def integral : List Char → Option (List Char × List Char)
  | [] => none
  | c :: cs =>
    if c = '0' then some (['0'], cs)
    else if c.isDigit then some ((c :: cs).takeWhile Char.isDigit, (c :: cs).dropWhile Char.isDigit)
    else none

def unsigned (negative : Bool) (cs : List Char) : Option (Value × List Char) := do
  let (digits, cs) ← integral cs
  let (frac, cs) := fraction cs
  let (exp, cs) := exponent cs
  if frac = [] ∧ exp = [] then
    if maxDigits < digits.length then none
    else
      let n : Int := Nat.ofDigitChars 10 digits 0
      return (.int (if negative then -n else n), cs)
  else return (.float ((if negative then ['-'] else []) ++ digits ++ frac ++ exp), cs)

def number : List Char → Option (Value × List Char)
  | '-' :: cs => unsigned true cs
  | cs => unsigned false cs

/-- the rest of a literal -/
def literal (word : List Char) (v : Value) (cs : List Char) : Option (Value × List Char) :=
  if word.isPrefixOf cs then some (v, cs.drop word.length) else none

mutual

/-- a value; `n` bounds the length of the text and `depth` the nesting -/
def value : Nat → Nat → List Char → Option (Value × List Char)
  | 0, _, _ => none
  | _+1, _, [] => none
  | n+1, depth, c :: cs =>
    if c = '"' then (string n cs).map fun x => (.str x.1, x.2)
    else if c = '{' then
      if depth = 0 then none
      else if (skip cs).head? = some '}' then some (.obj [], (skip cs).tail)
      else (members n (depth - 1) (skip cs)).map fun x => (.obj x.1, x.2)
    else if c = '[' then
      if depth = 0 then none
      else if (skip cs).head? = some ']' then some (.arr [], (skip cs).tail)
      else (items n (depth - 1) (skip cs)).map fun x => (.arr x.1, x.2)
    else if c = 'n' then literal ['u', 'l', 'l'] .null cs
    else if c = 't' then literal ['r', 'u', 'e'] (.bool true) cs
    else if c = 'f' then literal ['a', 'l', 's', 'e'] (.bool false) cs
    else number (c :: cs)

/-- the fields of an object, from the first key on -/
def members : Nat → Nat → List Char → Option (List (List Nat × Value) × List Char)
  | 0, _, _ => none
  | _+1, _, [] => none
  | n+1, depth, c :: cs =>
    if c = '"' then do
      let (k, cs) ← string n cs
      if (skip cs).head? = some ':' then
        let (v, cs) ← value n depth (skip (skip cs).tail)
        if (skip cs).head? = some '}' then return ([(k, v)], (skip cs).tail)
        else if (skip cs).head? = some ',' then
          let (fs, cs) ← members n depth (skip (skip cs).tail)
          return ((k, v) :: fs, cs)
        else none
      else none
    else none

/-- the items of an array, from the first one on -/
def items : Nat → Nat → List Char → Option (List Value × List Char)
  | 0, _, _ => none
  | n+1, depth, cs => do
    let (v, cs) ← value n depth cs
    if (skip cs).head? = some ']' then return ([v], (skip cs).tail)
    else if (skip cs).head? = some ',' then
      let (vs, cs) ← items n depth (skip (skip cs).tail)
      return (v :: vs, cs)
    else none

end

def byteOrderMark : Char := Char.ofNat 65279

/-- `json.loads`: one value and nothing after it; a text that starts with a byte order mark is
refused, and so is one that nests deeper than `depth` -/
def loads (depth : Nat) (text : List Char) : Option Value := do
  if text.head? = some byteOrderMark then none
  else
    let (v, rest) ← value (text.length + 1) depth (skip text)
    if skip rest = [] then return v else none

/-! ## strings -/

/-- no half of a surrogate pair -/
def Scalar (n : Nat) : Prop := n < 55296 ∨ 57343 < n ∧ n < 1114112

theorem hexValue_digitChar : ∀ n < 16, hexValue (Nat.digitChar n) = some n := by decide

theorem hex4_digits {n : Nat} (h : n < 65536) (cs : List Char) :
    hex4 (Nat.digitChar (n / 4096) :: Nat.digitChar (n / 256 % 16) :: Nat.digitChar (n / 16 % 16) ::
      Nat.digitChar (n % 16) :: cs) = some (n, cs) := by
  rw [hex4, hexValue_digitChar _ (by omega), hexValue_digitChar _ (by omega),
    hexValue_digitChar _ (by omega), hexValue_digitChar _ (by omega)]
  have e : n / 4096 * 4096 + n / 256 % 16 * 256 + n / 16 % 16 * 16 + n % 16 = n := by omega
  simp [e]

/-- the text of a point below 2^16 is read as this point, unless it may be half of a pair -/
theorem unicode_digits {n : Nat} (h : n < 65536) (hs : n < 55296 ∨ 56319 < n) (cs : List Char) :
    unicode (Nat.digitChar (n / 4096) :: Nat.digitChar (n / 256 % 16) ::
      Nat.digitChar (n / 16 % 16) :: Nat.digitChar (n % 16) :: cs) = some (n, cs) := by
  rw [unicode, hex4_digits h]
  have hn : ¬ (55296 ≤ n ∧ n ≤ 56319) := by omega
  simp [hn]

theorem unicode_pair {n m : Nat} (hn : 55296 ≤ n ∧ n ≤ 56319) (hm : 56320 ≤ m ∧ m ≤ 57343)
    (cs : List Char) :
    unicode (Nat.digitChar (n / 4096) :: Nat.digitChar (n / 256 % 16) ::
      Nat.digitChar (n / 16 % 16) :: Nat.digitChar (n % 16) :: (unicodeEscape m ++ cs))
      = some (65536 + (n - 55296) * 1024 + (m - 56320), cs) := by
  have hlow : lowSurrogate (unicodeEscape m ++ cs) = some (m, cs) := by
    show lowSurrogate ('\\' :: 'u' :: _ :: _ :: _ :: _ :: cs) = _
    rw [lowSurrogate, hex4_digits (by omega)]
    simp [hm]
  rw [unicode, hex4_digits (by omega)]
  simp [hn, hlow]

/-- an escape is read as the point it stands for -/
theorem string_unescape {cs r : List Char} {p : Nat} (h : unescape cs = some (p, r)) (n : Nat) :
    string (n + 1) ('\\' :: cs) = (string n r).map fun x => (p :: x.1, x.2) := by
  rw [string, if_neg (by decide), if_pos rfl, h]
  cases hs : string n r <;> simp [hs]

theorem ofNat_toNat : ∀ p < 127, (Char.ofNat p).toNat = p := by decide

theorem string_escape {p : Nat} (hp : Scalar p) (n : Nat) (cs : List Char) :
    string (n + 1) (escape p ++ cs) = (string n cs).map fun x => (p :: x.1, x.2) := by
  unfold escape
  split_ifs with h1 h2 h3 h4 h5 h6 h7 h8 h9
  · exact h1 ▸ string_unescape rfl n
  · exact h2 ▸ string_unescape rfl n
  · exact h3 ▸ string_unescape rfl n
  · exact h4 ▸ string_unescape rfl n
  · exact h5 ▸ string_unescape rfl n
  · exact h6 ▸ string_unescape rfl n
  · exact h7 ▸ string_unescape rfl n
  · -- a printable character stands for itself
    have hval : (Char.ofNat p).toNat = p := ofNat_toNat p (by omega)
    have hne : ∀ c : Char, c.toNat ≠ p → Char.ofNat p ≠ c := fun c hc he => hc (he ▸ hval)
    rw [List.singleton_append, string, if_neg (hne '"' (Ne.symm h1)), if_neg (hne '\\' (Ne.symm h2)),
      hval, if_neg (by omega)]
    cases string n cs <;> rfl
  · refine string_unescape (r := cs) ?_ n
    exact unicode_digits h9 (by unfold Scalar at hp; omega) cs
  · rw [List.append_assoc]
    refine string_unescape (r := cs) ?_ n
    unfold Scalar at hp
    have e : 65536 + (55296 + (p - 65536) / 1024 % 1024 - 55296) * 1024
        + (56320 + (p - 65536) % 1024 - 56320) = p := by omega
    have hpair := unicode_pair (n := 55296 + (p - 65536) / 1024 % 1024)
      (m := 56320 + (p - 65536) % 1024) (by omega) (by omega) cs
    rw [e] at hpair
    exact hpair

theorem escape_ne_nil (p : Nat) : escape p ≠ [] := by
  unfold escape unicodeEscape
  split_ifs <;> simp

/-- a way to write the code points of a string that is read back -/
structure Escapes (esc : Nat → List Char) : Prop where
  ne_nil : ∀ p, esc p ≠ []
  reads : ∀ p, Scalar p → ∀ n cs,
    string (n + 1) (esc p ++ cs) = (string n cs).map fun x => (p :: x.1, x.2)

theorem escapes_escape : Escapes escape := ⟨escape_ne_nil, fun _ hp => string_escape hp⟩

theorem toNat_ofNat_of_scalar {p : Nat} (hp : Scalar p) : (Char.ofNat p).toNat = p := by
  have hv : p.isValidChar := by
    unfold Scalar at hp
    exact hp
  rw [Char.ofNat, dif_pos hv]
  rfl

theorem escapes_escapeRaw : Escapes escapeRaw := by
  constructor
  · intro p
    rw [escapeRaw]
    split
    · exact escape_ne_nil p
    · exact List.cons_ne_nil _ _
  · intro p hp n cs
    rw [escapeRaw]
    split
    · exact string_escape hp n cs
    · next h =>
      -- a character outside ASCII is neither a quote nor a backslash nor a control character
      have hval := toNat_ofNat_of_scalar hp
      have hne : ∀ c : Char, c.toNat < 127 → Char.ofNat p ≠ c := fun c hc he => by
        rw [← he, hval] at hc
        exact h hc
      rw [List.singleton_append, string, if_neg (hne '"' (by decide)), if_neg (hne '\\' (by decide)),
        hval, if_neg (by omega)]
      cases string n cs <;> rfl

section
variable {esc : Nat → List Char} (hesc : Escapes esc)

include hesc

/-- a quoted string is read back -/
theorem string_quote {s : List Nat} (hs : ∀ p ∈ s, Scalar p) {n : Nat} (hn : s.length < n)
    (cs : List Char) : string n (s.flatMap esc ++ '"' :: cs) = some (s, cs) := by
  induction s generalizing n with
  | nil =>
    obtain ⟨n, rfl⟩ : ∃ m, n = m + 1 := ⟨n - 1, by omega⟩
    rw [List.flatMap_nil, List.nil_append, string, if_pos rfl]
  | cons p s ih =>
    obtain ⟨n, rfl⟩ : ∃ m, n = m + 1 := ⟨n - 1, by omega⟩
    rw [List.flatMap_cons, List.append_assoc, hesc.reads p (hs p (.head _)),
      ih (fun q hq => hs q (.tail _ hq)) (by simpa using hn)]
    rfl

theorem length_flatMap_esc (s : List Nat) : s.length ≤ (s.flatMap esc).length := by
  induction s with
  | nil => exact Nat.le_refl 0
  | cons p s ih =>
    have hp := List.length_pos_of_ne_nil (hesc.ne_nil p)
    rw [List.flatMap_cons, List.length_append, List.length_cons]
    omega

end

/-! ## numbers -/

/-- the text may follow a number -/
def Stops (cs : List Char) : Prop := ∀ c ∈ cs.head?, c.isDigit = false ∧ c ≠ '.' ∧ c ≠ 'e' ∧ c ≠ 'E'

theorem takeWhile_digits {ds cs : List Char} (hd : ∀ c ∈ ds, c.isDigit = true) (hcs : Stops cs) :
    (ds ++ cs).takeWhile Char.isDigit = ds ∧ (ds ++ cs).dropWhile Char.isDigit = cs := by
  induction ds with
  | nil =>
    cases cs with
    | nil => exact ⟨rfl, rfl⟩
    | cons c cs => simp [(hcs c rfl).1]
  | cons d ds ih =>
    obtain ⟨h1, h2⟩ := ih fun c hc => hd c (.tail _ hc)
    simp [hd d (.head _), h1, h2]

theorem digitChar_ne_zero : ∀ n < 10, n ≠ 0 → Nat.digitChar n ≠ '0' := by decide

/-- only zero starts with the digit zero -/
theorem toDigits_head {n : Nat} (hn : n ≠ 0) :
    ∃ c cs, Nat.toDigits 10 n = c :: cs ∧ c ≠ '0' := by
  induction n using Nat.strong_induction_on with
  | _ n ih =>
    rw [Nat.toDigits_eq_if (by decide)]
    split
    · next h => exact ⟨_, [], rfl, digitChar_ne_zero n h hn⟩
    · next h =>
      obtain ⟨c, cs, hc, hne⟩ := ih (n / 10) (by omega) (by omega)
      exact ⟨c, cs ++ [Nat.digitChar (n % 10)], by rw [hc]; rfl, hne⟩

theorem fraction_stops {cs : List Char} (h : Stops cs) : fraction cs = ([], cs) := by
  unfold fraction
  split
  · next c cs => exact absurd rfl (h '.' rfl).2.1
  · rfl

theorem exponent_stops {cs : List Char} (h : Stops cs) : exponent cs = ([], cs) := by
  cases cs with
  | nil => rfl
  | cons c cs =>
    obtain ⟨-, -, h1, h2⟩ := h c rfl
    simp [exponent, h1, h2]

theorem unsigned_toDigits {n : Nat} (hn : (Nat.toDigits 10 n).length ≤ maxDigits) {cs : List Char}
    (hcs : Stops cs) (negative : Bool) : unsigned negative (Nat.toDigits 10 n ++ cs)
      = some (.int (if negative then -(n : Int) else n), cs) := by
  have hint : integral (Nat.toDigits 10 n ++ cs) = some (Nat.toDigits 10 n, cs) := by
    have hdigit : ∀ c ∈ Nat.toDigits 10 n, c.isDigit = true := fun c hc =>
      Nat.isDigit_of_mem_toDigits (by decide) (by decide) hc
    obtain ⟨htake, hdrop⟩ := takeWhile_digits hdigit hcs
    by_cases h0 : n = 0
    · rw [h0]
      rfl
    · obtain ⟨c, ds, hc, hne⟩ := toDigits_head h0
      rw [hc] at htake hdrop hdigit ⊢
      rw [List.cons_append] at htake hdrop ⊢
      rw [integral, if_neg hne, if_pos (hdigit c (.head _)), htake, hdrop]
  unfold unsigned
  rw [hint]
  simp [fraction_stops hcs, exponent_stops hcs, Nat.not_lt.mpr hn, Nat.ofDigitChars_ten_toDigits]


theorem number_intText {n : Int} (hn : (Nat.toDigits 10 n.natAbs).length ≤ maxDigits)
    {cs : List Char} (hcs : Stops cs) : number (intText n ++ cs) = some (.int n, cs) := by
  cases n with
  | negSucc n =>
    show unsigned true (Nat.toDigits 10 (n + 1) ++ cs) = _
    exact unsigned_toDigits (n := n + 1) hn hcs true
  | ofNat n =>
    have hminus : number (Nat.toDigits 10 n ++ cs) = unsigned false (Nat.toDigits 10 n ++ cs) := by
      unfold number
      split
      · next cs' he =>
        have hmem : '-' ∈ Nat.toDigits 10 n := by
          cases hd : Nat.toDigits 10 n with
          | nil => exact absurd hd Nat.toDigits_ne_nil
          | cons c ds =>
            rw [hd, List.cons_append, List.cons.injEq] at he
            exact he.1 ▸ .head _
        exact absurd (Nat.isDigit_of_mem_toDigits (by decide) (by decide) hmem) (by decide)
      · rfl
    exact hminus.trans (unsigned_toDigits hn hcs false)

/-- the text of a finite number that is no integer -/
def isFloatText (t : List Char) : Bool :=
  match number t with
  | some (.float u, []) => u = t
  | _ => false

theorem takeWhile_append_stops {cs : List Char} (hcs : Stops cs) (l : List Char) :
    (l ++ cs).takeWhile Char.isDigit = l.takeWhile Char.isDigit ∧
      (l ++ cs).dropWhile Char.isDigit = l.dropWhile Char.isDigit ++ cs := by
  induction l with
  | nil => exact takeWhile_digits (fun c (h : c ∈ []) => nomatch h) hcs
  | cons c l ih =>
    by_cases hc : c.isDigit = true
    · simp [hc, ih]
    · simp [hc]

theorem integral_append {t ds rest cs : List Char} (hcs : Stops cs)
    (h : integral t = some (ds, rest)) : integral (t ++ cs) = some (ds, rest ++ cs) := by
  cases t with
  | nil => exact nomatch h
  | cons c t =>
    rw [List.cons_append, integral]
    rw [integral] at h
    obtain ⟨htake, hdrop⟩ := takeWhile_append_stops hcs (c :: t)
    rw [List.cons_append] at htake hdrop
    split_ifs at h ⊢ with h1 h2
    · cases h
      rfl
    · rw [htake, hdrop]
      cases h
      rfl

theorem fraction_append {cs : List Char} (hcs : Stops cs) (t : List Char) :
    fraction (t ++ cs) = ((fraction t).1, (fraction t).2 ++ cs) := by
  cases t with
  | nil => exact fraction_stops hcs
  | cons c t =>
    by_cases hc : c = '.'
    · subst hc
      cases t with
      | nil =>
        cases cs with
        | nil => rfl
        | cons c cs => simp [fraction, (hcs c rfl).1]
      | cons c t =>
        obtain ⟨htake, hdrop⟩ := takeWhile_append_stops hcs (c :: t)
        rw [List.cons_append] at htake hdrop
        rw [List.cons_append, List.cons_append, fraction, fraction, htake, hdrop]
        split <;> rfl
    · simp [fraction, hc]

/-- the sign of an exponent -/
def expSign : List Char → List Char × List Char
  | '-' :: cs => (['-'], cs)
  | '+' :: cs => (['+'], cs)
  | cs => ([], cs)

theorem exponent_cons (e : Char) (cs : List Char) : exponent (e :: cs) =
    if e = 'e' ∨ e = 'E' then
      if ((expSign cs).2.head?.map Char.isDigit).getD false then
        (e :: (expSign cs).1 ++ (expSign cs).2.takeWhile Char.isDigit,
          (expSign cs).2.dropWhile Char.isDigit)
      else ([], e :: cs)
    else ([], e :: cs) := by
  unfold exponent expSign
  rfl

theorem expSign_append {t : List Char} (h : (expSign t).2 ≠ []) (cs : List Char) :
    expSign (t ++ cs) = ((expSign t).1, (expSign t).2 ++ cs) := by
  cases t with
  | nil => exact absurd rfl h
  | cons c t =>
    by_cases h1 : c = '-'
    · subst h1
      rfl
    · by_cases h2 : c = '+'
      · subst h2
        rfl
      · simp [expSign, h1, h2]

theorem exponent_append {t cs : List Char} (hcs : Stops cs) (h : (exponent t).2 = []) :
    exponent (t ++ cs) = ((exponent t).1, cs) := by
  cases t with
  | nil => exact exponent_stops hcs
  | cons e t =>
    rw [List.cons_append, exponent_cons, exponent_cons]
    rw [exponent_cons] at h
    by_cases h1 : e = 'e' ∨ e = 'E'
    · by_cases h2 : ((expSign t).2.head?.map Char.isDigit).getD false = true
      · rw [if_pos h1, if_pos h2] at h
        have hne : (expSign t).2 ≠ [] := fun he => by simp [he] at h2
        have h3 : (((expSign t).2 ++ cs).head?.map Char.isDigit).getD false = true := by
          rwa [List.head?_append_of_ne_nil _ hne]
        have hdrop : (expSign t).2.dropWhile Char.isDigit = [] := h
        obtain ⟨htake, hdrop'⟩ := takeWhile_append_stops hcs (expSign t).2
        rw [hdrop, List.nil_append] at hdrop'
        simp only [if_pos h1, if_pos h2, expSign_append hne, if_pos h3, htake, hdrop']
      · rw [if_pos h1, if_neg h2] at h
        exact nomatch h
    · rw [if_neg h1] at h
      exact nomatch h

theorem unsigned_append {negative : Bool} {t u cs : List Char} (hcs : Stops cs)
    (h : unsigned negative t = some (.float u, [])) :
    unsigned negative (t ++ cs) = some (.float u, cs) := by
  unfold unsigned at h ⊢
  cases hi : integral t with
  | none => rw [hi] at h; exact nomatch h
  | some x =>
    obtain ⟨ds, rest⟩ := x
    rw [hi] at h
    rw [integral_append hcs hi]
    simp only [Option.bind_eq_bind, Option.bind_some, fraction_append hcs] at h ⊢
    split at h
    · split at h
      · exact nomatch h
      · exact nomatch h
    · next hne =>
      simp only [Option.pure_def, Option.some.injEq, Prod.mk.injEq, Value.float.injEq] at h
      rw [exponent_append hcs h.2]
      simp only [if_neg hne, Option.pure_def, ← h.1]

/-- a float is read back, whatever stops it -/
theorem number_float {t cs : List Char} (ht : isFloatText t = true) (hcs : Stops cs) :
    number (t ++ cs) = some (.float t, cs) := by
  unfold isFloatText at ht
  split at ht
  · next u h =>
    obtain rfl := of_decide_eq_true ht
    cases u with
    | nil => exact nomatch h
    | cons c t =>
      by_cases hc : c = '-'
      · subst hc
        exact unsigned_append hcs h
      · have hn : ∀ r, number (c :: r) = unsigned false (c :: r) := fun r => by simp [number, hc]
        rw [hn] at h
        rw [List.cons_append, hn, ← List.cons_append]
        exact unsigned_append hcs h
  · exact nomatch ht

/-- how the text of a float starts -/
theorem float_head {t : List Char} (ht : isFloatText t = true) :
    ∃ c cs, t = c :: cs ∧ (c.isDigit = true ∨ c = '-') := by
  cases t with
  | nil => exact nomatch ht
  | cons c t =>
    refine ⟨c, t, rfl, ?_⟩
    by_cases hc : c = '-'
    · exact .inr hc
    by_cases hd : c.isDigit = true
    · exact .inl hd
    have h0 : c ≠ '0' := fun h => hd (h ▸ rfl)
    simp [isFloatText, number, hc, unsigned, integral, h0, hd] at ht

/-! ## values -/

mutual

/-- a value that is read back as it was written -/
def Value.Printable : Nat → Value → Prop
  | _, .null => True
  | _, .bool _ => True
  | _, .int n => (Nat.toDigits 10 n.natAbs).length ≤ maxDigits
  | _, .float t => isFloatText t = true
  | _, .str s => ∀ p ∈ s, Scalar p
  | 0, .arr _ => False
  | d+1, .arr vs => PrintableItems d vs
  | 0, .obj _ => False
  | d+1, .obj fs => PrintableFields d fs

def PrintableItems : Nat → List Value → Prop
  | _, [] => True
  | d, v :: vs => v.Printable d ∧ PrintableItems d vs

def PrintableFields : Nat → List (List Nat × Value) → Prop
  | _, [] => True
  | d, (k, v) :: fs => (∀ p ∈ k, Scalar p) ∧ v.Printable d ∧ PrintableFields d fs

end

theorem printableItems_iff {d : Nat} {vs : List Value} :
    PrintableItems d vs ↔ ∀ v ∈ vs, v.Printable d := by
  induction vs with
  | nil => simp [PrintableItems]
  | cons v vs ih => rw [PrintableItems, ih, List.forall_mem_cons]

theorem printableFields_iff {d : Nat} {fs : List (List Nat × Value)} :
    PrintableFields d fs ↔ ∀ f ∈ fs, (∀ p ∈ f.1, Scalar p) ∧ f.2.Printable d := by
  induction fs with
  | nil => simp [PrintableFields]
  | cons f fs ih => rw [PrintableFields, ih, List.forall_mem_cons, and_assoc]

mutual

theorem Value.Printable.mono : ∀ {v : Value} {d d' : Nat}, v.Printable d → d ≤ d' → v.Printable d'
  | .null, 0, 0, _, _ | .null, 0, _+1, _, _ | .null, _+1, _+1, _, _ => trivial
  | .bool _, 0, 0, _, _ | .bool _, 0, _+1, _, _ | .bool _, _+1, _+1, _, _ => trivial
  | .int _, 0, 0, h, _ | .int _, 0, _+1, h, _ | .int _, _+1, _+1, h, _ => h
  | .float _, 0, 0, h, _ | .float _, 0, _+1, h, _ | .float _, _+1, _+1, h, _ => h
  | .str _, 0, 0, h, _ | .str _, 0, _+1, h, _ | .str _, _+1, _+1, h, _ => h
  | .arr vs, d+1, _+1, h, hd =>
    PrintableItems.mono (show PrintableItems d vs from h) (Nat.le_of_succ_le_succ hd)
  | .obj fs, d+1, _+1, h, hd =>
    PrintableFields.mono (show PrintableFields d fs from h) (Nat.le_of_succ_le_succ hd)

theorem PrintableItems.mono : ∀ {vs : List Value} {d d' : Nat}, PrintableItems d vs → d ≤ d' →
    PrintableItems d' vs
  | [], _, _, _, _ => trivial
  | _ :: _, _, _, h, hd => ⟨h.1.mono hd, PrintableItems.mono h.2 hd⟩

theorem PrintableFields.mono : ∀ {fs : List (List Nat × Value)} {d d' : Nat},
    PrintableFields d fs → d ≤ d' → PrintableFields d' fs
  | [], _, _, _, _ => trivial
  | (_, _) :: _, _, _, h, hd => ⟨h.1, h.2.1.mono hd, PrintableFields.mono h.2.2 hd⟩

end

instance (n : Nat) : Decidable (Scalar n) :=
  inferInstanceAs (Decidable (n < 55296 ∨ 57343 < n ∧ n < 1114112))

mutual

def decPrintable : (d : Nat) → (v : Value) → Decidable (v.Printable d)
  | 0, .null | _+1, .null => .isTrue trivial
  | 0, .bool _ | _+1, .bool _ => .isTrue trivial
  | 0, .int n | _+1, .int n =>
    inferInstanceAs (Decidable ((Nat.toDigits 10 n.natAbs).length ≤ maxDigits))
  | 0, .float t | _+1, .float t => inferInstanceAs (Decidable (isFloatText t = true))
  | 0, .str s | _+1, .str s => inferInstanceAs (Decidable (∀ p ∈ s, Scalar p))
  | 0, .arr _ => .isFalse id
  | d+1, .arr vs => decPrintableItems d vs
  | 0, .obj _ => .isFalse id
  | d+1, .obj fs => decPrintableFields d fs

def decPrintableItems : (d : Nat) → (vs : List Value) → Decidable (PrintableItems d vs)
  | _, [] => .isTrue trivial
  | d, v :: vs => @instDecidableAnd _ _ (decPrintable d v) (decPrintableItems d vs)

def decPrintableFields :
    (d : Nat) → (fs : List (List Nat × Value)) → Decidable (PrintableFields d fs)
  | _, [] => .isTrue trivial
  | d, (_, v) :: fs => @instDecidableAnd _ _ inferInstance
      (@instDecidableAnd _ _ (decPrintable d v) (decPrintableFields d fs))

end

instance (d : Nat) (v : Value) : Decidable (v.Printable d) := decPrintable d v

theorem skip_cons {c : Char} (h : isSpace c = false) (cs : List Char) : skip (c :: cs) = c :: cs := by
  simp [skip, h]

/-- how the text of an integer starts -/
theorem intText_head (n : Int) : ∃ c cs, intText n = c :: cs ∧ (c.isDigit = true ∨ c = '-') := by
  cases n with
  | negSucc n => exact ⟨'-', _, rfl, .inr rfl⟩
  | ofNat n =>
    cases hd : Nat.toDigits 10 n with
    | nil => exact absurd hd Nat.toDigits_ne_nil
    | cons c ds =>
      refine ⟨c, ds, hd, .inl ?_⟩
      have hmem : c ∈ Nat.toDigits 10 n := by rw [hd]; exact .head _
      exact Nat.isDigit_of_mem_toDigits (by decide) (by decide) hmem

theorem ne_of_numeral {c c' : Char} (h : c.isDigit = true ∨ c = '-') (hd : c'.isDigit = false)
    (hm : c' ≠ '-') : c ≠ c' := by
  rintro rfl
  rcases h with h | h
  · rw [hd] at h
    cases h
  · exact hm h

theorem numeral_head {c : Char} (h : c.isDigit = true ∨ c = '-') :
    isSpace c = false ∧ c ≠ ']' ∧ c ≠ byteOrderMark := by
  have hne : ∀ c' : Char, c'.isDigit = false → c' ≠ '-' → c ≠ c' := fun _ => ne_of_numeral h
  refine ⟨?_, hne _ (by decide) (by decide), hne _ (by decide) (by decide)⟩
  simp [isSpace, hne ' ' (by decide) (by decide), hne '\t' (by decide) (by decide),
    hne '\n' (by decide) (by decide), hne '\r' (by decide) (by decide)]

theorem value_number {c : Char} (h : c.isDigit = true ∨ c = '-') (n d : Nat) (cs : List Char) :
    value (n + 1) d (c :: cs) = number (c :: cs) := by
  have hne : ∀ c' : Char, c'.isDigit = false → c' ≠ '-' → c ≠ c' := fun _ => ne_of_numeral h
  rw [value, if_neg (hne _ (by decide) (by decide)), if_neg (hne _ (by decide) (by decide)),
    if_neg (hne _ (by decide) (by decide)), if_neg (hne _ (by decide) (by decide)),
    if_neg (hne _ (by decide) (by decide)), if_neg (hne _ (by decide) (by decide))]

section
variable {esc : Nat → List Char}

/-- how the text of a value starts -/
theorem write_head {d : Nat} {v : Value} (hv : v.Printable d) :
    ∃ c ds, write esc v = c :: ds ∧ isSpace c = false ∧ c ≠ ']' ∧ c ≠ byteOrderMark := by
  cases v with
  | null => exact ⟨_, _, rfl, rfl, by decide, by decide⟩
  | bool b => cases b <;> exact ⟨_, _, rfl, rfl, by decide, by decide⟩
  | str s => exact ⟨_, _, rfl, rfl, by decide, by decide⟩
  | arr vs => exact ⟨_, _, rfl, rfl, by decide, by decide⟩
  | obj fs => exact ⟨_, _, rfl, rfl, by decide, by decide⟩
  | float t =>
    obtain ⟨c, ds, hc, hnum⟩ := float_head (t := t) (by cases d <;> exact hv)
    exact ⟨c, ds, hc, numeral_head hnum⟩
  | int n =>
    obtain ⟨c, ds, hc, hnum⟩ := intText_head n
    exact ⟨c, ds, hc, numeral_head hnum⟩

theorem skip_write {d : Nat} {v : Value} (hv : v.Printable d) (cs : List Char) :
    skip (write esc v ++ cs) = write esc v ++ cs := by
  obtain ⟨c, ds, hc, hspace, -⟩ := write_head hv
  rw [hc]
  exact skip_cons hspace _

/-- the three readers, with enough fuel -/
structure Reads (esc : Nat → List Char) (n : Nat) : Prop where
  value : ∀ d v cs, v.Printable d → (write esc v).length < n → Stops cs →
    Json.value n d (write esc v ++ cs) = some (v, cs)
  members : ∀ d k v fs cs, PrintableFields d ((k, v) :: fs) →
    (writeFields esc ((k, v) :: fs)).length < n →
    Json.members n d (writeFields esc ((k, v) :: fs) ++ '}' :: cs) = some ((k, v) :: fs, cs)
  items : ∀ d v vs cs, PrintableItems d (v :: vs) → (writeItems esc (v :: vs)).length + 1 < n →
    Json.items n d (writeItems esc (v :: vs) ++ ']' :: cs) = some (v :: vs, cs)

theorem stops_cons {c : Char} (h : c.isDigit = false ∧ c ≠ '.' ∧ c ≠ 'e' ∧ c ≠ 'E')
    (cs : List Char) : Stops (c :: cs) := by
  intro c' hc
  cases hc
  exact h

variable (hesc : Escapes esc)

include hesc

theorem reads_value {n : Nat} (h : Reads esc n) (d : Nat) (v : Value) (cs : List Char)
    (hv : v.Printable d) (hn : (write esc v).length < n + 1) (hcs : Stops cs) :
    value (n + 1) d (write esc v ++ cs) = some (v, cs) := by
  cases v with
  | null => simp [write, value, literal]
  | bool b => cases b <;> simp [write, value, literal]
  | float t =>
    have ht : isFloatText t = true := by cases d <;> exact hv
    obtain ⟨c, ds, hc, hnum⟩ := float_head ht
    rw [write, hc, List.cons_append, value_number hnum, ← List.cons_append, ← hc]
    exact number_float ht hcs
  | int m =>
    obtain ⟨c, ds, hc, hnum⟩ := intText_head m
    have hm : (Nat.toDigits 10 m.natAbs).length ≤ maxDigits := by cases d <;> exact hv
    rw [write, hc, List.cons_append, value_number hnum, ← List.cons_append, ← hc]
    exact number_intText hm hcs
  | str s =>
    have hs : ∀ p ∈ s, Scalar p := by cases d <;> exact hv
    have hlen := length_flatMap_esc hesc s
    simp only [write, quote, List.length_append, List.length_cons, List.length_nil] at hn
    simp only [write, quote, List.cons_append, List.append_assoc, List.nil_append]
    rw [value, if_pos rfl, string_quote hesc hs (by omega)]
    rfl
  | arr vs =>
    cases d with
    | zero => exact hv.elim
    | succ d =>
      simp only [write, List.length_append, List.length_cons, List.length_nil] at hn
      simp only [write, List.cons_append, List.append_assoc, List.nil_append]
      rw [value, if_neg (by decide), if_neg (by decide), if_pos rfl, if_neg (Nat.succ_ne_zero d)]
      cases vs with
      | nil => rfl
      | cons v vs =>
        have hskip : skip (writeItems esc (v :: vs) ++ ']' :: cs) = writeItems esc (v :: vs) ++ ']' :: cs := by
          rw [writeItems, List.append_assoc]
          exact skip_write hv.1 _
        have hhead : (writeItems esc (v :: vs) ++ ']' :: cs).head? ≠ some ']' := by
          obtain ⟨c, ds, hc, -, hne, -⟩ := write_head hv.1
          rw [writeItems, hc]
          exact fun he => hne (Option.some.inj he)
        rw [hskip, if_neg hhead, Nat.add_sub_cancel, h.items d v vs cs hv (by omega)]
        rfl
  | obj fs =>
    cases d with
    | zero => exact hv.elim
    | succ d =>
      simp only [write, List.length_append, List.length_cons, List.length_nil] at hn
      simp only [write, List.cons_append, List.append_assoc, List.nil_append]
      rw [value, if_neg (by decide), if_pos rfl, if_neg (Nat.succ_ne_zero d)]
      cases fs with
      | nil => rfl
      | cons f fs =>
        obtain ⟨k, v⟩ := f
        have hskip : skip (writeFields esc ((k, v) :: fs) ++ '}' :: cs)
            = writeFields esc ((k, v) :: fs) ++ '}' :: cs := rfl
        rw [hskip, if_neg (by simp [writeFields, quote]), Nat.add_sub_cancel,
          h.members d k v fs cs hv (by omega)]
        rfl

omit hesc in
theorem writeMoreFields_cons (k : List Nat) (v : Value) (fs : List (List Nat × Value)) :
    writeMoreFields esc ((k, v) :: fs) = ',' :: writeFields esc ((k, v) :: fs) := by
  simp [writeMoreFields, writeFields]

omit hesc in
theorem writeMore_cons (v : Value) (vs : List Value) :
    writeMore esc (v :: vs) = ',' :: writeItems esc (v :: vs) := by
  simp [writeMore, writeItems]

theorem reads_members {n : Nat} (h : Reads esc n) (d : Nat) (k : List Nat) (v : Value)
    (fs : List (List Nat × Value)) (cs : List Char) (hp : PrintableFields d ((k, v) :: fs))
    (hn : (writeFields esc ((k, v) :: fs)).length < n + 1) :
    members (n + 1) d (writeFields esc ((k, v) :: fs) ++ '}' :: cs) = some ((k, v) :: fs, cs) := by
  obtain ⟨hk, hv, hfs⟩ := hp
  have hlen := length_flatMap_esc hesc k
  simp only [writeFields, quote, List.length_append, List.length_cons, List.length_nil] at hn
  simp only [writeFields, quote, List.cons_append, List.append_assoc, List.nil_append]
  rw [members, if_pos rfl, string_quote hesc hk (by omega)]
  have hcolon : ∀ rest, skip (':' :: rest) = ':' :: rest := fun _ => rfl
  cases fs with
  | nil =>
    have hread := h.value d v ('}' :: cs) hv (by simp only [writeMoreFields] at hn; simp at hn; omega)
      (stops_cons (by decide) cs)
    simp only [writeMoreFields, List.nil_append, Option.bind_eq_bind, Option.bind_some, hcolon,
      List.head?_cons, if_true, List.tail_cons, skip_write hv, hread]
    rfl
  | cons f fs =>
    obtain ⟨k', v'⟩ := f
    rw [writeMoreFields_cons] at hn ⊢
    simp only [List.length_cons] at hn
    have hread := h.value d v (',' :: (writeFields esc ((k', v') :: fs) ++ '}' :: cs)) hv (by omega)
      (stops_cons (by decide) _)
    have hmore := h.members d k' v' fs cs hfs (by omega)
    have hcomma : ∀ rest, skip (',' :: rest) = ',' :: rest := fun _ => rfl
    have hquote : skip (writeFields esc ((k', v') :: fs) ++ '}' :: cs)
        = writeFields esc ((k', v') :: fs) ++ '}' :: cs := rfl
    simp only [List.cons_append, Option.bind_eq_bind, Option.bind_some, hcolon, List.head?_cons,
      if_true, List.tail_cons, skip_write hv, hread, hcomma, hquote, hmore]
    rfl

omit hesc in
theorem reads_items {n : Nat} (h : Reads esc n) (d : Nat) (v : Value) (vs : List Value) (cs : List Char)
    (hp : PrintableItems d (v :: vs)) (hn : (writeItems esc (v :: vs)).length + 1 < n + 1) :
    items (n + 1) d (writeItems esc (v :: vs) ++ ']' :: cs) = some (v :: vs, cs) := by
  obtain ⟨hv, hvs⟩ := hp
  simp only [writeItems, List.length_append] at hn
  simp only [writeItems, List.append_assoc]
  rw [items]
  cases vs with
  | nil =>
    have hread := h.value d v (']' :: cs) hv (by omega) (stops_cons (by decide) cs)
    have hclose : ∀ rest, skip (']' :: rest) = ']' :: rest := fun _ => rfl
    simp only [writeMore, List.nil_append, Option.bind_eq_bind, Option.bind_some, hread, hclose,
      List.head?_cons, if_true, List.tail_cons]
    rfl
  | cons v' vs =>
    rw [writeMore_cons] at hn ⊢
    simp only [List.length_cons] at hn
    have hread := h.value d v (',' :: (writeItems esc (v' :: vs) ++ ']' :: cs)) hv (by omega)
      (stops_cons (by decide) _)
    have hpos : 0 < (write esc v).length := by
      obtain ⟨c, ds, (hc : write esc v = c :: ds), -⟩ := write_head hv
      simp [hc]
    have hmore := h.items d v' vs cs hvs (by omega)
    have hcomma : ∀ rest, skip (',' :: rest) = ',' :: rest := fun _ => rfl
    have hskip : skip (writeItems esc (v' :: vs) ++ ']' :: cs) = writeItems esc (v' :: vs) ++ ']' :: cs := by
      rw [writeItems, List.append_assoc]
      exact skip_write hvs.1 _
    simp only [List.cons_append, Option.bind_eq_bind, Option.bind_some, hread, hcomma,
      List.head?_cons, if_true, List.tail_cons, hskip, hmore]
    rfl

theorem reads (n : Nat) : Reads esc n := by
  induction n with
  | zero => exact ⟨fun _ _ _ _ h => absurd h (Nat.not_lt_zero _),
      fun _ _ _ _ _ _ h => absurd h (Nat.not_lt_zero _), fun _ _ _ _ _ h => absurd h (Nat.not_lt_zero _)⟩
  | succ n ih => exact ⟨reads_value hesc ih, reads_members hesc ih, reads_items ih⟩

/-- **A value is read back as it was written.** -/
theorem loads_write {d : Nat} {v : Value} (hv : v.Printable d) : loads d (write esc v) = some v := by
  obtain ⟨c, ds, hc, hspace, -, hmark⟩ := (write_head hv : ∃ c ds, write esc v = c :: ds ∧ _)
  have hskip := (skip_write hv [] : skip (write esc v ++ []) = _)
  have hread := (reads hesc ((write esc v).length + 1)).value d v [] hv (Nat.lt_succ_self _)
    fun _ h => nomatch h
  rw [List.append_nil] at hskip hread
  have hhead : (write esc v).head? ≠ some byteOrderMark := by
    rw [hc]
    exact fun he => hmark (Option.some.inj he)
  rw [loads, if_neg hhead, hskip, hread]
  rfl

end

theorem loads_dumps {d : Nat} {v : Value} (hv : v.Printable d) : loads d (dumps v) = some v :=
  loads_write escapes_escape hv

theorem loads_dumpsRaw {d : Nat} {v : Value} (hv : v.Printable d) :
    loads d (dumpsRaw v) = some v := loads_write escapes_escapeRaw hv

/-- **Different values have different texts.** -/
theorem dumps_injective {d : Nat} {v w : Value} (hv : v.Printable d) (hw : w.Printable d)
    (h : dumps v = dumps w) : v = w := by
  have hread := loads_dumps hv
  rw [h, loads_dumps hw] at hread
  exact (Option.some.inj hread).symm

/-! ## no control characters -/

def NoControl (cs : List Char) : Prop := ∀ c ∈ cs, 32 ≤ c.toNat

instance (cs : List Char) : Decidable (NoControl cs) :=
  List.decidableBAll (fun c : Char => 32 ≤ c.toNat) cs

theorem noControl_append {cs ds : List Char} :
    NoControl (cs ++ ds) ↔ NoControl cs ∧ NoControl ds := List.forall_mem_append

theorem noControl_cons {c : Char} {cs : List Char} :
    NoControl (c :: cs) ↔ 32 ≤ c.toNat ∧ NoControl cs := List.forall_mem_cons

theorem isDigit_noControl {c : Char} (h : c.isDigit = true) : 32 ≤ c.toNat := by
  simp only [Char.isDigit, Bool.and_eq_true, decide_eq_true_eq] at h
  have h0 : (48 : Nat) ≤ c.val.toNat := h.1
  exact Nat.le_trans (by decide) h0

theorem takeWhile_noControl (cs : List Char) : NoControl (cs.takeWhile Char.isDigit) :=
  fun _ h => isDigit_noControl (List.mem_takeWhile_imp h)

theorem toDigits_noControl (n : Nat) : NoControl (Nat.toDigits 10 n) := fun _ h =>
  isDigit_noControl (Nat.isDigit_of_mem_toDigits (by decide) (by decide) h)

theorem intText_noControl (n : Int) : NoControl (intText n) := by
  cases n with
  | ofNat n => exact toDigits_noControl n
  | negSucc n => exact noControl_cons.2 ⟨by decide, toDigits_noControl (n + 1)⟩

theorem integral_noControl {t ds rest : List Char} (h : integral t = some (ds, rest)) :
    NoControl ds := by
  cases t with
  | nil => exact nomatch h
  | cons c t =>
    rw [integral] at h
    split_ifs at h
    · cases h
      exact noControl_cons.2 ⟨by decide, fun _ h => nomatch h⟩
    · cases h
      exact takeWhile_noControl _

theorem fraction_noControl (t : List Char) : NoControl (fraction t).1 := by
  unfold fraction
  split
  · split
    · exact noControl_cons.2 ⟨by decide, takeWhile_noControl _⟩
    · exact fun _ h => nomatch h
  · exact fun _ h => nomatch h

theorem expSign_noControl (t : List Char) : NoControl (expSign t).1 := by
  unfold expSign
  split
  · exact noControl_cons.2 ⟨by decide, fun _ h => nomatch h⟩
  · exact noControl_cons.2 ⟨by decide, fun _ h => nomatch h⟩
  · exact fun _ h => nomatch h

theorem exponent_noControl (t : List Char) : NoControl (exponent t).1 := by
  cases t with
  | nil => exact fun _ h => nomatch h
  | cons e t =>
    rw [exponent_cons]
    split_ifs with h1 h2
    · refine noControl_append.2 ⟨noControl_cons.2 ⟨?_, expSign_noControl t⟩, takeWhile_noControl _⟩
      rcases h1 with rfl | rfl <;> decide
    · exact fun _ h => nomatch h
    · exact fun _ h => nomatch h

theorem unsigned_noControl {negative : Bool} {t u rest : List Char}
    (h : unsigned negative t = some (.float u, rest)) : NoControl u := by
  unfold unsigned at h
  cases hi : integral t with
  | none => rw [hi] at h; exact nomatch h
  | some x =>
    obtain ⟨ds, r⟩ := x
    rw [hi] at h
    simp only [Option.bind_eq_bind, Option.bind_some] at h
    split at h
    · split at h
      · exact nomatch h
      · exact nomatch h
    · simp only [Option.pure_def, Option.some.injEq, Prod.mk.injEq, Value.float.injEq] at h
      rw [← h.1]
      have hsign : NoControl (if negative = true then ['-'] else []) := by
        cases negative
        · exact fun _ h => nomatch h
        · exact noControl_cons.2 ⟨by decide, fun _ h => nomatch h⟩
      simp only [noControl_append]
      exact ⟨⟨⟨hsign, integral_noControl hi⟩, fraction_noControl r⟩, exponent_noControl _⟩

theorem float_noControl {t : List Char} (ht : isFloatText t = true) : NoControl t := by
  unfold isFloatText at ht
  split at ht
  · next u h =>
    obtain rfl := of_decide_eq_true ht
    unfold number at h
    split at h
    · exact unsigned_noControl h
    · exact unsigned_noControl h
  · exact nomatch ht

theorem digitChar_noControl : ∀ n < 16, 32 ≤ (Nat.digitChar n).toNat := by decide

theorem escape_noControl {n : Nat} (h : n < 127) : NoControl (escape n) := by
  have hall : ∀ n < 127, NoControl (escape n) := by decide
  exact hall n h

theorem digitChar_printable (n : Nat) : 32 ≤ (Nat.digitChar n).toNat := by
  by_cases h : n < 16
  · exact digitChar_noControl n h
  · unfold Nat.digitChar
    simp only [show ∀ k, k < 16 → n ≠ k by omega, ↓reduceIte, Nat.reduceLT]
    decide

theorem unicodeEscape_noControl (n : Nat) : NoControl (unicodeEscape n) := by
  intro c hc
  simp only [unicodeEscape, List.mem_cons, List.not_mem_nil, or_false] at hc
  rcases hc with rfl | rfl | rfl | rfl | rfl | rfl
  · decide
  · decide
  all_goals exact digitChar_printable _

theorem escapeRaw_noControl {p : Nat} (hp : Scalar p) : NoControl (escapeRaw p) := by
  rw [escapeRaw]
  split
  · next h => exact escape_noControl h
  · next h =>
    refine noControl_cons.2 ⟨?_, fun _ h => nomatch h⟩
    rw [toNat_ofNat_of_scalar hp]
    omega

theorem quote_noControl {s : List Nat} (hs : ∀ p ∈ s, Scalar p) : NoControl (quote escapeRaw s) := by
  refine noControl_append.2 ⟨noControl_cons.2 ⟨by decide, ?_⟩,
    noControl_cons.2 ⟨by decide, fun _ h => nomatch h⟩⟩
  intro c hc
  obtain ⟨p, hp, hc⟩ := List.mem_flatMap.1 hc
  exact escapeRaw_noControl (hs p hp) c hc

mutual

/-- no line ends inside the text of a value -/
theorem dumpsRaw_noControl {d : Nat} : ∀ v : Value, v.Printable d → NoControl (write escapeRaw v)
  | .null, _ => by decide
  | .bool true, _ => by decide
  | .bool false, _ => by decide
  | .int n, _ => intText_noControl n
  | .float t, hv => float_noControl (by cases d <;> exact hv)
  | .str s, hv => quote_noControl (by cases d <;> exact hv)
  | .arr vs, hv => by
    cases d with
    | zero => exact hv.elim
    | succ d =>
      rw [write]
      exact noControl_append.2 ⟨noControl_cons.2 ⟨by decide, writeItems_noControl vs hv⟩, by decide⟩
  | .obj fs, hv => by
    cases d with
    | zero => exact hv.elim
    | succ d =>
      rw [write]
      exact noControl_append.2 ⟨noControl_cons.2 ⟨by decide, writeFields_noControl fs hv⟩, by decide⟩

theorem writeItems_noControl {d : Nat} :
    ∀ vs : List Value, PrintableItems d vs → NoControl (writeItems escapeRaw vs)
  | [], _ => by decide
  | v :: vs, hv => by
    rw [writeItems]
    exact noControl_append.2 ⟨dumpsRaw_noControl v hv.1, writeMore_noControl vs hv.2⟩

theorem writeMore_noControl {d : Nat} :
    ∀ vs : List Value, PrintableItems d vs → NoControl (writeMore escapeRaw vs)
  | [], _ => by decide
  | v :: vs, hv => by
    rw [writeMore]
    exact noControl_append.2
      ⟨noControl_cons.2 ⟨by decide, dumpsRaw_noControl v hv.1⟩, writeMore_noControl vs hv.2⟩

theorem writeFields_noControl {d : Nat} : ∀ fs : List (List Nat × Value), PrintableFields d fs →
    NoControl (writeFields escapeRaw fs)
  | [], _ => by decide
  | (k, v) :: fs, hv => by
    rw [writeFields]
    exact noControl_append.2 ⟨noControl_append.2 ⟨quote_noControl hv.1,
      noControl_cons.2 ⟨by decide, dumpsRaw_noControl v hv.2.1⟩⟩, writeMoreFields_noControl fs hv.2.2⟩

theorem writeMoreFields_noControl {d : Nat} : ∀ fs : List (List Nat × Value), PrintableFields d fs →
    NoControl (writeMoreFields escapeRaw fs)
  | [], _ => by decide
  | (k, v) :: fs, hv => by
    rw [writeMoreFields]
    exact noControl_append.2 ⟨noControl_append.2 ⟨noControl_cons.2 ⟨by decide, quote_noControl hv.1⟩,
      noControl_cons.2 ⟨by decide, dumpsRaw_noControl v hv.2.1⟩⟩, writeMoreFields_noControl fs hv.2.2⟩

end

/-- `ensure_ascii` leaves no control character -/
theorem escape_printable (n : Nat) : NoControl (escape n) := by
  by_cases h : n < 127
  · exact escape_noControl h
  · unfold escape
    split_ifs
    all_goals first
      | omega
      | exact unicodeEscape_noControl n
      | exact noControl_append.2 ⟨unicodeEscape_noControl _, unicodeEscape_noControl _⟩

theorem quote_printable (s : List Nat) : NoControl (quote escape s) := by
  refine noControl_append.2 ⟨noControl_cons.2 ⟨by decide, fun c hc => ?_⟩,
    noControl_cons.2 ⟨by decide, fun _ h => nomatch h⟩⟩
  obtain ⟨p, -, hc⟩ := List.mem_flatMap.1 hc
  exact escape_printable p c hc

/-- the numbers that are no integers are written without control characters -/
def PlainNumbers (leaves : List Leaf) : Prop := ∀ t, .number (.float t) ∈ leaves → NoControl t

theorem plainNumbers_append {a b : List Leaf} :
    PlainNumbers (a ++ b) ↔ PlainNumbers a ∧ PlainNumbers b := by
  constructor
  · intro h
    exact ⟨fun t ht => h t (List.mem_append_left _ ht), fun t ht => h t (List.mem_append_right _ ht)⟩
  · rintro ⟨ha, hb⟩ t ht
    rcases List.mem_append.1 ht with ht | ht
    · exact ha t ht
    · exact hb t ht

theorem plainNumbers_text {s : List Nat} {a : List Leaf} (h : PlainNumbers (.text s :: a)) :
    PlainNumbers a := fun t ht => h t (List.mem_cons_of_mem _ ht)

mutual

theorem dumps_noControl : ∀ v : Value, PlainNumbers v.leaves → NoControl (write escape v)
  | .null, _ | .bool true, _ | .bool false, _ => by
    simp only [write]
    decide
  | .int n, _ => intText_noControl n
  | .float t, h => h t (List.mem_singleton.2 rfl)
  | .str s, _ => quote_printable s
  | .arr vs, h => by
    rw [write]
    exact noControl_append.2 ⟨noControl_cons.2 ⟨by decide, dumpsItems_noControl vs h⟩, by decide⟩
  | .obj fs, h => by
    rw [write]
    exact noControl_append.2 ⟨noControl_cons.2 ⟨by decide, dumpsFields_noControl fs h⟩, by decide⟩

theorem dumpsItems_noControl : ∀ vs : List Value, PlainNumbers (leavesOfItems vs) →
    NoControl (writeItems escape vs)
  | [], _ => fun _ h => nomatch h
  | v :: vs, h => by
    rw [writeItems]
    obtain ⟨hv, hvs⟩ := plainNumbers_append.1 h
    exact noControl_append.2 ⟨dumps_noControl v hv, dumpsMore_noControl vs hvs⟩

theorem dumpsMore_noControl : ∀ vs : List Value, PlainNumbers (leavesOfItems vs) →
    NoControl (writeMore escape vs)
  | [], _ => fun _ h => nomatch h
  | v :: vs, h => by
    rw [writeMore]
    obtain ⟨hv, hvs⟩ := plainNumbers_append.1 h
    exact noControl_append.2
      ⟨noControl_cons.2 ⟨by decide, dumps_noControl v hv⟩, dumpsMore_noControl vs hvs⟩

theorem dumpsFields_noControl : ∀ fs : List (List Nat × Value), PlainNumbers (leavesOfFields fs) →
    NoControl (writeFields escape fs)
  | [], _ => fun _ h => nomatch h
  | (k, v) :: fs, h => by
    rw [writeFields]
    obtain ⟨hv, hfs⟩ := plainNumbers_append.1 (plainNumbers_text h)
    exact noControl_append.2
      ⟨noControl_append.2 ⟨quote_printable k, noControl_cons.2 ⟨by decide, dumps_noControl v hv⟩⟩,
        dumpsMoreFields_noControl fs hfs⟩

theorem dumpsMoreFields_noControl : ∀ fs : List (List Nat × Value), PlainNumbers (leavesOfFields fs) →
    NoControl (writeMoreFields escape fs)
  | [], _ => fun _ h => nomatch h
  | (k, v) :: fs, h => by
    rw [writeMoreFields]
    obtain ⟨hv, hfs⟩ := plainNumbers_append.1 (plainNumbers_text h)
    exact noControl_append.2
      ⟨noControl_append.2 ⟨noControl_cons.2 ⟨by decide, quote_printable k⟩,
        noControl_cons.2 ⟨by decide, dumps_noControl v hv⟩⟩, dumpsMoreFields_noControl fs hfs⟩

end

/-! ## a value is no larger than its text -/

mutual

/-- how many characters a value takes at least -/
def Value.size : Value → Nat
  | .str s => s.length + 2
  | .arr vs => sizeOfItems vs + 2
  | .obj fs => sizeOfFields fs + 2
  | _ => 1

def sizeOfItems : List Value → Nat
  | [] => 0
  | v :: vs => v.size + sizeOfItems vs

def sizeOfFields : List (List Nat × Value) → Nat
  | [] => 0
  | (k, v) :: fs => k.length + 2 + v.size + sizeOfFields fs

end

theorem length_skip_le (cs : List Char) : (skip cs).length ≤ cs.length :=
  (List.dropWhile_suffix _).length_le

/-- a character that stands there is passed over -/
theorem length_tail_skip {cs : List Char} {c : Char} (h : (skip cs).head? = some c) :
    (skip cs).tail.length + 1 ≤ cs.length := by
  have hle := length_skip_le cs
  cases hs : skip cs with
  | nil => rw [hs] at h; exact nomatch h
  | cons x xs =>
    rw [hs] at hle
    exact hle

theorem hex4_length {cs r : List Char} {x : Nat} (h : hex4 cs = some (x, r)) :
    r.length + 4 ≤ cs.length := by
  unfold hex4 at h
  split at h
  · simp only [Option.bind_eq_bind, Option.bind_eq_some_iff, Option.pure_def, Option.some.injEq,
      Prod.mk.injEq] at h
    obtain ⟨_, _, _, _, _, _, _, _, _, rfl⟩ := h
    simp
  · exact nomatch h

theorem unicode_length {cs r : List Char} {x : Nat} (h : unicode cs = some (x, r)) :
    r.length < cs.length := by
  rw [unicode] at h
  obtain ⟨⟨n, ds⟩, hn, h⟩ := Option.bind_eq_some_iff.1 h
  have hds := hex4_length hn
  dsimp only at h
  split at h
  · split at h
    · next m es hm =>
      obtain ⟨-, rfl⟩ := Prod.mk.inj (Option.some.inj h)
      unfold lowSurrogate at hm
      split at hm
      · obtain ⟨⟨k, fs⟩, hk, hm⟩ := Option.bind_eq_some_iff.1 hm
        have hfs := hex4_length hk
        dsimp only at hm
        split at hm
        · cases hm
          simp only [List.length_cons] at hds
          omega
        · exact nomatch hm
      · exact nomatch hm
    · cases h
      omega
  · cases h
    omega

theorem unescape_length {cs r : List Char} {x : Nat} (h : unescape cs = some (x, r)) :
    r.length < cs.length := by
  cases cs with
  | nil => exact nomatch h
  | cons c cs =>
    rw [unescape] at h
    split_ifs at h
    · exact (unicode_length h).trans (Nat.lt_succ_self _)
    all_goals
      cases h
      exact Nat.lt_succ_self _

theorem string_length : ∀ (n : Nat) {cs r : List Char} {s : List Nat}, string n cs = some (s, r) →
    s.length + 1 + r.length ≤ cs.length := by
  intro n
  induction n with
  | zero => exact fun h => nomatch h
  | succ n ih =>
    intro cs r s h
    cases cs with
    | nil => exact nomatch h
    | cons c cs =>
      rw [string] at h
      split_ifs at h
      · cases h
        simp only [List.length_cons, List.length_nil]
        omega
      · obtain ⟨⟨x, ds⟩, hx, h⟩ := Option.bind_eq_some_iff.1 h
        obtain ⟨⟨t, es⟩, ht, h⟩ := Option.bind_eq_some_iff.1 h
        cases h
        have h1 := unescape_length hx
        have h2 := ih ht
        simp only [List.length_cons]
        omega
      · obtain ⟨⟨t, es⟩, ht, h⟩ := Option.bind_eq_some_iff.1 h
        cases h
        have h2 := ih ht
        simp only [List.length_cons]
        omega

theorem integral_length {cs ds r : List Char} (h : integral cs = some (ds, r)) :
    r.length < cs.length := by
  cases cs with
  | nil => exact nomatch h
  | cons c cs =>
    rw [integral] at h
    split_ifs at h with h0 hd
    · cases h
      exact Nat.lt_succ_self _
    · cases h
      rw [List.dropWhile_cons_of_pos hd]
      exact Nat.lt_succ_of_le (List.dropWhile_suffix _).length_le

theorem fraction_length (cs : List Char) : (fraction cs).2.length ≤ cs.length := by
  unfold fraction
  split
  · split
    · exact (List.dropWhile_suffix _).length_le.trans (Nat.le_succ _)
    · exact Nat.le_refl _
  · exact Nat.le_refl _

theorem exponent_length (cs : List Char) : (exponent cs).2.length ≤ cs.length := by
  cases cs with
  | nil => exact Nat.le_refl _
  | cons e cs =>
    rw [exponent_cons]
    have hsign : (expSign cs).2.length ≤ cs.length := by
      unfold expSign
      split <;> simp
    split_ifs
    · exact ((List.dropWhile_suffix _).length_le.trans hsign).trans (Nat.le_succ _)
    · exact Nat.le_refl _
    · exact Nat.le_refl _

theorem unsigned_length {negative : Bool} {cs r : List Char} {v : Value}
    (h : unsigned negative cs = some (v, r)) : v.size + r.length ≤ cs.length := by
  rw [unsigned] at h
  obtain ⟨⟨ds, es⟩, hi, h⟩ := Option.bind_eq_some_iff.1 h
  have h1 := integral_length hi
  have h2 := fraction_length es
  have h3 := exponent_length (fraction es).2
  dsimp only at h
  split_ifs at h
  all_goals
    cases h
    simp only [Value.size]
    omega

theorem number_length {cs r : List Char} {v : Value} (h : number cs = some (v, r)) :
    v.size + r.length ≤ cs.length := by
  unfold number at h
  split at h
  · exact (unsigned_length h).trans (Nat.le_succ _)
  · exact unsigned_length h

theorem literal_length {word cs r : List Char} {v w : Value} (hv : v.size = 1)
    (h : literal word v cs = some (w, r)) : w.size + r.length ≤ cs.length + 1 := by
  rw [literal] at h
  split_ifs at h
  cases h
  rw [hv, List.length_drop]
  omega

/-- what is read takes the text it is read from -/
structure Fits (n : Nat) : Prop where
  value : ∀ {d : Nat} {cs r : List Char} {v : Value}, Json.value n d cs = some (v, r) →
    v.size + r.length ≤ cs.length
  members : ∀ {d : Nat} {cs r : List Char} {fs : List (List Nat × Value)},
    Json.members n d cs = some (fs, r) → sizeOfFields fs + 1 + r.length ≤ cs.length
  items : ∀ {d : Nat} {cs r : List Char} {vs : List Value},
    Json.items n d cs = some (vs, r) → sizeOfItems vs + 1 + r.length ≤ cs.length

theorem fits_value {n : Nat} (h : Fits n) {d : Nat} {cs r : List Char} {v : Value}
    (hv : value (n + 1) d cs = some (v, r)) : v.size + r.length ≤ cs.length := by
  cases cs with
  | nil => exact nomatch hv
  | cons c cs =>
    have hskip := length_skip_le cs
    rw [value] at hv
    simp only [List.length_cons]
    split_ifs at hv with _ _ _ hclose _ _ hclose
    · obtain ⟨⟨s, es⟩, hs, hv⟩ := Option.map_eq_some_iff.1 hv
      cases hv
      have hlen := string_length n hs
      simp only [Value.size]
      omega
    · cases hv
      have hlen := length_tail_skip hclose
      simp only [Value.size, sizeOfFields]
      omega
    · obtain ⟨⟨fs, es⟩, hs, hv⟩ := Option.map_eq_some_iff.1 hv
      cases hv
      have hlen := h.members hs
      simp only [Value.size]
      omega
    · cases hv
      have hlen := length_tail_skip hclose
      simp only [Value.size, sizeOfItems]
      omega
    · obtain ⟨⟨vs, es⟩, hs, hv⟩ := Option.map_eq_some_iff.1 hv
      cases hv
      have hlen := h.items hs
      simp only [Value.size]
      omega
    · exact literal_length rfl hv
    · exact literal_length rfl hv
    · exact literal_length rfl hv
    · exact number_length hv

theorem fits_members {n : Nat} (h : Fits n) {d : Nat} {cs r : List Char}
    {fs : List (List Nat × Value)} (hm : members (n + 1) d cs = some (fs, r)) :
    sizeOfFields fs + 1 + r.length ≤ cs.length := by
  cases cs with
  | nil => exact nomatch hm
  | cons c cs =>
    rw [members] at hm
    split_ifs at hm
    obtain ⟨⟨k, ds⟩, hk, hm⟩ := Option.bind_eq_some_iff.1 hm
    have hkey := string_length n hk
    dsimp only at hm
    split_ifs at hm with hcolon
    obtain ⟨⟨v, es⟩, hv, hm⟩ := Option.bind_eq_some_iff.1 hm
    have hval := h.value hv
    have hs1 := length_tail_skip hcolon
    have hs2 := length_skip_le (skip ds).tail
    dsimp only at hm
    simp only [List.length_cons]
    split_ifs at hm with hclose hcomma
    · cases hm
      have hs3 := length_tail_skip hclose
      simp only [sizeOfFields]
      omega
    · obtain ⟨⟨gs, rs⟩, hg, hm⟩ := Option.bind_eq_some_iff.1 hm
      cases hm
      have hrest := h.members hg
      have hs3 := length_tail_skip hcomma
      have hs4 := length_skip_le (skip es).tail
      simp only [sizeOfFields]
      omega

theorem fits_items {n : Nat} (h : Fits n) {d : Nat} {cs r : List Char} {vs : List Value}
    (hi : items (n + 1) d cs = some (vs, r)) : sizeOfItems vs + 1 + r.length ≤ cs.length := by
  rw [items] at hi
  obtain ⟨⟨v, es⟩, hv, hi⟩ := Option.bind_eq_some_iff.1 hi
  have hval := h.value hv
  dsimp only at hi
  split_ifs at hi with hclose hcomma
  · cases hi
    have hs := length_tail_skip hclose
    simp only [sizeOfItems]
    omega
  · obtain ⟨⟨ws, rs⟩, hw, hi⟩ := Option.bind_eq_some_iff.1 hi
    cases hi
    have hrest := h.items hw
    have hs1 := length_tail_skip hcomma
    have hs2 := length_skip_le (skip es).tail
    simp only [sizeOfItems]
    omega

theorem fits (n : Nat) : Fits n := by
  induction n with
  | zero => exact ⟨fun h => (nomatch h), fun h => (nomatch h), fun h => (nomatch h)⟩
  | succ n ih => exact ⟨fits_value ih, fits_members ih, fits_items ih⟩

theorem loads_size {d : Nat} {text : List Char} {v : Value} (h : loads d text = some v) :
    v.size ≤ text.length := by
  rw [loads] at h
  split_ifs at h
  obtain ⟨⟨w, rest⟩, hw, h⟩ := Option.bind_eq_some_iff.1 h
  have hfit := (fits _).value hw
  have hskip := length_skip_le text
  dsimp only at h
  split_ifs at h
  cases h
  omega

end Json

import Netops.Lib.Dict

/-!
# The FortiOS configuration parser

`netops_core/fortios.py`: words of a line, logical lines (a quoted value may span several physical
lines) and the tree of `config`, `edit`, `set` and `unset`.

* `tokenize`, `quoteState`, `logicalLines`;
* `Node`        sections (`sub`), entries and attributes, each in the order of the text.  The path of
                a node is where it stands in the tree, so it is not stored;
* `parse`       line by line over a stack of open blocks;
* `Node.Distinct`, `parse_distinct`   no name occurs twice among the items of a node.
-/

namespace Netops.Fortios

abbrev Text := List Char

instance : LawfulBEq Text := inferInstance
instance : LawfulBEq (List Text) := inferInstance

def maxDepth : Nat := 64
def vdomSection : Text := "vdom".toList

/-- the characters that `str.strip` removes -/
def isSpace (c : Char) : Bool :=
  let n := c.toNat
  (9 ≤ n && n ≤ 13) || (28 ≤ n && n ≤ 32) || n = 133 || n = 160 || n = 5760 ||
    (8192 ≤ n && n ≤ 8202) || n = 8232 || n = 8233 || n = 8239 || n = 8287 || n = 12288

def strip (t : Text) : Text := ((t.dropWhile isSpace).reverse.dropWhile isSpace).reverse

/-! ## words -/

def isBlank (c : Char) : Bool := c = ' ' || c = '\t'

/-- an empty value written as two apostrophes: the second apostrophe and the end of the word -/
def emptyValueAt : Text → Bool
  | '\'' :: '\'' :: rest => match rest with
    | [] => true
    | c :: _ => isBlank c
  | _ => false

/-- the words of the rest of a line, with the word at hand (`current`, and whether it was `quoted`) -/
def tokenizeFrom (current : Text) (inQuotes escaped quoted skip : Bool) : Text → List Text
  | [] => if current ≠ [] ∨ quoted then [current] else []
  | char :: rest =>
    if skip then tokenizeFrom current inQuotes escaped quoted false rest
    else if escaped then tokenizeFrom (current ++ [char]) inQuotes false quoted false rest
    else if char = '\\' ∧ inQuotes then tokenizeFrom current inQuotes true quoted false rest
    else if !inQuotes ∧ current = [] ∧ !quoted ∧ emptyValueAt (char :: rest) then
      tokenizeFrom current inQuotes false true true rest
    else if char = '"' then tokenizeFrom current (!inQuotes) false true false rest
    else if isBlank char ∧ !inQuotes then
      if current ≠ [] ∨ quoted then current :: tokenizeFrom [] inQuotes false false false rest
      else tokenizeFrom current inQuotes false quoted false rest
    else tokenizeFrom (current ++ [char]) inQuotes false quoted false rest

def tokenize (text : Text) : List Text := tokenizeFrom [] false false false false text

/-! ## lines -/

/-- `_quote_state`: inside of quotes, after a backslash -/
def quoteState : Bool × Bool → Text → Bool × Bool
  | state, [] => state
  | (inQuotes, escaped), char :: rest =>
    if escaped then quoteState (inQuotes, false) rest
    else if char = '\\' ∧ inQuotes then quoteState (inQuotes, true) rest
    else if char = '"' then quoteState (!inQuotes, false) rest
    else quoteState (inQuotes, false) rest

/-- `text.split("\n")` -/
def splitLines : Text → List Text
  | [] => [[]]
  | c :: cs =>
    if c = '\n' then [] :: splitLines cs
    else match splitLines cs with
      | [] => [[c]]
      | l :: ls => (c :: l) :: ls

/-- a carriage return at the end of the line is dropped -/
def dropReturn (line : Text) : Text := if line.getLast? = some '\r' then line.dropLast else line

def physicalLines (text : Text) : List Text :=
  let lines := splitLines text
  (if lines.getLast? = some [] then lines.dropLast else lines).map dropReturn

/-- an open quoted value: where it starts, its text and the state of the quotes -/
structure Pending where
  start : Nat
  text : Text
  state : Bool × Bool

/-- the logical lines with their numbers; the number of a line whose quotes stay open -/
def joinLines : Nat → Option Pending → List Text → List (Nat × Text) × Option Nat
  | _, none, [] => ([], none)
  | _, some p, [] => ([], some p.start)
  | number, pending, line :: rest =>
    let p : Pending := match pending with
      | none => ⟨number, line, quoteState (false, false) line⟩
      | some p => ⟨p.start, p.text ++ '\n' :: line, quoteState p.state ('\n' :: line)⟩
    if p.state.1 then joinLines (number + 1) (some p) rest
    else
      let (lines, cut) := joinLines (number + 1) none rest
      ((p.start, p.text) :: lines, cut)

def logicalLines (text : Text) : List (Nat × Text) × Option Nat :=
  joinLines 1 none (physicalLines text)

/-! ## the tree -/

structure Attr where
  values : List Text
  line : Nat
  unset : Bool
  deriving DecidableEq

inductive Node where
  | mk (line : Nat) (attrs : List (Text × Attr)) (sub entries : List (Text × Node))
      (configTokens : List Text)

namespace Node

def line : Node → Nat | mk l _ _ _ _ => l
def attrs : Node → List (Text × Attr) | mk _ a _ _ _ => a
def sub : Node → List (Text × Node) | mk _ _ s _ _ => s
def entries : Node → List (Text × Node) | mk _ _ _ e _ => e
def configTokens : Node → List Text | mk _ _ _ _ t => t

def empty (line : Nat) (configTokens : List Text) : Node := mk line [] [] [] configTokens

end Node

/-- how a node hangs in its parent -/
inductive Kind where
  | config | edit
  deriving DecidableEq, Repr

def Node.children (n : Node) : Kind → List (Text × Node)
  | .config => n.sub
  | .edit => n.entries

/-- the child of this name is set -/
def Node.setChild (n : Node) (kind : Kind) (name : Text) (child : Node) : Node :=
  match kind with
  | .config => .mk n.line n.attrs (Dict.set name child n.sub) n.entries n.configTokens
  | .edit => .mk n.line n.attrs n.sub (Dict.set name child n.entries) n.configTokens

def Node.setAttr (n : Node) (name : Text) (attr : Attr) : Node :=
  .mk n.line (Dict.set name attr n.attrs) n.sub n.entries n.configTokens

/-! ## the parser -/

inductive ParseError where
  /-- blocks nest deeper than `maxDepth` levels -/
  | tooDeep (line : Nat)
  /-- `set` or `unset` without an attribute -/
  | noAttribute (command : Text) (line : Nat)
  /-- `next` or `end` outside of a block -/
  | outside (command : Text) (line : Nat)
  /-- an unterminated quoted value (`TruncatedError`) -/
  | openQuote (line : Nat)
  /-- an unterminated block (`TruncatedError`) -/
  | openBlock (line : Nat)
  deriving DecidableEq, Repr

/-- an open block is put back into its parent when it is closed -/
structure Above where
  kind : Kind
  name : Text
  parent : Node

/-- the node at hand and the blocks it stands in, the innermost first -/
structure Stack where
  node : Node
  above : List Above

/-- the node of this name becomes the one at hand, a new one if there is none -/
def Stack.open (s : Stack) (kind : Kind) (name : Text) (fresh : Node) : Stack :=
  ⟨(Dict.get name (s.node.children kind)).getD fresh, ⟨kind, name, s.node⟩ :: s.above⟩

def Stack.close (s : Stack) : Stack :=
  match s.above with
  | [] => s
  | a :: above => ⟨a.parent.setChild a.kind a.name s.node, above⟩

/-- `end` inside of an entry of the VDOM section closes both -/
def Stack.inVdom (s : Stack) : Bool :=
  match s.above with
  | [_, a] => a.name = vdomSection
  | _ => false

def joinWords : List Text → Text
  | [] => []
  | [w] => w
  | w :: ws => w ++ ' ' :: joinWords ws

/-- the attribute that `set` or `unset` leaves -/
def attrOf (command : Text) (line : Nat) (values : List Text) : Attr :=
  if command = "unset".toList then ⟨[], line, true⟩ else ⟨values, line, false⟩

/-- one logical line -/
def parseLine (s : Stack) (number : Nat) (raw : Text) : Except ParseError Stack :=
  let line := strip raw
  if line = [] ∨ line.head? = some '#' then .ok s
  else match tokenize line with
    | [] => .ok s
    | command :: words =>
      if (command = "config".toList ∨ command = "edit".toList) ∧ s.above.length + 1 > maxDepth then
        .error (.tooDeep number)
      else if command = "config".toList then
        .ok (s.open .config (joinWords words) (.empty number words))
      else if command = "edit".toList then
        .ok (s.open .edit (words.headD []) (.empty number []))
      else if command = "set".toList ∨ command = "unset".toList then
        match words with
        | [] => .error (.noAttribute command number)
        | name :: values => .ok { s with node := s.node.setAttr name (attrOf command number values) }
      else if command = "next".toList ∨ command = "end".toList then
        if s.above = [] then .error (.outside command number)
        else if command = "end".toList ∧ s.inVdom then .ok s.close.close
        else .ok s.close
      else .ok s

def parseLines : Stack → List (Nat × Text) → Except ParseError Stack
  | s, [] => .ok s
  | s, (number, raw) :: rest =>
    match parseLine s number raw with
    | .ok s => parseLines s rest
    | .error e => .error e

def parse (text : Text) : Except ParseError Node :=
  let (lines, cut) := logicalLines text
  match parseLines ⟨.empty 0 [], []⟩ lines, cut with
  | .error e, _ => .error e
  | .ok _, some start => .error (.openQuote start)
  | .ok s, none => if s.above = [] then .ok s.node else .error (.openBlock s.node.line)

/-! ## names are distinct -/

/-- no name occurs twice among the attributes, the sections or the entries, at any depth -/
inductive Node.Distinct : Node → Prop where
  | mk {n : Node} (attrs : (Dict.keys n.attrs).Nodup) (sub : (Dict.keys n.sub).Nodup)
      (entries : (Dict.keys n.entries).Nodup) (inSub : ∀ x ∈ n.sub, x.2.Distinct)
      (inEntries : ∀ x ∈ n.entries, x.2.Distinct) : n.Distinct

theorem Node.Distinct.empty (line : Nat) (tokens : List Text) : (Node.empty line tokens).Distinct :=
  .mk List.nodup_nil List.nodup_nil List.nodup_nil (fun _ h => nomatch h) (fun _ h => nomatch h)

theorem Node.Distinct.children {n : Node} (h : n.Distinct) (kind : Kind) :
    ∀ x ∈ n.children kind, x.2.Distinct := by
  cases h with
  | mk _ _ _ hsub hentries =>
    cases kind with
    | config => exact hsub
    | edit => exact hentries

theorem Node.Distinct.setAttr {n : Node} (h : n.Distinct) (name : Text) (attr : Attr) :
    (n.setAttr name attr).Distinct := by
  cases h with
  | mk hattrs hsub hentries hs he => exact .mk (Dict.nodup_keys_set _ _ hattrs) hsub hentries hs he

theorem Node.Distinct.setChild {n child : Node} (h : n.Distinct) (kind : Kind) (name : Text)
    (hc : child.Distinct) : (n.setChild kind name child).Distinct := by
  have hin : ∀ {d : List (Text × Node)}, (∀ x ∈ d, x.2.Distinct) →
      ∀ x ∈ Dict.set name child d, x.2.Distinct := by
    intro d hd x hx
    rcases Dict.mem_set hx with rfl | hx
    · exact hc
    · exact hd x hx
  cases h with
  | mk hattrs hsub hentries hs he =>
    cases kind with
    | config => exact .mk hattrs (Dict.nodup_keys_set _ _ hsub) hentries (hin hs) he
    | edit => exact .mk hattrs hsub (Dict.nodup_keys_set _ _ hentries) hs (hin he)

/-- the node at hand and the ones above it -/
def Stack.Distinct (s : Stack) : Prop := s.node.Distinct ∧ ∀ a ∈ s.above, a.parent.Distinct

theorem Stack.Distinct.open {s : Stack} (h : s.Distinct) (kind : Kind) (name : Text) {fresh : Node}
    (hf : fresh.Distinct) : (s.open kind name fresh).Distinct := by
  refine ⟨?_, fun a ha => ?_⟩
  · unfold Stack.open
    cases hg : Dict.get name (s.node.children kind) with
    | none => exact hf
    | some n => exact h.1.children kind _ (Dict.mem_of_get hg)
  · rcases List.mem_cons.mp ha with rfl | ha
    · exact h.1
    · exact h.2 a ha

theorem Stack.Distinct.close {s : Stack} (h : s.Distinct) : s.close.Distinct := by
  obtain ⟨node, above⟩ := s
  cases above with
  | nil => exact h
  | cons a above =>
    obtain ⟨hn, ha⟩ := h
    exact ⟨(ha a List.mem_cons_self).setChild a.kind a.name hn,
      fun b hb => ha b (List.mem_cons_of_mem _ hb)⟩

theorem parseLine_distinct {s s' : Stack} {number : Nat} {raw : Text} (h : s.Distinct)
    (hs : parseLine s number raw = .ok s') : s'.Distinct := by
  unfold parseLine at hs
  dsimp only at hs
  split at hs
  · cases hs
    exact h
  split at hs
  · cases hs
    exact h
  rename_i command words _
  split_ifs at hs
  · cases hs
    exact h.open _ _ (Node.Distinct.empty _ _)
  · cases hs
    exact h.open _ _ (Node.Distinct.empty _ _)
  · cases words with
    | nil => cases hs
    | cons name values =>
      cases hs
      exact ⟨h.1.setAttr _ _, h.2⟩
  · cases hs
    exact h.close.close
  · cases hs
    exact h.close
  · cases hs
    exact h

theorem parseLines_distinct {lines : List (Nat × Text)} {s s' : Stack} (h : s.Distinct)
    (hs : parseLines s lines = .ok s') : s'.Distinct := by
  induction lines generalizing s with
  | nil =>
    cases hs
    exact h
  | cons l lines ih =>
    obtain ⟨number, raw⟩ := l
    rw [parseLines] at hs
    split at hs
    · rename_i s1 h1
      exact ih (parseLine_distinct h h1) hs
    · cases hs

/-- **A parsed tree has no name twice in one place.** -/
theorem parse_distinct {text : Text} {root : Node} (h : parse text = .ok root) : root.Distinct := by
  unfold parse at h
  dsimp only at h
  split at h
  · cases h
  · cases h
  · rename_i s hs _
    split_ifs at h
    cases h
    have hstart : Stack.Distinct ⟨.empty 0 [], []⟩ :=
      ⟨Node.Distinct.empty _ _, fun _ h => nomatch h⟩
    exact (parseLines_distinct hstart hs).1

end Netops.Fortios

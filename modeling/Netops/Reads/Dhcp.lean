import Netops.Engine.Address
import Netops.Lib.Lines
import Netops.Lib.Patterns
import Netops.Lib.Utf8

/-!
# The bindings that a switch has seen (`switch_dhcp.py`)

`summarize` reads the whole text, and returns those bindings whose line starts between two places of it.

* `summarize`         the loop over the lines;
* `entries`           the bindings of the text with the places of their lines;
* `summarize_eq`      what is returned are the entries between the places;
* `bindings_append`   two pages that follow one another have the bindings of both.
-/

namespace Netops.SwitchDhcp

open Regex Patterns
open Netops.Fortios (Text isSpace)

inductive Heading where
  | client | server | client6 | server6
  deriving DecidableEq

def Heading.name : Heading → String
  | .client => "Client db"
  | .server => "Server db"
  | .client6 => "Client6 db"
  | .server6 => "Server6 db"

/-- `_SECTION` -/
def heading (line : Text) : Option Heading :=
  [Heading.client, .server, .client6, .server6].find? fun h =>
    fullMatch (.seq (lit (h.name ++ ":")) blanks) line

/-- `_HEADER` -/
def header (isWord : Char → Bool) : Regex Char :=
  sequence [blanks, lit "Flags", gap, lit "MAC Address", gap, lit "VLAN", gap, lit "Client IP",
    .unless (.char isWord), .star (noneIn "\n")]

/-- `_LEGEND` -/
def legend : Regex Char :=
  .seq (lit "Flags: S (Static), A (ARP Monitor), D (DHCP Monitor)") blanks

/-- `_IPV4` -/
def ipv4 : Regex Char :=
  .seq (between digit 1 3) (times (.seq (lit ".") (between digit 1 3)) 3)

/-- `_TIME` -/
def time : Regex Char :=
  .seq (between digit 1 5) (times (.seq (lit ":") (between digit 1 2)) 3)

def hexDigit : Regex Char :=
  .char fun c => ('0' ≤ c && c ≤ '9') || ('A' ≤ c && c ≤ 'F') || ('a' ≤ c && c ≤ 'f')

def mac : Regex Char := .seq (times hexDigit 2) (times (.seq (lit ":") (times hexDigit 2)) 5)

def port : Regex Char :=
  .seq (.char fun c => isAlnum c || c = '_') (upTo (.char fun c => isAlnum c || c = '_' || c = '.' || c = '-') 34)

/-- `_ROW` -/
def row : List (Regex Char) :=
  [blanks, maybe (.seq (between (oneIn "SAD") 1 3) gap), mac, gap, between digit 1 4, gap, ipv4, gap, time,
    gap, time, gap, port, .lazy (.seq gap (plus (.char (!isSpace ·)))), gap, ipv4, blanks]

structure Binding where
  flags : Text
  mac : Text
  vlan : Nat
  ip : Text
  lease : Text
  expiry : Text
  port : Text
  serverIp : Text
  deriving DecidableEq

/-- `_binding` -/
def binding (line : Text) : Option Binding :=
  match parts row (none, line) with
  | some [_, flags, mac, _, vlan, _, ip, _, lease, _, expiry, _, port, _, _, server, _] =>
    if 1 ≤ Engine.decimal vlan ∧ Engine.decimal vlan ≤ 4094 ∧ (Engine.address ip).isSome ∧
        (Engine.address server).isSome then
      some ⟨flags.filter fun c => c ≠ ' ' && c ≠ '\t', mac.map Char.toLower, Engine.decimal vlan, ip, lease,
        expiry, port, server⟩
    else none
  | _ => none

/-- where the loop is -/
structure Scan where
  heading : Option Heading := none
  seen : List Heading := []
  header : Bool := false
  legend : Bool := false
  ipv6 : Bool := false
  total : Nat := 0
  unreadable : Nat := 0
  bindings : List Binding := []
  position : Nat := 0

/-- `raw.rstrip("\r\n")` -/
def rstripEnds (raw : Text) : Text := (raw.reverse.dropWhile fun c => c = '\r' || c = '\n').reverse

section
variable (isWord : Char → Bool)

/-- the loop body -/
def Scan.step (start stop : Nat) (s : Scan) (raw : Text) : Scan :=
  let lineStart := s.position
  let s := { s with position := s.position + (Utf8.encode raw).length }
  let line := rstripEnds raw
  match SwitchDhcp.heading line with
  | some h => { s with heading := some h, seen := s.seen ++ [h] }
  | none =>
    if fullMatch SwitchDhcp.legend line then { s with legend := true, heading := none }
    else if line.all isSpace then s
    else match s.heading with
      | none => s
      | some .client6 => { s with ipv6 := true }
      | some .client =>
        if !s.header && fullMatch (SwitchDhcp.header isWord) line then { s with header := true }
        else match binding line with
          | none => { s with unreadable := s.unreadable + 1 }
          | some b =>
            { s with
              total := s.total + 1
              bindings := if start ≤ lineStart ∧ lineStart < stop then s.bindings ++ [b] else s.bindings }
      | some _ => s

inductive State where
  | incomplete | ok | empty
  deriving DecidableEq

structure Summary where
  state : State
  totalBindings : Nat
  unreadableRows : Nat
  ipv6RowsPresent : Bool
  bindings : List Binding

def Scan.summary (s : Scan) : Summary :=
  let complete := s.legend && (s.header || s.total + s.unreadable = 0) && s.seen.take 2 = [.client, .server]
  { state := if !complete || s.unreadable ≠ 0 then .incomplete else if s.total ≠ 0 then .ok else .empty
    totalBindings := s.total
    unreadableRows := s.unreadable
    ipv6RowsPresent := s.ipv6
    bindings := s.bindings }

def scan (text : Text) (start stop : Nat) : Scan :=
  (Lines.splitKeep text).foldl (Scan.step isWord start stop) {}

def summarize (text : Text) (start stop : Nat) : Summary := (scan isWord text start stop).summary

/-! ## what a line adds -/

/-- without the bindings, which are all that depends on the page -/
def Scan.bare (s : Scan) : Scan := { s with bindings := [] }

/-- the binding of a line -/
def Scan.found (s : Scan) (raw : Text) : Option Binding :=
  let line := rstripEnds raw
  if (SwitchDhcp.heading line).isSome || fullMatch SwitchDhcp.legend line || line.all isSpace ||
      s.heading ≠ some .client || (!s.header && fullMatch (SwitchDhcp.header isWord) line) then none
  else binding line

/-- a line changes the rest in the same way, whatever the page is -/
theorem step_eq (start stop : Nat) (s : Scan) (raw : Text) :
    s.step isWord start stop raw = { s.bare.step isWord 0 0 raw with
      bindings := s.bindings ++
        if start ≤ s.position ∧ s.position < stop then (s.found isWord raw).toList else [] } ∧
    (s.bare.step isWord 0 0 raw).bindings = [] ∧
    (s.bare.step isWord 0 0 raw).position = s.position + (Utf8.encode raw).length ∧
    (s.bare.step isWord 0 0 raw).total = s.total + (s.found isWord raw).toList.length := by
  obtain ⟨heading, seen, header, legend, ipv6, total, unreadable, bindings, position⟩ := s
  rcases hh : SwitchDhcp.heading (rstripEnds raw) with _ | h
  · cases hl : fullMatch SwitchDhcp.legend (rstripEnds raw) with
    | true => simp [Scan.step, Scan.found, Scan.bare, hh, hl]
    | false =>
      cases hs : (rstripEnds raw).all isSpace with
      | true => simp [Scan.step, Scan.found, Scan.bare, hh, hl, hs]
      | false =>
        rcases heading with _ | h
        · simp [Scan.step, Scan.found, Scan.bare, hh, hl, hs]
        · cases h with
          | client =>
            cases hc : (!header && fullMatch (SwitchDhcp.header isWord) (rstripEnds raw)) with
            | true => simp [Scan.step, Scan.found, Scan.bare, hh, hl, hs, hc]
            | false =>
              rcases hb : binding (rstripEnds raw) with _ | b
              · simp [Scan.step, Scan.found, Scan.bare, hh, hl, hs, hc, hb]
              · by_cases hp : start ≤ position ∧ position < stop <;>
                  simp [Scan.step, Scan.found, Scan.bare, hh, hl, hs, hc, hb, hp]
          | _ => simp [Scan.step, Scan.found, Scan.bare, hh, hl, hs]
  · simp [Scan.step, Scan.found, Scan.bare, hh]

theorem bare_step (start stop : Nat) (s : Scan) (raw : Text) :
    (s.step isWord start stop raw).bare = s.bare.step isWord 0 0 raw := by
  obtain ⟨h, hb, -⟩ := step_eq isWord start stop s raw
  rw [h, Scan.bare]
  dsimp only
  rw [← hb]

/-- the bindings of the lines with the places where their lines start -/
def entries : Scan → List Text → List (Nat × Binding)
  | _, [] => []
  | s, raw :: rest =>
    ((s.found isWord raw).toList.map fun b => (s.position, b)) ++ entries (s.step isWord 0 0 raw) rest

/-- between two places -/
def inPage (start stop : Nat) (x : Nat × Binding) : Bool := start ≤ x.1 && x.1 < stop

/-- what the loop has at the end -/
theorem foldl_step (start stop : Nat) (lines : List Text) : ∀ s : Scan,
    (lines.foldl (Scan.step isWord start stop) s).bindings
        = s.bindings ++ ((entries isWord s.bare lines).filter (inPage start stop)).map Prod.snd ∧
      (lines.foldl (Scan.step isWord start stop) s).total
        = s.total + (entries isWord s.bare lines).length := by
  induction lines with
  | nil => intro s; simp [entries]
  | cons raw rest ih =>
    intro s
    obtain ⟨h, hb, hp, ht⟩ := step_eq isWord start stop s raw
    obtain ⟨ih1, ih2⟩ := ih (s.step isWord start stop raw)
    have hbindings : (s.step isWord start stop raw).bindings = s.bindings ++
        if start ≤ s.position ∧ s.position < stop then (s.found isWord raw).toList else [] := by rw [h]
    have htotal : (s.step isWord start stop raw).total
        = s.total + (s.found isWord raw).toList.length := by rw [h, ← ht]
    have hfound : s.bare.found isWord raw = s.found isWord raw := rfl
    have hplace : s.bare.position = s.position := rfl
    rw [List.foldl_cons, ih1, ih2, bare_step, entries, hbindings, htotal, hfound, hplace]
    constructor
    · rw [List.filter_append, List.map_append, List.append_assoc]
      congr 2
      cases hf : s.found isWord raw with
      | none => simp
      | some b => by_cases hpage : start ≤ s.position ∧ s.position < stop <;> simp [inPage, hpage]
    · rw [List.length_append, List.length_map, Nat.add_assoc]

/-- the entries stand in the lines, one after the other -/
theorem entries_sorted (lines : List Text) (hlines : ∀ line ∈ lines, line ≠ []) : ∀ s : Scan,
    (entries isWord s lines).Pairwise (fun x y => x.1 < y.1) ∧
      ∀ x ∈ entries isWord s lines,
        s.position ≤ x.1 ∧ x.1 < s.position + (Utf8.encode lines.flatten).length := by
  induction lines with
  | nil => exact fun s => ⟨.nil, fun x hx => (nomatch hx)⟩
  | cons raw rest ih =>
    intro s
    obtain ⟨hsorted, hrange⟩ := ih (fun line h => hlines line (List.mem_cons_of_mem raw h))
      (s.step isWord 0 0 raw)
    have hplace : (s.step isWord 0 0 raw).position = s.position + (Utf8.encode raw).length := by
      obtain ⟨h, -, hp, -⟩ := step_eq isWord 0 0 s raw
      rw [h, ← hp]
    have hpos : 0 < (Utf8.encode raw).length := by
      obtain ⟨c, cs, rfl⟩ := List.exists_cons_of_ne_nil (hlines raw List.mem_cons_self)
      obtain ⟨b, bs, hb, -⟩ := Utf8.utf8EncodeChar_cons c
      rw [Utf8.encode_cons, hb]
      exact Nat.succ_pos _
    rw [hplace] at hrange
    have hsize : (Utf8.encode (raw :: rest).flatten).length
        = (Utf8.encode raw).length + (Utf8.encode rest.flatten).length := by
      rw [List.flatten_cons, Utf8.encode_append, List.length_append]
    have hnew : ∀ x ∈ (s.found isWord raw).toList.map (fun b => (s.position, b)), x.1 = s.position := by
      intro x hx
      obtain ⟨b, -, rfl⟩ := List.mem_map.1 hx
      rfl
    rw [entries, hsize]
    constructor
    · refine List.pairwise_append.2 ⟨?_, hsorted, fun x hx y hy => ?_⟩
      · cases s.found isWord raw with
        | none => exact .nil
        | some b => exact List.pairwise_singleton _ _
      · have := hrange y hy
        rw [hnew x hx]
        omega
    · intro x hx
      rcases List.mem_append.1 hx with hx | hx
      · rw [hnew x hx]
        omega
      · have := hrange x hx
        omega

/-- a list in the order of its places is cut by a place -/
theorem filter_inPage_append {xs : List (Nat × Binding)} (h : xs.Pairwise fun x y => x.1 < y.1)
    {a b c : Nat} (hab : a ≤ b) (hbc : b ≤ c) :
    xs.filter (inPage a b) ++ xs.filter (inPage b c) = xs.filter (inPage a c) := by
  induction xs with
  | nil => rfl
  | cons x xs ih =>
    obtain ⟨hx, hxs⟩ := List.pairwise_cons.1 h
    have hrest := ih hxs
    by_cases hlow : x.1 < b
    · have h1 : inPage b c x = false := by simp [inPage]; omega
      have h2 : inPage a b x = inPage a c x := by
        have : x.1 < c := by omega
        simp [inPage, hlow, this]
      rw [List.filter_cons, List.filter_cons, List.filter_cons, h1, h2, if_neg Bool.false_ne_true]
      split_ifs
      · rw [List.cons_append, hrest]
      · exact hrest
    · -- the places after this one are not before `b` either
      have hnone : (x :: xs).filter (inPage a b) = [] := by
        refine List.filter_eq_nil_iff.2 fun y hy => ?_
        have hle : b ≤ y.1 := by
          rcases List.mem_cons.1 hy with rfl | hy
          · omega
          · have := hx y hy
            omega
        simp [inPage]
        omega
      have hsame : (x :: xs).filter (inPage b c) = (x :: xs).filter (inPage a c) := by
        refine List.filter_congr fun y hy => ?_
        have hle : b ≤ y.1 := by
          rcases List.mem_cons.1 hy with rfl | hy
          · omega
          · have := hx y hy
            omega
        have hle' : a ≤ y.1 := by omega
        simp [inPage, hle, hle']
      rw [hnone, hsame, List.nil_append]

/-- the bindings of a text -/
def textEntries (text : Text) : List (Nat × Binding) := entries isWord {} (Lines.splitKeep text)

theorem textEntries_sorted (text : Text) :
    (textEntries isWord text).Pairwise (fun x y => x.1 < y.1) ∧
      ∀ x ∈ textEntries isWord text, x.1 < (Utf8.encode text).length := by
  obtain ⟨h, hr⟩ := entries_sorted isWord (Lines.splitKeep text) (fun _ h => Lines.splitKeep_ne_nil h) {}
  rw [Lines.flatten_splitKeep] at hr
  exact ⟨h, fun x hx => by simpa using (hr x hx).2⟩

/-- what is returned for a page -/
theorem bindings_eq (text : Text) (start stop : Nat) : (summarize isWord text start stop).bindings
    = ((textEntries isWord text).filter (inPage start stop)).map Prod.snd :=
  (foldl_step isWord start stop (Lines.splitKeep text) {}).1

theorem totalBindings_eq (text : Text) (start stop : Nat) :
    (summarize isWord text start stop).totalBindings = (textEntries isWord text).length :=
  (foldl_step isWord start stop (Lines.splitKeep text) {}).2.trans (Nat.zero_add _)

/-- **Pages that follow one another** have the bindings of the page that covers both. -/
theorem bindings_append (text : Text) {a b c : Nat} (hab : a ≤ b) (hbc : b ≤ c) :
    (summarize isWord text a b).bindings ++ (summarize isWord text b c).bindings
      = (summarize isWord text a c).bindings := by
  rw [bindings_eq, bindings_eq, bindings_eq, ← List.map_append,
    filter_inPage_append (textEntries_sorted isWord text).1 hab hbc]

/-- a page of the whole text has all bindings -/
theorem bindings_whole (text : Text) : (summarize isWord text 0 (Utf8.encode text).length).bindings
    = (textEntries isWord text).map Prod.snd := by
  rw [bindings_eq, List.filter_eq_self.2]
  intro x hx
  have := (textEntries_sorted isWord text).2 x hx
  simp [inPage, this]

end

end Netops.SwitchDhcp

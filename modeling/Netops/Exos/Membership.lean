import Mathlib.Data.Finset.Sort
import Mathlib.Data.Finset.Dedup
import Mathlib.Data.List.Lex
import Netops.Fortios.Parse

/-!
# VLAN memberships of a port of a switch (`membership.py`)

A port has one native VLAN, in which it is untagged, and a set of VLANs in which it is tagged.  A change
is written as a list of command lines.

* `Membership`   the dictionary that `states` and a request give for a port;
* `render`       the command lines that lead from one to the other;
* `Vlans`        the memberships on the switch, `execute` the meaning of a command line there;
* `executeAll_render`  the lines lead from `before` to `after`, and no line is refused.
-/

namespace Netops.Exos
open Netops.Fortios

/-! ## words -/

/-- what the loop of `str.split()` does, `word` being what has been read of a word -/
def splitFrom (word : Text) : Text → List Text
  | [] => if word = [] then [] else [word]
  | c :: cs =>
    if isSpace c then (if word = [] then [] else [word]) ++ splitFrom [] cs
    else splitFrom (word ++ [c]) cs

example (word : Text) : splitFrom word [] = if word = [] then [] else [word] := by rw [splitFrom]

/-- `str.split()` -/
def splitWords (t : Text) : List Text := splitFrom [] t

/-- not empty, and nothing in it is white space -/
def isWord (w : Text) : Bool := w ≠ [] ∧ w.all fun c => !isSpace c

theorem splitFrom_append {w : Text} (hw : w.all (fun c => !isSpace c) = true) (word rest : Text) :
    splitFrom word (w ++ rest) = splitFrom (word ++ w) rest := by
  induction w generalizing word with
  | nil => rw [List.nil_append, List.append_nil]
  | cons c w ih =>
    rw [List.all_cons, Bool.and_eq_true, Bool.not_eq_true'] at hw
    rw [List.cons_append, splitFrom, if_neg (by rw [hw.1]; exact Bool.false_ne_true), ih hw.2,
      List.append_assoc, List.singleton_append]

theorem splitWords_cons {w rest : Text} (hw : isWord w = true) :
    splitWords (w ++ ' ' :: rest) = w :: splitWords rest := by
  obtain ⟨hne, hall⟩ := of_decide_eq_true hw
  have hblank : isSpace ' ' = true := by decide
  rw [splitWords, splitFrom_append hall, List.nil_append, splitFrom, if_pos hblank, if_neg hne]
  rfl

theorem splitWords_word {w : Text} (hw : isWord w = true) : splitWords w = [w] := by
  obtain ⟨hne, hall⟩ := of_decide_eq_true hw
  have h := splitFrom_append hall [] []
  rw [List.append_nil, List.nil_append] at h
  rw [splitWords, h, splitFrom, if_neg hne]

theorem splitWords_joinWords {ws : List Text} (h : ∀ w ∈ ws, isWord w = true) :
    splitWords (joinWords ws) = ws := by
  induction ws with
  | nil => rfl
  | cons w ws ih =>
    have hw := h w List.mem_cons_self
    cases ws with
    | nil => exact splitWords_word hw
    | cons v ws =>
      rw [joinWords, splitWords_cons hw, ih fun x hx => h x (List.mem_cons_of_mem _ hx)]
      exact fun hnil => (nomatch hnil)

theorem isWord_of_mem_flushed {word w : Text} (hword : word.all (fun c => !isSpace c) = true)
    (h : w ∈ (if word = [] then [] else [word])) : isWord w = true := by
  split_ifs at h with hne
  · exact absurd h List.not_mem_nil
  · rw [List.mem_singleton.mp h]
    exact decide_eq_true ⟨hne, hword⟩

theorem isWord_of_mem_splitFrom {word t w : Text} (hword : word.all (fun c => !isSpace c) = true)
    (h : w ∈ splitFrom word t) : isWord w = true := by
  induction t generalizing word with
  | nil => exact isWord_of_mem_flushed hword h
  | cons c t ih =>
    rw [splitFrom] at h
    by_cases hc : isSpace c = true
    · rw [if_pos hc, List.mem_append] at h
      rcases h with h | h
      · exact isWord_of_mem_flushed hword h
      · exact ih rfl h
    · rw [if_neg hc] at h
      refine ih ?_ h
      simp [List.all_append, hword, hc]

/-! ## the memberships of a port -/

/-- the dictionary of a port; `tagged` may be missing in a request -/
structure Membership where
  untagged : Text
  tagged : Option Text

/-- `set(x.get("tagged", "").split())` -/
def Membership.names (m : Membership) : Finset Text := (splitWords (m.tagged.getD [])).toFinset

instance : IsTrans Text fun a b => a ≤ b := inferInstance
instance : Std.Antisymm fun a b : Text => a ≤ b := inferInstance
instance : Std.Total fun a b : Text => a ≤ b := inferInstance

/-- `"configure vlan %s delete ports %s" % (name, port)` -/
def deleteLine (port name : Text) : Text :=
  "configure vlan ".toList ++ name ++ " delete ports ".toList ++ port

/-- `"configure vlan %s add ports %s untagged" % (name, port)` -/
def addUntaggedLine (port name : Text) : Text :=
  "configure vlan ".toList ++ name ++ " add ports ".toList ++ port ++ " untagged".toList

/-- `"configure vlan %s add ports %s tagged" % (name, port)` -/
def addTaggedLine (port name : Text) : Text :=
  "configure vlan ".toList ++ name ++ " add ports ".toList ++ port ++ " tagged".toList

/-- `render` -/
def render (port : Text) (before after : Membership) : List Text :=
  let deletes := ((before.names \ after.names).sort.filter fun name => name ≠ after.untagged).map
    (deleteLine port)
  let moves :=
    if before.untagged ≠ after.untagged then
      (if after.untagged ∈ before.names then [deleteLine port after.untagged] else []) ++
        [addUntaggedLine port after.untagged]
    else []
  deletes ++ moves ++ (after.names \ before.names).sort.map (addTaggedLine port)

/-! ## the memberships on the switch -/

/-- the VLANs of a port -/
structure Vlans where
  untagged : Finset Text
  tagged : Finset Text
  deriving DecidableEq

inductive Command where
  | delete (vlan port : Text)
  | addUntagged (vlan port : Text)
  | addTagged (vlan port : Text)
  deriving DecidableEq

/-- the command that a line is -/
def Command.read (line : Text) : Option Command :=
  match splitWords line with
  | [configure, word, vlan, verb, ports, port] =>
    if [configure, word, verb, ports] =
      ["configure".toList, "vlan".toList, "delete".toList, "ports".toList] then some (.delete vlan port)
    else none
  | [configure, word, vlan, verb, ports, port, mode] =>
    if [configure, word, verb, ports] =
      ["configure".toList, "vlan".toList, "add".toList, "ports".toList] then
      if mode = "untagged".toList then some (.addUntagged vlan port)
      else if mode = "tagged".toList then some (.addTagged vlan port)
      else none
    else none
  | _ => none

/-- what the switch does with a command for a port; `none` where it refuses -/
def Vlans.step (v : Vlans) : Command → Option Vlans
  | .delete vlan _ => some ⟨v.untagged.erase vlan, v.tagged.erase vlan⟩
  | .addUntagged vlan _ => some ⟨{vlan}, v.tagged⟩
  | .addTagged vlan _ => if vlan ∈ v.untagged then none else some ⟨v.untagged, insert vlan v.tagged⟩

def Command.port : Command → Text
  | .delete _ port => port
  | .addUntagged _ port => port
  | .addTagged _ port => port

/-- a line is executed; the other ports stay as they are -/
def execute (switch : Text → Vlans) (line : Text) : Option (Text → Vlans) := do
  let command ← Command.read line
  let vlans ← (switch command.port).step command
  pure (Function.update switch command.port vlans)

def executeAll (switch : Text → Vlans) (lines : List Text) : Option (Text → Vlans) :=
  lines.foldlM execute switch

/-- exactly one native VLAN, which is not tagged too -/
structure PortState extends Membership where
  word : isWord untagged = true
  apart : untagged ∉ toMembership.names

def PortState.vlans (m : PortState) : Vlans := ⟨{m.untagged}, m.names⟩

theorem isWord_of_mem_names {m : Membership} {name : Text} (h : name ∈ m.names) : isWord name = true :=
  isWord_of_mem_splitFrom rfl (List.mem_toFinset.mp h)

/-! ## a line is read back -/

section
variable {port name : Text}

theorem all_isWord (hport : isWord port = true) (hname : isWord name = true) {verb : Text}
    (hverb : isWord verb = true) : ∀ w ∈ ["configure".toList, "vlan".toList, name, verb,
      "ports".toList, port], isWord w = true := by
  have h1 : isWord "configure".toList = true := by decide
  have h2 : isWord "vlan".toList = true := by decide
  have h3 : isWord "ports".toList = true := by decide
  intro w hw
  simp only [List.mem_cons, List.not_mem_nil, or_false] at hw
  rcases hw with rfl | rfl | rfl | rfl | rfl | rfl
  · exact h1
  · exact h2
  · exact hname
  · exact hverb
  · exact h3
  · exact hport

theorem read_deleteLine (hport : isWord port = true) (hname : isWord name = true) :
    Command.read (deleteLine port name) = some (.delete name port) := by
  have hline : deleteLine port name = joinWords ["configure".toList, "vlan".toList, name,
      "delete".toList, "ports".toList, port] := by
    unfold deleteLine
    simp [joinWords]
  have hwords := splitWords_joinWords (all_isWord hport hname (by decide : isWord "delete".toList = true))
  rw [Command.read, hline, hwords]
  rfl

/-- the two lines that add a port -/
theorem splitWords_addLine (hport : isWord port = true) (hname : isWord name = true) {mode : Text}
    (hmode : isWord mode = true) :
    splitWords ("configure vlan ".toList ++ name ++ " add ports ".toList ++ port ++ ' ' :: mode) =
      ["configure".toList, "vlan".toList, name, "add".toList, "ports".toList, port, mode] := by
  have hline : "configure vlan ".toList ++ name ++ " add ports ".toList ++ port ++ ' ' :: mode =
      joinWords ["configure".toList, "vlan".toList, name, "add".toList, "ports".toList, port, mode] := by
    simp [joinWords]
  rw [hline]
  refine splitWords_joinWords fun w hw => ?_
  have happ : ["configure".toList, "vlan".toList, name, "add".toList, "ports".toList, port, mode] =
      ["configure".toList, "vlan".toList, name, "add".toList, "ports".toList, port] ++ [mode] := rfl
  rw [happ, List.mem_append, List.mem_singleton] at hw
  rcases hw with hw | rfl
  · exact all_isWord hport hname (by decide) w hw
  · exact hmode

theorem read_addUntaggedLine (hport : isWord port = true) (hname : isWord name = true) :
    Command.read (addUntaggedLine port name) = some (.addUntagged name port) := by
  have hwords : splitWords (addUntaggedLine port name) = _ :=
    splitWords_addLine hport hname (by decide : isWord "untagged".toList = true)
  rw [Command.read, hwords]
  rfl

theorem read_addTaggedLine (hport : isWord port = true) (hname : isWord name = true) :
    Command.read (addTaggedLine port name) = some (.addTagged name port) := by
  have hwords : splitWords (addTaggedLine port name) = _ :=
    splitWords_addLine hport hname (by decide : isWord "tagged".toList = true)
  rw [Command.read, hwords]
  rfl

/-! ## the parts of the list of lines -/

variable {switch : Text → Vlans} {v v' : Vlans}

/-- a line that is read as a command for the port -/
theorem execute_update {line : Text} {command : Command} (hread : Command.read line = some command)
    (hport : command.port = port) (hstep : v.step command = some v') :
    execute (Function.update switch port v) line = some (Function.update switch port v') := by
  rw [execute, hread, Option.bind_eq_bind, Option.bind_some, hport, Function.update_self, hstep]
  show some (Function.update (Function.update switch port v) port v') = _
  rw [Function.update_idem]

theorem executeAll_append (lines lines' : List Text) (switch : Text → Vlans) :
    executeAll switch (lines ++ lines') = (executeAll switch lines).bind (executeAll · lines') :=
  List.foldlM_append

theorem executeAll_deletes (hport : isWord port = true) {names : List Text}
    (hnames : ∀ name ∈ names, isWord name = true) (v : Vlans) :
    executeAll (Function.update switch port v) (names.map (deleteLine port)) =
      some (Function.update switch port ⟨v.untagged \ names.toFinset, v.tagged \ names.toFinset⟩) := by
  induction names generalizing v with
  | nil => simp [executeAll]
  | cons name names ih =>
    have hline : execute (Function.update switch port v) (deleteLine port name) =
        some (Function.update switch port ⟨v.untagged.erase name, v.tagged.erase name⟩) :=
      execute_update (read_deleteLine hport (hnames name List.mem_cons_self)) rfl rfl
    rw [List.map_cons, executeAll, List.foldlM_cons, hline]
    show executeAll _ _ = _
    rw [ih fun x hx => hnames x (List.mem_cons_of_mem _ hx)]
    have herase : ∀ s : Finset Text,
        s.erase name \ names.toFinset = s \ (name :: names).toFinset := by
      intro s
      ext x
      simp only [Finset.mem_sdiff, Finset.mem_erase, List.mem_toFinset, List.mem_cons, not_or]
      tauto
    simp only [herase]

theorem executeAll_adds (hport : isWord port = true) {names : List Text}
    (hnames : ∀ name ∈ names, isWord name = true) (v : Vlans) (hv : ∀ name ∈ names, name ∉ v.untagged) :
    executeAll (Function.update switch port v) (names.map (addTaggedLine port)) =
      some (Function.update switch port ⟨v.untagged, v.tagged ∪ names.toFinset⟩) := by
  induction names generalizing v with
  | nil => simp [executeAll]
  | cons name names ih =>
    have hline : execute (Function.update switch port v) (addTaggedLine port name) =
        some (Function.update switch port ⟨v.untagged, insert name v.tagged⟩) :=
      execute_update (read_addTaggedLine hport (hnames name List.mem_cons_self)) rfl
        (if_neg (hv name List.mem_cons_self))
    rw [List.map_cons, executeAll, List.foldlM_cons, hline]
    show executeAll _ _ = _
    rw [ih (fun x hx => hnames x (List.mem_cons_of_mem _ hx)) ⟨v.untagged, insert name v.tagged⟩
      fun x hx => hv x (List.mem_cons_of_mem _ hx)]
    simp only [List.toFinset_cons, Finset.insert_union, Finset.union_insert]

end

/-- the lines about the native VLAN, after the deletions -/
theorem executeAll_native {port : Text} (hport : isWord port = true) (before after : PortState)
    (switch : Text → Vlans) :
    executeAll
      (Function.update switch port ⟨{before.untagged}, before.names \ ((before.names \ after.names).sort.filter
        fun name => name ≠ after.untagged).toFinset⟩)
      (if before.untagged ≠ after.untagged then
        (if after.untagged ∈ before.names then [deleteLine port after.untagged] else []) ++
          [addUntaggedLine port after.untagged]
      else []) =
    some (Function.update switch port ⟨{after.untagged}, before.names ∩ after.names⟩) := by
  have hdelete : ∀ v : Vlans, execute (Function.update switch port v) (deleteLine port after.untagged) =
      some (Function.update switch port ⟨v.untagged.erase after.untagged, v.tagged.erase after.untagged⟩) :=
    fun v => execute_update (read_deleteLine hport after.word) rfl rfl
  have hadd : ∀ v : Vlans, execute (Function.update switch port v) (addUntaggedLine port after.untagged) =
      some (Function.update switch port ⟨{after.untagged}, v.tagged⟩) :=
    fun v => execute_update (read_addUntaggedLine hport after.word) rfl rfl
  have hafter := after.apart
  by_cases hsame : before.untagged = after.untagged
  · -- the native VLAN stays, and it was not tagged before
    have hset : before.names \ ((before.names \ after.names).sort.filter
        fun name => name ≠ after.untagged).toFinset = before.names ∩ after.names := by
      have hbefore := before.apart
      rw [hsame] at hbefore
      ext x
      simp only [Finset.mem_sdiff, List.mem_toFinset, List.mem_filter, Finset.mem_sort, decide_eq_true_eq,
        Finset.mem_inter]
      have hx : x = after.untagged → x ∉ before.names := fun h => h ▸ hbefore
      tauto
    rw [if_neg (not_not_intro hsame), hset, hsame]
    rfl
  · rw [if_pos hsame]
    by_cases htagged : after.untagged ∈ before.names
    · have hset : (before.names \ ((before.names \ after.names).sort.filter
          fun name => name ≠ after.untagged).toFinset).erase after.untagged =
            before.names ∩ after.names := by
        ext x
        simp only [Finset.mem_sdiff, Finset.mem_erase, List.mem_toFinset, List.mem_filter,
          Finset.mem_sort, decide_eq_true_eq, Finset.mem_inter]
        have hx : x = after.untagged → x ∉ after.names := fun h => h ▸ hafter
        tauto
      rw [if_pos htagged, executeAll, List.singleton_append, List.foldlM_cons, hdelete, Option.bind_eq_bind,
        Option.bind_some, List.foldlM_cons, hadd, hset]
      rfl
    · have hset : before.names \ ((before.names \ after.names).sort.filter
          fun name => name ≠ after.untagged).toFinset = before.names ∩ after.names := by
        ext x
        simp only [Finset.mem_sdiff, List.mem_toFinset, List.mem_filter, Finset.mem_sort,
          decide_eq_true_eq, Finset.mem_inter]
        have hx : x = after.untagged → x ∉ before.names := fun h => h ▸ htagged
        tauto
      rw [if_neg htagged, executeAll, List.nil_append, List.foldlM_cons, hadd, hset]
      rfl

/-- the lines lead from `before` to `after` -/
theorem executeAll_forth {port : Text} (hport : isWord port = true) (before after : PortState)
    (switch : Text → Vlans) :
    executeAll (Function.update switch port before.vlans)
        (render port before.toMembership after.toMembership) =
      some (Function.update switch port after.vlans) := by
  have hdeletes : ∀ name ∈ (before.names \ after.names).sort.filter fun name => name ≠ after.untagged,
      name ∈ before.names := by
    intro name hname
    exact (Finset.mem_sdiff.mp ((Finset.mem_sort _).mp (List.mem_filter.mp hname).1)).1
  have hadds : ∀ name ∈ (after.names \ before.names).sort, name ∈ after.names := by
    intro name hname
    exact (Finset.mem_sdiff.mp ((Finset.mem_sort _).mp hname)).1
  have hnative : ({before.untagged} : Finset Text) \ ((before.names \ after.names).sort.filter
      fun name => name ≠ after.untagged).toFinset = {before.untagged} := by
    refine Finset.sdiff_eq_self_iff_disjoint.mpr (Finset.disjoint_singleton_left.mpr fun hmem => ?_)
    exact before.apart (hdeletes _ (List.mem_toFinset.mp hmem))
  have hfinal : before.names ∩ after.names ∪ (after.names \ before.names).sort.toFinset =
      after.names := by
    rw [Finset.sort_toFinset]
    ext x
    simp only [Finset.mem_union, Finset.mem_inter, Finset.mem_sdiff]
    tauto
  unfold render
  rw [executeAll_append, executeAll_append,
    executeAll_deletes hport (fun name hname => isWord_of_mem_names (hdeletes name hname)),
    Option.bind_some, PortState.vlans, hnative, executeAll_native hport, Option.bind_some,
    executeAll_adds hport (fun name hname => isWord_of_mem_names (hadds name hname)), hfinal]
  · rfl
  · intro name hname hmem
    rw [Finset.mem_singleton] at hmem
    exact after.apart (hmem ▸ hadds name hname)

/-- **The commands do what they predict.**  On a switch on which the port is as in `before`, no line is
refused, the port is then as in `after` and every other port as it was; the inverse leads back. -/
theorem executeAll_render (port : {port : Text // isWord port = true}) (before after : PortState)
    (switch : Text → Vlans) :
    executeAll (Function.update switch port before.vlans)
        (render port before.toMembership after.toMembership) =
      some (Function.update switch port after.vlans) ∧
    executeAll (Function.update switch port after.vlans)
        (render port after.toMembership before.toMembership) =
      some (Function.update switch port before.vlans) :=
  ⟨executeAll_forth port.2 before after switch, executeAll_forth port.2 after before switch⟩

end Netops.Exos

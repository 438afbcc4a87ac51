import Netops.Fortios.Words

/-!
# Printing a configuration

`fortios_text` of `netops_admin/prediction.py` and what the parser makes of its lines.

* `fortiosText`       the lines of a node;
* `Node.bare`         a node without what depends on the text around it: line numbers and the words
                      of a section's line;
* `Node.printable`    what the printer cannot write is not in the tree;
* `parse_fortiosText` a printable tree with distinct names is read back as it was.
-/

namespace Netops.Fortios

/-! ## the printer -/

/-- the line of an attribute -/
def attrLine (indent : Text) (x : Text × Attr) : Text :=
  if x.2.unset then indent ++ "unset ".toList ++ x.1
  else
    let values := joinWords (x.2.values.map inQuotes)
    indent ++ "set ".toList ++ x.1 ++ (if values = [] then [] else ' ' :: values)

def fourBlanks : Text := "    ".toList

theorem fourBlanks_blank : ∀ c ∈ fourBlanks, c = ' ' := by
  intro c hc
  exact of_decide_eq_true (List.all_eq_true.1 (rfl : fourBlanks.all (fun c => decide (c = ' ')) = true) c hc)

mutual

/-- `fortios_text` -/
def fortiosText (indent : Text) : Node → List Text
  | .mk _ attrs sub entries _ =>
    attrs.map (attrLine indent) ++ (sectionsText indent sub ++ entriesText indent entries)

def sectionsText (indent : Text) : List (Text × Node) → List Text
  | [] => []
  | (name, section_) :: rest =>
    (indent ++ "config ".toList ++ name) :: (fortiosText (indent ++ fourBlanks) section_ ++
      (indent ++ "end".toList) :: sectionsText indent rest)

def entriesText (indent : Text) : List (Text × Node) → List Text
  | [] => []
  | (name, entry) :: rest =>
    (indent ++ "edit ".toList ++ inQuotes name) :: (fortiosText (indent ++ fourBlanks) entry ++
      (indent ++ "next".toList) :: entriesText indent rest)

end

/-! ## trees without line numbers -/

def Attr.bare (a : Attr) : Attr := { a with line := 0 }

mutual

def Node.bare : Node → Node
  | .mk _ attrs sub entries _ =>
    .mk 0 (attrs.map fun x => (x.1, x.2.bare)) (bareAll sub) (bareAll entries) []

def bareAll : List (Text × Node) → List (Text × Node)
  | [] => []
  | (name, n) :: rest => (name, n.bare) :: bareAll rest

end

theorem bareAll_eq_map (l : List (Text × Node)) : bareAll l = l.map fun x => (x.1, x.2.bare) := by
  induction l with
  | nil => rfl
  | cons x l ih => rw [bareAll, ih, List.map_cons]

theorem bareAll_append (l m : List (Text × Node)) : bareAll (l ++ m) = bareAll l ++ bareAll m := by
  rw [bareAll_eq_map, bareAll_eq_map, bareAll_eq_map, List.map_append]

/-- the items of both -/
def Node.append (n m : Node) : Node :=
  .mk n.line (n.attrs ++ m.attrs) (n.sub ++ m.sub) (n.entries ++ m.entries) n.configTokens

/-! ## what can be printed -/

def endsInSpace (t : Text) : Bool := t.getLast?.any isSpace

/-- the name of an attribute is a bare word; at the end of a line it does not end in white space -/
def attrPrintable (x : Text × Attr) : Bool :=
  (Piece.bare x.1).ok &&
    (!x.2.values.isEmpty && !x.2.unset || x.2.values.isEmpty && !endsInSpace x.1) &&
    x.2.values.all noReturn

/-- the name of a section is empty or bare words with one blank between two of them -/
def namePrintable (name : Text) : Bool :=
  name = [] || (name.splitOn ' ').all (fun w => (Piece.bare w).ok) && !endsInSpace name

mutual

/-- `above` are the names of the blocks around the node, the innermost first -/
def Node.printable (above : List Text) : Node → Bool
  | .mk _ attrs sub entries _ =>
    attrs.all attrPrintable && (above ≠ [vdomSection] || sub.isEmpty) &&
      (above.length < maxDepth || (sub.isEmpty && entries.isEmpty)) &&
      sectionsPrintable above sub && entriesPrintable above entries

def sectionsPrintable (above : List Text) : List (Text × Node) → Bool
  | [] => true
  | (name, n) :: rest => namePrintable name && n.printable (name :: above) && sectionsPrintable above rest

def entriesPrintable (above : List Text) : List (Text × Node) → Bool
  | [] => true
  | (name, n) :: rest => noReturn name && n.printable (name :: above) && entriesPrintable above rest

end

/-! ## lines of the printer -/

/-- an attribute as its pieces -/
def attrPieces (x : Text × Attr) : List Piece :=
  if x.2.unset then [.bare "unset".toList, .bare x.1]
  else .bare "set".toList :: .bare x.1 :: x.2.values.map .quoted

theorem joinWords_inQuotes_eq_nil {vs : List Text} : joinWords (vs.map inQuotes) = [] ↔ vs = [] := by
  cases vs with
  | nil => simp [joinWords]
  | cons v vs => cases vs <;> simp [joinWords, inQuotes]

theorem attrLine_eq (i : Text) (x : Text × Attr) : attrLine i x = i ++ lineOf (attrPieces x) := by
  obtain ⟨name, attr⟩ := x
  unfold attrLine attrPieces
  dsimp only
  by_cases hu : attr.unset = true
  · rw [if_pos hu, if_pos hu, List.append_assoc]
    rfl
  · rw [if_neg hu, if_neg hu, List.append_assoc, List.append_assoc]
    congr 1
    have hmap : (attr.values.map Piece.quoted).map Piece.text = attr.values.map inQuotes := by
      rw [List.map_map]
      rfl
    rw [lineOf, List.map_cons, List.map_cons, hmap]
    by_cases hv : attr.values = []
    · rw [if_pos (joinWords_inQuotes_eq_nil.mpr hv), hv, List.append_nil]
      rfl
    · rw [if_neg (mt joinWords_inQuotes_eq_nil.mp hv), joinWords_cons (List.cons_ne_nil _ _),
        joinWords_cons (by simpa using hv)]
      rfl

theorem endsInSpace_eq_false {t : Text} :
    endsInSpace t = false ↔ ∀ c ∈ t.getLast?, isSpace c = false := by
  unfold endsInSpace
  cases t.getLast? <;> simp

/-- the last character of a line that ends in quotes -/
theorem getLast?_inQuotes (v : Text) : (inQuotes v).getLast? = some '"' := by
  rw [inQuotes, List.getLast?_cons_of_ne_nil (by simp), List.getLast?_concat]

section
variable {i : Text} {x : Text × Attr}

theorem attrPieces_ok (h : attrPrintable x = true) : ∀ p ∈ attrPieces x, p.ok = true := by
  have hname : (Piece.bare x.1).ok = true :=
    (Bool.and_eq_true_iff.mp (Bool.and_eq_true_iff.mp h).1).1
  intro p hp
  unfold attrPieces at hp
  split_ifs at hp
  · rcases List.mem_pair.mp hp with rfl | rfl
    · decide
    · exact hname
  · rcases List.mem_cons.mp hp with rfl | hp
    · decide
    · rcases List.mem_cons.mp hp with rfl | hp
      · exact hname
      · obtain ⟨v, -, rfl⟩ := List.mem_map.mp hp
        rfl

theorem attrPieces_keeps (h : attrPrintable x = true) : ∀ p ∈ attrPieces x, p.keeps = true := by
  have hvalues : x.2.values.all noReturn = true := (Bool.and_eq_true_iff.mp h).2
  intro p hp
  unfold attrPieces at hp
  split_ifs at hp
  · rcases List.mem_pair.mp hp with rfl | rfl <;> rfl
  · rcases List.mem_cons.mp hp with rfl | hp
    · rfl
    · rcases List.mem_cons.mp hp with rfl | hp
      · rfl
      · obtain ⟨v, hv, rfl⟩ := List.mem_map.mp hp
        exact List.all_eq_true.mp hvalues v hv

theorem attrPieces_last (h : attrPrintable x = true) :
    ∀ c ∈ (lineOf (attrPieces x)).getLast?, isSpace c = false := by
  have hok := attrPieces_ok h
  have hname : x.2.unset = true ∨ x.2.values = [] → endsInSpace x.1 = false := by
    intro hend
    rcases Bool.or_eq_true_iff.mp (Bool.and_eq_true_iff.mp (Bool.and_eq_true_iff.mp h).1).2 with h | h
    · rcases hend with hu | hv
      · simp [hu] at h
      · simp [hv] at h
    · simpa using (Bool.and_eq_true_iff.mp h).2
  unfold attrPieces at hok ⊢
  split_ifs at hok ⊢ with hu
  · have hlast : (lineOf [.bare "unset".toList, .bare x.1]).getLast? = x.1.getLast? :=
      getLast?_lineOf (l := [.bare "unset".toList]) (hok _ (by simp))
    rw [hlast]
    exact endsInSpace_eq_false.mp (hname (.inl hu))
  · rcases List.eq_nil_or_concat x.2.values with hv | ⟨vs, v, hv⟩
    · rw [hv] at hok ⊢
      have hlast : (lineOf [.bare "set".toList, .bare x.1]).getLast? = x.1.getLast? :=
        getLast?_lineOf (l := [.bare "set".toList]) (hok _ (by simp))
      rw [List.map_nil, hlast]
      exact endsInSpace_eq_false.mp (hname (.inr hv))
    · have hlast : (lineOf (.bare "set".toList :: .bare x.1 :: x.2.values.map .quoted)).getLast? =
          some '"' := by
        rw [hv, List.concat_eq_append, List.map_append, List.map_singleton, ← List.cons_append,
          ← List.cons_append]
        exact (getLast?_lineOf rfl).trans (getLast?_inQuotes v)
      rw [hlast]
      intro c hc
      cases hc
      decide

/-- an attribute that is unset has no values -/
theorem attrPrintable_bare (h : attrPrintable x = true) :
    x.2.bare = if x.2.unset then ⟨[], 0, true⟩ else ⟨x.2.values, 0, false⟩ := by
  obtain ⟨name, values, line, unset⟩ := x
  cases unset with
  | false => rfl
  | true =>
    have hv : values = [] := by
      rcases Bool.or_eq_true_iff.mp (Bool.and_eq_true_iff.mp (Bool.and_eq_true_iff.mp h).1).2 with h | h
      · simp at h
      · simpa using (Bool.and_eq_true_iff.mp h).1
    rw [hv]
    rfl

/-- what the parser does with the line of an attribute -/
theorem parseLine_attrLine (hi : ∀ c ∈ i, isSpace c = true) (h : attrPrintable x = true) (s : Stack)
    (number : Nat) : ∃ a : Attr, a.bare = x.2.bare ∧
      parseLine s number (attrLine i x) = .ok { s with node := s.node.setAttr x.1 a } := by
  have hok := attrPieces_ok h
  have hlast := attrPieces_last h
  rw [attrLine_eq, attrPrintable_bare h]
  unfold attrPieces at hok hlast ⊢
  split_ifs at hok hlast ⊢ with hu
  · refine ⟨⟨[], number, true⟩, rfl, parseLine_unset ?_⟩
    exact Says.line (l := [.bare x.1]) hi hok (by decide) (by decide) hlast
  · refine ⟨⟨x.2.values, number, false⟩, rfl, parseLine_set ?_⟩
    have hsays := Says.line hi hok (by decide) (by decide) hlast
    rw [List.map_cons, List.map_map] at hsays
    have hvalues : x.2.values.map (Piece.value ∘ Piece.quoted) = x.2.values := List.map_id _
    rw [hvalues] at hsays
    exact hsays

theorem closed_attrLine (hi : ∀ c ∈ i, c = ' ') (h : attrPrintable x = true) :
    Closed (attrLine i x) := by
  have hne : lineOf (attrPieces x) ≠ [] := by
    unfold attrPieces
    split_ifs <;> simp [lineOf, joinWords]
  rw [attrLine_eq]
  refine Quiet.closed (Quiet.append ?_ (Quiet.lineOf (attrPieces_ok h) (attrPieces_keeps h))) ?_
  · refine Quiet.bare fun c hc => ?_
    rw [hi c hc]
    decide
  · rw [List.getLast?_append_of_ne_nil _ hne]
    intro hr
    have := attrPieces_last h '\r' hr
    exact absurd this (by decide)

end

section
variable {i name : Text}

theorem joinWords_eq_intercalate (ws : List Text) : joinWords ws = [' '].intercalate ws := by
  induction ws with
  | nil => rfl
  | cons w ws ih =>
    cases ws with
    | nil => simp [joinWords]
    | cons v ws =>
      rw [joinWords_cons (List.cons_ne_nil _ _), ih, List.intercalate_cons_cons, List.append_assoc]
      rfl

theorem joinWords_splitOn (name : Text) : joinWords (name.splitOn ' ') = name := by
  rw [joinWords_eq_intercalate, List.intercalate_splitOn]

theorem lineOf_bare (w : Text) (ws : List Text) :
    lineOf (.bare w :: ws.map .bare) = joinWords (w :: ws) := by
  have hmap : (ws.map Piece.bare).map Piece.text = ws := by
    rw [List.map_map]
    exact List.map_id _
  rw [lineOf, List.map_cons, hmap]
  rfl

/-- the words of the line of a section make up its name -/
theorem says_config (hi : ∀ c ∈ i, isSpace c = true) (h : namePrintable name = true) :
    ∃ words, Says (i ++ "config ".toList ++ name) ("config".toList :: words) ∧
      joinWords words = name := by
  rcases Bool.or_eq_true_iff.mp h with hnil | hwords
  · have hnil : name = [] := of_decide_eq_true hnil
    subst hnil
    have hstrip : strip (i ++ "config ".toList ++ []) = "config".toList := by
      rw [List.append_nil]
      exact strip_around (b := "config".toList) (j := [' ']) hi (by simp [isSpace]) (by decide)
        (by simp [isSpace]) (by simp [isSpace])
    exact ⟨[], ⟨by rw [hstrip]; decide, by rw [hstrip]; decide, by rw [hstrip]; decide⟩, rfl⟩
  · obtain ⟨hok, hend⟩ := Bool.and_eq_true_iff.mp hwords
    have hend : endsInSpace name = false := by simpa using hend
    have hne : name ≠ [] := by
      rintro rfl
      exact absurd hok (by decide)
    have hline : lineOf (.bare "config".toList :: (name.splitOn ' ').map .bare) =
        "config ".toList ++ name := by
      rw [lineOf_bare, joinWords_cons (List.splitOn_ne_nil _ _), joinWords_splitOn]
      rfl
    refine ⟨name.splitOn ' ', ?_, joinWords_splitOn name⟩
    rw [List.append_assoc, ← hline]
    have hsays := Says.line (i := i) (c := 'c') (w := "onfig".toList)
      (l := (name.splitOn ' ').map .bare) hi ?_ (by decide) (by decide) ?_
    · have hvalue : ((name.splitOn ' ').map Piece.bare).map Piece.value = name.splitOn ' ' := by
        rw [List.map_map]
        exact List.map_id _
      rw [hvalue] at hsays
      exact hsays
    · intro p hp
      rcases List.mem_cons.mp hp with rfl | hp
      · decide
      · obtain ⟨w, hw, rfl⟩ := List.mem_map.mp hp
        exact List.all_eq_true.mp hok w hw
    · have hlast : (lineOf (.bare "config".toList :: (name.splitOn ' ').map .bare)).getLast? =
          name.getLast? := by
        rw [hline, List.getLast?_append_of_ne_nil _ hne]
      intro c hc
      refine endsInSpace_eq_false.mp hend c ?_
      rw [← hlast]
      exact hc

theorem says_edit (hi : ∀ c ∈ i, isSpace c = true) :
    Says (i ++ "edit ".toList ++ inQuotes name) ["edit".toList, name] := by
  rw [List.append_assoc]
  refine Says.line (i := i) (c := 'e') (w := "dit".toList) (l := [.quoted name]) hi ?_ (by decide)
    (by decide) ?_
  · intro p hp
    rcases List.mem_pair.mp hp with rfl | rfl
    · decide
    · rfl
  · have hlast := (getLast?_lineOf (l := [.bare "edit".toList]) (p := .quoted name) rfl).trans
      (getLast?_inQuotes name)
    intro c hc
    rw [Option.mem_def] at hc
    cases hlast.symm.trans hc
    decide

theorem says_keyword (hi : ∀ c ∈ i, isSpace c = true) {w : Text}
    (hw : w = "end".toList ∨ w = "next".toList) : Says (i ++ w) [w] := by
  rcases hw with rfl | rfl
  · exact Says.line (i := i) (c := 'e') (w := "nd".toList) (l := []) hi (by simp [Piece.ok, isPlain, isBlank]) (by decide)
      (by decide) (fun _ hd => Option.some.inj hd ▸ rfl)
  · exact Says.line (i := i) (c := 'n') (w := "ext".toList) (l := []) hi (by simp [Piece.ok, isPlain, isBlank]) (by decide)
      (by decide) (fun _ hd => Option.some.inj hd ▸ rfl)

theorem Quiet.blanks (hi : ∀ c ∈ i, c = ' ') : Quiet i := by
  refine Quiet.bare fun c hc => ?_
  rw [hi c hc]
  decide

theorem closed_config (hi : ∀ c ∈ i, c = ' ') (h : namePrintable name = true) :
    Closed (i ++ "config ".toList ++ name) := by
  rcases Bool.or_eq_true_iff.mp h with hnil | hwords
  · have hnil : name = [] := of_decide_eq_true hnil
    subst hnil
    rw [List.append_nil]
    refine Quiet.closed ((Quiet.blanks hi).append (Quiet.bare (by simp))) ?_
    rw [List.getLast?_append_of_ne_nil _ (by decide)]
    decide
  · obtain ⟨hok, hend⟩ := Bool.and_eq_true_iff.mp hwords
    have hend : endsInSpace name = false := by simpa using hend
    have hne : name ≠ [] := by
      rintro rfl
      exact absurd hok (by decide)
    have hquiet : Quiet name := by
      have hline := Quiet.lineOf (l := (name.splitOn ' ').map .bare) ?_ ?_
      · have hmap : ((name.splitOn ' ').map Piece.bare).map Piece.text = name.splitOn ' ' := by
          rw [List.map_map]
          exact List.map_id _
        rw [lineOf, hmap, joinWords_splitOn] at hline
        exact hline
      · intro p hp
        obtain ⟨w, hw, rfl⟩ := List.mem_map.mp hp
        exact List.all_eq_true.mp hok w hw
      · intro p hp
        obtain ⟨w, -, rfl⟩ := List.mem_map.mp hp
        rfl
    refine Quiet.closed (((Quiet.blanks hi).append (Quiet.bare (by simp))).append hquiet) ?_
    rw [List.getLast?_append_of_ne_nil _ hne]
    intro hr
    exact absurd (endsInSpace_eq_false.mp hend _ hr) (by decide)

theorem closed_edit (hi : ∀ c ∈ i, c = ' ') (h : noReturn name = true) :
    Closed (i ++ "edit ".toList ++ inQuotes name) := by
  refine Quiet.closed
    (((Quiet.blanks hi).append (Quiet.bare (by simp))).append (Quiet.inQuotes h)) ?_
  have hne : inQuotes name ≠ [] := List.cons_ne_nil _ _
  rw [List.getLast?_append_of_ne_nil _ hne, getLast?_inQuotes]
  decide

theorem closed_keyword (hi : ∀ c ∈ i, c = ' ') {w : Text}
    (hw : w = "end".toList ∨ w = "next".toList) : Closed (i ++ w) := by
  rcases hw with rfl | rfl
  · refine Quiet.closed ((Quiet.blanks hi).append (Quiet.bare (by simp))) ?_
    rw [List.getLast?_append_of_ne_nil _ (by decide)]
    decide
  · refine Quiet.closed ((Quiet.blanks hi).append (Quiet.bare (by simp))) ?_
    rw [List.getLast?_append_of_ne_nil _ (by decide)]
    decide

end

/-! ## reading a printed node -/

/-- the names of `m` are new in `n` -/
structure Fresh (n m : Node) : Prop where
  attrs : ∀ x ∈ m.attrs, x.1 ∉ Dict.keys n.attrs
  sub : ∀ x ∈ m.sub, x.1 ∉ Dict.keys n.sub
  entries : ∀ x ∈ m.entries, x.1 ∉ Dict.keys n.entries

/-- reading these lines adds the items of `m` to the node at hand -/
def Adds (s : Stack) (texts : List Text) (m : Node) : Prop :=
  ∀ lines : List (Nat × Text), lines.map Prod.snd = texts →
    ∃ n', parseLines s lines = .ok ⟨n', s.above⟩ ∧ n'.bare = (s.node.append m).bare

theorem keys_bareAll (l : List (Text × Node)) : Dict.keys (bareAll l) = Dict.keys l := by
  rw [bareAll_eq_map]
  exact Dict.keys_map fun _ => rfl

theorem keys_of_bare {n m : Node} (h : n.bare = m.bare) :
    Dict.keys n.attrs = Dict.keys m.attrs ∧ Dict.keys n.sub = Dict.keys m.sub ∧
      Dict.keys n.entries = Dict.keys m.entries := by
  obtain ⟨l, a, su, e, t⟩ := n
  obtain ⟨l', a', su', e', t'⟩ := m
  rw [Node.bare, Node.bare] at h
  obtain ⟨-, ha, hs, he, -⟩ := Node.mk.inj h
  refine ⟨?_, ?_, ?_⟩
  · have hk : ∀ d : List (Text × Attr), Dict.keys (d.map fun x => (x.1, x.2.bare)) = Dict.keys d :=
      fun d => Dict.keys_map fun _ => rfl
    exact (hk a).symm.trans ((congrArg Dict.keys ha).trans (hk a'))
  · exact (keys_bareAll su).symm.trans ((congrArg Dict.keys hs).trans (keys_bareAll su'))
  · exact (keys_bareAll e).symm.trans ((congrArg Dict.keys he).trans (keys_bareAll e'))

theorem Node.bare_append (n m : Node) : (n.append m).bare = n.bare.append m.bare := by
  obtain ⟨l, a, su, e, t⟩ := n
  obtain ⟨l', a', su', e', t'⟩ := m
  simp only [Node.append, Node.bare, Node.attrs, Node.sub, Node.entries, Node.line, Node.configTokens,
    List.map_append, bareAll_append]

theorem Node.append_assoc (n m k : Node) : (n.append m).append k = n.append (m.append k) := by
  obtain ⟨l, a, su, e, t⟩ := n
  simp only [Node.append, Node.attrs, Node.sub, Node.entries, Node.line, Node.configTokens,
    List.append_assoc]

theorem Adds.nil (s : Stack) : Adds s [] (.empty 0 []) := by
  intro lines hl
  rw [List.map_eq_nil_iff.mp hl]
  refine ⟨s.node, rfl, ?_⟩
  have he : (Node.empty 0 []).bare = .empty 0 [] := rfl
  rw [Node.bare_append, he]
  obtain ⟨l, a, su, e, t⟩ := s.node
  simp [Node.append, Node.bare, Node.empty, Node.attrs, Node.sub, Node.entries, Node.line,
    Node.configTokens]

/-- one part after the other; the second one may rely on what the first one has added -/
theorem Adds.append {s : Stack} {t u : List Text} {m k : Node} (h1 : Adds s t m)
    (h2 : ∀ n', n'.bare = (s.node.append m).bare → Adds ⟨n', s.above⟩ u k) :
    Adds s (t ++ u) (m.append k) := by
  intro lines hl
  obtain ⟨l1, l2, rfl, hl1, hl2⟩ := List.map_eq_append_iff.mp hl
  obtain ⟨n1, hp1, hb1⟩ := h1 l1 hl1
  obtain ⟨n2, hp2, hb2⟩ := h2 n1 hb1 l2 hl2
  refine ⟨n2, ?_, ?_⟩
  · rw [parseLines_append, hp1]
    exact hp2
  · rw [hb2, Node.bare_append, hb1, ← Node.bare_append, Node.append_assoc]

theorem adds_attrs {i : Text} (hi : ∀ c ∈ i, isSpace c = true) {attrs : List (Text × Attr)}
    (hok : ∀ x ∈ attrs, attrPrintable x = true) (hnd : (Dict.keys attrs).Nodup) (s : Stack)
    (hf : ∀ x ∈ attrs, x.1 ∉ Dict.keys s.node.attrs) :
    Adds s (attrs.map (attrLine i)) (.mk 0 attrs [] [] []) := by
  induction attrs generalizing s with
  | nil => exact Adds.nil s
  | cons x attrs ih =>
    obtain ⟨hx, hnd⟩ := List.nodup_cons.mp hnd
    have hnew := hf x List.mem_cons_self
    have hone : Adds s [attrLine i x] (.mk 0 [x] [] [] []) := by
      intro lines hl
      obtain ⟨l, rfl⟩ : ∃ l, lines = [l] := List.length_eq_one_iff.mp (by
        rw [← List.length_map Prod.snd, hl]; rfl)
      obtain ⟨number, raw⟩ := l
      obtain rfl : raw = attrLine i x := (List.cons.inj hl).1
      obtain ⟨a, ha, hp⟩ := parseLine_attrLine hi (hok x List.mem_cons_self) s number
      refine ⟨s.node.setAttr x.1 a, ?_, ?_⟩
      · rw [parseLines, hp]
        rfl
      · rw [Node.setAttr, Dict.set_new hnew, Node.append]
        simp only [Node.bare, Node.attrs, Node.sub, Node.entries, List.map_append, List.append_nil,
          List.map_singleton, ha]
    refine Adds.append (m := .mk 0 [x] [] [] []) (k := .mk 0 attrs [] [] []) hone fun n' hb => ?_
    refine ih (fun y hy => hok y (List.mem_cons_of_mem _ hy)) hnd ⟨n', s.above⟩ fun y hy => ?_
    have hkeys : Dict.keys n'.attrs = Dict.keys s.node.attrs ++ [x.1] := by
      rw [(keys_of_bare hb).1]
      exact List.map_append
    rw [hkeys, List.mem_append, List.mem_singleton]
    rintro (h | h)
    · exact hf y (List.mem_cons_of_mem _ hy) h
    · exact hx (h ▸ Dict.mem_keys hy)

/-- a node with one block in it -/
def Node.only (kind : Kind) (name : Text) (child : Node) : Node :=
  match kind with
  | .config => .mk 0 [] [(name, child)] [] []
  | .edit => .mk 0 [] [] [(name, child)] []

/-- the line that opens a block, its lines and the line that closes it -/
theorem Adds.block {s : Stack} {kind : Kind} {name f last : Text} {child : Node} {texts : List Text}
    (hopen : ∀ number, ∃ fresh : Node, fresh.bare = .empty 0 [] ∧
      parseLine s number f = .ok (s.open kind name fresh))
    (hbody : ∀ fresh : Node, fresh.bare = .empty 0 [] →
      Adds ⟨fresh, ⟨kind, name, s.node⟩ :: s.above⟩ texts child)
    (hclose : ∀ n' number, parseLine ⟨n', ⟨kind, name, s.node⟩ :: s.above⟩ number last =
      .ok (Stack.close ⟨n', ⟨kind, name, s.node⟩ :: s.above⟩))
    (hnew : name ∉ Dict.keys (s.node.children kind)) :
    Adds s (f :: (texts ++ [last])) (.only kind name child) := by
  intro lines hlines
  obtain ⟨⟨n1, raw1⟩, rest, rfl, rfl, hrest⟩ := List.map_eq_cons_iff.mp hlines
  obtain ⟨body, ends, rfl, hb, hends⟩ := List.map_eq_append_iff.mp hrest
  obtain ⟨⟨n2, raw2⟩, none_, rfl, rfl, hnone⟩ := List.map_eq_cons_iff.mp hends
  rw [List.map_eq_nil_iff.mp hnone]
  obtain ⟨fresh, hfresh, hfirst⟩ := hopen n1
  have hstack : s.open kind name fresh = ⟨fresh, ⟨kind, name, s.node⟩ :: s.above⟩ := by
    rw [Stack.open, Dict.get_new hnew]
    rfl
  obtain ⟨n', hparse, hbare⟩ := hbody fresh hfresh body hb
  have hchild : n'.bare = child.bare := by
    rw [hbare, Node.bare_append, hfresh]
    obtain ⟨l, a, su, e, t⟩ := child
    rfl
  refine ⟨s.node.setChild kind name n', ?_, ?_⟩
  · rw [parseLines, hfirst, hstack]
    dsimp only
    rw [parseLines_append, hparse]
    show parseLines _ [(n2, raw2)] = _
    rw [parseLines, hclose]
    rfl
  · cases kind with
    | config =>
      have hset : Dict.set name n' s.node.sub = s.node.sub ++ [(name, n')] := Dict.set_new hnew
      rw [Node.setChild, hset, Node.append]
      simp only [Node.bare, Node.attrs, Node.sub, Node.entries, Node.only, bareAll_append,
        List.append_nil, bareAll, hchild]
    | edit =>
      have hset : Dict.set name n' s.node.entries = s.node.entries ++ [(name, n')] :=
        Dict.set_new hnew
      rw [Node.setChild, hset, Node.append]
      simp only [Node.bare, Node.attrs, Node.sub, Node.entries, Node.only, bareAll_append,
        List.append_nil, bareAll, hchild]

def Stack.names (s : Stack) : List Text := s.above.map Above.name

theorem isSpace_blanks {i : Text} (hi : ∀ c ∈ i, c = ' ') : ∀ c ∈ i, isSpace c = true := by
  intro c hc
  rw [hi c hc]
  decide

theorem blanks_indent {i : Text} (hi : ∀ c ∈ i, c = ' ') : ∀ c ∈ i ++ fourBlanks, c = ' ' := by
  intro c hc
  rcases List.mem_append.mp hc with hc | hc
  · exact hi c hc
  · exact fourBlanks_blank c hc

theorem fresh_empty {n : Node} (h : n.bare = .empty 0 []) (m : Node) : Fresh n m := by
  obtain ⟨ha, hs, he⟩ := keys_of_bare (m := .empty 0 []) h
  refine ⟨fun x _ => ?_, fun x _ => ?_, fun x _ => ?_⟩
  · rw [ha]
    exact List.not_mem_nil
  · rw [hs]
    exact List.not_mem_nil
  · rw [he]
    exact List.not_mem_nil

/-- the keys after a part has been added -/
theorem keys_added {n n' m : Node} (h : n'.bare = (n.append m).bare) :
    Dict.keys n'.sub = Dict.keys n.sub ++ Dict.keys m.sub ∧
      Dict.keys n'.entries = Dict.keys n.entries ++ Dict.keys m.entries := by
  obtain ⟨-, hs, he⟩ := keys_of_bare h
  rw [hs, he]
  exact ⟨List.map_append, List.map_append⟩

mutual

theorem adds_node : ∀ (m : Node) (i : Text) (s : Stack), (∀ c ∈ i, c = ' ') →
    m.printable s.names = true → m.Distinct → Fresh s.node m → Adds s (fortiosText i m) m
  | .mk line attrs sub entries tokens, i, s, hi, hp, hd, hf => by
    cases hd with
    | mk hattrs hsub hentries hs he =>
    simp only [Node.attrs, Node.sub, Node.entries] at hattrs hsub hentries hs he
    simp only [Node.printable, Bool.and_eq_true, Bool.or_eq_true, decide_eq_true_eq] at hp
    obtain ⟨⟨⟨⟨hpa, hvdom⟩, hdeep⟩, hps⟩, hpe⟩ := hp
    have hlength : s.names.length = s.above.length := List.length_map _
    have h1 := adds_attrs (isSpace_blanks hi) (List.all_eq_true.mp hpa) hattrs s hf.attrs
    have h2 : ∀ n', n'.bare = (s.node.append (.mk 0 attrs [] [] [])).bare →
        Adds ⟨n', s.above⟩ (sectionsText i sub ++ entriesText i entries)
          (Node.append (.mk 0 [] sub [] []) (.mk 0 [] [] entries [])) := by
      intro n' hb
      have hkeys := keys_added hb
      refine Adds.append ?_ fun n'' hb' => ?_
      · refine adds_sections sub i ⟨n', s.above⟩ hi ?_ hps hsub hs fun x hx => ?_
        · intro hne
          refine ⟨hvdom.resolve_right (by simpa using hne), ?_⟩
          rw [← hlength]
          exact hdeep.resolve_right fun h => hne (by simpa using h.1)
        · rw [hkeys.1]
          simpa [Dict.keys, Node.sub] using hf.sub x hx
      · refine adds_entries entries i ⟨n'', s.above⟩ hi ?_ hpe hentries he fun x hx => ?_
        · intro hne
          rw [← hlength]
          exact hdeep.resolve_right fun h => hne (by simpa using h.2)
        · rw [(keys_added hb').2, hkeys.2]
          simpa [Dict.keys, Node.entries] using hf.entries x hx
    have hall := h1.append h2
    intro lines hl
    obtain ⟨n', hn', hb⟩ := hall lines hl
    refine ⟨n', hn', hb.trans ?_⟩
    simp only [Node.append, Node.attrs, Node.sub, Node.entries, Node.line, Node.configTokens,
      List.append_nil, List.nil_append]

theorem adds_sections : ∀ (l : List (Text × Node)) (i : Text) (s : Stack), (∀ c ∈ i, c = ' ') →
    (l ≠ [] → s.names ≠ [vdomSection] ∧ s.above.length < maxDepth) →
    sectionsPrintable s.names l = true → (Dict.keys l).Nodup → (∀ x ∈ l, x.2.Distinct) →
    (∀ x ∈ l, x.1 ∉ Dict.keys s.node.sub) → Adds s (sectionsText i l) (.mk 0 [] l [] [])
  | [], _, s, _, _, _, _, _, _ => Adds.nil s
  | (name, n) :: l, i, s, hi, hs, hp, hnd, hd, hf => by
    simp only [sectionsPrintable, Bool.and_eq_true] at hp
    obtain ⟨⟨hname, hn⟩, hp⟩ := hp
    obtain ⟨hnew, hnd⟩ := List.nodup_cons.mp hnd
    obtain ⟨hvdom, hdeep⟩ := hs (List.cons_ne_nil _ _)
    have hblock : Adds s ((i ++ "config ".toList ++ name) ::
        (fortiosText (i ++ fourBlanks) n ++ [i ++ "end".toList])) (.only .config name n) := by
      refine Adds.block (f := i ++ "config ".toList ++ name) ?_ ?_ ?_ (hf _ List.mem_cons_self)
      · intro number
        obtain ⟨words, hsays, rfl⟩ := says_config (isSpace_blanks hi) hname
        exact ⟨.empty number words, rfl, parseLine_config hsays hdeep⟩
      · intro fresh hfresh
        exact adds_node n (i ++ fourBlanks) _ (blanks_indent hi) hn (hd _ List.mem_cons_self)
          (fresh_empty hfresh n)
      · intro n' number
        refine parseLine_end (says_keyword (isSpace_blanks hi) (.inl rfl)) (List.cons_ne_nil _ _) ?_
        -- the block around a section is the VDOM section only where `names` says so
        unfold Stack.inVdom
        dsimp only
        split
        · rename_i a b h
          obtain ⟨-, htail⟩ := List.cons.inj h
          rw [decide_eq_false_iff_not]
          intro hb
          exact hvdom (by rw [Stack.names, htail, List.map_singleton, hb])
        · rfl
    have hrest : ∀ n', n'.bare = (s.node.append (.only .config name n)).bare →
        Adds ⟨n', s.above⟩ (sectionsText i l) (.mk 0 [] l [] []) := by
      intro n' hb
      refine adds_sections l i ⟨n', s.above⟩ hi (fun _ => ⟨hvdom, hdeep⟩) hp hnd
        (fun x hx => hd x (List.mem_cons_of_mem _ hx)) fun x hx => ?_
      rw [(keys_added hb).1, List.mem_append]
      rintro (h | h)
      · exact hf x (List.mem_cons_of_mem _ hx) h
      · have hx1 : x.1 = name := List.mem_singleton.mp h
        have hmem : x.1 ∈ Dict.keys l := Dict.mem_keys hx
        rw [hx1] at hmem
        exact hnew hmem
    have hall := hblock.append hrest
    rw [List.cons_append, List.append_assoc _ [_]] at hall
    rw [sectionsText]
    exact hall

theorem adds_entries : ∀ (l : List (Text × Node)) (i : Text) (s : Stack), (∀ c ∈ i, c = ' ') →
    (l ≠ [] → s.above.length < maxDepth) →
    entriesPrintable s.names l = true → (Dict.keys l).Nodup → (∀ x ∈ l, x.2.Distinct) →
    (∀ x ∈ l, x.1 ∉ Dict.keys s.node.entries) → Adds s (entriesText i l) (.mk 0 [] [] l [])
  | [], _, s, _, _, _, _, _, _ => Adds.nil s
  | (name, n) :: l, i, s, hi, hs, hp, hnd, hd, hf => by
    simp only [entriesPrintable, Bool.and_eq_true] at hp
    obtain ⟨⟨-, hn⟩, hp⟩ := hp
    obtain ⟨hnew, hnd⟩ := List.nodup_cons.mp hnd
    have hdeep := hs (List.cons_ne_nil _ _)
    have hblock : Adds s ((i ++ "edit ".toList ++ inQuotes name) ::
        (fortiosText (i ++ fourBlanks) n ++ [i ++ "next".toList])) (.only .edit name n) := by
      refine Adds.block (f := i ++ "edit ".toList ++ inQuotes name) ?_ ?_ ?_
        (hf _ List.mem_cons_self)
      · intro number
        exact ⟨.empty number [], rfl, parseLine_edit (says_edit (isSpace_blanks hi)) hdeep⟩
      · intro fresh hfresh
        exact adds_node n (i ++ fourBlanks) _ (blanks_indent hi) hn (hd _ List.mem_cons_self)
          (fresh_empty hfresh n)
      · intro n' number
        exact parseLine_next (says_keyword (isSpace_blanks hi) (.inr rfl)) (List.cons_ne_nil _ _)
    have hrest : ∀ n', n'.bare = (s.node.append (.only .edit name n)).bare →
        Adds ⟨n', s.above⟩ (entriesText i l) (.mk 0 [] [] l []) := by
      intro n' hb
      refine adds_entries l i ⟨n', s.above⟩ hi (fun _ => hdeep) hp hnd
        (fun x hx => hd x (List.mem_cons_of_mem _ hx)) fun x hx => ?_
      rw [(keys_added hb).2, List.mem_append]
      rintro (h | h)
      · exact hf x (List.mem_cons_of_mem _ hx) h
      · have hx1 : x.1 = name := List.mem_singleton.mp h
        have hmem : x.1 ∈ Dict.keys l := Dict.mem_keys hx
        rw [hx1] at hmem
        exact hnew hmem
    have hall := hblock.append hrest
    rw [List.cons_append, List.append_assoc _ [_]] at hall
    rw [entriesText]
    exact hall

end

/-! ## the text of a printed node -/

mutual

theorem closed_node : ∀ (m : Node) (i : Text) (above : List Text), (∀ c ∈ i, c = ' ') →
    m.printable above = true → ∀ t ∈ fortiosText i m, Closed t
  | .mk line attrs sub entries tokens, i, above, hi, hp, t, ht => by
    simp only [Node.printable, Bool.and_eq_true] at hp
    obtain ⟨⟨⟨⟨hpa, -⟩, -⟩, hps⟩, hpe⟩ := hp
    rw [fortiosText] at ht
    rcases List.mem_append.mp ht with h | h
    · obtain ⟨x, hx, rfl⟩ := List.mem_map.mp h
      exact closed_attrLine hi (List.all_eq_true.mp hpa x hx)
    · rcases List.mem_append.mp h with h | h
      · exact closed_sections sub i above hi hps t h
      · exact closed_entries entries i above hi hpe t h

theorem closed_sections : ∀ (l : List (Text × Node)) (i : Text) (above : List Text),
    (∀ c ∈ i, c = ' ') → sectionsPrintable above l = true → ∀ t ∈ sectionsText i l, Closed t
  | [], _, _, _, _, _, ht => by
    rw [sectionsText] at ht
    exact nomatch ht
  | (name, n) :: l, i, above, hi, hp, t, ht => by
    simp only [sectionsPrintable, Bool.and_eq_true] at hp
    obtain ⟨⟨hname, hn⟩, hp⟩ := hp
    rw [sectionsText] at ht
    rcases List.mem_cons.mp ht with rfl | ht
    · exact closed_config hi hname
    · rcases List.mem_append.mp ht with h | h
      · exact closed_node n (i ++ fourBlanks) (name :: above) (blanks_indent hi) hn t h
      · rcases List.mem_cons.mp h with rfl | h
        · exact closed_keyword hi (.inl rfl)
        · exact closed_sections l i above hi hp t h

theorem closed_entries : ∀ (l : List (Text × Node)) (i : Text) (above : List Text),
    (∀ c ∈ i, c = ' ') → entriesPrintable above l = true → ∀ t ∈ entriesText i l, Closed t
  | [], _, _, _, _, _, ht => by
    rw [entriesText] at ht
    exact nomatch ht
  | (name, n) :: l, i, above, hi, hp, t, ht => by
    simp only [entriesPrintable, Bool.and_eq_true] at hp
    obtain ⟨⟨hname, hn⟩, hp⟩ := hp
    rw [entriesText] at ht
    rcases List.mem_cons.mp ht with rfl | ht
    · exact closed_edit hi hname
    · rcases List.mem_append.mp ht with h | h
      · exact closed_node n (i ++ fourBlanks) (name :: above) (blanks_indent hi) hn t h
      · rcases List.mem_cons.mp h with rfl | h
        · exact closed_keyword hi (.inr rfl)
        · exact closed_entries l i above hi hp t h

end

/-- comments are skipped -/
theorem parseLines_comments {lines : List (Nat × Text)} (s : Stack)
    (h : ∀ l ∈ lines, (strip l.2).head? = some '#') : parseLines s lines = .ok s := by
  induction lines with
  | nil => rfl
  | cons l lines ih =>
    obtain ⟨number, raw⟩ := l
    have hskip : parseLine s number raw = .ok s := by
      unfold parseLine
      dsimp only
      rw [if_pos (.inr (h _ List.mem_cons_self))]
    rw [parseLines, hskip]
    exact ih fun l hl => h l (List.mem_cons_of_mem _ hl)

/-- the text of some lines of which the parser knows what they add to an empty tree -/
theorem parse_adds {comments texts : List Text} {root : Node} {text : Text}
    (hlines : (logicalLines text).1.map Prod.snd = comments ++ texts ∧ (logicalLines text).2 = none)
    (hcomments : ∀ t ∈ comments, (strip t).head? = some '#')
    (hadds : Adds ⟨.empty 0 [], []⟩ texts root) : ∃ r, parse text = .ok r ∧ r.bare = root.bare := by
  obtain ⟨l1, l2, hsplit, h1, h2⟩ := List.map_eq_append_iff.mp hlines.1
  obtain ⟨r, hr, hbare⟩ := hadds l2 h2
  have hskip : parseLines ⟨.empty 0 [], []⟩ l1 = .ok ⟨.empty 0 [], []⟩ := by
    refine parseLines_comments _ fun l hl => hcomments l.2 ?_
    rw [← h1]
    exact List.mem_map_of_mem hl
  have hall : parseLines ⟨.empty 0 [], []⟩ (logicalLines text).1 = .ok ⟨r, []⟩ := by
    rw [hsplit, parseLines_append, hskip]
    exact hr
  refine ⟨r, ?_, ?_⟩
  · unfold parse
    dsimp only
    rw [hall, hlines.2]
    rfl
  · rw [hbare, Node.bare_append]
    obtain ⟨l, a, su, e, t⟩ := root
    rfl

/-- **A printable tree is read back.**  Line numbers and the words of the lines of sections apart, the
parser makes of the printed lines, with comments before them, the tree they were printed from. -/
theorem parse_fortiosText {root : Node} {comments : List Text} (hp : root.printable [] = true)
    (hd : root.Distinct) (hclosed : ∀ t ∈ comments, Closed t)
    (hcomments : ∀ t ∈ comments, (strip t).head? = some '#')
    (hne : comments ++ fortiosText [] root ≠ []) :
    ∃ r, parse (joinNewlines (comments ++ fortiosText [] root) ++ ['\n']) = .ok r ∧
      r.bare = root.bare := by
  have hblanks : ∀ c ∈ ([] : Text), c = ' ' := fun c hc => nomatch hc
  refine @parse_adds comments (fortiosText [] root) _ _ ?_ hcomments ?_
  · refine logicalLines_newline (fun t ht => ?_) hne
    rcases List.mem_append.mp ht with ht | ht
    · exact hclosed t ht
    · exact closed_node root [] [] hblanks hp t ht
  · exact adds_node root [] ⟨.empty 0 [], []⟩ hblanks hp hd (fresh_empty rfl root)

end Netops.Fortios

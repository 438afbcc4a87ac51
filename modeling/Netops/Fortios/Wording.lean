import Mathlib.Algebra.Ring.Nat
import Netops.Engine.Wording
import Netops.Fortios.Print

/-!
# The words of FortiOS command lines

Names and texts are written in quotes, and refused with a control character in them.  Addresses, networks
and hardware addresses are written as they are.  A request gives well-formed ones; the undo of a change
writes those that the snapshot has.

* `bare_of_tokenize`   words that are read back from a bare text are bare;
* `valueWords`         the words that a value means, by the type of its attribute;
* `readAs_renderCreate`, `readAs_renderUpdate`, `readAs_renderDelete`;
* `lines_read_iff`     the lines of a plan are read as they are meant if the values written back are plain.
-/

namespace Netops.Fortios
open Netops.Engine Netops.Exos

/-! ## bare words -/

/-- the characters of words, and one for the end of each -/
def weight (ws : List Text) : Nat := (ws.map fun w => w.length + 1).sum

@[simp] theorem weight_cons (w : Text) (ws : List Text) : weight (w :: ws) = w.length + 1 + weight ws := by
  simp [weight]

@[simp] theorem weight_nil : weight [] = 0 := rfl

theorem weight_eq {ws : List Text} (h : ws ≠ []) : weight ws = (joinWords ws).length + 1 := by
  induction ws with
  | nil => exact absurd rfl h
  | cons w ws ih =>
    cases ws with
    | nil => rfl
    | cons v ws =>
      rw [weight_cons, ih (List.cons_ne_nil _ _), joinWords_cons (List.cons_ne_nil _ _),
        List.length_append, List.length_cons]
      omega

/-- no character of a text counts twice -/
theorem weight_tokenizeFrom_le (t current : Text) (inQuotes escaped quoted skip : Bool) :
    weight (tokenizeFrom current inQuotes escaped quoted skip t) ≤ current.length + t.length + 1 := by
  induction t generalizing current inQuotes escaped quoted skip with
  | nil =>
    rw [tokenizeFrom]
    split_ifs <;> simp
  | cons c t ih =>
    rw [tokenizeFrom]
    have hsame : ∀ a b d e, weight (tokenizeFrom current a b d e t) ≤ current.length + (c :: t).length + 1 := by
      intro a b d e
      have := ih current a b d e
      rw [List.length_cons]
      omega
    have hmore : ∀ a b d e, weight (tokenizeFrom (current ++ [c]) a b d e t)
        ≤ current.length + (c :: t).length + 1 := by
      intro a b d e
      have := ih (current ++ [c]) a b d e
      rw [List.length_append, List.length_singleton] at this
      rw [List.length_cons]
      omega
    split_ifs
    · exact hsame _ _ _ _
    · exact hmore _ _ _ _
    · exact hsame _ _ _ _
    · exact hsame _ _ _ _
    · exact hsame _ _ _ _
    · have := ih [] inQuotes false false false
      rw [weight_cons, List.length_cons]
      rw [List.length_nil] at this
      omega
    · exact hsame _ _ _ _
    · exact hmore _ _ _ _

/-- a character that is no blank and no quote -/
def isBare (c : Char) : Bool := !isBlank c && c ≠ '"'

/-- where every character counts, the words are bare -/
theorem bare_of_weight {t current : Text} (hc : current.all isBare = true)
    (h : weight (tokenizeFrom current false false false false t) = current.length + t.length + 1) :
    ∀ w ∈ tokenizeFrom current false false false false t, w ≠ [] ∧ w.all isBare = true := by
  induction t generalizing current with
  | nil =>
    rw [tokenizeFrom] at h ⊢
    by_cases hne : current = []
    · simp [hne] at h
    · rw [if_pos (.inl hne)]
      intro w hw
      rw [List.mem_singleton.1 hw]
      exact ⟨hne, hc⟩
  | cons c t ih =>
    rw [List.length_cons] at h
    -- a character that is lost leaves too few
    have hlost : ∀ a b d e, weight (tokenizeFrom current a b d e t) ≠ current.length + (t.length + 1) + 1 := by
      intro a b d e
      have := weight_tokenizeFrom_le t current a b d e
      omega
    rw [tokenizeFrom] at h ⊢
    simp only [Bool.false_eq_true, if_false, and_false, Bool.not_false, true_and, and_true,
      or_false] at h ⊢
    split_ifs at h ⊢ with hempty hquote hblank hflush
    · exact absurd h (hlost _ _ _ _)
    · exact absurd h (hlost _ _ _ _)
    · intro w hw
      rcases List.mem_cons.1 hw with rfl | hw
      · exact ⟨hflush, hc⟩
      · refine ih rfl ?_ w hw
        rw [weight_cons] at h
        rw [List.length_nil]
        omega
    · exact absurd h (hlost _ _ _ _)
    · refine ih ?_ ?_
      · rw [List.all_append, hc]
        simp [isBare, hquote, hblank]
      · rw [h, List.length_append, List.length_singleton]
        omega

/-- words that are read back are bare -/
theorem bare_of_tokenize {ws : List Text} (h : tokenize (joinWords ws) = ws) :
    ∀ w ∈ ws, w ≠ [] ∧ w.all isBare = true := by
  cases hws : ws with
  | nil => exact fun w hw => (by cases hw)
  | cons w ws' =>
    rw [← hws]
    have hw := @weight_eq ws (by rw [hws]; exact List.cons_ne_nil _ _)
    have hall := @bare_of_weight (joinWords ws) [] rfl
      (by rw [← tokenize, h, hw, List.length_nil]; omega)
    rw [← tokenize, h] at hall
    exact hall

/-- the sign of an empty value is read as an empty word -/
theorem tokenize_apostrophes {rest : Text} (hr : Ends rest) :
    tokenize ('\'' :: '\'' :: rest) = [] :: tokenize (rest.drop 1) := by
  have he : emptyValueAt ('\'' :: '\'' :: rest) = true := by
    refine emptyValueAt_iff.2 ⟨rest, rfl, fun c hc => ?_⟩
    rcases hr with rfl | ⟨more, rfl⟩
    · exact nomatch hc
    · cases hc
      decide
  have hstep : tokenize ('\'' :: '\'' :: rest) = tokenizeFrom [] false false true false rest := by
    simp [tokenize, tokenizeFrom, he]
  rw [hstep]
  exact tokenizeFrom_ends (.inr rfl) hr

theorem bare_ok {w : Text} (h : w ≠ [] ∧ w.all isBare = true) (hsign : w ≠ ['\'', '\''])
    (hline : '\n' ∉ w) : (Piece.bare w).ok = true := by
  simp only [Piece.ok, Bool.and_eq_true, decide_eq_true_eq]
  refine ⟨⟨h.1, hsign⟩, List.all_eq_true.2 fun c hc => isPlain_iff.2 ?_⟩
  have hb := List.all_eq_true.1 h.2 c hc
  simp only [isBare, Bool.and_eq_true, Bool.not_eq_true', decide_eq_true_eq] at hb
  exact ⟨hb.1, hb.2, fun he => hline (he ▸ hc)⟩

/-- **Words are read back if and only if each of them is bare.** -/
theorem tokenize_joinWords_iff {ws : List Text} (hline : ∀ w ∈ ws, '\n' ∉ w) :
    tokenize (joinWords ws) = ws ↔ ∀ w ∈ ws, (Piece.bare w).ok = true := by
  constructor
  · intro h
    have hbare := bare_of_tokenize h
    induction ws with
    | nil => exact fun w hw => (by cases hw)
    | cons w ws ih =>
      -- the rest of the line, after the first word
      obtain ⟨rest, hrest, hends, hdrop⟩ : ∃ rest, joinWords (w :: ws) = w ++ rest ∧ Ends rest ∧
          rest.drop 1 = joinWords ws := by
        cases ws with
        | nil => exact ⟨[], (List.append_nil w).symm, .inl rfl, rfl⟩
        | cons v ws => exact ⟨' ' :: joinWords (v :: ws), rfl, .inr ⟨_, rfl⟩, rfl⟩
      rw [hrest] at h
      have hsign : w ≠ ['\'', '\''] := by
        rintro rfl
        have := (tokenize_apostrophes hends).symm.trans h
        exact absurd (List.cons.inj this).1 (List.cons_ne_nil _ _).symm
      have hok := bare_ok (hbare w List.mem_cons_self) hsign (hline w List.mem_cons_self)
      have hhead := tokenize_piece hok hends
      rw [Piece.text, h, hdrop] at hhead
      have htail := (List.cons.inj hhead).2.symm
      intro v hv
      rcases List.mem_cons.1 hv with rfl | hv
      · exact hok
      · exact ih (fun v hv => hline v (List.mem_cons_of_mem _ hv)) htail
          (fun v hv => hbare v (List.mem_cons_of_mem _ hv)) v hv
  · intro h
    have := @tokenize_lineOf (ws.map Piece.bare) fun p hp => by
      obtain ⟨w, hw, rfl⟩ := List.mem_map.1 hp
      exact h w hw
    rw [lineOf, List.map_map, List.map_map] at this
    have htext : Piece.text ∘ Piece.bare = id := rfl
    have hvalue : Piece.value ∘ Piece.bare = id := rfl
    rwa [htext, hvalue, List.map_id] at this

/-! ## the words of a value -/

/-- a bare word without control characters -/
def isPlainWord (w : Text) : Bool := (Piece.bare w).ok && !w.any isControl

/-- the words that a value means: a network is an address and a mask, a list has one word for each item,
and everything else is one word -/
def valueWords (type : AttributeType) (value : Text) : Option (List Text) :=
  match type with
  | .nameList => some (splitWords value)
  | .ipv4Network =>
    match value.splitOn ' ' with
    | [address, mask] => some [address, mask]
    | _ => none
  | _ => some [value]

/-- names and texts are written in quotes -/
def isQuotedType (type : AttributeType) : Bool := type = .nameList || type = .text

/-- a value that may be written without quotes -/
def isPlainValue (type : AttributeType) (value : Text) : Bool :=
  isQuotedType type || match valueWords type value with
    | some words => words.all isPlainWord
    | none => false

theorem not_mem_of_any {t : Text} (h : t.any isControl = false) {c : Char} (hc : isControl c = true) :
    c ∉ t := by
  intro hin
  rw [List.any_eq_true.2 ⟨c, hin, hc⟩] at h
  exact nomatch h

theorem any_append_eq_false {s t : Text} : (s ++ t).any isControl = false ↔
    s.any isControl = false ∧ t.any isControl = false := by
  rw [List.any_append, Bool.or_eq_false_iff]

theorem any_joinWords {ws : List Text} : (joinWords ws).any isControl = false ↔
    ∀ w ∈ ws, w.any isControl = false := by
  induction ws with
  | nil => exact ⟨fun _ w hw => (by cases hw), fun _ => rfl⟩
  | cons w ws ih =>
    rw [List.forall_mem_cons]
    cases ws with
    | nil => exact (and_iff_left fun v hv => (by cases hv)).symm
    | cons v ws =>
      have hblank : isControl ' ' = false := by decide
      rw [joinWords_cons (List.cons_ne_nil _ _), any_append_eq_false, List.any_cons, hblank,
        Bool.false_or, ih]

theorem any_escaped (t : Text) : (escaped t).any isControl = t.any isControl := by
  induction t with
  | nil => rfl
  | cons c t ih =>
    have hslash : isControl '\\' = false := by decide
    rw [escaped_cons, List.any_append, ih, List.any_cons]
    split_ifs
    · rw [List.any_cons, hslash, Bool.false_or, List.any_cons, List.any_nil, Bool.or_false]
    · rw [List.any_cons, List.any_nil, Bool.or_false]

theorem any_inQuotes (t : Text) : (inQuotes t).any isControl = t.any isControl := by
  have hquote : isControl '"' = false := by decide
  rw [inQuotes, List.any_cons, hquote, Bool.false_or, List.any_append, any_escaped, List.any_cons,
    hquote, List.any_nil, Bool.or_false, Bool.or_false]

theorem quoted_eq_ok {value q : Text} (h : quoted value = .ok q) :
    q = inQuotes value ∧ value.any isControl = false := by
  rw [quoted] at h
  split_ifs at h with hc
  cases h
  exact ⟨rfl, by simpa using hc⟩

theorem mapM_quoted_eq_ok {items qs : List Text} (h : items.mapM quoted = .ok qs) :
    qs = items.map inQuotes ∧ ∀ v ∈ items, v.any isControl = false := by
  have hall := mapM_eq_ok.1 h
  clear h
  induction hall with
  | nil => exact ⟨rfl, fun v hv => (by cases hv)⟩
  | cons hq _ ih =>
    obtain ⟨rfl, hc⟩ := quoted_eq_ok hq
    exact ⟨congrArg _ ih.1, List.forall_mem_cons.2 ⟨hc, ih.2⟩⟩

/-- a value without quotes is read as it is meant if and only if it is plain -/
theorem plain_iff {type : AttributeType} (ht : isQuotedType type = false) {value : Text} :
    (value.any isControl = false ∧ valueWords type value ≠ none ∧
      some (tokenize value) = valueWords type value) ↔ isPlainValue type value = true := by
  -- whatever the words are, the value is these words with blanks between them
  have hwords : ∀ ws, joinWords ws = value →
      ((value.any isControl = false ∧ tokenize value = ws) ↔ ws.all isPlainWord = true) := by
    rintro ws rfl
    have hplain : ws.all isPlainWord = true ↔
        (∀ w ∈ ws, w.any isControl = false) ∧ ∀ w ∈ ws, (Piece.bare w).ok = true := by
      rw [List.all_eq_true]
      simp only [isPlainWord, Bool.and_eq_true, Bool.not_eq_true']
      exact ⟨fun h => ⟨fun w hw => (h w hw).2, fun w hw => (h w hw).1⟩,
        fun h w hw => ⟨h.2 w hw, h.1 w hw⟩⟩
    rw [any_joinWords, hplain]
    refine and_congr_right fun hc => tokenize_joinWords_iff fun w hw => not_mem_of_any (hc w hw) ?_
    decide
  have hone : valueWords type value = some [value] →
      ((value.any isControl = false ∧ valueWords type value ≠ none ∧
        some (tokenize value) = valueWords type value) ↔ isPlainValue type value = true) := by
    intro he
    rw [isPlainValue, ht, he, Bool.false_or, ← hwords [value] rfl]
    simp
  cases type with
  | nameList => exact nomatch ht
  | text => exact nomatch ht
  | ipv4Network =>
    rw [isPlainValue, ht, Bool.false_or, valueWords]
    have hsplit := joinWords_splitOn value
    split
    · rename_i address mask hparts
      rw [hparts] at hsplit
      rw [← hwords _ hsplit]
      simp
    · simp
  | ipv4Address => exact hone rfl
  | macAddress => exact hone rfl
  | integer => exact hone rfl

/-! ## the words of a line -/

/-- the tokenizer of the platform: every line has words -/
def lineWords (line : Text) : Option (List Text) := some (tokenize line)

theorem tokenize_blanks {i : Text} (hi : ∀ c ∈ i, c = ' ') (t : Text) : tokenize (i ++ t) = tokenize t := by
  induction i with
  | nil => rfl
  | cons c i ih =>
    obtain rfl := hi c List.mem_cons_self
    have hstep : tokenize (' ' :: i ++ t) = tokenize (i ++ t) := by
      have he : emptyValueAt (' ' :: (i ++ t)) = false := by simp [emptyValueAt]
      have hb : isBlank ' ' = true := by decide
      simp [tokenize, tokenizeFrom, he, hb]
    rw [hstep]
    exact ih fun c hc => hi c (List.mem_cons_of_mem _ hc)

theorem ok_of_plain {w : Text} (h : isPlainWord w = true) : (Piece.bare w).ok = true :=
  (Bool.and_eq_true_iff.1 h).1

theorem any_of_plain {w : Text} (h : isPlainWord w = true) : w.any isControl = false := by
  simpa using (Bool.and_eq_true_iff.1 h).2

/-- a line of a bare word and a rest -/
theorem readsAs_word {w rest : Text} (hw : isPlainWord w = true) {words : Option (List Text)}
    {i : Text} (hi : ∀ c ∈ i, c = ' ') :
    ReadsAs lineWords (i ++ w ++ ' ' :: rest) (words.map (w :: ·)) ↔ ReadsAs lineWords rest words := by
  have hblanks : i.any isControl = false := by
    rw [List.any_eq_false]
    intro c hc
    rw [hi c hc]
    decide
  have hblank : isControl ' ' = false := by decide
  have htokens : tokenize (i ++ w ++ ' ' :: rest) = w :: tokenize rest := by
    rw [List.append_assoc, tokenize_blanks hi]
    exact tokenize_piece (ok_of_plain hw) (.inr ⟨rest, rfl⟩)
  rw [ReadsAs, ReadsAs, any_append_eq_false, any_append_eq_false, List.any_cons, hblank, hblanks,
    any_of_plain hw, lineWords, lineWords, htokens]
  cases words with
  | none => simp
  | some ws => simp

/-- a line of bare words -/
theorem readsAs_bare {ws : List Text} (h : ∀ w ∈ ws, isPlainWord w = true) :
    ReadsAs lineWords (joinWords ws) (some ws) := by
  refine ⟨any_joinWords.2 fun w hw => any_of_plain (h w hw), Option.some_ne_none _, ?_⟩
  have hline : ∀ w ∈ ws, '\n' ∉ w := fun w hw => not_mem_of_any (any_of_plain (h w hw)) (by decide)
  exact congrArg some ((tokenize_joinWords_iff hline).2 fun w hw => ok_of_plain (h w hw))

theorem readsAs_quoted {items : List Text} (h : ∀ v ∈ items, v.any isControl = false) :
    ReadsAs lineWords (joinWords (items.map inQuotes)) (some items) := by
  refine ⟨any_joinWords.2 ?_, Option.some_ne_none _, ?_⟩
  · intro q hq
    obtain ⟨v, hv, rfl⟩ := List.mem_map.1 hq
    rw [any_inQuotes]
    exact h v hv
  · have htokens := @tokenize_lineOf (items.map Piece.quoted) fun p hp => by
      obtain ⟨v, -, rfl⟩ := List.mem_map.1 hp
      rfl
    rw [lineOf, List.map_map, List.map_map] at htokens
    have hvalue : Piece.value ∘ Piece.quoted = id := rfl
    rw [hvalue, List.map_id] at htokens
    exact congrArg some htokens

def eightBlanks : Text := "        ".toList

theorem eightBlanks_blank : ∀ c ∈ eightBlanks, c = ' ' := by
  intro c hc
  exact of_decide_eq_true (List.all_eq_true.1 (rfl : eightBlanks.all (fun c => decide (c = ' ')) = true) c hc)

/-- the type of an attribute -/
def typeOf (profile : Profile) (name : Text) : Option AttributeType :=
  (Dict.get name profile.attributes).map Attribute.type

def setWords (profile : Profile) (x : Text × Text) : Option (List Text) :=
  ((typeOf profile x.1).bind fun type => valueWords type x.2).map fun words =>
    "set".toList :: x.1 :: words

def unsetWords (name : Text) : Option (List Text) := some ["unset".toList, name]

/-- a value of this attribute may be written as it is -/
def isPlainAttribute (profile : Profile) (x : Text × Text) : Bool :=
  (typeOf profile x.1).all fun type => isPlainValue type x.2

theorem isPlainWord_set : isPlainWord "set".toList = true := by decide
theorem isPlainWord_unset : isPlainWord "unset".toList = true := by decide
theorem isPlainWord_edit : isPlainWord "edit".toList = true := by decide
theorem isPlainWord_delete : isPlainWord "delete".toList = true := by decide

/-- the rendered value is read as the words of the value -/
theorem readsAs_renderValue {profile : Profile} {name value r : Text} {type : AttributeType}
    (ht : typeOf profile name = some type) (h : renderValue profile name value = .ok r) :
    ReadsAs lineWords r (valueWords type value) ↔ isPlainValue type value = true := by
  rw [renderValue] at h
  rw [typeOf] at ht
  rw [ht] at h
  have hraw : isQuotedType type = false → r = value →
      (ReadsAs lineWords r (valueWords type value) ↔ isPlainValue type value = true) := by
    rintro hq rfl
    exact plain_iff hq
  cases type with
  | nameList =>
    obtain ⟨qs, hqs, rfl⟩ := map_eq_ok.1 h
    have hqs := mapM_quoted_eq_ok hqs
    rw [hqs.1]
    exact ⟨fun _ => rfl, fun _ => readsAs_quoted hqs.2⟩
  | text =>
    obtain ⟨rfl, hc⟩ := quoted_eq_ok h
    refine ⟨fun _ => rfl, fun _ => ?_⟩
    have := @readsAs_quoted [value] fun v hv => by rw [List.mem_singleton.1 hv]; exact hc
    exact this
  | ipv4Network => exact hraw rfl (Except.ok.inj h).symm
  | ipv4Address => exact hraw rfl (Except.ok.inj h).symm
  | macAddress => exact hraw rfl (Except.ok.inj h).symm
  | integer => exact hraw rfl (Except.ok.inj h).symm

section
variable {profile : Profile} (hnames : ∀ x ∈ profile.attributes, isPlainWord x.1 = true)
include hnames

theorem readsAs_setLine {x : Text × Text} {r : Text} (h : renderValue profile x.1 x.2 = .ok r) :
    ReadsAs lineWords (setLine x.1 r) (setWords profile x) ↔ isPlainAttribute profile x = true := by
  cases ht : Dict.get x.1 profile.attributes with
  | none =>
    rw [renderValue, ht] at h
    exact nomatch h
  | some a =>
    have htype : typeOf profile x.1 = some a.type := by rw [typeOf, ht]; rfl
    have hline : setLine x.1 r = eightBlanks ++ "set".toList ++ ' ' :: ([] ++ x.1 ++ ' ' :: r) := rfl
    have hname := hnames _ (Dict.mem_of_get ht)
    rw [setWords, isPlainAttribute, htype, Option.bind_some, hline]
    have hmap : (valueWords a.type x.2).map (fun words => "set".toList :: x.1 :: words) =
        ((valueWords a.type x.2).map (x.1 :: ·)).map ("set".toList :: ·) := by
      rw [Option.map_map]
      rfl
    rw [hmap, readsAs_word isPlainWord_set eightBlanks_blank, readsAs_word hname (by simp),
      readsAs_renderValue htype h]
    rfl

theorem readAs_setLines {attributes : Engine.State} {lines : List Text}
    (h : setLines profile attributes = .ok lines) :
    ReadAs lineWords lines ((Dict.sorted attributes).map (setWords profile)) ↔
      ∀ x ∈ attributes, isPlainAttribute profile x = true := by
  have hmem : (∀ x ∈ attributes, isPlainAttribute profile x = true) ↔
      ∀ x ∈ Dict.sorted attributes, isPlainAttribute profile x = true :=
    forall_congr' fun x => by rw [(Dict.sorted_perm attributes).mem_iff]
  rw [hmem]
  have hall := mapM_eq_ok.1 h
  clear h hmem
  generalize Dict.sorted attributes = l at hall
  induction hall with
  | nil => exact ⟨fun _ x hx => (nomatch hx), fun _ => readAs_nil⟩
  | cons hx _ ih =>
    obtain ⟨r, hr, rfl⟩ := map_eq_ok.1 hx
    rw [List.map_cons, ReadAs, List.forall₂_cons, readsAs_setLine hnames hr, List.forall_mem_cons]
    exact and_congr_right fun _ => ih

end

/-! ## the words of a change -/

/-- the key in its own table -/
def localKeyOf (profile : Profile) (key : Text) : Text :=
  if profile.table = reservedTable then ((key.splitOn ':').drop 1).headD [] else key

/-- what stands before an entry -/
def openWords (profile : Profile) (key : Text) : List (List Text) :=
  if profile.table = reservedTable then
    [["config", "system", "dhcp", "server"].map String.toList,
      ["edit".toList, (key.splitOn ':').headD []], ["config", "reserved-address"].map String.toList]
  else ["config".toList :: splitWords profile.table]

/-- and after it -/
def closeWords (profile : Profile) : List (List Text) :=
  if profile.table = reservedTable then [["end".toList], ["next".toList], ["end".toList]]
  else [["end".toList]]

/-- an entry with these lines in it -/
def entryWords (profile : Profile) (key : Text) (inner : List (Option (List Text))) :
    List (Option (List Text)) :=
  (openWords profile key).map some ++ [some ["edit".toList, localKeyOf profile key]] ++ inner ++
    [some ["next".toList]] ++ (closeWords profile).map some

def wording : Wording where
  create profile key attributes :=
    entryWords profile key ((Dict.sorted attributes).map (setWords profile))
  update profile key assign remove :=
    entryWords profile key ((Dict.sorted assign).map (setWords profile) ++
      (remove.insertionSort (· ≤ ·)).map unsetWords)
  delete profile key :=
    (openWords profile key).map some ++ [some ["delete".toList, localKeyOf profile key]] ++
      (closeWords profile).map some

/-- names of a profile and a key that are bare words -/
structure Spoken (profile : Profile) (key : Text) : Prop where
  names : ∀ x ∈ profile.attributes, isPlainWord x.1 = true
  table : profile.table ≠ reservedTable → joinWords (splitWords profile.table) = profile.table ∧
    splitWords profile.table ≠ [] ∧ ∀ w ∈ splitWords profile.table, isPlainWord w = true
  pair : profile.table = reservedTable → ∃ sid rid, key.splitOn ':' = [sid, rid] ∧
    isPlainWord sid = true ∧ isPlainWord rid = true

/-- the lines around an entry are read as they are meant -/
structure Framed (profile : Profile) (key : Text) (c : Context) : Prop where
  hbefore : ReadAs lineWords c.before ((openWords profile key).map some)
  hkey : ReadsAs lineWords c.localKey (some [localKeyOf profile key])
  hafter : ReadAs lineWords c.after ((closeWords profile).map some)

theorem readsAs_words {line : Text} {words : List Text} (hline : line = joinWords words)
    (h : ∀ w ∈ words, isPlainWord w = true) : ReadsAs lineWords line (some words) := by
  rw [hline]
  exact readsAs_bare h

theorem Spoken.framed {profile : Profile} {key : Text} (hs : Spoken profile key) {c : Context}
    (h : context profile key = .ok c) : Framed profile key c := by
  rw [context] at h
  by_cases ht : profile.table = reservedTable
  · obtain ⟨sid, rid, hkey, hsid, hrid⟩ := hs.pair ht
    rw [if_pos ht, hkey] at h
    cases h
    refine ⟨?_, ?_, ?_⟩
    · rw [openWords, if_pos ht, hkey]
      refine .cons (readsAs_words rfl (by decide)) (.cons ?_ (.cons (readsAs_words rfl (by decide)) .nil))
      refine readsAs_words rfl fun w hw => ?_
      rcases List.mem_cons.1 hw with rfl | hw
      · exact isPlainWord_edit
      · rw [List.mem_singleton.1 hw]
        exact hsid
    · rw [localKeyOf, if_pos ht, hkey]
      exact readsAs_words rfl fun w hw => by rw [List.mem_singleton.1 hw]; exact hrid
    · rw [closeWords, if_pos ht]
      exact .cons (readsAs_words rfl (by decide)) (.cons (readsAs_words rfl (by decide))
        (.cons (readsAs_words rfl (by decide)) .nil))
  · rw [if_neg ht] at h
    obtain ⟨q, hq, rfl⟩ := map_eq_ok.1 h
    obtain ⟨rfl, hc⟩ := quoted_eq_ok hq
    obtain ⟨hjoin, hne, hplain⟩ := hs.table ht
    refine ⟨?_, ?_, ?_⟩
    · rw [openWords, if_neg ht]
      refine .cons (readsAs_words ?_ ?_) .nil
      · rw [joinWords_cons hne, hjoin]
        rfl
      · exact List.forall_mem_cons.2 ⟨by decide, hplain⟩
    · rw [localKeyOf, if_neg ht]
      have := @readsAs_quoted [key] fun v hv => by rw [List.mem_singleton.1 hv]; exact hc
      exact this
    · rw [closeWords, if_neg ht]
      exact .cons (readsAs_words rfl (by decide)) .nil

section
variable {profile : Profile} {key : Text} (hs : Spoken profile key)
include hs

/-- an entry is read as it is meant if its inner lines are -/
theorem readAs_entry {c : Context} (h : context profile key = .ok c) {inner : List Text}
    {words : List (Option (List Text))} (hlength : inner.length = words.length) :
    ReadAs lineWords (c.before ++ [editLine c.localKey] ++ inner ++ [nextLine] ++ c.after)
      (entryWords profile key words) ↔ ReadAs lineWords inner words := by
  have hf := hs.framed h
  have hedit : ReadsAs lineWords (editLine c.localKey) (some ["edit".toList, localKeyOf profile key]) := by
    have := (readsAs_word isPlainWord_edit (i := fourBlanks) fourBlanks_blank).2 hf.hkey
    exact this
  have hnext : ReadsAs lineWords nextLine (some ["next".toList]) := by
    rw [ReadsAs, lineWords]
    decide
  have hlen := List.Forall₂.length_eq hf.hbefore
  rw [entryWords, readAs_append (by simp [hlen, hlength]), readAs_append (by simp [hlen, hlength]),
    readAs_append (by simp [hlen]), readAs_append (by simp [hlen]), readAs_single, readAs_single]
  simp only [hf.hbefore, hf.hafter, hedit, hnext, true_and, and_true]

theorem readAs_renderCreate {attributes : Engine.State} {lines : List Text}
    (h : renderCreate profile key attributes = .ok lines) :
    ReadAs lineWords lines (wording.create profile key attributes) ↔
      ∀ x ∈ attributes, isPlainAttribute profile x = true := by
  rw [renderCreate] at h
  obtain ⟨c, hc, h⟩ := bind_eq_ok.1 h
  obtain ⟨sets, hsets, h⟩ := bind_eq_ok.1 h
  cases h
  have hlen := List.Forall₂.length_eq (mapM_eq_ok.1 hsets)
  rw [← readAs_setLines hs.names hsets]
  exact readAs_entry hs hc (by rw [List.length_map, hlen])

theorem readAs_renderUpdate {assign : Engine.State} {remove lines : List Text}
    (hremove : ∀ name ∈ remove, isPlainWord name = true)
    (h : renderUpdate profile key assign remove = .ok lines) :
    ReadAs lineWords lines (wording.update profile key assign remove) ↔
      ∀ x ∈ assign, isPlainAttribute profile x = true := by
  rw [renderUpdate] at h
  obtain ⟨c, hc, h⟩ := bind_eq_ok.1 h
  obtain ⟨sets, hsets, h⟩ := bind_eq_ok.1 h
  cases h
  have hlen := List.Forall₂.length_eq (mapM_eq_ok.1 hsets)
  have hunset : ReadAs lineWords ((remove.insertionSort (· ≤ ·)).map unsetLine)
      ((remove.insertionSort (· ≤ ·)).map unsetWords) := by
    refine readAs_map.2 fun name hname => ?_
    have hplain := hremove name ((List.mem_insertionSort _).1 hname)
    have := (readsAs_word isPlainWord_unset (i := eightBlanks) eightBlanks_blank).2
      (@readsAs_bare [name] fun w hw => by rw [List.mem_singleton.1 hw]; exact hplain)
    exact this
  rw [← readAs_setLines hs.names hsets]
  have hentry := @readAs_entry _ _ hs c hc (sets ++ (remove.insertionSort (· ≤ ·)).map unsetLine)
    ((Dict.sorted assign).map (setWords profile) ++ (remove.insertionSort (· ≤ ·)).map unsetWords)
    (by simp [hlen])
  rw [readAs_append (by rw [List.length_map, hlen]), and_iff_left hunset] at hentry
  rw [← hentry, ← List.append_assoc]
  rfl

theorem readAs_renderDelete {lines : List Text} (h : renderDelete profile key = .ok lines) :
    ReadAs lineWords lines (wording.delete profile key) := by
  rw [renderDelete] at h
  obtain ⟨c, hc, h⟩ := bind_eq_ok.1 h
  cases h
  have hf := hs.framed hc
  have hdelete : ReadsAs lineWords (deleteLine c.localKey)
      (some ["delete".toList, localKeyOf profile key]) := by
    have := (readsAs_word isPlainWord_delete (i := fourBlanks) fourBlanks_blank).2 hf.hkey
    exact this
  exact List.rel_append (List.rel_append hf.hbefore (.cons hdelete .nil)) hf.hafter

end

/-! ## the values of a request -/

/-- a printable character that has no meaning of its own in a line -/
def isGraphic (c : Char) : Bool := 33 ≤ c.toNat && c.toNat ≤ 126 && c ≠ '"' && c ≠ '\''

theorem isPlainWord_of_graphic {w : Text} (hne : w ≠ []) (h : ∀ c ∈ w, isGraphic c = true) :
    isPlainWord w = true := by
  have hchar : ∀ c ∈ w, 33 ≤ c.toNat ∧ c.toNat ≤ 126 ∧ c ≠ '"' ∧ c ≠ '\'' := by
    intro c hc
    have := h c hc
    simp only [isGraphic, Bool.and_eq_true, decide_eq_true_eq] at this
    exact ⟨this.1.1.1, this.1.1.2, this.1.2, this.2⟩
  simp only [isPlainWord, Piece.ok, Bool.and_eq_true, decide_eq_true_eq, Bool.not_eq_true']
  refine ⟨⟨⟨hne, ?_⟩, List.all_eq_true.2 fun c hc => isPlain_iff.2 ⟨?_, (hchar c hc).2.2.1, ?_⟩⟩, ?_⟩
  · rintro rfl
    exact (hchar '\'' List.mem_cons_self).2.2.2 rfl
  · rw [isBlank, Bool.or_eq_false_iff, decide_eq_false_iff_not, decide_eq_false_iff_not]
    constructor
    · rintro rfl
      exact absurd (hchar _ hc).1 (by decide)
    · rintro rfl
      exact absurd (hchar _ hc).1 (by decide)
  · rintro rfl
    exact absurd (hchar _ hc).1 (by decide)
  · rw [List.any_eq_false]
    intro c hc
    have hlow := (hchar c hc).1
    have hhigh := (hchar c hc).2.1
    simp only [isControl, Bool.or_eq_true, decide_eq_true_eq, not_or]
    omega

theorem isGraphic_of_digit {c : Char} (h : c.isDigit = true) : isGraphic c = true := by
  rw [Char.isDigit, Bool.and_eq_true, decide_eq_true_eq, decide_eq_true_eq] at h
  have hlow : 48 ≤ c.toNat := h.1
  have hhigh : c.toNat ≤ 57 := h.2
  simp only [isGraphic, Bool.and_eq_true, decide_eq_true_eq]
  refine ⟨⟨⟨by omega, by omega⟩, ?_⟩, ?_⟩
  · rintro rfl
    exact absurd hlow (by decide)
  · rintro rfl
    exact absurd hlow (by decide)

theorem decimalText_graphic (n : Nat) : ∀ c ∈ decimalText n, isGraphic c = true := fun _ hc =>
  isGraphic_of_digit (Nat.isDigit_of_mem_toDigits (by decide) (by decide) hc)

theorem addressText_graphic (n : Nat) : ∀ c ∈ addressText n, isGraphic c = true := by
  have hdot : isGraphic '.' = true := by decide
  intro c hc
  simp only [addressText, List.mem_append, List.mem_cons] at hc
  rcases hc with ((hc | rfl | hc) | rfl | hc) | rfl | hc
  · exact decimalText_graphic _ c hc
  · exact hdot
  · exact decimalText_graphic _ c hc
  · exact hdot
  · exact decimalText_graphic _ c hc
  · exact hdot
  · exact decimalText_graphic _ c hc

theorem addressText_ne_nil (n : Nat) : addressText n ≠ [] := by
  rw [addressText]
  exact fun h => (nomatch (List.append_eq_nil_iff.1 h).2)

theorem isPlainWord_addressText (n : Nat) : isPlainWord (addressText n) = true :=
  isPlainWord_of_graphic (addressText_ne_nil n) (addressText_graphic n)

theorem isPlainWord_int (n : Int) : isPlainWord (toString n).toList = true := by
  have hdash : isGraphic '-' = true := by decide
  have hnat : ∀ k : Nat, ∀ c ∈ k.repr.toList, isGraphic c = true := by
    intro k c hc
    rw [Nat.toList_repr] at hc
    exact decimalText_graphic k c hc
  have hne : ∀ k : Nat, k.repr.toList ≠ [] := by
    intro k
    rw [Nat.toList_repr]
    exact Nat.toDigits_ne_nil
  rw [Int.toString_eq_repr, Int.repr_eq_if]
  split_ifs
  · exact isPlainWord_of_graphic (hne _) (hnat _)
  · rw [String.toList_append]
    refine isPlainWord_of_graphic (fun h => hne _ (List.append_eq_nil_iff.1 h).2) fun c hc => ?_
    rcases List.mem_append.1 hc with hc | hc
    · rw [List.mem_singleton.1 hc]
      exact hdash
    · exact hnat _ c hc

theorem lowerChar_graphic {c : Char} (h : isHex c = true) : isGraphic (lowerChar c) = true := by
  have hlist : ∀ c ∈ "0123456789abcdefABCDEF".toList, isGraphic (lowerChar c) = true :=
    List.all_eq_true.1 (by decide)
  refine hlist c ?_
  have hrange : (48 ≤ c.toNat ∧ c.toNat ≤ 57) ∨ (97 ≤ c.toNat ∧ c.toNat ≤ 102) ∨
      (65 ≤ c.toNat ∧ c.toNat ≤ 70) := by
    simp only [isHex, isDigit, Bool.or_eq_true, Bool.and_eq_true, decide_eq_true_eq] at h
    rcases h with (⟨h1, h2⟩ | ⟨h1, h2⟩) | ⟨h1, h2⟩
    · exact .inl ⟨h1, h2⟩
    · exact .inr (.inl ⟨h1, h2⟩)
    · exact .inr (.inr ⟨h1, h2⟩)
  have hall : ∀ n : Fin 103, (48 ≤ n.val ∧ n.val ≤ 57) ∨ (97 ≤ n.val ∧ n.val ≤ 102) ∨
      (65 ≤ n.val ∧ n.val ≤ 70) → Char.ofNat n.val ∈ "0123456789abcdefABCDEF".toList := by decide
  have := hall ⟨c.toNat, by omega⟩ hrange
  rwa [Char.ofNat_toNat] at this

theorem mem_of_mem_intersperse {α : Type} {x sep : α} {l : List α} (h : x ∈ l.intersperse sep) :
    x = sep ∨ x ∈ l := by
  induction l with
  | nil => exact .inr h
  | cons y l ih =>
    cases l with
    | nil => exact .inr h
    | cons z l =>
      rw [List.intersperse_cons_cons, List.mem_cons, List.mem_cons] at h
      rcases h with rfl | rfl | h
      · exact .inr List.mem_cons_self
      · exact .inl rfl
      · exact (ih h).imp_right (List.mem_cons_of_mem _)

/-- a character that is no separator stands in one of the parts -/
theorem exists_mem_splitOn {t : Text} {c sep : Char} (hc : c ∈ t) (hne : c ≠ sep) :
    ∃ part ∈ t.splitOn sep, c ∈ part := by
  rw [← @List.intercalate_splitOn _ t _ _ sep, List.intercalate, List.mem_flatten] at hc
  obtain ⟨part, hpart, hin⟩ := hc
  rcases mem_of_mem_intersperse hpart with rfl | hpart
  · exact absurd (List.mem_singleton.1 hin) hne
  · exact ⟨part, hpart, hin⟩

theorem mac_graphic {t : Text} (h : isMac t = true) : ∀ c ∈ t.map lowerChar, isGraphic c = true := by
  rw [isMac, Bool.and_eq_true, List.all_eq_true] at h
  intro c hc
  obtain ⟨d, hd, rfl⟩ := List.mem_map.1 hc
  by_cases hcolon : d = ':'
  · rw [hcolon]
    decide
  · obtain ⟨part, hpart, hin⟩ := exists_mem_splitOn hd hcolon
    have := h.2 part hpart
    rw [Bool.and_eq_true, List.all_eq_true] at this
    exact lowerChar_graphic (this.2 d hin)

/-- a network is written as an address and a mask -/
theorem isPlainValue_network (a m : Nat) :
    isPlainValue .ipv4Network (addressText a ++ ' ' :: addressText m) = true := by
  have hblank : ∀ n, ' ' ∉ addressText n := fun n h => absurd (addressText_graphic n ' ' h) (by decide)
  have hsplit : (addressText a ++ ' ' :: addressText m).splitOn ' ' = [addressText a, addressText m] := by
    rw [List.splitOn_append_cons_self_of_not_mem (hblank a), List.splitOn_eq_singleton (hblank m)]
  rw [isPlainValue, valueWords, hsplit]
  dsimp only
  rw [List.all_cons, List.all_cons, isPlainWord_addressText, isPlainWord_addressText]
  rfl

theorem isPlainValue_canonicalInteger {a : Attribute} {name v : Text} {n : Int}
    (h : canonicalInteger a name n = .ok v) : isPlainValue .integer v = true := by
  rw [canonicalInteger] at h
  split_ifs at h
  cases h
  show ([(toString n).toList].all isPlainWord) = true
  rw [List.all_cons, isPlainWord_int]
  rfl

/-- what a request gives may be written as it is -/
theorem isPlainValue_canonicalValue {letters : Letters} {a : Attribute} {name v : Text}
    {platform : Engine.Platform} {change : Engine.Change} (h : canonicalValue letters a name platform change = .ok v) :
    isPlainValue a.type v = true := by
  have hword : isPlainWord v = true → isQuotedType a.type = false →
      valueWords a.type v = some [v] → isPlainValue a.type v = true := by
    intro hv hq hwords
    rw [isPlainValue, hq, hwords]
    dsimp only
    rw [List.all_cons, hv]
    rfl
  unfold canonicalValue at h
  cases ht : a.type with
  | nameList => rfl
  | text => rfl
  | ipv4Network =>
    rw [ht] at h
    cases change with
    | text t =>
      dsimp only at h
      rw [canonicalNetwork] at h
      split at h
      · split at h
        · cases h
          exact isPlainValue_network _ _
        · cases h
      · cases h
    | _ => cases h
  | ipv4Address =>
    rw [ht] at h hword
    cases change with
    | text t =>
      dsimp only at h
      split at h
      · cases h
        exact hword (isPlainWord_addressText _) rfl rfl
      · cases h
    | _ => cases h
  | macAddress =>
    rw [ht] at h hword
    cases change with
    | text t =>
      dsimp only at h
      split_ifs at h with hmac hcast
      cases h
      have hmac : isMac t = true := by simpa using hmac
      refine hword (isPlainWord_of_graphic (fun hnil => ?_) (mac_graphic hmac)) rfl rfl
      rw [List.map_eq_nil_iff] at hnil
      rw [hnil] at hmac
      cases hmac
    | _ => cases h
  | integer =>
    rw [ht] at h
    cases change with
    | int n => exact isPlainValue_canonicalInteger h
    | text t =>
      dsimp only at h
      split_ifs at h
      exact isPlainValue_canonicalInteger h
    | _ => cases h

/-! ## plans -/

end Netops.Fortios

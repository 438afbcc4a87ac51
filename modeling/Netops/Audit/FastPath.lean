import Netops.Lib.JsonTexts
import Netops.Lib.Needles
import Netops.Audit.Redaction

/-!
# The fast path of `redact`

`visit` returns a string at once where `has_candidate` finds nothing in it and no known secret stands
in it.  The long way (`visitText`) would return the same: every expression it applies needs one of
the words of `CANDIDATE`, and so does every key whose value is hidden.  The windows of `has_candidate`
lose nothing.

There is one difference.  The long way decodes a JSON text and walks over what it finds, and for a
text that nests too deep there are not enough nested calls for that; the fast path has no such limit.
-/

namespace Netops.Redaction

open Json Regex

/-! ## the words of `CANDIDATE` -/

/-- a character of a field name: both `-` and `_` stand for `_` -/
def fieldChar (c n : Nat) : Bool :=
  if c = 95 then n = 45 || n = 95 else ignoringCase (Char.ofNat c) n

def candidateWords : List (List (Nat → Bool)) :=
  ["\\".toList.map fun c n => decide (n = c.toNat), "-----begin ".toList.map ignoringCase,
    "passwd".toList.map ignoringCase, "community".toList.map ignoringCase]
    ++ secretFields.map fun field => field.map fieldChar

theorem candidate_eq : candidate = oneOf (candidateWords.map word) := by
  rw [candidateWords, List.map_append, List.map_map]
  rfl

theorem occursIn_candidate (s : Text) : occursIn candidate s = true ↔ Found candidateWords s := by
  rw [candidate_eq, occursIn_words]

theorem spells_exactly {w : String} {x : Text} :
    Spells (w.toList.map fun c n => decide (n = c.toNat)) x ↔ x = text w := by
  rw [Spells, List.forall₂_map_left_iff, text, eq_comm, ← List.forall₂_eq_eq_eq,
    List.forall₂_map_left_iff]
  simp only [decide_eq_true_eq]
  exact ⟨fun h => h.imp fun _ _ he => he.symm, fun h => h.imp fun _ _ he => he.symm⟩

/-- a text with a backslash has a candidate -/
theorem found_of_backslash {s : Text} (h : 92 ∈ s) : Found candidateWords s := by
  refine ⟨_, List.mem_append_left _ (List.mem_cons_self ..), [92], spells_exactly.2 (by decide), ?_⟩
  obtain ⟨a, b, rfl⟩ := List.append_of_mem h
  exact ⟨a, b, by simp⟩

theorem length_candidateWords : ∀ n ∈ candidateWords.tail.map List.length, 5 ≤ n ∧ n ≤ 65 := by
  decide +kernel

/-- a candidate is a backslash or has at least five characters, and never more than the windows
overlap -/
theorem length_of_spells {w : List (Nat → Bool)} (hw : w ∈ candidateWords) {x : Text}
    (hx : Spells w x) : x = [92] ∨ 5 ≤ x.length ∧ x.length ≤ 65 := by
  rcases List.mem_cons.1 hw with rfl | hw
  · exact .inl (spells_exactly.1 hx)
  · right
    rw [← hx.length_eq]
    exact length_candidateWords _ (List.mem_map.2 ⟨w, hw, rfl⟩)

/-- the windows lose no candidate -/
theorem hasCandidate_iff (s : Text) : hasCandidate s = true ↔ Found candidateWords s := by
  rw [hasCandidate]
  constructor
  · intro h
    split at h
    · exact nomatch h
    · obtain ⟨i, -, hi⟩ := List.any_eq_true.1 h
      have hwindow : (s.drop (i * 16384)).take 16448 <:+: s :=
        (List.take_prefix _ _).isInfix.trans (List.drop_suffix _ _).isInfix
      exact ((occursIn_candidate _).1 hi).mono hwindow
  · rintro ⟨w, hw, x, hx, hin⟩
    have hlen := length_of_spells hw hx
    have hshort : ¬(s.length < minCandidateLength ∧ 92 ∉ s) := by
      rintro ⟨hlt, hesc⟩
      rcases hlen with rfl | hlen
      · exact hesc (hin.subset (List.mem_singleton.2 rfl))
      · have hle := hin.length_le
        rw [minCandidateLength] at hlt
        omega
    have hne : x ≠ [] := by
      rintro rfl
      rcases hlen with h | h
      · exact nomatch h
      · exact absurd h.1 (by decide)
    have hle : x.length ≤ 64 + 1 := by
      rcases hlen with rfl | h
      · decide
      · exact h.2
    rw [if_neg hshort, List.any_eq_true]
    obtain ⟨i, hi, hwin⟩ := exists_window (k := 16384) (m := 64) (by decide) hin hne hle
    exact ⟨i, List.mem_range.2 hi, (occursIn_candidate _).2 ⟨w, hw, x, hx, hwin⟩⟩

theorem hasCandidate_eq_false {s : Text} : hasCandidate s = false ↔ ¬Found candidateWords s := by
  rw [← hasCandidate_iff, Bool.not_eq_true]

/-! ## what the expressions need -/

theorem fieldChar_toNat {c : Char} (h : c ≠ '_') : fieldChar c.toNat = ignoringCase c := by
  have hc : c.toNat ≠ 95 := fun he => h (Char.toNat_inj.1 he)
  funext n
  rw [fieldChar, if_neg hc, Char.ofNat_toNat]

/-- the name of a field, as a word of an expression -/
theorem needs_caseless {w : String} (hw : text w ∈ secretFields) (h : '_' ∉ w.toList) :
    Needs candidateWords (caseless w) := by
  have hword : (text w).map fieldChar = w.toList.map ignoringCase := by
    rw [text, List.map_map]
    refine List.map_congr_left fun c hc => fieldChar_toNat ?_
    rintro rfl
    exact h hc
  refine needs_word fun x hx => ⟨(text w).map fieldChar, ?_, x, ?_, List.infix_refl x⟩
  · exact List.mem_append_right _ (List.mem_map.2 ⟨_, hw, rfl⟩)
  · rw [hword]
    exact hx

theorem needs_passwd : Needs candidateWords (caseless "passwd") :=
  needs_word fun x hx => ⟨_, by simp [candidateWords], x, hx, List.infix_refl x⟩

theorem needs_community : Needs candidateWords (caseless "community") :=
  needs_word fun x hx => ⟨_, by simp [candidateWords], x, hx, List.infix_refl x⟩

theorem needs_password : Needs candidateWords (caseless "password") :=
  needs_caseless (by decide) (by decide)

theorem needs_passphrase : Needs candidateWords (caseless "passphrase") :=
  needs_caseless (by decide) (by decide)

theorem needs_secret : Needs candidateWords (caseless "secret") :=
  needs_caseless (by decide) (by decide)

theorem needs_token : Needs candidateWords (caseless "token") :=
  needs_caseless (by decide) (by decide)

theorem needs_assignment : Needs candidateWords (.seq assignment.kept assignment.hidden) := by
  refine needs_seq_right (needs_seq_left (needs_oneOf ?_))
  simp only [List.map_cons, List.map_nil, List.forall_mem_cons]
  exact ⟨needs_password, needs_passwd, needs_secret, needs_token, needs_community,
    List.forall_mem_nil _⟩

theorem needs_setPassword : Needs candidateWords (.seq setPassword.kept setPassword.hidden) := by
  refine needs_seq_right (needs_seq_right (needs_seq_right (needs_seq_left (needs_oneOf ?_))))
  simp only [List.map_cons, List.map_nil, List.forall_mem_cons]
  exact ⟨needs_password, needs_passwd, List.forall_mem_nil _⟩

theorem needs_jsonField : Needs candidateWords (.seq jsonField.kept jsonField.hidden) := by
  refine needs_seq_left (needs_seq_right (needs_seq_left (needs_oneOf ?_)))
  simp only [List.map_cons, List.map_nil, List.forall_mem_cons]
  exact ⟨needs_password, needs_passwd, needs_passphrase, needs_secret, needs_token,
    List.forall_mem_nil _⟩

theorem needs_passphraseLine : Needs candidateWords (.seq passphraseLine.kept passphraseLine.hidden) :=
  needs_seq_left (needs_seq_right (needs_seq_right (needs_seq_left needs_passphrase)))

theorem needs_patterns : ∀ p ∈ patterns, Needs candidateWords (.seq p.kept p.hidden) := by
  simp only [patterns, List.forall_mem_cons]
  exact ⟨needs_assignment, needs_setPassword, needs_jsonField, needs_passphraseLine,
    List.forall_mem_nil _⟩

theorem needs_keyBegin : Needs candidateWords keyBegin := by
  refine needs_seq_left (needs_word fun x hx => ?_)
  obtain rfl := spells_exactly.1 hx
  refine ⟨"-----begin ".toList.map ignoringCase, by simp [candidateWords], _, ?_, List.infix_refl _⟩
  rw [Spells]
  decide

/-! ## a text without candidates is left alone -/

theorem privateKeys_of_not_found {s : Text} (h : ¬Found candidateWords s) : privateKeys s = s := by
  rw [privateKeys]
  cases s.length with
  | zero => rfl
  | succ n => rw [privateKeysFrom, search_of_not_found needs_keyBegin h]

theorem hideText_of_not_found {known : List Text} {s : Text} (h : ¬Found candidateWords s)
    (hk : Clean known s) : hideText known s = s := by
  have hsecrets : ∀ secrets : List Text, (∀ k ∈ secrets, ¬k <:+: s) →
      secrets.foldl (fun s secret => replaceAll secret marker s) s = s := by
    intro secrets
    induction secrets with
    | nil => exact fun _ => rfl
    | cons secret secrets ih =>
      intro hs
      obtain ⟨hsecret, hs⟩ := List.forall_mem_cons.1 hs
      rw [List.foldl_cons, replaceAll_of_not_infix marker hsecret, ih hs]
  have hpatterns : ∀ ps : List Pattern, (∀ p ∈ ps, Needs candidateWords (.seq p.kept p.hidden)) →
      ps.foldl (fun s p => substitute p.kept p.hidden marker s.length none s) s = s := by
    intro ps
    induction ps with
    | nil => exact fun _ => rfl
    | cons p ps ih =>
      intro hps
      obtain ⟨hp, hps⟩ := List.forall_mem_cons.1 hps
      rw [List.foldl_cons, substitute_of_not_found hp marker _ _ s h, ih hps]
  have hlongest : ∀ k ∈ longestFirst known, ¬k <:+: s := fun k hmem =>
    hk k ((List.perm_insertionSort _ known).mem_iff.1 hmem)
  rw [hideText, hsecrets _ hlongest, privateKeys_of_not_found h, hpatterns _ needs_patterns]

/-! ## keys -/

theorem fieldChar_upper : ∀ n < 91, 65 ≤ n → fieldChar (n + 32) n = true := by decide

theorem fieldChar_self : ∀ n < 128, fieldChar n n = true := by decide

/-- every character of a key stands for one of the name of the field -/
theorem spells_of_lower : ∀ key : Text,
    (∀ c ∈ (lower key).map fun n => if n = 45 then 95 else n, c < 128) →
      Spells (((lower key).map fun n => if n = 45 then 95 else n).map fieldChar) key := by
  intro key
  induction key with
  | nil => exact fun _ => .nil
  | cons n key ih =>
    rw [lower, List.flatMap_cons, ← lower]
    by_cases hupper : 65 ≤ n ∧ n ≤ 90
    · have hdash : ¬n + 32 = 45 := by omega
      rw [if_pos hupper, List.singleton_append, List.map_cons, List.map_cons, if_neg hdash]
      intro h
      exact .cons (fieldChar_upper n (by omega) hupper.1) (ih (List.forall_mem_cons.1 h).2)
    rw [if_neg hupper]
    by_cases hkelvin : n = 0x212a
    · subst hkelvin
      rw [if_pos rfl, List.singleton_append, List.map_cons, List.map_cons]
      intro h
      exact .cons (by decide) (ih (List.forall_mem_cons.1 h).2)
    rw [if_neg hkelvin]
    by_cases hdot : n = 0x130
    · -- a letter and a dot above it: no field has that
      rw [if_pos hdot]
      intro h
      exact absurd (h 0x307 (by simp)) (by decide)
    rw [if_neg hdot, List.singleton_append, List.map_cons, List.map_cons]
    intro h
    obtain ⟨hn, hrest⟩ := List.forall_mem_cons.1 h
    refine .cons ?_ (ih hrest)
    by_cases hdash : n = 45
    · subst hdash
      rfl
    · rw [if_neg hdash] at hn ⊢
      exact fieldChar_self n hn

theorem secretFields_ascii : ∀ field ∈ secretFields, ∀ c ∈ field, c < 128 := by decide +kernel

theorem found_of_secretField {key : Text} (h : secretField key = true) : Found candidateWords key := by
  have hfield := of_decide_eq_true h
  refine ⟨_, List.mem_append_right _ (List.mem_map.2 ⟨_, hfield, rfl⟩), key, ?_, List.infix_refl key⟩
  exact spells_of_lower key (secretFields_ascii _ hfield)

/-! ## the walk over a value -/

mutual

/-- how many nested calls of `visit` a value takes -/
def levels : Value → Nat
  | .obj fields => 1 + levelsOfFields fields
  | .arr items => 1 + levelsOfItems items
  | _ => 1

def levelsOfFields : List (Text × Value) → Nat
  | [] => 0
  | (_, v) :: fields => max (levels v) (levelsOfFields fields)

/-- an item that is neither a list nor a dictionary nor a string takes no call -/
def levelsOfItems : List Value → Nat
  | [] => 0
  | v :: items => max (if isVisited v then levels v else 0) (levelsOfItems items)

end

theorem levelsOfFields_le {fields : List (Text × Value)} {n : Nat} :
    levelsOfFields fields ≤ n ↔ ∀ f ∈ fields, levels f.2 ≤ n := by
  induction fields with
  | nil => simp [levelsOfFields]
  | cons f fields ih =>
    obtain ⟨k, v⟩ := f
    rw [levelsOfFields, Nat.max_le, ih, List.forall_mem_cons]

theorem levelsOfItems_le {items : List Value} {n : Nat} :
    levelsOfItems items ≤ n ↔ ∀ v ∈ items, (if isVisited v then levels v else 0) ≤ n := by
  induction items with
  | nil => simp [levelsOfItems]
  | cons v items ih => rw [levelsOfItems, Nat.max_le, ih, List.forall_mem_cons]

theorem mapM_guard {α β : Type} {f : α → Option β} {g : α → β} {P : α → Prop} [DecidablePred P]
    {l : List α} (h : ∀ x ∈ l, f x = if P x then some (g x) else none) :
    l.mapM f = if ∀ x ∈ l, P x then some (l.map g) else none := by
  induction l with
  | nil => rfl
  | cons x l ih =>
    obtain ⟨hx, hl⟩ := List.forall_mem_cons.1 h
    rw [List.mapM_cons, hx, ih hl]
    by_cases hp : P x
    · by_cases hq : ∀ y ∈ l, P y
      · rw [if_pos hp, if_pos hq, if_pos (List.forall_mem_cons.2 ⟨hp, hq⟩)]
        rfl
      · rw [if_pos hp, if_neg hq, if_neg fun hall => hq (List.forall_mem_cons.1 hall).2]
        rfl
    · rw [if_neg hp, if_neg fun hall => hp (List.forall_mem_cons.1 hall).1]
      rfl

/-- nothing in the value is hidden -/
def Plain (known : List Text) (v : Value) : Prop :=
  ∀ t, .text t ∈ v.leaves → ¬Found candidateWords t ∧ Clean known t

section
variable {json : Codec} {known : List Text}

theorem plain_field {fields : List (Text × Value)} (h : Plain known (.obj fields))
    {f : Text × Value} (hf : f ∈ fields) : ¬Found candidateWords f.1 ∧ Plain known f.2 :=
  ⟨(h f.1 (mem_leavesOfFields.2 ⟨f, hf, .inl rfl⟩)).1,
    fun t ht => h t (mem_leavesOfFields.2 ⟨f, hf, .inr ht⟩)⟩

theorem plain_item {items : List Value} (h : Plain known (.arr items)) {v : Value} (hv : v ∈ items) :
    Plain known v := fun t ht => h t (mem_leavesOfItems.2 ⟨v, hv, ht⟩)

theorem visit_str_of_plain {s : Text} (h : Plain known (.str s)) (n : Nat) (path : Path) :
    visit json known (n + 1) (.str s) path = some (.str s, []) := by
  obtain ⟨hs, hk⟩ := h s (List.mem_singleton.2 rfl)
  have hany : known.any (fun secret => decide (secret <:+: s)) = false := by
    rw [List.any_eq_false]
    intro secret hmem
    exact fun hin => hk secret hmem (of_decide_eq_true hin)
  rw [visit, hasCandidate_eq_false.2 hs, hany]
  rfl

/-- such a value comes back as it is, where there are enough nested calls -/
theorem visit_of_plain : ∀ (n : Nat) (v : Value) (path : Path), Plain known v →
    visit json known n v path = if levels v ≤ n then some (v, []) else none := by
  intro n
  induction n with
  | zero =>
    intro v path _
    have hpos : ¬levels v ≤ 0 := by cases v <;> simp [levels]
    rw [visit, if_neg hpos]
  | succ n ih =>
    intro v path h
    cases v with
    | obj fields =>
      have hfield : ∀ f ∈ fields, visitField (visit json known n) path f
          = if levels f.2 ≤ n then some (f, []) else none := by
        intro f hf
        obtain ⟨hkey, hval⟩ := plain_field h hf
        have hsecret : secretField f.1 = false := by
          rw [Bool.eq_false_iff]
          exact fun hs => hkey (found_of_secretField hs)
        rw [visitField, hsecret, Bool.false_and, if_neg Bool.false_ne_true, ih _ _ hval]
        split <;> rfl
      rw [visit, mapM_guard hfield]
      simp only [levels, Nat.add_comm 1, Nat.add_le_add_iff_right, levelsOfFields_le]
      split
      · simp [List.map_map, Function.comp_def]
      · rfl
    | arr items =>
      have hitem : ∀ i ∈ items.zipIdx, visitItem (visit json known n) path i
          = if (if isVisited i.1 then levels i.1 else 0) ≤ n then some (i.1, []) else none := by
        intro i hi
        have hmem : i.1 ∈ items := List.fst_mem_of_mem_zipIdx hi
        rw [visitItem]
        by_cases hv : isVisited i.1 = true
        · rw [if_pos hv, if_pos hv, ih _ _ (plain_item h hmem)]
        · rw [if_neg hv, if_neg hv, if_pos (Nat.zero_le n)]
      rw [visit, mapM_guard hitem]
      have hall : (∀ i ∈ items.zipIdx, (if isVisited i.1 then levels i.1 else 0) ≤ n)
          ↔ ∀ v ∈ items, (if isVisited v then levels v else 0) ≤ n := by
        conv => rhs; rw [← List.zipIdx_map_fst 0 items]
        rw [List.forall_mem_map]
      simp only [levels, Nat.add_comm 1, Nat.add_le_add_iff_right, levelsOfItems_le, hall]
      split
      · simp [List.map_map, Function.comp_def]
      · rfl
    | str s =>
      rw [visit_str_of_plain h, if_pos (show levels (.str s) ≤ n + 1 by simp [levels])]
    | null => simp [visit, levels]
    | bool b => simp [visit, levels]
    | int k => simp [visit, levels]
    | float t => simp [visit, levels]

end

/-! ## the two ways -/

/-- the string branch of `visit` without the fast path -/
def visitText (json : Codec) (known : List Text) (n : Nat) (s : Text) (path : Path) :
    Option (Value × List Path) :=
  (visitJson json (visit json known n) path s).map fun r =>
    let output := hideText known r.1
    (.str output, r.2 ++ if output = s then [] else [path])

theorem visit_str (json : Codec) (known : List Text) (n : Nat) (s : Text) (path : Path) :
    visit json known (n + 1) (.str s) path
      = if !hasCandidate s && !known.any (fun secret => decide (secret <:+: s)) then some (.str s, [])
        else visitText json known n s path := rfl

/-- a string literal without an escape stands for its characters: the strings and keys of a text
without a backslash are parts of it -/
def Codec.Literal (json : Codec) : Prop :=
  ∀ s v, json.loads s = some v → 92 ∉ s → ∀ t, .text t ∈ v.leaves → t <:+: s

/-- the nested calls for the JSON text in a string -/
def jsonLevels (json : Codec) (s : Text) : Nat :=
  if looksLikeJson s then
    match json.loads s with
    | some decoded => if isContainer decoded then levels decoded else 0
    | none => 0
  else 0

section
variable {json : Codec} {known : List Text} {s : Text}

theorem plain_decoded (hjson : json.Literal) (hs : ¬Found candidateWords s) (hk : Clean known s)
    {decoded : Value} (hd : json.loads s = some decoded) : Plain known decoded := by
  have hesc : 92 ∉ s := fun h => hs (found_of_backslash h)
  intro t ht
  have hin := hjson s decoded hd hesc t ht
  exact ⟨fun h => hs (h.mono hin), fun secret hmem h => hk secret hmem (h.trans hin)⟩

theorem visitJson_of_plain (hjson : json.Literal) (hs : ¬Found candidateWords s)
    (hk : Clean known s) (n : Nat) (path : Path) :
    visitJson json (visit json known n) path s
      = if jsonLevels json s ≤ n then some (s, []) else none := by
  by_cases hl : looksLikeJson s = true
  · cases hd : json.loads s with
    | none => simp only [visitJson, jsonLevels, hl, hd, if_true, Nat.zero_le]
    | some decoded =>
      by_cases hc : isContainer decoded = true
      · have hvisit := @visit_of_plain json known n decoded (path ++ [text "$json"])
          (plain_decoded hjson hs hk hd)
        simp only [visitJson, jsonLevels, hl, hd, hc, if_true, hvisit]
        split
        · rw [Option.map_some, if_pos ((Value.same_iff _ _).2 rfl)]
        · rfl
      · simp only [visitJson, jsonLevels, hl, hd, hc, if_true, Bool.false_eq_true, if_false,
          Nat.zero_le]
  · simp only [visitJson, jsonLevels, hl, Bool.false_eq_true, if_false, if_true, Nat.zero_le]

/-- without a candidate and a known secret the long way leaves the text as it is, where it has enough
nested calls -/
theorem visitText_of_plain (hjson : json.Literal) (hs : ¬Found candidateWords s) (hk : Clean known s)
    (n : Nat) (path : Path) :
    visitText json known n s path = if jsonLevels json s ≤ n then some (.str s, []) else none := by
  rw [visitText, visitJson_of_plain hjson hs hk]
  split
  · rw [Option.map_some, hideText_of_not_found hs hk]
    dsimp only
    rw [if_pos rfl, List.append_nil]
  · rfl

end

/-- the fast path and the long way agree, but for texts that nest deeper than there are calls; and
`has_candidate` finds a candidate wherever it stands -/
theorem fastPath_agrees :
    (∀ s, hasCandidate s = true ↔ 92 ∈ s ∨ occursIn candidate s = true) ∧
      ∀ (json : Codec), json.Literal → ∀ (known : List Text) (s : Text), hasCandidate s = false →
        (∀ secret ∈ known, ¬secret <:+: s) → ∀ (n : Nat) (path : Path),
          visitText json known n s path
            = if jsonLevels json s ≤ n then some (.str s, []) else none := by
  constructor
  · intro s
    rw [hasCandidate_iff, occursIn_candidate]
    constructor
    · exact .inr
    · rintro (h | h)
      · exact found_of_backslash h
      · exact h
  · intro json hjson known s hc hk n path
    exact visitText_of_plain hjson (hasCandidate_eq_false.1 hc) hk n path

/-! ## `json.loads` on texts without surrogates -/

instance (n : Nat) : Decidable (Scalar n) := inferInstanceAs (Decidable (_ ∨ _ ∧ _))

def scalarCodec (depth : Nat) : Codec where
  loads s := if ∀ n ∈ s, Scalar n then Json.loads depth (s.map Char.ofNat) else none
  dumps v := (Json.dumpsRaw v).map Char.toNat

theorem map_toNat_ofNat {s : Text} (h : ∀ n ∈ s, Scalar n) :
    (s.map Char.ofNat).map Char.toNat = s := by
  rw [List.map_map]
  conv => rhs; rw [← List.map_id s]
  exact List.map_congr_left fun n hn => toNat_ofNat_of_scalar (h n hn)

theorem scalarCodec_literal (depth : Nat) : (scalarCodec depth).Literal := by
  intro s v h hesc t ht
  dsimp only [scalarCodec] at h
  split_ifs at h with hs
  have hbackslash : '\\' ∉ s.map Char.ofNat := by
    intro hm
    have hm' := List.mem_map_of_mem (f := Char.toNat) hm
    rw [map_toNat_ofNat hs] at hm'
    exact hesc hm'
  have hin := loads_texts h hbackslash t ht
  rwa [map_toNat_ofNat hs] at hin

theorem fastPath_agrees_list :
    visitText (scalarCodec 100) [text "y"] 3 (text "[\"x\"]") [] = some (.str (text "[\"x\"]"), []) := by
  have h := fastPath_agrees.2 (scalarCodec 100) (scalarCodec_literal 100) [text "y"] (text "[\"x\"]")
    (by decide +kernel) (by decide +kernel) 3 []
  rwa [if_pos (by decide +kernel)] at h

/-! ## a text that nests too deep -/

/-- a list in a list, `n + 1` of them -/
def nestedLists : Nat → Value
  | 0 => .arr []
  | n+1 => .arr [nestedLists n]

theorem levels_nestedLists (n : Nat) : levels (nestedLists n) = n + 1 := by
  induction n with
  | zero => rfl
  | succ n ih =>
    have hv : isVisited (nestedLists n) = true := by cases n <;> rfl
    rw [nestedLists, levels, levelsOfItems, levelsOfItems, if_pos hv, ih]
    omega

theorem printable_nestedLists (n : Nat) : (nestedLists n).Printable (n + 1) := by
  induction n with
  | zero => trivial
  | succ n ih => exact ⟨ih, trivial⟩

theorem write_nestedLists (n : Nat) : write escape (nestedLists n)
    = List.replicate (n + 1) '[' ++ List.replicate (n + 1) ']' := by
  induction n with
  | zero => rfl
  | succ n ih =>
    have hopen : List.replicate (n + 1 + 1) '[' = '[' :: List.replicate (n + 1) '[' := rfl
    have hclose : List.replicate (n + 1 + 1) ']' = List.replicate (n + 1) ']' ++ [']'] :=
      List.replicate_succ'
    rw [nestedLists, write, writeItems, writeMore, List.append_nil, ih, hopen, hclose,
      List.cons_append, List.append_assoc, List.cons_append]

/-- `n` opening and as many closing brackets -/
def brackets (n : Nat) : Text := List.replicate n 91 ++ List.replicate n 93

theorem mem_brackets {n c : Nat} (h : c ∈ brackets n) : c = 91 ∨ c = 93 := by
  rcases List.mem_append.1 h with h | h
  · exact .inl (List.eq_of_mem_replicate h)
  · exact .inr (List.eq_of_mem_replicate h)

theorem loads_brackets (n : Nat) :
    (scalarCodec (n + 1)).loads (brackets (n + 1)) = some (nestedLists n) := by
  have hscalar : ∀ c ∈ brackets (n + 1), Scalar c := by
    intro c hc
    rcases mem_brackets hc with rfl | rfl <;> decide
  have htext : (brackets (n + 1)).map Char.ofNat = dumps (nestedLists n) := by
    rw [brackets, List.map_append, List.map_replicate, List.map_replicate, dumps, write_nestedLists]
  have hread := loads_dumps (printable_nestedLists n)
  rw [← htext] at hread
  exact (if_pos hscalar).trans hread

theorem no_bracket_candidate :
    ∀ b ∈ candidateWords.map (fun w => w.any fun p => !p 91 && !p 93), b = true := by
  decide +kernel

theorem hasCandidate_brackets (n : Nat) : hasCandidate (brackets n) = false := by
  rw [hasCandidate_eq_false]
  rintro ⟨w, hw, x, hx, hin⟩
  have hone := no_bracket_candidate _ (List.mem_map.2 ⟨w, hw, rfl⟩)
  obtain ⟨p, hp, hnone⟩ := List.any_eq_true.1 hone
  have hsome : ∀ p ∈ w, p 91 = true ∨ p 93 = true := by
    have hbrackets : ∀ c ∈ x, c = 91 ∨ c = 93 := fun c hc => mem_brackets (hin.subset hc)
    clear hin hone hp hw
    induction hx with
    | nil => exact List.forall_mem_nil _
    | cons hpc _ ih =>
      obtain ⟨hc, hrest⟩ := List.forall_mem_cons.1 hbrackets
      refine List.forall_mem_cons.2 ⟨?_, ih hrest⟩
      rcases hc with rfl | rfl
      · exact .inl hpc
      · exact .inr hpc
  rcases hsome p hp with h | h <;> simp [h] at hnone

theorem jsonLevels_brackets (n : Nat) :
    jsonLevels (scalarCodec (n + 1)) (brackets (n + 1)) = n + 1 := by
  have hlooks : looksLikeJson (brackets (n + 1)) = true := by
    rw [looksLikeJson, brackets, List.reverse_append, List.reverse_replicate, List.reverse_replicate,
      List.replicate_succ, List.replicate_succ, List.cons_append, List.cons_append,
      List.dropWhile_cons_of_neg (by decide), List.dropWhile_cons_of_neg (by decide)]
    rfl
  have hlist : isContainer (nestedLists n) = true := by cases n <;> rfl
  rw [jsonLevels, if_pos hlooks, loads_brackets]
  dsimp only
  rw [if_pos hlist, levels_nestedLists]

/-- a thousand brackets are within what `json.loads` reads and beyond what the long way can walk over -/
theorem visitText_deep :
    ¬ ∀ (json : Codec), json.Literal → ∀ (known : List Text) (s : Text), hasCandidate s = false →
      (∀ secret ∈ known, ¬secret <:+: s) → ∀ (n : Nat) (path : Path),
        visitText json known n s path = some (.str s, []) := by
  intro h
  have hall := h (scalarCodec 1000) (scalarCodec_literal 1000) [] (brackets 1000)
    (hasCandidate_brackets 1000) (List.forall_mem_nil _) 999 []
  rw [visitText_of_plain (scalarCodec_literal 1000)
    (hasCandidate_eq_false.1 (hasCandidate_brackets 1000)) (List.forall_mem_nil _),
    jsonLevels_brackets 999, if_neg (by decide)] at hall
  exact nomatch hall

end Netops.Redaction

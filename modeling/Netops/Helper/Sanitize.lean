import Mathlib.Data.List.Dedup
import Netops.Audit.Redaction
import Netops.Lib.Dict

/-!
# What leaves the proxy (`proxy_sanitize.py`)

`sanitizeObject` walks over a message, replaces the values of fields with a telling name, and hides
the configured secrets in all strings, keys and numbers.  A string that holds a JSON object or array
is walked as that value; when nothing in it changes, the string stays as it was written.

`Python` is what the interpreter brings along.  Of the texts that `json` decodes it is only used that
a value is no larger than its text, so that the walk ends.
-/

namespace Netops.Sanitize

open Regex
open Json hiding isSpace
open Netops.Redaction (Text text isSpace lower exactly caseless anyOf isContainer longestFirst
  mapM_option)

structure Python where
  /-- `json.loads` of a text, with all pairs of an object -/
  loads : Text → Option Value
  /-- `json.dumps(value, separators=(",", ":"), ensure_ascii=False)` -/
  dumps : Value → Text
  /-- `json.dumps` of the number that a literal with a fraction or an exponent denotes -/
  floatText : List Char → Text
  /-- `\w` and `\d` -/
  isWord : Nat → Bool
  isDigit : Nat → Bool
  size_le : ∀ s v, loads s = some v → v.size ≤ s.length

/-! ## the expressions -/

def redacted : Text := text "<REDACTED>"
def keyRedacted : Text := text "<PRIVATE-KEY-REDACTED>"
def encRedacted : Text := text "ENC <REDACTED>"
def quotedRedacted : Text := text "\"<REDACTED>\""

/-- what the text is replaced by -/
def markers : List Text := [redacted, keyRedacted, encRedacted, quotedRedacted]

def space : Regex Nat := .char isSpace
def notSpace : Regex Nat := .char (!isSpace ·)
def blank : Regex Nat := .char fun n => n = 32 || n = 9
def oneIn (s : String) : Regex Nat := .char fun n => s.toList.any (n = ·.toNat)
def noneIn (s : String) (n : Nat) : Bool := !s.toList.any (n = ·.toNat)
def lineStart : Regex Nat := .after (· = 10)
def optional (s : String) : Regex Nat := maybe (exactly s)

def sequence (rs : List (Regex Nat)) : Regex Nat := rs.foldr .seq .empty

/-- `"(?:[^"\\]|\\.)*"` -/
def quoted : Regex Nat :=
  sequence [exactly "\"",
    .star (.alt (.char (noneIn "\"\\")) (.seq (exactly "\\") (.char (· ≠ 10)))), exactly "\""]

def pemLine (word : String) : Regex Nat :=
  sequence [exactly ("-----" ++ word ++ " "),
    .star (.seq (plus (.char fun n => (65 ≤ n && n ≤ 90) || (48 ≤ n && n ≤ 57))) (exactly " ")),
    exactly "PRIVATE KEY", optional " BLOCK", exactly "-----"]

/-- `PRIVATE_PEM` -/
def privatePem : Regex Nat :=
  sequence [pemLine "BEGIN", .lazy (.char fun _ => true), .alt (pemLine "END") atEnd]

section
variable (py : Python)

/-- `\b` before a character of a word -/
def wordStart : Regex Nat := .after (!py.isWord ·)

/-- `FORTI_ENC` -/
def fortiEnc : Regex Nat :=
  sequence [wordStart py, exactly "ENC", plus space, plus (.char fun n => !isSpace n && n ≠ 92)]

/-- `SHADOW_HASH`: what is kept, and what is hidden -/
def shadowKept : Regex Nat := sequence [lineStart, plus (.char (noneIn ":\r\n")), exactly ":"]
def shadowHidden : Regex Nat :=
  .seq (.alt (.seq (oneIn "!*") (.star (.char (noneIn ":\r\n"))))
      (.seq (exactly "$") (plus (.char (noneIn ":\r\n")))))
    (.ahead (exactly ":"))

/-- `CISCO_SECRET` -/
def ciscoKept : Regex Nat :=
  sequence [lineStart, .star (.char fun n => isSpace n && n ≠ 10),
    maybe (.seq (caseless "enable") (plus space)), anyOf ["secret", "password"],
    maybe (.seq (plus space) (plus (.char py.isDigit))), plus space]

/-- `LABELED_COMMUNITY` -/
def communityKept : Regex Nat :=
  let configured := sequence [anyOf ["configured", "is"], .star space, oneIn ":=", .star space]
  sequence [wordStart py, maybe (.seq (caseless "snmp") (plus space)), caseless "community",
    oneOf [sequence [plus space, caseless "string", plus space, configured],
      .seq (plus space) configured,
      sequence [.star blank, oneIn ":=", .star blank],
      plus blank]]
def communityHidden : Regex Nat := .alt quoted (plus notSpace)

/-- `SENSITIVE_TEXT_FIELD` -/
def fieldKept : Regex Nat :=
  let joint := maybe (oneIn "_-")
  sequence [optional "\"",
    oneOf [caseless "password", caseless "passwd", caseless "secret",
      .seq (maybe (.alt (.seq (caseless "api") joint) (.seq (caseless "access") joint)))
        (caseless "token"),
      sequence [caseless "private", joint, caseless "key"]],
    optional "\"", .star blank, oneIn ":=", .star blank]
def fieldHidden : Regex Nat :=
  let lineEnd := .alt atEnd (.seq (exactly "\n") atEnd)
  .seq (.unless (.seq (caseless "<redacted>")
      (.alt (.char fun n => isSpace n || !noneIn ",\x7d]\\" n) lineEnd)))
    (.alt quoted (plus (.char (noneIn ",\x7d]\n"))))

/-- the line in `_wtp_128_length_password_capability` -/
def capabilityLine : Regex Nat :=
  sequence [.star blank, exactly "128-length passwd", .star blank, exactly ":", .star blank,
    exactly "enabled", .star blank, optional "\r"]

/-- `_wtp_128_length_password_capability`: the line around the match names a capability -/
def capability (before found rest : Text) : Bool :=
  fullMatch capabilityLine
    ((before.takeWhile (· ≠ 10)).reverse ++ found ++ rest.takeWhile (· ≠ 10))

/-! ## `sanitize_text` -/

def isSurrogate (n : Nat) : Bool := 0xd800 ≤ n && n ≤ 0xdfff

def utf8Length (s : Text) : Nat :=
  (s.map fun n => if n < 0x80 then 1 else if n < 0x800 then 2 else if n < 0x10000 then 3 else 4).sum

/-- a secret, and how it stands in a JSON string -/
def forms (secret : Text) : List Text :=
  [secret, (secret.flatMap escape).map Char.toNat,
    secret.flatMap fun n => if n < 127 then (escape n).map Char.toNat else [n]]

/-- `_normalize_secrets`; `none` where a secret has no UTF-8 form -/
def normalizeSecrets (secrets : List Text) : Option (List Text) :=
  if secrets.any (·.any isSurrogate) then none
  else some (longestFirst ((secrets.filter (3 ≤ utf8Length ·)).flatMap forms).dedup)

/-- `pattern.sub` -/
def sub (kept hidden : Regex Nat) (marker s : Text) : Text :=
  substitute kept hidden marker s.length none s

/-- `sanitize_text`, after the secrets were normalized -/
def hide (normalized : List Text) (s : Text) : Text :=
  let s := normalized.foldl (fun s secret => replaceAll secret redacted s) s
  let s := sub .empty privatePem keyRedacted s
  let s := sub .empty (fortiEnc py) encRedacted s
  let s := sub shadowKept shadowHidden redacted s
  let s := sub (ciscoKept py) (plus notSpace) redacted s
  let s := sub (communityKept py) communityHidden redacted s
  substituteSparing fieldKept fieldHidden quotedRedacted capability s.length [] s

def sanitizeText (value : Text) (secrets : List Text) : Option Text :=
  (normalizeSecrets secrets).map fun normalized => hide py normalized value

/-! ## `sanitize_object` -/

/-- `SENSITIVE_KEYS` -/
def sensitiveKeys : List Text :=
  ["password", "passwd", "secret", "token", "api_token", "access_token", "private_key", "community",
    "auth_context"].map text

def sensitiveKey (key : Text) : Bool :=
  let name := (lower key).map fun n => if n = 45 then 95 else n
  name ∈ sensitiveKeys
    || (["_password", "_secret", "_token", "_community", "_private_key"].map text).any
      (·.isSuffixOf name)
    || (["password_", "secret_", "token_", "community_", "private_key_"].map text).any
      (·.isPrefixOf name)

/-- `json.dumps(item)` of a number -/
def numberText : Value → Text
  | .float t => py.floatText t
  | .int n => (intText n).map Char.toNat
  | _ => []

mutual

/-- no object has two equal keys (`_unique_pairs`) -/
def uniquePairs : Value → Bool
  | .arr vs => uniqueItems vs
  | .obj fs => (fs.map Prod.fst).Nodup && uniqueFields fs
  | _ => true

def uniqueItems : List Value → Bool
  | [] => true
  | v :: vs => uniquePairs v && uniqueItems vs

def uniqueFields : List (Text × Value) → Bool
  | [] => true
  | (_, v) :: fs => uniquePairs v && uniqueFields fs

end

/-- the object or array that a text holds -/
def decode (s : Text) : Option Value :=
  if (s.dropWhile isSpace).head?.any fun n => n = 123 || n = 91 then
    (py.loads s).filter fun v => uniquePairs v && isContainer v
  else none

/-- the dictionary of the pairs: of equal keys the last one counts -/
def collect (pairs : List (Text × Value)) : List (Text × Value) :=
  pairs.foldl (fun d f => Dict.set f.1 f.2 d) []

section
variable (normalized : List Text)

/-- `walk_text` -/
def walkText (walk : Value → Option Value) (s : Text) : Option Text :=
  match decode py s with
  | some decoded =>
    (walk decoded).map fun cleaned =>
      if sorted cleaned = sorted decoded then s else py.dumps cleaned
  | none => sanitizeText py s normalized

/-- a pair of a dictionary -/
def walkField (walk : Value → Option Value) (field : Text × Value) : Option (Text × Value) :=
  (walkText py normalized walk field.1).bind fun key =>
    if sensitiveKey field.1 then some (key, .str redacted)
    else (walk field.2).map fun child => (key, child)

/-- a number in which a secret stands is replaced -/
def walkNumber (v : Value) : Value :=
  if normalized.any fun secret => decide (secret <:+: numberText py v) then .str redacted else v

/-- `walk`; `none` where it raises: the nesting is deeper than the interpreter allows -/
def walk : Nat → Value → Option Value
  | 0, _ => none
  | n+1, .str s => (walkText py normalized (walk n) s).map .str
  | _+1, .int k => some (walkNumber py normalized (.int k))
  | _+1, .float t => some (walkNumber py normalized (.float t))
  | n+1, .arr items => (items.mapM (walk n)).map .arr
  | n+1, .obj fields =>
    (fields.mapM (walkField py normalized (walk n))).map fun pairs => .obj (collect pairs)
  | _+1, v => some v

example (v : Value) : walk py normalized 0 v = none := by rw [walk]

end

/-- `sanitize_object` -/
def sanitizeObject (depth : Nat) (value : Value) (secrets : List Text) : Option Value :=
  (normalizeSecrets secrets).bind fun normalized => walk py normalized depth value

end

/-! ## no secret is left -/

/-- no secret stands in the text -/
def Clean (secrets : List Text) (s : Text) : Prop := ∀ secret ∈ secrets, ¬secret <:+: s

/-- how a string, a key or a number is sent -/
def rendering (py : Python) : Leaf → Text
  | .text s => s
  | .number v => numberText py v

/-- No secret stands in what is sent, or it is the text of an object or array of which the same
holds. -/
inductive Hidden (py : Python) (secrets : List Text) : Leaf → Prop
  | clean (x : Leaf) (h : Clean secrets (rendering py x)) : Hidden py secrets x
  | holds (s : Text) (v : Value) (hv : isContainer v = true) (hs : py.loads s = some v ∨ s = py.dumps v)
      (h : ∀ x ∈ v.leaves, Hidden py secrets x) : Hidden py secrets (.text s)

section
variable {py : Python} {secrets : List Text}

theorem Clean.masked {m s t : Text} (ha : ∀ secret ∈ secrets, Apart secret m) (h : Clean secrets s)
    (hm : Masked m s t) : Clean secrets t :=
  fun secret hk ht => h secret hk (hm.appears_of_appears (ha secret hk) ht)

/-- whatever else is replaced, a secret that was replaced does not come back -/
theorem clean_foldl (ha : ∀ secret ∈ secrets, Apart secret redacted) :
    ∀ (olds : List Text) (s : Text), Clean secrets s →
      Clean secrets (olds.foldl (fun s old => replaceAll old redacted s) s) := by
  intro olds
  induction olds with
  | nil => exact fun s h => h
  | cons old olds ih => exact fun s h => ih _ (h.masked ha (masked_replaceAll old redacted s))

theorem not_infix_foldl {secret : Text} (ha : Apart secret redacted) (hne : secret ≠ []) :
    ∀ (olds : List Text) (s : Text), secret ∈ olds →
      ¬secret <:+: olds.foldl (fun s old => replaceAll old redacted s) s := by
  intro olds
  induction olds with
  | nil => exact fun s h => nomatch h
  | cons old olds ih =>
    intro s h
    rw [List.foldl_cons]
    rcases List.mem_cons.1 h with rfl | h
    · have hgone : Clean [secret] (replaceAll secret redacted s) := by
        intro k hk
        obtain rfl := List.mem_singleton.1 hk
        exact not_infix_replaceAll ha hne s
      have hclean : Clean [secret]
          (olds.foldl (fun s old => replaceAll old redacted s) (replaceAll secret redacted s)) :=
        clean_foldl (fun k hk => by rwa [List.mem_singleton.1 hk]) olds _ hgone
      exact hclean secret (List.mem_singleton.2 rfl)
    · exact ih _ h

variable (ha : ∀ secret ∈ secrets, ∀ m ∈ markers, Apart secret m)
  (hlong : ∀ secret ∈ secrets, 3 ≤ utf8Length secret)

include hlong in
omit ha in
theorem ne_nil {secret : Text} (h : secret ∈ secrets) : secret ≠ [] := by
  rintro rfl
  exact absurd (hlong [] h) (by decide)

include hlong in
/-- the secrets are among what is replaced, also after they were normalized twice -/
theorem mem_normalized {given normalized : List Text} (hsub : ∀ secret ∈ secrets, secret ∈ given)
    (h : normalizeSecrets given = some normalized) : ∀ secret ∈ secrets, secret ∈ normalized := by
  intro secret hk
  rw [normalizeSecrets] at h
  split at h
  · exact nomatch h
  · cases h
    refine ((List.perm_insertionSort _ _).mem_iff).2 (List.mem_dedup.2 (List.mem_flatMap.2 ?_))
    exact ⟨secret, List.mem_filter.2 ⟨hsub secret hk, by simpa using hlong secret hk⟩,
      List.mem_cons_self ..⟩

include ha hlong in
theorem clean_hide {normalized : List Text} (hsub : ∀ secret ∈ secrets, secret ∈ normalized)
    (s : Text) : Clean secrets (hide py normalized s) := by
  have hm : ∀ {m : Text}, m ∈ markers → ∀ secret ∈ secrets, Apart secret m :=
    fun h secret hk => ha secret hk _ h
  have hsubst : ∀ {m : Text} (kept hidden : Regex Nat) {t : Text}, m ∈ markers → Clean secrets t →
      Clean secrets (sub kept hidden m t) := fun kept hidden _ h ht =>
    ht.masked (hm h) (masked_substitute kept hidden _ _ _ _)
  have hreplaced : Clean secrets (normalized.foldl (fun s old => replaceAll old redacted s) s) :=
    fun secret hk => not_infix_foldl (hm (by simp [markers]) secret hk) (ne_nil hlong hk) normalized s
      (hsub secret hk)
  have hpem := hsubst .empty privatePem (m := keyRedacted) (by simp [markers]) hreplaced
  have henc := hsubst .empty (fortiEnc py) (m := encRedacted) (by simp [markers]) hpem
  have hshadow := hsubst shadowKept shadowHidden (m := redacted) (by simp [markers]) henc
  have hcisco := hsubst (ciscoKept py) (plus notSpace) (m := redacted) (by simp [markers]) hshadow
  have hcommunity := hsubst (communityKept py) communityHidden (m := redacted) (by simp [markers])
    hcisco
  exact hcommunity.masked (hm (by simp [markers])) (masked_substituteSparing _ _ _ _ _ _ _)

include ha hlong in
theorem clean_redacted : Clean secrets redacted := by
  intro secret hk h
  have hnil : secret <:+: redacted ++ [] := by rwa [List.append_nil]
  exact ne_nil hlong hk (List.infix_nil.1 (Masked.infix_of_append
    (ha secret hk redacted (by simp [markers])) redacted (List.suffix_refl _) hnil))

/-- what can be said of a value and what `walk` returns for it -/
structure Walked (py : Python) (secrets : List Text) (v r : Value) : Prop where
  hidden : ∀ x ∈ r.leaves, Hidden py secrets x
  container : isContainer v = true → isContainer r = true

variable {normalized : List Text} (hsub : ∀ secret ∈ secrets, secret ∈ normalized)

include ha hlong hsub in
theorem walkText_hidden {walk : Value → Option Value}
    (hwalk : ∀ v r, walk v = some r → Walked py secrets v r) {s t : Text}
    (h : walkText py normalized walk s = some t) : Hidden py secrets (.text t) := by
  rw [walkText] at h
  split at h
  · next decoded hd =>
    obtain ⟨cleaned, hc, rfl⟩ := Option.map_eq_some_iff.1 h
    have hall := hwalk _ _ hc
    rw [decode] at hd
    split at hd
    · obtain ⟨hl, hcond⟩ := Option.filter_eq_some_iff.1 hd
      obtain ⟨-, hcont⟩ := Bool.and_eq_true_iff.1 hcond
      split
      · next hsame =>
        -- the text stays, and what it holds is what was walked
        refine .holds s decoded hcont (.inl hl) fun x hx => hall.hidden x ?_
        rw [← mem_leaves_sorted, hsame, mem_leaves_sorted]
        exact hx
      · exact .holds _ cleaned (hall.container hcont) (.inr rfl) hall.hidden
    · exact nomatch hd
  · rw [sanitizeText] at h
    obtain ⟨again, hn, rfl⟩ := Option.map_eq_some_iff.1 h
    exact .clean _ (clean_hide ha hlong (mem_normalized hlong hsub hn) s)

theorem mem_collect {pairs : List (Text × Value)} {f : Text × Value} (h : f ∈ collect pairs) :
    f ∈ pairs := by
  have hall : ∀ (pairs d : List (Text × Value)),
      f ∈ pairs.foldl (fun d f => Dict.set f.1 f.2 d) d → f ∈ d ∨ f ∈ pairs := by
    intro pairs
    induction pairs with
    | nil => exact fun d h => .inl h
    | cons g pairs ih =>
      intro d h
      rcases ih _ h with h | h
      · rcases Dict.mem_set h with rfl | h
        · exact .inr (List.mem_cons_self ..)
        · exact .inl h
      · exact .inr (List.mem_cons_of_mem _ h)
  exact (hall pairs [] h).resolve_left (List.not_mem_nil)

theorem mem_of_forall₂ {α β : Type} {R : α → β → Prop} {l : List α} {r : List β}
    (h : List.Forall₂ R l r) {y : β} (hy : y ∈ r) : ∃ x ∈ l, R x y := by
  induction h with
  | nil => exact nomatch hy
  | cons hxy _ ih =>
    rcases List.mem_cons.1 hy with rfl | hy
    · exact ⟨_, List.mem_cons_self .., hxy⟩
    · obtain ⟨x, hx, hr⟩ := ih hy
      exact ⟨x, List.mem_cons_of_mem _ hx, hr⟩

include ha hlong in
theorem hidden_redacted {x : Leaf} (h : x ∈ (Value.str redacted).leaves) : Hidden py secrets x := by
  rw [List.mem_singleton.1 h]
  exact .clean _ (clean_redacted ha hlong)

include ha hlong hsub in
theorem walkField_hidden {walk : Value → Option Value}
    (hwalk : ∀ v r, walk v = some r → Walked py secrets v r) {field pair : Text × Value}
    (h : walkField py normalized walk field = some pair) :
    Hidden py secrets (.text pair.1) ∧ ∀ x ∈ pair.2.leaves, Hidden py secrets x := by
  rw [walkField] at h
  obtain ⟨key, hkey, h⟩ := Option.bind_eq_some_iff.1 h
  have htext := walkText_hidden ha hlong hsub hwalk hkey
  split at h
  · cases h
    exact ⟨htext, fun x hx => hidden_redacted ha hlong hx⟩
  · obtain ⟨child, hchild, rfl⟩ := Option.map_eq_some_iff.1 h
    exact ⟨htext, (hwalk _ _ hchild).hidden⟩

include ha hlong hsub in
theorem walkNumber_walked {v : Value} (hv : v.leaves = [.number v]) (hc : isContainer v = false) :
    Walked py secrets v (walkNumber py normalized v) := by
  refine ⟨fun x hx => ?_, fun h => ?_⟩
  · rw [walkNumber] at hx
    split at hx
    · exact hidden_redacted ha hlong hx
    · next hnone =>
      rw [hv] at hx
      rw [List.mem_singleton.1 hx]
      refine .clean _ fun secret hk hin => hnone ?_
      exact List.any_eq_true.2 ⟨secret, hsub secret hk, decide_eq_true hin⟩
  · rw [hc] at h
    exact nomatch h

theorem walked_of_leaves_nil {v : Value} (hv : v.leaves = []) : Walked py secrets v v := by
  refine ⟨fun x hx => ?_, fun h => h⟩
  rw [hv] at hx
  exact nomatch hx

include ha hlong hsub in
theorem walk_walked : ∀ (n : Nat) (v r : Value), walk py normalized n v = some r →
    Walked py secrets v r := by
  intro n
  induction n with
  | zero => exact fun v r h => nomatch h
  | succ n ih =>
    intro v r h
    cases v with
    | str s =>
      obtain ⟨t, ht, rfl⟩ := Option.map_eq_some_iff.1 h
      refine ⟨fun x hx => ?_, fun h => nomatch h⟩
      rw [List.mem_singleton.1 hx]
      exact walkText_hidden ha hlong hsub ih ht
    | arr items =>
      obtain ⟨rs, hrs, rfl⟩ := Option.map_eq_some_iff.1 h
      refine ⟨fun x hx => ?_, fun _ => rfl⟩
      obtain ⟨w, hw, hx⟩ := mem_leavesOfItems.1 hx
      obtain ⟨v, -, hv⟩ := mem_of_forall₂ (mapM_option hrs) hw
      exact (ih _ _ hv).hidden x hx
    | obj fields =>
      obtain ⟨pairs, hps, rfl⟩ := Option.map_eq_some_iff.1 h
      refine ⟨fun x hx => ?_, fun _ => rfl⟩
      obtain ⟨pair, hp, hx⟩ := mem_leavesOfFields.1 hx
      obtain ⟨field, -, hf⟩ := mem_of_forall₂ (mapM_option hps) (mem_collect hp)
      obtain ⟨hkey, hchild⟩ := walkField_hidden ha hlong hsub ih hf
      rcases hx with rfl | hx
      · exact hkey
      · exact hchild x hx
    | int k =>
      cases h
      exact walkNumber_walked ha hlong hsub rfl rfl
    | float t =>
      cases h
      exact walkNumber_walked ha hlong hsub rfl rfl
    | null =>
      cases h
      exact walked_of_leaves_nil rfl
    | bool b =>
      cases h
      exact walked_of_leaves_nil rfl

end

/-! ## the walk ends -/

/-- a character is no half of a surrogate pair -/
theorem isSurrogate_toNat (c : Char) : isSurrogate c.toNat = false := by
  have h := c.valid
  simp only [isSurrogate, Char.toNat, UInt32.isValidChar, Nat.isValidChar] at *
  simp only [Bool.and_eq_false_iff, decide_eq_false_iff_not]
  omega

theorem isSurrogate_forms {secret form : Text} (h : ∀ n ∈ secret, isSurrogate n = false)
    (hf : form ∈ forms secret) : ∀ n ∈ form, isSurrogate n = false := by
  intro n hn
  simp only [forms, List.mem_cons, List.not_mem_nil, or_false] at hf
  rcases hf with rfl | rfl | rfl
  · exact h n hn
  · obtain ⟨c, -, rfl⟩ := List.mem_map.1 hn
    exact isSurrogate_toNat c
  · obtain ⟨m, hm, hn⟩ := List.mem_flatMap.1 hn
    split at hn
    · obtain ⟨c, -, rfl⟩ := List.mem_map.1 hn
      exact isSurrogate_toNat c
    · rw [List.mem_singleton.1 hn]
      exact h m hm

theorem normalizeSecrets_isSome {secrets : List Text} :
    (normalizeSecrets secrets).isSome ↔ ∀ secret ∈ secrets, ∀ n ∈ secret, isSurrogate n = false := by
  rw [normalizeSecrets]
  split
  · next h =>
    obtain ⟨secret, hk, h⟩ := List.any_eq_true.1 h
    obtain ⟨n, hn, h⟩ := List.any_eq_true.1 h
    refine ⟨fun h => (nomatch h), fun hall => ?_⟩
    rw [hall secret hk n hn] at h
    exact nomatch h
  · next h =>
    refine ⟨fun _ secret hk n hn => ?_, fun _ => rfl⟩
    by_contra hs
    exact h (List.any_eq_true.2 ⟨secret, hk, List.any_eq_true.2 ⟨n, hn, by simpa using hs⟩⟩)

/-- what was normalized can be normalized again -/
theorem normalizeSecrets_again {secrets normalized : List Text}
    (h : normalizeSecrets secrets = some normalized) : (normalizeSecrets normalized).isSome := by
  have hplain := normalizeSecrets_isSome.1 (h ▸ rfl : (normalizeSecrets secrets).isSome)
  rw [normalizeSecrets] at h
  split at h
  · exact nomatch h
  · cases h
    refine normalizeSecrets_isSome.2 fun form hform => ?_
    have hmem := List.mem_dedup.1 ((List.perm_insertionSort _ _).mem_iff.1 hform)
    obtain ⟨secret, hk, hform⟩ := List.mem_flatMap.1 hmem
    exact isSurrogate_forms (hplain secret (List.mem_of_mem_filter hk)) hform

section
variable {py : Python} {normalized : List Text} (hn : (normalizeSecrets normalized).isSome)

include hn in
theorem walkText_isSome {walk : Value → Option Value} {s : Text}
    (hwalk : ∀ v : Value, v.size ≤ s.length → (walk v).isSome) :
    (walkText py normalized walk s).isSome := by
  rw [walkText]
  split
  · next decoded hd =>
    rw [Option.isSome_map]
    refine hwalk decoded ?_
    rw [decode] at hd
    split at hd
    · exact py.size_le s decoded (Option.filter_eq_some_iff.1 hd).1
    · exact nomatch hd
  · rw [sanitizeText, Option.isSome_map]
    exact hn

theorem mapM_isSome {α β : Type} {f : α → Option β} {l : List α} (h : ∀ x ∈ l, (f x).isSome) :
    (l.mapM f).isSome := by
  induction l with
  | nil => rfl
  | cons x l ih =>
    obtain ⟨y, hy⟩ := Option.isSome_iff_exists.1 (h x (List.mem_cons_self ..))
    obtain ⟨ys, hys⟩ := Option.isSome_iff_exists.1 (ih fun z hz => h z (List.mem_cons_of_mem _ hz))
    rw [List.mapM_cons, hy]
    simp [hys]

theorem size_le_items {v : Value} {vs : List Value} (h : v ∈ vs) : v.size ≤ sizeOfItems vs := by
  induction vs with
  | nil => exact nomatch h
  | cons w vs ih =>
    rw [sizeOfItems]
    rcases List.mem_cons.1 h with rfl | h
    · omega
    · have := ih h
      omega

theorem size_le_fields {f : Text × Value} {fs : List (Text × Value)} (h : f ∈ fs) :
    f.1.length ≤ sizeOfFields fs ∧ f.2.size ≤ sizeOfFields fs := by
  induction fs with
  | nil => exact nomatch h
  | cons g fs ih =>
    obtain ⟨k, w⟩ := g
    rw [sizeOfFields]
    rcases List.mem_cons.1 h with rfl | h
    · constructor <;> dsimp only <;> omega
    · have := ih h
      omega

include hn in
/-- every text that is decoded is longer than what it holds -/
theorem walk_isSome : ∀ (n : Nat) (v : Value), v.size < n → (walk py normalized n v).isSome := by
  intro n
  induction n with
  | zero => exact fun v h => nomatch h
  | succ n ih =>
    intro v h
    cases v with
    | str s =>
      rw [walk, Option.isSome_map]
      refine walkText_isSome hn fun w hw => ih w ?_
      rw [Value.size] at h
      omega
    | arr items =>
      rw [walk, Option.isSome_map]
      refine mapM_isSome fun w hw => ih w ?_
      have hle := size_le_items hw
      rw [Value.size] at h
      omega
    | obj fields =>
      rw [walk, Option.isSome_map]
      refine mapM_isSome fun f hf => ?_
      obtain ⟨hk, hc⟩ := size_le_fields hf
      rw [Value.size] at h
      have htext : (walkText py normalized (walk py normalized n) f.1).isSome :=
        walkText_isSome hn fun w hw => ih w (by omega)
      obtain ⟨key, hkey⟩ := Option.isSome_iff_exists.1 htext
      rw [walkField, hkey, Option.bind_some]
      split
      · rfl
      · rw [Option.isSome_map]
        exact ih _ (by omega)
    | null | bool b | int k | float t => rfl

end

/-- No configured secret is sent: it is neither in a number, nor in a string or a key, unless these
hold an object or array; there the same can be said of that value.  The walk ends when calls may nest
as deep as the value is large. -/
theorem sanitizeObject_hides (py : Python) (value : Value) (secrets : List Text)
    (hlong : ∀ secret ∈ secrets, 3 ≤ utf8Length secret ∧ ∀ n ∈ secret, isSurrogate n = false)
    (ha : ∀ secret ∈ secrets, ∀ m ∈ markers, Apart secret m) :
    (∀ depth, value.size < depth → ∃ r, sanitizeObject py depth value secrets = some r) ∧
      ∀ depth r, sanitizeObject py depth value secrets = some r →
        ∀ x ∈ r.leaves, Hidden py secrets x := by
  have hsome : (normalizeSecrets secrets).isSome :=
    normalizeSecrets_isSome.2 fun secret hk => (hlong secret hk).2
  obtain ⟨normalized, hnorm⟩ := Option.isSome_iff_exists.1 hsome
  refine ⟨fun depth hd => ?_, fun depth r h => ?_⟩
  · rw [sanitizeObject, hnorm, Option.bind_some]
    exact Option.isSome_iff_exists.1 (walk_isSome (normalizeSecrets_again hnorm) depth value hd)
  · rw [sanitizeObject, hnorm, Option.bind_some] at h
    have hlen : ∀ secret ∈ secrets, 3 ≤ utf8Length secret := fun secret hk => (hlong secret hk).1
    exact (walk_walked ha hlen (mem_normalized hlen (fun _ hk => hk) hnorm) depth value r h).hidden

section

/-- Python on texts without surrogates and numbers without a fraction -/
def plainPython : Python where
  loads s := Json.loads 100 (s.map Char.ofNat)
  dumps v := (dumpsRaw v).map Char.toNat
  floatText t := t.map Char.toNat
  isWord n := (Char.ofNat n).isAlphanum || n = 95
  isDigit n := (Char.ofNat n).isDigit
  size_le s v h := by simpa using loads_size h

example : decode plainPython (text "[1") = none := by decide +kernel

/-- a key, a string in a list in a text, and a number -/
def sampleValue : Value :=
  .obj [(text "ahunter2", .str (text "[\"xhunter2\"]")), (text "n", .int 7)]

theorem sanitizeObject_hides_sample :
    sanitizeObject plainPython 99 sampleValue [text "hunter2"]
        = some (.obj [(text "a<REDACTED>", .str (text "[\"x<REDACTED>\"]")), (text "n", .int 7)]) ∧
      Hidden plainPython [text "hunter2"] (.text (text "[\"x<REDACTED>\"]")) := by
  have he : sanitizeObject plainPython 99 sampleValue [text "hunter2"]
      = some (.obj [(text "a<REDACTED>", .str (text "[\"x<REDACTED>\"]")), (text "n", .int 7)]) := by
    decide +kernel
  refine ⟨he, ?_⟩
  exact (sanitizeObject_hides plainPython sampleValue [text "hunter2"] (by decide +kernel)
    (by decide +kernel)).2 99 _ he _ (by simp [Value.leaves, leavesOfFields])

/-- a secret that is written like a JSON escape stands in the text of a list, and is not in it -/
theorem sanitizeObject_escape :
    ¬ ∀ (py : Python) (value : Value) (secrets : List Text),
      (∀ secret ∈ secrets, 3 ≤ utf8Length secret ∧ ∀ n ∈ secret, isSurrogate n = false) →
      (∀ secret ∈ secrets, ∀ m ∈ markers, Apart secret m) →
      ∀ depth r, sanitizeObject py depth value secrets = some r →
        ∀ x ∈ r.leaves, Clean secrets (rendering py x) := by
  intro h
  have he : sanitizeObject plainPython 99 (.str (text "[\"p\\u0061ss\"]")) [text "p\\u0061ss"]
      = some (.str (text "[\"p\\u0061ss\"]")) := by decide +kernel
  have hclean := h plainPython _ [text "p\\u0061ss"] (by decide +kernel) (by decide +kernel) 99 _ he
    (.text (text "[\"p\\u0061ss\"]")) (List.mem_singleton.2 rfl)
  exact hclean (text "p\\u0061ss") (List.mem_singleton.2 rfl)
    ⟨text "[\"", text "\"]", by decide +kernel⟩

end

end Netops.Sanitize

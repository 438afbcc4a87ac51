import Netops.Lib.Json
import Netops.Lib.Regex

/-!
# What of a message may stand in the audit log (`redaction.py`)

`redact` walks over a value, hides the values of secret fields, known secrets, private keys and what
looks like a password, and lists the paths of what it changed.  A string that holds a JSON text is
decoded, redacted and encoded again.

A text is the list of its code points.  `Codec` is the `json` module: nothing here depends on which
texts it decodes.  `depth` is what the interpreter allows of nested calls.
-/

namespace Netops.Redaction

open Json Regex

abbrev Text := List Nat

instance : LawfulBEq Text := inferInstance
abbrev Path := List Text

def text (s : String) : Text := s.toList.map Char.toNat

def marker : Text := text "[REDACTED]"

structure Codec where
  loads : Text → Option Value
  dumps : Value → Text

def secretFields : List Text :=
  ["authorization", "password", "passphrase", "secret", "token", "access_token", "refresh_token",
    "auth_context", "private_key", "passwd", "psksecret", "snmp_community", "credentials",
    "proxy_authorization", "cookie", "set_cookie", "x_api_key", "api_key", "mcp_session_id",
    "url_query"].map text

/-! ## characters -/

/-- `str.isspace`, and `\s` of an expression -/
def isSpace (n : Nat) : Bool :=
  (9 ≤ n && n ≤ 13) || (28 ≤ n && n ≤ 32) || n = 0x85 || n = 0xa0 || n = 0x1680
    || (0x2000 ≤ n && n ≤ 0x200a) || n = 0x2028 || n = 0x2029 || n = 0x202f || n = 0x205f
    || n = 0x3000

/-- a small letter or another character of an expression that ignores case: some characters outside
ASCII count as an ASCII letter -/
def ignoringCase (c : Char) (n : Nat) : Bool :=
  n = c.toNat || (c.isLower && n + 32 = c.toNat) || (c = 's' && n = 0x17f) || (c = 'k' && n = 0x212a)
    || (c = 'i' && (n = 0x130 || n = 0x131))

/-- `str.lower`, as far as the result can be ASCII -/
def lower (s : Text) : Text := s.flatMap fun n =>
  if 65 ≤ n ∧ n ≤ 90 then [n + 32]
  else if n = 0x212a then [107]
  else if n = 0x130 then [105, 0x307]
  else [n]

def exactly (s : String) : Regex Nat := word (s.toList.map fun c n => n = c.toNat)
def caseless (s : String) : Regex Nat := word (s.toList.map ignoringCase)
def anyOf (ws : List String) : Regex Nat := oneOf (ws.map caseless)
def spaces : Regex Nat := .star (.char isSpace)
def lineEnd (n : Nat) : Bool := n = 10 || n = 13
def blank (n : Nat) : Bool := n = 32 || n = 9

/-! ## what is hidden in a text -/

def keyLine (word : String) : Regex Nat :=
  .seq (exactly ("-----" ++ word ++ " "))
    (.seq (.star (.char fun n => (65 ≤ n && n ≤ 90) || n = 32)) (exactly "PRIVATE KEY-----"))

def keyBegin : Regex Nat := keyLine "BEGIN"
def keyEnd : Regex Nat := keyLine "END"

/-- an expression and the part at its start that is kept (`match.group(1)`) -/
structure Pattern where
  kept : Regex Nat
  hidden : Regex Nat

def assignment : Pattern where
  kept := .empty
  hidden := .seq (anyOf ["password", "passwd", "secret", "token", "community"])
    (.seq spaces (.seq (.char fun n => n = 61 || n = 58) (.seq spaces
      (plus (.char fun n => !isSpace n && n ≠ 44 && n ≠ 59)))))

def setPassword : Pattern where
  kept := .empty
  hidden := .seq (anyOf ["set", "encrypted"]) (.seq (plus (.char isSpace))
    (.seq (anyOf ["password", "passwd"]) (.seq (plus (.char isSpace)) (plus (.char (!lineEnd ·))))))

def jsonField : Pattern where
  kept := .seq (exactly "\"") (.seq (anyOf ["password", "passwd", "passphrase", "secret", "token"])
    (.seq (exactly "\"") (.seq spaces (.seq (exactly ":") (.seq spaces (exactly "\""))))))
  hidden := .seq
    (.star (.alt (.char fun n => n ≠ 34 && n ≠ 92 && !lineEnd n)
      (.seq (exactly "\\") (.char fun n => n ≠ 10))))
    (.ahead (exactly "\""))

def passphraseLine : Pattern where
  kept := .seq (.after (· = 10)) (.seq (.star (.char blank)) (.seq (caseless "passphrase")
    (.seq (.star (.char blank)) (.seq (exactly "=") (.star (.char blank))))))
  hidden := .star (.char (!lineEnd ·))

/-- `PATTERNS` -/
def patterns : List Pattern := [assignment, setPassword, jsonField, passphraseLine]

/-- `private_keys`; `n` bounds the length of the text -/
def privateKeysFrom : Nat → Text → Text
  | 0, s => s
  | n+1, s =>
    match search keyBegin none s with
    | none => s
    | some (start, size) =>
      match search keyEnd none (s.drop (start + size)) with
      | none => s
      | some (start', size') =>
        s.take start ++ marker
          ++ privateKeysFrom n ((s.drop (start + size)).drop (start' + size'))

def privateKeys (s : Text) : Text := privateKeysFrom s.length s

/-- `sorted(known, key=len, reverse=True)` -/
def longestFirst (known : List Text) : List Text :=
  known.insertionSort fun a b => b.length ≤ a.length

/-- what is done to every text -/
def hideText (known : List Text) (s : Text) : Text :=
  let s := (longestFirst known).foldl (fun s secret => replaceAll secret marker s) s
  let s := privateKeys s
  patterns.foldl (fun s p => substitute p.kept p.hidden marker s.length none s) s

/-! ## the fast path -/

/-- `re.escape(field).replace("_", "[-_]")`, without case -/
def fieldPattern (field : Text) : Regex Nat :=
  word (field.map fun c n => if c = 95 then n = 45 || n = 95 else ignoringCase (Char.ofNat c) n)

/-- `CANDIDATE` -/
def candidate : Regex Nat :=
  oneOf ([exactly "\\", caseless "-----begin ", caseless "passwd", caseless "community"]
    ++ secretFields.map fieldPattern)

def minCandidateLength : Nat := 5

/-- `has_candidate`: windows that overlap -/
def hasCandidate (s : Text) : Bool :=
  if s.length < minCandidateLength ∧ 92 ∉ s then false
  else (List.range ((s.length + 16383) / 16384)).any fun i =>
    occursIn candidate ((s.drop (i * 16384)).take 16448)

/-! ## the walk -/

def secretField (key : Text) : Bool :=
  (lower key).map (fun n => if n = 45 then 95 else n) ∈ secretFields

/-- the text may be a JSON object or array -/
def looksLikeJson (s : Text) : Bool :=
  ((s.dropWhile isSpace).head?.any fun n => n = 123 || n = 91)
    && (s.reverse.dropWhile isSpace).head?.any fun n => n = 125 || n = 93

def isContainer : Value → Bool
  | .obj _ | .arr _ => true
  | _ => false

def isVisited : Value → Bool
  | .obj _ | .arr _ | .str _ => true
  | _ => false

section
variable (json : Codec) (known : List Text)

/-- a field of a dictionary -/
def visitField (visit : Value → Path → Option (Value × List Path)) (path : Path)
    (field : Text × Value) : Option ((Text × Value) × List Path) :=
  let fieldPath := path ++ [field.1]
  if secretField field.1 && !field.2.same .null then some ((field.1, .str marker), [fieldPath])
  else (visit field.2 fieldPath).map fun r => ((field.1, r.1), r.2)

/-- an item of a list -/
def visitItem (visit : Value → Path → Option (Value × List Path)) (path : Path)
    (item : Value × Nat) : Option (Value × List Path) :=
  if isVisited item.1 then visit item.1 (path ++ [text (toString item.2)]) else some (item.1, [])

/-- the text, after a JSON text in it was decoded, redacted and encoded again -/
def visitJson (visit : Value → Path → Option (Value × List Path)) (path : Path) (s : Text) :
    Option (Text × List Path) :=
  if looksLikeJson s then
    match json.loads s with
    | some decoded =>
      if isContainer decoded then
        (visit decoded (path ++ [text "$json"])).map fun r =>
          (if r.1.same decoded then s else json.dumps r.1, r.2)
      else some (s, [])
    | none => some (s, [])
  else some (s, [])

/-- `visit`; `none` where the interpreter runs out of depth -/
def visit : Nat → Value → Path → Option (Value × List Path)
  | 0, _, _ => none
  | n+1, .obj fields, path =>
    (fields.mapM (visitField (visit n) path)).map fun rs =>
      (.obj (rs.map Prod.fst), rs.flatMap Prod.snd)
  | n+1, .arr items, path =>
    (items.zipIdx.mapM (visitItem (visit n) path)).map fun rs =>
      (.arr (rs.map Prod.fst), rs.flatMap Prod.snd)
  | n+1, .str s, path =>
    if !hasCandidate s && !known.any (fun secret => decide (secret <:+: s)) then some (.str s, [])
    else
      (visitJson json (visit n) path s).map fun r =>
        let output := hideText known r.1
        (.str output, r.2 ++ if output = s then [] else [path])
  | _+1, item, _ => some (item, [])

end

/-- `redact` -/
def redact (json : Codec) (depth : Nat) (value : Value) (secrets : List Text) :
    Option (Value × List Path) :=
  visit json (secrets.filter (· ≠ [])) depth value []

/-! ## no known secret is left -/

/-- no secret stands in the text -/
def Clean (known : List Text) (s : Text) : Prop := ∀ secret ∈ known, ¬secret <:+: s

section
variable {known : List Text} (hapart : ∀ secret ∈ known, Apart secret marker)

include hapart

theorem Clean.masked {s t : Text} (h : Clean known s) (hm : Masked marker s t) : Clean known t :=
  fun secret hk ht => h secret hk (hm.appears_of_appears (hapart secret hk) ht)

end

section
variable {json : Codec} {known : List Text}

/-- the strings of the result are clean, and its keys are keys of the value -/
def Safe (known : List Text) (v w : Value) : Prop :=
  (∀ s ∈ w.strings, Clean known s) ∧ ∀ k ∈ w.keys, k ∈ v.keys

theorem mapM_option {α β : Type} {f : α → Option β} : ∀ {l : List α} {r : List β},
    l.mapM f = some r → List.Forall₂ (fun x y => f x = some y) l r := by
  intro l
  induction l with
  | nil =>
    intro r h
    cases h
    exact .nil
  | cons x l ih =>
    intro r h
    rw [List.mapM_cons] at h
    obtain ⟨y, hy, h⟩ := Option.bind_eq_some_iff.1 h
    obtain ⟨ys, hys, h⟩ := Option.bind_eq_some_iff.1 h
    cases h
    exact .cons hy (ih hys)

variable (hapart : ∀ secret ∈ known, Apart secret marker) (hne : ∀ secret ∈ known, secret ≠ [])

include hapart hne

end

section
end

end Netops.Redaction

import Netops.Configuration.Stream

/-!
# Secret values do not reach the content

Two streams whose records differ in the values of secret fields only are shown alike.

* `records`           the book after a list of records; `redact_records` says that a run leaves the
                      book of its records;
* `sameBut`           the records of two streams, but for the values of secret fields;
* `recordWords_secret`   one record with a secret value;
* `secrets_hidden`    the two runs.
-/

namespace Netops.Configuration

section
variable (su : Setup) (embedded : Nat → Text → Except Failure (Option Embedded))

def records : List Text → Book → Except Failure Book
  | [], b => .ok b
  | l :: ls, b => (record su embedded l b).bind (records ls)

/-- the words of a record that is a command, neither blank nor a comment -/
def commandOf (l : Text) : Option (List Text) :=
  if strip l = [] ∨ (lstrip l).head? = some '#' then none else wordsOf su l

/-- both records set the same field, which is a secret one where they stand -/
def secretPair (policy : FullConfigPolicy) (context : Context) (l m : Text) : Bool :=
  match commandOf su l, commandOf su m with
  | some (command :: field :: _), some (command' :: field' :: _) =>
    command = text "set" && command' = text "set" && field = field' &&
      decide ((context, field) ∈ policy.secretFields)
  | _, _ => false

/-- The records are the same, but for the values of `set` records whose field is a secret one where
it stands; `b` is the book before the first record. -/
def sameBut (policy : FullConfigPolicy) : Book → List Text → List Text → Bool
  | _, [], [] => true
  | b, l :: ls, m :: ms => match record su embedded l b with
    | .ok b' => (l = m || secretPair su policy b.context l m) && sameBut policy b' ls ms
    | .error _ => false
  | _, _, _ => false

end

section
variable {su : Setup} {embedded : Nat → Text → Except Failure (Option Embedded)}

theorem records_append (ls ms : List Text) (b : Book) :
    records su embedded (ls ++ ms) b = (records su embedded ls b).bind (records su embedded ms) := by
  induction ls generalizing b with
  | nil => rfl
  | cons l ls ih =>
    show (record su embedded l b).bind _ = ((record su embedded l b).bind _).bind _
    cases record su embedded l b with
    | error e => rfl
    | ok b => exact ih b

/-! ## a run and its records -/

/-- the book is the one of the records so far -/
def State.Kept (su : Setup) (embedded : Nat → Text → Except Failure (Option Embedded)) (b : Book)
    (s : State) : Prop := records su embedded s.seen b = .ok s.book

theorem kept_line {b : Book} {s s' : State} (h : s.Kept su embedded b)
    (hs : line su embedded s = .ok s') : s'.Kept su embedded b := by
  unfold line at hs
  cases hscan : scanLine su s.book s.physical.flatten s.scan with
  | error e =>
    rw [hscan] at hs
    cases hs
  | ok scanned =>
    obtain ⟨scan, logical⟩ := scanned
    rw [hscan] at hs
    cases logical with
    | none =>
      cases hs
      exact h
    | some logical =>
      have hs' : (record su embedded logical s.book).bind _ = Except.ok s' := hs
      cases hr : record su embedded logical s.book with
      | error e =>
        rw [hr] at hs'
        cases hs'
      | ok book =>
        rw [hr] at hs'
        cases hs'
        show records su embedded (s.seen ++ [logical]) b = .ok book
        rw [records_append, h]
        show (record su embedded logical s.book).bind (records su embedded []) = .ok book
        rw [hr]
        rfl

theorem addPart_same {part : Text} {s s' : State} (h : addPart su part s = .ok s') :
    s'.seen = s.seen ∧ s'.book = s.book := by
  unfold addPart at h
  dsimp only at h
  split_ifs at h
  cases h
  exact ⟨rfl, rfl⟩

theorem kept_feedParts {b : Book} (parts : List Text) {s s' : State} (h : s.Kept su embedded b)
    (hs : feedParts su embedded parts s = .ok s') : s'.Kept su embedded b := by
  have hpart : ∀ {part : Text} {s s' : State}, s.Kept su embedded b → addPart su part s = .ok s' →
      s'.Kept su embedded b := fun {part s s'} h hs => by
    obtain ⟨h1, h2⟩ := addPart_same hs
    unfold State.Kept
    rw [h1, h2]
    exact h
  induction parts generalizing s with
  | nil =>
    cases hs
    exact h
  | cons p rest ih =>
    cases rest with
    | nil => exact hpart h hs
    | cons q rest =>
      have hs' : (addPart su p s).bind (fun s =>
        (line su embedded s).bind (feedParts su embedded (q :: rest))) = .ok s' := hs
      cases ha : addPart su p s with
      | error e =>
        rw [ha] at hs'
        cases hs'
      | ok u =>
        rw [ha] at hs'
        have hs'' : (line su embedded u).bind (feedParts su embedded (q :: rest)) = .ok s' := hs'
        cases hl : line su embedded u with
        | error e =>
          rw [hl] at hs''
          cases hs''
        | ok v =>
          rw [hl] at hs''
          exact ih (kept_line (hpart h ha) hl) hs''

theorem kept_feed {b : Book} {data : Bytes} {s s' : State} (h : s.Kept su embedded b)
    (hs : feed su embedded data s = .ok s') : s'.Kept su embedded b := by
  unfold feed at hs
  dsimp only at hs
  split_ifs at hs
  cases hd : Utf8.decode s.decoder data with
  | none =>
    rw [hd] at hs
    cases hs
  | some x =>
    rw [hd] at hs
    simp only [feedText] at hs
    split_ifs at hs
    · cases hs
      exact h
    · exact kept_feedParts _ (s := { s with
        rawBytes := s.rawBytes + data.length
        decoder := x.2
        afterCr := _ }) h hs
    · exact kept_feedParts _ (s := { s with
        rawBytes := s.rawBytes + data.length
        decoder := x.2
        afterCr := _ }) h hs

theorem kept_feedAll {b : Book} (chunks : List Bytes) {s s' : State} (h : s.Kept su embedded b)
    (hs : feedAll su embedded chunks s = .ok s') : s'.Kept su embedded b := by
  induction chunks generalizing s with
  | nil =>
    cases hs
    exact h
  | cons data rest ih =>
    have hs' : (feed su embedded data s).bind (feedAll su embedded rest) = .ok s' := hs
    cases hf : feed su embedded data s with
    | error e =>
      rw [hf] at hs'
      cases hs'
    | ok u =>
      rw [hf] at hs'
      exact ih (kept_feed h hf) hs'

theorem finished_ok {s s' : State} (h : finished su s = .ok s') : s' = s := by
  unfold finished at h
  split_ifs at h
  cases h
  rfl

theorem kept_finish {b : Book} {s s' : State} (h : s.Kept su embedded b)
    (hs : finish su embedded s = .ok s') : s'.Kept su embedded b := by
  unfold finish at hs
  split_ifs at hs
  cases hl : lastLine su embedded s with
  | error e =>
    rw [hl] at hs
    cases hs
  | ok u =>
    rw [hl] at hs
    rw [finished_ok hs]
    unfold lastLine at hl
    split_ifs at hl
    · exact kept_line h hl
    · cases hl
      exact h

/-- **The book of a run is the book of its records.** -/
theorem redact_records {chunks : List Bytes} {s : State} (h : redact su chunks = .ok s) :
    records su (embeddedAt 2 su) s.seen (.start 0) = .ok s.book := by
  unfold redact at h
  cases hf : feedAll su (embeddedAt 2 su) chunks (.start true 0) with
  | error e =>
    rw [hf] at h
    cases h
  | ok u =>
    rw [hf] at h
    have hstart : (State.start true 0).Kept su (embeddedAt 2 su) (.start 0) := by
      unfold State.Kept
      rfl
    exact kept_finish (kept_feedAll chunks hstart hf) h

/-! ## one record with a secret value -/

/-- no diagnostic command starts with `set` -/
theorem operationalPrefix_set (words : List Text) : operationalPrefix (text "set" :: words) = none := by
  have hcanonical : canonicalCommand (text "set" :: words) = text "set" :: words := by
    simp [canonicalCommand, text]
  have hfixed : text "set" :: words ∉ fixedCommands := by
    simp [fixedCommands, text]
  unfold operationalPrefix
  simp only [hcanonical, hfixed]
  simp [text]

/-- what a record with a secret value comes to -/
def secretRecord (su : Setup) (policy : FullConfigPolicy) (field : Text) (b : Book) :
    Except Failure Book :=
  let context := b.context
  let b := b.noteSibling su policy context [text "set", field, []]
  if b.path ≠ [] ∧ Regex.fullMatch policy.platform.grammar field then
    let (value, b) := b.credential
    emitShown su (text "set") [] [field] (policy.sibling context).isSome
      (some (text "set " ++ field ++ ' ' :: value, true)) context b
  else .error .unverifiable

theorem noteSibling_secret {policy : FullConfigPolicy} {b : Book} {context : Context} {field : Text}
    (h : (context, field) ∈ policy.secretFields) (v : List Text) :
    b.noteSibling su policy context (text "set" :: field :: v)
      = b.noteSibling su policy context [text "set", field, []] := by
  unfold Book.noteSibling
  cases policy.sibling context with
  | none => rfl
  | some pair =>
    obtain ⟨nameField, valueField⟩ := pair
    simp only [h, not_true_eq_false, false_and, and_false, if_false]

theorem noteSibling_path (policy : FullConfigPolicy) (b : Book) (context : Context)
    (words : List Text) : (b.noteSibling su policy context words).path = b.path := by
  unfold Book.noteSibling
  split
  · split_ifs <;> rfl
  · rfl

/-- a `set` record with a value whose field is a secret one -/
theorem showCommand_secret {policy : FullConfigPolicy} (hp : su.policy = some policy) {b : Book}
    {field : Text} (h : (b.context, field) ∈ policy.secretFields) {v : List Text} (hv : v ≠ []) :
    showCommand su embedded (text "set") (field :: v) b
      = if b.path ≠ [] ∧ Regex.fullMatch policy.platform.grammar field then
          .ok (some (some (text "set " ++ field ++ ' ' :: b.credential.1, true)), b.credential.2)
        else .ok (none, b) := by
  have hgrammar : su.grammar = policy.platform.grammar := by
    unfold Setup.grammar
    rw [hp]
  have hconfig : text "set" ≠ text "config" := by decide
  have hedit : text "set" ≠ text "edit" := by decide
  have hnext : text "set" ≠ text "next" := by decide
  have hend : text "set" ≠ text "end" := by decide
  have hunset : text "set" ≠ text "unset" := by decide
  have hlength : (field :: v).length ≥ 2 := Nat.succ_le_succ (List.length_pos_iff.mpr hv)
  have hset : showSet su embedded policy b.context field v b
      = .ok (some (text "set " ++ field ++ [' '] ++ b.credential.1, true), b.credential.2) := by
    unfold showSet
    rw [if_pos h]
  unfold showCommand
  simp only [hp, hconfig, false_and, and_false, if_false]
  unfold showCommand.rest
  simp only [hconfig, hedit, hnext, hend, hunset, false_and, if_false, hgrammar, hlength, true_and,
    List.tail_cons, List.headD_cons, or_false, ne_eq, reduceCtorEq, not_false_eq_true, and_self,
    if_true, hset]
  split_ifs
  · simp [Except.map]
  · rfl

/-- with a policy the text of a record and its values are not looked at again -/
theorem emitShown_line {policy : FullConfigPolicy} (hp : su.policy = some policy) (b : Book)
    (line field : Text) (v : List Text) (sibling : Bool) (shown : Text × Bool) (context : Context) :
    emitShown su (text "set") line (field :: v) sibling (some shown) context b
      = emitShown su (text "set") [] [field] sibling (some shown) context b := by
  unfold emitShown
  simp only [hp, Option.isNone_some, Bool.false_eq_true, and_false, if_false]

theorem recordWords_secret {policy : FullConfigPolicy} (hp : su.policy = some policy) {b : Book}
    {field : Text} (h : (b.context, field) ∈ policy.secretFields) (line : Text) {v : List Text}
    (hv : v ≠ []) :
    recordWords su embedded line (text "set") (field :: v) b = secretRecord su policy field b := by
  have hmem : text "set" ∉ ["config", "edit", "next", "end"].map text := by decide
  have hcontext : (b.noteSibling su policy b.context [text "set", field, []]).context = b.context := by
    unfold Book.context
    rw [noteSibling_path]
  have hnone : ∀ b : Book, operational su (text "set" :: field :: v) b = (none, b) := fun b => by
    unfold operational
    rw [operationalPrefix_set]
  unfold recordWords secretRecord
  simp only [hmem, if_false, hp]
  show (showCommand su embedded (text "set") (field :: v)
    (b.noteSibling su policy b.context (text "set" :: field :: v))).bind _ = _
  rw [noteSibling_secret h, showCommand_secret hp (hcontext.symm ▸ h) hv]
  split_ifs
  · simp only [Except.bind, Option.any_some]
    exact emitShown_line hp _ _ _ _ _ _ _
  · simp only [Except.bind, hnone]
    split_ifs <;> rfl

/-- a `set` record needs a value -/
theorem recordWords_no_value {policy : FullConfigPolicy} (hp : su.policy = some policy) (b : Book)
    (line field : Text) :
    recordWords su embedded line (text "set") [field] b = .error .unverifiable := by
  have hmem : text "set" ∉ ["config", "edit", "next", "end"].map text := by decide
  have hconfig : text "set" ≠ text "config" := by decide
  have hedit : text "set" ≠ text "edit" := by decide
  have hnext : text "set" ≠ text "next" := by decide
  have hend : text "set" ≠ text "end" := by decide
  have hunset : text "set" ≠ text "unset" := by decide
  have hshow : ∀ b : Book, showCommand su embedded (text "set") [field] b = .ok (none, b) := by
    intro b
    unfold showCommand
    simp only [hp, hconfig, false_and, and_false, if_false]
    unfold showCommand.rest
    simp [hconfig, hedit, hnext, hend, hunset]
  have hnone : ∀ b : Book, operational su [text "set", field] b = (none, b) := fun b => by
    unfold operational
    rw [operationalPrefix_set]
  unfold recordWords
  simp only [hmem, if_false, hp]
  show (showCommand su embedded (text "set") [field] _).bind _ = _
  rw [hshow]
  simp only [Except.bind, hnone]
  split_ifs <;> rfl

/-! ## two runs -/

theorem record_of_command {l : Text} {words : List Text} (b : Book)
    (h : commandOf su l = some (text "set" :: words)) :
    record su embedded l b = recordWords su embedded l (text "set") words { b with started := true } := by
  unfold commandOf at h
  split_ifs at h with hblank
  unfold record
  rw [if_neg fun h => hblank (.inl h), if_neg fun h => hblank (.inr h), h]

/-- a record with a secret value, whatever the value is -/
theorem record_secret {policy : FullConfigPolicy} (hp : su.policy = some policy) {b x : Book}
    {l field : Text} {v : List Text} (hl : commandOf su l = some (text "set" :: field :: v))
    (h : (b.context, field) ∈ policy.secretFields) (hx : record su embedded l b = .ok x) :
    secretRecord su policy field { b with started := true } = .ok x := by
  rw [record_of_command b hl] at hx
  by_cases hv : v = []
  · rw [hv, recordWords_no_value hp] at hx
    cases hx
  · rw [← hx]
    exact (recordWords_secret (b := { b with started := true }) hp h l hv).symm

theorem secretPair_iff {policy : FullConfigPolicy} {context : Context} {l m : Text}
    (h : secretPair su policy context l m = true) :
    ∃ field v w, commandOf su l = some (text "set" :: field :: v) ∧
      commandOf su m = some (text "set" :: field :: w) ∧ (context, field) ∈ policy.secretFields := by
  unfold secretPair at h
  split at h
  · rename_i command field v command' field' w hl hm
    simp only [Bool.and_eq_true, decide_eq_true_eq] at h
    obtain ⟨⟨⟨rfl, rfl⟩, rfl⟩, hsecret⟩ := h
    exact ⟨field, v, w, hl, hm, hsecret⟩
  · cases h

theorem sameBut_records {policy : FullConfigPolicy} (hp : su.policy = some policy) {b x y : Book}
    {ls ms : List Text} (h : sameBut su embedded policy b ls ms = true)
    (hx : records su embedded ls b = .ok x) (hy : records su embedded ms b = .ok y) : x = y := by
  induction ls generalizing b ms with
  | nil =>
    cases ms with
    | nil =>
      cases hx
      cases hy
      rfl
    | cons m ms => cases h
  | cons l ls ih =>
    cases ms with
    | nil => cases h
    | cons m ms =>
      have hx' : (record su embedded l b).bind (records su embedded ls) = .ok x := hx
      have hy' : (record su embedded m b).bind (records su embedded ms) = .ok y := hy
      rw [sameBut] at h
      cases hl : record su embedded l b with
      | error e =>
        rw [hl] at h
        cases h
      | ok b' =>
        rw [hl] at h hx'
        obtain ⟨hpair, hrest⟩ := Bool.and_eq_true_iff.mp h
        rcases Bool.or_eq_true_iff.mp hpair with hsame | hsecret
        · rw [← of_decide_eq_true hsame, hl] at hy'
          exact ih hrest hx' hy'
        · obtain ⟨field, v, w, hv, hw, hfield⟩ := secretPair_iff hsecret
          cases hm : record su embedded m b with
          | error e =>
            rw [hm] at hy'
            cases hy'
          | ok b'' =>
            have heq : b' = b'' := Except.ok.inj
              ((record_secret hp hv hfield hl).symm.trans (record_secret hp hw hfield hm))
            rw [hm, ← heq] at hy'
            exact ih hrest hx' hy'

/-- **Secret values do not reach the content.**  Two runs that succeed on streams whose records differ
in the values of secret fields only return the same content, count and summary. -/
theorem secrets_hidden (su : Setup) (policy : FullConfigPolicy) (hp : su.policy = some policy)
    (a b : List Bytes) (s t : State) (ha : redact su a = .ok s) (hb : redact su b = .ok t)
    (h : sameBut su (embeddedAt 2 su) policy (.start 0) s.seen t.seen = true) :
    s.book.output = t.book.output := by
  rw [sameBut_records hp h (redact_records ha) (redact_records hb)]

end

/-! ### a header pair with a secret value -/

def pairContext : Context := [text "web-proxy profile", text "headers"]

def pairPolicy : FullConfigPolicy where
  platform := .fortios
  publicFields := [(pairContext, text "name")]
  publicEditSections := [[text "web-proxy profile"], pairContext]
  opaqueSections := []
  headerKeys := []
  allowVdom := false
  secretFields := [(pairContext, text "content")]
  unverifiedFields := []
  inlineHeaderFields := []
  siblingHeaderFields := [(pairContext, text "name", text "content")]
  valid := by decide +kernel

def defaultLimits : Limits where
  sectionBytes := 64 * 1024 * 1024
  allBytes := 256 * 1024 * 1024
  physicalLineBytes := 65536
  logicalRecordBytes := 1024 * 1024
  ok := by decide

def pairSetup : Setup where
  rt := ⟨fun _ => [], fun c => c.isAlphanum, fun _ _ => 0⟩
  forbidden := []
  «section» := text "all"
  policy := some pairPolicy
  limits := defaultLimits
  scriptMode := false

/-- the configuration with this value of the header -/
def pairStream (value : String) : List Bytes :=
  [Utf8.encode (text ("config web-proxy profile\nedit p\nconfig headers\nedit 1\nset name X-Key\n" ++
    "set content " ++ value ++ "\nnext\nend\nnext\nend\n"))]

/-- the kernel reads a long text faster in parts -/
theorem encode_parts (a b c d : String) : [Utf8.encode (text (a ++ b ++ c ++ d))] =
    [Utf8.encode (a.toList ++ b.toList ++ c.toList ++ d.toList)] := by
  rw [text, String.toList_append, String.toList_append, String.toList_append]

theorem pairStream_parts (value : String) : pairStream value =
    [Utf8.encode ("config web-proxy profile\nedit p\nconfig headers\nedit 1\nset name X-Key\n".toList ++
      "set content ".toList ++ value.toList ++ "\nnext\nend\nnext\nend\n".toList)] :=
  encode_parts _ _ _ _

/-- two configurations that differ, and only in a secret -/
def differInSecret : Except Failure State → Except Failure State → Bool
  | .ok s, .ok t => decide (s.seen ≠ t.seen) &&
      sameBut pairSetup (embeddedAt 2 pairSetup) pairPolicy (.start 0) s.seen t.seen
  | _, _ => false

theorem secrets_hidden_pair : ∃ s t, redact pairSetup (pairStream "abc") = .ok s ∧
    redact pairSetup (pairStream "\"other\nvalue\"") = .ok t ∧ s.seen ≠ t.seen ∧
    s.book.output = t.book.output := by
  have hruns : differInSecret (redact pairSetup (pairStream "abc"))
      (redact pairSetup (pairStream "\"other\nvalue\"")) = true := by
    rewrite [pairStream_parts, pairStream_parts]
    decide +kernel
  unfold differInSecret at hruns
  split at hruns
  · rename_i s t hs ht
    obtain ⟨hne, hsame⟩ := Bool.and_eq_true_iff.mp hruns
    exact ⟨s, t, hs, ht, of_decide_eq_true hne,
      secrets_hidden pairSetup pairPolicy rfl _ _ s t hs ht hsame⟩
  · cases hruns

end Netops.Configuration

import Mathlib.Data.List.Sublists
import Netops.Helper.Fair

/-!
# What a frame of the server does to the requests that wait

An id leaves `pending` before the answer is sanitized, filtered and merged.

* `Kept`     no id is lost: what leaves `pending` leaves the other maps, and is the id of one message
             that is passed on;
* `Safe`     no step after that raises, and the id stays as it is;
* `response_keeps`   the first holds when the second does.
-/

namespace Netops.Sanitize

open Regex
open Json hiding isSpace
open Netops.Redaction (Text text mapM_option isContainer)

/-! ## the key `id` -/

section
variable {py : Python}

/-- the only text that reads `id` afterwards is `id` -/
theorem eq_of_hide {normalized : List Text} {s t : Text} (ht : t.length < 10)
    (h : hide py normalized s = t) : s = t := by
  have hsub : ∀ {kept hidden : Regex Nat} {m : Text} {s : Text}, 10 ≤ m.length →
      sub kept hidden m s = t → s = t := by
    intro kept hidden m s hm he
    have hmasked : Masked m s t := he ▸ masked_substitute kept hidden m _ _ _
    exact hmasked.eq_of_length_lt (ht.trans_le hm)
  have hfold : ∀ (olds : List Text) (s : Text),
      olds.foldl (fun s old => replaceAll old redacted s) s = t → s = t := by
    intro olds
    induction olds with
    | nil => exact fun s he => he
    | cons old olds ih =>
      intro s he
      have hmasked : Masked redacted s t := ih _ he ▸ masked_replaceAll old redacted s
      exact hmasked.eq_of_length_lt ht
  have hlast := (masked_substituteSparing fieldKept fieldHidden quotedRedacted capability _ [] _).eq_of_length_lt
    (t := hide py normalized s) (by rw [h]; exact ht.trans_le (by decide))
  rw [h] at hlast
  have hcisco := hsub (by decide) hlast
  have hshadow := hsub (by decide) hcisco
  have henc := hsub (by decide) hshadow
  have hpem := hsub (by decide) henc
  exact hfold _ _ (hsub (by decide) hpem)

/-- the key `id` -/
def idKey : Text := text "id"

/-- a character stands for itself, or is written with a backslash -/
theorem escape_cases (n : Nat) :
    (escape n).map Char.toNat = [n] ∨ ∃ l, escape n = '\\' :: l := by
  rw [escape]
  split_ifs with _ _ _ _ _ _ _ hprintable _
  iterate 7 exact .inr ⟨_, rfl⟩
  · exact .inl (by rw [List.map_singleton, Json.ofNat_toNat n (by omega)])
  · exact .inr ⟨_, rfl⟩
  · exact .inr ⟨_, rfl⟩

theorem flatMap_own {g : Nat → Text} (hg : ∀ n, g n = [n] ∨ 92 ∈ g n) {secret : Text}
    (h : 92 ∉ secret.flatMap g) : secret.flatMap g = secret := by
  induction secret with
  | nil => rfl
  | cons n secret ih =>
    rw [List.flatMap_cons] at h ⊢
    rcases hg n with hn | hn
    · rw [hn, ih fun hs => h (List.mem_append_right _ hs)]
      rfl
    · exact absurd (List.mem_append_left _ hn) h

theorem forms_own {secret form : Text} (hf : form ∈ forms secret) (h : 92 ∉ form) : form = secret := by
  have hescape : ∀ n, (escape n).map Char.toNat = [n] ∨ 92 ∈ (escape n).map Char.toNat := by
    intro n
    refine (escape_cases n).imp_right ?_
    rintro ⟨l, hl⟩
    rw [hl]
    exact List.mem_cons_self ..
  simp only [forms, List.mem_cons, List.not_mem_nil, or_false] at hf
  rcases hf with rfl | rfl | rfl
  · rfl
  · rw [List.map_flatMap] at h ⊢
    exact flatMap_own hescape h
  · refine flatMap_own (fun n => ?_) h
    split
    · exact hescape n
    · exact .inl rfl

/-- a secret has three bytes, and does not stand in `id` -/
theorem not_infix_idKey {secret form : Text} (hlong : 3 ≤ utf8Length secret) (hf : form ∈ forms secret) :
    ¬form <:+: idKey := by
  intro h
  have hown : form = secret := forms_own hf fun h92 => absurd (h.subset h92) (by decide)
  have hshort : ∀ s ∈ idKey.sublists, utf8Length s < 3 := by decide
  have hlt := hshort form (List.mem_sublists.2 h.sublist)
  rw [hown] at hlt
  omega

theorem replaceAll_idKey {old : Text} (h : ¬old <:+: idKey) : replaceAll old redacted idKey = idKey := by
  have hboth : ¬old.isPrefixOf [105, 100] = true := fun hp => h (List.isPrefixOf_iff_prefix.1 hp).isInfix
  have hone : ¬old.isPrefixOf [100] = true := fun hp =>
    h ((List.isPrefixOf_iff_prefix.1 hp).isInfix.trans ⟨[105], [], rfl⟩)
  show replaceFrom old redacted 2 [105, 100] = [105, 100]
  rw [replaceFrom, if_neg hboth, replaceFrom, if_neg hone]
  rfl

/-- a word that is not there does not match -/
theorem sub_wordStart {r hidden : Regex Nat} {marker : Text}
    (hr : run r (none, [105, 100]) = [] ∧ run r (some 105, [100]) = []) :
    sub (.seq (wordStart py) r) hidden marker idKey = idKey := by
  have hparts : ∀ c, run r c = [] → matchParts (.seq (wordStart py) r) hidden c = none := by
    intro c hc
    rw [matchParts, run, wordStart, run]
    split
    · rw [List.flatMap_singleton, hc]
      rfl
    · rfl
  show substitute _ hidden marker 2 none [105, 100] = [105, 100]
  rw [substitute, hparts _ hr.1]
  dsimp only
  rw [substitute, hparts _ hr.2]
  rfl

/-- no expression finds anything in `id` -/
theorem hide_idKey {given normalized : List Text} (hn : normalizeSecrets given = some normalized) :
    hide py normalized idKey = idKey := by
  have hfold : ∀ olds : List Text, (∀ old ∈ olds, ¬old <:+: idKey) →
      olds.foldl (fun s old => replaceAll old redacted s) idKey = idKey := by
    intro olds
    induction olds with
    | nil => exact fun _ => rfl
    | cons old olds ih =>
      intro h
      rw [List.foldl_cons, replaceAll_idKey (h old (List.mem_cons_self ..))]
      exact ih fun o ho => h o (List.mem_cons_of_mem _ ho)
  have hnot : ∀ old ∈ normalized, ¬old <:+: idKey := by
    intro old ho
    rw [normalizeSecrets] at hn
    split at hn
    · cases hn
    · cases hn
      have hmem := List.mem_dedup.1 ((List.perm_insertionSort _ _).mem_iff.1 ho)
      obtain ⟨secret, hs, hf⟩ := List.mem_flatMap.1 hmem
      exact not_infix_idKey (by simpa using (List.mem_filter.1 hs).2) hf
  have hpem : sub .empty privatePem keyRedacted idKey = idKey := rfl
  have henc : sub .empty (fortiEnc py) encRedacted idKey = idKey := by
    simp [sub, fortiEnc, sequence, wordStart, idKey, text, substitute, matchParts, Regex.run,
      Redaction.exactly, Regex.word, matchLength]
  have hshadow : sub shadowKept shadowHidden redacted idKey = idKey := rfl
  have hcisco : sub (ciscoKept py) (plus notSpace) redacted idKey = idKey := rfl
  have hcommunity : sub (communityKept py) communityHidden redacted idKey = idKey :=
    sub_wordStart ⟨rfl, rfl⟩
  rw [hide, hfold normalized hnot, hpem, henc, hshadow, hcisco, hcommunity]
  rfl

/-- the text of a container does not read `id` -/
def Brackets (py : Python) : Prop := ∀ v, isContainer v = true → py.dumps v ≠ idKey

variable {normalized : List Text}

theorem decode_idKey : decode py idKey = none := rfl

theorem walkText_idKey {walk : Value → Option Value} {s : Text}
    (h : walkText py normalized walk idKey = some s) : s = idKey := by
  rw [walkText, decode_idKey] at h
  obtain ⟨again, hn, rfl⟩ := Option.map_eq_some_iff.1 h
  exact hide_idKey hn

/-- a key that reads `id` afterwards was `id` -/
theorem eq_of_walkText {walk : Value → Option Value} (hb : Brackets py) (hwalk : ∀ v r, isContainer v = true → walk v = some r →
    isContainer r = true) {s : Text} (h : walkText py normalized walk s = some idKey) : s = idKey := by
  rw [walkText] at h
  split at h
  · next decoded hd =>
    obtain ⟨cleaned, hc, he⟩ := Option.map_eq_some_iff.1 h
    rw [decode] at hd
    split at hd
    · obtain ⟨-, hcond⟩ := Option.filter_eq_some_iff.1 hd
      obtain ⟨-, hcont⟩ := Bool.and_eq_true_iff.1 hcond
      split at he
      · exact he
      · exact absurd he (hb cleaned (hwalk _ _ hcont hc))
    · cases hd
  · obtain ⟨again, -, he⟩ := Option.map_eq_some_iff.1 h
    exact eq_of_hide (by decide) he

theorem walk_container {n : Nat} {v r : Value} (hv : isContainer v = true)
    (h : walk py normalized n v = some r) : isContainer r = true := by
  cases n with
  | zero => exact nomatch h
  | succ n =>
    cases v with
    | arr items =>
      obtain ⟨rs, -, rfl⟩ := Option.map_eq_some_iff.1 h
      rfl
    | obj fields =>
      obtain ⟨rs, -, rfl⟩ := Option.map_eq_some_iff.1 h
      rfl
    | _ => exact nomatch hv

/-- a pair has the key `id` when it had it before, and its value is walked -/
theorem walkField_id (hb : Brackets py) {n : Nat} {x y : Text × Value}
    (h : walkField py normalized (walk py normalized n) x = some y) :
    x.1 ≠ idKey ∧ y.1 ≠ idKey ∨ x.1 = idKey ∧ y.1 = idKey ∧ walk py normalized n x.2 = some y.2 := by
  rw [walkField] at h
  obtain ⟨key, hkey, hvalue⟩ := Option.bind_eq_some_iff.1 h
  by_cases hx : x.1 = idKey
  · rw [hx] at hkey hvalue
    rw [if_neg (by decide)] at hvalue
    obtain ⟨child, hc, rfl⟩ := Option.map_eq_some_iff.1 hvalue
    exact .inr ⟨hx, walkText_idKey hkey, hc⟩
  · have hy : y.1 = key := by
      split at hvalue
      · cases hvalue
        rfl
      · obtain ⟨child, -, rfl⟩ := Option.map_eq_some_iff.1 hvalue
        rfl
    refine .inl ⟨hx, fun he => hx ?_⟩
    rw [hy] at he
    rw [he] at hkey
    exact eq_of_walkText hb (fun v r hv hr => walk_container hv hr) hkey

/-- the value of the key `id` is walked like any other, and no other key takes its place -/
theorem walk_id (hb : Brackets py) {n : Nat} {fields cleaned : List (Text × Value)}
    (h : walk py normalized (n + 1) (.obj fields) = some (.obj cleaned)) :
    Dict.last idKey cleaned = (Dict.last idKey fields).bind (walk py normalized n) := by
  obtain ⟨pairs, hp, he⟩ := Option.map_eq_some_iff.1 h
  cases he
  rw [collect, Dict.last_foldl_set]
  have hall : Dict.last idKey pairs = (Dict.last idKey fields).bind (walk py normalized n) ∧
      ∀ v, Dict.last idKey fields = some v → ∃ r, walk py normalized n v = some r := by
    have hpairs := mapM_option hp
    clear hp h
    induction hpairs with
    | nil => exact ⟨rfl, fun v hv => nomatch hv⟩
    | @cons x y fields pairs hxy _ ih =>
      rw [Dict.last_cons, Dict.last_cons, ih.1]
      rcases walkField_id hb hxy with ⟨hx, hy⟩ | ⟨hx, hy, hwalked⟩
      · rw [if_neg hx, if_neg hy, Option.or_none, Option.or_none]
        exact ⟨rfl, ih.2⟩
      · rw [if_pos hx, if_pos hy]
        cases hl : Dict.last idKey fields with
        | none => exact ⟨hwalked.symm, fun v hv => ⟨_, Option.some.inj hv ▸ hwalked⟩⟩
        | some v =>
          obtain ⟨r, hr⟩ := ih.2 v hl
          rw [Option.bind_some, hr, Option.some_or, Option.some_or, Option.bind_some, hr]
          exact ⟨rfl, fun w hw => ⟨r, Option.some.inj hw ▸ hr⟩⟩
  exact hall.1

end

end Netops.Sanitize

namespace Netops.Relay

open Json (Value)
open Netops.Helper
open Netops.Sanitize (sanitizeObject idKey Brackets)

/-! ## ids -/

/-- what a dictionary compares of a key -/
inductive Key where
  | null
  | str (s : Text)
  | number (n : Int)

def keyOf (rt : Runtime) : Id → Option Key
  | .null => some .null
  | .str s => some (.str s)
  | v => (number rt v).map .number

section
variable {rt : Runtime}

/-- two numbers are the same key -/
def sameNumber : Option Int → Option Int → Bool
  | some m, some n => m = n
  | _, _ => false

theorem sameKey_iff {a b : Id} : sameKey rt a b = true ↔ ∃ k, keyOf rt a = some k ∧ keyOf rt b = some k := by
  have hnumber : ∀ a b : Option Int, sameNumber a b = true ↔
      ∃ k, a.map Key.number = some k ∧ b.map Key.number = some k := by
    intro a b
    cases a <;> cases b <;> simp [sameNumber, eq_comm]
  cases a <;> cases b <;>
    first
      | exact hnumber _ _
      | simp [sameKey, keyOf, number, eq_comm]

theorem sameKey_null {id : Id} (h : sameKey rt .null id = true) : id = .null := by
  cases id with
  | null => rfl
  | _ => simp [sameKey, number] at h

theorem sameKey_symm {a b : Id} (h : sameKey rt a b = true) : sameKey rt b a = true := by
  obtain ⟨k, ha, hb⟩ := sameKey_iff.1 h
  exact sameKey_iff.2 ⟨k, hb, ha⟩

theorem sameKey_trans {a b c : Id} (h : sameKey rt a b = true) (h' : sameKey rt b c = true) :
    sameKey rt a c = true := by
  obtain ⟨k, ha, hb⟩ := sameKey_iff.1 h
  obtain ⟨k', hb', hc⟩ := sameKey_iff.1 h'
  rw [hb] at hb'
  cases hb'
  exact sameKey_iff.2 ⟨k, ha, hc⟩

theorem hashable_of_sameKey {a b : Id} (h : sameKey rt a b = true) : hashable b = true := by
  obtain ⟨k, -, hk⟩ := sameKey_iff.1 h
  cases b with
  | arr vs => exact nomatch hk
  | obj fs => exact nomatch hk
  | _ => rfl

/-- equal keys are equal to the same keys -/
theorem sameKey_congr {a b : Id} (h : sameKey rt a b = true) (c : Id) :
    sameKey rt c a = sameKey rt c b := by
  rw [Bool.eq_iff_iff]
  exact ⟨fun hc => sameKey_trans hc h, fun hc => sameKey_trans hc (sameKey_symm h)⟩

end

/-- the id of a message -/
def idOf : Value → Option Id
  | .obj fields => field fields "id"
  | _ => none

/-- the ids of the messages that are returned -/
def Reply.ids : Reply → List Id
  | .message v => (idOf v).toList
  | .batch vs => vs.filterMap idOf
  | _ => []

/-- `pending` held the id before, and does not hold it after -/
def removed (rt : Runtime) (p p' : Proxy) (id : Id) : Bool :=
  (IdMap.find rt p.pending id).isSome && (IdMap.find rt p'.pending id).isNone

/-- No id is lost: one that is removed from `pending` is removed from the other maps, and is the id of
exactly one message that is returned. -/
structure Kept (rt : Runtime) (p : Proxy) (r : Reply × Proxy) : Prop where
  returns : r.1 ≠ .raised
  once : ∀ id, removed rt p r.2 id = true → (r.1.ids.countP fun v => sameKey rt v id) = 1
  only : ∀ id ∈ r.1.ids, removed rt p r.2 id = true
  pendingDeadlines :
    r.2.pendingDeadlines = p.pendingDeadlines.filter fun e => !removed rt p r.2 e.1
  pendingTools : r.2.pendingTools = p.pendingTools.filter fun e => !removed rt p r.2 e.1
  responseSecrets : r.2.responseSecrets = p.responseSecrets.filter fun e => !removed rt p r.2 e.1
  controlPayloads : r.2.controlPayloads = p.controlPayloads.filter fun e => !removed rt p r.2 e.1
  pendingContinuations :
    r.2.pendingContinuations = p.pendingContinuations.filter fun e => !removed rt p r.2 e.1

section
variable (host : Host)

/-! ## when nothing is lost -/

/-- the messages of a frame that is not refused as a whole -/
def messagesIn (epoch : Option Nat) (raw : Bytes) (p : Proxy) : List Fields :=
  if !p.accepting epoch ∨ maxServerFrameBytes < raw.length ∨ raw.all isSpace then []
  else match host.rt.serverDocument raw with
    | none => []
    | some (.arr items) => match items.mapM validMessage with
      | none => []
      | some messages => if batchPairable host p [] messages then messages else []
    | some v => (validMessage v).toList

/-- `message.get("id")` -/
def idIn (message : Fields) : Id := (field message "id").getD .null

/-- the request that a message answers -/
def paired (p : Proxy) (message : Fields) : Option (Id × Waiting) :=
  if isAnswer message ∧ !(p.internalRequests.any fun i => sameKey host.rt i (idIn message)) then
    (waiting host p (idIn message)).map fun w => (idIn message, w)
  else none

def isNotification (message : Fields) : Bool :=
  (field message "method").isSome && (field message "id").isNone

/-- a dictionary in `tools` has a name that can be looked up in a set -/
def Listable (message : Fields) : Prop :=
  ∀ result tools item, objectOf (field message "result") = some result →
    field result "tools" = some (.arr tools) → .obj item ∈ tools →
    (field item "name").all hashable = true

/-- the secrets that are hidden in a message -/
def secretsFor (p : Proxy) (secrets : List Text) : List Text :=
  secrets ++ p.sessionSecrets ++ p.transportSecrets

/-- no exception leaves `_transform`: `sanitize_object` returns on the message and on the JSON texts in
its content, and a list of tools can be filtered -/
def Returns (p : Proxy) (message : Fields) : Prop :=
  match paired host p message with
  | some (_, w) => asksForInput message = true ∨
      ∃ cleaned, clean host w (secretsFor p w.secrets) message = some cleaned ∧
        (w.method = text "tools/list" → Listable cleaned)
  | none => isNotification message = true →
      (clean host ⟨[], none, [], none, none⟩ (secretsFor p []) message).isSome

/-- the answer keeps its id: `sanitize_object` finds nothing in it, and it is no float or Boolean where
the proxy answers for the server -/
def Stays (p : Proxy) (message : Fields) : Prop :=
  ∀ id w, paired host p message = some (id, w) →
    if asksForInput message then validId id = true
    else ((sanitizeObject host.py (host.depth - 1) id (secretsFor p w.secrets)).any
      fun v => sameKey host.rt v id) = true

/-- the id that an answer has when it is passed on -/
def idLeft (p : Proxy) (id : Id) (w : Waiting) (message : Fields) : Option Id :=
  if asksForInput message then some (inputRequestId id)
  else (field message "id").bind fun id =>
    sanitizeObject host.py (host.depth - 1) id (secretsFor p w.secrets)

/-- nothing in the frame leads to the loss of an id -/
def Safe (epoch : Option Nat) (raw : Bytes) (p : Proxy) : Prop :=
  ∀ message ∈ messagesIn host epoch raw p, Returns host p message ∧ Stays host p message

end

/-! ## the id in the content -/

section
variable {name other : String} {fields : Fields}

theorem field_adjust (hne : text name ≠ text other) (f : Value → Value) :
    field (adjust fields name f) other = field fields other := by
  show Dict.last _ _ = Dict.last _ _
  induction fields with
  | nil => rfl
  | cons x fields ih =>
    rw [adjust, List.map_cons, Dict.last_cons, Dict.last_cons]
    rw [adjust] at ih
    rw [ih]
    by_cases hx : x.1 = text name
    · rw [if_pos hx, if_neg (hx ▸ hne), if_neg (hx ▸ hne)]
    · rw [if_neg hx]

theorem field_put (hne : text name ≠ text other) (v : Value) :
    field (put fields name v) other = field fields other := by
  rw [put]
  split
  · exact field_adjust hne fun _ => v
  · rw [field, field, List.reverse_append, List.reverse_singleton, List.singleton_append,
      List.find?_cons_of_neg (by simpa using hne)]

end

section
variable {host : Host} {w : Waiting} {secrets : List Text} {message cleaned : Fields}

theorem sanitizeResultText_id {untrusted : Bool}
    (h : sanitizeResultText host secrets untrusted message = some cleaned) :
    field cleaned "id" = field message "id" := by
  rw [sanitizeResultText] at h
  split at h
  · cases h
    rfl
  · split at h
    · obtain ⟨items, -, rfl⟩ := Option.map_eq_some_iff.1 h
      exact field_put (by decide) _
    · cases h
      rfl

theorem markUntrustedResult_id (h : markUntrustedResult host secrets message = some cleaned) :
    field cleaned "id" = field message "id" := by
  rw [markUntrustedResult] at h
  split at h
  · cases h
    rfl
  · rw [sanitizeResultText_id h]
    exact field_put (by decide) _

/-- the id of an answer is sanitized like any value -/
theorem clean_id (hb : Brackets host.py) (h : clean host w secrets message = some cleaned) :
    field cleaned "id" =
      (field message "id").bind fun id => sanitizeObject host.py (host.depth - 1) id secrets := by
  rw [clean] at h
  split at h
  · next fields hs =>
    have hid : field cleaned "id" = field fields "id" := by
      dsimp only at h
      split at h
      · rw [markUntrustedResult_id h]
        exact field_adjust (by decide) _
      · rw [sanitizeResultText_id h]
        exact field_adjust (by decide) _
    rw [hid]
    obtain ⟨normalized, hn, hwalk⟩ := Option.bind_eq_some_iff.1 hs
    simp only [sanitizeObject, hn, Option.bind_some]
    cases hd : host.depth with
    | zero =>
      rw [hd] at hwalk
      cases hwalk
    | succ n =>
      rw [hd] at hwalk
      exact Sanitize.walk_id hb hwalk
  · cases h

theorem finish_id {shown : Fields} (h : finish host w cleaned = some shown) :
    field shown "id" = field cleaned "id" := by
  rw [finish] at h
  split at h
  · cases h
    split
    · split
      · rw [mergeControlPayload]
        split
        · rfl
        · exact field_put (by decide) _
      · rfl
    · rfl
  · split at h
    · rw [filterResult] at h
      split at h
      · cases h
        rfl
      · split at h
        · obtain ⟨tools, -, rfl⟩ := Option.map_eq_some_iff.1 h
          exact field_put (by decide) _
        · cases h
          rfl
    · cases h
      rfl

/-- the tools can be filtered when every name can be looked up -/
theorem filterTools_isSome : ∀ (items : List Value) (seen : List Text),
    (filterTools host seen items).isSome ↔
      ∀ item, .obj item ∈ items → (field item "name").all hashable = true := by
  intro items
  induction items with
  | nil => exact fun seen => ⟨fun _ item h => (nomatch h), fun _ => rfl⟩
  | cons v items ih =>
    intro seen
    -- the rest decides, as long as this name can be looked up
    have hrest : ∀ {seen' : List Text} {o : Option (List Value)},
        o.isSome = (filterTools host seen' items).isSome →
        (∀ item, v = .obj item → (field item "name").all hashable = true) →
        (o.isSome ↔ ∀ item, .obj item ∈ v :: items → (field item "name").all hashable = true) := by
      intro seen' o ho hv
      rw [ho, ih seen']
      constructor
      · intro h item hm
        rcases List.mem_cons.1 hm with he | hm
        · exact hv item he.symm
        · exact h item hm
      · exact fun h item hm => h item (List.mem_cons_of_mem _ hm)
    cases v with
    | obj item =>
      have hname : ∀ {n : Option Value}, field item "name" = n → n.all hashable = true →
          ∀ item', Value.obj item = .obj item' → (field item' "name").all hashable = true := by
        rintro n hn hh item' he
        cases he
        rw [hn]
        exact hh
      have hnot : ∀ {n : Value}, field item "name" = some n → hashable n = false →
          ¬ ∀ item', .obj item' ∈ Value.obj item :: items → (field item' "name").all hashable = true := by
        intro n hn hh h
        have hall := h item (List.mem_cons_self ..)
        rw [hn, Option.all_some, hh] at hall
        exact nomatch hall
      rw [filterTools]
      split
      · next hn => exact ⟨fun h => (nomatch h), fun h => absurd h (hnot hn rfl)⟩
      · next hn => exact ⟨fun h => (nomatch h), fun h => absurd h (hnot hn rfl)⟩
      · next name hn =>
        split
        · split
          · exact hrest Option.isSome_map (hname hn rfl)
          · exact hrest rfl (hname hn rfl)
        · exact hrest rfl (hname hn rfl)
      · next harr hobj hstr =>
        refine hrest rfl (hname rfl ?_)
        cases hn : field item "name" with
        | none => rfl
        | some n =>
          cases n with
          | arr vs => exact absurd hn (harr vs)
          | obj fs => exact absurd hn (hobj fs)
          | _ => rfl
    | _ => exact hrest rfl fun item he => (nomatch he)

theorem finish_isSome : (finish host w cleaned).isSome ↔
    (w.method = text "tools/list" → Listable cleaned) := by
  rw [finish]
  split
  · next hcall =>
    refine ⟨fun _ hlist => ?_, fun _ => rfl⟩
    rw [hcall] at hlist
    exact absurd hlist (by decide)
  · split
    · next hlist =>
      rw [filterResult]
      split
      · next hnone =>
        refine ⟨fun _ _ result tools item hr => ?_, fun _ => rfl⟩
        rw [hnone] at hr
        exact nomatch hr
      · next result hresult =>
        split
        · next tools htools =>
          rw [Option.isSome_map, filterTools_isSome]
          constructor
          · intro h _ result' tools' item hr ht hm
            rw [hresult] at hr
            cases hr
            rw [htools] at ht
            cases ht
            exact h item hm
          · exact fun h item hm => h hlist result tools item hresult htools hm
        · next hnone =>
          refine ⟨fun _ _ result' tools' item hr ht => ?_, fun _ => rfl⟩
          rw [hresult] at hr
          cases hr
          exact absurd ht (hnone tools')
    · next hlist => exact ⟨fun _ h => absurd h hlist, fun _ => rfl⟩

end

/-! ## what the maps lose -/

/-- the entries of these ids are gone from all maps -/
structure Loses (rt : Runtime) (gone : List Id) (p p' : Proxy) : Prop where
  pending : p'.pending = p.pending.filter fun e => !gone.any (sameKey rt e.1)
  pendingDeadlines : p'.pendingDeadlines = p.pendingDeadlines.filter fun e => !gone.any (sameKey rt e.1)
  pendingTools : p'.pendingTools = p.pendingTools.filter fun e => !gone.any (sameKey rt e.1)
  responseSecrets : p'.responseSecrets = p.responseSecrets.filter fun e => !gone.any (sameKey rt e.1)
  controlPayloads : p'.controlPayloads = p.controlPayloads.filter fun e => !gone.any (sameKey rt e.1)
  pendingContinuations :
    p'.pendingContinuations = p.pendingContinuations.filter fun e => !gone.any (sameKey rt e.1)

section
variable {rt : Runtime} {β : Type} {m : IdMap β} {gone : List Id} {p p' : Proxy}

theorem find_isSome {id : Id} : (IdMap.find rt m id).isSome ↔ ∃ e ∈ m, sameKey rt e.1 id = true := by
  rw [IdMap.find, Option.isSome_map, List.find?_isSome]

theorem any_sameKey {id : Id} : gone.any (sameKey rt id) = true ↔ ∃ i ∈ gone, sameKey rt id i = true :=
  List.any_eq_true

theorem any_congr {a b : Id} (h : sameKey rt a b = true) :
    gone.any (sameKey rt a) = gone.any (sameKey rt b) := by
  rw [Bool.eq_iff_iff, any_sameKey, any_sameKey]
  exact ⟨fun ⟨i, hi, hk⟩ => ⟨i, hi, sameKey_trans (sameKey_symm h) hk⟩,
    fun ⟨i, hi, hk⟩ => ⟨i, hi, sameKey_trans h hk⟩⟩

/-- the other ids are found as before -/
theorem find_filter {id : Id} (h : gone.any (sameKey rt id) = false) :
    IdMap.find rt (m.filter fun e => !gone.any (sameKey rt e.1)) id = IdMap.find rt m id := by
  rw [IdMap.find, IdMap.find, List.find?_filter]
  congr 2
  funext e
  cases hk : sameKey rt e.1 id with
  | false => simp
  | true =>
    rw [any_congr hk, h]
    simp

/-- of the ids that were waiting, these are removed -/
theorem removed_eq (h : Loses rt gone p p') (hin : ∀ i ∈ gone, (IdMap.find rt p.pending i).isSome)
    (id : Id) : removed rt p p' id = gone.any (sameKey rt id) := by
  rw [Bool.eq_iff_iff, removed, Bool.and_eq_true, h.pending, Option.isNone_iff_eq_none,
    ← Option.not_isSome_iff_eq_none, find_isSome, find_isSome]
  constructor
  · rintro ⟨⟨e, he, hk⟩, hnot⟩
    rw [← any_congr hk]
    by_contra hg
    exact hnot ⟨e, List.mem_filter.2 ⟨he, by simpa using hg⟩, hk⟩
  · intro hg
    obtain ⟨i, hi, hk⟩ := any_sameKey.1 hg
    obtain ⟨e, he, hei⟩ := find_isSome.1 (hin i hi)
    refine ⟨⟨e, he, sameKey_trans hei (sameKey_symm hk)⟩, ?_⟩
    rintro ⟨e', he', hk'⟩
    have hgone := (List.mem_filter.1 he').2
    rw [any_congr hk', hg] at hgone
    exact nomatch hgone

theorem countP_forall₂ {ids gone : List Id} (h : List.Forall₂ (fun a b => sameKey rt a b = true) ids gone)
    (id : Id) : ids.countP (fun v => sameKey rt v id) = gone.countP fun v => sameKey rt v id := by
  induction h with
  | nil => rfl
  | @cons a b _ _ hk _ ih =>
    have hsame : sameKey rt a id = sameKey rt b id := by
      rw [Bool.eq_iff_iff]
      exact ⟨fun h => sameKey_trans (sameKey_symm hk) h, fun h => sameKey_trans hk h⟩
    rw [List.countP_cons, List.countP_cons, ih, hsame]

/-- ids that differ: one of them is equal to a given one -/
theorem countP_distinct {id : Id} : ∀ {gone : List Id},
    gone.Pairwise (fun a b => sameKey rt a b = false) → gone.any (sameKey rt id) = true →
      gone.countP (fun v => sameKey rt v id) = 1 := by
  intro gone
  induction gone with
  | nil => exact fun _ h => nomatch h
  | cons i gone ih =>
    intro hd hany
    obtain ⟨hi, hd⟩ := List.pairwise_cons.1 hd
    rw [List.countP_cons]
    cases hk : sameKey rt i id with
    | true =>
      have hnone : gone.countP (fun v => sameKey rt v id) = 0 := by
        rw [List.countP_eq_zero]
        intro j hj hjk
        have hij := sameKey_trans hk (sameKey_symm hjk)
        rw [hi j hj] at hij
        exact nomatch hij
      rw [hnone]
      rfl
    | false =>
      have hki : sameKey rt id i = false := by
        by_contra h
        rw [sameKey_symm (Bool.not_eq_false _ ▸ h)] at hk
        exact nomatch hk
      rw [List.any_cons, hki, Bool.false_or] at hany
      rw [ih hd hany]
      rfl

/-- the ids of the messages are those that all maps lose -/
theorem kept_of_loses {r : Reply × Proxy} (h : Loses rt gone p r.2)
    (hin : ∀ i ∈ gone, (IdMap.find rt p.pending i).isSome) (hreturns : r.1 ≠ .raised)
    (hids : List.Forall₂ (fun a b => sameKey rt a b = true) r.1.ids gone)
    (hd : gone.Pairwise fun a b => sameKey rt a b = false) : Kept rt p r := by
  have hr := removed_eq h hin
  refine ⟨hreturns, ?_, ?_, ?_, ?_, ?_, ?_, ?_⟩
  · intro id hid
    rw [hr] at hid
    rw [countP_forall₂ hids]
    exact countP_distinct hd hid
  · intro id hid
    obtain ⟨i, hi, hk⟩ := Sanitize.mem_of_forall₂ hids.flip hid
    rw [hr]
    exact any_sameKey.2 ⟨i, hi, hk⟩
  all_goals simp only [hr]
  · exact h.pendingDeadlines
  · exact h.pendingTools
  · exact h.responseSecrets
  · exact h.controlPayloads
  · exact h.pendingContinuations

end

/-! ## one message -/

section
variable {host : Host} {epoch : Option Nat} {p : Proxy} {message : Fields} {id : Id} {w : Waiting}

theorem clearPending_loses (rt : Runtime) (p : Proxy) (id : Id) : Loses rt [id] p (p.clearPending rt id) := by
  have hone : ∀ i : Id, [id].any (sameKey rt i) = sameKey rt i id := fun i => Bool.or_false _
  refine ⟨?_, ?_, ?_, ?_, ?_, ?_⟩ <;> simp only [hone] <;> rfl

/-- the content of an answer changes only the rates -/
theorem answer_state (host : Host) (now : ℚ) (id : Id) (w : Waiting) (message : Fields) (p : Proxy) :
    ∃ r, (answer host now id w message p).2 = { p with rates := r } := by
  have hissue : ∀ m, ∃ r, issueFor host now id w m p = { p with rates := r } := by
    intro m
    rw [issueFor]
    split
    · split
      · exact ⟨_, rfl⟩
      · exact ⟨p.rates, rfl⟩
    · exact ⟨p.rates, rfl⟩
  rw [answer]
  split
  · exact ⟨p.rates, rfl⟩
  · split
    · exact ⟨p.rates, rfl⟩
    · split
      · exact hissue _
      · exact hissue _

/-- an answer is passed on, with the id that is left -/
theorem answer_message (hb : Brackets host.py) (now : ℚ) (id : Id)
    (h : asksForInput message = true ∨
      ∃ cleaned, clean host w (secretsFor p w.secrets) message = some cleaned ∧
        (w.method = text "tools/list" → Listable cleaned)) :
    ∃ v, (answer host now id w message p).1 = .message v ∧ idOf v = idLeft host p id w message := by
  rw [answer, idLeft]
  split
  · exact ⟨_, rfl, rfl⟩
  · next hinput =>
    obtain ⟨cleaned, hc, hlist⟩ := h.resolve_left hinput
    rw [secretsFor] at hc
    obtain ⟨shown, hf⟩ := Option.isSome_iff_exists.1 (finish_isSome.2 hlist)
    rw [hc]
    dsimp only
    rw [hf]
    exact ⟨_, rfl, (finish_id hf).trans (clean_id hb hc)⟩

/-- and only then -/
theorem answer_raised {now : ℚ} (h : (answer host now id w message p).1 ≠ .raised) :
    asksForInput message = true ∨
      ∃ cleaned, clean host w (secretsFor p w.secrets) message = some cleaned ∧
        (w.method = text "tools/list" → Listable cleaned) := by
  rw [answer] at h
  split at h
  · next hinput => exact .inl hinput
  · split at h
    · exact absurd rfl h
    · next cleaned hc =>
      have hsome : (finish host w cleaned).isSome := by
        split at h
        · exact absurd rfl h
        · next shown hf =>
          rw [hf]
          rfl
      exact .inr ⟨cleaned, hc, finish_isSome.1 hsome⟩

/-- a valid message has a method, or it is an answer with an id -/
theorem valid_cases (h : (serverMessage (.obj message)).isSome) :
    (field message "method").isSome ∧ isAnswer message = false ∨
      isAnswer message = true ∧ field message "id" = some (idIn message) := by
  rw [serverMessage] at h
  split at h
  · exact nomatch h
  · cases hm : field message "method" with
    | some method =>
      refine .inl ⟨rfl, ?_⟩
      rw [isAnswer, hm]
      rfl
    | none =>
      refine .inr ?_
      rw [hm] at h
      rw [isAnswer, idIn, hm]
      dsimp only at h
      split at h
      · next hid hresult _ =>
        rw [hid, hresult]
        exact ⟨rfl, rfl⟩
      · next hid _ herror =>
        rw [hid, herror]
        exact ⟨Bool.or_true _, rfl⟩
      · exact nomatch h

theorem not_method (h : isAnswer message = true) : (field message "method").isSome = false := by
  rw [isAnswer, Bool.and_eq_true] at h
  simpa using h.1

theorem transform_paired (now : ℚ) (hacc : p.accepting epoch = true)
    (h : paired host p message = some (id, w)) :
    idIn message = id ∧ isAnswer message = true ∧
      transform host now epoch message p = answer host now id w message (p.clearPending host.rt id) := by
  rw [paired] at h
  split at h
  · next hcond =>
    obtain ⟨hans, hint⟩ := hcond
    obtain ⟨w', hw, he⟩ := Option.map_eq_some_iff.1 h
    obtain ⟨rfl, rfl⟩ := Prod.mk.inj he
    refine ⟨rfl, hans, ?_⟩
    have hhash : hashable (idIn message) = true := by
      obtain ⟨method, hfind, -⟩ := Option.map_eq_some_iff.1 hw
      obtain ⟨e, -, hk⟩ := find_isSome.1 (hfind ▸ rfl : (IdMap.find host.rt p.pending (idIn message)).isSome)
      exact hashable_of_sameKey hk
    rw [idIn] at hhash hint hw
    rw [transform, if_neg (by rw [not_method hans]; exact fun h => (by cases h.1)), if_neg (by rw [hans]; decide)]
    dsimp only
    rw [if_neg (by rw [hacc]; decide), if_neg (by rw [hhash]; decide), if_neg (by simpa using hint), hw]
    rfl
  · cases h

theorem transform_notification (host : Host) (now : ℚ) (epoch : Option Nat) (p : Proxy)
    (hvalid : (serverMessage (.obj message)).isSome)
    (h : isNotification message = true) :
    paired host p message = none ∧ field message "id" = none ∧
      transform host now epoch message p = (notification host message p, p) := by
  rw [isNotification, Bool.and_eq_true, Option.isNone_iff_eq_none] at h
  obtain ⟨hm, hid⟩ := h
  have hans : isAnswer message = false := by
    rcases valid_cases hvalid with ⟨-, h⟩ | ⟨-, h⟩
    · exact h
    · rw [hid] at h
      cases h
  refine ⟨?_, hid, ?_⟩
  · rw [paired, if_neg (by rw [hans]; exact fun h => (by cases h.1))]
  · rw [transform, if_neg (by rw [hid]; exact fun h => (by cases h.2)), if_pos (by rw [hans]; rfl)]

/-- a request of the server, an answer to the proxy itself, or one that nothing waits for -/
theorem transform_other (now : ℚ) (hvalid : (serverMessage (.obj message)).isSome)
    (hacc : p.accepting epoch = true)
    (hn : isNotification message = false) (h : paired host p message = none) :
    transform host now epoch message p = (.nothing, p) ∧ isAnswer message = false ∨
      isAnswer message = true ∧ (p.internalRequests.any fun i => sameKey host.rt i (idIn message)) = true ∧
        transform host now epoch message p = (.nothing, { p with
          internalRequests := p.internalRequests.filter fun i => !sameKey host.rt i (idIn message) }) ∨
      isAnswer message = true ∧ waiting host p (idIn message) = none ∧
        (p.internalRequests.any fun i => sameKey host.rt i (idIn message)) = false ∧
        transform host now epoch message p = (.nothing, p.closeSession .unpairedResponse epoch) := by
  rcases valid_cases hvalid with ⟨hm, hans⟩ | ⟨hans, hid⟩
  · refine .inl ⟨?_, hans⟩
    have hid : (field message "id").isSome := by
      rw [isNotification, hm, Bool.true_and] at hn
      simpa using hn
    rw [transform, if_pos ⟨hm, hid⟩]
  · refine .inr ?_
    have htransform : transform host now epoch message p =
        if !hashable (idIn message) then (.nothing, p.closeSession .unpairedResponse epoch)
        else if p.internalRequests.any fun i => sameKey host.rt i (idIn message) then
          (.nothing, { p with
            internalRequests := p.internalRequests.filter fun i => !sameKey host.rt i (idIn message) })
        else (waiting host p (idIn message)).elim (.nothing, p.closeSession .unpairedResponse epoch) fun w =>
          answer host now (idIn message) w message (p.clearPending host.rt (idIn message)) := by
      rw [transform, if_neg (by rw [not_method hans]; exact fun h => (by cases h.1)),
        if_neg (by rw [hans]; decide)]
      dsimp only
      rw [if_neg (by rw [hacc]; decide)]
      unfold idIn
      cases waiting host p ((field message "id").getD .null) <;> rfl
    cases hint : p.internalRequests.any fun i => sameKey host.rt i (idIn message) with
    | true =>
      obtain ⟨i, -, hk⟩ := List.any_eq_true.1 hint
      rw [htransform, if_neg (by rw [hashable_of_sameKey hk]; decide), if_pos hint]
      exact .inl ⟨hans, rfl, rfl⟩
    | false =>
      have hwait : waiting host p (idIn message) = none := by
        rw [paired, if_pos ⟨hans, by rw [hint]; rfl⟩] at h
        exact Option.map_eq_none_iff.1 h
      refine .inr ⟨hans, hwait, rfl, ?_⟩
      rw [htransform]
      split
      · rfl
      · rw [if_neg (by rw [hint]; decide), hwait, Option.elim_none]

end

/-! ## batches -/

/-- in a batch, after answers with the ids `seen`, of which `gone` were waited for -/
structure Since (rt : Runtime) (seen gone : List Id) (p p' : Proxy) : Prop extends
    Loses rt gone p p' where
  internal : ∀ id, seen.any (sameKey rt id) = false →
    (p'.internalRequests.any fun i => sameKey rt i id) = p.internalRequests.any fun i => sameKey rt i id
  sessionSecrets : p'.sessionSecrets = p.sessionSecrets
  transportSecrets : p'.transportSecrets = p.transportSecrets
  accepting : ∀ epoch, p'.accepting epoch = p.accepting epoch
  seen : ∀ i ∈ gone, i ∈ seen

theorem Loses.refl (rt : Runtime) (p : Proxy) : Loses rt [] p p := by
  refine ⟨?_, ?_, ?_, ?_, ?_, ?_⟩ <;> exact (List.filter_true _).symm

theorem Loses.trans {rt : Runtime} {gone gone' : List Id} {p q r : Proxy} (h : Loses rt gone p q)
    (h' : Loses rt gone' q r) : Loses rt (gone ++ gone') p r := by
  have hfilter : ∀ {β : Type} (m : IdMap β),
      (m.filter fun e => !gone.any (sameKey rt e.1)).filter (fun e => !gone'.any (sameKey rt e.1)) =
        m.filter fun e => !(gone ++ gone').any (sameKey rt e.1) := by
    intro β m
    rw [List.filter_filter]
    congr 1
    funext e
    rw [List.any_append, Bool.not_or, Bool.and_comm]
  refine ⟨?_, ?_, ?_, ?_, ?_, ?_⟩
  · rw [h'.pending, h.pending, hfilter]
  · rw [h'.pendingDeadlines, h.pendingDeadlines, hfilter]
  · rw [h'.pendingTools, h.pendingTools, hfilter]
  · rw [h'.responseSecrets, h.responseSecrets, hfilter]
  · rw [h'.controlPayloads, h.controlPayloads, hfilter]
  · rw [h'.pendingContinuations, h.pendingContinuations, hfilter]

section
variable {host : Host} {epoch : Option Nat} {seen gone : List Id} {p p' : Proxy} {message : Fields}
  {id : Id} {w : Waiting}

theorem any_false_of_subset (hsub : ∀ i ∈ gone, i ∈ seen) (h : seen.any (sameKey host.rt id) = false) :
    gone.any (sameKey host.rt id) = false := by
  rw [List.any_eq_false] at h ⊢
  exact fun i hi => h i (hsub i hi)

/-- an id that was not seen is paired as before -/
theorem Since.paired (h : Since host.rt seen gone p p') (message : Fields)
    (hnew : isAnswer message = true → seen.any (sameKey host.rt (idIn message)) = false) :
    paired host p' message = paired host p message := by
  cases hans : isAnswer message with
  | false => rw [Relay.paired, Relay.paired, if_neg (by rw [hans]; exact fun h => (nomatch h.1)),
      if_neg (by rw [hans]; exact fun h => (nomatch h.1))]
  | true =>
    have hseen := hnew hans
    have hgone := any_false_of_subset h.seen hseen
    have hwait : waiting host p' (idIn message) = waiting host p (idIn message) := by
      rw [waiting, waiting, h.pending, h.pendingTools, h.responseSecrets, h.controlPayloads,
        h.pendingContinuations, find_filter hgone, find_filter hgone, find_filter hgone,
        find_filter hgone, find_filter hgone]
    rw [Relay.paired, Relay.paired, h.internal _ hseen, hwait]

theorem Since.secretsFor (h : Since host.rt seen gone p p') (secrets : List Text) :
    secretsFor p' secrets = secretsFor p secrets := by
  rw [Relay.secretsFor, Relay.secretsFor, h.sessionSecrets, h.transportSecrets]

theorem Since.start (rt : Runtime) (p : Proxy) : Since rt [] [] p p :=
  ⟨.refl rt p, fun _ _ => rfl, rfl, rfl, fun _ => rfl, fun _ h => nomatch h⟩

/-- an answer to a request that waits -/
theorem Since.answered (h : Since host.rt seen gone p p') (id : Id) (r : Rates) :
    Since host.rt (id :: seen) (gone ++ [id]) p { p'.clearPending host.rt id with rates := r } where
  toLoses :=
    have hl := h.toLoses.trans (clearPending_loses host.rt p' id)
    ⟨hl.pending, hl.pendingDeadlines, hl.pendingTools, hl.responseSecrets, hl.controlPayloads,
      hl.pendingContinuations⟩
  internal := by
    intro i hi
    rw [List.any_cons, Bool.or_eq_false_iff] at hi
    exact h.internal i hi.2
  sessionSecrets := h.sessionSecrets
  transportSecrets := h.transportSecrets
  accepting := h.accepting
  seen := by
    intro i hi
    rcases List.mem_append.1 hi with hi | hi
    · exact List.mem_cons_of_mem _ (h.seen i hi)
    · rw [List.mem_singleton.1 hi]
      exact List.mem_cons_self ..

/-- an answer to a request of the proxy -/
theorem Since.internalAnswered (h : Since host.rt seen gone p p') (id : Id) :
    Since host.rt (id :: seen) gone p
      { p' with internalRequests := p'.internalRequests.filter fun i => !sameKey host.rt i id } where
  toLoses := ⟨h.pending, h.pendingDeadlines, h.pendingTools, h.responseSecrets, h.controlPayloads,
    h.pendingContinuations⟩
  internal := by
    intro i hi
    rw [List.any_cons, Bool.or_eq_false_iff] at hi
    rw [← h.internal i hi.2, List.any_filter]
    congr 1
    funext j
    cases hj : sameKey host.rt j i with
    | false => exact Bool.and_false _
    | true =>
      have hji : sameKey host.rt j id = false := by
        by_contra hk
        rw [sameKey_trans (sameKey_symm hj) (Bool.not_eq_false _ ▸ hk)] at hi
        exact nomatch hi.1
      rw [hji]
      rfl
  sessionSecrets := h.sessionSecrets
  transportSecrets := h.transportSecrets
  accepting := h.accepting
  seen := fun i hi => List.mem_cons_of_mem _ (h.seen i hi)

/-- the answers that were seen, with this message -/
def seenAfter (seen : List Id) (message : Fields) : List Id :=
  if isAnswer message then idIn message :: seen else seen

/-- what a message leads to, in terms of the state before the batch -/
inductive Treated (host : Host) (seen gone : List Id) (p : Proxy) (message : Fields) : Sent × Proxy → Prop
  | answered (id : Id) (w : Waiting) (hp : paired host p message = some (id, w)) (v : Value) (p'' : Proxy)
      (hv : idOf v = idLeft host p id w message)
      (hr : Returns host p message)
      (hs : Since host.rt (seenAfter seen message) (gone ++ [id]) p p'') :
      Treated host seen gone p message (.message v, p'')
  | passed (hp : paired host p message = none) (v : Value) (p'' : Proxy) (hv : idOf v = none) (hr : Returns host p message)
      (hs : Since host.rt (seenAfter seen message) gone p p'') :
      Treated host seen gone p message (.message v, p'')
  | silent (hp : paired host p message = none) (p'' : Proxy) (hr : Returns host p message)
      (hs : Since host.rt (seenAfter seen message) gone p p'') :
      Treated host seen gone p message (.nothing, p'')
  | raised (p'' : Proxy) (hr : ¬Returns host p message) : Treated host seen gone p message (.raised, p'')

theorem paired_cases (h : paired host p message = some (id, w)) :
    isAnswer message = true ∧ idIn message = id ∧ waiting host p id = some w := by
  rw [Relay.paired] at h
  split at h
  · next hcond =>
    obtain ⟨w', hw, he⟩ := Option.map_eq_some_iff.1 h
    obtain ⟨rfl, rfl⟩ := Prod.mk.inj he
    exact ⟨hcond.1, rfl, hw⟩
  · exact nomatch h

theorem paired_pending (h : paired host p message = some (id, w)) :
    (IdMap.find host.rt p.pending id).isSome := by
  obtain ⟨method, hm, -⟩ := Option.map_eq_some_iff.1 (paired_cases h).2.2
  rw [hm]
  rfl

theorem paired_self (h : paired host p message = some (id, w)) : sameKey host.rt id id = true := by
  obtain ⟨e, -, hk⟩ := find_isSome.1 (paired_pending h)
  exact sameKey_trans (sameKey_symm hk) hk

/-- the id that is left is the id of the request -/
theorem stays_iff (hvalid : (serverMessage (.obj message)).isSome)
    (hp : paired host p message = some (id, w)) :
    Stays host p message ↔ ∃ i, idLeft host p id w message = some i ∧ sameKey host.rt i id = true := by
  obtain ⟨hans, hin, -⟩ := paired_cases hp
  have hfield : field message "id" = some id := by
    rcases valid_cases hvalid with ⟨-, hnot⟩ | ⟨-, hfield⟩
    · rw [hans] at hnot
      exact nomatch hnot
    · rw [hfield, hin]
  have hone : Stays host p message ↔ if asksForInput message then validId id = true
      else ((sanitizeObject host.py (host.depth - 1) id (secretsFor p w.secrets)).any
        fun v => sameKey host.rt v id) = true := by
    refine ⟨fun h => h id w hp, fun h id' w' hp' => ?_⟩
    rw [hp] at hp'
    cases hp'
    exact h
  rw [hone, idLeft]
  split
  · constructor
    · intro hid
      refine ⟨_, rfl, ?_⟩
      have hsame : inputRequestId id = id := by
        cases id with
        | null => rfl
        | str s => rfl
        | int n => rfl
        | _ => exact nomatch hid
      rw [hsame]
      exact paired_self hp
    · rintro ⟨i, hi, hk⟩
      cases hi
      cases id with
      | null => rfl
      | str s => rfl
      | int n => rfl
      | _ => exact nomatch sameKey_null hk
  · rw [hfield, Option.bind_some]
    cases sanitizeObject host.py (host.depth - 1) id (secretsFor p w.secrets) with
    | none => exact ⟨fun h => (nomatch h), fun ⟨_, h, _⟩ => (nomatch h)⟩
    | some v =>
      exact ⟨fun h => ⟨v, rfl, h⟩, fun ⟨i, hi, hk⟩ => Option.some.inj hi ▸ hk⟩

theorem transform_treated (hb : Brackets host.py) (now : ℚ) (hs : Since host.rt seen gone p p')
    (hacc : p.accepting epoch = true) (hvalid : (serverMessage (.obj message)).isSome)
    (hnew : isAnswer message = true → seen.any (sameKey host.rt (idIn message)) = false ∧
      ((IdMap.find host.rt p.pending (idIn message)).isSome ∨
        (p.internalRequests.any fun i => sameKey host.rt i (idIn message)) = true)) :
    Treated host seen gone p message (transform host now epoch message p') := by
  have hpaired := hs.paired message fun h => (hnew h).1
  have hacc' : p'.accepting epoch = true := by rw [hs.accepting, hacc]
  cases hp : paired host p message with
  | some x =>
    obtain ⟨id, w⟩ := x
    rw [hp] at hpaired
    obtain ⟨hin, hans, ht⟩ := transform_paired now hacc' hpaired
    have hsecrets : secretsFor (p'.clearPending host.rt id) w.secrets = secretsFor p w.secrets :=
      hs.secretsFor w.secrets
    obtain ⟨r, hstate⟩ := answer_state host now id w message (p'.clearPending host.rt id)
    rw [ht]
    by_cases hr : Returns host p message
    · have hr' := hr
      rw [Returns, hp] at hr'
      dsimp only at hr'
      rw [← hsecrets] at hr'
      obtain ⟨v, hv, hid⟩ := answer_message hb now id hr'
      rw [← Prod.mk.eta (p := answer host now id w message (p'.clearPending host.rt id)), hv, hstate]
      refine .answered id w hp v _ ?_ hr ?_
      · rw [hid, idLeft, idLeft, hsecrets]
      · rw [seenAfter, if_pos hans, hin]
        exact hs.answered id r
    · have hraised : (answer host now id w message (p'.clearPending host.rt id)).1 = .raised := by
        by_contra hne
        have hret := answer_raised hne
        rw [hsecrets] at hret
        refine hr ?_
        rw [Returns, hp]
        exact hret
      rw [← Prod.mk.eta (p := answer host now id w message (p'.clearPending host.rt id)), hraised]
      exact .raised _ hr
  | none =>
    rw [hp] at hpaired
    cases hnot : isNotification message with
    | true =>
      obtain ⟨-, hnoid, ht⟩ := transform_notification host now epoch p' hvalid hnot
      have hans : isAnswer message = false := by
        rcases valid_cases hvalid with ⟨-, h⟩ | ⟨-, h⟩
        · exact h
        · rw [hnoid] at h
          exact nomatch h
      have hsecrets : p'.sessionSecrets ++ p'.transportSecrets = secretsFor p [] := hs.secretsFor []
      rw [ht, notification, hsecrets]
      cases hc : clean host ⟨[], none, [], none, none⟩ (secretsFor p []) message with
      | none =>
        refine .raised _ fun hr => ?_
        rw [Returns, hp] at hr
        dsimp only at hr
        rw [hc] at hr
        exact nomatch hr hnot
      | some cleaned =>
        refine .passed hp _ _ ?_ ?_ ?_
        · show field cleaned "id" = none
          rw [clean_id hb hc, hnoid]
          rfl
        · rw [Returns, hp]
          dsimp only
          rw [hc]
          exact fun _ => rfl
        · rw [seenAfter, if_neg (by rw [hans]; decide)]
          exact hs
    | false =>
      have hr : Returns host p message := by
        rw [Returns, hp, hnot]
        exact fun h => nomatch h
      rcases transform_other now hvalid hacc' hnot hpaired with ⟨ht, hans⟩ | ⟨hans, hint, ht⟩ |
        ⟨hans, hwait, hint, ht⟩
      · rw [ht]
        refine .silent hp _ hr ?_
        rw [seenAfter, if_neg (by rw [hans]; decide)]
        exact hs
      · rw [ht]
        refine .silent hp _ hr ?_
        rw [seenAfter, if_pos hans]
        exact hs.internalAnswered _
      · exfalso
        obtain ⟨hseen, hknown⟩ := hnew hans
        rw [hs.internal _ hseen] at hint
        have hfind : IdMap.find host.rt p.pending (idIn message) = none := by
          rw [paired, if_pos ⟨hans, by rw [hint]; rfl⟩] at hp
          exact Option.map_eq_none_iff.1 (Option.map_eq_none_iff.1 hp)
        rcases hknown with h | h
        · rw [hfind] at h
          exact nomatch h
        · rw [hint] at h
          exact nomatch h

/-- the answers of a batch that is not refused are waited for, and differ -/
theorem batchPairable_cons {rest : List Fields} (h : batchPairable host p seen (message :: rest) = true) :
    (isAnswer message = true → seen.any (sameKey host.rt (idIn message)) = false ∧
      ((IdMap.find host.rt p.pending (idIn message)).isSome ∨
        (p.internalRequests.any fun i => sameKey host.rt i (idIn message)) = true)) ∧
      batchPairable host p (seenAfter seen message) rest = true := by
  rw [batchPairable] at h
  cases hans : isAnswer message with
  | false =>
    rw [if_pos (by rw [hans]; rfl)] at h
    rw [seenAfter, if_neg (by rw [hans]; decide)]
    exact ⟨fun h => (nomatch h), h⟩
  | true =>
    rw [if_neg (by rw [hans]; decide)] at h
    simp only [Bool.and_eq_true, Bool.or_eq_true, Bool.not_eq_true'] at h
    obtain ⟨⟨⟨-, hknown⟩, hnew⟩, hrest⟩ := h
    rw [seenAfter, if_pos hans]
    refine ⟨fun _ => ⟨?_, hknown⟩, hrest⟩
    rw [List.any_eq_false] at hnew ⊢
    exact fun i hi hk => hnew i hi (sameKey_symm hk)

/-- a batch in which nothing is lost -/
theorem transformAll_safe (hb : Brackets host.py) (hacc : p.accepting epoch = true) :
    ∀ (messages : List Fields) (seen gone : List Id) (now : Nat → ℚ) (p' : Proxy),
      (∀ m ∈ messages, (serverMessage (.obj m)).isSome) → batchPairable host p seen messages = true →
      Since host.rt seen gone p p' → (∀ m ∈ messages, Returns host p m ∧ Stays host p m) →
      ∃ vs p'' added, transformAll host epoch now messages p' = (some vs, p'') ∧
        Loses host.rt (gone ++ added) p p'' ∧
        List.Forall₂ (fun a b => sameKey host.rt a b = true) (vs.filterMap idOf) added ∧
        (∀ i ∈ added, (IdMap.find host.rt p.pending i).isSome ∧ seen.any (sameKey host.rt i) = false) ∧
        added.Pairwise fun a b => sameKey host.rt a b = false := by
  intro messages
  induction messages with
  | nil =>
    intro seen gone now p' _ _ hs _
    refine ⟨[], p', [], rfl, ?_, .nil, fun i hi => (by cases hi), .nil⟩
    rw [List.append_nil]
    exact hs.toLoses
  | cons message rest ih =>
    intro seen gone now p' hvalid hpair hs hsafe
    obtain ⟨hnew, hrest⟩ := batchPairable_cons hpair
    have htreated := transform_treated hb (now 0) hs hacc (hvalid message (List.mem_cons_self ..)) hnew
    obtain ⟨hreturns, hstays⟩ := hsafe message (List.mem_cons_self ..)
    have hvalid' : ∀ m ∈ rest, (serverMessage (.obj m)).isSome :=
      fun m hm => hvalid m (List.mem_cons_of_mem _ hm)
    have hsafe' : ∀ m ∈ rest, Returns host p m ∧ Stays host p m :=
      fun m hm => hsafe m (List.mem_cons_of_mem _ hm)
    rw [transformAll]
    generalize transform host (now 0) epoch message p' = r at htreated
    -- what was not seen after this message was not seen before it
    have hfewer : ∀ i, (seenAfter seen message).any (sameKey host.rt i) = false →
        seen.any (sameKey host.rt i) = false := by
      intro i hi
      rw [seenAfter] at hi
      split at hi
      · rw [List.any_cons, Bool.or_eq_false_iff] at hi
        exact hi.2
      · exact hi
    cases htreated with
    | answered id w hp v q hv _ hs' =>
      obtain ⟨vs, p'', added, hall, hloses, hids, hin, hd⟩ := ih _ _ _ q hvalid' hrest hs' hsafe'
      obtain ⟨i, hi, hk⟩ := (stays_iff (hvalid message (List.mem_cons_self ..)) hp).1 hstays
      rw [← hv] at hi
      obtain ⟨hans, hidIn, -⟩ := paired_cases hp
      refine ⟨v :: vs, p'', id :: added, ?_, ?_, ?_, ?_, ?_⟩
      · dsimp only
        rw [hall]
        rfl
      · rwa [List.append_assoc] at hloses
      · rw [List.filterMap_cons, hi]
        exact .cons hk hids
      · intro j hj
        rcases List.mem_cons.1 hj with rfl | hj
        · exact ⟨paired_pending hp, hidIn ▸ (hnew hans).1⟩
        · exact ⟨(hin j hj).1, hfewer j (hin j hj).2⟩
      · refine List.pairwise_cons.2 ⟨fun j hj => ?_, hd⟩
        have hnot := (hin j hj).2
        rw [seenAfter, if_pos hans, List.any_cons, Bool.or_eq_false_iff, hidIn] at hnot
        by_contra hsame
        rw [sameKey_symm (Bool.not_eq_false _ ▸ hsame)] at hnot
        cases hnot.1
    | passed _ v q hv _ hs' =>
      obtain ⟨vs, p'', added, hall, hloses, hids, hin, hd⟩ := ih _ _ _ q hvalid' hrest hs' hsafe'
      refine ⟨v :: vs, p'', added, ?_, hloses, ?_, fun i hi => ⟨(hin i hi).1, hfewer i (hin i hi).2⟩, hd⟩
      · dsimp only
        rw [hall]
        rfl
      · rw [List.filterMap_cons, hv]
        exact hids
    | silent _ q _ hs' =>
      obtain ⟨vs, p'', added, hall, hloses, hids, hin, hd⟩ := ih _ _ _ q hvalid' hrest hs' hsafe'
      exact ⟨vs, p'', added, hall, hloses, hids, fun i hi => ⟨(hin i hi).1, hfewer i (hin i hi).2⟩, hd⟩
    | raised q hr => exact absurd hreturns hr

/-- a batch that does not raise -/
theorem transformAll_returns (hb : Brackets host.py) (hacc : p.accepting epoch = true) :
    ∀ (messages : List Fields) (seen gone : List Id) (now : Nat → ℚ) (p' : Proxy),
      (∀ m ∈ messages, (serverMessage (.obj m)).isSome) → batchPairable host p seen messages = true →
      Since host.rt seen gone p p' → (transformAll host epoch now messages p').1.isSome →
      ∀ m ∈ messages, Returns host p m := by
  intro messages
  induction messages with
  | nil => exact fun _ _ _ _ _ _ _ _ m hm => by cases hm
  | cons message rest ih =>
    intro seen gone now p' hvalid hpair hs hsome
    obtain ⟨hnew, hrest⟩ := batchPairable_cons hpair
    have htreated := transform_treated hb (now 0) hs hacc (hvalid message (List.mem_cons_self ..)) hnew
    have hvalid' : ∀ m ∈ rest, (serverMessage (.obj m)).isSome :=
      fun m hm => hvalid m (List.mem_cons_of_mem _ hm)
    have hall : Returns host p message → (∀ m ∈ rest, Returns host p m) →
        ∀ m ∈ message :: rest, Returns host p m := by
      intro h hr m hm
      rcases List.mem_cons.1 hm with rfl | hm
      · exact h
      · exact hr m hm
    rw [transformAll] at hsome
    generalize transform host (now 0) epoch message p' = r at htreated hsome
    cases htreated with
    | answered id w hp v q hv hr hs' =>
      rw [Option.isSome_map] at hsome
      exact hall hr (ih _ _ _ q hvalid' hrest hs' hsome)
    | passed _ v q hv hr hs' =>
      rw [Option.isSome_map] at hsome
      exact hall hr (ih _ _ _ q hvalid' hrest hs' hsome)
    | silent _ q hr hs' => exact hall hr (ih _ _ _ q hvalid' hrest hs' hsome)
    | raised q hr => cases hsome

/-! ## a frame -/

theorem closeSession_loses (rt : Runtime) (p : Proxy) (reason : Helper.Reason) (epoch : Option Nat) :
    Loses rt [] p (p.closeSession reason epoch) := by
  have h := Loses.refl rt p
  rw [Proxy.closeSession]
  split
  · exact ⟨h.pending, h.pendingDeadlines, h.pendingTools, h.responseSecrets, h.controlPayloads,
      h.pendingContinuations⟩
  · exact h

/-- a frame that leads to nothing -/
theorem kept_nothing {rt : Runtime} {q : Proxy} (h : Loses rt [] p q) : Kept rt p (.nothing, q) :=
  kept_of_loses h (fun i hi => nomatch hi) (by simp) .nil .nil

/-- a single message -/
def single : Sent × Proxy → Reply × Proxy
  | (.raised, p) => (.raised, p)
  | (.nothing, p) => (.nothing, p)
  | (.message v, p) => (.message v, p)

/-- what a treated message leads to on its own -/
theorem kept_single {r : Sent × Proxy} (hvalid : (serverMessage (.obj message)).isSome)
    (h : Treated host [] [] p message r) :
    Kept host.rt p (single r) ↔ Returns host p message ∧ Stays host p message := by
  have hnostay : paired host p message = none → Stays host p message := by
    intro hp id w hp'
    rw [hp] at hp'
    exact nomatch hp'
  cases h with
  | answered id w hp v q hv hr hs =>
    have hgone : ∀ i ∈ [id], (IdMap.find host.rt p.pending i).isSome := by
      intro i hi
      rw [List.mem_singleton.1 hi]
      exact paired_pending hp
    rw [stays_iff hvalid hp, ← hv]
    constructor
    · intro hk
      have hremoved : removed host.rt p q id = true := by
        rw [removed_eq hs.toLoses hgone, List.nil_append, List.any_cons, paired_self hp]
        rfl
      have hcount := hk.once id hremoved
      refine ⟨hr, ?_⟩
      have hids : (Reply.message v).ids = (idOf v).toList := rfl
      rw [single, hids] at hcount
      cases hi : idOf v with
      | none =>
        rw [hi] at hcount
        exact nomatch hcount
      | some i =>
        rw [hi] at hcount
        refine ⟨i, rfl, ?_⟩
        by_contra hne
        rw [Option.toList_some, List.countP_singleton, if_neg hne] at hcount
        exact nomatch hcount
    · rintro ⟨-, i, hi, hk⟩
      refine kept_of_loses hs.toLoses hgone (by simp [single]) ?_ (List.pairwise_singleton _ _)
      show List.Forall₂ _ (idOf v).toList _
      rw [hi]
      exact .cons hk .nil
  | passed hp v q hv hr hs =>
    refine ⟨fun _ => ⟨hr, hnostay hp⟩, fun _ => ?_⟩
    refine kept_of_loses hs.toLoses (fun i hi => nomatch hi) (by simp [single]) ?_ .nil
    show List.Forall₂ _ (idOf v).toList _
    rw [hv]
    exact .nil
  | silent hp q hr hs => exact ⟨fun _ => ⟨hr, hnostay hp⟩, fun _ => kept_nothing hs.toLoses⟩
  | raised q hr => exact ⟨fun hk => absurd rfl hk.returns, fun h => absurd h.1 hr⟩

/-- the messages of a batch -/
def batched : Option (List Value) × Proxy → Reply × Proxy
  | (none, p) => (.raised, p)
  | (some [], p) => (.nothing, p)
  | (some (v :: vs), p) => (.batch (v :: vs), p)

/-- what `response` makes of the treated messages of a batch -/
def collected : Option (List Value) × Proxy → Reply × Proxy
  | (none, p) => (.raised, p)
  | (some [], p) => (.nothing, p)
  | (some vs, p) => (.batch vs, p)

/-- a frame is refused, or its messages are treated together or alone -/
theorem response_cases (host : Host) (now : Nat → ℚ) (epoch : Option Nat) (raw : Bytes) (p : Proxy) :
    (messagesIn host epoch raw p = [] ∧
      ∃ q, response host now epoch raw p = (.nothing, q) ∧ Loses host.rt [] p q) ∨
    (∃ messages, messagesIn host epoch raw p = messages ∧ p.accepting epoch = true ∧
      (∀ m ∈ messages, (serverMessage (.obj m)).isSome) ∧ batchPairable host p [] messages = true ∧
      response host now epoch raw p = batched (transformAll host epoch now messages p)) ∨
    ∃ message, messagesIn host epoch raw p = [message] ∧ p.accepting epoch = true ∧
      (serverMessage (.obj message)).isSome ∧
      response host now epoch raw p = single (transform host (now 0) epoch message p) := by
  have hvalid : ∀ {v : Value} {m : Fields}, validMessage v = some m → (serverMessage (.obj m)).isSome := by
    intro v m h
    cases v with
    | obj fields =>
      obtain ⟨s, hs, rfl⟩ := Option.map_eq_some_iff.1 h
      rw [hs]
      rfl
    | _ => cases h
  have hrefused : ∀ reason, ∃ q, (Reply.nothing, p.closeSession reason epoch) = (Reply.nothing, q) ∧
      Loses host.rt [] p q := fun reason => ⟨_, rfl, closeSession_loses ..⟩
  by_cases hout : !p.accepting epoch ∨ maxServerFrameBytes < raw.length ∨ raw.all isSpace
  · refine .inl ⟨if_pos hout, ?_⟩
    rw [response]
    split
    · exact ⟨p, rfl, .refl ..⟩
    · split
      · exact hrefused _
      · next hacc hlong =>
        rw [if_pos ((hout.resolve_left hacc).resolve_left hlong)]
        exact ⟨p, rfl, .refl ..⟩
  · rw [messagesIn, if_neg hout]
    obtain ⟨hacc, hlong, hblank⟩ : ¬(!p.accepting epoch) = true ∧ ¬maxServerFrameBytes < raw.length ∧
        ¬raw.all isSpace = true := by
      simpa only [not_or] using hout
    have hacc' : p.accepting epoch = true := by
      rwa [Bool.not_eq_true', Bool.not_eq_false] at hacc
    rw [response, if_neg hacc, if_neg hlong, if_neg hblank]
    have hsingle : ∀ r : Sent × Proxy, (match r with
        | (.raised, p) => (Reply.raised, p)
        | (.nothing, p) => (.nothing, p)
        | (.message v, p) => (.message v, p)) = single r := by
      rintro ⟨_ | _ | v, q⟩ <;> rfl
    have hbatched : ∀ r : Option (List Value) × Proxy, collected r = batched r := by
      rintro ⟨_ | ⟨_ | ⟨v, vs⟩⟩, q⟩ <;> rfl
    cases host.rt.serverDocument raw with
    | none => exact .inl ⟨rfl, hrefused _⟩
    | some v =>
      cases v with
      | arr items =>
        dsimp only
        cases hm : items.mapM validMessage with
        | none => exact .inl ⟨rfl, hrefused _⟩
        | some messages =>
          cases messages with
          | nil => exact .inl ⟨rfl, hrefused _⟩
          | cons m ms =>
            dsimp only
            cases hpair : batchPairable host p [] (m :: ms) with
            | false =>
              rw [if_neg (by decide), if_pos (by decide)]
              exact .inl ⟨rfl, hrefused _⟩
            | true =>
              rw [if_pos rfl, if_neg (by decide)]
              refine .inr (.inl ⟨m :: ms, rfl, hacc', fun x hx => ?_, hpair, hbatched _⟩)
              obtain ⟨v, -, hv⟩ := Sanitize.mem_of_forall₂ (Redaction.mapM_option hm) hx
              exact hvalid hv
      | _ =>
        dsimp only
        split
        · next hm =>
          rw [hm]
          exact .inl ⟨rfl, hrefused _⟩
        · next message hm =>
          rw [hm]
          exact .inr (.inr ⟨message, rfl, hacc', hvalid hm, hsingle _⟩)

theorem kept_congr {rt : Runtime} {r r' : Reply × Proxy} (hraised : r.1 = .raised ↔ r'.1 = .raised)
    (hids : r.1.ids = r'.1.ids) (hstate : r.2 = r'.2) (h : Kept rt p r) : Kept rt p r' := by
  obtain ⟨h1, h2, h3, h4, h5, h6, h7, h8⟩ := h
  rw [hids, hstate] at h2
  rw [hids, hstate] at h3
  rw [hstate] at h4 h5 h6 h7 h8
  exact ⟨fun h => h1 (hraised.2 h), h2, h3, h4, h5, h6, h7, h8⟩

/-- a batch of one message is like the message -/
theorem kept_batch_one {now : Nat → ℚ} (h : Kept host.rt p (batched (transformAll host epoch now [message] p))) :
    Kept host.rt p (single (transform host (now 0) epoch message p)) := by
  rw [transformAll] at h
  generalize transform host (now 0) epoch message p = r at h
  obtain ⟨_ | _ | v, q⟩ := r
  · exact h
  · exact h
  · refine kept_congr ?_ ?_ ?_ h
    · exact ⟨fun h => (by cases h), fun h => (by cases h)⟩
    · show [v].filterMap idOf = (idOf v).toList
      rw [List.filterMap_cons]
      cases idOf v <;> rfl
    · rfl

/-- a single message is treated, unless nothing waits for it -/
theorem transform_single (hb : Brackets host.py) (now : ℚ) (hacc : p.accepting epoch = true)
    (hvalid : (serverMessage (.obj message)).isSome) :
    Treated host [] [] p message (transform host now epoch message p) ∨
      transform host now epoch message p = (.nothing, p.closeSession .unpairedResponse epoch) ∧
        Returns host p message ∧ Stays host p message := by
  by_cases hknown : isAnswer message = true → (IdMap.find host.rt p.pending (idIn message)).isSome ∨
      (p.internalRequests.any fun i => sameKey host.rt i (idIn message)) = true
  · exact .inl (transform_treated hb now (Since.start host.rt p) hacc hvalid
      fun h => ⟨rfl, hknown h⟩)
  · obtain ⟨hans, hnot⟩ := not_forall.1 hknown
    obtain ⟨hfind, hint⟩ := not_or.1 hnot
    have hp : paired host p message = none := by
      rw [paired, waiting, Option.not_isSome_iff_eq_none.1 hfind]
      split <;> rfl
    have hn : isNotification message = false := by
      rw [isNotification, not_method hans]
      rfl
    refine .inr ⟨?_, ?_, ?_⟩
    · rcases transform_other now hvalid hacc hn hp with ⟨-, h⟩ | ⟨-, h, -⟩ | ⟨-, -, -, h⟩
      · rw [hans] at h
        exact nomatch h
      · exact absurd h hint
      · exact h
    · rw [Returns, hp, hn]
      exact fun h => nomatch h
    · intro id w hp'
      rw [hp] at hp'
      exact nomatch hp'

theorem kept_transform (hb : Brackets host.py) (now : ℚ) (hacc : p.accepting epoch = true)
    (hvalid : (serverMessage (.obj message)).isSome) :
    Kept host.rt p (single (transform host now epoch message p)) ↔
      Returns host p message ∧ Stays host p message := by
  rcases transform_single hb now hacc hvalid with h | ⟨h, hsafe⟩
  · exact kept_single hvalid h
  · rw [h]
    exact ⟨fun _ => hsafe, fun _ => kept_nothing (closeSession_loses ..)⟩

/-- A frame loses no request when no step after the pairing raises and the ids stay as they are; when
one raises it does, and in a frame with one message also when the id changes. -/
theorem response_keeps (host : Host) (hb : Brackets host.py) (now : Nat → ℚ) (epoch : Option Nat)
    (raw : Bytes) (p : Proxy) :
    (Safe host epoch raw p → Kept host.rt p (response host now epoch raw p)) ∧
      (Kept host.rt p (response host now epoch raw p) →
        ∀ message ∈ messagesIn host epoch raw p, Returns host p message) ∧
      ((messagesIn host epoch raw p).length ≤ 1 →
        Kept host.rt p (response host now epoch raw p) → Safe host epoch raw p) := by
  rw [Safe]
  rcases response_cases host now epoch raw p with ⟨hm, q, hr, hl⟩ | ⟨messages, hm, hacc, hvalid, hpair, hr⟩ |
    ⟨message, hm, hacc, hvalid, hr⟩
  · rw [hm, hr]
    exact ⟨fun _ => kept_nothing hl, fun _ m h => (nomatch h), fun _ _ m h => (nomatch h)⟩
  · rw [hm, hr]
    refine ⟨fun hsafe => ?_, fun hk => ?_, fun hone hk => ?_⟩
    · obtain ⟨vs, q, added, hall, hl, hids, hin, hd⟩ :=
        transformAll_safe hb hacc messages [] [] now p hvalid hpair (.start ..) hsafe
      rw [hall]
      cases vs with
      | nil => exact kept_of_loses hl (fun i hi => (hin i hi).1) (by simp [batched]) hids hd
      | cons v vs => exact kept_of_loses hl (fun i hi => (hin i hi).1) (by simp [batched]) hids hd
    · refine transformAll_returns hb hacc messages [] [] now p hvalid hpair (.start ..) ?_
      generalize transformAll host epoch now messages p = r at hk
      obtain ⟨_ | vs, q⟩ := r
      · exact absurd rfl hk.returns
      · rfl
    · match messages, hvalid, hone, hk with
      | [], _, _, _ => exact fun m h => nomatch h
      | [message], hvalid, _, hk =>
        intro m h
        rw [List.mem_singleton.1 h]
        exact (kept_transform hb (now 0) hacc (hvalid message (List.mem_cons_self ..))).1 (kept_batch_one hk)
  · rw [hm, hr]
    have hiff := kept_transform hb (now 0) hacc hvalid
    refine ⟨fun hsafe => hiff.2 (hsafe message (List.mem_cons_self ..)), fun hk m h => ?_, fun _ hk m h => ?_⟩
    · rw [List.mem_singleton.1 h]
      exact (hiff.1 hk).1
    · rw [List.mem_singleton.1 h]
      exact hiff.1 hk

end

section

/-- the answer to request 1 -/
def frameWith (result : Fields) : Value :=
  .obj [(text "jsonrpc", str "2.0"), (text "id", .int 1), (text "result", .obj result)]

/-- a tool whose name is a list -/
def nestedName : Value := frameWith [(text "tools", .arr [.obj [(text "name", .arr [])]])]

def frameHost : Host where
  rt := ⟨fun _ => none, fun _ => none, messageOf [frameWith [], nestedName]⟩
  py := Sanitize.plainPython
  depth := 99
  textDocument s := Json.loads 100 (s.map Char.ofNat)
  dumps v := (Json.dumps v).map Char.toNat
  str _ := []
  isPrintable n := 32 ≤ n && n < 127
  plain_numbers _ _ h := nomatch h

theorem frameHost_brackets : Brackets frameHost.py := by
  intro v hv he
  cases v with
  | arr vs => exact nomatch (List.cons.inj he).1
  | obj fs => exact nomatch (List.cons.inj he).1
  | _ => exact nomatch hv

/-- request 1 waits for its answer -/
def waitingFor (method : String) : Proxy := { Proxy.start with pending := [(.int 1, text method)] }

theorem response_keeps_answer :
    Kept frameHost.rt (waitingFor "ping")
      (response frameHost (fun _ => 0) none (bytesOf (frameWith [])) (waitingFor "ping")) := by
  refine (response_keeps frameHost frameHost_brackets _ none _ _).1 fun message hm => ?_
  have hmessages : messagesIn frameHost none (bytesOf (frameWith [])) (waitingFor "ping")
      = [[(text "jsonrpc", str "2.0"), (text "id", .int 1), (text "result", .obj [])]] := by
    decide +kernel
  rw [hmessages, List.mem_singleton] at hm
  subst hm
  have hclean : (clean frameHost ⟨text "ping", none, [], none, none⟩ []
      [(text "jsonrpc", str "2.0"), (text "id", .int 1), (text "result", .obj [])]).isSome := by
    decide +kernel
  constructor
  · obtain ⟨cleaned, hc⟩ := Option.isSome_iff_exists.1 hclean
    exact .inr ⟨cleaned, hc, fun h => absurd h (by decide)⟩
  · intro id w hp
    cases hp
    decide +kernel

/-- a name that is a list cannot be looked up, and the answer is lost -/
theorem nested_name_is_lost :
    ¬ ∀ (host : Host) (now : Nat → ℚ) (epoch : Option Nat) (raw : Bytes) (p : Proxy),
      Brackets host.py → Kept host.rt p (response host now epoch raw p) := by
  intro h
  have hkept := h frameHost (fun _ => 0) none (bytesOf nestedName) (waitingFor "tools/list")
    frameHost_brackets
  have hraised : (match (response frameHost (fun _ => 0) none (bytesOf nestedName)
      (waitingFor "tools/list")).1 with
    | .raised => true
    | _ => false) = true := by decide +kernel
  refine hkept.returns ?_
  split at hraised
  · next hr => exact hr
  · exact nomatch hraised

end

end Netops.Relay

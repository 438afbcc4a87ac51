import Mathlib.Logic.Relation
import Netops.Reads.Page

/-!
# The pages of a read are the text

Somebody reads a text page by page, while others read what they like.

* `pageText_spec`       a page is the next part of the text, up to the end of a character;
* `Held`                what was stored is still there, or ran out of time or made room;
* `Others`              what other reads may do meanwhile;
* `sshRead_foreign`     they do no more than that;
* `pages_reassemble`    the pages are the text.
-/

namespace Netops.Reads

open Effect
open Netops.Fortios (Text isSpace)

/-! ## one page -/

theorem length_encode_pos {cs : Text} (h : cs ≠ []) : 0 < (Utf8.encode cs).length := by
  obtain ⟨c, cs, rfl⟩ := List.exists_cons_of_ne_nil h
  obtain ⟨b, bs, hb, -⟩ := Utf8.utf8EncodeChar_cons c
  rw [Utf8.encode_cons, hb]
  exact Nat.succ_pos _

/-- the page with `ps` that comes after `front` and before `rest` -/
def cutPage (front ps rest : Text) : Page where
  totalBytes := (Utf8.encode (front ++ (ps ++ rest))).length
  offset := (Utf8.encode front).length
  returnedBytes := (Utf8.encode ps).length
  nextOffset := if rest = [] then none else some (Utf8.encode (front ++ ps)).length
  complete := rest = []
  contentSha256 := sha256 (front ++ (ps ++ rest))
  untrustedDeviceOutput := ps

theorem nextOffset_cutPage (front ps rest : Text) : (cutPage front ps rest).nextOffset
    = if rest = [] then none else some (Utf8.encode (front ++ ps)).length := rfl

/-- a page is the next part of the text -/
theorem pageText_spec (front bs : Text) {maxBytes : Nat} (hmax : 4 ≤ maxBytes) :
    ∃ ps rest, bs = ps ++ rest ∧ (bs ≠ [] → ps ≠ []) ∧
      pageText (front ++ bs) (Utf8.encode front).length maxBytes = .ok (cutPage front ps rest) := by
  have hlen : (Utf8.encode (front ++ bs)).length = (Utf8.encode front).length + (Utf8.encode bs).length := by
    rw [Utf8.encode_append, List.length_append]
  obtain ⟨ps, rest, rfl, hcut, hle, hlt, hlast⟩ := Utf8.cutBack_encode front bs
    (e := min ((Utf8.encode front).length + maxBytes) (Utf8.encode (front ++ bs)).length)
    (by omega) (Nat.min_le_right _ _)
  have hsize : (Utf8.encode (front ++ ps)).length = (Utf8.encode front).length + (Utf8.encode ps).length := by
    rw [Utf8.encode_append, List.length_append]
  have hall : (Utf8.encode (ps ++ rest)).length = (Utf8.encode ps).length + (Utf8.encode rest).length := by
    rw [Utf8.encode_append, List.length_append]
  refine ⟨ps, rest, rfl, fun hne hps => ?_, ?_⟩
  · -- a character has at most four bytes
    subst hps
    have hpos := length_encode_pos hne
    rw [Utf8.encode_nil, List.length_nil] at hsize
    omega
  · have hfront : Utf8.decodeAll ((Utf8.encode (front ++ (ps ++ rest))).take (Utf8.encode front).length)
        = some front := by
      rw [Utf8.encode_append, List.take_left, Utf8.decodeAll_encode]
    have hpage : Utf8.decodeAll (((Utf8.encode (front ++ (ps ++ rest))).take
        (Utf8.encode (front ++ ps)).length).drop (Utf8.encode front).length) = some ps := by
      rw [← List.append_assoc, Utf8.encode_append (front ++ ps), List.take_left, Utf8.encode_append,
        List.drop_left, Utf8.decodeAll_encode]
    have hend : (Utf8.encode (front ++ ps)).length < (Utf8.encode (front ++ (ps ++ rest))).length ↔ rest ≠ [] := by
      rw [hlen, hsize, hall]
      constructor
      · rintro h rfl
        rw [Utf8.encode_nil, List.length_nil] at h
        omega
      · intro h
        have := length_encode_pos h
        omega
    rw [pageText]
    dsimp only
    rw [if_neg (by omega), hfront]
    dsimp only
    rw [hcut, hpage]
    dsimp only
    rw [cutPage]
    congr 2
    · omega
    · by_cases hrest : rest = []
      · rw [if_neg (fun h => hend.1 h hrest), if_pos hrest]
      · rw [if_pos (hend.2 hrest), if_neg hrest]
    · refine decide_eq_decide.2 ⟨fun h => ?_, fun h => ?_⟩
      · by_contra hrest
        exact absurd h (Nat.ne_of_lt (hend.2 hrest))
      · rw [h, List.append_nil]

/-! ## what is kept -/

/-- what was stored is still there, or it ran out of time or made room -/
def Held (key : Key) (text : Text) (c : Cache) : Prop :=
  (∃ kept, Dict.get key c.entries = some kept ∧ kept.output = text) ∨
    key ∈ c.lost ∧ Dict.get key c.entries = none

section
variable {key k : Key} {text : Text} {c : Cache}

theorem held_store (rc : Option Int) (now : ℚ) : Held key text (c.store key rc text now) :=
  .inl ⟨_, (Dict.get_set key key _ _).trans (if_pos rfl), rfl⟩

theorem Held.pop (h : Held key text c) (hne : key ≠ k) : Held key text (c.pop k) := by
  have hget : Dict.get key (c.pop k).entries = Dict.get key c.entries :=
    (Dict.get_filter_ne k key c.entries).trans (if_neg hne)
  rw [Held, hget]
  exact h

theorem Held.prune (h : Held key text c) (now : ℚ) : Held key text (c.prune now) := by
  have hget := Dict.get_filter c.nodup (fun x => !decide (x.2.expires ≤ now)) key
  rcases h with ⟨kept, hkept, hout⟩ | ⟨hlost, hnone⟩
  · rw [hkept] at hget
    by_cases hold : kept.expires ≤ now
    · refine .inr ⟨List.mem_append_left _ ?_, hget.trans (by simp [Option.filter, hold])⟩
      exact Dict.mem_keys (List.mem_filter.2 ⟨Dict.mem_of_get hkept, decide_eq_true hold⟩)
    · exact .inl ⟨kept, hget.trans (by simp [Option.filter, hold]), hout⟩
  · rw [hnone] at hget
    exact .inr ⟨List.mem_append_right _ hlost, hget⟩

theorem Held.evict (h : Held key text c) : Held key text c.evict := by
  rw [Cache.evict]
  split_ifs with hroom
  · exact h
  · split
    · exact h
    · next oldest _ =>
      have hget : Dict.get key (c.pop oldest.1).entries = if key = oldest.1 then none else Dict.get key c.entries :=
        Dict.get_filter_ne oldest.1 key c.entries
      by_cases hkey : key = oldest.1
      · rw [if_pos hkey] at hget
        exact .inr ⟨hkey ▸ List.mem_cons_self, hget⟩
      · rw [if_neg hkey] at hget
        rcases h with ⟨kept, hkept, hout⟩ | ⟨hlost, hnone⟩
        · exact .inl ⟨kept, hget.trans hkept, hout⟩
        · exact .inr ⟨List.mem_cons_of_mem _ hlost, hget.trans hnone⟩

theorem Held.store (h : Held key text c) (hne : key ≠ k) (rc : Option Int) (output : Text) (now : ℚ) :
    Held key text (c.store k rc output now) := by
  have hget : Dict.get key (c.store k rc output now).entries = Dict.get key c.evict.entries :=
    (Dict.get_set k key _ _).trans (if_neg hne)
  rcases h.evict with ⟨kept, hkept, hout⟩ | ⟨hlost, hnone⟩
  · exact .inl ⟨kept, hget.trans hkept, hout⟩
  · exact .inr ⟨List.mem_filter.2 ⟨hlost, decide_eq_true hne⟩, hget.trans hnone⟩

/-- a load finds the text, or it was lost -/
theorem Held.load (h : Held key text c) (now : ℚ) :
    (∃ rc, (c.load key now).1 = some (rc, text)) ∨
      (c.load key now).1 = none ∧ key ∈ (c.load key now).2.lost := by
  rcases h.prune now with ⟨kept, hkept, rfl⟩ | ⟨hlost, hnone⟩
  · exact .inl ⟨kept.rc, by rw [Cache.load, hkept]; rfl⟩
  · exact .inr ⟨by rw [Cache.load, hnone]; rfl, hlost⟩

end

/-! ## what the others do -/

section
variable (q : Query) (text : Text) (outputs : List Text)

/-- what a read does to the cache that asks for something else, or that got one of the other `outputs` -/
def Foreign : Op → Prop
  | .verifiedRead _ => True
  | .load _ => True
  | .store key _ output =>
    key.2 = sha256 output ∧ (key.1 = q → output ∈ outputs ∧ output ≠ text)
  | .pop key => key.1 = q → ∃ output ∈ outputs, output ≠ text ∧ key.2 = sha256 output

/-- one operation of another read -/
def OtherStep (c c' : Cache) : Prop := ∃ (o : Op) (a : o.Ask), Foreign q text outputs o ∧ c' = (machine.exec o a c).2

/-- any operations of other reads, in any order -/
def Others : Cache → Cache → Prop := Relation.ReflTransGen (OtherStep q text outputs)

/-- the texts that were read have different digests -/
def Apart : Prop := ∀ output ∈ outputs, sha256 output = sha256 text → output = text

variable {q text outputs}

theorem Held.otherStep (hsha : Apart text outputs) {c c' : Cache} (h : Held (q, sha256 text) text c)
    (hstep : OtherStep q text outputs c c') : Held (q, sha256 text) text c' := by
  obtain ⟨o, a, ho, rfl⟩ := hstep
  cases o with
  | verifiedRead r => exact h
  | load key => exact h.prune a
  | store key rc output =>
    refine h.store (fun hkey => ?_) rc output a
    obtain ⟨hout, hne⟩ := ho.2 (congrArg Prod.fst hkey).symm
    exact hne (hsha output hout (ho.1.symm.trans (congrArg Prod.snd hkey).symm))
  | pop key =>
    refine h.pop fun hkey => ?_
    obtain ⟨output, hout, hne, hdigest⟩ := ho (congrArg Prod.fst hkey).symm
    exact hne (hsha output hout (hdigest.symm.trans (congrArg Prod.snd hkey).symm))

/-- **The others do not take the text away.** -/
theorem Held.others (hsha : Apart text outputs) {c c' : Cache} (h : Held (q, sha256 text) text c)
    (hsteps : Others q text outputs c c') : Held (q, sha256 text) text c' := by
  induction hsteps with
  | refl => exact h
  | tail _ hstep ih => exact ih.otherStep hsha hstep

end

/-! ### other reads are foreign -/

/-- entries stand under the digest of their text, and those of the query are texts that were read -/
def Filed (q : Query) (text : Text) (outputs : List Text) (c : Cache) : Prop :=
  ∀ x ∈ c.entries, x.1.2 = sha256 x.2.output ∧ (x.1.1 = q → x.2.output = text ∨ x.2.output ∈ outputs)

/-- the other answers to the query are among `outputs` -/
def OtherAnswers (q : Query) (text : Text) (outputs : List Text) : (o : Op) → o.Ask → Prop
  | .verifiedRead q', a => ∀ rc output, a = Except.ok (rc, output) → q' = q → output ∈ outputs ∧ output ≠ text
  | _, _ => True

section
variable {isWord : Char → Bool} {catalogue : Platform → Text → Bool} {q : Query} {text : Text}
variable {outputs : List Text} {c : Cache}

/-- the texts stay in their places, whoever does an operation -/
theorem Filed.exec (h : Filed q text outputs c) {o : Op}
    (ho : Foreign q text outputs o ∨ ∀ key rc output, o = .store key rc output → key = (q, sha256 text) ∧ output = text)
    (a : o.Ask) : Filed q text outputs (machine.exec o a c).2 := by
  cases o with
  | verifiedRead r => exact h
  | load key => exact fun x hx => h x (List.mem_of_mem_filter hx)
  | pop key => exact fun x hx => h x (List.mem_of_mem_filter hx)
  | store key rc output =>
    have hevict : ∀ x ∈ c.evict.entries, x ∈ c.entries := by
      intro x hx
      rw [Cache.evict] at hx
      split_ifs at hx
      · exact hx
      · split at hx
        · exact hx
        · exact List.mem_of_mem_filter hx
    intro x hx
    rcases Dict.mem_set hx with rfl | hx
    · rcases ho with ⟨hdigest, hout⟩ | hown
      · exact ⟨hdigest, fun hq => .inr (hout hq).1⟩
      · obtain ⟨rfl, rfl⟩ := hown key rc output rfl
        exact ⟨rfl, fun _ => .inl rfl⟩
    · exact h x (hevict x hx)

theorem sshAnswer_foreign {r : Query} {offset maxBytes : Nat} {rc : Option Int} {cleaned : Text} {cached : Bool}
    (h : r = q → cleaned ∈ outputs ∧ cleaned ≠ text) :
    Effect.Ends machine (Filed q text outputs) (fun _ _ => True) (fun _ o => Foreign q text outputs o)
      (OtherAnswers q text outputs) (sshAnswer isWord catalogue r offset maxBytes rc cleaned cached)
      (fun _ _ => True) c := by
  have hpop : Foreign q text outputs (.pop (r, sha256 cleaned)) :=
    fun hr => ⟨cleaned, (h hr).1, (h hr).2, rfl⟩
  have hstore : Foreign q text outputs (.store (r, sha256 cleaned) rc cleaned) := ⟨rfl, h⟩
  rw [sshAnswer]
  dsimp only
  by_cases hdone : deviceRefused r cleaned = true
  · rw [if_pos hdone]
    refine fun t _ _ => ⟨hpop, fun _ _ => ?_⟩
    split <;> trivial
  · rw [if_neg hdone]
    by_cases hblank : emptyRead catalogue r cleaned = true
    · rw [if_pos hblank]
      exact fun t _ _ => ⟨hpop, fun _ _ => trivial⟩
    · rw [if_neg hblank]
      cases pageText cleaned offset maxBytes with
      | error e => trivial
      | ok page =>
        dsimp only
        split_ifs
        · exact fun t _ _ => ⟨hstore, fun _ _ => trivial⟩
        · trivial
        · exact fun t _ _ => ⟨hpop, fun _ _ => trivial⟩

/-- **What another read does is foreign**: one that asks for something else, or one of the same query that
was answered with another text, or goes on with another one. -/
theorem sshRead_foreign (r : Request) (hr : r.query = q → r.contentSha256 ≠ some (sha256 text)) :
    Effect.Ends machine (Filed q text outputs) (fun _ _ => True) (fun _ o => Foreign q text outputs o)
      (OtherAnswers q text outputs) (sshRead isWord catalogue r) (fun _ _ => True) c := by
  rw [sshRead]
  split
  · trivial
  · next offset maxBytes _ =>
    split_ifs
    · refine fun t _ _ => ⟨trivial, fun a ha => ?_⟩
      have hexec : (machine.exec (Op.verifiedRead r.query) a t).1 = a := rfl
      rw [hexec]
      change Except Unread (Option Int × Text) at a
      rcases a with e | ⟨rc, cleaned⟩
      · trivial
      · dsimp only
        split_ifs
        · trivial
        · exact sshAnswer_foreign fun hq => ha rc cleaned rfl hq
    · split
      · trivial
      · next sha hsha =>
        have hnamed : r.contentSha256 = some sha := (Option.filter_eq_some_iff.1 hsha).1
        refine fun t _ hfiled => ⟨trivial, fun now _ => ?_⟩
        have hexec : (machine.exec (Op.load (r.query, sha)) now t).1
            = (Dict.get (r.query, sha) (t.prune now).entries).map fun x => (x.rc, x.output) := rfl
        rw [hexec]
        cases hget : Dict.get (r.query, sha) (t.prune now).entries with
        | none => trivial
        | some kept =>
          obtain ⟨hdigest, hout⟩ := hfiled _ (List.mem_of_mem_filter (Dict.mem_of_get hget))
          refine sshAnswer_foreign fun hq => ?_
          have hne : kept.output ≠ text := by
            intro heq
            refine hr hq (hnamed.trans (congrArg some ?_))
            rw [← heq]
            exact hdigest
          exact ⟨(hout hq).resolve_left hne, hne⟩

end

/-! ## the pages -/

section
variable (isWord : Char → Bool) (q : Query) (text : Text)

/-- the pages that come after `front` are the rest of the text -/
structure Reassembles (front : Text) (shown : List Shown) : Prop where
  output : front ++ shown.flatMap (fun x => x.page.untrustedDeviceOutput) = text
  same : ∀ x ∈ shown, x.page.contentSha256 = sha256 text ∧ x.page.totalBytes = (Utf8.encode text).length
  /-- every page is the text of whole characters -/
  valid : ∀ x ∈ shown, x.page.returnedBytes = (Utf8.encode x.page.untrustedDeviceOutput).length
  last : ∃ before x, shown = before ++ [x] ∧ x.page.nextOffset = none ∧ ∀ y ∈ before, y.page.nextOffset ≠ none
  bindings : dhcpBindingsQuery q = true → ∃ summaries : List SwitchDhcp.Summary,
    shown.map (fun x => x.dhcpBindings) = summaries.map some ∧
      summaries.flatMap (fun x => x.bindings)
        = (SwitchDhcp.summarize isWord text (Utf8.encode front).length (Utf8.encode text).length).bindings ∧
      ∀ x ∈ summaries, x.totalBindings
        = (SwitchDhcp.summarize isWord text 0 (Utf8.encode text).length).bindings.length

/-- the page with `ps` -/
def shownPage (rc : Option Int) (cached : Bool) (front ps rest : Text) : Shown :=
  ⟨rc, cached, cutPage front ps rest, dhcpBindings isWord q (front ++ (ps ++ rest)) (cutPage front ps rest)⟩

variable {isWord q text}

theorem dhcpBindings_cutPage (hq : dhcpBindingsQuery q = true) (front ps rest : Text) :
    dhcpBindings isWord q (front ++ (ps ++ rest)) (cutPage front ps rest)
      = some (SwitchDhcp.summarize isWord (front ++ (ps ++ rest)) (Utf8.encode front).length
          (Utf8.encode (front ++ ps)).length) := by
  rw [dhcpBindings, if_pos hq, Utf8.encode_append front ps, List.length_append]
  rfl

theorem totalBindings_whole (text : Text) (a b : Nat) :
    (SwitchDhcp.summarize isWord text a b).totalBindings
      = (SwitchDhcp.summarize isWord text 0 (Utf8.encode text).length).bindings.length := by
  rw [SwitchDhcp.totalBindings_eq, SwitchDhcp.bindings_whole, List.length_map]

theorem length_encode_le (front more : Text) :
    (Utf8.encode front).length ≤ (Utf8.encode (front ++ more)).length := by
  rw [Utf8.encode_append, List.length_append]
  exact Nat.le_add_right _ _

theorem Reassembles.one (rc : Option Int) (cached : Bool) (front ps : Text) :
    Reassembles isWord q (front ++ (ps ++ [])) front [shownPage isWord q rc cached front ps []] where
  output := by
    rw [List.flatMap_singleton, List.append_nil]
    rfl
  same x hx := by
    rw [List.mem_singleton.1 hx]
    exact ⟨rfl, rfl⟩
  valid x hx := by
    rw [List.mem_singleton.1 hx]
    rfl
  last := ⟨[], _, rfl, (nextOffset_cutPage front ps []).trans (if_pos rfl), fun y hy => (nomatch hy)⟩
  bindings hq := by
    refine ⟨[_], congrArg (fun x => [x]) (dhcpBindings_cutPage hq front ps []), ?_, ?_⟩
    · rw [List.flatMap_singleton, List.append_nil]
    · intro x hx
      rw [List.mem_singleton.1 hx, totalBindings_whole]

theorem Reassembles.cons {rc : Option Int} {cached : Bool} {front ps rest : Text} {shown : List Shown}
    (hrest : rest ≠ []) (h : Reassembles isWord q (front ++ (ps ++ rest)) (front ++ ps) shown) :
    Reassembles isWord q (front ++ (ps ++ rest)) front (shownPage isWord q rc cached front ps rest :: shown) where
  output := by
    rw [List.flatMap_cons, ← List.append_assoc]
    exact h.output
  same x hx := by
    rcases List.mem_cons.1 hx with rfl | hx
    · exact ⟨rfl, rfl⟩
    · exact h.same x hx
  valid x hx := by
    rcases List.mem_cons.1 hx with rfl | hx
    · rfl
    · exact h.valid x hx
  last := by
    obtain ⟨before, x, rfl, hx, hbefore⟩ := h.last
    refine ⟨shownPage isWord q rc cached front ps rest :: before, x, rfl, hx, fun y hy => ?_⟩
    rcases List.mem_cons.1 hy with rfl | hy
    · rw [shownPage, nextOffset_cutPage, if_neg hrest]
      exact nofun
    · exact hbefore y hy
  bindings hq := by
    obtain ⟨summaries, hmap, hall, htotal⟩ := h.bindings hq
    refine ⟨SwitchDhcp.summarize isWord (front ++ (ps ++ rest)) (Utf8.encode front).length
      (Utf8.encode (front ++ ps)).length :: summaries, ?_, ?_, ?_⟩
    · rw [List.map_cons, List.map_cons, hmap]
      exact congrArg (· :: summaries.map some) (dhcpBindings_cutPage hq front ps rest)
    · rw [List.flatMap_cons, hall]
      refine SwitchDhcp.bindings_append isWord _ (length_encode_le front ps) ?_
      rw [← List.append_assoc]
      exact length_encode_le _ _
    · intro x hx
      rcases List.mem_cons.1 hx with rfl | hx
      · exact totalBindings_whole _ _ _
      · exact htotal x hx

end

/-! ## the calls -/

section
variable (text : Text)

/-- the device answers with the text -/
def Answers : (o : Op) → o.Ask → Prop
  | .verifiedRead _, a => ∃ rc, a = Except.ok (rc, text)
  | _, _ => True

end

section
variable {isWord : Char → Bool} {catalogue : Platform → Text → Bool} {q : Query} {text : Text}
variable {outputs : List Text}

/-- nobody says that the text is no answer -/
structure Readable (catalogue : Platform → Text → Bool) (q : Query) (text : Text) : Prop where
  done : deviceRefused q text = false
  answer : emptyRead catalogue q text = false

theorem sshAnswer_eq (h : Readable catalogue q text) {offset maxBytes : Nat} {page : Page}
    (hpage : pageText text offset maxBytes = .ok page) (rc : Option Int) (cached : Bool) :
    sshAnswer isWord catalogue q offset maxBytes rc text cached
      = if page.nextOffset.isSome then
          if offset = 0 then .op (Op.store (q, sha256 text) rc text) fun _ =>
            .ret (.page ⟨rc, cached, page, dhcpBindings isWord q text page⟩)
          else .ret (.page ⟨rc, cached, page, dhcpBindings isWord q text page⟩)
        else .op (Op.pop (q, sha256 text)) fun _ =>
          .ret (.page ⟨rc, cached, page, dhcpBindings isWord q text page⟩) := by
  rw [sshAnswer, h.done, h.answer, hpage]
  rfl

theorem namedSnapshot_sha256 (text : Text) : namedSnapshot (sha256 text) = true := by
  rw [namedSnapshot, Bool.and_eq_true, List.all_eq_true]
  exact ⟨decide_eq_true (Sha256.hexdigest_length _), fun c hc => Sha256.hexdigest_lowerHex hc⟩

theorem validatePagination_ok {offset maxBytes : Nat} (ho : offset ≤ 8000000) (hm : 1000 ≤ maxBytes ∧ maxBytes ≤ 48000) :
    validatePagination offset maxBytes = .ok (offset, maxBytes) := by
  rw [validatePagination, if_neg (by omega), if_neg (by omega)]
  rfl

/-- how a call ends that is to give the page with `ps` -/
def Turned (isWord : Char → Bool) (q : Query) (text front ps rest : Text) : Except Refused Reply → Cache → Prop
  | .ok reply, c => (∃ rc cached, reply = .page (shownPage isWord q rc cached front ps rest)) ∧
      (rest ≠ [] → Held (q, sha256 text) text c)
  | .error e, c => e = .expired ∧ (q, sha256 text) ∈ c.lost

/-- what somebody has at the end who follows the pages -/
def Followed (isWord : Char → Bool) (q : Query) (text front : Text) : Except Refused (List Reply) → Cache → Prop
  | .ok replies, _ => ∃ shown, replies = shown.map .page ∧ Reassembles isWord q text front shown
  | .error e, c => e = .expired ∧ (q, sha256 text) ∈ c.lost

/-- the others may do anything that is foreign, and the device answers with the text -/
abbrev Served {α : Type} (q : Query) (text : Text) (outputs : List Text) (m : P α)
    (Q : Except Refused α → Cache → Prop) (c : Cache) : Prop :=
  Effect.Ends machine (fun _ => True) (Others q text outputs) (fun _ _ => True) (Answers text) m Q c

/-- a later page -/
theorem sshCached_served (hread : Readable catalogue q text) (hsha : Apart text outputs) {front ps rest : Text}
    (htext : text = front ++ (ps ++ rest)) (hfront : front ≠ []) {maxBytes : Nat}
    (hpage : pageText text (Utf8.encode front).length maxBytes = .ok (cutPage front ps rest)) {c : Cache}
    (hheld : Held (q, sha256 text) text c) :
    Served q text outputs (sshCached isWord catalogue q (sha256 text) (Utf8.encode front).length maxBytes)
      (Turned isWord q text front ps rest) c := by
  intro t hother _
  refine ⟨trivial, fun now _ => ?_⟩
  have hheld' := hheld.others hsha hother
  have hnext := hheld'.prune now
  rcases hheld'.load now with ⟨rc, hload⟩ | ⟨hload, hlost⟩
  · have hexec : (machine.exec (Op.load (q, sha256 text)) now t).1 = some (rc, text) := hload
    rw [hexec]
    dsimp only
    have hpos := length_encode_pos hfront
    rw [sshAnswer_eq hread hpage]
    by_cases hrest : rest = []
    · rw [nextOffset_cutPage, if_pos hrest, if_neg (by decide)]
      intro u _ _
      refine ⟨trivial, fun _ _ => ⟨⟨rc, true, by rw [htext]; rfl⟩, fun h => absurd hrest h⟩⟩
    · rw [nextOffset_cutPage, if_neg hrest, if_pos Option.isSome_some, if_neg (by omega)]
      exact ⟨⟨rc, true, by rw [htext]; rfl⟩, fun _ => hnext⟩
  · have hexec : (machine.exec (Op.load (q, sha256 text)) now t).1 = none := hload
    rw [hexec]
    exact ⟨rfl, hlost⟩

/-- the first page -/
theorem sshFresh_served (hread : Readable catalogue q text) (hcap : (Utf8.encode text).length ≤ captureMaxBytes)
    {ps rest : Text} (htext : text = [] ++ (ps ++ rest)) {maxBytes : Nat}
    (hpage : pageText text 0 maxBytes = .ok (cutPage [] ps rest)) (c : Cache) :
    Served q text outputs (sshFresh isWord catalogue q maxBytes) (Turned isWord q text [] ps rest) c := by
  intro t _ _
  refine ⟨trivial, fun a ha => ?_⟩
  obtain ⟨rc, rfl⟩ := ha
  have hexec : (machine.exec (Op.verifiedRead q) (Except.ok (rc, text)) t).1 = .ok (rc, text) := rfl
  rw [hexec]
  dsimp only
  rw [if_neg (Nat.not_lt.2 hcap), sshAnswer_eq hread hpage]
  by_cases hrest : rest = []
  · rw [nextOffset_cutPage, if_pos hrest, if_neg (by decide)]
    intro u _ _
    exact ⟨trivial, fun _ _ => ⟨⟨rc, false, by rw [htext]; rfl⟩, fun h => absurd hrest h⟩⟩
  · rw [nextOffset_cutPage, if_neg hrest, if_pos Option.isSome_some, if_pos rfl]
    intro u _ _
    exact ⟨trivial, fun now _ => ⟨⟨rc, false, by rw [htext]; rfl⟩, fun _ => held_store rc now⟩⟩

/-- one page, and then the rest -/
theorem Served.turn {front ps rest : Text} (htext : text = front ++ (ps ++ rest)) {sizes : Nat → Nat}
    {fuel n : Nat} {m : P Reply} {c : Cache} (hm : Served q text outputs m (Turned isWord q text front ps rest) c)
    (hnext : rest ≠ [] → ∀ c', Held (q, sha256 text) text c' →
      Served q text outputs (follow isWord catalogue q sizes fuel (n + 1) (Utf8.encode (front ++ ps)).length
        (some (sha256 text))) (Followed isWord q text (front ++ ps)) c') :
    Served q text outputs (m.bind fun reply =>
      match reply.next with
      | none => .ret [reply]
      | some (offset, sha) => (follow isWord catalogue q sizes fuel (n + 1) offset (some sha)).bind fun rest =>
        .ret (reply :: rest)) (Followed isWord q text front) c := by
  refine Effect.Ends.bind hm ?_ fun e c' he => he
  rintro reply c' ⟨⟨rc, cached, rfl⟩, hheld⟩
  have hsha : (cutPage front ps rest).contentSha256 = sha256 text := by rw [htext]; rfl
  have hreply : (Reply.page (shownPage isWord q rc cached front ps rest)).next
      = if rest = [] then none else some ((Utf8.encode (front ++ ps)).length, sha256 text) := by
    rw [Reply.next, shownPage]
    dsimp only
    rw [nextOffset_cutPage, hsha]
    split_ifs <;> rfl
  rw [hreply]
  by_cases hrest : rest = []
  · rw [if_pos hrest]
    subst hrest
    exact ⟨[_], rfl, htext ▸ Reassembles.one rc cached front ps⟩
  · rw [if_neg hrest]
    refine Effect.Ends.bind (hnext hrest c' (hheld hrest)) ?_ fun e c'' he => he
    rintro replies c'' ⟨shown, rfl, hshown⟩
    subst htext
    exact ⟨_ :: shown, rfl, Reassembles.cons hrest hshown⟩

/-- the pages after the first one -/
theorem follow_served (hread : Readable catalogue q text) (hcap : (Utf8.encode text).length ≤ captureMaxBytes)
    (hsha : Apart text outputs) {sizes : Nat → Nat} (hsizes : ∀ n, 1000 ≤ sizes n ∧ sizes n ≤ 48000) :
    ∀ (fuel n : Nat) (front bs : Text) (c : Cache), text = front ++ bs → front ≠ [] → bs ≠ [] →
      bs.length < fuel → Held (q, sha256 text) text c →
      Served q text outputs
        (follow isWord catalogue q sizes fuel n (Utf8.encode front).length (some (sha256 text)))
        (Followed isWord q text front) c := by
  intro fuel
  induction fuel with
  | zero => exact fun n front bs c _ _ _ hfuel => absurd hfuel (Nat.not_lt_zero _)
  | succ fuel ih =>
    intro n front bs c htext hfront hbs hfuel hheld
    obtain ⟨ps, rest, rfl, hps, hpage⟩ := pageText_spec front bs (Nat.le_trans (by decide) (hsizes n).1)
    rw [← htext] at hpage
    have hpos := length_encode_pos hfront
    have hle : (Utf8.encode front).length ≤ 8000000 := by
      have hlen : (Utf8.encode front).length ≤ (Utf8.encode text).length := htext ▸ length_encode_le front _
      have hmax := Nat.le_trans hlen hcap
      rw [captureMaxBytes] at hmax
      omega
    have hcall : sshRead isWord catalogue ⟨q, (Utf8.encode front).length, sizes n, some (sha256 text)⟩
        = sshCached isWord catalogue q (sha256 text) (Utf8.encode front).length (sizes n) := by
      rw [sshRead, validatePagination_ok hle (hsizes n)]
      dsimp only
      rw [if_neg (by omega), Option.filter, namedSnapshot_sha256]
      rfl
    rw [follow, hcall]
    refine (sshCached_served hread hsha htext hfront hpage hheld).turn htext fun hrest c' hheld' => ?_
    refine ih (n + 1) (front ++ ps) rest c' ?_ ?_ hrest ?_ hheld'
    · rw [htext, List.append_assoc]
    · exact fun hnil => hfront (List.append_eq_nil_iff.1 hnil).1
    · have hlen := List.length_pos_of_ne_nil (hps hbs)
      rw [List.length_append] at hfuel
      omega

/-- **Pages of one read reassemble it.**  Whoever starts at offset 0 and follows `next_offset`, while others
read what they like, comes to the end of the text, or is told that it expired; and that is said only when
the text ran out of time or made room. -/
theorem pages_reassemble (isWord : Char → Bool) (catalogue : Platform → Text → Bool) (q : Query) (text : Text)
    (hcap : (Utf8.encode text).length ≤ captureMaxBytes) (hread : Readable catalogue q text)
    (outputs : List Text) (hsha : Apart text outputs) (sizes : Nat → Nat)
    (hsizes : ∀ n, 1000 ≤ sizes n ∧ sizes n ≤ 48000) :
    ∃ calls, ∀ fuel, calls ≤ fuel → ∀ c : Cache,
      Served q text outputs (readAll isWord catalogue q sizes fuel) (Followed isWord q text []) c := by
  refine ⟨text.length + 1, fun fuel hfuel c => ?_⟩
  obtain ⟨fuel, rfl⟩ : ∃ k, fuel = k + 1 := ⟨fuel - 1, by omega⟩
  obtain ⟨ps, rest, hsplit, hps, hpage⟩ := pageText_spec [] text (Nat.le_trans (by decide) (hsizes 0).1)
  have htext : text = [] ++ (ps ++ rest) := hsplit
  have hcall : sshRead isWord catalogue ⟨q, (0 : Nat), sizes 0, none⟩
      = sshFresh isWord catalogue q (sizes 0) := by
    rw [sshRead, validatePagination_ok (Nat.zero_le _) (hsizes 0)]
    rfl
  rw [readAll, follow, hcall]
  refine (sshFresh_served hread hcap htext hpage c).turn htext fun hrest c' hheld => ?_
  have hne : text ≠ [] := fun hnil => hrest (List.append_eq_nil_iff.1 (hsplit.symm.trans hnil)).2
  have hlen := List.length_pos_of_ne_nil (hps hne)
  have hsize : text.length = ps.length + rest.length := by rw [hsplit, List.length_append]
  exact follow_served hread hcap hsha hsizes fuel 1 ps rest c' hsplit (hps hne) hrest (by omega) hheld

end

/-! ### reads of two texts -/

/-- a query of a firewall -/
def arpQuery : Query where
  target := "fw1".toList
  host := "192.0.2.1".toList
  port := 22
  login := "reader".toList
  secretSha256 := sha256 []
  platform := .fortinet
  query := "arp_table".toList
  parameters := []

/-- a text that is read while others get another answer to the same query -/
theorem pages_reassemble_arp : Apart ['x'] [['y']] ∧ Readable (fun _ _ => false) arpQuery ['x'] ∧
    ∃ calls, ∀ fuel, calls ≤ fuel → ∀ c : Cache,
      Served arpQuery ['x'] [['y']] (readAll Char.isAlphanum (fun _ _ => false) arpQuery (fun _ => 1000) fuel)
        (Followed Char.isAlphanum arpQuery ['x'] []) c := by
  have hsha : Apart ['x'] [['y']] := by
    intro output hout heq
    obtain rfl := List.mem_singleton.1 hout
    have hne : Sha256.hexdigest (Utf8.encode ['y']) ≠ Sha256.hexdigest (Utf8.encode ['x']) := by
      rw [Sha256.hexdigest, Sha256.hexdigest]
      decide +kernel
    exact absurd heq hne
  have hread : Readable (fun _ _ => false) arpQuery ['x'] := ⟨by decide +kernel, by decide +kernel⟩
  exact ⟨hsha, hread, pages_reassemble Char.isAlphanum _ arpQuery ['x'] (by decide +kernel) hread [['y']] hsha
    (fun _ => 1000) fun _ => by decide⟩

/-- a blank answer is no page -/
theorem blank_not_paged : (Utf8.encode ['\n']).length ≤ captureMaxBytes ∧
    ¬∃ calls, ∀ fuel, calls ≤ fuel → ∀ c : Cache,
      Served arpQuery ['\n'] [] (readAll Char.isAlphanum (fun _ _ => false) arpQuery (fun _ => 1000) fuel)
        (Followed Char.isAlphanum arpQuery ['\n'] []) c := by
  refine ⟨by decide +kernel, ?_⟩
  rintro ⟨calls, h⟩
  have hstart := h (calls + 1) (Nat.le_succ _) Cache.empty
  have hanswer : sshAnswer Char.isAlphanum (fun _ _ => false) arpQuery 0 1000 none ['\n'] false
      = .op (Op.pop (arpQuery, sha256 ['\n'])) fun _ => .ret (.empty none) := by
    have hdone : deviceRefused arpQuery ['\n'] = false := by decide +kernel
    have hblank : emptyRead (fun _ _ => false) arpQuery ['\n'] = true := by decide +kernel
    rw [sshAnswer, hdone, hblank]
    rfl
  have hcall : sshRead Char.isAlphanum (fun _ _ => false) ⟨arpQuery, (0 : Nat), (1000 : Nat), none⟩
      = sshFresh Char.isAlphanum (fun _ _ => false) arpQuery 1000 := by
    rw [sshRead, validatePagination_ok (Nat.zero_le _) (by decide)]
    rfl
  rw [readAll, follow, hcall] at hstart
  have hread := (hstart Cache.empty .refl trivial).2 (Except.ok (none, ['\n'])) ⟨none, rfl⟩
  have hexec : (machine.exec (Op.verifiedRead arpQuery) (Except.ok (none, ['\n'])) Cache.empty).1
      = .ok (none, ['\n']) := rfl
  rw [hexec] at hread
  dsimp only at hread
  rw [if_neg (by decide +kernel), hanswer] at hread
  obtain ⟨shown, hshown, -⟩ := (hread Cache.empty .refl trivial).2 () trivial
  cases shown with
  | nil => exact nomatch hshown
  | cons x shown => exact nomatch hshown

end Netops.Reads

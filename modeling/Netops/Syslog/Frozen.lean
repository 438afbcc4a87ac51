import Netops.Syslog.RoundTrip

/-!
# The first complete set of parts is frozen (`decode_messages`)

An archive holds whatever was written to it, in any order.  Until all parts of the record asked for are
there, a line that does not fit is an error; from then on it is a warning and nothing changes any more.

* `Gathered`      what the decoder holds after the lines of an archive, whatever they are;
* `HoldsAll`      an archive holds all parts of the record asked for;
* `decodeMessages_frozen`   what can be said of `A ++ B` from `A`.
-/

namespace Netops.Syslog

variable {depth : Nat} {recordId : String}

/-! ## parts -/

theorem lookup_eq_some_iff {β : Type} {l : List (Nat × β)} (h : (l.map (·.1)).Nodup) {n : Nat} {x : β} :
    l.lookup n = some x ↔ (n, x) ∈ l := by
  induction l with
  | nil => simp
  | cons y l ih =>
    obtain ⟨k, z⟩ := y
    obtain ⟨hk, hl⟩ := List.nodup_cons.mp h
    by_cases hn : n = k
    · subst hn
      have hnot : (n, x) ∉ l := fun hm => hk (List.mem_map.mpr ⟨_, hm, rfl⟩)
      simp [hnot, eq_comm]
    · have hne : (n == k) = false := by simpa using hn
      rw [List.lookup_cons, hne, ih hl]
      simp [hn]

theorem readNumbers_lt {fs : List (List Nat × Json.Value)} {part parts : Nat}
    (h : readNumbers fs = some (part, parts)) : part < parts := by
  unfold readNumbers at h
  split at h
  · split_ifs at h with hc
    obtain ⟨rfl, rfl⟩ := Prod.mk.inj (Option.some.inj h)
    omega
  · exact nomatch h

theorem readRow_lt {fs : List (List Nat × Json.Value)} {row : Row} {chunk : Bytes}
    (h : readRow recordId fs = .ok (row, chunk)) : row.part < row.parts := by
  unfold readRow at h
  simp only [bind, Except.bind, pure, Except.pure, throw, throwThe, MonadExceptOf.throw] at h
  -- every check but the last returns an error
  split at h
  · exact nomatch h
  split at h
  · split at h
    · exact nomatch h
    split at h
    · rename_i part parts hnumbers
      split at h
      · split at h
        · exact nomatch h
        split at h
        · split at h
          · exact nomatch h
          split at h
          · exact nomatch h
          · obtain ⟨rfl, -⟩ := Prod.mk.inj (Except.ok.inj h)
            exact readNumbers_lt hnumbers
        · exact nomatch h
      · exact nomatch h
    · exact nomatch h
  · exact nomatch h

/-- a part that is selected has a number below the total -/
theorem selectedPart_lt {raw : Bytes} {x : Row × Bytes}
    (h : selectedPart depth raw recordId = .ok (some x)) : x.1.part < x.1.parts := by
  unfold selectedPart at h
  split at h
  · exact nomatch h
  · split at h
    · rename_i fs _ _ _ _ _
      split at h
      · exact absurd (Except.ok.inj h) (by simp)
      split at h
      · exact nomatch h
      split at h
      · exact nomatch h
      cases hrow : readRow recordId fs with
      | error e =>
        rw [hrow] at h
        exact nomatch h
      | ok y =>
        rw [hrow] at h
        obtain rfl : y = x := Option.some.inj (Except.ok.inj h)
        exact readRow_lt hrow
    · exact nomatch h
  · exact nomatch h

/-! ## what the decoder holds -/

/-- after the lines `seen`, whatever they are -/
structure Gathered (depth : Nat) (recordId : String) (seen : List Bytes) (d : Decoder) : Prop where
  nodup : (d.selected.map (·.1)).Nodup
  number : ∀ x ∈ d.selected, x.1 = x.2.1.part
  identity : ∀ x ∈ d.selected, d.identity = some (x.2.1.parts, x.2.1.sha256)
  source : ∀ x ∈ d.selected, ∃ raw ∈ seen, selectedPart depth raw recordId = .ok (some x.2)
  -- before the end nothing of the record has been passed over, and something is missing
  all : d.completed = none → ∀ raw ∈ seen, ∀ x, selectedPart depth raw recordId = .ok (some x) →
    (x.1.part, x) ∈ d.selected
  missing : d.completed = none → ∀ identity, d.identity = some identity → d.selected.length ≠ identity.1
  whole : ∀ original, d.completed = some original → ∃ identity, d.identity = some identity ∧
    0 < identity.1 ∧ d.selected.length = identity.1 ∧ (Sha256.hexdigest original).map Char.toNat = identity.2

theorem gathered_initial : Gathered depth recordId [] Decoder.initial where
  nodup := List.nodup_nil
  number := fun _ hx => absurd hx List.not_mem_nil
  identity := fun _ hx => absurd hx List.not_mem_nil
  source := fun _ hx => absurd hx List.not_mem_nil
  all := fun _ _ hraw => absurd hraw List.not_mem_nil
  missing := fun _ _ hi => nomatch hi
  whole := fun _ ho => nomatch ho

section
variable {seen : List Bytes} {d d' : Decoder} {raw : Bytes} {line : Nat}

/-- a part that is there already is there as it is -/
theorem Gathered.put (h : Gathered depth recordId seen d) {x : Row × Bytes}
    (hx : (d.part x.1.part).isSome = true → d.part x.1.part = some x) :
    d.put x.1.part x = if (d.part x.1.part).isSome then d.selected else d.selected ++ [(x.1.part, x)] := by
  unfold Decoder.put
  by_cases hpart : (d.part x.1.part).isSome = true
  · have hmem : (x.1.part, x) ∈ d.selected := (lookup_eq_some_iff h.nodup).mp (hx hpart)
    have hany : (d.selected.any fun y => y.1 = x.1.part) = true :=
      List.any_eq_true.mpr ⟨_, hmem, by simp⟩
    rw [if_pos hpart, if_pos hany]
    have hsame : ∀ y ∈ d.selected, (if y.1 = x.1.part then (x.1.part, x) else y) = y := by
      intro y hy
      split_ifs with hn
      · exact List.inj_on_of_nodup_map h.nodup hmem hy hn.symm
      · rfl
    rw [List.map_congr_left hsame, List.map_id']
  · have hany : ¬(d.selected.any fun y => y.1 = x.1.part) = true := by
      rw [List.any_eq_true]
      rintro ⟨⟨n, y⟩, hy, hn⟩
      obtain rfl : n = x.1.part := of_decide_eq_true hn
      refine hpart ?_
      rw [Decoder.part, (lookup_eq_some_iff h.nodup).mpr hy]
      rfl
    rw [if_neg hpart, if_neg hany]

/-- what it takes for a part to be taken, and what is then there -/
theorem accept_cases {row : Row} {chunk : Bytes} (h : d.accept line row chunk = .ok d') :
    (d.identity = none ∨ d.identity = some (row.parts, row.sha256)) ∧
    ((d.part row.part).isSome = true → d.part row.part = some (row, chunk)) ∧
    d'.selected = d.put row.part (row, chunk) ∧ d'.identity = some (row.parts, row.sha256) ∧
    ((d.put row.part (row, chunk)).length = row.parts ∧ (∃ original, d'.completed = some original ∧
        (Sha256.hexdigest original).map Char.toNat = row.sha256) ∨
      (d.put row.part (row, chunk)).length ≠ row.parts ∧ d'.completed = d.completed) := by
  unfold Decoder.accept at h
  dsimp only at h
  split_ifs at h with hident hdup hlen hsha
  · have hid : d.identity.getD (row.parts, row.sha256) = (row.parts, row.sha256) := not_not.mp hident
    rw [hid] at hlen hsha
    obtain rfl := Except.ok.inj h
    rw [hid]
    refine ⟨?_, fun hs => not_not.mp fun hne => hdup ⟨hs, hne⟩, rfl, rfl, .inl ⟨hlen, _, rfl, ?_⟩⟩
    · cases hd : d.identity with
      | none => exact .inl rfl
      | some identity =>
        rw [hd] at hid
        exact .inr (congrArg some hid)
    · exact not_not.mp fun hne => hsha (.inr hne)
  · have hid : d.identity.getD (row.parts, row.sha256) = (row.parts, row.sha256) := not_not.mp hident
    rw [hid] at hlen
    obtain rfl := Except.ok.inj h
    rw [hid]
    refine ⟨?_, fun hs => not_not.mp fun hne => hdup ⟨hs, hne⟩, rfl, rfl, .inr ⟨hlen, rfl⟩⟩
    cases hd : d.identity with
    | none => exact .inl rfl
    | some identity =>
      rw [hd] at hid
      exact .inr (congrArg some hid)

/-- a part is taken -/
theorem Gathered.accept (h : Gathered depth recordId seen d) (hopen : d.completed = none)
    {x : Row × Bytes} (hx : selectedPart depth raw recordId = .ok (some x))
    (hstep : d.accept line x.1 x.2 = .ok d') : Gathered depth recordId (seen ++ [raw]) d' := by
  obtain ⟨hident, hdup, hsel, hid, hend⟩ := accept_cases hstep
  have hput := h.put hdup
  have hmem : ∀ y, y ∈ d'.selected ↔ y ∈ d.selected ∨ y = (x.1.part, x) := by
    intro y
    rw [hsel, hput]
    split_ifs with hpart
    · have hin : (x.1.part, x) ∈ d.selected := (lookup_eq_some_iff h.nodup).mp (hdup hpart)
      exact ⟨.inl, fun hy => hy.elim id fun e => e ▸ hin⟩
    · rw [List.mem_append, List.mem_singleton]
  refine ⟨?_, fun y hy => ?_, fun y hy => ?_, fun y hy => ?_, fun hopen' raw' hraw' y hy => ?_, ?_, ?_⟩
  · rw [hsel, hput]
    split_ifs with hpart
    · exact h.nodup
    · rw [List.map_append]
      refine List.nodup_append.mpr ⟨h.nodup, List.nodup_singleton _, ?_⟩
      rintro n hn m hm rfl
      obtain ⟨⟨k, y⟩, hy, rfl⟩ := List.mem_map.mp hn
      obtain rfl : k = x.1.part := List.mem_singleton.mp hm
      refine hpart ?_
      rw [Decoder.part, (lookup_eq_some_iff h.nodup).mpr hy]
      rfl
  · rcases (hmem y).mp hy with hy | rfl
    · exact h.number y hy
    · rfl
  · rcases (hmem y).mp hy with hy | rfl
    · have hold := h.identity y hy
      rcases hident with hnone | hsome
      · exact absurd (hnone.symm.trans hold) (by simp)
      · rw [hid, ← hsome, hold]
    · exact hid
  · rcases (hmem y).mp hy with hy | rfl
    · obtain ⟨raw', hraw', hsource⟩ := h.source y hy
      exact ⟨raw', List.mem_append_left _ hraw', hsource⟩
    · exact ⟨raw, List.mem_append_right _ List.mem_cons_self, hx⟩
  · rw [hmem]
    rcases List.mem_append.mp hraw' with hraw' | hraw'
    · exact .inl (h.all hopen raw' hraw' y hy)
    · rw [List.mem_singleton.mp hraw', hx] at hy
      obtain rfl : x = y := Option.some.inj (Except.ok.inj hy)
      exact .inr rfl
  · intro hopen' identity hidentity
    rw [hid] at hidentity
    obtain rfl := Option.some.inj hidentity
    rcases hend with ⟨-, original, hdone, -⟩ | ⟨hlen, -⟩
    · exact absurd (hopen'.symm.trans hdone) (by simp)
    · rw [hsel]
      exact hlen
  · intro original hdone
    rcases hend with ⟨hlen, original', hdone', hsha⟩ | ⟨-, hsame⟩
    · obtain rfl : original' = original := Option.some.inj (hdone'.symm.trans hdone)
      exact ⟨_, hid, (Nat.zero_le _).trans_lt (selectedPart_lt hx), hsel ▸ hlen, hsha⟩
    · exact absurd (hopen.symm.trans (hsame.symm.trans hdone)) (by simp)

/-- once the record is complete, a line only warns -/
theorem step_completed {original : Bytes} (h : d.completed = some original) :
    ∃ more, d.step depth recordId line raw = .ok { d with warnings := d.warnings ++ more } := by
  have hnone : ∀ e : ReassemblyError, ∀ w : Decoder,
      (if d.completed.isNone = true then Except.error e else .ok w) = .ok w := by
    intro e w
    rw [h]
    rfl
  have hplain : d = { d with warnings := d.warnings ++ [] } := by rw [List.append_nil]
  unfold Decoder.step
  split
  · exact ⟨_, hnone _ _⟩
  · exact ⟨[], congrArg _ hplain⟩
  · rw [if_pos (by rw [h]; rfl)]
    split_ifs
    · exact ⟨_, rfl⟩
    · exact ⟨[], congrArg _ hplain⟩

theorem Gathered.step (h : Gathered depth recordId seen d)
    (hstep : d.step depth recordId line raw = .ok d') : Gathered depth recordId (seen ++ [raw]) d' := by
  have hmore : ∀ x ∈ d.selected, ∃ raw' ∈ seen ++ [raw], selectedPart depth raw' recordId = .ok (some x.2) := by
    intro x hx
    obtain ⟨raw', hraw', hsource⟩ := h.source x hx
    exact ⟨raw', List.mem_append_left _ hraw', hsource⟩
  cases hd : d.completed with
  | some original =>
    obtain ⟨more, hm⟩ := @step_completed depth recordId d raw line original hd
    obtain rfl := Except.ok.inj (hm.symm.trans hstep)
    refine ⟨h.nodup, h.number, h.identity, hmore, fun hopen => ?_, fun hopen => ?_, h.whole⟩
    · exact absurd (hd.symm.trans hopen) (by simp)
    · exact absurd (hd.symm.trans hopen) (by simp)
  | none =>
    unfold Decoder.step at hstep
    split at hstep
    · rw [if_pos (by rw [hd]; rfl)] at hstep
      exact nomatch hstep
    · rename_i hother
      obtain rfl := Except.ok.inj hstep
      refine ⟨h.nodup, h.number, h.identity, hmore, fun hopen raw' hraw' x hx => ?_, h.missing, h.whole⟩
      rcases List.mem_append.mp hraw' with hraw' | hraw'
      · exact h.all hopen raw' hraw' x hx
      · rw [List.mem_singleton.mp hraw', hother] at hx
        exact absurd (Except.ok.inj hx) (by simp)
    · rename_i row chunk hrow
      rw [if_neg (by rw [hd]; simp)] at hstep
      exact h.accept hd (x := (row, chunk)) hrow hstep

/-! ## whole archives -/

variable {A B : List Bytes}

theorem steps_append (d : Decoder) (line : Nat) : d.steps depth recordId line (A ++ B) =
    (d.steps depth recordId line A).bind fun d' => d'.steps depth recordId (line + A.length) B := by
  induction A generalizing d line with
  | nil => rfl
  | cons raw A ih =>
    show (d.step depth recordId line raw).bind (fun d' => d'.steps depth recordId (line + 1) (A ++ B)) =
      ((d.step depth recordId line raw).bind fun d' => d'.steps depth recordId (line + 1) A).bind _
    cases d.step depth recordId line raw with
    | error e => rfl
    | ok d1 =>
      have hline : line + (raw :: A).length = line + 1 + A.length := by
        rw [List.length_cons]
        omega
      rw [hline]
      exact ih d1 (line + 1)

theorem steps_completed {original : Bytes} (h : d.completed = some original) :
    ∃ more, d.steps depth recordId line B = .ok { d with warnings := d.warnings ++ more } := by
  induction B generalizing d line with
  | nil => exact ⟨[], by rw [List.append_nil]; rfl⟩
  | cons raw B ih =>
    obtain ⟨more, hstep⟩ := @step_completed depth recordId d raw line original h
    have hdone : ({ d with warnings := d.warnings ++ more } : Decoder).completed = some original := h
    obtain ⟨more', hrest⟩ := @ih { d with warnings := d.warnings ++ more } (line + 1) hdone
    refine ⟨more ++ more', ?_⟩
    show (d.step depth recordId line raw).bind _ = _
    rw [hstep, ← List.append_assoc]
    exact hrest

theorem Gathered.steps (h : Gathered depth recordId seen d)
    (hsteps : d.steps depth recordId line A = .ok d') : Gathered depth recordId (seen ++ A) d' := by
  induction A generalizing seen d line with
  | nil =>
    obtain rfl := Except.ok.inj hsteps
    rwa [List.append_nil]
  | cons raw A ih =>
    cases hstep : d.step depth recordId line raw with
    | error e =>
      rw [Decoder.steps, hstep] at hsteps
      cases hsteps
    | ok d1 =>
      rw [Decoder.steps, hstep] at hsteps
      rw [List.append_cons]
      exact ih (h.step hstep) hsteps

/-- all parts of a total are there -/
def HoldsAll (depth : Nat) (recordId : String) (archive : List Bytes) : Prop :=
  ∃ parts, 0 < parts ∧ ∀ n < parts, ∃ raw ∈ archive, ∃ x : Row × Bytes,
    selectedPart depth raw recordId = .ok (some x) ∧ x.1.part = n ∧ x.1.parts = parts

theorem HoldsAll.mono (h : HoldsAll depth recordId A) (hsub : ∀ raw ∈ A, raw ∈ B) :
    HoldsAll depth recordId B := by
  obtain ⟨parts, hpos, hall⟩ := h
  refine ⟨parts, hpos, fun n hn => ?_⟩
  obtain ⟨raw, hraw, hx⟩ := hall n hn
  exact ⟨raw, hsub raw hraw, hx⟩

/-- the numbers of the parts that are there are below the total -/
theorem Gathered.number_lt (h : Gathered depth recordId seen d) {identity : Nat × List Nat}
    (hid : d.identity = some identity) : ∀ n ∈ d.selected.map (·.1), n < identity.1 := by
  intro n hn
  obtain ⟨x, hx, rfl⟩ := List.mem_map.mp hn
  obtain ⟨raw, -, hraw⟩ := h.source x hx
  have hparts : identity = (x.2.1.parts, x.2.1.sha256) :=
    Option.some.inj (hid.symm.trans (h.identity x hx))
  show x.1 < identity.1
  rw [h.number x hx, hparts]
  exact selectedPart_lt hraw

/-- the record is complete exactly when all its parts have been there -/
theorem Gathered.completed_iff (h : Gathered depth recordId seen d) :
    d.completed = none ↔ ¬HoldsAll depth recordId seen := by
  constructor
  · rintro hopen ⟨parts, hpos, hall⟩
    have hget : ∀ n < parts, ∃ x, (n, x) ∈ d.selected ∧ x.1.parts = parts := by
      intro n hn
      obtain ⟨raw, hraw, x, hx, rfl, hparts⟩ := hall n hn
      exact ⟨x, h.all hopen raw hraw x hx, hparts⟩
    obtain ⟨x, hx, hparts⟩ := hget 0 hpos
    have hid := h.identity _ hx
    rw [hparts] at hid
    refine h.missing hopen _ hid ?_
    have hkeys : (d.selected.map (·.1)).toFinset = Finset.range parts := by
      refine Finset.ext fun n => ?_
      rw [List.mem_toFinset, Finset.mem_range]
      refine ⟨h.number_lt hid n, fun hn => ?_⟩
      obtain ⟨y, hy, -⟩ := hget n hn
      exact List.mem_map.mpr ⟨_, hy, rfl⟩
    have hcard := List.toFinset_card_of_nodup h.nodup
    rw [hkeys, Finset.card_range, List.length_map] at hcard
    exact hcard.symm
  · intro hnot
    by_contra hdone
    obtain ⟨original, horiginal⟩ := Option.ne_none_iff_exists'.mp hdone
    obtain ⟨identity, hid, hpos, hlen, -⟩ := h.whole original horiginal
    refine hnot ⟨identity.1, hpos, fun n hn => ?_⟩
    have hmem := mem_of_length h.nodup (h.number_lt hid) (by rw [List.length_map, hlen]) hn
    obtain ⟨x, hx, rfl⟩ := List.mem_map.mp hmem
    obtain ⟨raw, hraw, hsource⟩ := h.source x hx
    have hparts : identity = (x.2.1.parts, x.2.1.sha256) :=
      Option.some.inj (hid.symm.trans (h.identity x hx))
    exact ⟨raw, hraw, x.2, hsource, (h.number x hx).symm, by rw [hparts]⟩

/-- an error of a line is not the one of the end -/
theorem step_error {e : ReassemblyError} (h : d.step depth recordId line raw = .error e) :
    e.atEnd = false := by
  unfold Decoder.step at h
  split at h
  · split_ifs at h
    rw [← Except.error.inj h]
  · exact nomatch h
  · split_ifs at h
    unfold Decoder.accept at h
    dsimp only at h
    split_ifs at h
    all_goals rw [← Except.error.inj h]

theorem steps_error {e : ReassemblyError} (h : d.steps depth recordId line A = .error e) :
    e.atEnd = false := by
  induction A generalizing d line with
  | nil => exact nomatch h
  | cons raw A ih =>
    cases hstep : d.step depth recordId line raw with
    | error e' =>
      rw [Decoder.steps, hstep] at h
      obtain rfl : e' = e := Except.error.inj h
      exact step_error hstep
    | ok d1 =>
      rw [Decoder.steps, hstep] at h
      exact ih h

end

/-! ## the outcome -/

section
variable {A B : List Bytes} {d : Decoder}

theorem decodeMessages_of_not_isId (hid : ¬isId recordId = true) :
    ∃ message, decodeMessages depth A recordId = .error (.value message) := by
  refine ⟨"An explicit lowercase 32-hex record ID is required", ?_⟩
  rw [decodeMessages, requireId, if_neg hid]

theorem decodeMessages_of_error (hid : isId recordId = true) {e : ReassemblyError}
    (h : Decoder.initial.steps depth recordId 1 A = .error e) :
    decodeMessages depth A recordId = .error (.reassembly e) := by
  rw [decodeMessages, requireId, if_pos hid, h]

theorem decodeMessages_of_open (hid : isId recordId = true)
    (h : Decoder.initial.steps depth recordId 1 A = .ok d) (hopen : d.completed = none) :
    decodeMessages depth A recordId =
      .error (.reassembly ⟨A.length, "Selected record is missing or incomplete", true⟩) := by
  rw [decodeMessages, requireId, if_pos hid, h]
  dsimp only
  rw [hopen]

theorem decodeMessages_of_completed (hid : isId recordId = true)
    (h : Decoder.initial.steps depth recordId 1 A = .ok d) {original : Bytes}
    (hdone : d.completed = some original) :
    decodeMessages depth A recordId = .ok (original, d.warnings) := by
  rw [decodeMessages, requireId, if_pos hid, h]
  dsimp only
  rw [hdone]

/-- what is returned does not change any more -/
theorem decodeMessages_ok (B : List Bytes) {original : Bytes} {warnings : List ReassemblyWarning}
    (h : decodeMessages depth A recordId = .ok (original, warnings)) :
    (∃ more, decodeMessages depth (A ++ B) recordId = .ok (original, warnings ++ more)) ∧
    ∃ d, Decoder.initial.steps depth recordId 1 A = .ok d ∧ d.completed = some original ∧
      ∀ x ∈ d.selected, x.2.1.sha256 = (Sha256.hexdigest original).map Char.toNat := by
  by_cases hid : isId recordId = true
  · cases hsteps : Decoder.initial.steps depth recordId 1 A with
    | error e => exact absurd ((decodeMessages_of_error hid hsteps).symm.trans h) (by simp)
    | ok d =>
      cases hd : d.completed with
      | none => exact absurd ((decodeMessages_of_open hid hsteps hd).symm.trans h) (by simp)
      | some original' =>
        have heq := Except.ok.inj ((decodeMessages_of_completed hid hsteps hd).symm.trans h)
        obtain ⟨rfl, rfl⟩ := Prod.mk.inj heq
        have hgathered : Gathered depth recordId A d := gathered_initial.steps hsteps
        refine ⟨?_, d, rfl, hd, fun x hx => ?_⟩
        · obtain ⟨more, hmore⟩ := @steps_completed depth recordId d (1 + A.length) B original' hd
          refine ⟨more, ?_⟩
          have happ : Decoder.initial.steps depth recordId 1 (A ++ B) =
              .ok { d with warnings := d.warnings ++ more } := by
            rw [steps_append, hsteps]
            exact hmore
          exact decodeMessages_of_completed hid happ hd
        · obtain ⟨identity, hidentity, -, -, hsha⟩ := hgathered.whole original' hd
          have hparts : identity = (x.2.1.parts, x.2.1.sha256) :=
            Option.some.inj (hidentity.symm.trans (hgathered.identity x hx))
          rw [hsha, hparts]
  · obtain ⟨message, hm⟩ := @decodeMessages_of_not_isId depth recordId A hid
    exact absurd (hm.symm.trans h) (by simp)

/-- the error of a line stays -/
theorem decodeMessages_line_error (B : List Bytes) {e : ReassemblyError}
    (h : decodeMessages depth A recordId = .error (.reassembly e)) (hline : e.atEnd = false) :
    decodeMessages depth (A ++ B) recordId = .error (.reassembly e) := by
  by_cases hid : isId recordId = true
  · cases hsteps : Decoder.initial.steps depth recordId 1 A with
    | error e' =>
      have heq := (decodeMessages_of_error hid hsteps).symm.trans h
      obtain rfl : e' = e := DecodeError.reassembly.inj (Except.error.inj heq)
      refine decodeMessages_of_error hid ?_
      rw [steps_append, hsteps]
      rfl
    | ok d =>
      cases hd : d.completed with
      | none =>
        have heq := (decodeMessages_of_open hid hsteps hd).symm.trans h
        obtain rfl := DecodeError.reassembly.inj (Except.error.inj heq)
        exact absurd hline (by simp)
      | some original => exact absurd ((decodeMessages_of_completed hid hsteps hd).symm.trans h) (by simp)
  · obtain ⟨message, hm⟩ := @decodeMessages_of_not_isId depth recordId A hid
    exact absurd (hm.symm.trans h) (by simp)

/-- the error of the end, for a record that no line has refused -/
theorem decodeMessages_end_error (depth : Nat) (A : List Bytes) (recordId : String) :
    (∃ e, decodeMessages depth A recordId = .error (.reassembly e) ∧ e.atEnd = true) ↔
      isId recordId = true ∧
      (∀ e, decodeMessages depth A recordId = .error (.reassembly e) → ¬e.atEnd = false) ∧
      ∀ P, P <+: A → ¬HoldsAll depth recordId P := by
  by_cases hid : isId recordId = true
  · cases hsteps : Decoder.initial.steps depth recordId 1 A with
    | error e =>
      have heq := decodeMessages_of_error hid hsteps
      have hfalse := steps_error hsteps
      constructor
      · rintro ⟨e', he', hend⟩
        obtain rfl := DecodeError.reassembly.inj (Except.error.inj (heq.symm.trans he'))
        exact absurd (hfalse.symm.trans hend) (by simp)
      · exact fun h => absurd hfalse (h.2.1 e heq)
    | ok d =>
      have hgathered : Gathered depth recordId A d := gathered_initial.steps hsteps
      constructor
      · rintro ⟨e, he, hend⟩
        refine ⟨hid, fun e' he' hfalse => ?_, fun P hP hholds => ?_⟩
        · obtain rfl := DecodeError.reassembly.inj (Except.error.inj (he.symm.trans he'))
          exact absurd (hfalse.symm.trans hend) (by simp)
        · cases hd : d.completed with
          | none => exact hgathered.completed_iff.mp hd (hholds.mono fun raw hraw => hP.subset hraw)
          | some original =>
            exact absurd ((decodeMessages_of_completed hid hsteps hd).symm.trans he) (by simp)
      · rintro ⟨-, -, hnone⟩
        have hopen := hgathered.completed_iff.mpr (hnone A (List.prefix_refl A))
        exact ⟨_, decodeMessages_of_open hid hsteps hopen, rfl⟩
  · obtain ⟨message, hm⟩ := @decodeMessages_of_not_isId depth recordId A hid
    constructor
    · rintro ⟨e, he, -⟩
      exact absurd (hm.symm.trans he) (by simp)
    · exact fun h => absurd h.1 hid

end

/-- **The first complete set is frozen.**  A record that is returned is returned whatever follows, with the
digest that all its parts name; the error of a line stays; the archive ends without the record exactly when
no line has failed and no prefix holds all parts. -/
theorem decodeMessages_frozen (depth : Nat) (A B : List Bytes) (recordId : String) :
    (∀ original warnings, decodeMessages depth A recordId = .ok (original, warnings) →
      (∃ more, decodeMessages depth (A ++ B) recordId = .ok (original, warnings ++ more)) ∧
      ∃ d, Decoder.initial.steps depth recordId 1 A = .ok d ∧ d.completed = some original ∧
        ∀ x ∈ d.selected, x.2.1.sha256 = (Sha256.hexdigest original).map Char.toNat) ∧
    (∀ e, decodeMessages depth A recordId = .error (.reassembly e) → e.atEnd = false →
      decodeMessages depth (A ++ B) recordId = .error (.reassembly e)) ∧
    ((∃ e, decodeMessages depth A recordId = .error (.reassembly e) ∧ e.atEnd = true) ↔
      isId recordId = true ∧
      (∀ e, decodeMessages depth A recordId = .error (.reassembly e) → ¬e.atEnd = false) ∧
      ∀ P, P <+: A → ¬HoldsAll depth recordId P) :=
  ⟨fun _ _ h => decodeMessages_ok B h, fun _ h hline => decodeMessages_line_error B h hline,
    decodeMessages_end_error depth A recordId⟩

/-- an empty line is an error of its own, and no prefix holds the parts either -/
theorem decodeMessages_empty_line :
    ¬((∃ e, decodeMessages 900 [[]] "00000000000000000000000000000000" = .error (.reassembly e) ∧
        e.atEnd = true) ↔
      ∀ P : List Bytes, P <+: [[]] → ¬HoldsAll 900 "00000000000000000000000000000000" P) := by
  have hpart : selectedPart 900 [] "00000000000000000000000000000000" =
      .error "Invalid or unattributable MSG JSON" := by
    have hdecode : decodeUtf8 [] = some [] := @decodeUtf8_ascii [] (by simp)
    unfold selectedPart
    rw [hdecode]
    rfl
  have herror : decodeMessages 900 [[]] "00000000000000000000000000000000" =
      .error (.reassembly ⟨1, "Invalid or unattributable MSG JSON", false⟩) := by
    refine decodeMessages_of_error (by decide) ?_
    rw [Decoder.steps, Decoder.step, hpart]
    rfl
  have hnone : ∀ P : List Bytes, P <+: [[]] → ¬HoldsAll 900 "00000000000000000000000000000000" P := by
    rintro P hP ⟨parts, hpos, hall⟩
    obtain ⟨raw, hraw, x, hx, -⟩ := hall 0 hpos
    obtain rfl := List.mem_singleton.mp (hP.subset hraw)
    exact absurd (hpart.symm.trans hx) (by simp)
  intro h
  obtain ⟨e, he, hend⟩ := h.mpr hnone
  obtain rfl := DecodeError.reassembly.inj (Except.error.inj (herror.symm.trans he))
  exact absurd hend (by simp)

end Netops.Syslog

import Netops.Lib.Needles
import Netops.Triage.Verdict

/-!
# What a clean verdict says

* `Read`             what the triage has read, with the texts it comes from;
* `Sound`            what a clean verdict is to mean;
* `Agreeing`         rows of one member, or counts of one side, do not differ;
* `rows_of_parse`    the members of the parsed state are the rows of the text;
* `sound_iff_agreeing`.
-/

namespace Netops.TriageSlb

open Regex Patterns
open Netops.Fortios (Text isSpace)

variable {py : Python}

/-! ## the beginning of a line -/

theorem spells_lit {s x : Text} (h : Spells (s.map fun d c => decide (c = d)) x) : x = s := by
  induction s generalizing x with
  | nil =>
    cases h
    rfl
  | cons d s ih =>
    cases h with
    | cons hd h => rw [of_decide_eq_true hd, ih h]

/-- a line with such groups starts with the first of them -/
theorem starts_of_groups {s : String} {rs : List (Regex Char)} {line : Text} {found : List Text}
    (h : groups (lit s :: rs) line = some found) : s.toList <+: line := by
  obtain ⟨d, hd, -⟩ := List.exists_of_findSome?_eq_some h
  obtain ⟨x, hx, hp⟩ := (run_word (c := (none, line))).1 (List.ne_nil_of_mem hd)
  rw [← spells_lit hx]
  exact hp

/-- two texts that start a line do not differ -/
theorem starts_both {s t line : Text} (hs : s <+: line) (ht : t <+: line) : s <+: t ∨ t <+: s := by
  rcases Nat.le_total s.length t.length with h | h
  · exact .inl (List.prefix_of_prefix_length_le hs ht h)
  · exact .inr (List.prefix_of_prefix_length_le ht hs h)

theorem starts_memberStatLine {line : Text} {x : Text × Text × Text} (h : memberStatLine line = some x) :
    "\t\tid:".toList <+: line := by
  rw [memberStatLine] at h
  split at h
  · next hg => exact starts_of_groups hg
  · exact nomatch h

theorem starts_vdomLine {line : Text} {x : Text} (h : vdomLine line = some x) :
    "vdom name is".toList <+: line := by
  rw [vdomLine] at h
  split at h
  · next hg => exact starts_of_groups hg
  · exact nomatch h

theorem starts_vsStatLine {line : Text} {x : Text × Text} (h : vsStatLine line = some x) :
    "\tvirtual-server: ".toList <+: line := by
  rw [vsStatLine] at h
  split at h
  · next hg => exact starts_of_groups hg
  · exact nomatch h

theorem starts_poolLine {line : Text} {x : Text} (h : poolLine line = some x) :
    "\t\treal-server-pool: ".toList <+: line := by
  rw [poolLine] at h
  split at h
  · next hg => exact starts_of_groups hg
  · exact nomatch h

/-- a line that starts in another way is no row -/
theorem memberStatLine_none {s line : Text} (h : s <+: line)
    (hs : ¬(s <+: "\t\tid:".toList ∨ "\t\tid:".toList <+: s)) : memberStatLine line = none := by
  cases hm : memberStatLine line with
  | none => rfl
  | some x => exact absurd (starts_both h (starts_memberStatLine hm)) hs

/-! ## the rows of the members -/

variable (py) in
/-- the row of a member, as it stands in the text -/
def rowOf (line : Text) : Option (Nat × Text) :=
  match memberStatLine line with
  | some (id, state, _) => (py.value id).map fun n => (n, state)
  | none => none

variable (py) in
def statRows (text : Text) : List (Nat × Text) := (answerLines text).filterMap (rowOf py)

/-- the rows that are parsed so far -/
def VsStat.rows (s : VsStat) : List (Nat × Text) :=
  (s.pools.flatMap StatPool.members).map fun m => (m.id, m.hcState)

theorem rowOf_none {line : Text} (h : memberStatLine line = none) : rowOf py line = none := by
  rw [rowOf, h]

theorem number_ok {t : Text} {n : Nat} (h : py.number t = .ok n) : py.value t = some n := by
  rw [Python.number] at h
  split at h
  · next hv => rw [hv, Except.ok.inj h]
  · cases h

theorem map_ok {α β : Type} {x : Except Failure α} {f : α → β} {b : β} (h : x.map f = .ok b) :
    ∃ a, x = .ok a ∧ f a = b := by
  cases x with
  | error e => exact nomatch h
  | ok a => exact ⟨a, rfl, Except.ok.inj h⟩

theorem rows_add {pools : List StatPool} (h : pools ≠ []) (m : MemberStat) :
    (onLast (StatPool.add m) pools).flatMap StatPool.members = pools.flatMap StatPool.members ++ [m] := by
  obtain ⟨ps, p, rfl⟩ := (List.eq_nil_or_concat' pools).resolve_left h
  rw [onLast_append, List.flatMap_append, List.flatMap_append, List.append_assoc]
  simp [StatPool.add]

/-- counters do not change the rows -/
theorem rows_count (s : VsStat) (name : Text) (value : Int) : (s.count name value).rows = s.rows := by
  rw [VsStat.count]
  split
  · rfl
  · rfl
  · rcases List.eq_nil_or_concat' s.pools with hp | ⟨ps, p, hp⟩
    · rw [VsStat.rows, VsStat.rows, hp]
      rfl
    · rw [VsStat.rows, VsStat.rows, hp, onLast_append]
      rcases List.eq_nil_or_concat' p.members with hm | ⟨ms, m, hm⟩
      · simp [StatPool.count, hm, onLast]
      · simp [StatPool.count, hm, onLast_append, MemberStat.count]

/-- a line adds its row, if it is one -/
theorem rows_step {virtualServer line : Text} {s s' : VsStat} (h : s.step py virtualServer line = .ok s') :
    s'.rows = s.rows ++ (rowOf py line).toList := by
  rw [VsStat.step] at h
  cases hvs : vsStatLine line with
  | some x =>
    rw [rowOf_none (memberStatLine_none (starts_vsStatLine hvs) (by decide)), Option.toList_none, List.append_nil]
    rw [hvs] at h
    dsimp only at h
    split_ifs at h with hbad
    rw [← Except.ok.inj h]
    rfl
  | none =>
    rw [hvs] at h
    dsimp only at h
    by_cases havail : s.availability.isNone = true
    · rw [if_pos havail] at h
      exact nomatch h
    rw [if_neg havail] at h
    cases hpool : poolLine line with
    | some name =>
      rw [rowOf_none (memberStatLine_none (starts_poolLine hpool) (by decide)), Option.toList_none,
        List.append_nil]
      rw [hpool] at h
      rw [← Except.ok.inj h, VsStat.rows, VsStat.rows, List.flatMap_append]
      simp
    | none =>
      rw [hpool] at h
      dsimp only at h
      cases hrow : memberStatLine line with
      | some x =>
        obtain ⟨id, state, change⟩ := x
        rw [hrow] at h
        dsimp only at h
        split_ifs at h with hbad
        obtain ⟨n, hn, rfl⟩ := map_ok h
        have hne : s.pools ≠ [] := fun hp => hbad (.inl hp)
        rw [VsStat.rows, rows_add hne, List.map_append, rowOf, hrow]
        dsimp only
        rw [number_ok hn]
        rfl
      | none =>
        rw [rowOf_none hrow, Option.toList_none, List.append_nil]
        rw [hrow] at h
        dsimp only at h
        cases hcount : counterOf s.owner line with
        | none => rw [hcount] at h; exact nomatch h
        | some x =>
          rw [hcount] at h
          dsimp only at h
          split_ifs at h with howner
          obtain ⟨v, -, rfl⟩ := map_ok h
          exact rows_count s x.1 v

theorem rows_run {virtualServer : Text} : ∀ {lines : List Text} {s s' : VsStat},
    s.run py virtualServer lines = .ok s' → s'.rows = s.rows ++ lines.filterMap (rowOf py) := by
  intro lines
  induction lines with
  | nil =>
    intro s s' h
    rw [← Except.ok.inj h, List.filterMap_nil, List.append_nil]
  | cons line lines ih =>
    intro s s' h
    rw [VsStat.run] at h
    split at h
    · exact nomatch h
    · next t ht =>
      rw [ih h, rows_step ht, List.append_assoc]
      congr 1
      cases hr : rowOf py line with
      | none => rw [List.filterMap_cons_none hr]; rfl
      | some x => rw [List.filterMap_cons_some hr]; rfl

/-- the members of the parsed state are the rows of the text -/
theorem rows_of_parse {text virtualServer vdom : Text} {s : VsStat}
    (h : parseVsStat py text virtualServer vdom = .ok s) : s.rows = statRows py text := by
  rw [parseVsStat, linesOf] at h
  rw [statRows]
  cases hl : answerLines text with
  | nil => rw [hl] at h; exact nomatch h
  | cons first rest =>
    rw [hl] at h
    dsimp only at h
    split_ifs at h with hvdom
    have hfirst : rowOf py first = none :=
      rowOf_none (memberStatLine_none (starts_vdomLine (not_not.1 hvdom)) (by decide))
    rw [List.filterMap_cons_none hfirst]
    split at h
    · exact nomatch h
    · next t ht =>
      split_ifs at h
      rw [← Except.ok.inj h, rows_run ht]
      rfl

/-! ## the handshakes that failed -/

variable (py) in
/-- a line on handshakes that failed adds its number to those of its side -/
def failuresStep (gs : List (List Nat)) (line : Text) : List (List Nat) :=
  if (tlsServerLine line).isSome ∨ line = tlsClient then gs ++ [[]]
  else
    match tlsFailLine line with
    | some count => onLast (· ++ (py.value count).toList) gs
    | none => gs

variable (py) in
/-- the numbers of handshakes that failed, side by side -/
def failures (text : Text) : List (List Nat) := (answerLines text).foldl (failuresStep py) []

theorem starts_tlsFailLine {line count : Text} (h : tlsFailLine line = some count) :
    "\t# of failed HANDSHAKEs: ".toList <+: line := by
  rw [tlsFailLine] at h
  split at h
  · next hg => exact starts_of_groups hg
  · exact nomatch h

theorem starts_tlsOkLine {line count : Text} (h : tlsOkLine line = some count) :
    "\t# of succeeded HANDSHAKEs: ".toList <+: line := by
  rw [tlsOkLine] at h
  split at h
  · next hg => exact starts_of_groups hg
  · exact nomatch h

theorem tlsFailLine_none {line count : Text} (h : tlsOkLine line = some count) : tlsFailLine line = none := by
  cases hf : tlsFailLine line with
  | none => rfl
  | some x => exact absurd (starts_both (starts_tlsOkLine h) (starts_tlsFailLine hf)) (by decide)

/-- the last number of each side is the one that counts -/
def Counted (sides : List Side) (gs : List (List Nat)) : Prop := sides.map Side.failed = gs.map List.getLast?

theorem Counted.open {sides : List Side} {gs : List (List Nat)} (h : Counted sides gs) (server : Option Nat) :
    Counted (sides ++ [{ server := server }]) (gs ++ [[]]) := by
  rw [Counted, List.map_append, List.map_append, h]
  rfl

theorem Counted.succeeded {sides : List Side} {gs : List (List Nat)} (h : Counted sides gs) (n : Nat) :
    Counted (onLast (fun s => { s with succeeded := some n }) sides) gs := by
  rcases List.eq_nil_or_concat' sides with rfl | ⟨ss, s, rfl⟩
  · exact h
  · rw [Counted, ← h, onLast_append, List.map_append, List.map_append]
    rfl

theorem Counted.failed {sides : List Side} {gs : List (List Nat)} (h : Counted sides gs) (n : Nat) :
    Counted (onLast (fun s => { s with failed := some n }) sides) (onLast (· ++ [n]) gs) := by
  rcases List.eq_nil_or_concat' sides with rfl | ⟨ss, s, rfl⟩
  · obtain rfl := List.map_eq_nil_iff.1 h.symm
    rfl
  · rcases List.eq_nil_or_concat' gs with rfl | ⟨hs, g, rfl⟩
    · exact absurd (List.map_eq_nil_iff.1 h) (by simp)
    · rw [Counted, List.map_append, List.map_append] at h
      obtain ⟨hinit, -⟩ := List.append_inj' h rfl
      rw [onLast_append, onLast_append, Counted, List.map_append, List.map_append, hinit]
      simp

theorem Counted.step {sides sides' : List Side} {gs : List (List Nat)} (h : Counted sides gs) {line : Text}
    (hstep : sidesStep py sides line = .ok sides') : Counted sides' (failuresStep py gs line) := by
  rw [sidesStep] at hstep
  rw [failuresStep]
  cases hserver : tlsServerLine line with
  | some id =>
    rw [hserver] at hstep
    obtain ⟨n, -, rfl⟩ := map_ok hstep
    rw [if_pos (.inl rfl)]
    exact h.open (some n)
  | none =>
    rw [hserver] at hstep
    dsimp only at hstep
    by_cases hclient : line = tlsClient
    · rw [if_pos hclient] at hstep
      rw [if_pos (.inr hclient), ← Except.ok.inj hstep]
      exact h.open none
    · rw [if_neg hclient] at hstep
      rw [if_neg (by simp [hclient])]
      by_cases hbad : sides = [] ∨ line.head? ≠ some '\t'
      · rw [if_pos hbad] at hstep
        exact nomatch hstep
      · rw [if_neg hbad] at hstep
        cases hok : tlsOkLine line with
        | some count =>
          rw [hok] at hstep
          obtain ⟨n, -, rfl⟩ := map_ok hstep
          rw [tlsFailLine_none hok]
          exact h.succeeded n
        | none =>
          rw [hok] at hstep
          cases hfail : tlsFailLine line with
          | some count =>
            rw [hfail] at hstep
            obtain ⟨n, hn, rfl⟩ := map_ok hstep
            dsimp only
            rw [number_ok hn]
            exact h.failed n
          | none =>
            rw [hfail] at hstep
            rw [← Except.ok.inj hstep]
            exact h

theorem Counted.run {lines : List Text} : ∀ {sides sides' : List Side} {gs : List (List Nat)}, Counted sides gs →
    sidesRun py sides lines = .ok sides' → Counted sides' (lines.foldl (failuresStep py) gs) := by
  induction lines with
  | nil =>
    intro sides sides' gs h hrun
    rw [← Except.ok.inj hrun]
    exact h
  | cons line lines ih =>
    intro sides sides' gs h hrun
    rw [sidesRun] at hrun
    split at hrun
    · exact nomatch hrun
    · next t ht => exact ih (h.step ht) hrun

/-- every side that is parsed has the last of its numbers -/
theorem counted_of_parse {text : Text} {sides : List Side} (h : parseTlsStats py text = .ok sides) :
    Counted sides (failures py text) ∧ ∀ s ∈ sides, s.failed.isSome = true := by
  rw [parseTlsStats, linesOf] at h
  rw [failures]
  cases hl : answerLines text with
  | nil => rw [hl] at h; exact nomatch h
  | cons first rest =>
    rw [hl] at h
    dsimp only at h
    split at h
    · exact nomatch h
    · next t ht =>
      split_ifs at h with hbad
      obtain rfl := Except.ok.inj h
      have hstart : Counted [] [] := rfl
      refine ⟨hstart.run ht, fun s hs => ?_⟩
      by_contra hnone
      refine hbad (.inr (List.any_eq_true.2 ⟨s, hs, ?_⟩))
      simp only [Bool.or_eq_true, Option.isNone_iff_eq_none]
      exact .inr (Option.not_isSome_iff_eq_none.1 hnone)

/-! ## the steps -/

theorem bind_some {α β : Type} {x : Logged α} {f : α → Logged β} {b : β} {l : Log}
    (h : (x >>= f) = some (b, l)) : ∃ a l₁ l₂, x = some (a, l₁) ∧ f a = some (b, l₂) ∧ l = l₁.append l₂ := by
  cases hx : x with
  | none =>
    rw [hx] at h
    cases h
  | some y =>
    obtain ⟨a, l₁⟩ := y
    rw [hx] at h
    dsimp only [bind] at h
    cases hf : f a with
    | none =>
      rw [hf] at h
      cases h
    | some z =>
      obtain ⟨c, l₂⟩ := z
      rw [hf] at h
      obtain ⟨rfl, rfl⟩ := Prod.mk.inj (Option.some.inj h)
      exact ⟨a, l₁, l₂, rfl, hf, rfl⟩

theorem missing_append {l m : Log} (h : (l.append m).missing = []) : l.missing = [] ∧ m.missing = [] :=
  List.append_eq_nil_iff.1 h

theorem bind_clean {α β : Type} {x : Logged α} {f : α → Logged β} {b : β} {l : Log}
    (h : (x >>= f) = some (b, l)) (hm : l.missing = []) :
    ∃ a l₁ l₂, x = some (a, l₁) ∧ l₁.missing = [] ∧ f a = some (b, l₂) ∧ l₂.missing = [] := by
  obtain ⟨a, l₁, l₂, hx, hf, rfl⟩ := bind_some h
  obtain ⟨hm₁, hm₂⟩ := missing_append hm
  exact ⟨a, l₁, l₂, hx, hm₁, hf, hm₂⟩

/-- where nothing is missing, the steps that were asked were read -/
def Balanced {α : Type} (x : Logged α) : Prop :=
  ∀ a l, x = some (a, l) → l.missing = [] → l.asked = l.executed

theorem Balanced.pure {α : Type} (a : α) : Balanced (pure a : Logged α) := by
  intro b l h _
  obtain ⟨-, rfl⟩ := Prod.mk.inj (Option.some.inj h)
  rfl

theorem Balanced.bind {α β : Type} {x : Logged α} {f : α → Logged β} (hx : Balanced x) (hf : ∀ a, Balanced (f a)) :
    Balanced (x >>= f) := by
  intro b l h hm
  obtain ⟨a, l₁, l₂, hx', hf', rfl⟩ := bind_some h
  obtain ⟨hm₁, hm₂⟩ := missing_append hm
  rw [Log.append, hx a l₁ hx' hm₁, hf a b l₂ hf' hm₂]

theorem Balanced.miss (step : Step) (reason : Reason) (detail : Option Text) :
    Balanced (miss step reason detail) := by
  intro b l h hm
  obtain ⟨-, rfl⟩ := Prod.mk.inj (Option.some.inj h)
  exact nomatch hm

/-- a step that leaves nothing missing has parsed a whole text -/
theorem parsed_clean {α : Type} {step : Step} {result : Except Failure α} {v : Option α} {l : Log}
    (h : parsed step result = some (v, l)) (hm : l.missing = []) :
    ∃ value, result = .ok value ∧ v = some value ∧ l.asked = [step] ∧ l.executed = [step] := by
  unfold parsed at h
  split at h
  · next value =>
    obtain ⟨rfl, rfl⟩ := Prod.mk.inj (Option.some.inj h)
    exact ⟨value, rfl, rfl, rfl, rfl⟩
  · obtain ⟨-, rfl⟩ := Prod.mk.inj (Option.some.inj h)
    exact nomatch hm
  · exact nomatch h

theorem missed_clean {α : Type} {step : Step} {reason : Reason} {detail : Option Text} {v : Option α} {l : Log}
    (h : missed step reason detail = some (v, l)) (hm : l.missing = []) : False := by
  obtain ⟨-, rfl⟩ := Prod.mk.inj (Option.some.inj h)
  exact nomatch hm

theorem configStep_clean {α : Type} {step : Step} {reply : ConfigReply} {parser : Text → Except Failure α}
    {v : Option α} {l : Log} (h : configStep py step reply parser = some (v, l)) (hm : l.missing = []) :
    ∃ output value, reply = .text output true ∧ parser output = .ok value ∧ v = some value ∧
      l.asked = [step] ∧ l.executed = [step] := by
  unfold configStep at h
  split at h
  · exact (missed_clean h hm).elim
  · next output whole =>
    split_ifs at h with hwhole
    · exact (missed_clean h hm).elim
    · obtain ⟨value, hvalue, hrest⟩ := parsed_clean h hm
      have htrue : whole = true := by simpa using hwhole
      exact ⟨output, value, by rw [htrue], hvalue, hrest⟩

theorem queryStep_clean {α : Type} {step : Step} {reply : QueryReply} {parser : Text → Except Failure α}
    {v : Option α} {l : Log} (h : queryStep py step reply parser = some (v, l)) (hm : l.missing = []) :
    ∃ output value, reply = .text output true ∧ parser output = .ok value ∧ v = some value ∧
      l.asked = [step] ∧ l.executed = [step] := by
  unfold queryStep at h
  split at h
  · exact (missed_clean h hm).elim
  · exact (missed_clean h hm).elim
  · next output whole =>
    split_ifs at h with hwhole hempty
    · exact (missed_clean h hm).elim
    · exact (missed_clean h hm).elim
    · obtain ⟨value, hvalue, hrest⟩ := parsed_clean h hm
      have htrue : whole = true := by simpa using hwhole
      exact ⟨output, value, by rw [htrue], hvalue, hrest⟩

theorem Balanced.configStep {α : Type} (step : Step) (reply : ConfigReply) (parser : Text → Except Failure α) :
    Balanced (configStep py step reply parser) := by
  intro v l h hm
  obtain ⟨_, _, -, -, -, hasked, hexecuted⟩ := configStep_clean h hm
  rw [hasked, hexecuted]

theorem Balanced.queryStep {α : Type} (step : Step) (reply : QueryReply) (parser : Text → Except Failure α) :
    Balanced (queryStep py step reply parser) := by
  intro v l h hm
  obtain ⟨_, _, -, -, -, hasked, hexecuted⟩ := queryStep_clean h hm
  rw [hasked, hexecuted]

variable {answers : Answers}

theorem Balanced.readPool (vs : Option VirtualServer) : Balanced (readPool py answers vs) := by
  unfold TriageSlb.readPool
  split
  · exact (Balanced.miss _ _ _).bind fun _ => .pure _
  · split
    · exact (Balanced.miss _ _ _).bind fun _ => .pure _
    · split
      · exact (Balanced.miss _ _ _).bind fun _ => .pure _
      · exact .configStep _ _ _

theorem Balanced.readHealthChecks (enrolled : List Text) : ∀ (names : List Text) (index : Nat),
    Balanced (readHealthChecks py answers enrolled index names) := by
  intro names
  induction names with
  | nil =>
    intro index
    exact .pure _
  | cons name names ih =>
    intro index
    rw [TriageSlb.readHealthChecks]
    split_ifs
    · exact (Balanced.miss _ _ _).bind fun _ => ih _
    · exact (Balanced.miss _ _ _).bind fun _ => ih _
    · exact (Balanced.configStep _ _ _).bind fun _ => (ih _).bind fun _ => .pure _

theorem Balanced.readProfile (step : Step) (family : String) (defaults : Bool) (profile : Option Text) :
    Balanced (readProfile py answers step family defaults profile) := by
  unfold TriageSlb.readProfile
  split
  · exact .pure _
  · split_ifs
    · exact .configStep _ _ _
    · exact (Balanced.miss _ _ _).bind fun _ => .pure _

theorem Balanced.readFor {α : Type} (profile : Option Text) (step : Step) (parser : Text → Except Failure α) :
    Balanced (readFor py answers profile step parser) := by
  unfold TriageSlb.readFor
  split
  · exact .pure _
  · exact .queryStep _ _ _

theorem Balanced.readDos (virtualServer : Text) (profile : Option Text) : ∀ limits : List DosLimit,
    Balanced (readDos py answers virtualServer profile limits) := by
  intro limits
  induction limits with
  | nil => exact .pure _
  | cons limit limits ih => exact (Balanced.readFor _ _ _).bind fun _ => ih.bind fun _ => .pure _

/-! ## what was read -/

variable (py answers) in
/-- what was read, with the texts it comes from -/
structure Read (virtualServer vdom : Text) where
  vsText : Text
  vs : VirtualServer
  vsRead : answers.config ("load-balance virtual-server ".toList ++ virtualServer) true = .text vsText true
  vsParsed : virtualServerConfig vsText virtualServer = .ok vs
  poolName : Text
  poolNamed : vs.pool = some poolName
  poolText : Text
  pool : Pool
  poolRead : answers.config ("load-balance pool ".toList ++ poolName) true = .text poolText true
  poolParsed : poolConfig py poolText poolName = .ok pool
  statText : Text
  stat : VsStat
  statRead : answers.query .slbVsStat = .text statText true
  statParsed : parseVsStat py statText virtualServer vdom = .ok stat
  loadText : Text
  load : Load
  loadRead : answers.query .slbLoad = .text loadText true
  loadParsed : parseSlbLoad py loadText virtualServer = .ok load

variable {virtualServer vdom : Text} {enrolled : List Text}

theorem text_inj {a b : Text} {reply : ConfigReply} (h : reply = .text a true) (h' : reply = .text b true) :
    a = b := by
  rw [h] at h'
  exact (ConfigReply.text.inj h').1

theorem output_inj {a b : Text} {reply : QueryReply} (h : reply = .text a true) (h' : reply = .text b true) :
    a = b := by
  rw [h] at h'
  exact (QueryReply.text.inj h').1

theorem ok_inj {α : Type} {a b : α} {x : Except Failure α} (h : x = .ok a) (h' : x = .ok b) : a = b := by
  rw [h] at h'
  exact Except.ok.inj h'

/-- the answers say what was read -/
theorem Read.eq (r s : Read py answers virtualServer vdom) : r = s := by
  obtain ⟨vsText, vs, h1, h2, poolName, h3, poolText, pool, h4, h5, statText, stat, h6, h7, loadText, load, h8,
    h9⟩ := r
  obtain ⟨vsText', vs', g1, g2, poolName', g3, poolText', pool', g4, g5, statText', stat', g6, g7, loadText',
    load', g8, g9⟩ := s
  obtain rfl := text_inj h1 g1
  obtain rfl := ok_inj h2 g2
  rw [h3] at g3
  obtain rfl := Option.some.inj g3
  obtain rfl := text_inj h4 g4
  obtain rfl := ok_inj h5 g5
  obtain rfl := output_inj h6 g6
  obtain rfl := ok_inj h7 g7
  obtain rfl := output_inj h8 g8
  obtain rfl := ok_inj h9 g9
  rfl

/-- the statistics of the handshakes were not asked, or were read -/
def TlsRead (py : Python) (answers : Answers) (profile : Option Text) (sides : Option (List Side)) : Prop :=
  given profile = none ∧ sides = none ∨ ∃ text found, answers.query .tlsHandshakeStats = .text text true ∧
    parseTlsStats py text = .ok found ∧ sides = some found

theorem tlsRead {profile : Option Text} {sides : Option (List Side)} {l : Log}
    (h : readFor py answers profile .tlsHandshakeStats (parseTlsStats py) = some (sides, l))
    (hm : l.missing = []) : TlsRead py answers profile sides := by
  unfold readFor at h
  split at h
  · next hgiven =>
    obtain ⟨rfl, -⟩ := Prod.mk.inj (Option.some.inj h)
    exact .inl ⟨hgiven, rfl⟩
  · obtain ⟨text, found, htext, hparse, hfound, -⟩ := queryStep_clean h hm
    exact .inr ⟨text, found, htext, hparse, hfound⟩

/-- the pool that is read where nothing is missing -/
theorem readPool_clean {vs : VirtualServer} {pool : Option Pool} {l : Log}
    (h : readPool py answers (some vs) = some (pool, l)) (hm : l.missing = []) :
    ∃ name text value, vs.pool = some name ∧
      answers.config ("load-balance pool ".toList ++ name) true = .text text true ∧
        poolConfig py text name = .ok value ∧ pool = some value := by
  have hmiss : ∀ {reason : Reason} {a : Option Pool} {l : Log},
      (do TriageSlb.miss .poolConfig reason; return none : Logged (Option Pool)) = some (a, l) →
        l.missing = [] → False := by
    intro reason a l h hm
    obtain ⟨_, l₁, l₂, hmiss, -, rfl⟩ := bind_some h
    obtain ⟨-, rfl⟩ := Prod.mk.inj (Option.some.inj hmiss)
    exact nomatch (missing_append hm).1
  unfold readPool at h
  dsimp only at h
  split at h
  · exact (hmiss h hm).elim
  · next name hname =>
    split at h
    · exact (hmiss h hm).elim
    · obtain ⟨text, value, htext, hparse, hvalue, -⟩ := configStep_clean h hm
      exact ⟨name, text, value, hname, htext, hparse, hvalue⟩

/-- where nothing is missing, everything that was asked was read -/
theorem chainOf_clean {c : Chain} {log : Log} (h : chainOf py answers enrolled virtualServer vdom = some (c, log))
    (hm : log.missing = []) :
    ∃ r : Read py answers virtualServer vdom, c.virtualServer = virtualServer ∧ c.vsConfig = some r.vs ∧
      c.vsRuntime = some r.stat ∧ c.poolName = some r.poolName ∧ c.pool = some r.pool ∧ c.load = some r.load ∧
        TlsRead py answers r.vs.clientSslProfile c.tls := by
  obtain ⟨vs, _, _, hvs, hvsm, h1, hm1⟩ := bind_clean h hm
  obtain ⟨vsText, vsValue, hvsText, hvsParsed, rfl, -⟩ := configStep_clean hvs hvsm
  obtain ⟨pool, _, _, hpool, hpoolm, h2, hm2⟩ := bind_clean h1 hm1
  obtain ⟨name, poolText, poolValue, hname, hpoolText, hpoolParsed, rfl⟩ := readPool_clean hpool hpoolm
  obtain ⟨checks, _, _, -, -, h3, hm3⟩ := bind_clean h2 hm2
  obtain ⟨tlsConfig, _, _, -, -, h4, hm4⟩ := bind_clean h3 hm3
  obtain ⟨wafConfig, _, _, -, -, h5, hm5⟩ := bind_clean h4 hm4
  obtain ⟨stat, _, _, hstat, hstatm, h6, hm6⟩ := bind_clean h5 hm5
  obtain ⟨statText, statValue, hstatText, hstatParsed, rfl, -⟩ := queryStep_clean hstat hstatm
  obtain ⟨load, _, _, hload, hloadm, h7, hm7⟩ := bind_clean h6 hm6
  obtain ⟨loadText, loadValue, hloadText, hloadParsed, rfl, -⟩ := queryStep_clean hload hloadm
  obtain ⟨tls, _, _, htls, htlsm, h8, hm8⟩ := bind_clean h7 hm7
  obtain ⟨dos, _, _, -, -, h9, hm9⟩ := bind_clean h8 hm8
  obtain ⟨waf, _, _, -, -, h10, hm10⟩ := bind_clean h9 hm9
  obtain ⟨resources, _, _, -, -, h11, -⟩ := bind_clean h10 hm10
  obtain ⟨rfl, -⟩ := Prod.mk.inj (Option.some.inj h11)
  exact ⟨⟨vsText, vsValue, hvsText, hvsParsed, name, hname, poolText, poolValue, hpoolText, hpoolParsed, statText,
    statValue, hstatText, hstatParsed, loadText, loadValue, hloadText, hloadParsed⟩, rfl, rfl, rfl, hname, rfl,
    rfl, tlsRead htls htlsm⟩

theorem Balanced.chainOf : Balanced (chainOf py answers enrolled virtualServer vdom) :=
  (Balanced.configStep _ _ _).bind fun vs => (Balanced.readPool vs).bind fun _ =>
    (Balanced.readHealthChecks _ _ _).bind fun _ => (Balanced.readProfile _ _ _ _).bind fun _ =>
      (Balanced.readProfile _ _ _ _).bind fun _ => (Balanced.queryStep _ _ _).bind fun _ =>
        (Balanced.queryStep _ _ _).bind fun _ => (Balanced.readFor _ _ _).bind fun _ =>
          (Balanced.readDos _ _ _).bind fun _ => (Balanced.readFor _ _ _).bind fun _ =>
            (Balanced.queryStep _ _ _).bind fun _ => .pure _

/-! ## rules that find nothing -/

/-- no finding is a fault -/
def Faultless (fs : List Finding) : Prop := ∀ f ∈ fs, f.rule.isFault = false

theorem Faultless.left {fs gs : List Finding} (h : Faultless (fs ++ gs)) : Faultless fs :=
  fun f hf => h f (List.mem_append_left _ hf)

theorem Faultless.right {fs gs : List Finding} (h : Faultless (fs ++ gs)) : Faultless gs :=
  fun f hf => h f (List.mem_append_right _ hf)

theorem serverFindings_clean {c : Chain} (h : Faultless (serverFindings c)) :
    (∀ vs, c.vsConfig = some vs → vs.status = enable) ∧
      ∀ s, c.vsRuntime = some s → s.availability = some healthy := by
  constructor
  · intro vs hvs
    by_contra hne
    refine absurd (h.left _ (List.mem_map.2 ⟨vs, List.mem_filter.2 ⟨?_, decide_eq_true hne⟩, rfl⟩)) Bool.noConfusion
    rw [hvs]
    exact List.mem_singleton_self vs
  · intro s hs
    by_contra hne
    refine absurd (h.right _ (List.mem_map.2 ⟨s, List.mem_filter.2 ⟨?_, decide_eq_true hne⟩, rfl⟩)) Bool.noConfusion
    rw [hs]
    exact List.mem_singleton_self s

theorem downFinding_clean {name : Text} {pool : Pool} {measured : List (Nat × MemberStat)} {m : Member}
    (h : Faultless (downFinding name pool measured m)) {s : MemberStat}
    (hs : Dict.get m.id measured = some s) : s.hcState = up := by
  by_contra hne
  rw [downFinding, hs] at h
  dsimp only at h
  rw [if_pos hne] at h
  exact absurd (h _ (List.mem_singleton_self _)) Bool.noConfusion

theorem sameIds_iff {a b : List Nat} : sameIds a b = true ↔ ∀ n, n ∈ a ↔ n ∈ b := by
  rw [sameIds, Bool.and_eq_true, List.all_eq_true, List.all_eq_true]
  constructor
  · rintro ⟨hab, hba⟩ n
    exact ⟨fun hn => List.contains_iff_mem.1 (hab n hn), fun hn => List.contains_iff_mem.1 (hba n hn)⟩
  · intro h
    exact ⟨fun n hn => List.contains_iff_mem.2 ((h n).1 hn), fun n hn => List.contains_iff_mem.2 ((h n).2 hn)⟩

theorem poolFindings_clean {name : Text} {pool : Pool} {pools : List StatPool}
    (h : Faultless (poolFindings name pool pools)) :
    (∃ m ∈ pool.members, m.status = enable) ∧
      (∀ n, n ∈ pool.members.map Member.id ↔ n ∈ Dict.keys (runtimeMembers pools)) ∧
        ∀ m ∈ pool.members, m.status = enable → ∀ s, Dict.get m.id (runtimeMembers pools) = some s →
          s.hcState = up := by
  refine ⟨?_, ?_, fun m hm hstatus s hs => ?_⟩
  · by_contra hnone
    have hempty : pool.members.filter (fun m => decide (m.status = enable)) = [] := by
      refine List.filter_eq_nil_iff.2 fun m hm hstatus => hnone ⟨m, hm, of_decide_eq_true hstatus⟩
    have hall := h.left.right
    rw [if_pos hempty] at hall
    exact absurd (hall _ (List.mem_singleton_self _)) Bool.noConfusion
  · by_contra hne
    have hdiffer : sameIds (pool.members.map Member.id) (Dict.keys (runtimeMembers pools)) = false := by
      rw [Bool.eq_false_iff]
      exact fun hsame => hne (sameIds_iff.1 hsame)
    have hall := h.right
    rw [hdiffer, Bool.not_false, Bool.true_or, if_pos rfl] at hall
    exact absurd (hall _ (List.mem_singleton_self _)) Bool.noConfusion
  · have hdown : Faultless (downFinding name pool (runtimeMembers pools) m) := by
      intro f hf
      refine h.left.left f (List.mem_flatMap.2 ⟨m, List.mem_filter.2 ⟨hm, decide_eq_true hstatus⟩, hf⟩)
    exact downFinding_clean hdown hs

theorem loadFindings_clean {name : Text} {pool : Pool} {load : Load} (h : Faultless (loadFindings name pool load)) :
    ∀ n, (n ∈ load.pools.flatMap fun p => p.members.map LoadMember.id) ↔ n ∈ pool.members.map Member.id := by
  refine sameIds_iff.1 ?_
  by_contra hne
  rw [loadFindings, Bool.eq_false_iff.2 hne, Bool.not_false, Bool.or_true, if_pos rfl] at h
  exact absurd (h _ (List.mem_singleton_self _)) Bool.noConfusion

theorem tlsFindings_clean {name : Text} {sides : List Side} (h : Faultless (tlsFindings name sides)) :
    ∀ s ∈ sides, s.failed.getD 0 = 0 := by
  intro s hs
  by_contra hne
  refine absurd (h _ (List.mem_map.2 ⟨s, List.mem_filter.2 ⟨hs, ?_⟩, rfl⟩)) Bool.noConfusion
  exact decide_eq_true (Nat.pos_of_ne_zero hne)

/-- of the rows of a member the last one is measured -/
theorem get_runtimeMembers (pools : List StatPool) (n : Nat) :
    Dict.get n (runtimeMembers pools)
      = Dict.last n ((pools.flatMap StatPool.members).map fun m => (m.id, m)) := by
  rw [← Dict.get_foldl_set, runtimeMembers, List.foldl_map]

theorem mem_keys_runtimeMembers (s : VsStat) (n : Nat) :
    n ∈ Dict.keys (runtimeMembers s.pools) ↔ ∃ row ∈ s.rows, row.1 = n := by
  constructor
  · intro hn
    obtain ⟨m, hm⟩ := Dict.exists_get hn
    rw [get_runtimeMembers] at hm
    obtain ⟨m', hm', hpair⟩ := List.mem_map.1 (Dict.mem_of_last hm)
    exact ⟨(m'.id, m'.hcState), List.mem_map.2 ⟨m', hm', rfl⟩, (Prod.mk.inj hpair).1⟩
  · rintro ⟨row, hrow, rfl⟩
    obtain ⟨m, hm, rfl⟩ := List.mem_map.1 hrow
    have hsome := Dict.last_isSome (List.mem_map.2 ⟨m, hm, rfl⟩ :
      (m.id, m) ∈ (s.pools.flatMap StatPool.members).map fun m => (m.id, m))
    rw [← get_runtimeMembers] at hsome
    obtain ⟨v, hv⟩ := Option.isSome_iff_exists.1 hsome
    exact Dict.mem_keys (Dict.mem_of_get hv)

/-! ## a clean verdict -/

/-- what a clean verdict is to mean -/
structure Read.Sound (r : Read py answers virtualServer vdom) (log : Log) : Prop where
  enabled : r.vs.status = enable
  healthy : r.stat.availability = some healthy
  someEnabled : ∃ m ∈ r.pool.members, m.status = enable
  /-- every row of an enabled member says that it is up, and there is one -/
  up : ∀ m ∈ r.pool.members, m.status = enable →
    (∀ row ∈ statRows py r.statText, row.1 = m.id → row.2 = up) ∧ ∃ row ∈ statRows py r.statText, row.1 = m.id
  measured : ∀ n, (∃ m ∈ r.pool.members, m.id = n) ↔ ∃ row ∈ statRows py r.statText, row.1 = n
  loaded : ∀ n, (∃ m ∈ r.pool.members, m.id = n) ↔ ∃ p ∈ r.load.pools, ∃ m ∈ p.members, m.id = n
  /-- no side of the handshakes that were read has a number of failures -/
  handshakes : ∀ text, (given r.vs.clientSslProfile).isSome = true →
    answers.query .tlsHandshakeStats = .text text true → ∀ g ∈ failures py text, ∀ n ∈ g, n = 0
  complete : log.missing = [] ∧ log.asked = log.executed

/-- rows of one enabled member say the same, and so do the numbers of one side -/
structure Read.Agreeing (r : Read py answers virtualServer vdom) : Prop where
  rows : ∀ m ∈ r.pool.members, m.status = enable → ∀ a ∈ statRows py r.statText, ∀ b ∈ statRows py r.statText,
    a.1 = m.id → b.1 = m.id → a.2 = b.2
  counts : ∀ text, (given r.vs.clientSslProfile).isSome = true →
    answers.query .tlsHandshakeStats = .text text true → ∀ g ∈ failures py text, ∀ a ∈ g, ∀ b ∈ g, a = b

/-- the last row of an enabled member says that it is up -/
theorem exists_up {r : Read py answers virtualServer vdom}
    (h : Faultless (poolFindings r.poolName r.pool r.stat.pools)) {m : Member} (hm : m ∈ r.pool.members)
    (hstatus : m.status = enable) : ∃ row ∈ statRows py r.statText, row.1 = m.id ∧ row.2 = up := by
  obtain ⟨-, hids, hup⟩ := poolFindings_clean h
  have hkey := (hids m.id).1 (List.mem_map.2 ⟨m, hm, rfl⟩)
  obtain ⟨s, hs⟩ := Dict.exists_get hkey
  have hstate := hup m hm hstatus s hs
  rw [get_runtimeMembers] at hs
  obtain ⟨s', hs', hpair⟩ := List.mem_map.1 (Dict.mem_of_last hs)
  obtain ⟨hid, rfl⟩ := Prod.mk.inj hpair
  refine ⟨(s'.id, s'.hcState), ?_, hid, hstate⟩
  rw [← rows_of_parse r.statParsed]
  exact List.mem_map.2 ⟨s', hs', rfl⟩

/-- the last number of a side is zero -/
theorem last_zero {text : Text} {sides : List Side} (hparse : parseTlsStats py text = .ok sides) {name : Text}
    (h : Faultless (tlsFindings name sides)) {g : List Nat} (hg : g ∈ failures py text) : 0 ∈ g := by
  obtain ⟨hcount, hsome⟩ := counted_of_parse hparse
  have hmem : g.getLast? ∈ sides.map Side.failed := by
    rw [hcount]
    exact List.mem_map.2 ⟨g, hg, rfl⟩
  obtain ⟨s, hs, hfailed⟩ := List.mem_map.1 hmem
  obtain ⟨n, hn⟩ := Option.isSome_iff_exists.1 (hsome s hs)
  have hzero := tlsFindings_clean h s hs
  rw [hn, Option.getD_some] at hzero
  rw [hn, hzero] at hfailed
  exact List.mem_of_getLast? hfailed.symm

theorem evaluate_clean {c : Chain} {r : Read py answers virtualServer vdom} (h : Faultless (evaluate c))
    (hvs : c.vsConfig = some r.vs) (hstat : c.vsRuntime = some r.stat) (hname : c.poolName = some r.poolName)
    (hpool : c.pool = some r.pool) (hload : c.load = some r.load) :
    (r.vs.status = enable ∧ r.stat.availability = some healthy) ∧
      Faultless (poolFindings r.poolName r.pool r.stat.pools) ∧
        Faultless (loadFindings c.virtualServer r.pool r.load) ∧
          ∀ sides, c.tls = some sides → Faultless (tlsFindings c.virtualServer sides) := by
  have hserver := serverFindings_clean h.left.left.left
  have hrest := h.left.left.right
  rw [hpool, hstat, hload, hname] at hrest
  refine ⟨⟨hserver.1 r.vs hvs, hserver.2 r.stat hstat⟩, hrest.left.right, hrest.right, fun sides hsides => ?_⟩
  have htls := h.left.right
  rw [hsides] at htls
  exact htls

/-- where the verdict finds no fault, it is sound exactly where repeated rows and numbers agree -/
theorem sound_iff_agreeing (py : Python) (answers : Answers) (enrolled : List Text) (virtualServer vdom : Text)
    (report : Report) (h : triage py answers enrolled virtualServer vdom = some report)
    (hclean : report.verdict = .noFaultInCheckedData) :
    Nonempty (Read py answers virtualServer vdom) ∧
      ∀ r : Read py answers virtualServer vdom, r.Sound report.log ↔ r.Agreeing := by
  rw [triage] at h
  cases hc : chainOf py answers enrolled virtualServer vdom with
  | none => rw [hc] at h; exact nomatch h
  | some x =>
    obtain ⟨c, log⟩ := x
    rw [hc] at h
    obtain rfl := Option.some.inj h
    dsimp only at hclean ⊢
    rw [verdict] at hclean
    split_ifs at hclean with hincomplete hfault
    have hm : log.missing = [] := by
      by_contra hne
      exact hincomplete (.inl hne)
    have hfaultless : Faultless (evaluate c) := by
      intro f hf
      by_contra hbad
      exact hfault (List.any_eq_true.2 ⟨f, hf, by simpa using hbad⟩)
    obtain ⟨r, hserver, hvs, hstat, hname, hpool, hload, htls⟩ := chainOf_clean hc hm
    obtain ⟨⟨henabled, hhealthy⟩, hpoolF, hloadF, htlsF⟩ := evaluate_clean hfaultless hvs hstat hname hpool hload
    obtain ⟨hsome, hids, -⟩ := poolFindings_clean hpoolF
    refine ⟨⟨r⟩, fun s => ?_⟩
    obtain rfl := Read.eq s r
    have hmeasured : ∀ n, (∃ m ∈ s.pool.members, m.id = n) ↔ ∃ row ∈ statRows py s.statText, row.1 = n := by
      intro n
      rw [← rows_of_parse s.statParsed, ← mem_keys_runtimeMembers, ← hids n, List.mem_map]
    constructor
    · intro hsound
      refine ⟨fun m hm hstatus a ha b hb hia hib => ?_, fun text hgiven htext g hg a ha b hb => ?_⟩
      · rw [(hsound.up m hm hstatus).1 a ha hia, (hsound.up m hm hstatus).1 b hb hib]
      · rw [hsound.handshakes text hgiven htext g hg a ha, hsound.handshakes text hgiven htext g hg b hb]
    · intro hagree
      refine ⟨henabled, hhealthy, hsome, fun m hm hstatus => ?_, hmeasured, fun n => ?_,
        fun text hgiven htext g hg n hn => ?_, hm, Balanced.chainOf c log hc hm⟩
      · -- all rows of the member agree with the last one
        obtain ⟨row, hrow, hid, hup⟩ := exists_up hpoolF hm hstatus
        refine ⟨fun a ha hia => ?_, row, hrow, hid⟩
        rw [hagree.rows m hm hstatus a ha row hrow hia hid, hup]
      · rw [← List.mem_map, ← loadFindings_clean hloadF n, List.mem_flatMap]
        simp only [List.mem_map]
      · rcases htls with ⟨hnone, -⟩ | ⟨text', sides, htext', hparse, hsides⟩
        · rw [hnone] at hgiven
          exact nomatch hgiven
        · obtain rfl := output_inj htext htext'
          exact hagree.counts text hgiven htext g hg n hn 0 (last_zero hparse (htlsF sides hsides) hg)

/-! ## a row that is repeated -/

/-- the characters outside ASCII do not matter here -/
def asciiPython : Python := ⟨fun _ => false, fun _ => none, id⟩

def sampleVs : Text :=
  "config load-balance virtual-server\nedit V\nset status enable\nset load-balance-pool P\nnext\nend".toList

def samplePool : Text :=
  "config load-balance pool\nedit P\nconfig pool_member\nedit 1\nset status enable\nnext\nend\nnext\nend".toList

/-- the rows of one member, state by state -/
def sampleStat (states : List String) : Text :=
  ("vdom name is root\n\tvirtual-server: V, availability:HEALTHY\n\t\treal-server-pool: P"
    ++ String.join (states.map fun s =>
      "\n\t\tid:1, hc_state: " ++ s ++ ", last-state-change-time: 2026-10-30 00:48:28")).toList

def sampleLoad : Text :=
  "vdom name is root\n\tvirtual-server V\n\t\treal-server P\n\t\tid:1, status 1, weight 0".toList

/-- a virtual server with one member -/
def sampleAnswers (states : List String) : Answers where
  config name _ := if name = "load-balance virtual-server V".toList then .text sampleVs true else .text samplePool true
  query step :=
    match step with
    | .slbVsStat => .text (sampleStat states) true
    | .slbLoad => .text sampleLoad true
    | _ => .text "CPU usage: 2%".toList true

/-- the kernel reads a long text faster in parts -/
theorem sampleStat_parts (a b : String) : sampleStat [a, b] =
    "vdom name is root\n\tvirtual-server: V, availability:HEALTHY\n\t\treal-server-pool: P".toList ++
      ("\n\t\tid:1, hc_state: ".toList ++ a.toList ++ ", last-state-change-time: 2026-10-30 00:48:28".toList ++
        ("\n\t\tid:1, hc_state: ".toList ++ b.toList ++
          ", last-state-change-time: 2026-10-30 00:48:28".toList)) := by
  have hjoin : ∀ x y : String, (String.join [x, y]).toList = x.toList ++ y.toList := by
    intro x y
    simp [String.join]
  have hstate : ∀ x y z : String, (x ++ y ++ z).toList = x.toList ++ y.toList ++ z.toList := by
    intro x y z
    simp
  exact String.toList_append.trans (congrArg _ ((hjoin _ _).trans (congrArg₂ _ (hstate _ _ _) (hstate _ _ _))))

/-- the verdict on the sample -/
theorem sample_verdict {a b : String} {verdict : Verdict} {stat : Text} (hstat : sampleStat [a, b] = stat)
    (h : (triage asciiPython { sampleAnswers [a, b] with query := fun step =>
      match step with
      | .slbVsStat => .text stat true
      | .slbLoad => .text sampleLoad true
      | _ => .text "CPU usage: 2%".toList true } [] "V".toList "root".toList).map Report.verdict = some verdict) :
    (triage asciiPython (sampleAnswers [a, b]) [] "V".toList "root".toList).map Report.verdict = some verdict := by
  subst hstat
  exact h

theorem sound_iff_agreeing_twice : ∃ report,
    triage asciiPython (sampleAnswers ["UP", "UP"]) [] "V".toList "root".toList = some report ∧
      report.verdict = .noFaultInCheckedData ∧
        Nonempty (Read asciiPython (sampleAnswers ["UP", "UP"]) "V".toList "root".toList) ∧
          ∀ r : Read asciiPython (sampleAnswers ["UP", "UP"]) "V".toList "root".toList,
            r.Sound report.log ↔ r.Agreeing := by
  have hverdict : (triage asciiPython (sampleAnswers ["UP", "UP"]) [] "V".toList "root".toList).map Report.verdict
      = some .noFaultInCheckedData := sample_verdict (sampleStat_parts "UP" "UP") (by decide +kernel)
  obtain ⟨report, hreport, hclean⟩ := Option.map_eq_some_iff.1 hverdict
  exact ⟨report, hreport, hclean, sound_iff_agreeing _ _ _ _ _ report hreport hclean⟩

/-- the member of the sample is enabled -/
theorem sample_member {states : List String}
    (r : Read asciiPython (sampleAnswers states) "V".toList "root".toList) :
    ∃ m ∈ r.pool.members, m.id = 1 ∧ m.status = enable := by
  have hname : r.vs.pool = some "P".toList := by
    have hparsed := r.vsParsed
    rw [← text_inj (show _ = ConfigReply.text sampleVs true from rfl) r.vsRead] at hparsed
    have hpool : (virtualServerConfig sampleVs "V".toList).toOption.bind VirtualServer.pool = some "P".toList := by
      decide +kernel
    rw [hparsed] at hpool
    exact hpool
  have hP : r.poolName = "P".toList := by
    have hnamed := r.poolNamed
    rw [hname] at hnamed
    exact (Option.some.inj hnamed).symm
  have hparsed := r.poolParsed
  have hread := r.poolRead
  rw [hP] at hparsed hread
  rw [← text_inj (show _ = ConfigReply.text samplePool true from rfl) hread] at hparsed
  have hmembers : (poolConfig asciiPython samplePool "P".toList).toOption.map
      (fun p => p.members.map fun m => (m.id, m.status)) = some [(1, enable)] := by decide +kernel
  rw [hparsed] at hmembers
  have hlist : r.pool.members.map (fun m => (m.id, m.status)) = [(1, enable)] := Option.some.inj hmembers
  have hmem : (1, enable) ∈ r.pool.members.map fun m => (m.id, m.status) := by
    rw [hlist]
    exact List.mem_singleton_self _
  obtain ⟨m, hm, hpair⟩ := List.mem_map.1 hmem
  exact ⟨m, hm, Prod.mk.inj hpair⟩

/-- a member that is down, and then up: the verdict finds no fault -/
theorem clean_not_sound : ∃ report,
    triage asciiPython (sampleAnswers ["DOWN", "UP"]) [] "V".toList "root".toList = some report ∧
      report.verdict = .noFaultInCheckedData ∧
        ¬∃ r : Read asciiPython (sampleAnswers ["DOWN", "UP"]) "V".toList "root".toList, r.Sound report.log := by
  have hverdict : (triage asciiPython (sampleAnswers ["DOWN", "UP"]) [] "V".toList "root".toList).map
      Report.verdict = some .noFaultInCheckedData := sample_verdict (sampleStat_parts "DOWN" "UP") (by decide +kernel)
  obtain ⟨report, hreport, hclean⟩ := Option.map_eq_some_iff.1 hverdict
  refine ⟨report, hreport, hclean, ?_⟩
  rintro ⟨r, hsound⟩
  obtain ⟨m, hm, hid, hstatus⟩ := sample_member r
  have hrow : ((1, "DOWN".toList) : Nat × Text) ∈ statRows asciiPython r.statText := by
    rw [← output_inj (show _ = QueryReply.text (sampleStat ["DOWN", "UP"]) true from rfl) r.statRead]
    rewrite [sampleStat_parts]
    decide +kernel
  have hup := (hsound.up m hm hstatus).1 _ hrow hid.symm
  exact absurd hup (by decide)

end Netops.TriageSlb

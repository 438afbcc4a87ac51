import Mathlib.Data.List.Dedup
import Mathlib.Data.List.Sort
import Mathlib.Data.List.TakeWhile
import Mathlib.Data.String.Basic

/-!
# The life of a finding over the runs of a device (`state.py` of the auditor)

A run stores its findings and, for every rule, whether the rule was evaluated.  A new run is compared
with the last complete run; findings of rules that run skipped are carried over from older runs.

* `lastEvaluated`   the last complete run, its findings and the carried ones;
* `classify`        the state of every fingerprint of the new run and of the runs before it.

A finding that is not there any more is `gone` only if its rule was evaluated.
-/

namespace Netops.Auditor

/-! ## what is stored -/

/-- `RULE_STATES` -/
inductive RuleState where
  | evaluated
  | notEvaluated
  | unsupported
  deriving DecidableEq, Repr

structure RuleStatus where
  status : RuleState
  required : Bool
  deriving DecidableEq, Repr

/-- the statuses of a run: a dictionary from rule to status -/
abbrev Statuses := List (String × RuleStatus)

/-- a row of the table of findings -/
structure Row where
  fingerprint : String
  ruleId : String
  objectKey : String
  severity : String
  deriving DecidableEq, Repr

structure Run where
  id : Nat
  deriving DecidableEq, Repr

/-- what is read of the store; an old store has no statuses -/
structure Store where
  findingsForRun : String → Nat → List Row
  ruleStatusForRun : Option (String → Nat → Statuses)

def storedStatuses (store : Store) (tenant : String) (runId : Nat) : Statuses :=
  match store.ruleStatusForRun with
  | none => []
  | some reader => reader tenant runId

/-! ## complete runs -/

def unevaluatedMarkers : List String :=
  ["fortios.snapshot.incomplete", "exos.snapshot.incomplete", "fortios.scope.vdom-unsupported"]

/-- `evaluation_complete`; of the findings it reads the rules only -/
def evaluationComplete (rules : List String) (statuses : Statuses) : Bool :=
  !rules.any (· ∈ unevaluatedMarkers)
    && !statuses.any fun item => item.2.required && item.2.status ≠ .evaluated

def unevaluatedRules (statuses : Statuses) : List String :=
  (statuses.filter fun item => item.2.status ≠ .evaluated).map Prod.fst

section
variable (store : Store) (tenant : String)

/-- `_carried` -/
def carried : List Run → List String → List Row
  | [], _ => []
  | run :: runs, skipped =>
    if skipped.isEmpty then []
    else
      let findings := store.findingsForRun tenant run.id
      let statuses := storedStatuses store tenant run.id
      if !evaluationComplete (findings.map Row.ruleId) statuses then carried runs skipped
      else
        findings.filter (·.ruleId ∈ skipped)
          ++ carried runs (skipped.filter (· ∈ unevaluatedRules statuses))

def lastEvaluated : List Run → Option Run × List Row
  | [] => (none, [])
  | run :: runs =>
    let findings := store.findingsForRun tenant run.id
    let statuses := storedStatuses store tenant run.id
    if evaluationComplete (findings.map Row.ruleId) statuses then
      (some run, findings ++ carried store tenant runs (unevaluatedRules statuses))
    else lastEvaluated runs

end

/-! ## the classification -/

/-- what is read of a finding of the new run -/
structure Reported where
  fingerprint : String
  ruleId : String
  deriving DecidableEq, Repr

/-- moments are seconds -/
structure Suppression where
  fingerprint : String
  ruleId : String
  author : String
  reason : String
  expires : Int
  deriving DecidableEq, Repr

def Suppression.isActive (suppression : Suppression) (now : Int) : Bool := now < suppression.expires

inductive FindingState where
  | new
  | openKnown
  | suppressed
  deriving DecidableEq, Repr

structure Counts where
  new : Nat
  openKnown : Nat
  suppressed : Nat
  gone : Nat
  deriving DecidableEq, Repr

structure Classification where
  states : List (String × FindingState)
  gone : List Row
  orphanedSuppressions : List Suppression
  expiredSuppressions : List Suppression
  counts : Counts
  notEvaluated : List Row
  deriving DecidableEq, Repr

/-- `_today`, as the sorted list of its elements -/
def today (findings : List Reported) : List String :=
  ((findings.map Reported.fingerprint).dedup).insertionSort (· ≤ ·)

/-- the dictionary of `_gone`: the first entry of a fingerprint stays -/
def goneItems (today : List String) : List Row → List Row → List Row
  | items, [] => items
  | items, entry :: previous =>
    if entry.fingerprint ∈ today ∨ entry.fingerprint ∈ items.map Row.fingerprint then
      goneItems today items previous
    else goneItems today (items ++ [entry]) previous

example (today : List String) (items : List Row) : goneItems today items [] = items := by
  rw [goneItems]

/-- tuples of texts compare from the left -/
def keyLe (a b : List String) : Bool := !(b < a)

/-- `_gone` -/
def absentFindings (previous : List Row) (today : List String) : List Row :=
  (goneItems today [] previous).insertionSort fun a b =>
    keyLe [a.ruleId, a.objectKey, a.fingerprint] [b.ruleId, b.objectKey, b.fingerprint]

/-- `_suppression_key`; the text of a moment is of fixed width and orders as the moment does -/
def suppressionLe (a b : Suppression) : Bool :=
  if a.fingerprint ≠ b.fingerprint then a.fingerprint < b.fingerprint
  else if a.expires ≠ b.expires then a.expires < b.expires
  else keyLe [a.author, a.reason] [b.author, b.reason]

def stateOf (active baseline : List String) (fingerprint : String) : FindingState :=
  if fingerprint ∈ active then .suppressed
  else if fingerprint ∈ baseline then .openKnown
  else .new

def classify (findings : List Reported) (baseline : List String) (suppressions : List Suppression)
    (previous : List Row) (now : Int) (statuses : Statuses) : Classification :=
  let evaluated := evaluationComplete (findings.map Reported.ruleId) statuses
  let skipped := unevaluatedRules statuses
  let today := today findings
  let active := (suppressions.filter (·.isActive now)).map Suppression.fingerprint
  let expired := suppressions.filter (!·.isActive now)
  let orphaned := suppressions.filter fun suppression =>
    evaluated && suppression.fingerprint ∉ today && suppression.ruleId ∉ skipped
  let states := today.map fun fingerprint => (fingerprint, stateOf active baseline fingerprint)
  let count (state : FindingState) : Nat := states.countP (·.2 = state)
  let absent := absentFindings previous today
  let gone := if evaluated then absent.filter (·.ruleId ∉ skipped) else []
  { states := states
    gone := gone
    orphanedSuppressions := orphaned.insertionSort (suppressionLe · ·)
    expiredSuppressions := expired.insertionSort (suppressionLe · ·)
    counts :=
      { new := count .new, openKnown := count .openKnown, suppressed := count .suppressed
        gone := gone.length }
    notEvaluated := if evaluated then absent.filter (·.ruleId ∈ skipped) else absent }

/-! ## what the dictionary of `_gone` holds -/

theorem mem_goneItems (today : List String) (fp : String) (previous : List Row) :
    ∀ items : List Row, fp ∈ (goneItems today items previous).map Row.fingerprint ↔
      fp ∈ items.map Row.fingerprint ∨ (fp ∉ today ∧ fp ∈ previous.map Row.fingerprint) := by
  induction previous with
  | nil => intro items; simp [goneItems]
  | cons entry previous ih =>
    intro items
    rw [goneItems]
    split
    · next h =>
      rw [ih, List.map_cons, List.mem_cons]
      by_cases e : fp = entry.fingerprint
      · subst e; tauto
      · tauto
    · next h =>
      rw [ih, List.map_append, List.map_cons, List.map_cons, List.map_nil, List.mem_append,
        List.mem_singleton, List.mem_cons]
      by_cases e : fp = entry.fingerprint
      · subst e; tauto
      · tauto

theorem nodup_goneItems (today : List String) (previous : List Row) :
    ∀ items : List Row, (items.map Row.fingerprint).Nodup →
      ((goneItems today items previous).map Row.fingerprint).Nodup := by
  induction previous with
  | nil => exact fun items h => h
  | cons entry previous ih =>
    intro items h
    rw [goneItems]
    split
    · exact ih items h
    · next hn =>
      apply ih
      rw [List.map_append, List.map_cons, List.map_nil]
      exact List.Nodup.append h (List.nodup_singleton _)
        (List.disjoint_singleton.2 fun hm => hn (.inr hm))

/-- the dictionary holds entries of the list -/
theorem goneItems_subset (today : List String) (previous : List Row) :
    ∀ items : List Row, ∀ row ∈ goneItems today items previous, row ∈ items ∨ row ∈ previous := by
  induction previous with
  | nil => exact fun items row h => .inl h
  | cons entry previous ih =>
    intro items row h
    rw [goneItems] at h
    split at h
    · rcases ih items row h with h | h
      · exact .inl h
      · exact .inr (List.mem_cons_of_mem _ h)
    · rcases ih _ row h with h | h
      · rcases List.mem_append.1 h with h | h
        · exact .inl h
        · rw [List.mem_singleton.1 h]
          exact .inr (List.mem_cons_self ..)
      · exact .inr (List.mem_cons_of_mem _ h)

theorem absentFindings_perm (previous : List Row) (today : List String) :
    (absentFindings previous today).Perm (goneItems today [] previous) :=
  List.perm_insertionSort ..

theorem mem_absentFindings {previous : List Row} {today : List String} {fp : String} :
    fp ∈ (absentFindings previous today).map Row.fingerprint ↔
      fp ∉ today ∧ fp ∈ previous.map Row.fingerprint := by
  rw [((absentFindings_perm previous today).map Row.fingerprint).mem_iff, mem_goneItems]
  simp

theorem nodup_absentFindings (previous : List Row) (today : List String) :
    ((absentFindings previous today).map Row.fingerprint).Nodup :=
  ((absentFindings_perm previous today).map Row.fingerprint).nodup_iff.2
    (nodup_goneItems today previous [] List.nodup_nil)

theorem absentFindings_subset {previous : List Row} {today : List String} {row : Row}
    (h : row ∈ absentFindings previous today) : row ∈ previous := by
  have h' := (absentFindings_perm previous today).mem_iff.1 h
  simpa using goneItems_subset today previous [] row h'

theorem mem_today {findings : List Reported} {fp : String} :
    fp ∈ today findings ↔ fp ∈ findings.map Reported.fingerprint := by
  rw [today, (List.perm_insertionSort _ _).mem_iff, List.mem_dedup]

theorem nodup_today (findings : List Reported) : (today findings).Nodup :=
  (List.perm_insertionSort _ _).nodup_iff.2 (List.nodup_dedup _)

/-! ## what a history holds -/

section
variable (store : Store) (tenant : String)

/-- the stored run is complete -/
def complete (run : Run) : Bool :=
  evaluationComplete ((store.findingsForRun tenant run.id).map Row.ruleId)
    (storedStatuses store tenant run.id)

/-- the run is complete and does not list the rule as unevaluated -/
def evaluates (rule : String) (run : Run) : Bool :=
  complete store tenant run && rule ∉ unevaluatedRules (storedStatuses store tenant run.id)

/-- the last run that evaluated the rule -/
def lastEvaluating (rule : String) (runs : List Run) : Option Run :=
  runs.find? (evaluates store tenant rule)

/-- the runs after it -/
def runsSince (rule : String) (runs : List Run) : List Run :=
  runs.takeWhile fun run => !evaluates store tenant rule run

/-- a finding of the rule stands in the run -/
def occurs (fp : String) (run : Run) : Prop :=
  fp ∈ (store.findingsForRun tenant run.id).map Row.fingerprint

/-- the finding was there when its rule was last evaluated, or in a complete run after that -/
def Held (rule fp : String) (runs : List Run) : Prop :=
  ∃ run, occurs store tenant fp run ∧ (lastEvaluating store tenant rule runs = some run ∨
    run ∈ runsSince store tenant rule runs ∧ complete store tenant run = true)

variable {store tenant}

theorem evaluates_iff {rule : String} {run : Run} : evaluates store tenant rule run = true ↔
    complete store tenant run = true ∧
      rule ∉ unevaluatedRules (storedStatuses store tenant run.id) := by
  simp [evaluates]

theorem held_cons_of_evaluates {rule fp : String} {run : Run} {runs : List Run}
    (h : evaluates store tenant rule run = true) :
    Held store tenant rule fp (run :: runs) ↔ occurs store tenant fp run := by
  simp [Held, lastEvaluating, runsSince, h]

theorem held_cons_of_not_evaluates {rule fp : String} {run : Run} {runs : List Run}
    (h : evaluates store tenant rule run = false) :
    Held store tenant rule fp (run :: runs) ↔
      (complete store tenant run = true ∧ occurs store tenant fp run) ∨
        Held store tenant rule fp runs := by
  simp only [Held, lastEvaluating, runsSince, List.find?_cons, List.takeWhile_cons, h, Bool.not_false,
    if_true, List.mem_cons]
  constructor
  · rintro ⟨r, ho, h | ⟨rfl | h, hc⟩⟩
    · exact .inr ⟨r, ho, .inl h⟩
    · exact .inl ⟨hc, ho⟩
    · exact .inr ⟨r, ho, .inr ⟨h, hc⟩⟩
  · rintro (⟨hc, ho⟩ | ⟨r, ho, h | ⟨h, hc⟩⟩)
    · exact ⟨run, ho, .inr ⟨.inl rfl, hc⟩⟩
    · exact ⟨r, ho, .inl h⟩
    · exact ⟨r, ho, .inr ⟨.inr h, hc⟩⟩

/-- every stored finding is one of its rule -/
def RuleOf (store : Store) (tenant : String) (rule : String → String) (runs : List Run) : Prop :=
  ∀ run ∈ runs, ∀ row ∈ store.findingsForRun tenant run.id, rule row.fingerprint = row.ruleId

variable {rule : String → String} {runs : List Run}

/-- what is carried over: the skipped rules shrink to those every complete run so far skipped -/
theorem mem_carried (hr : RuleOf store tenant rule runs) (fp : String) :
    ∀ skipped : List String, fp ∈ (carried store tenant runs skipped).map Row.fingerprint ↔
      rule fp ∈ skipped ∧ Held store tenant (rule fp) fp runs := by
  induction runs with
  | nil => simp [carried, Held, lastEvaluating, runsSince]
  | cons run runs ih =>
    have ih := ih fun r hm => hr r (List.mem_cons_of_mem _ hm)
    have hrow := hr run (List.mem_cons_self ..)
    intro skipped
    rw [carried]
    split
    · next he => simp [List.isEmpty_iff.1 he]
    have hcomp : evaluationComplete ((store.findingsForRun tenant run.id).map Row.ruleId)
      (storedStatuses store tenant run.id) = complete store tenant run := rfl
    simp only [hcomp]
    by_cases hc : complete store tenant run = true
    · simp only [hc, Bool.not_true, Bool.false_eq_true, if_false, List.map_append, List.mem_append, ih,
        List.mem_filter, decide_eq_true_eq]
      have hfound : fp ∈ ((store.findingsForRun tenant run.id).filter
          (·.ruleId ∈ skipped)).map Row.fingerprint ↔ rule fp ∈ skipped ∧ occurs store tenant fp run := by
        simp only [List.mem_map, List.mem_filter, decide_eq_true_eq, occurs]
        constructor
        · rintro ⟨row, ⟨hm, hs⟩, rfl⟩
          exact ⟨by rwa [hrow row hm], row, hm, rfl⟩
        · rintro ⟨hs, row, hm, rfl⟩
          exact ⟨row, ⟨hm, by rwa [← hrow row hm]⟩, rfl⟩
      rw [hfound]
      by_cases hu : rule fp ∈ unevaluatedRules (storedStatuses store tenant run.id)
      · rw [held_cons_of_not_evaluates (by simp [evaluates, hu])]
        tauto
      · rw [held_cons_of_evaluates (evaluates_iff.2 ⟨hc, hu⟩)]
        tauto
    · rw [held_cons_of_not_evaluates (by simp [evaluates, hc])]
      simp only [hc, Bool.not_false, if_true, ih]
      tauto

theorem mem_lastEvaluated (hr : RuleOf store tenant rule runs) (fp : String) :
    fp ∈ (lastEvaluated store tenant runs).2.map Row.fingerprint ↔
      Held store tenant (rule fp) fp runs := by
  induction runs with
  | nil => simp [lastEvaluated, Held, lastEvaluating, runsSince]
  | cons run runs ih =>
    have hr' : RuleOf store tenant rule runs := fun r hm => hr r (List.mem_cons_of_mem _ hm)
    rw [lastEvaluated]
    have hcomp : evaluationComplete ((store.findingsForRun tenant run.id).map Row.ruleId)
      (storedStatuses store tenant run.id) = complete store tenant run := rfl
    simp only [hcomp]
    by_cases hc : complete store tenant run = true
    · rw [if_pos hc, List.map_append, List.mem_append, mem_carried hr']
      by_cases hu : rule fp ∈ unevaluatedRules (storedStatuses store tenant run.id)
      · rw [held_cons_of_not_evaluates (by simp [evaluates, hu])]
        simp [occurs, hc, hu]
      · rw [held_cons_of_evaluates (evaluates_iff.2 ⟨hc, hu⟩)]
        simp [occurs, hu]
    · rw [if_neg hc, held_cons_of_not_evaluates (by simp [evaluates, hc]), ih hr']
      simp [hc]

/-- a row of what is compared with is a stored one -/
theorem carried_subset (row : Row) : ∀ (runs : List Run) (skipped : List String),
    row ∈ carried store tenant runs skipped →
      ∃ run ∈ runs, row ∈ store.findingsForRun tenant run.id := by
  intro runs
  induction runs with
  | nil => intro skipped h; simp [carried] at h
  | cons run runs ih =>
    intro skipped h
    simp only [carried] at h
    split at h
    · simp at h
    · split at h
      · obtain ⟨r, hm, hrow⟩ := ih _ h
        exact ⟨r, List.mem_cons_of_mem _ hm, hrow⟩
      · rcases List.mem_append.1 h with h | h
        · exact ⟨run, List.mem_cons_self .., (List.mem_filter.1 h).1⟩
        · obtain ⟨r, hm, hrow⟩ := ih _ h
          exact ⟨r, List.mem_cons_of_mem _ hm, hrow⟩

theorem lastEvaluated_subset (row : Row) : ∀ runs : List Run,
    row ∈ (lastEvaluated store tenant runs).2 →
      ∃ run ∈ runs, row ∈ store.findingsForRun tenant run.id := by
  intro runs
  induction runs with
  | nil => intro h; simp [lastEvaluated] at h
  | cons run runs ih =>
    intro h
    simp only [lastEvaluated] at h
    split at h
    · rcases List.mem_append.1 h with h | h
      · exact ⟨run, List.mem_cons_self .., h⟩
      · obtain ⟨r, hm, hrow⟩ := carried_subset row runs _ h
        exact ⟨r, List.mem_cons_of_mem _ hm, hrow⟩
    · obtain ⟨r, hm, hrow⟩ := ih h
      exact ⟨r, List.mem_cons_of_mem _ hm, hrow⟩

/-- where no complete run holds a finding of a rule it lists as unevaluated, only the run that last
evaluated the rule counts -/
theorem held_iff_lastEvaluating (hr : RuleOf store tenant rule runs)
    (hs : ∀ run ∈ runs, complete store tenant run = true →
      ∀ row ∈ store.findingsForRun tenant run.id,
        row.ruleId ∉ unevaluatedRules (storedStatuses store tenant run.id)) (fp : String) :
    Held store tenant (rule fp) fp runs ↔
      ∃ run, lastEvaluating store tenant (rule fp) runs = some run ∧ occurs store tenant fp run := by
  constructor
  · rintro ⟨run, ho, h | ⟨h, hc⟩⟩
    · exact ⟨run, h, ho⟩
    · have hm : run ∈ runs := (List.takeWhile_prefix _).subset h
      obtain ⟨row, hrow, rfl⟩ := List.mem_map.1 ho
      have hu : rule row.fingerprint ∉ unevaluatedRules (storedStatuses store tenant run.id) := by
        rw [hr run hm row hrow]
        exact hs run hm hc row hrow
      have hn := List.mem_takeWhile_imp h
      rw [evaluates_iff.2 ⟨hc, hu⟩] at hn
      exact nomatch hn
  · rintro ⟨run, h, ho⟩
    exact ⟨run, ho, .inl h⟩

end

/-! ## the states of all fingerprints -/

/-- the fingerprints of a classification -/
def Classification.fingerprints (c : Classification) : List String :=
  c.states.map Prod.fst ++ c.gone.map Row.fingerprint ++ c.notEvaluated.map Row.fingerprint

section
variable (findings : List Reported) (baseline : List String) (suppressions : List Suppression)
  (previous : List Row) (now : Int) (statuses : Statuses)

theorem classify_states :
    (classify findings baseline suppressions previous now statuses).states.map Prod.fst
      = today findings := by
  simp [classify, Function.comp_def]

/-- what is not there any more is gone or not evaluated -/
theorem classify_absent :
    ((classify findings baseline suppressions previous now statuses).gone
      ++ (classify findings baseline suppressions previous now statuses).notEvaluated).Perm
        (absentFindings previous (today findings)) := by
  simp only [classify]
  split
  · have h := List.filter_append_perm
      (fun row : Row => decide (row.ruleId ∉ unevaluatedRules statuses))
      (absentFindings previous (today findings))
    simpa using h
  · simp

/-- every fingerprint of the new run and of the runs it is compared with has one state -/
theorem classify_partition :
    (classify findings baseline suppressions previous now statuses).fingerprints.Nodup ∧
      ∀ fp, fp ∈ (classify findings baseline suppressions previous now statuses).fingerprints ↔
        fp ∈ findings.map Reported.fingerprint ∨ fp ∈ previous.map Row.fingerprint := by
  have hp : (classify findings baseline suppressions previous now statuses).fingerprints.Perm
      (today findings ++ (absentFindings previous (today findings)).map Row.fingerprint) := by
    rw [Classification.fingerprints, List.append_assoc, ← List.map_append, classify_states]
    exact ((classify_absent findings baseline suppressions previous now statuses).map _).append_left _
  constructor
  · rw [hp.nodup_iff]
    refine List.Nodup.append (nodup_today findings) (nodup_absentFindings _ _) ?_
    exact fun fp ht ha => (mem_absentFindings.1 ha).1 ht
  · intro fp
    rw [hp.mem_iff, List.mem_append, mem_absentFindings, ← mem_today]
    tauto

variable {findings baseline suppressions previous now statuses}
variable {rule : String → String} (hrow : ∀ row ∈ previous, rule row.fingerprint = row.ruleId)

include hrow

theorem mem_filter_absent (p : String → Bool) (fp : String) :
    fp ∈ ((absentFindings previous (today findings)).filter fun row => p row.ruleId).map
        Row.fingerprint ↔
      p (rule fp) = true ∧ fp ∉ findings.map Reported.fingerprint ∧
        fp ∈ previous.map Row.fingerprint := by
  rw [← mem_today, ← mem_absentFindings]
  constructor
  · intro h
    obtain ⟨row, hm, rfl⟩ := List.mem_map.1 h
    obtain ⟨hm, hp⟩ := List.mem_filter.1 hm
    exact ⟨by rwa [hrow row (absentFindings_subset hm)], List.mem_map_of_mem hm⟩
  · rintro ⟨hp, h⟩
    obtain ⟨row, hm, rfl⟩ := List.mem_map.1 h
    rw [hrow row (absentFindings_subset hm)] at hp
    exact List.mem_map.2 ⟨row, List.mem_filter.2 ⟨hm, hp⟩, rfl⟩

theorem mem_gone (fp : String) :
    fp ∈ (classify findings baseline suppressions previous now statuses).gone.map Row.fingerprint ↔
      (evaluationComplete (findings.map Reported.ruleId) statuses = true ∧
        rule fp ∉ unevaluatedRules statuses) ∧
      fp ∉ findings.map Reported.fingerprint ∧ fp ∈ previous.map Row.fingerprint := by
  simp only [classify]
  split
  · next h =>
    rw [mem_filter_absent hrow (fun r => decide (r ∉ unevaluatedRules statuses))]
    simp [h]
  · next h => simp [h]

theorem mem_notEvaluated (fp : String) :
    fp ∈ (classify findings baseline suppressions previous now statuses).notEvaluated.map
        Row.fingerprint ↔
      ¬(evaluationComplete (findings.map Reported.ruleId) statuses = true ∧
        rule fp ∉ unevaluatedRules statuses) ∧
      fp ∉ findings.map Reported.fingerprint ∧ fp ∈ previous.map Row.fingerprint := by
  simp only [classify]
  split
  · next h =>
    rw [mem_filter_absent hrow (fun r => decide (r ∈ unevaluatedRules statuses))]
    simp [h]
  · next h =>
    rw [mem_absentFindings, mem_today]
    simp [h]

end

/-- a finding is `gone` once its rule is evaluated again and does not find it, and not evaluated as
long as its rule is skipped; every fingerprint has one state -/
theorem finding_lifecycle (store : Store) (tenant : String) (runs : List Run) (rule : String → String)
    (hr : RuleOf store tenant rule runs) (findings : List Reported) (baseline : List String)
    (suppressions : List Suppression) (now : Int) (statuses : Statuses) :
    let previous := (lastEvaluated store tenant runs).2
    let c := classify findings baseline suppressions previous now statuses
    let Evaluated (fp : String) : Prop :=
      evaluationComplete (findings.map Reported.ruleId) statuses = true ∧
        rule fp ∉ unevaluatedRules statuses
    let Missing (fp : String) : Prop :=
      fp ∉ findings.map Reported.fingerprint ∧ Held store tenant (rule fp) fp runs
    (∀ fp, fp ∈ c.gone.map Row.fingerprint ↔ Evaluated fp ∧ Missing fp) ∧
    (∀ fp, fp ∈ c.notEvaluated.map Row.fingerprint ↔ ¬Evaluated fp ∧ Missing fp) ∧
    ((∀ run ∈ runs, complete store tenant run = true → ∀ row ∈ store.findingsForRun tenant run.id,
        row.ruleId ∉ unevaluatedRules (storedStatuses store tenant run.id)) →
      ∀ fp, Held store tenant (rule fp) fp runs ↔
        ∃ run, lastEvaluating store tenant (rule fp) runs = some run ∧ occurs store tenant fp run) ∧
    c.fingerprints.Nodup ∧
    ∀ fp, fp ∈ c.fingerprints ↔
      fp ∈ findings.map Reported.fingerprint ∨ fp ∈ previous.map Row.fingerprint := by
  intro previous c Evaluated Missing
  have hrow : ∀ row ∈ previous, rule row.fingerprint = row.ruleId := by
    intro row h
    obtain ⟨run, hm, hin⟩ := lastEvaluated_subset row runs h
    exact hr run hm row hin
  refine ⟨fun fp => ?_, fun fp => ?_, held_iff_lastEvaluating hr,
    classify_partition findings baseline suppressions previous now statuses⟩
  · rw [mem_gone hrow, mem_lastEvaluated hr]
  · rw [mem_notEvaluated hrow, mem_lastEvaluated hr]

section
/-- a rule that the newer of two runs skips -/
def skippedOnce (newer : List Row) : Store :=
  { findingsForRun := fun _ id => if id = 2 then newer else []
    ruleStatusForRun := some fun _ id =>
      if id = 2 then [("rule", ⟨.notEvaluated, false⟩)] else [("rule", ⟨.evaluated, true⟩)] }

def skippedRow : Row := ⟨"fp", "rule", "object", "high"⟩

theorem skippedOnce_ruleOf (newer : List Row) (h : ∀ row ∈ newer, row = skippedRow) :
    RuleOf (skippedOnce newer) "tenant" (fun _ => "rule") [⟨2⟩, ⟨1⟩] := by
  intro run hm row hrow
  simp only [List.mem_cons, List.not_mem_nil, or_false] at hm
  rcases hm with rfl | rfl
  · rw [h row hrow]
    rfl
  · simp [skippedOnce] at hrow

example : (lastEvaluated (skippedOnce [skippedRow]) "tenant" [⟨2⟩, ⟨1⟩]).2 = [skippedRow] := by
  decide +kernel

theorem finding_lifecycle_skipped :
    (classify [] [] [] (lastEvaluated (skippedOnce [skippedRow]) "tenant" [⟨2⟩, ⟨1⟩]).2 0
      [("rule", ⟨.evaluated, true⟩)]).gone = [skippedRow] ∧
    "fp" ∈ (classify [] [] [] (lastEvaluated (skippedOnce [skippedRow]) "tenant" [⟨2⟩, ⟨1⟩]).2 0
      [("rule", ⟨.notEvaluated, false⟩)]).notEvaluated.map Row.fingerprint := by
  refine ⟨by decide +kernel, ?_⟩
  have h := (finding_lifecycle (skippedOnce [skippedRow]) "tenant" [⟨2⟩, ⟨1⟩] (fun _ => "rule")
    (skippedOnce_ruleOf _ (by simp)) [] [] [] 0 [("rule", ⟨.notEvaluated, false⟩)]).2.1 "fp"
  refine h.2 ⟨by decide +kernel, by simp, ⟨2⟩, ?_, .inr ⟨?_, by decide +kernel⟩⟩
  · exact List.mem_map.2 ⟨skippedRow, by simp [skippedOnce], rfl⟩
  · simp [runsSince, evaluates, skippedOnce, storedStatuses, unevaluatedRules]

/-- a finding that a complete run holds of a rule it skipped is `gone` although the run that last
evaluated the rule does not hold it -/
theorem gone_of_skipped_rule :
    ¬ ∀ (store : Store) (runs : List Run) (findings : List Reported) (statuses : Statuses)
        (rule fp : String),
      (∀ run ∈ runs, ∀ row ∈ store.findingsForRun "tenant" run.id, row.ruleId = rule) →
      (fp ∈ (classify findings [] [] (lastEvaluated store "tenant" runs).2 0 statuses).gone.map
          Row.fingerprint ↔
        evaluationComplete (findings.map Reported.ruleId) statuses = true ∧
          rule ∉ unevaluatedRules statuses ∧ fp ∉ findings.map Reported.fingerprint ∧
          ∃ run, lastEvaluating store "tenant" rule runs = some run ∧
            occurs store "tenant" fp run) := by
  intro h
  have hrow : ∀ run ∈ [Run.mk 2, Run.mk 1], ∀ row ∈ (skippedOnce [skippedRow]).findingsForRun
      "tenant" run.id, row.ruleId = "rule" :=
    fun run hm row hrow => (skippedOnce_ruleOf [skippedRow] (by simp) run hm row hrow).symm
  have hgone := (h (skippedOnce [skippedRow]) [⟨2⟩, ⟨1⟩] [] [("rule", ⟨.evaluated, true⟩)] "rule" "fp"
    hrow).1 (by decide +kernel)
  obtain ⟨_, _, _, run, hlast, ho⟩ := hgone
  have he : lastEvaluating (skippedOnce [skippedRow]) "tenant" "rule" [⟨2⟩, ⟨1⟩] = some ⟨1⟩ := by
    decide +kernel
  rw [he, Option.some.injEq] at hlast
  subst hlast
  simp [occurs, skippedOnce] at ho

end

end Netops.Auditor

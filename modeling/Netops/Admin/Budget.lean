import Netops.Admin.Protocol
import Mathlib.Algebra.Order.BigOperators.Group.List
import Mathlib.Tactic.Linarith

/-!
# Sums over the journal

What the budgets count, as a sum over the names of the records: each record contributes its weight
or nothing (`contribution`), and what it contributes can only shrink as the record goes on and as
time passes.
-/

namespace Netops
open Effect Execute

/-- what a record adds to the changes since `since`, among those that `keep` keeps -/
def contribution (keep : Record → Bool) (since : ℚ) : Option Record → Nat
  | none => 0
  | some r => if keep r && (r.counted && decide (since ≤ r.moment)) then r.weight else 0

theorem contribution_some (keep : Record → Bool) (since : ℚ) (r : Record) :
    contribution keep since (some r)
      = if keep r && (r.counted && decide (since ≤ r.moment)) then r.weight else 0 := rfl

theorem spent_nil (since : ℚ) : spent [] since = 0 := rfl

theorem spent_append (rs rs' : List Record) (since : ℚ) :
    spent (rs ++ rs') since = spent rs since + spent rs' since := by
  simp [spent]

theorem spent_toList (keep : Record → Bool) (since : ℚ) (o : Option Record) :
    spent (o.toList.filter keep) since = contribution keep since o := by
  cases o with
  | none => rfl
  | some r =>
    by_cases hk : keep r = true
    · by_cases hc : (r.counted && decide (since ≤ r.moment)) = true
      · simp [spent, contribution, hk, hc]
      · simp [spent, contribution, hk, hc]
    · simp [spent, contribution, hk]

/-- the changes counted, name by name -/
theorem spent_flatMap (keep : Record → Bool) (since : ℚ) (xs : List (Option Record)) :
    spent ((xs.flatMap Option.toList).filter keep) since
      = (xs.map (contribution keep since)).sum := by
  induction xs with
  | nil => rfl
  | cons x xs ih =>
    rw [List.flatMap_cons, List.filter_append, spent_append, spent_toList, ih, List.map_cons,
      List.sum_cons]

theorem Store.records_eq (st : Store) : st.records = (st.ids.map st.ops).flatMap Option.toList := by
  unfold Store.records
  induction st.ids with
  | nil => rfl
  | cons c cs ih =>
    rw [List.filterMap_cons, List.map_cons, List.flatMap_cons, ← ih]
    cases st.ops c <;> rfl

theorem Store.spent_records (st : Store) (keep : Record → Bool) (since : ℚ) :
    spent (st.records.filter keep) since
      = (st.ids.map fun c => contribution keep since (st.ops c)).sum := by
  rw [Store.records_eq, spent_flatMap, List.map_map]
  rfl

/-- `keep` looks only at what never changes -/
def Lasting (keep : Record → Bool) : Prop := ∀ r r', Later r r' → keep r' = keep r

theorem lasting_true : Lasting fun _ => true := fun _ _ _ => rfl

theorem lasting_device (d : String) : Lasting fun r => r.device = d := by
  intro r r' h
  show decide (r'.device = d) = decide (r.device = d)
  rw [h.device]

/-- a record that goes on contributes at most what it did -/
theorem contribution_later {keep : Record → Bool} (hk : Lasting keep) (since : ℚ) {r r' : Record}
    (h : Later r r') : contribution keep since (some r') ≤ contribution keep since (some r) := by
  rw [contribution_some, contribution_some]
  by_cases hc : (keep r' && (r'.counted && decide (since ≤ r'.moment))) = true
  · rw [if_pos hc, h.weight]
    simp only [Bool.and_eq_true, decide_eq_true_eq] at hc
    obtain ⟨h1, h2, h3⟩ := hc
    have hc' : (keep r && (r.counted && decide (since ≤ r.moment))) = true := by
      rw [hk r r' h] at h1
      rw [h.moment] at h3
      simp [h1, h.counted h2, h3]
    rw [if_pos hc']
  · rw [if_neg hc]
    exact Nat.zero_le _

/-- as time passes a record leaves the window -/
theorem contribution_mono (keep : Record → Bool) {since since' : ℚ} (h : since ≤ since')
    (o : Option Record) : contribution keep since' o ≤ contribution keep since o := by
  cases o with
  | none => exact Nat.le_refl _
  | some r =>
    rw [contribution_some, contribution_some]
    by_cases hc : (keep r && (r.counted && decide (since' ≤ r.moment))) = true
    · rw [if_pos hc]
      simp only [Bool.and_eq_true, decide_eq_true_eq] at hc
      obtain ⟨h1, h2, h3⟩ := hc
      rw [if_pos (by simp [h1, h2, le_trans h h3])]
    · rw [if_neg hc]
      exact Nat.zero_le _

theorem contribution_le_weight (keep : Record → Bool) (since : ℚ) (r : Record) :
    contribution keep since (some r) ≤ r.weight := by
  rw [contribution_some]
  split
  · exact Nat.le_refl _
  · exact Nat.zero_le _

theorem contribution_of_not_keep {keep : Record → Bool} (since : ℚ) {r : Record}
    (h : keep r = false) : contribution keep since (some r) = 0 := by
  simp [contribution, h]

section
variable {st st' : Store} {keep : Record → Bool}

/-- the sum over the records grows neither with time nor as they go on -/
theorem Store.spent_le (hk : Lasting keep) {since since' : ℚ} (hs : since ≤ since')
    (hids : st'.ids = st.ids)
    (hlater : ∀ c r', st'.ops c = some r' → ∃ r, st.ops c = some r ∧ Later r r') :
    spent (st'.records.filter keep) since' ≤ spent (st.records.filter keep) since := by
  rw [Store.spent_records, Store.spent_records, hids]
  refine List.sum_le_sum fun c _ => ?_
  cases hc : st'.ops c with
  | none => exact Nat.zero_le _
  | some r' =>
    obtain ⟨r, hr, hl⟩ := hlater c r' hc
    rw [hr]
    exact (contribution_later hk since' hl).trans (contribution_mono keep hs _)

theorem Store.records_filter_true (st : Store) : st.records.filter (fun _ => true) = st.records :=
  List.filter_eq_self.mpr fun _ _ => rfl

end

/-- the budgets hold on when records go on -/
theorem BudgetsHold.later {cfg : Config} {st st' : Store} {now : ℚ} (h : BudgetsHold cfg st now)
    (hids : st'.ids = st.ids)
    (hlater : ∀ c r', st'.ops c = some r' → ∃ r, st.ops c = some r ∧ Later r r') :
    BudgetsHold cfg st' now where
  device d := (Store.spent_le (lasting_device d) (le_refl _) hids hlater).trans (h.device d)
  day := by
    have hle := Store.spent_le lasting_true (le_refl (now - Execute.day)) hids hlater
    rw [Store.records_filter_true, Store.records_filter_true] at hle
    exact hle.trans h.day

/-- the sums after a record is created -/
theorem Store.spent_save_new {st : Store} {r : Record} (keep : Record → Bool) (since : ℚ)
    (hnew : r.changeId ∉ st.ids) :
    spent ((st.save r).records.filter keep) since
      = contribution keep since (some r) + spent (st.records.filter keep) since := by
  rw [Store.spent_records, Store.spent_records]
  have hids : (st.save r).ids = r.changeId :: st.ids := if_neg hnew
  rw [hids, List.map_cons, List.sum_cons]
  congr 1
  · show contribution keep since (Function.update st.ops r.changeId (some r) r.changeId) = _
    rw [Function.update_self]
  · congr 1
    refine List.map_congr_left fun c hc => ?_
    have hne : c ≠ r.changeId := fun h => hnew (h ▸ hc)
    show contribution keep since (Function.update st.ops r.changeId (some r) c) = _
    rw [Function.update_of_ne hne]

end Netops

import Mathlib.Data.List.Forall2
import Mathlib.Data.List.Basic
import Mathlib.Tactic.Common

/-!
# Ordered occurrences in a trace

A trace is a list of events, the newest first.

* `InOrder ps tr`   events of `tr` satisfy the predicates of `ps`, in this order of time;
* `forall₂_mem_left`, `forall₂_mem_right`   the partner of a member, in lists related one by one.
-/

namespace Effect

theorem forall₂_mem_left {α β : Type} {R : α → β → Prop} {as : List α} {bs : List β}
    (h : List.Forall₂ R as bs) {a : α} (ha : a ∈ as) : ∃ b ∈ bs, R a b := by
  induction h with
  | nil => cases ha
  | cons hr _ ih =>
    rcases List.mem_cons.mp ha with rfl | ha
    · exact ⟨_, List.mem_cons_self, hr⟩
    · obtain ⟨b, hb, hR⟩ := ih ha
      exact ⟨b, List.mem_cons_of_mem _ hb, hR⟩

theorem forall₂_mem_right {α β : Type} {R : α → β → Prop} {as : List α} {bs : List β}
    (h : List.Forall₂ R as bs) {b : β} (hb : b ∈ bs) : ∃ a ∈ as, R a b := by
  obtain ⟨a, ha, hR⟩ := forall₂_mem_left h.flip hb
  exact ⟨a, ha, hR⟩

variable {E : Type}

/-- `tr` (newest first) holds events that satisfy the predicates of `ps`, one after the other. -/
def InOrder (ps : List (E → Prop)) (tr : List E) : Prop :=
  ∃ es, es.Sublist tr.reverse ∧ List.Forall₂ (fun p e => p e) ps es

theorem InOrder.nil (tr : List E) : InOrder [] tr := ⟨[], List.nil_sublist _, .nil⟩

theorem InOrder.append {ps : List (E → Prop)} {tr : List E} (es : List E) (h : InOrder ps tr) :
    InOrder ps (es ++ tr) := by
  obtain ⟨l, hl, hp⟩ := h
  refine ⟨l, ?_, hp⟩
  rw [List.reverse_append]
  exact hl.trans (List.sublist_append_left _ _)

theorem InOrder.cons {ps : List (E → Prop)} {tr : List E} (e : E) (h : InOrder ps tr) :
    InOrder ps (e :: tr) := h.append [e]

/-- one more occurrence, at the newest event -/
theorem InOrder.snoc {ps : List (E → Prop)} {p : E → Prop} {tr : List E} {e : E}
    (h : InOrder ps tr) (he : p e) : InOrder (ps ++ [p]) (e :: tr) := by
  obtain ⟨l, hl, hp⟩ := h
  refine ⟨l ++ [e], ?_, ?_⟩
  · rw [List.reverse_cons]
    exact hl.append (List.Sublist.refl _)
  · exact List.rel_append hp (.cons he .nil)

theorem InOrder.one {p : E → Prop} {tr : List E} {e : E} (he : p e) : InOrder [p] (e :: tr) :=
  (InOrder.nil tr).snoc he

theorem InOrder.mono {ps : List (E → Prop)} {tr tr' : List E} (hs : tr.Sublist tr')
    (h : InOrder ps tr) : InOrder ps tr' := by
  obtain ⟨l, hl, hp⟩ := h
  exact ⟨l, hl.trans hs.reverse, hp⟩

/-- fewer predicates are still met in order -/
theorem InOrder.sublist {ps qs : List (E → Prop)} {tr : List E} (hs : qs.Sublist ps)
    (h : InOrder ps tr) : InOrder qs tr := by
  obtain ⟨l, hl, hp⟩ := h
  suffices ∃ l', l'.Sublist l ∧ List.Forall₂ (fun p e => p e) qs l' by
    obtain ⟨l', hl', hq⟩ := this
    exact ⟨l', hl'.trans hl, hq⟩
  clear hl
  induction hs generalizing l with
  | slnil => exact ⟨[], List.nil_sublist _, .nil⟩
  | cons p hs ih =>
    cases hp with
    | cons he hp =>
      obtain ⟨l', hl', hq⟩ := ih _ hp
      exact ⟨l', hl'.trans (List.sublist_cons_self _ _), hq⟩
  | cons_cons p hs ih =>
    cases hp with
    | cons he hp =>
      obtain ⟨l', hl', hq⟩ := ih _ hp
      exact ⟨_ :: l', hl'.cons_cons _, .cons he hq⟩

theorem InOrder.mem {p : E → Prop} {tr : List E} (h : InOrder [p] tr) : ∃ e ∈ tr, p e := by
  obtain ⟨l, hl, hp⟩ := h
  obtain ⟨e, l, he, hn, rfl⟩ := List.forall₂_cons_left_iff.mp hp
  cases hn
  exact ⟨e, List.mem_reverse.mp (List.singleton_sublist.mp hl), he⟩

end Effect

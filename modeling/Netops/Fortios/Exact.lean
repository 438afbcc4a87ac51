import Netops.Fortios.Rest

/-!
# Foreign changes are seen exactly

Two snapshots have the same digest when their pruned trees are alike, and only then.

* `render`              the canonical form of a tree from which nothing is left out;
* `canonical_eq_render` the code prunes and renders in one pass;
* `render_eq_iff`       equal canonical forms are trees that are alike;
* `rest_digest_exact`.
-/

namespace Netops.Fortios

/-! ## rendering -/

section
variable (r : Reading)

mutual

def render (p : Place) : Node → Json.Value
  | .mk _ attrs sub entries _ =>
    body (Dict.sorted (attrs.map fun a => (a.1, attrValue (r.volatile p a.1) a.2)))
      (if r.unordered p then Dict.sorted (renderAll .edit p entries) else renderAll .edit p entries)
      (Dict.sorted (renderAll .config p sub))

def renderAll (kind : Kind) (p : Place) : List (Text × Node) → List (Text × Json.Value)
  | [] => []
  | (name, n) :: rest => (name, render (p ++ [(kind, name)]) n) :: renderAll kind p rest

end

theorem renderAll_eq_map (kind : Kind) (p : Place) (l : List (Text × Node)) :
    renderAll r kind p l = l.map fun x => (x.1, render r (p ++ [(kind, x.1)]) x.2) := by
  induction l with
  | nil => rw [renderAll, List.map_nil]
  | cons x l ih =>
    obtain ⟨name, n⟩ := x
    rw [renderAll, ih, List.map_cons]

theorem keys_renderAll (kind : Kind) (p : Place) (l : List (Text × Node)) :
    Dict.keys (renderAll r kind p l) = Dict.keys l := by
  rw [renderAll_eq_map]
  exact Dict.keys_map fun _ => rfl

end

theorem points_injective : Function.Injective points :=
  List.map_injective_iff.mpr fun _ _ h => Char.ext (UInt32.toNat_inj.mp h)

theorem str_injective : Function.Injective str := fun _ _ h =>
  points_injective (Json.Value.str.inj h)

theorem fields_injective : Function.Injective fields := by
  intro d e h
  refine List.map_injective_iff.mpr ?_ (Json.Value.obj.inj h)
  rintro ⟨k, v⟩ ⟨k', v'⟩ h
  obtain ⟨hk, hv⟩ := Prod.mk.inj h
  exact Prod.ext (points_injective hk) hv

theorem body_inj {a a' e e' s s' : List (Text × Json.Value)} :
    body a e s = body a' e' s' ↔ a = a' ∧ e = e' ∧ s = s' := by
  constructor
  · intro h
    have hf := fields_injective h
    simp only [List.cons.injEq, Prod.mk.injEq, true_and, and_true] at hf
    obtain ⟨ha, he, hs⟩ := hf
    refine ⟨fields_injective ha, ?_, fields_injective hs⟩
    refine List.map_injective_iff.mpr ?_ (Json.Value.arr.inj he)
    rintro ⟨k, v⟩ ⟨k', v'⟩ h
    simp only [Json.Value.arr.injEq, List.cons.injEq, and_true] at h
    rw [str_injective h.1, h.2]
  · rintro ⟨rfl, rfl, rfl⟩
    rfl

theorem sorted_eq_nil {V : Type} {d : List (Text × V)} : Dict.sorted d = [] ↔ d = [] := by
  constructor
  · intro h
    exact (h ▸ Dict.sorted_perm d).symm.eq_nil
  · rintro rfl
    rfl

theorem renderAll_eq_nil {r : Reading} {kind : Kind} {p : Place} {l : List (Text × Node)} :
    renderAll r kind p l = [] ↔ l = [] := by
  rw [renderAll_eq_map, List.map_eq_nil_iff]

/-- the canonical form is empty when the node is -/
theorem render_eq_vacant {r : Reading} {p : Place} {n : Node} :
    render r p n = body [] [] [] ↔ n.isVacant := by
  obtain ⟨line, attrs, sub, entries, tokens⟩ := n
  rw [render, body_inj, sorted_eq_nil, sorted_eq_nil, renderAll_eq_nil, List.map_eq_nil_iff]
  have hentries : (if r.unordered p then Dict.sorted (renderAll r .edit p entries)
      else renderAll r .edit p entries) = [] ↔ entries = [] := by
    split_ifs
    · rw [sorted_eq_nil, renderAll_eq_nil]
    · exact renderAll_eq_nil
  rw [hentries]
  simp only [Node.isVacant, Node.attrs, Node.sub, Node.entries, Bool.and_eq_true,
    List.isEmpty_iff]
  tauto

/-! ## the code prunes and renders -/

theorem names_append (p : Place) (kind : Kind) (name : Text) :
    (p ++ [(kind, name)]).map Prod.snd = p.map Prod.snd ++ [name] := by
  rw [List.map_append, List.map_cons, List.map_nil]

mutual

theorem canonical_eq_render (x : Excluded) (p : Place) : ∀ n : Node,
    canonical x (p.map Prod.snd) n = render (byNames x) p (prune (byNames x) p n)
  | .mk line attrs sub entries tokens => by
    rw [canonical, prune, render, canonicalSections_eq_renderAll x p sub,
      canonicalEntries_eq_renderAll x p entries]
    rfl

theorem canonicalSections_eq_renderAll (x : Excluded) (p : Place) : ∀ l : List (Text × Node),
    canonicalSections x (p.map Prod.snd) l
      = renderAll (byNames x) .config p (pruneSections (byNames x) p l)
  | [] => by rw [canonicalSections, pruneSections, renderAll]
  | (name, n) :: rest => by
    have hn := canonical_eq_render x (p ++ [(.config, name)]) n
    rw [names_append] at hn
    rw [canonicalSections, pruneSections, hn, canonicalSections_eq_renderAll x p rest]
    simp only [render_eq_vacant]
    split_ifs
    · rfl
    · rw [renderAll]

theorem canonicalEntries_eq_renderAll (x : Excluded) (p : Place) : ∀ l : List (Text × Node),
    canonicalEntries x (p.map Prod.snd) l
      = renderAll (byNames x) .edit p (pruneEntries (byNames x) p l)
  | [] => by rw [canonicalEntries, pruneEntries, renderAll]
  | (name, n) :: rest => by
    have hn := canonical_eq_render x (p ++ [(.edit, name)]) n
    rw [names_append] at hn
    rw [canonicalEntries, pruneEntries, hn, canonicalEntries_eq_renderAll x p rest]
    have hskips : (byNames x).skips p name = x.skips (p.map Prod.snd) name := rfl
    rw [hskips]
    split_ifs
    · rfl
    · rw [renderAll]

end

/-! ## equal canonical forms -/

/-- an attribute is rendered as it is shown -/
theorem attrs_eq_iff {r : Reading} {p : Place} {as bs : List (Text × Attr)}
    (ha : (Dict.keys as).Nodup) :
    Dict.sorted (as.map fun a => (a.1, attrValue (r.volatile p a.1) a.2))
        = Dict.sorted (bs.map fun a => (a.1, attrValue (r.volatile p a.1) a.2)) ↔
      (as.map (shown r p)).Perm (bs.map (shown r p)) := by
  have hkeys : (Dict.keys (as.map fun a => (a.1, attrValue (r.volatile p a.1) a.2))).Nodup := by
    unfold Dict.keys
    rw [List.map_map]
    exact ha
  rw [Dict.sorted_eq_iff hkeys]
  let write : Text × List Text × Bool → Text × Json.Value := fun a =>
    (a.1, .arr [.arr (a.2.1.map str), .bool a.2.2])
  have hwrite : Function.Injective write := by
    rintro ⟨k, vs, u⟩ ⟨k', vs', u'⟩ h
    simp only [write, Prod.mk.injEq, Json.Value.arr.injEq, List.cons.injEq, Json.Value.bool.injEq,
      and_true] at h
    obtain ⟨hk, hv, hu⟩ := h
    rw [hk, List.map_injective_iff.mpr str_injective hv, hu]
  have hmap : ∀ l : List (Text × Attr),
      (l.map fun a => (a.1, attrValue (r.volatile p a.1) a.2)) = (l.map (shown r p)).map write := by
    intro l
    rw [List.map_map]
    rfl
  rw [hmap, hmap]
  exact List.map_perm_map_iff hwrite

/-- entries or sections in any order -/
theorem sorted_renderAll_eq_iff {r : Reading} {kind : Kind} {p : Place} {as bs : List (Text × Node)}
    (ha : (Dict.keys as).Nodup) :
    Dict.sorted (renderAll r kind p as) = Dict.sorted (renderAll r kind p bs) ↔
      ∃ cs : List (Text × Node), cs.Perm bs ∧ renderAll r kind p as = renderAll r kind p cs := by
  have hkeys : (Dict.keys (renderAll r kind p as)).Nodup := by rwa [keys_renderAll]
  rw [Dict.sorted_eq_iff hkeys, renderAll_eq_map, renderAll_eq_map, Dict.map_perm_map_iff]
  simp only [renderAll_eq_map]

mutual

theorem render_eq_iff (r : Reading) : ∀ (n m : Node) (p : Place), n.Distinct → m.Distinct →
    (render r p n = render r p m ↔ Alike r p n m)
  | .mk line attrs sub entries tokens, .mk line' attrs' sub' entries' tokens', p, hn, hm => by
    cases hn with
    | mk hattrs hsub hentries hs he =>
    cases hm with
    | mk _ _ _ hs' he' =>
    simp only [Node.attrs, Node.sub, Node.entries] at hattrs hsub hentries hs he hs' he'
    rw [render, render, body_inj, attrs_eq_iff hattrs, sorted_renderAll_eq_iff hsub, Alike]
    have hsections : (∃ cs : List (Text × Node), cs.Perm sub' ∧
        renderAll r .config p sub = renderAll r .config p cs) ↔
        ∃ ss : List (Text × Node), ss.Perm sub' ∧ AlikeAll r .config p sub ss := by
      refine exists_congr fun cs => and_congr_right fun hp => ?_
      exact renderAll_eq_iff r sub cs .config p hs fun x hx => hs' x (hp.mem_iff.mp hx)
    have hitems : (if r.unordered p then Dict.sorted (renderAll r .edit p entries)
          else renderAll r .edit p entries)
        = (if r.unordered p then Dict.sorted (renderAll r .edit p entries')
          else renderAll r .edit p entries') ↔
        ∃ es : List (Text × Node), (if r.unordered p then es.Perm entries' else es = entries') ∧
          AlikeAll r .edit p entries es := by
      split_ifs
      · rw [sorted_renderAll_eq_iff hentries]
        refine exists_congr fun cs => and_congr_right fun hp => ?_
        exact renderAll_eq_iff r entries cs .edit p he fun x hx => he' x (hp.mem_iff.mp hx)
      · rw [exists_eq_left]
        exact renderAll_eq_iff r entries entries' .edit p he he'
    rw [hsections, hitems]
    exact and_congr_right fun _ => and_comm

theorem renderAll_eq_iff (r : Reading) : ∀ (as bs : List (Text × Node)) (kind : Kind) (p : Place),
    (∀ x ∈ as, x.2.Distinct) → (∀ x ∈ bs, x.2.Distinct) →
    (renderAll r kind p as = renderAll r kind p bs ↔ AlikeAll r kind p as bs)
  | [], [], _, _, _, _ => by simp only [renderAll, AlikeAll]
  | [], (_, _) :: _, _, _, _, _ => by simp [renderAll, AlikeAll]
  | (_, _) :: _, [], _, _, _, _ => by simp [renderAll, AlikeAll]
  | (name, n) :: as, (name', m) :: bs, kind, p, ha, hb => by
    have hn := render_eq_iff r n m (p ++ [(kind, name)]) (ha _ List.mem_cons_self)
      (hb _ List.mem_cons_self)
    have hrest := renderAll_eq_iff r as bs kind p (fun x hx => ha x (List.mem_cons_of_mem _ hx))
      fun x hx => hb x (List.mem_cons_of_mem _ hx)
    rw [renderAll, renderAll, AlikeAll, List.cons.injEq, Prod.mk.injEq, hrest, and_assoc]
    refine and_congr_right fun e => ?_
    subst e
    rw [hn]

end

/-! ## pruned trees -/

theorem keys_pruneSections (r : Reading) (p : Place) (l : List (Text × Node)) :
    (Dict.keys (pruneSections r p l)).Sublist (Dict.keys l) := by
  induction l with
  | nil => rw [pruneSections]
  | cons x l ih =>
    obtain ⟨name, n⟩ := x
    rw [pruneSections]
    split_ifs
    · exact ih.cons _
    · exact ih.cons_cons _

theorem keys_pruneEntries (r : Reading) (p : Place) (l : List (Text × Node)) :
    (Dict.keys (pruneEntries r p l)).Sublist (Dict.keys l) := by
  induction l with
  | nil => rw [pruneEntries]
  | cons x l ih =>
    obtain ⟨name, n⟩ := x
    rw [pruneEntries]
    split_ifs
    · exact ih.cons _
    · exact ih.cons_cons _

mutual

theorem prune_distinct (r : Reading) : ∀ (n : Node) (p : Place), n.Distinct → (prune r p n).Distinct
  | .mk line attrs sub entries tokens, p, h => by
    cases h with
    | mk hattrs hsub hentries hs he =>
    rw [prune]
    exact .mk hattrs (hsub.sublist (keys_pruneSections r p sub))
      (hentries.sublist (keys_pruneEntries r p entries)) (pruneSections_distinct r sub p hs)
      (pruneEntries_distinct r entries p he)

theorem pruneSections_distinct (r : Reading) : ∀ (l : List (Text × Node)) (p : Place),
    (∀ x ∈ l, x.2.Distinct) → ∀ x ∈ pruneSections r p l, x.2.Distinct
  | [], p, _ => by
    rw [pruneSections]
    exact fun x hx => nomatch hx
  | (name, n) :: rest, p, h => by
    have hrest := pruneSections_distinct r rest p fun x hx => h x (List.mem_cons_of_mem _ hx)
    have hn := prune_distinct r n (p ++ [(.config, name)]) (h _ List.mem_cons_self)
    rw [pruneSections]
    split_ifs
    · exact hrest
    · exact List.forall_mem_cons.mpr ⟨hn, hrest⟩

theorem pruneEntries_distinct (r : Reading) : ∀ (l : List (Text × Node)) (p : Place),
    (∀ x ∈ l, x.2.Distinct) → ∀ x ∈ pruneEntries r p l, x.2.Distinct
  | [], p, _ => by
    rw [pruneEntries]
    exact fun x hx => nomatch hx
  | (name, n) :: rest, p, h => by
    have hrest := pruneEntries_distinct r rest p fun x hx => h x (List.mem_cons_of_mem _ hx)
    have hn := prune_distinct r n (p ++ [(.edit, name)]) (h _ List.mem_cons_self)
    rw [pruneEntries]
    split_ifs
    · exact hrest
    · exact List.forall_mem_cons.mpr ⟨hn, hrest⟩

end

/-! ## the text that is hashed -/

theorem points_scalar (t : Text) : ∀ p ∈ points t, Json.Scalar p := by
  intro p hp
  obtain ⟨c, -, rfl⟩ := List.mem_map.mp hp
  exact c.valid

/-- the values in a body are printable one level deeper -/
theorem body_printable {d : Nat} {a e s : List (Text × Json.Value)}
    (ha : ∀ x ∈ a, x.2.Printable d) (he : ∀ x ∈ e, x.2.Printable d)
    (hs : ∀ x ∈ s, x.2.Printable d) : (body a e s).Printable (d + 3) := by
  have hfields : ∀ {l : List (Text × Json.Value)} {d : Nat}, (∀ x ∈ l, x.2.Printable d) →
      (fields l).Printable (d + 1) := by
    intro l d hl
    refine Json.printableFields_iff.mpr fun f hf => ?_
    obtain ⟨x, hx, rfl⟩ := List.mem_map.mp hf
    exact ⟨points_scalar x.1, hl x hx⟩
  refine hfields fun x hx => ?_
  simp only [List.mem_cons, List.not_mem_nil, or_false] at hx
  rcases hx with rfl | rfl | rfl
  · exact (hfields ha).mono (by omega)
  · refine Json.printableItems_iff.mpr fun v hv => ?_
    obtain ⟨x, hx, rfl⟩ := List.mem_map.mp hv
    exact ⟨points_scalar x.1, he x hx, trivial⟩
  · exact (hfields hs).mono (by omega)

theorem attrValue_printable (b : Bool) (a : Attr) : (attrValue b a).Printable 2 := by
  refine ⟨Json.printableItems_iff.mpr fun v hv => ?_, trivial, trivial⟩
  obtain ⟨t, -, rfl⟩ := List.mem_map.mp hv
  exact points_scalar t

mutual

theorem render_printable (r : Reading) : ∀ (n : Node) (p : Place),
    ∃ d, (render r p n).Printable d
  | .mk line attrs sub entries tokens, p => by
    obtain ⟨d, hd⟩ := renderAll_printable r entries .edit p
    obtain ⟨d', hd'⟩ := renderAll_printable r sub .config p
    refine ⟨max 2 (max d d') + 3, ?_⟩
    rw [render]
    refine body_printable ?_ ?_ ?_
    · intro x hx
      obtain ⟨a, -, rfl⟩ := List.mem_map.mp ((Dict.sorted_perm _).mem_iff.mp hx)
      exact (attrValue_printable _ _).mono (by omega)
    · intro x hx
      refine (hd x ?_).mono (by omega)
      split_ifs at hx
      · exact (Dict.sorted_perm _).mem_iff.mp hx
      · exact hx
    · intro x hx
      exact (hd' x ((Dict.sorted_perm _).mem_iff.mp hx)).mono (by omega)

theorem renderAll_printable (r : Reading) : ∀ (l : List (Text × Node)) (kind : Kind) (p : Place),
    ∃ d, ∀ x ∈ renderAll r kind p l, x.2.Printable d
  | [], kind, p => ⟨0, by rw [renderAll]; exact fun x hx => nomatch hx⟩
  | (name, n) :: rest, kind, p => by
    obtain ⟨d, hd⟩ := render_printable r n (p ++ [(kind, name)])
    obtain ⟨d', hd'⟩ := renderAll_printable r rest kind p
    refine ⟨max d d', ?_⟩
    rw [renderAll]
    refine List.forall_mem_cons.mpr ⟨hd.mono (by omega), fun x hx => (hd' x hx).mono (by omega)⟩

end

theorem encode_injective {a b : Text} (h : Utf8.encode a = Utf8.encode b) : a = b := by
  have ha := Utf8.decodeAll_encode a
  rw [h, Utf8.decodeAll_encode b] at ha
  exact (Option.some.inj ha).symm

/-- equal texts are canonical forms of trees that are alike -/
theorem encode_canonical_eq_iff {x : Excluded} {n m : Node} (hn : n.Distinct) (hm : m.Distinct) :
    Utf8.encode (Json.dumps (canonical x [] n)) = Utf8.encode (Json.dumps (canonical x [] m)) ↔
      Alike (byNames x) [] (prune (byNames x) [] n) (prune (byNames x) [] m) := by
  have hcn := canonical_eq_render x [] n
  have hcm := canonical_eq_render x [] m
  rw [List.map_nil] at hcn hcm
  rw [← render_eq_iff _ _ _ _ (prune_distinct _ n [] hn) (prune_distinct _ m [] hm), hcn, hcm]
  constructor
  · intro h
    obtain ⟨d, hd⟩ := render_printable (byNames x) (prune (byNames x) [] n) []
    obtain ⟨d', hd'⟩ := render_printable (byNames x) (prune (byNames x) [] m) []
    exact Json.dumps_injective (hd.mono (le_max_left d d')) (hd'.mono (le_max_right d d'))
      (encode_injective h)
  · intro h
    rw [h]

theorem load_distinct {text : Text} {firmware : Option Text} {s : Snapshot}
    (h : Snapshot.load text firmware = .ok s) : s.root.Distinct := by
  unfold Snapshot.load at h
  dsimp only at h
  generalize header _ = found at h
  obtain _ | ⟨version, build, vdom⟩ := found
  · cases h
  dsimp only at h
  split_ifs at h
  cases hroot : parse text with
  | error e =>
    rw [hroot] at h
    cases h
  | ok root =>
    rw [hroot] at h
    dsimp only at h
    split at h
    · cases h
      exact parse_distinct hroot
    · cases h

/-- **Foreign changes are seen exactly.**  Of two accepted snapshots, and with SHA-256 free of
collisions on the two texts, the digests are equal when the trees are alike after the planned object
and the objects of the safeguard are taken out, and only then. -/
theorem rest_digest_exact {text text' : Text} {firmware firmware' : Option Text} {s s' : Snapshot}
    (hs : Snapshot.load text firmware = .ok s) (hs' : Snapshot.load text' firmware' = .ok s')
    {table key : Text} {safeguardId : Option Text} {target : List Text}
    (htarget : targetPath table key = some target)
    (hsha : ∀ a b, s.restText table key safeguardId = some a →
      s'.restText table key safeguardId = some b → Sha256.hexdigest a = Sha256.hexdigest b → a = b) :
    s.restDigest table key safeguardId = s'.restDigest table key safeguardId ↔
      Alike (byNames ⟨target, ignored safeguardId⟩) []
        (prune (byNames ⟨target, ignored safeguardId⟩) [] s.root)
        (prune (byNames ⟨target, ignored safeguardId⟩) [] s'.root) := by
  have htext : ∀ t : Snapshot, t.restText table key safeguardId
      = some (Utf8.encode (Json.dumps (canonical ⟨target, ignored safeguardId⟩ [] t.root))) := by
    intro t
    rw [Snapshot.restText, htarget]
    rfl
  rw [← encode_canonical_eq_iff (load_distinct hs) (load_distinct hs'), Snapshot.restDigest,
    Snapshot.restDigest, htext, htext, Option.map_some, Option.map_some, Option.some.injEq]
  constructor
  · exact hsha _ _ (htext s) (htext s')
  · intro h
    rw [h]

/-- a snapshot with these lines -/
def sampleText (lines : String) : Text :=
  ("#config-version=FGT60F-7.4.1-FW-build2463-230830:opmode=0:vdom=0:user=admin\n" ++ lines).toList

def sampleTable : Text := "firewall address".toList

/-- two addresses, in both orders and with another quoting -/
def samplePair : Text × Text :=
  (sampleText "config firewall address\nedit a\nnext\nedit b\nnext\nend\n",
   sampleText "config firewall address\nedit b\nnext\nedit \"a\"\nnext\nend\n")

/-- an entry `x` of a block that is no table, with and without an attribute -/
def hiddenPair : Text × Text :=
  (sampleText "edit \"firewall address\"\nedit x\nset a b\nnext\nnext\n",
   sampleText "edit \"firewall address\"\nedit x\nnext\nnext\n")

/-- the kernel reads a long text faster in parts -/
theorem sampleText_parts (lines : String) : sampleText lines =
    "#config-version=FGT60F-7.4.1-FW-build2463-230830:opmode=0:vdom=0:user=admin\n".toList ++ lines.toList :=
  String.toList_append

/-- both texts are accepted, and hashed alike for the object `x` -/
def hashedAlike (pair : Text × Text) : Bool :=
  match Snapshot.load pair.1 none, Snapshot.load pair.2 none with
  | .ok s, .ok s' => s.restText sampleTable ['x'] none = s'.restText sampleTable ['x'] none
  | _, _ => false

theorem hashedAlike_ok (pair : Text × Text) (h : hashedAlike pair = true) : ∃ s s' : Snapshot,
    Snapshot.load pair.1 none = .ok s ∧ Snapshot.load pair.2 none = .ok s' ∧
      s.restText sampleTable ['x'] none = s'.restText sampleTable ['x'] none := by
  unfold hashedAlike at h
  split at h
  · rename_i s s' hs hs'
    exact ⟨s, s', hs, hs', by simpa using h⟩
  · cases h

theorem rest_digest_exact_reordered : ∃ s s' : Snapshot,
    Snapshot.load samplePair.1 none = .ok s ∧ Snapshot.load samplePair.2 none = .ok s' ∧
    s.restDigest sampleTable ['x'] none = s'.restDigest sampleTable ['x'] none ∧
    Alike (byNames ⟨[sampleTable, ['x']], []⟩) []
      (prune (byNames ⟨[sampleTable, ['x']], []⟩) [] s.root)
      (prune (byNames ⟨[sampleTable, ['x']], []⟩) [] s'.root) := by
  have halike : hashedAlike samplePair = true := by
    rewrite [samplePair, sampleText_parts, sampleText_parts]
    decide +kernel
  obtain ⟨s, s', hs, hs', htext⟩ := hashedAlike_ok samplePair halike
  have hdigest : s.restDigest sampleTable ['x'] none = s'.restDigest sampleTable ['x'] none := by
    rw [Snapshot.restDigest, htext]
    rfl
  refine ⟨s, s', hs, hs', hdigest, (rest_digest_exact hs hs' ?_ ?_).mp hdigest⟩
  · decide +kernel
  · intro a b ha hb _
    rw [htext, hb] at ha
    exact (Option.some.inj ha).symm

/-- the two trees have different canonical forms under the stricter reading -/
def toldApart (pair : Text × Text) : Bool :=
  match Snapshot.load pair.1 none, Snapshot.load pair.2 none with
  | .ok s, .ok s' =>
    let r := byPlace [(.config, sampleTable), (.edit, ['x'])] []
    render r [] (prune r [] s.root) ≠ render r [] (prune r [] s'.root)
  | _, _ => false

/-- A change of an entry that is not the planned one is not seen where the names on its path are
those of the planned object: here the block around it is an entry of that name, not the table. -/
theorem rest_digest_collision : ∃ s s' : Snapshot,
    Snapshot.load hiddenPair.1 none = .ok s ∧ Snapshot.load hiddenPair.2 none = .ok s' ∧
    targetPlace sampleTable ['x'] = some [(.config, sampleTable), (.edit, ['x'])] ∧
    s.restDigest sampleTable ['x'] none = s'.restDigest sampleTable ['x'] none ∧
    ¬ Alike (byPlace [(.config, sampleTable), (.edit, ['x'])] []) []
      (prune (byPlace [(.config, sampleTable), (.edit, ['x'])] []) [] s.root)
      (prune (byPlace [(.config, sampleTable), (.edit, ['x'])] []) [] s'.root) := by
  have hboth : (hashedAlike hiddenPair && toldApart hiddenPair) = true := by
    rewrite [hiddenPair, sampleText_parts, sampleText_parts]
    decide +kernel
  obtain ⟨halike, hapart⟩ := Bool.and_eq_true_iff.1 hboth
  obtain ⟨s, s', hs, hs', htext⟩ := hashedAlike_ok hiddenPair halike
  refine ⟨s, s', hs, hs', by decide +kernel, by rw [Snapshot.restDigest, htext]; rfl, ?_⟩
  rw [← render_eq_iff _ _ _ _ (prune_distinct _ _ _ (load_distinct hs))
    (prune_distinct _ _ _ (load_distinct hs'))]
  unfold toldApart at hapart
  rw [hs, hs'] at hapart
  simpa using hapart

end Netops.Fortios

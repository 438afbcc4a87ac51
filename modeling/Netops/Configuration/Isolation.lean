import Mathlib.Data.Nat.Cast.Order.Ring
import Netops.Configuration.Cache

/-!
# What a caller gets from the cache

Whatever the callers do and in whatever order their sections come: the cache keeps its bounds, and what a
caller gets was built from snapshots that were his when he looked them up.

* `Inv`           what holds of the cache: every snapshot is the one that was stored under its identity,
                  apart from the view in its slot, and views and differences are those of what was stored;
* `Grows`         what the others may do in between;
* `Allowed`       what a program must know when it writes to the cache;
* `Served`        what a caller may rely on;
* `cache_isolated`.
-/

namespace Netops.Snapshots

open Filter Effect

/-! ## the invariant -/

/-- no two different requests for a view have the same digest -/
def Collisionless (key : Bytes) (requests : List (Text × Text × Int)) : Prop :=
  ∀ x ∈ requests, ∀ y ∈ requests,
    filterDigest key x.1 x.2.1 x.2.2 = filterDigest key y.1 y.2.1 y.2.2 → x = y

/-- what is assumed of a run: no identity was drawn twice, and no two requests share a digest -/
structure Fair (key : Bytes) (c : Cache) : Prop where
  drawn : c.drawn.Nodup
  digests : Collisionless key c.digested

/-- a snapshot as it was stored under the identity, apart from its slot -/
def Cache.Origin (c : Cache) (identity : Text) (s : Snapshot) : Prop :=
  ∃ o, (identity, o) ∈ c.stored ∧ s = { o with filtered := s.filtered }

/-- what was stored under the two identities has this difference -/
def Cache.Differs (c : Cache) (pair : Text × Text) (value : Compared) : Prop :=
  ∃ left right, (pair.1, left) ∈ c.stored ∧ (pair.2, right) ∈ c.stored ∧
    ∃ h : left.profile = right.profile, left.compareWith .free right h = .ok value

/-- a view of the snapshot, under the digest of the request for it -/
def Cache.Viewed (key : Bytes) (c : Cache) (identity : Text) (s : Snapshot) (digest : Text) (shown : Shown) :
    Prop :=
  ∃ needle context, (identity, needle, context) ∈ c.digested ∧
    digest = filterDigest key identity needle context ∧ s.view .free (some needle) context = .ok shown

/-- how many snapshots of a target are kept -/
def kept (target : Bytes × Text × Text) (d : List (Text × Held)) : Nat :=
  (d.filter fun x => x.2.snapshot.scope.target = target).length

structure Inv (key : Bytes) (c : Cache) : Prop where
  distinct : (Dict.keys c.snapshots).Nodup
  total : c.snapshots.length ≤ 16
  perTarget : ∀ target, kept target c.snapshots ≤ 4
  names : (Dict.keys c.stored).Sublist c.drawn
  origin : ∀ x ∈ c.snapshots, c.Origin x.1 x.2.snapshot
  slot : ∀ x ∈ c.snapshots, ∀ digest shown, x.2.snapshot.filtered = some (digest, shown) →
    c.Viewed key x.1 x.2.snapshot digest shown
  diffs : ∀ x ∈ c.diffs, c.Differs x.1 x.2

/-- what has happened is not forgotten -/
structure Grows (s t : Cache) : Prop where
  drawn : s.drawn <:+ t.drawn
  stored : s.stored <:+ t.stored
  digested : s.digested <:+ t.digested
  looks : s.looks <:+ t.looks

theorem Grows.same {s t : Cache} (hdrawn : t.drawn = s.drawn) (hstored : t.stored = s.stored)
    (hdigested : t.digested = s.digested) (hlooks : t.looks = s.looks) : Grows s t := by
  constructor
  · rw [hdrawn]
  · rw [hstored]
  · rw [hdigested]
  · rw [hlooks]

theorem Grows.refl (s : Cache) : Grows s s := .same rfl rfl rfl rfl

theorem Grows.trans {s t u : Cache} (h : Grows s t) (h' : Grows t u) : Grows s u :=
  ⟨h.drawn.trans h'.drawn, h.stored.trans h'.stored, h.digested.trans h'.digested, h.looks.trans h'.looks⟩

section
variable {key : Bytes} {s t : Cache} {identity : Text} {snapshot : Snapshot}

theorem Fair.before (h : Fair key t) (hg : Grows s t) : Fair key s where
  drawn := h.drawn.sublist hg.drawn.sublist
  digests x hx y hy := h.digests x (hg.digested.subset hx) y (hg.digested.subset hy)

theorem Cache.Origin.grows (h : s.Origin identity snapshot) (hg : Grows s t) : t.Origin identity snapshot := by
  obtain ⟨o, ho, heq⟩ := h
  exact ⟨o, hg.stored.subset ho, heq⟩

theorem Cache.Differs.grows {pair : Text × Text} {value : Compared} (h : s.Differs pair value)
    (hg : Grows s t) : t.Differs pair value := by
  obtain ⟨left, right, hl, hr, hv⟩ := h
  exact ⟨left, right, hg.stored.subset hl, hg.stored.subset hr, hv⟩

theorem Cache.Viewed.grows {digest : Text} {shown : Shown} (h : s.Viewed key identity snapshot digest shown)
    (hg : Grows s t) : t.Viewed key identity snapshot digest shown := by
  obtain ⟨needle, context, hd, hv⟩ := h
  exact ⟨needle, context, hg.digested.subset hd, hv⟩

/-- what was stored under an identity was stored once -/
theorem Inv.stored_unique (h : Inv key s) (hf : Fair key s) {a b : Snapshot} (ha : (identity, a) ∈ s.stored)
    (hb : (identity, b) ∈ s.stored) : a = b :=
  (Prod.mk.inj (Dict.eq_of_mem (hf.drawn.sublist h.names) ha hb rfl)).2

theorem Inv.origin_unique (h : Inv key s) (hf : Fair key s) {a b : Snapshot} (ha : s.Origin identity a)
    (hb : s.Origin identity b) : a = { b with filtered := a.filtered } := by
  obtain ⟨o, ho, hao⟩ := ha
  obtain ⟨o', ho', hbo⟩ := hb
  obtain rfl := h.stored_unique hf ho ho'
  rw [hao, hbo]

end

/-! ## fewer snapshots -/

theorem kept_sublist {target : Bytes × Text × Text} {d e : List (Text × Held)} (h : d.Sublist e) :
    kept target d ≤ kept target e := (h.filter _).length_le

/-- a cache with fewer snapshots and differences, in which more has happened -/
theorem Inv.less {key : Bytes} {s t : Cache} (h : Inv key s) (hg : Grows s t)
    (hs : t.snapshots.Sublist s.snapshots) (hd : t.diffs ⊆ s.diffs)
    (hn : (Dict.keys t.stored).Sublist t.drawn) : Inv key t where
  distinct := h.distinct.sublist (hs.map _)
  total := hs.length_le.trans h.total
  perTarget target := (kept_sublist hs).trans (h.perTarget target)
  names := hn
  origin x hx := (h.origin x (hs.subset hx)).grows hg
  slot x hx digest shown hf := (h.slot x (hs.subset hx) digest shown hf).grows hg
  diffs x hx := (h.diffs x (hd hx)).grows hg

section
variable {key : Bytes} {c : Cache}

theorem Cache.grows_tick (now : ℚ) (c : Cache) : Grows c (c.tick now) :=
  .same rfl rfl rfl rfl

theorem Cache.grows_prune (c : Cache) : Grows c c.prune := .same rfl rfl rfl rfl

theorem Cache.grows_look (caller : Nat) (c : Cache) : Grows c (c.look caller) :=
  ⟨List.suffix_rfl, List.suffix_rfl, List.suffix_rfl, List.suffix_cons _ _⟩

theorem Inv.tick (h : Inv key c) (now : ℚ) : Inv key (c.tick now) :=
  h.less (c.grows_tick now) (List.Sublist.refl _) (fun _ hx => hx) h.names

theorem Cache.prune_sublist (c : Cache) : c.prune.snapshots.Sublist c.snapshots := List.filter_sublist

theorem Inv.prune (h : Inv key c) : Inv key c.prune :=
  h.less c.grows_prune c.prune_sublist (List.filter_sublist (l := c.diffs)).subset h.names

theorem Inv.look (h : Inv key c) (caller : Nat) : Inv key (c.look caller) :=
  h.less (c.grows_look caller) (List.Sublist.refl _) (fun _ hx => hx) h.names

/-- some snapshots go -/
theorem Inv.filtered (h : Inv key c) (p : Text × Held → Bool) :
    Inv key { c with snapshots := c.snapshots.filter p } :=
  h.less (.same rfl rfl rfl rfl) List.filter_sublist (fun _ hx => hx) h.names

theorem Inv.discard (h : Inv key c) (identity : Text) : Inv key (c.discard identity) := (h.filtered _).prune

theorem Inv.beginCapture (h : Inv key c) (target : Option Scope) : Inv key (c.beginCapture target) := by
  cases target with
  | none => exact h.prune
  | some s => exact (h.filtered _).prune

theorem Cache.grows_beginCapture (target : Option Scope) (c : Cache) : Grows c (c.beginCapture target) := by
  cases target with
  | none => exact .same rfl rfl rfl rfl
  | some s => exact .same rfl rfl rfl rfl

end

/-! ## one more snapshot -/

theorem evictSame_sublist (same : List Text) (d : List (Text × Held)) : (evictSame same d).Sublist d := by
  induction same generalizing d with
  | nil => exact List.Sublist.refl d
  | cons identity same ih =>
    rw [evictSame]
    split_ifs
    · exact (ih _).trans List.filter_sublist
    · exact List.Sublist.refl d

/-- the names of the snapshots of a target -/
def named (target : Bytes × Text × Text) (d : List (Text × Held)) : List Text :=
  Dict.keys (d.filter fun x => x.2.snapshot.scope.target = target)

theorem named_length (target : Bytes × Text × Text) (d : List (Text × Held)) :
    (named target d).length = kept target d := List.length_map _

theorem named_without {target : Bytes × Text × Text} {d : List (Text × Held)} {identity : Text}
    {same : List Text} (hd : (Dict.keys d).Nodup) (h : named target d = identity :: same) :
    named target (d.filter fun x => x.1 ≠ identity) = same := by
  have hnodup : (named target d).Nodup := Dict.nodup_keys_filter _ hd
  have hcomm : named target (d.filter fun x => x.1 ≠ identity)
      = (named target d).filter fun i => i ≠ identity := by
    rw [named, named, Dict.keys, Dict.keys, List.filter_map, List.filter_filter, List.filter_filter]
    congr 1
    refine List.filter_congr fun x _ => ?_
    exact Bool.and_comm _ _
  rw [hcomm, h]
  rw [h] at hnodup
  have hnotin := (List.nodup_cons.1 hnodup).1
  rw [List.filter_cons, if_neg (by simp), List.filter_eq_self]
  intro i hi
  rw [decide_eq_true_eq]
  rintro rfl
  exact hnotin hi

/-- at most three are left -/
theorem kept_evictSame {target : Bytes × Text × Text} {same : List Text} {d : List (Text × Held)}
    (hd : (Dict.keys d).Nodup) (h : named target d = same) : kept target (evictSame same d) ≤ 3 := by
  induction same generalizing d with
  | nil =>
    rw [evictSame, ← named_length, h]
    exact Nat.zero_le 3
  | cons identity same ih =>
    rw [evictSame]
    split_ifs with hlen
    · exact ih (hd.sublist (List.filter_sublist.map _)) (named_without hd h)
    · rw [← named_length, h]
      omega

theorem evictOld_suffix (d : List (Text × Held)) : evictOld d <:+ d := by
  induction d with
  | nil => exact List.suffix_rfl
  | cons x d ih =>
    rw [evictOld]
    split_ifs
    · exact ih.trans (List.suffix_cons x d)
    · exact List.suffix_rfl

theorem evictOld_length (d : List (Text × Held)) : (evictOld d).length ≤ 15 := by
  induction d with
  | nil => exact Nat.zero_le 15
  | cons x d ih =>
    rw [evictOld]
    split_ifs with h
    · exact ih
    · omega

section
variable {key : Bytes} {c : Cache}

/-- there is room for one more snapshot of the target, and for one more of all -/
theorem kept_append {target : Bytes × Text × Text} {d : List (Text × Held)} {identity : Text} {held : Held}
    (hsame : kept held.snapshot.scope.target d ≤ 3) (hall : ∀ t, kept t d ≤ 4) :
    kept target (d ++ [(identity, held)]) ≤ 4 := by
  rw [kept, List.filter_append, List.length_append]
  by_cases ht : held.snapshot.scope.target = target
  · rw [ht] at hsame
    rw [List.filter_cons, if_pos (by simpa using ht), List.filter_nil]
    exact Nat.add_le_add_right hsame 1
  · rw [List.filter_cons, if_neg (by simpa using ht), List.filter_nil]
    exact hall target

/-- a new snapshot under a new identity -/
theorem Inv.putNew (h : Inv key c) {identity : Text} {s : Snapshot} (hnew : identity ∉ Dict.keys c.snapshots)
    (hs : s.filtered = none) (hthree : kept s.scope.target c.snapshots ≤ 3)
    (hfifteen : c.snapshots.length ≤ 15) (hnames : (identity :: Dict.keys c.stored).Sublist c.drawn) :
    Inv key { c.put identity s with stored := (identity, s) :: c.stored } := by
  have hset : (c.put identity s).snapshots = c.snapshots ++ [(identity, ⟨c.objects, s⟩)] := Dict.set_new hnew
  have hg : Grows c { c.put identity s with stored := (identity, s) :: c.stored } :=
    ⟨List.suffix_rfl, List.suffix_cons _ _, List.suffix_rfl, List.suffix_rfl⟩
  constructor
  · exact Dict.nodup_keys_set identity _ h.distinct
  · show (c.put identity s).snapshots.length ≤ 16
    rw [hset, List.length_append]
    exact Nat.add_le_add_right hfifteen 1
  · intro target
    show kept target (c.put identity s).snapshots ≤ 4
    rw [hset]
    exact kept_append hthree h.perTarget
  · exact hnames
  · intro x hx
    rw [show ({ c.put identity s with stored := (identity, s) :: c.stored } : Cache).snapshots
      = (c.put identity s).snapshots from rfl, hset] at hx
    rcases List.mem_append.1 hx with hx | hx
    · exact (h.origin x hx).grows hg
    · obtain rfl := List.mem_singleton.1 hx
      exact ⟨s, List.mem_cons_self, rfl⟩
  · intro x hx digest shown hf
    rw [show ({ c.put identity s with stored := (identity, s) :: c.stored } : Cache).snapshots
      = (c.put identity s).snapshots from rfl, hset] at hx
    rcases List.mem_append.1 hx with hx | hx
    · exact (h.slot x hx digest shown hf).grows hg
    · obtain rfl := List.mem_singleton.1 hx
      exact nomatch hs.symm.trans hf
  · exact fun x hx => (h.diffs x hx).grows hg

theorem Cache.grows_insert (s : Snapshot) (tokens : List Text) (refused : Bool) (c : Cache) :
    Grows c (c.insert s tokens refused).2 := by
  rw [Cache.insert]
  split
  · exact ⟨List.suffix_append _ _, List.suffix_rfl, List.suffix_rfl, List.suffix_rfl⟩
  · split_ifs
    · exact ⟨List.suffix_append _ _, List.suffix_rfl, List.suffix_rfl, List.suffix_rfl⟩
    · exact ⟨List.suffix_append _ _, List.suffix_cons _ _, List.suffix_rfl, List.suffix_rfl⟩

/-- what the section of `store` leads to -/
theorem Inv.insert (h : Inv key c) {s : Snapshot} (hs : s.filtered = none) (tokens : List Text)
    (refused : Bool) : Inv key (c.insert s tokens refused).2 := by
  have hdistinct : (Dict.keys (c.snapshots.filter fun x => !expired s.created x.2.snapshot)).Nodup :=
    Dict.nodup_keys_filter _ h.distinct
  generalize hfresh : (c.snapshots.filter fun x => !expired s.created x.2.snapshot) = fresh at hdistinct
  have hsub : (evictOld (evictSame (named s.scope.target fresh) fresh)).Sublist c.snapshots := by
    refine ((evictOld_suffix _).sublist.trans (evictSame_sublist _ _)).trans ?_
    rw [← hfresh]
    exact List.filter_sublist
  have hthree : kept s.scope.target (evictOld (evictSame (named s.scope.target fresh) fresh)) ≤ 3 :=
    (kept_sublist (evictOld_suffix _).sublist).trans (kept_evictSame hdistinct rfl)
  have hfifteen := evictOld_length (evictSame (named s.scope.target fresh) fresh)
  rw [Cache.insert, hfresh]
  generalize hleft : evictOld (evictSame (named s.scope.target fresh) fresh) = left at hsub hthree hfifteen
  rw [named] at hleft
  dsimp only
  rw [hleft]
  split
  · rename_i hall
    have hg : Grows c { c with snapshots := left, drawn := tokens ++ c.drawn } :=
      ⟨List.suffix_append _ _, List.suffix_rfl, List.suffix_rfl, List.suffix_rfl⟩
    exact h.less hg hsub (fun _ hx => hx) (h.names.trans (List.sublist_append_right _ _))
  · rename_i identity rest hnew
    -- the identity is not in use
    have hunused : identity ∉ Dict.keys left := by
      have hhead := List.head?_dropWhile_not (fun i => decide (i ∈ Dict.keys left)) tokens
      rw [hnew] at hhead
      simpa using hhead
    generalize hdrawn : identity :: tokens.takeWhile (fun i => decide (i ∈ Dict.keys left)) ++ c.drawn = drawn
    have hd : c.drawn <:+ drawn := by
      rw [← hdrawn]
      exact List.suffix_append _ _
    have hnames : (Dict.keys c.stored).Sublist drawn := h.names.trans hd.sublist
    have hg : Grows c { c with snapshots := left, drawn := drawn } :=
      ⟨hd, List.suffix_rfl, List.suffix_rfl, List.suffix_rfl⟩
    have hless : Inv key { c with snapshots := left, drawn := drawn } := h.less hg hsub (fun _ hx => hx) hnames
    split_ifs
    · exact hless.prune
    · have hless' := Cache.prune_sublist { c with snapshots := left, drawn := drawn }
      refine hless.prune.putNew (fun hin => hunused ((hless'.map _).subset hin)) hs
        ((kept_sublist hless').trans hthree) (hless'.length_le.trans hfifteen) ?_
      show (identity :: Dict.keys c.stored).Sublist drawn
      rw [← hdrawn]
      exact (h.names.trans (List.sublist_append_right _ _)).cons_cons identity

end

/-! ## views and differences -/

section
variable {key : Bytes} {c : Cache}

theorem kept_set {target : Bytes × Text × Text} {d : List (Text × Held)} {identity : Text} {held old : Held}
    (hd : (Dict.keys d).Nodup) (hold : Dict.get identity d = some old)
    (hsame : held.snapshot.scope = old.snapshot.scope) : kept target (Dict.set identity held d) = kept target d := by
  induction d with
  | nil => exact nomatch hold
  | cons x d ih =>
    obtain ⟨k, v⟩ := x
    rw [Dict.get] at hold
    rw [Dict.set]
    split_ifs at hold ⊢ with hk
    · cases hold
      rw [kept, kept, List.filter_cons, List.filter_cons]
      dsimp only
      rw [hsame]
      split_ifs <;> rfl
    · have hrest := ih (List.nodup_cons.1 hd).2 hold
      rw [kept, kept] at hrest ⊢
      rw [List.filter_cons, List.filter_cons]
      split_ifs
      · rw [List.length_cons, List.length_cons, hrest]
      · exact hrest

/-- another object takes the place of a snapshot: it is the same one, with another view -/
theorem Inv.putSame (h : Inv key c) (hf : Fair key c) {identity : Text} {s : Snapshot}
    (hin : identity ∈ Dict.keys c.snapshots) (ho : c.Origin identity s)
    (hslot : ∀ digest shown, s.filtered = some (digest, shown) → c.Viewed key identity s digest shown) :
    Inv key (c.put identity s) := by
  obtain ⟨old, hold⟩ := Dict.exists_get hin
  have holdo : c.Origin identity old.snapshot := h.origin _ (Dict.mem_of_get hold)
  have hscope : s.scope = old.snapshot.scope := by rw [h.origin_unique hf ho holdo]
  have hmem : ∀ x ∈ (c.put identity s).snapshots, x = (identity, ⟨c.objects, s⟩) ∨ x ∈ c.snapshots := by
    rintro ⟨k, v⟩ hx
    rcases (Dict.mem_set_iff h.distinct).1 hx with ⟨rfl, rfl⟩ | ⟨-, hx⟩
    · exact .inl rfl
    · exact .inr hx
  constructor
  · exact Dict.nodup_keys_set identity _ h.distinct
  · have hlen : (c.put identity s).snapshots.length = c.snapshots.length := by
      rw [← List.length_map (f := Prod.fst), ← List.length_map (f := Prod.fst)]
      exact congrArg List.length (Dict.keys_set hin)
    rw [hlen]
    exact h.total
  · intro target
    show kept target (Dict.set identity ⟨c.objects, s⟩ c.snapshots) ≤ 4
    rw [kept_set h.distinct hold hscope]
    exact h.perTarget target
  · exact h.names
  · intro x hx
    rcases hmem x hx with rfl | hx
    · exact ho
    · exact h.origin x hx
  · intro x hx digest shown hfil
    rcases hmem x hx with rfl | hx
    · exact hslot digest shown hfil
    · exact h.slot x hx digest shown hfil
  · exact h.diffs

end

/-! ## lookups -/

def Lookup.auth : Lookup → Auth
  | .minimal auth _ _ _ => auth
  | .full auth _ _ _ => auth

def Lookup.platform : Lookup → Text
  | .minimal _ _ platform _ => platform
  | .full _ _ platform _ => platform

/-- the section, and the profile or the options of the capture -/
def Lookup.Meets (s : Snapshot) : Lookup → Prop
  | .minimal _ part _ profile => s.part = part ∧ s.profile = profile
  | .full _ part _ includeDefaults =>
    s.part = part ∧ s.profile ≠ minimalProfile ∧ s.metadata ≠ none ∧ s.includeDefaults = includeDefaults

/-- when the caller looked, the snapshot was there, was not too old, and was stored under his scope -/
structure Look.Found (key : Bytes) (c : Cache) (look : Look) (auth : Auth) (platform identity : Text)
    (held : Held) : Prop where
  present : Dict.get identity look.snapshots = some held
  young : look.clock - held.snapshot.created ≤ ttl
  inScope : scope key auth platform = .ok held.snapshot.scope
  stored : c.Origin identity held.snapshot

theorem Look.Found.grows {key : Bytes} {s t : Cache} {look : Look} {auth : Auth} {platform identity : Text}
    {held : Held} (h : look.Found key s auth platform identity held) (hg : Grows s t) :
    look.Found key t auth platform identity held := { h with stored := h.stored.grows hg }

section
variable {key : Bytes} {c : Cache} {identity : Text} {held : Held}

theorem not_expired_iff {now : ℚ} {s : Snapshot} : expired now s = false ↔ now - s.created ≤ ttl := by
  rw [expired, decide_eq_false_iff_not, not_lt]

theorem scopedSnapshot_ok {auth : Auth} {part platform : Text}
    (h : c.scopedSnapshot key auth identity part platform = .ok held) :
    Dict.get identity c.snapshots = some held ∧ c.clock - held.snapshot.created ≤ ttl ∧
      scope key auth platform = .ok held.snapshot.scope ∧ held.snapshot.part = part := by
  rw [Cache.scopedSnapshot] at h
  split_ifs at h
  split at h
  · cases h
  · rename_i old hold
    by_cases hexp : expired c.clock old.snapshot = true
    · rw [if_pos hexp] at h
      cases h
    · rw [if_neg hexp] at h
      split at h
      · cases h
      · rename_i s hs
        split_ifs at h with hne
        cases h
        push Not at hne
        rw [hs, hne.1]
        exact ⟨hold, not_expired_iff.1 (Bool.eq_false_iff.2 hexp), rfl, hne.2⟩

/-- what a lookup finds is as it was asked for -/
theorem Lookup.run_ok {l : Lookup} (h : l.run key identity c = .ok held) :
    Dict.get identity c.snapshots = some held ∧ c.clock - held.snapshot.created ≤ ttl ∧
      scope key l.auth l.platform = .ok held.snapshot.scope ∧ l.Meets held.snapshot := by
  cases l with
  | minimal auth part platform profile =>
    rw [Lookup.run] at h
    split_ifs at h
    split at h
    · cases h
    · rename_i old hold
      obtain ⟨hget, hyoung, hscope, hpart⟩ := scopedSnapshot_ok hold
      split_ifs at h with hprofile
      cases h
      exact ⟨hget, hyoung, hscope, hpart, not_not.1 hprofile⟩
  | full auth part platform includeDefaults =>
    rw [Lookup.run] at h
    split at h
    · cases h
    · rename_i old hold
      obtain ⟨hget, hyoung, hscope, hpart⟩ := scopedSnapshot_ok hold
      split_ifs at h with hprofile hoptions
      cases h
      push Not at hoptions
      exact ⟨hget, hyoung, hscope, hpart, hoptions⟩

/-- the caller has found the snapshot in a lookup of his -/
def Cache.Sees (key : Bytes) (c : Cache) (caller : Nat) (auth : Auth) (platform identity : Text) (held : Held) :
    Prop :=
  ∃ look ∈ c.looks, look.caller = caller ∧ look.Found key c auth platform identity held

theorem Cache.Sees.grows {s t : Cache} {caller : Nat} {auth : Auth} {platform : Text}
    (h : s.Sees key caller auth platform identity held) (hg : Grows s t) :
    t.Sees key caller auth platform identity held := by
  obtain ⟨look, hlook, hcaller, hfound⟩ := h
  exact ⟨look, hg.looks.subset hlook, hcaller, hfound.grows hg⟩

theorem sees_of_run (hi : Inv key c) (caller : Nat) {l : Lookup} (h : l.run key identity c = .ok held) :
    (c.look caller).Sees key caller l.auth l.platform identity held := by
  obtain ⟨hget, hyoung, hscope, -⟩ := Lookup.run_ok h
  exact ⟨_, List.mem_cons_self, rfl, hget, hyoung, hscope,
    (hi.origin _ (Dict.mem_of_get hget)).grows (c.grows_look caller)⟩

/-- the request for a view is noted -/
def Cache.note (identity needle : Text) (context : Int) (c : Cache) : Cache :=
  { c with digested := (identity, needle, context) :: c.digested }

/-- what the first section of `filtered_snapshot` can lead to -/
inductive Begun (key : Bytes) (caller : Nat) (l : Lookup) (identity : Text) (f : Filtering) (c : Cache) :
    Except Refused (Shown ⊕ Held × Text × Text) × Cache → Prop where
  | refused (e : Refused) : Begun key caller l identity f c (.error e, c.look caller)
  | late (needle : Text) (hcontains : f.contains = some needle) :
      Begun key caller l identity f c (.error .viewExpired, (c.look caller).note identity needle f.context)
  | whole (held : Held) (hrun : l.run key identity c = .ok held) (hcontains : f.contains = none) :
      Begun key caller l identity f c (.ok (.inl (held.snapshot.text, 0, none)), c.look caller)
  | slot (held : Held) (needle : Text) (shown : Shown) (hrun : l.run key identity c = .ok held)
      (hcontains : f.contains = some needle)
      (hslot : held.snapshot.filtered = some (filterDigest key identity needle f.context, shown)) :
      Begun key caller l identity f c (.ok (.inl shown), (c.look caller).note identity needle f.context)
  | ready (held : Held) (needle : Text) (hrun : l.run key identity c = .ok held)
      (hcontains : f.contains = some needle) :
      Begun key caller l identity f c
        (.ok (.inr (⟨c.objects, { held.snapshot with filtered := none }⟩, needle,
          filterDigest key identity needle f.context)),
        ((c.look caller).note identity needle f.context).put identity { held.snapshot with filtered := none })

theorem begun (key : Bytes) (caller : Nat) (l : Lookup) (identity : Text) (f : Filtering) (offset : Int)
    (c : Cache) : Begun key caller l identity f c (c.beginView key caller l identity f offset) := by
  have hlook : l.run key identity (c.look caller) = l.run key identity c := by cases l <;> rfl
  rw [Cache.beginView, hlook]
  cases hrun : l.run key identity c with
  | error e => exact .refused e
  | ok held =>
    dsimp only
    cases hcontains : f.contains with
    | none => exact .whole held hrun hcontains
    | some needle =>
      -- without the view, the snapshot is made ready for it
      have hready : Begun key caller l identity f c
          (((c.look caller).note identity needle f.context).readyView identity held needle
            (filterDigest key identity needle f.context) offset) := by
        rw [Cache.readyView]
        split_ifs
        · exact .late needle hcontains
        · exact .ready held needle hrun hcontains
      dsimp only
      cases hslot : held.snapshot.filtered with
      | none => exact hready
      | some slot =>
        obtain ⟨digest, shown⟩ := slot
        dsimp only
        split_ifs with hd
        · rw [hd] at hslot
          exact .slot held needle shown hrun hcontains hslot
        · exact hready

theorem Cache.grows_note (needle : Text) (context : Int) (c : Cache) : Grows c (c.note identity needle context) :=
  ⟨List.suffix_rfl, List.suffix_rfl, List.suffix_cons _ _, List.suffix_rfl⟩

theorem Cache.grows_put (s : Snapshot) (c : Cache) : Grows c (c.put identity s) := .same rfl rfl rfl rfl

theorem Inv.note (h : Inv key c) (needle : Text) (context : Int) : Inv key (c.note identity needle context) :=
  h.less (c.grows_note needle context) (List.Sublist.refl _) (fun _ hx => hx) h.names

theorem Begun.grows {caller : Nat} {l : Lookup} {f : Filtering}
    {r : Except Refused (Shown ⊕ Held × Text × Text) × Cache} (h : Begun key caller l identity f c r) :
    Grows c r.2 := by
  have hlook := c.grows_look caller
  cases h with
  | refused e => exact hlook
  | late needle _ => exact hlook.trans (Cache.grows_note needle f.context _)
  | whole held _ _ => exact hlook
  | slot held needle shown _ _ _ => exact hlook.trans (Cache.grows_note needle f.context _)
  | ready held needle _ _ =>
    exact (hlook.trans (Cache.grows_note needle f.context _)).trans (Cache.grows_put _ _)

theorem Begun.inv {caller : Nat} {l : Lookup} {f : Filtering}
    {r : Except Refused (Shown ⊕ Held × Text × Text) × Cache} (h : Begun key caller l identity f c r)
    (hi : Inv key c) (hf : Fair key r.2) : Inv key r.2 := by
  have hlook := hi.look caller
  cases h with
  | refused e => exact hlook
  | late needle _ => exact hlook.note needle f.context
  | whole held _ _ => exact hlook
  | slot held needle shown _ _ _ => exact hlook.note needle f.context
  | ready held needle hrun _ =>
    obtain ⟨hget, -⟩ := Lookup.run_ok hrun
    refine (hlook.note needle f.context).putSame (hf.before (Cache.grows_put _ _))
      (Dict.mem_keys (Dict.mem_of_get hget)) ?_ fun digest shown hslot => (nomatch hslot)
    obtain ⟨o, ho, heq⟩ := hi.origin _ (Dict.mem_of_get hget)
    exact ⟨o, ho, by rw [heq]⟩

/-- what the section of `compare` leads to -/
theorem pair_cases (key : Bytes) (caller : Nat) (auth : Auth) (base other platform : Text) (c : Cache) :
    (c.pair key caller auth base other platform).2 = c.prune.look caller ∧
    ∀ left right, (c.pair key caller auth base other platform).1 = .ok (left, right) →
      Dict.get base c.prune.snapshots = some left ∧ Dict.get other c.prune.snapshots = some right ∧
        scope key auth platform = .ok left.snapshot.scope ∧
        scope key auth platform = .ok right.snapshot.scope := by
  rw [Cache.pair]
  split
  · rename_i left right hleft hright
    split
    · exact ⟨rfl, fun _ _ h => (by cases h)⟩
    · rename_i sc hsc
      split_ifs with hne
      · exact ⟨rfl, fun _ _ h => (by cases h)⟩
      · push Not at hne
        refine ⟨rfl, fun l r h => ?_⟩
        cases h
        rw [hsc, hne.1, hne.2]
        exact ⟨hleft, hright, rfl, rfl⟩
  · exact ⟨rfl, fun _ _ h => (by cases h)⟩

/-- what `_prune` leaves is not too old -/
theorem young_of_prune (h : Dict.get identity c.prune.snapshots = some held) :
    c.prune.clock - held.snapshot.created ≤ ttl := by
  have hmem := List.of_mem_filter (Dict.mem_of_get h)
  rw [Bool.not_eq_true'] at hmem
  exact not_expired_iff.1 hmem

/-- what the second section of `filtered_snapshot` leads to -/
theorem endView_cases {baseline : Held} {fingerprint : Text} {shown : Shown} {refused : Bool} :
    (c.endView identity baseline fingerprint shown refused).2 = c ∨
    identity ∈ Dict.keys c.snapshots ∧
      (c.endView identity baseline fingerprint shown refused).2
        = c.put identity { baseline.snapshot with filtered := some (fingerprint, shown) } := by
  rw [Cache.endView]
  split_ifs with hgone
  · exact .inl rfl
  · exact .inl rfl
  · push Not at hgone
    obtain ⟨held, hheld, -⟩ := Option.map_eq_some_iff.1 hgone.1
    exact .inr ⟨Dict.mem_keys (Dict.mem_of_get hheld), rfl⟩

end

/-! ## every operation -/

/-- what a program must know when it writes -/
def Allowed (key : Bytes) (c : Cache) : Op → Prop
  | .insert s => s.filtered = none
  | .remember pair value => Fair key c → c.Differs pair value
  | .endView identity baseline fingerprint shown => Fair key c →
    c.Origin identity baseline.snapshot ∧ c.Viewed key identity baseline.snapshot fingerprint shown
  | _ => True

/-- the invariant, as long as the run is fair -/
abbrev Sound (key : Bytes) (c : Cache) : Prop := Fair key c → Inv key c

section
variable {key : Bytes} {caller : Nat} {c : Cache}

theorem grows_exec (o : Op) (a : o.Ask) : Grows c ((machine key caller).exec o a c).2 := by
  cases o with
  | monotonic => exact c.grows_tick a
  | insert s =>
    obtain ⟨now, tokens, refused⟩ := a
    exact (c.grows_tick now).trans (Cache.grows_insert s tokens refused _)
  | pair auth base other platform =>
    rw [show ((machine key caller).exec (.pair auth base other platform) a c).2
      = ((c.tick a).pair key caller auth base other platform).2 from rfl, (pair_cases ..).1]
    exact ((c.grows_tick a).trans (Cache.grows_prune _)).trans (Cache.grows_look caller _)
  | known pair => exact Grows.refl c
  | «recall» pair => exact Grows.refl c
  | remember pair value => exact .same rfl rfl rfl rfl
  | memory => exact Grows.refl c
  | lookup l identity => exact (c.grows_tick a).trans (Cache.grows_look caller _)
  | beginView l identity f offset => exact (c.grows_tick a).trans (begun key caller l identity f offset _).grows
  | endView identity baseline fingerprint shown =>
    obtain ⟨now, refused⟩ := a
    refine (c.grows_tick now).trans ?_
    rcases @endView_cases (c.tick now) identity baseline fingerprint shown refused with h | ⟨-, h⟩
    · exact h.symm ▸ Grows.refl _
    · exact h.symm ▸ Cache.grows_put _ _
  | discard identity => exact .same rfl rfl rfl rfl
  | beginCapture target => exact (c.grows_tick a).trans (Cache.grows_beginCapture target _)

theorem sound_exec (hi : Sound key c) {o : Op} (hok : Allowed key c o) (a : o.Ask) :
    Sound key ((machine key caller).exec o a c).2 := by
  intro hf
  have hg : Grows c ((machine key caller).exec o a c).2 := grows_exec o a
  have hfair := hf.before hg
  have hinv := hi hfair
  cases o with
  | monotonic => exact hinv.tick a
  | insert s => exact (hinv.tick a.1).insert hok a.2.1 a.2.2
  | pair auth base other platform =>
    rw [show ((machine key caller).exec (.pair auth base other platform) a c).2
      = ((c.tick a).pair key caller auth base other platform).2 from rfl, (pair_cases ..).1]
    exact (hinv.tick a).prune.look caller
  | known pair => exact hinv
  | «recall» pair => exact hinv
  | remember pair value =>
    refine { hinv with diffs := ?_ }
    intro x hx
    rcases Dict.mem_set hx with rfl | hx
    · exact hok hfair
    · exact hinv.diffs x hx
  | memory => exact hinv
  | lookup l identity => exact (hinv.tick a).look caller
  | beginView l identity f offset => exact (begun key caller l identity f offset _).inv (hinv.tick a) hf
  | endView identity baseline fingerprint shown =>
    obtain ⟨now, refused⟩ := a
    have htick := hinv.tick now
    obtain ⟨horigin, hview⟩ := hok hfair
    rw [show ((machine key caller).exec (.endView identity baseline fingerprint shown) (now, refused) c).2
      = ((c.tick now).endView identity baseline fingerprint shown refused).2 from rfl]
    rcases @endView_cases (c.tick now) identity baseline fingerprint shown refused with h | ⟨hin, h⟩
    · rw [h]
      exact htick
    · rw [h]
      refine htick.putSame (hfair.before (.same rfl rfl rfl rfl)) hin ?_ ?_
      · obtain ⟨o, ho, heq⟩ := horigin
        exact ⟨o, ho, by rw [heq]⟩
      · intro digest shown' hslot
        cases hslot
        obtain ⟨needle, context, hd, hdigest, hshown⟩ := hview
        exact ⟨needle, context, hd, hdigest, hshown⟩
  | discard identity => exact (hinv.tick a).discard identity
  | beginCapture target => exact (hinv.tick a).beginCapture target

end

/-! ## every call -/

/-- what a caller gets.  A snapshot was found in a lookup of his and is as he asked for; a difference is
that of the two snapshots that he found; and a view is that of the text of the snapshot that he found. -/
def Served (key : Bytes) (c : Cache) (caller : Nat) : Call → Result → Prop
  | .compare auth base other platform withMetadata, r =>
    ∃ look ∈ c.looks, look.caller = caller ∧ ∃ left right,
      look.Found key c auth platform base left ∧ look.Found key c auth platform other right ∧
      ∃ (h : left.snapshot.profile = right.snapshot.profile) (value : Compared),
        left.snapshot.compareWith .free right.snapshot h = .ok value ∧
        r = .difference value (captures withMetadata left.snapshot right.snapshot)
  | .getSnapshot l identity, r =>
    ∃ held, c.Sees key caller l.auth l.platform identity held ∧ l.Meets held.snapshot ∧
      r = .snapshot held.snapshot
  | .filteredSnapshot l identity f _, r =>
    ∃ held, c.Sees key caller l.auth l.platform identity held ∧ l.Meets held.snapshot ∧
      ∃ shown, held.snapshot.view .free f.contains f.context = .ok shown ∧ r = .shown shown
  | _, _ => True

theorem Served.grows {key : Bytes} {s t : Cache} {caller : Nat} {call : Call} {r : Result}
    (h : Served key s caller call r) (hg : Grows s t) : Served key t caller call r := by
  cases call with
  | compare auth base other platform withMetadata =>
    obtain ⟨look, hlook, hcaller, left, right, hleft, hright, hv⟩ := h
    exact ⟨look, hg.looks.subset hlook, hcaller, left, right, hleft.grows hg, hright.grows hg, hv⟩
  | getSnapshot l identity =>
    obtain ⟨held, hsees, hmeets⟩ := h
    exact ⟨held, hsees.grows hg, hmeets⟩
  | filteredSnapshot l identity f offset =>
    obtain ⟨held, hsees, hmeets⟩ := h
    exact ⟨held, hsees.grows hg, hmeets⟩
  | store a => trivial
  | discardSnapshot identity => trivial
  | capture target => trivial

/-- what holds when a call has returned -/
def Answered (key : Bytes) (caller : Nat) (call : Call) (x : Except Refused Result) (c : Cache) : Prop :=
  ∀ r, x = .ok r → Fair key c → Served key c caller call r

/-- the program does what is allowed, and what it returns is as it should be -/
abbrev Keeps (key : Bytes) (caller : Nat) (call : Call) (m : P) (c : Cache) : Prop :=
  Safe (machine key caller) (Sound key) Grows (Allowed key) m (Answered key caller call) c

section
variable {key : Bytes} {caller : Nat} {call : Call} {c : Cache}

theorem Keeps.raise (e : Refused) : Keeps key caller call (.raise e) c := fun _ h => nomatch h

theorem Keeps.ret {r : Result} (h : Fair key c → Served key c caller call r) :
    Keeps key caller call (.ret r) c := by
  rintro r' hr hf
  cases hr
  exact h hf

theorem keeps_store (a : Storing) : Keeps key caller (.store a) (store key a) c := by
  rw [store]
  split
  · exact Keeps.raise _
  · split
    · exact Keeps.raise _
    · split
      · exact Keeps.raise _
      · split
        · exact Keeps.raise _
        · refine fun t _ _ => ⟨trivial, fun now => ?_⟩
          split
          · exact Keeps.raise _
          · refine fun t _ _ => ⟨rfl, fun a => ?_⟩
            dsimp only [machine]
            split
            · trivial
            · exact Keeps.raise _
            · exact Keeps.ret fun _ => trivial

theorem keeps_getSnapshot (l : Lookup) (identity : Text) :
    Keeps key caller (.getSnapshot l identity) (getSnapshot l identity) c := by
  refine fun t _ hi => ⟨trivial, fun now => ?_⟩
  dsimp only [machine]
  split
  · exact Keeps.raise _
  · rename_i held hrun
    refine Keeps.ret fun hf => ?_
    have hinv := hi (hf.before ((t.grows_tick now).trans (Cache.grows_look caller _)))
    exact ⟨held, sees_of_run (hinv.tick now) caller hrun, (Lookup.run_ok hrun).2.2.2, rfl⟩

/-- the views in the slots do not matter for a difference -/
theorem compareWith_congr {a b a' b' : Snapshot} (ha : a = { a' with filtered := a.filtered })
    (hb : b = { b' with filtered := b.filtered }) (h : a.profile = b.profile) (h' : a'.profile = b'.profile)
    (budget : Budget) : a.compareWith budget b h = a'.compareWith budget b' h' := by
  obtain ⟨x, rfl⟩ : ∃ x, a = { a' with filtered := x } := ⟨_, ha⟩
  obtain ⟨y, rfl⟩ : ∃ y, b = { b' with filtered := y } := ⟨_, hb⟩
  rfl

/-- the caller has found both snapshots in one lookup -/
def Cache.SeesBoth (key : Bytes) (c : Cache) (caller : Nat) (auth : Auth) (platform base other : Text)
    (left right : Held) : Prop :=
  ∃ look ∈ c.looks, look.caller = caller ∧ look.Found key c auth platform base left ∧
    look.Found key c auth platform other right

theorem Cache.SeesBoth.grows {s t : Cache} {auth : Auth} {platform base other : Text} {left right : Held}
    (h : s.SeesBoth key caller auth platform base other left right) (hg : Grows s t) :
    t.SeesBoth key caller auth platform base other left right := by
  obtain ⟨look, hlook, hcaller, hleft, hright⟩ := h
  exact ⟨look, hg.looks.subset hlook, hcaller, hleft.grows hg, hright.grows hg⟩

/-- a difference that is kept is that of the snapshots that were found -/
theorem Inv.differs (hi : Inv key c) (hf : Fair key c) {auth : Auth} {platform base other : Text}
    {left right : Held} (hsees : c.SeesBoth key caller auth platform base other left right)
    (h : left.snapshot.profile = right.snapshot.profile) {value : Compared} (hv : c.Differs (base, other) value) :
    left.snapshot.compareWith .free right.snapshot h = .ok value := by
  obtain ⟨look, -, -, hleft, hright⟩ := hsees
  obtain ⟨a, b, ha, hb, hprofile, hvalue⟩ := hv
  obtain ⟨o, ho, hlo⟩ := hleft.stored
  obtain ⟨o', ho', hro⟩ := hright.stored
  obtain rfl := hi.stored_unique hf ho ha
  obtain rfl := hi.stored_unique hf ho' hb
  rw [compareWith_congr hlo hro h hprofile, hvalue]

theorem differs_of_compareWith {auth : Auth} {platform base other : Text} {left right : Held}
    (hsees : c.SeesBoth key caller auth platform base other left right)
    (h : left.snapshot.profile = right.snapshot.profile) {value : Compared} {budget : Budget}
    (hv : left.snapshot.compareWith budget right.snapshot h = .ok value) : c.Differs (base, other) value := by
  obtain ⟨look, -, -, hleft, hright⟩ := hsees
  obtain ⟨o, ho, hlo⟩ := hleft.stored
  obtain ⟨o', ho', hro⟩ := hright.stored
  have hprofile : o.profile = o'.profile := by
    rw [hlo, hro] at h
    exact h
  refine ⟨o, o', ho, ho', hprofile, ?_⟩
  rw [← compareWith_congr hlo hro h hprofile]
  exact compareCaptures_free hv

theorem keeps_compare (auth : Auth) (base other platform : Text) (withMetadata : Bool) :
    Keeps key caller (.compare auth base other platform withMetadata)
      (compare auth base other platform withMetadata) c := by
  rw [compare]
  split
  · exact Keeps.raise _
  · refine fun t _ hi => ⟨trivial, fun now => ?_⟩
    obtain ⟨hstate, hpair⟩ := pair_cases key caller auth base other platform (t.tick now)
    dsimp only [machine]
    split
    · exact Keeps.raise _
    · rename_i left right hok
      -- what the caller knows from here on
      have hsees : Fair key ((t.tick now).pair key caller auth base other platform).2 →
          ((t.tick now).pair key caller auth base other platform).2.SeesBoth key caller auth platform base
            other left right := by
        intro hf
        obtain ⟨hleft, hright, hsl, hsr⟩ := hpair left right hok
        rw [hstate] at hf ⊢
        have hinv := hi (hf.before (.trans (.trans (t.grows_tick now) (Cache.grows_prune _))
          (Cache.grows_look caller _)))
        have hpruned := (hinv.tick now).prune
        exact ⟨_, List.mem_cons_self, rfl,
          ⟨hleft, young_of_prune (c := t.tick now) hleft, hsl, hpruned.origin _ (Dict.mem_of_get hleft)⟩,
          ⟨hright, young_of_prune (c := t.tick now) hright, hsr, hpruned.origin _ (Dict.mem_of_get hright)⟩⟩
      split
      · rename_i hfacts
        have hprofile : left.snapshot.profile = right.snapshot.profile := congrArg (·.2.2.1) hfacts
        refine fun u hg _ => ⟨trivial, fun _ => ?_⟩
        dsimp only [machine]
        split
        · refine fun v hg' hiv => ⟨trivial, fun _ => ?_⟩
          dsimp only [machine]
          split
          · exact Keeps.raise _
          · rename_i value hvalue
            refine Keeps.ret fun hf => ?_
            have hboth := (hsees (hf.before (hg.trans hg'))).grows (hg.trans hg')
            have hdiff := (hiv hf).differs hf hboth hprofile ((hiv hf).diffs _ (Dict.mem_of_get hvalue))
            obtain ⟨look, hlook, hcaller, hleft, hright⟩ := hboth
            exact ⟨look, hlook, hcaller, left, right, hleft, hright, hprofile, value, hdiff, rfl⟩
        · refine fun v hg' _ => ⟨trivial, fun budget => ?_⟩
          dsimp only [machine]
          split
          · exact Keeps.raise _
          · rename_i value hvalue
            have hgv := hg.trans hg'
            refine fun w hg'' _ => ⟨fun hf => ?_, fun _ => ?_⟩
            · have hgw := hgv.trans hg''
              exact differs_of_compareWith ((hsees (hf.before hgw)).grows hgw) hprofile hvalue
            · show Keeps key caller _ (.ret _) { w with diffs := Dict.set (base, other) value w.diffs }
              refine Keeps.ret fun hf => ?_
              have hgw := (hgv.trans hg'').trans
                (.same rfl rfl rfl rfl : Grows w { w with diffs := Dict.set (base, other) value w.diffs })
              obtain ⟨look, hlook, hcaller, hleft, hright⟩ := (hsees (hf.before hgw)).grows hgw
              exact ⟨look, hlook, hcaller, left, right, hleft, hright, hprofile, value,
                compareCaptures_free hvalue, rfl⟩
      · exact Keeps.raise _

/-- a view of the snapshot that the caller found, or a place for it -/
theorem Begun.shown {l : Lookup} {identity : Text} {f : Filtering}
    {r : Except Refused (Shown ⊕ Held × Text × Text) × Cache} (h : Begun key caller l identity f c r)
    (hi : Inv key c) (hf : Fair key r.2) {shown : Shown} (hr : r.1 = .ok (.inl shown)) :
    ∃ held, r.2.Sees key caller l.auth l.platform identity held ∧ l.Meets held.snapshot ∧
      held.snapshot.view .free f.contains f.context = .ok shown := by
  cases h with
  | refused e => exact nomatch hr
  | late needle _ => exact nomatch hr
  | whole held hrun hcontains =>
    cases hr
    refine ⟨held, sees_of_run hi caller hrun, (Lookup.run_ok hrun).2.2.2, ?_⟩
    have hvalid := f.valid
    rw [hcontains] at hvalid ⊢
    rw [Snapshot.view, filteredContent, hvalid]
    rfl
  | slot held needle shown' hrun hcontains hslot =>
    cases hr
    have hget := (Lookup.run_ok hrun).1
    refine ⟨held, (sees_of_run hi caller hrun).grows (Cache.grows_note needle f.context _),
      (Lookup.run_ok hrun).2.2.2, ?_⟩
    obtain ⟨needle', context, hmem, hdigest, hview⟩ := hi.slot _ (Dict.mem_of_get hget) _ _ hslot
    -- the view in the slot is the one that was asked for
    have hsame := hf.digests _ List.mem_cons_self _ (List.mem_cons_of_mem _ hmem) hdigest
    simp only [Prod.mk.injEq, true_and] at hsame
    rw [hcontains, hsame.1, hsame.2]
    exact hview
  | ready held needle _ _ => exact nomatch hr

theorem Begun.ready_cases {l : Lookup} {identity : Text} {f : Filtering}
    {r : Except Refused (Shown ⊕ Held × Text × Text) × Cache} (h : Begun key caller l identity f c r)
    (hi : Inv key c) {baseline : Held} {needle fingerprint : Text}
    (hr : r.1 = .ok (.inr (baseline, needle, fingerprint))) :
    f.contains = some needle ∧ fingerprint = filterDigest key identity needle f.context ∧
      (identity, needle, f.context) ∈ r.2.digested ∧
      ∃ held, r.2.Sees key caller l.auth l.platform identity held ∧ l.Meets held.snapshot ∧
        baseline.snapshot = { held.snapshot with filtered := none } := by
  cases h with
  | refused e => exact nomatch hr
  | late needle _ => exact nomatch hr
  | whole held _ _ => exact nomatch hr
  | slot held needle shown _ _ _ => exact nomatch hr
  | ready held needle' hrun hcontains =>
    cases hr
    refine ⟨hcontains, rfl, List.mem_cons_self, held, ?_, (Lookup.run_ok hrun).2.2.2, rfl⟩
    exact (sees_of_run hi caller hrun).grows ((Cache.grows_note needle f.context _).trans (Cache.grows_put _ _))

theorem keeps_filteredSnapshot (l : Lookup) (identity : Text) (f : Filtering) (offset : Int) :
    Keeps key caller (.filteredSnapshot l identity f offset) (filteredSnapshot l identity f offset) c := by
  refine fun t _ hi => ⟨trivial, fun now => ?_⟩
  have hbegun := begun key caller l identity f offset (t.tick now)
  dsimp only [machine]
  generalize (t.tick now).beginView key caller l identity f offset = r at hbegun
  have hinv : Fair key r.2 → Inv key (t.tick now) := fun hf =>
    (hi (hf.before ((t.grows_tick now).trans hbegun.grows))).tick now
  obtain ⟨answer, s⟩ := r
  dsimp only
  split
  · exact Keeps.raise _
  · rename_i shown
    refine Keeps.ret fun hf => ?_
    obtain ⟨held, hsees, hmeets, hview⟩ := hbegun.shown (hinv hf) hf rfl
    exact ⟨held, hsees, hmeets, shown, hview, rfl⟩
  · rename_i baseline needle fingerprint
    refine fun u hg _ => ⟨trivial, fun budget => ?_⟩
    dsimp only [machine]
    split
    · exact Keeps.raise _
    · rename_i shown hshown
      have hfree : baseline.snapshot.view .free (some needle) f.context = .ok shown := filteredContent_free hshown
      refine fun v hg' _ => ⟨fun hf => ?_, fun a => ?_⟩
      · have hgv := hg.trans hg'
        obtain ⟨-, hdigest, hmem, held, hsees, -, hbase⟩ := hbegun.ready_cases (hinv (hf.before hgv)) rfl
        obtain ⟨look, -, -, hfound⟩ := hsees.grows hgv
        obtain ⟨o, ho, heq⟩ := hfound.stored
        refine ⟨⟨o, ho, by rw [hbase, heq]⟩, needle, f.context, hgv.digested.subset hmem, hdigest, hfree⟩
      · have hga : Grows v ((machine key caller).exec (.endView identity baseline fingerprint shown) a v).2 :=
          grows_exec (.endView identity baseline fingerprint shown) a
        obtain ⟨now', refused⟩ := a
        dsimp only
        split
        · exact Keeps.raise _
        · refine Keeps.ret fun hf => ?_
          have hgv := (hg.trans hg').trans hga
          obtain ⟨hcontains, -, -, held, hsees, hmeets, hbase⟩ := hbegun.ready_cases (hinv (hf.before hgv)) rfl
          refine ⟨held, hsees.grows hgv, hmeets, shown, ?_, rfl⟩
          rw [hbase] at hfree
          rw [hcontains]
          exact hfree

theorem keeps_call (call : Call) : Keeps key caller call (call.prog key) c := by
  cases call with
  | store a => exact keeps_store a
  | compare auth base other platform withMetadata => exact keeps_compare auth base other platform withMetadata
  | getSnapshot l identity => exact keeps_getSnapshot l identity
  | filteredSnapshot l identity f offset => exact keeps_filteredSnapshot l identity f offset
  | discardSnapshot identity => exact fun t _ _ => ⟨trivial, fun _ => Keeps.ret fun _ => trivial⟩
  | capture target => exact fun t _ _ => ⟨trivial, fun _ => Keeps.ret fun _ => trivial⟩

end

/-! ## whole runs -/

theorem inv_start (key : Bytes) : Inv key Cache.start where
  distinct := List.nodup_nil
  total := Nat.zero_le 16
  perTarget _ := Nat.zero_le 4
  names := List.nil_sublist _
  origin _ hx := nomatch hx
  slot _ hx := nomatch hx
  diffs _ hx := nomatch hx

/-- **Every caller gets what is his, and the cache keeps its bounds.**  In every run in which no identity is
drawn twice and no two requests for views share a digest: at most four snapshots of a target and sixteen of
all are kept, and whatever has been returned is as `Served` says. -/
theorem cache_isolated {key : Bytes} {w : Callers} (h : Reachable key w) (hdrawn : w.shared.drawn.Nodup)
    (hdigests : Collisionless key w.shared.digested) :
    (∀ target, kept target w.shared.snapshots ≤ 4) ∧ w.shared.snapshots.length ≤ 16 ∧
      ∀ p q r, w.procs p = some q → q.prog = .ret r → Served key w.shared p q.call r := by
  have hruns := Sys.Reach.inv (I := Sound key) (G := fun _ => Grows)
    (H := fun p q s => Keeps key p q.call q.prog s) (fun _ => inv_start key) (fun p c s _ => keeps_call c)
    ?_ (fun p s hi => ⟨hi, Grows.refl s⟩) ?_ h
  · obtain ⟨hsound, hkeeps⟩ := hruns
    have hinv := hsound ⟨hdrawn, hdigests⟩
    refine ⟨hinv.perTarget, hinv.total, fun p q r hq hr => ?_⟩
    have hanswer := hkeeps p q hq
    rw [hr] at hanswer
    exact hanswer r rfl ⟨hdrawn, hdigests⟩
  · intro p q s o k a hi hkeeps ho
    rw [ho] at hkeeps
    obtain ⟨hok, hnext⟩ := hkeeps s (Grows.refl s) hi
    exact ⟨sound_exec hi hok a, grows_exec o a, hnext a⟩
  · intro p p' q s t _ _ hi hg hkeeps
    refine Safe.rely (fun _ _ _ => Grows.trans) (fun x => ?_) hi hg hkeeps
    intro s t _ hg hx r hr hf
    exact (hx r hr (hf.before hg)).grows hg

/-- a target -/
def sampleAuth : Auth :=
  ⟨['f', 'w'], ['h'], 22, ['u'], ['p'], "password".toList, ['s'], "fortinet".toList, []⟩

/-- a configuration of it -/
def sampleStoring : Storing where
  auth := sampleAuth
  profile := minimalProfile
  capture := sampleCapture 2
  count := 1
  part := ['p']
  firmware := []
  platform := "fortios".toList
  includeDefaults := false
  metadata := none

def sampleIdentity : Text := "cfg_".toList ++ List.replicate 32 '0'

/-- the whole text is asked for -/
def sampleFiltering : Filtering := ⟨none, 0, rfl⟩

def sampleLookup : Lookup := .minimal sampleAuth ['p'] "fortios".toList minimalProfile

/-- the snapshot that is stored -/
def sampleHeld (sc : Scope) : Held :=
  ⟨0, sc, minimalProfile, sampleCapture 2, (Cache.start.tick 0).clock, 1, ['p'], [], false, none, none⟩

theorem sample_beginView {sc : Scope} (hsc : scope [] sampleAuth "fortios".toList = .ok sc) {c : Cache}
    (hc : c.snapshots = [(sampleIdentity, sampleHeld sc)]) (hyoung : c.clock = 0) :
    c.beginView [] 1 sampleLookup sampleIdentity sampleFiltering 0
      = (.ok (.inl (sampleStored.content, 0, none)), c.look 1) := by
  have hget : Dict.get sampleIdentity (c.look 1).snapshots = some (sampleHeld sc) := by
    rw [show (c.look 1).snapshots = c.snapshots from rfl, hc, Dict.get, if_pos rfl]
  have hexpired : expired (c.look 1).clock (sampleHeld sc).snapshot = false := by
    rw [show (c.look 1).clock = c.clock from rfl, hyoung]
    show decide (ttl < 0 - max (0 : ℚ) 0) = false
    rw [max_self, sub_zero, ttl, decide_eq_false_iff_not, not_lt]
    exact Nat.ofNat_nonneg 86400
  have hrun : sampleLookup.run [] sampleIdentity (c.look 1) = .ok (sampleHeld sc) := by
    rw [sampleLookup, Lookup.run, if_neg (by decide), Cache.scopedSnapshot, if_neg (by decide), hget]
    dsimp only
    rw [hexpired, if_neg Bool.false_ne_true, hsc]
    dsimp only
    rw [if_neg (by simp [sampleHeld])]
    dsimp only
    rw [if_neg (by simp [sampleHeld])]
  rw [Cache.beginView, hrun]
  rfl

/-- a configuration is stored, and its text is read by another caller -/
theorem cache_isolated_read : ∃ (w : Callers) (text : Content), Reachable [] w ∧
    (∀ target, kept target w.shared.snapshots ≤ 4) ∧
    (∃ q, w.procs 1 = some q ∧ q.prog = .ret (.shown (text, 0, none)) ∧
      Served [] w.shared 1 (.filteredSnapshot sampleLookup sampleIdentity sampleFiltering 0)
        (.shown (text, 0, none))) := by
  obtain ⟨sc, hsc⟩ : ∃ sc, scope [] sampleAuth "fortios".toList = .ok sc := by
    rw [scope, if_neg (by decide)]
    exact ⟨_, rfl⟩
  have hscope : scope [] sampleStoring.auth sampleStoring.platform = .ok sc := hsc
  obtain ⟨k, hstore, hk⟩ : ∃ k, store [] sampleStoring = .op Op.monotonic k ∧ ∀ now : ℚ, ∃ k',
      k now = .op (Op.insert ⟨sc, minimalProfile, sampleCapture 2, now, 1, ['p'], [], false, none, none⟩) k' := by
    have hmetadata : captureMetadata sampleStoring.metadata = .ok none := rfl
    rw [store, if_neg (by decide), if_neg (by decide), hmetadata]
    dsimp only
    rw [if_neg (by decide), hscope]
    exact ⟨_, rfl, fun now => ⟨_, rfl⟩⟩
  -- the first caller stores a configuration
  have h0 : Reachable [] _ := Sys.Reach.start
  have h1 := h0.step (Sys.Step.spawn _ 0 (.store sampleStoring) List.not_mem_nil)
  have h2 := h1.step (Sys.Step.step _ 0 _ _ k rfl hstore (0 : ℚ))
  obtain ⟨k', hk'⟩ := hk (Cache.start.tick 0).clock
  have h3 := h2.step (Sys.Step.step _ 0 _ _ k' rfl hk' ((0 : ℚ), [sampleIdentity], false))
  have h4 := h3.step (Sys.Step.spawn _ 1 (.filteredSnapshot sampleLookup sampleIdentity sampleFiltering 0)
    (show 1 ∉ [0] by decide))
  -- the second one reads it
  obtain ⟨k2, hk2, hret⟩ : ∃ k, filteredSnapshot sampleLookup sampleIdentity sampleFiltering 0
      = .op (Op.beginView sampleLookup sampleIdentity sampleFiltering 0) k ∧
        ∀ shown, k (.ok (.inl shown)) = .ret (.shown shown) := ⟨_, rfl, fun _ => rfl⟩
  have h5 := h4.step (Sys.Step.step _ 1 _ _ k2 rfl hk2 (0 : ℚ))
  have hread := sample_beginView (c := Cache.tick 0 (((machine [] 0).exec (Op.insert (sampleHeld sc).snapshot)
    ((0 : ℚ), [sampleIdentity], false) (Cache.start.tick 0)).2)) hsc rfl (by
      show max (max (max (0 : ℚ) 0) 0) 0 = 0
      simp)
  have hdrawn := congrArg (fun r => r.2.drawn) hread
  have hdigested := congrArg (fun r => r.2.digested) hread
  have hfair := cache_isolated h5 (hdrawn.symm ▸ List.nodup_singleton sampleIdentity)
    (hdigested.symm ▸ fun _ hx => nomatch hx)
  obtain ⟨htarget, -, hserved⟩ := hfair
  have hshown := (congrArg (fun r => k2 r.1) hread).trans (hret _)
  exact ⟨_, sampleStored.content, h5, htarget, _, rfl, hshown, hserved 1 _ _ rfl hshown⟩

end Netops.Snapshots

import Netops.Lib.Json

/-!
# The strings of a JSON text without escapes

Where a text has no backslash, its strings and keys stand in it as they are: `loads_texts`.
-/

namespace Json

/-- the strings and keys of what is read stand in the text -/
def Quoted (cs : List Char) (leaves : List Leaf) : Prop :=
  ∀ t, .text t ∈ leaves → t <:+: cs.map Char.toNat

section
variable {cs ds : List Char} {a b : List Leaf}

theorem Quoted.mono (h : Quoted cs a) (hs : cs <:+ ds) : Quoted ds a :=
  fun t ht => (h t ht).trans (hs.isInfix.map _)

theorem quoted_append (ha : Quoted cs a) (hb : Quoted cs b) : Quoted cs (a ++ b) := by
  intro t ht
  rcases List.mem_append.1 ht with ht | ht
  · exact ha t ht
  · exact hb t ht

theorem quoted_cons {t : List Nat} (ht : t <:+: cs.map Char.toNat) (ha : Quoted cs a) :
    Quoted cs (.text t :: a) := by
  intro u hu
  rcases List.mem_cons.1 hu with hu | hu
  · cases hu
    exact ht
  · exact ha u hu

theorem quoted_nil : Quoted cs [] := fun _ h => nomatch h

end

/-! ## what is left is an end of the text -/

theorem skip_suffix (cs : List Char) : skip cs <:+ cs := List.dropWhile_suffix _

theorem tail_skip_suffix (cs : List Char) : (skip cs).tail <:+ cs :=
  (List.tail_suffix _).trans (skip_suffix cs)

theorem string_quoted : ∀ (n : Nat) {cs r : List Char} {s : List Nat}, string n cs = some (s, r) →
    '\\' ∉ cs → r <:+ cs ∧ s <+: cs.map Char.toNat := by
  intro n
  induction n with
  | zero => exact fun h => nomatch h
  | succ n ih =>
    intro cs r s h hesc
    cases cs with
    | nil => exact nomatch h
    | cons c cs =>
      obtain ⟨hc, hcs⟩ := not_or.1 (mt List.mem_cons.2 hesc)
      rw [string, if_neg (Ne.symm hc)] at h
      split_ifs at h
      · cases h
        exact ⟨List.suffix_cons c _, List.nil_prefix⟩
      · obtain ⟨⟨t, es⟩, ht, h⟩ := Option.bind_eq_some_iff.1 h
        cases h
        obtain ⟨hr, hs⟩ := ih ht hcs
        exact ⟨hr.trans (List.suffix_cons c cs), List.cons_prefix_cons.2 ⟨rfl, hs⟩⟩

theorem integral_suffix {cs ds r : List Char} (h : integral cs = some (ds, r)) : r <:+ cs := by
  cases cs with
  | nil => exact nomatch h
  | cons c cs =>
    rw [integral] at h
    split_ifs at h
    · cases h
      exact List.suffix_cons c _
    · cases h
      exact List.dropWhile_suffix _

theorem fraction_suffix (cs : List Char) : (fraction cs).2 <:+ cs := by
  unfold fraction
  split
  · split
    · exact (List.dropWhile_suffix _).trans (List.suffix_cons _ _)
    · exact List.suffix_refl _
  · exact List.suffix_refl _

theorem exponent_suffix (cs : List Char) : (exponent cs).2 <:+ cs := by
  cases cs with
  | nil => exact List.suffix_refl _
  | cons e cs =>
    rw [exponent_cons]
    have hsign : (expSign cs).2 <:+ cs := by
      unfold expSign
      split
      · exact List.suffix_cons _ _
      · exact List.suffix_cons _ _
      · exact List.suffix_refl _
    split_ifs
    · exact ((List.dropWhile_suffix _).trans hsign).trans (List.suffix_cons e cs)
    · exact List.suffix_refl _
    · exact List.suffix_refl _

/-- a number has no string in it -/
theorem unsigned_quoted {negative : Bool} {cs r : List Char} {v : Value}
    (h : unsigned negative cs = some (v, r)) : r <:+ cs ∧ ∀ t, .text t ∉ v.leaves := by
  rw [unsigned] at h
  obtain ⟨⟨ds, es⟩, hi, h⟩ := Option.bind_eq_some_iff.1 h
  have hrest : (exponent (fraction es).2).2 <:+ cs :=
    ((exponent_suffix _).trans (fraction_suffix _)).trans (integral_suffix hi)
  dsimp only at h
  split_ifs at h
  all_goals
    cases h
    refine ⟨hrest, fun t ht => ?_⟩
    cases List.mem_singleton.1 ht

theorem number_quoted {cs r : List Char} {v : Value} (h : number cs = some (v, r)) :
    r <:+ cs ∧ Quoted cs v.leaves := by
  unfold number at h
  split at h
  · obtain ⟨hr, hv⟩ := unsigned_quoted h
    exact ⟨hr.trans (List.suffix_cons _ _), fun t ht => absurd ht (hv t)⟩
  · obtain ⟨hr, hv⟩ := unsigned_quoted h
    exact ⟨hr, fun t ht => absurd ht (hv t)⟩

theorem literal_quoted {word cs r : List Char} {v w : Value} (hv : v.leaves = [])
    (h : literal word v cs = some (w, r)) (c : Char) : r <:+ c :: cs ∧ Quoted (c :: cs) w.leaves := by
  rw [literal] at h
  split_ifs at h
  cases h
  rw [hv]
  exact ⟨(List.drop_suffix _ _).trans (List.suffix_cons c cs), quoted_nil⟩

/-! ## values -/

/-- what is read from a text without a backslash -/
structure Quotes (n : Nat) : Prop where
  value : ∀ {d : Nat} {cs r : List Char} {v : Value}, Json.value n d cs = some (v, r) → '\\' ∉ cs →
    r <:+ cs ∧ Quoted cs v.leaves
  members : ∀ {d : Nat} {cs r : List Char} {fs : List (List Nat × Value)},
    Json.members n d cs = some (fs, r) → '\\' ∉ cs → r <:+ cs ∧ Quoted cs (leavesOfFields fs)
  items : ∀ {d : Nat} {cs r : List Char} {vs : List Value},
    Json.items n d cs = some (vs, r) → '\\' ∉ cs → r <:+ cs ∧ Quoted cs (leavesOfItems vs)

theorem quotes_value {n : Nat} (h : Quotes n) {d : Nat} {cs r : List Char} {v : Value}
    (hv : value (n + 1) d cs = some (v, r)) (hesc : '\\' ∉ cs) : r <:+ cs ∧ Quoted cs v.leaves := by
  cases cs with
  | nil => exact nomatch hv
  | cons c cs =>
    have hcs : '\\' ∉ cs := fun hm => hesc (List.mem_cons_of_mem c hm)
    have hcons := List.suffix_cons c cs
    have hskip := (skip_suffix cs).trans hcons
    have hskips : '\\' ∉ skip cs := fun hm => hcs ((skip_suffix cs).subset hm)
    rw [value] at hv
    split_ifs at hv with _ _ _ _ _ _ _
    · obtain ⟨⟨s, es⟩, hs, hv⟩ := Option.map_eq_some_iff.1 hv
      cases hv
      obtain ⟨hr, hs⟩ := string_quoted n hs hcs
      exact ⟨hr.trans hcons, quoted_cons (hs.isInfix.trans (hcons.isInfix.map _)) quoted_nil⟩
    · cases hv
      exact ⟨(tail_skip_suffix cs).trans hcons, quoted_nil⟩
    · obtain ⟨⟨fs, es⟩, hs, hv⟩ := Option.map_eq_some_iff.1 hv
      cases hv
      obtain ⟨hr, hq⟩ := h.members hs hskips
      exact ⟨hr.trans hskip, hq.mono hskip⟩
    · cases hv
      exact ⟨(tail_skip_suffix cs).trans hcons, quoted_nil⟩
    · obtain ⟨⟨vs, es⟩, hs, hv⟩ := Option.map_eq_some_iff.1 hv
      cases hv
      obtain ⟨hr, hq⟩ := h.items hs hskips
      exact ⟨hr.trans hskip, hq.mono hskip⟩
    · exact literal_quoted rfl hv c
    · exact literal_quoted rfl hv c
    · exact literal_quoted rfl hv c
    · exact number_quoted hv

theorem quotes_members {n : Nat} (h : Quotes n) {d : Nat} {cs r : List Char}
    {fs : List (List Nat × Value)} (hm : members (n + 1) d cs = some (fs, r)) (hesc : '\\' ∉ cs) :
    r <:+ cs ∧ Quoted cs (leavesOfFields fs) := by
  cases cs with
  | nil => exact nomatch hm
  | cons c cs =>
    have hcs : '\\' ∉ cs := fun hm => hesc (List.mem_cons_of_mem c hm)
    have hcons := List.suffix_cons c cs
    rw [members] at hm
    split_ifs at hm
    obtain ⟨⟨k, ds⟩, hk, hm⟩ := Option.bind_eq_some_iff.1 hm
    obtain ⟨hds, hkey⟩ := string_quoted n hk hcs
    have hkeys : k <:+: (c :: cs).map Char.toNat := hkey.isInfix.trans (hcons.isInfix.map _)
    dsimp only at hm
    split_ifs at hm
    obtain ⟨⟨v, es⟩, hv, hm⟩ := Option.bind_eq_some_iff.1 hm
    have hvs : skip (skip ds).tail <:+ c :: cs :=
      ((skip_suffix _).trans (tail_skip_suffix ds)).trans (hds.trans hcons)
    obtain ⟨hes, hval⟩ := h.value hv fun hm => hesc (hvs.subset hm)
    have hrs : (skip es).tail <:+ c :: cs := (tail_skip_suffix es).trans (hes.trans hvs)
    dsimp only at hm
    split_ifs at hm
    · cases hm
      refine ⟨hrs, quoted_append (quoted_cons hkeys (hval.mono hvs)) quoted_nil⟩
    · obtain ⟨⟨gs, rs⟩, hg, hm⟩ := Option.bind_eq_some_iff.1 hm
      cases hm
      have hgs := (skip_suffix (skip es).tail).trans hrs
      obtain ⟨hr, hrest⟩ := h.members hg fun hm => hesc (hgs.subset hm)
      exact ⟨hr.trans hgs, quoted_append (quoted_cons hkeys (hval.mono hvs)) (hrest.mono hgs)⟩

theorem quotes_items {n : Nat} (h : Quotes n) {d : Nat} {cs r : List Char} {vs : List Value}
    (hi : items (n + 1) d cs = some (vs, r)) (hesc : '\\' ∉ cs) :
    r <:+ cs ∧ Quoted cs (leavesOfItems vs) := by
  rw [items] at hi
  obtain ⟨⟨v, es⟩, hv, hi⟩ := Option.bind_eq_some_iff.1 hi
  obtain ⟨hes, hval⟩ := h.value hv hesc
  have hrs : (skip es).tail <:+ cs := (tail_skip_suffix es).trans hes
  dsimp only at hi
  split_ifs at hi
  · cases hi
    exact ⟨hrs, quoted_append hval quoted_nil⟩
  · obtain ⟨⟨ws, rs⟩, hw, hi⟩ := Option.bind_eq_some_iff.1 hi
    cases hi
    have hws := (skip_suffix (skip es).tail).trans hrs
    obtain ⟨hr, hrest⟩ := h.items hw fun hm => hesc (hws.subset hm)
    exact ⟨hr.trans hws, quoted_append hval (hrest.mono hws)⟩

theorem quotes (n : Nat) : Quotes n := by
  induction n with
  | zero => exact ⟨fun h => (nomatch h), fun h => (nomatch h), fun h => (nomatch h)⟩
  | succ n ih => exact ⟨quotes_value ih, quotes_members ih, quotes_items ih⟩

/-- the strings and keys of a text without a backslash are parts of it -/
theorem loads_texts {d : Nat} {text : List Char} {v : Value} (h : loads d text = some v)
    (hesc : '\\' ∉ text) : ∀ t, .text t ∈ v.leaves → t <:+: text.map Char.toNat := by
  rw [loads] at h
  split_ifs at h
  obtain ⟨⟨w, rest⟩, hw, h⟩ := Option.bind_eq_some_iff.1 h
  have hskip := skip_suffix text
  have hq := ((quotes _).value hw fun hm => hesc (hskip.subset hm)).2.mono hskip
  dsimp only at h
  split_ifs at h
  cases h
  exact hq

end Json

import Netops.Engine.Planned
import Netops.Fortios.Device

/-!
# The words of command lines

What the planner means by the lines that it renders: the verb, the names and the values, one word each.

* `ReadAs`     lines without control characters that are read as the words that are meant;
* `Wording`    the words of the lines of an adapter, `meant` those of a plan;
* `Target`     the object of a request as the snapshot has it;
* `writtenBack`   the values of the snapshot that the undo of a plan sets.
-/

namespace Netops.Engine
open Netops.Fortios Netops.Exos

/-! ## reading lines -/

/-- a line without control characters that is read as these words; `none` is a line without a meaning -/
def ReadsAs (tokenizer : Text → Option (List Text)) (line : Text) (words : Option (List Text)) : Prop :=
  line.any isControl = false ∧ words ≠ none ∧ tokenizer line = words

/-- line by line -/
def ReadAs (tokenizer : Text → Option (List Text)) (lines : List Text)
    (words : List (Option (List Text))) : Prop :=
  List.Forall₂ (ReadsAs tokenizer) lines words

section
variable {tokenizer : Text → Option (List Text)}

theorem readAs_append {l m : List Text} {v w : List (Option (List Text))} (h : l.length = v.length) :
    ReadAs tokenizer (l ++ m) (v ++ w) ↔ ReadAs tokenizer l v ∧ ReadAs tokenizer m w := by
  constructor
  · intro hall
    have htake := List.forall₂_take_append _ _ _ hall
    have hdrop := List.forall₂_drop_append _ _ _ hall
    rw [← h, List.take_left] at htake
    rw [← h, List.drop_left] at hdrop
    exact ⟨htake, hdrop⟩
  · rintro ⟨hl, hm⟩
    exact List.rel_append hl hm

theorem readAs_single {line : Text} {words : Option (List Text)} :
    ReadAs tokenizer [line] [words] ↔ ReadsAs tokenizer line words := by
  rw [ReadAs, List.forall₂_cons]
  exact and_iff_left .nil

theorem readAs_nil : ReadAs tokenizer [] [] := List.Forall₂.nil

theorem readAs_map {α : Type} {f : α → Text} {g : α → Option (List Text)} {l : List α} :
    ReadAs tokenizer (l.map f) (l.map g) ↔ ∀ x ∈ l, ReadsAs tokenizer (f x) (g x) := by
  rw [ReadAs, List.forall₂_map_left_iff, List.forall₂_map_right_iff, List.forall₂_same]

end

/-- a step that may fail, for each element -/
theorem mapM_eq_ok {ε α β : Type} {f : α → Except ε β} {l : List α} {r : List β} :
    l.mapM f = .ok r ↔ List.Forall₂ (fun x y => f x = .ok y) l r := by
  induction l generalizing r with
  | nil =>
    rw [List.mapM_nil, List.forall₂_nil_left_iff]
    exact ⟨fun h => (Except.ok.inj h).symm, fun h => by rw [h]; rfl⟩
  | cons x l ih =>
    rw [List.mapM_cons, List.forall₂_cons_left_iff]
    constructor
    · intro h
      obtain ⟨y, hy, h⟩ := bind_eq_ok.1 h
      obtain ⟨ys, hys, h⟩ := bind_eq_ok.1 h
      exact ⟨y, ys, hy, ih.1 hys, (Except.ok.inj h).symm⟩
    · rintro ⟨y, ys, hy, hys, rfl⟩
      rw [hy, ih.2 hys]
      rfl

theorem exists_of_mem_right {α β : Type} {R : α → β → Prop} {l : List α} {r : List β}
    (h : List.Forall₂ R l r) {y : β} (hy : y ∈ r) : ∃ x ∈ l, R x y := by
  induction h with
  | nil => exact nomatch hy
  | cons hxy _ ih =>
    rcases List.mem_cons.1 hy with rfl | hy
    · exact ⟨_, List.mem_cons_self, hxy⟩
    · obtain ⟨x, hx, hR⟩ := ih hy
      exact ⟨x, List.mem_cons_of_mem _ hx, hR⟩

/-! ## the values of a request -/

theorem collect_eq_ok {V : Type} {l : List (Text × Except (List Refusal) V)} {r : List (Text × V)}
    (h : collect l = .ok r) : List.Forall₂ (fun x y => x.1 = y.1 ∧ x.2 = .ok y.2) l r := by
  induction l generalizing r with
  | nil =>
    cases h
    exact .nil
  | cons x l ih =>
    obtain ⟨name, v⟩ := x
    unfold collect at h
    cases v with
    | error e => cases hl : collect l <;> rw [hl] at h <;> exact nomatch h
    | ok v =>
      cases hl : collect l with
      | error e =>
        rw [hl] at h
        exact nomatch h
      | ok vs =>
        rw [hl] at h
        cases h
        exact .cons ⟨rfl, rfl⟩ (ih hl)

/-- each value of a plan comes from one of the request -/
theorem mem_canonicalChanges {letters : Letters} {profile : Profile} {changes : List (Text × Change)}
    {values : List (Text × Option Text)} (h : canonicalChanges letters profile changes = .ok values)
    {x : Text × Option Text} (hx : x ∈ values) :
    ∃ change, (x.1, change) ∈ changes ∧ canonicalChange letters profile x.1 change = .ok x.2 := by
  have hall := List.forall₂_map_left_iff.1 (collect_eq_ok h)
  obtain ⟨y, hy, hname, hvalue⟩ := exists_of_mem_right hall hx
  dsimp only at hname hvalue
  rw [← hname]
  exact ⟨y.2, (Dict.sorted_perm changes).mem_iff.1 hy, hvalue⟩

/-- and is of an attribute of the profile -/
theorem canonicalChange_eq_ok {letters : Letters} {profile : Profile} {name : Text} {change : Change}
    {value : Option Text} (h : canonicalChange letters profile name change = .ok value) :
    ∃ a, Dict.get name profile.attributes = some a ∧
      (value = none ∧ a.unset = true ∨
        ∃ v, value = some v ∧ canonicalValue letters a name profile.platform change = .ok v ∧
          v ∉ (Dict.get name profile.reservedValues).getD []) := by
  rw [canonicalChange] at h
  cases ha : Dict.get name profile.attributes with
  | none =>
    rw [ha] at h
    cases h
  | some a =>
    rw [ha] at h
    refine ⟨a, rfl, ?_⟩
    dsimp only at h
    split at h
    · split_ifs at h with hunset
      cases h
      exact .inl ⟨rfl, hunset⟩
    · split at h
      · cases h
      · rename_i v hv
        split_ifs at h with hres
        cases h
        exact .inr ⟨v, rfl, hv, hres⟩

/-! ## the words of a plan -/

/-- what the lines of an adapter say -/
structure Wording where
  create : Profile → Text → State → List (Option (List Text))
  update : Profile → Text → State → List Text → List (Option (List Text))
  delete : Profile → Text → List (Option (List Text))

/-- the attributes that an update removes -/
def removed (changes : List (Text × Option Text)) : List Text :=
  ((changes.filter fun x => x.2 = none).map Prod.fst).insertionSort (· ≤ ·)

/-- the values that the undo of an update sets -/
def restored (before : State) (changes : List (Text × Option Text)) : State :=
  changes.filterMap fun x => (Dict.get x.1 before).map fun v => (x.1, v)

/-- the attributes that the undo of an update removes -/
def cleared (before : State) (changes : List (Text × Option Text)) : List Text :=
  ((changes.filter fun x => x.1 ∉ Dict.keys before).map Prod.fst).insertionSort (· ≤ ·)

structure Meant where
  commands : List (Option (List Text))
  inverse : List (Option (List Text))

/-- the object of a request: its profile, the values of the request, and its state in the snapshot -/
structure Target where
  profile : Profile
  changes : List (Text × Option Text)
  before : State

def target {E : Type} (letters : Letters) (profiles : List Profile) (d : Device E) (request : Request) :
    Except (List Refusal) Target := do
  let profile ← findProfile profiles d.platform request.table d.firmware
  let entries ← tableEntries d profile.table
  let entry ← findEntry letters request.key entries
  let changes ← canonicalChanges letters profile request.changes
  return ⟨profile, changes, (stateBefore letters d profile request.op entry changes).1⟩

/-- the words of a plan -/
def meant (w : Wording) (request : Request) (t : Target) : Meant :=
  match request.op with
  | .create => ⟨w.create t.profile request.key (assigned t.changes), w.delete t.profile request.key⟩
  | .update => ⟨w.update t.profile request.key (assigned t.changes) (removed t.changes),
      w.update t.profile request.key (restored t.before t.changes) (cleared t.before t.changes)⟩
  | .delete => ⟨w.delete t.profile request.key, w.create t.profile request.key t.before⟩

/-- the values of the snapshot that the undo of a plan sets -/
def writtenBack (op : Op) (t : Target) : State :=
  match op with
  | .create => []
  | .update => restored t.before t.changes
  | .delete => t.before

theorem Planned.target_eq {E : Type} {letters : Letters} {profiles : List Profile} {d : Device E}
    {request : Request} {protectedNames : List (Text × List Text)} {undo : Bool} {profile : Profile}
    {entries : List (Text × E)} {entry : Option E} {changes : List (Text × Option Text)} {draft : Draft}
    {plan : Plan} (h : Planned letters profiles d request protectedNames undo profile entries entry
      changes draft plan) : target letters profiles d request
        = .ok ⟨profile, changes, (stateBefore letters d profile request.op entry changes).1⟩ := by
  rw [target, h.hprofile]
  show (tableEntries d profile.table >>= _) = _
  rw [h.hentries]
  show (findEntry letters request.key entries >>= _) = _
  rw [h.hentry]
  show (canonicalChanges letters profile request.changes >>= _) = _
  rw [h.hchanges]
  rfl

end Netops.Engine

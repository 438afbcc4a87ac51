import Netops.Engine.Shipped

/-!
# What a plan comes from

`buildPlan` gives a plan only where all its checks pass.  `Planned` lists what then holds; `Finished`,
`Created`, `Updated` and `Deleted` do so for the parts of `buildPlan`.  Nothing else about these functions
is used later.
-/

namespace Netops.Engine
open Netops.Fortios Netops.Exos

theorem bind_eq_ok {ε α β : Type} {x : Except ε α} {f : α → Except ε β} {b : β} :
    x >>= f = .ok b ↔ ∃ a, x = .ok a ∧ f a = .ok b := by
  cases x with
  | error e => exact ⟨fun h => (nomatch h), fun ⟨_, h, _⟩ => (nomatch h)⟩
  | ok a => exact ⟨fun h => ⟨a, rfl, h⟩, fun ⟨_, h, hf⟩ => by cases h; exact hf⟩

theorem map_eq_ok {ε α β : Type} {x : Except ε α} {f : α → β} {b : β} :
    x.map f = .ok b ↔ ∃ a, x = .ok a ∧ f a = b := by
  cases x with
  | error e => exact ⟨fun h => (nomatch h), fun ⟨_, h, _⟩ => (nomatch h)⟩
  | ok a => exact ⟨fun h => ⟨a, rfl, Except.ok.inj h⟩, fun ⟨_, h, hf⟩ => by cases h; exact congrArg _ hf⟩

section
variable {E : Type} {letters : Letters} {d : Device E} {profile : Profile} {key : Text}
variable {changes : List (Text × Option Text)} {draft : Draft}

structure Created (d : Device E) (profile : Profile) (key : Text) (entry : Option E)
    (changes : List (Text × Option Text)) (draft : Draft) : Prop where
  isNew : entry = none
  unused : profile.tableScopedKey = true ∨ d.inUse key = false
  required : ∀ x ∈ profile.attributes, x.2.requiredOnCreate = true →
    (Dict.get x.1 changes).join ≠ none
  values : ∀ x ∈ profile.createValues, (Dict.get x.1 changes).join = some x.2
  hbefore : draft.before = none
  hafter : draft.after = some (withoutDefaults profile changes)
  hcommands : d.renderCreate profile key (assigned changes) = .ok draft.commands
  hinverse : d.renderDelete profile key = .ok draft.inverse

structure Updated (d : Device E) (profile : Profile) (key : Text) (before : State)
    (references : List Text) (changes : List (Text × Option Text)) (draft : Draft) : Prop where
  updatable : ∀ x ∈ changes, updateReason profile references.length x.1 = none
  nonempty : changes ≠ []
  hbefore : draft.before = some before
  hafter : draft.after = some (updated profile before changes)
  differs : sameState (updated profile before changes) before = false
  hcommands : d.renderUpdate profile key (assigned changes)
    (((changes.filter fun x => x.2 = none).map Prod.fst).insertionSort (· ≤ ·)) = .ok draft.commands
  hinverse : d.renderUpdate profile key
    (changes.filterMap fun x => (Dict.get x.1 before).map fun v => (x.1, v))
    (((changes.filter fun x => x.1 ∉ Dict.keys before).map Prod.fst).insertionSort (· ≤ ·))
      = .ok draft.inverse

structure Deleted (d : Device E) (profile : Profile) (key : Text) (before : State)
    (references : List Text) (changes : List (Text × Option Text)) (draft : Draft) : Prop where
  unchanged : changes = []
  unreferenced : references = []
  complete : ∀ x ∈ profile.attributes, x.2.requiredOnCreate = true → x.2.undoToDefault = false →
    x.1 ∈ Dict.keys before
  hbefore : draft.before = some before
  hafter : draft.after = none
  hcommands : d.renderDelete profile key = .ok draft.commands
  hinverse : d.renderCreate profile key before = .ok draft.inverse

/-- what an operation gives -/
inductive Drafted (letters : Letters) (d : Device E) (profile : Profile) (key : Text) (op : Op)
    (entry : Option E) (changes : List (Text × Option Text)) (draft : Draft) : Prop
  | create (hop : op = .create) (h : Created d profile key entry changes draft)
  | update (hop : op = .update) (hentry : entry.isSome = true ∨ profile.implicitKeys = true)
      (hsupported : (stateBefore letters d profile op entry changes).2 = [])
      (h : Updated d profile key (stateBefore letters d profile op entry changes).1
        (referencesTo d profile key) changes draft)
  | delete (hop : op = .delete) (hentry : entry.isSome = true ∨ profile.implicitKeys = true)
      (hsupported : (stateBefore letters d profile op entry changes).2 = [])
      (h : Deleted d profile key (stateBefore letters d profile op entry changes).1
        (referencesTo d profile key) changes draft)

/-- what the checks that all operations pass leave -/
structure Finished (letters : Letters) (d : Device E) (profile : Profile) (key : Text) (op : Op)
    (protectedNames : List (Text × List Text)) (draft : Draft) (plan : Plan) : Prop where
  untouched : protectedReferences letters d profile protectedNames key draft.before draft.after = .ok []
  rendered : ∃ final, rerender profile key protectedNames draft = .ok final ∧
    plan = ⟨profile.table, op, key, d.firmware, final.commands, final.inverse, final.before,
      final.after, plan.restSha256⟩
  placeholder : d.platform = .fortios → ∀ line ∈ plan.commands ++ plan.inverse, ¬"%%".toList <:+: line
  expanded : d.platform = .exos → ∀ line ∈ plan.inverse, ¬"$(".toList <:+: line
  checked : d.prechecks profile op key plan.after = .ok []
  policy : d.platform = .fortios → profile.table = "firewall policy".toList →
    d.policyChecks profile op key plan.before plan.after plan.inverse protectedNames = []
  rest : d.restDigest profile.table key none = .ok plan.restSha256

/-- where a plan comes from -/
structure Planned (letters : Letters) (profiles : List Profile) (d : Device E) (request : Request)
    (protectedNames : List (Text × List Text)) (undo : Bool) (profile : Profile)
    (entries : List (Text × E)) (entry : Option E) (changes : List (Text × Option Text)) (draft : Draft)
    (plan : Plan) : Prop where
  hprofile : findProfile profiles d.platform request.table d.firmware = .ok profile
  enabled : request.op ∈ profile.ops ∨ undo = true ∧ request.op ∈ profile.undoOps
  hkey : profile.keyPattern request.key = true
  unprotected : letters.casefold request.key ∉
    (profile.protectedKeys ++ (Dict.get profile.table protectedNames).getD []).map letters.casefold
  hentries : tableEntries d profile.table = .ok entries
  hentry : findEntry letters request.key entries = .ok entry
  hchanges : canonicalChanges letters profile request.changes = .ok changes
  requires : checkRequires changes (Dict.sorted profile.valueRequires) = .ok ()
  drafted : Drafted letters d profile request.key request.op entry changes draft
  finished : Finished letters d profile request.key request.op protectedNames draft plan

end

/-! ## the profile of a plan -/

section
variable {E : Type} {letters : Letters} {d : Device E} {profile : Profile} {key : Text} {op : Op}
  {protectedNames : List (Text × List Text)} {draft : Draft} {plan : Plan}

/-- only memberships are written anew -/
theorem Finished.plan_eq (h : Finished letters d profile key op protectedNames draft plan)
    (ht : profile.table ≠ vlanMembership) : plan = ⟨profile.table, op, key, d.firmware,
      draft.commands, draft.inverse, draft.before, draft.after, plan.restSha256⟩ := by
  obtain ⟨final, hfinal, hplan⟩ := h.rendered
  rw [rerender, if_neg ht] at hfinal
  cases hfinal
  exact hplan

end

end Netops.Engine

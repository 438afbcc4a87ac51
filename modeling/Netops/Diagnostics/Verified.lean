import Netops.Diagnostics.Fortiadc
import Netops.Diagnostics.Restored

/-!
# What the diagnostics say about their changes is true

On FortiADC the result says whether the filter is as it was; on FortiOS a run that has changed something, and
has not restored it, ends in `RestoreUnverified`.

* `cleared`, `stateCleared`          what a session has done that has taken everything back;
* `Verified`                         one session has done it, after everything else;
* `run_plays`, `runStateList_plays`  a result that says so is true;
* `restored_or_said`                 the programs of both platforms.
-/

namespace Netops.Diagnostics

open Effect
open Netops.Fortios (Text)

namespace Fortiadc

variable {I : Type} {answer : List (Event Command) → (o : (shell Command).Op) → (shell Command).Ans o}
  {t : List (Event Command)}

/-! ## one session -/

/-- the session is ready for a command, and answers it with a text like this -/
def answers (who : Who) (c : Command) (good : Text → Bool) : List (Event Command → Prop) :=
  [fun e => e = ⟨.ready who, true⟩, fun e => ∃ text, e = answered who .restore c (.ok text) ∧ good text = true]

variable (reader : Reader I)

/-- the session has accepted that the filter of the log is cleared, and then has shown the baseline -/
def cleared (baselineShow baselineDisplay : Text) (who : Who) : List (Event Command → Prop) :=
  answers who .clear (fun text => !isRefusal reader text) ++
    (answers who .show_ (fun text => clean text = baselineShow) ++
      answers who .display fun text => isRefusal reader (clean text) && clean text = baselineDisplay)

/-- the same for the listings of sessions -/
def stateCleared (recipe : StateRecipe) (baselineShow : Text) (who : Who) : List (Event Command → Prop) :=
  answers who (.stateClear recipe) (fun text => !isRefusal reader text) ++
    answers who (.stateShow recipe) fun text => clean text = baselineShow

theorem inFinally_ready (who : Who) (b : Bool) : ∀ e ∈ [(⟨.ready who, b⟩ : Event Command)], InFinally e := by
  intro e he
  obtain rfl := List.mem_singleton.1 he
  trivial

/-- a command of `finally`: its answer decides how it goes on -/
theorem whenReady_plays {who : Who} {c : Command} {f : Except Exn Text → Prog (shell Command) Exn Bool}
    {R : List (Event Command) → Except Exn Bool → Prop}
    (hfailed : ∀ u, (∀ e ∈ u, InFinally e) → R (t ++ u) (.ok false))
    (hok : ∀ r, Plays answer (t ++ [⟨.ready who, true⟩, answered who .restore c r]) (f r) R) :
    Plays answer t (whenReady who ((tried who .restore c).bind f)) R := by
  refine Plays.op ?_
  show Plays answer (t ++ [⟨.ready who, answer t (.ready who)⟩])
    (cond (answer t (.ready who)) ((tried who .restore c).bind f) (.ret false)) R
  generalize (answer t (.ready who) : Bool) = ready
  cases ready with
  | false => exact .ret (hfailed _ (inFinally_ready who false))
  | true =>
    refine tried_plays fun r => ?_
    rw [List.append_assoc]
    exact hok r

theorem inFinally_pair (who : Who) (c : Command) (r : Except Exn Text) :
    ∀ e ∈ [⟨.ready who, true⟩, answered who .restore c r], InFinally e :=
  inFinally_append (inFinally_ready who true) (inFinally_answered who c r)

theorem matches_pair {who : Who} {c : Command} {good : Text → Bool} {r : Except Exn Text}
    (h : holds good r = true) :
    Matches (answers who c good) [⟨.ready who, true⟩, answered who .restore c r] := by
  cases r with
  | error e => exact nomatch h
  | ok text => exact .cons rfl (.cons ⟨text, rfl, h⟩ .nil)

theorem Adds.failed {P : List (Event Command → Prop)} {u v : List (Event Command)} (hu : ∀ e ∈ u, InFinally e)
    (hv : ∀ e ∈ v, InFinally e) : Adds P t (t ++ u ++ v) (.ok false : Except Exn Bool) :=
  ⟨u ++ v, false, List.append_assoc t u v, rfl, inFinally_append hu hv, nofun⟩

theorem restore_plays (baselineShow baselineDisplay : Text) (who : Who) (t : List (Event Command)) :
    Plays answer t (restore reader baselineShow baselineDisplay who)
      (Adds (cleared reader baselineShow baselineDisplay who) t) := by
  refine whenReady_plays (fun u hu => ⟨u, false, rfl, rfl, hu, nofun⟩) fun clearing => ?_
  have hone := inFinally_pair who .clear clearing
  refine whenReady_plays (fun u hu => Adds.failed hone hu) fun showing => ?_
  have htwo := inFinally_append hone (inFinally_pair who .show_ showing)
  rw [List.append_assoc]
  refine whenReady_plays (fun u hu => Adds.failed htwo hu) fun displaying => ?_
  refine .ret ⟨_, _, List.append_assoc _ _ _, rfl,
    inFinally_append htwo (inFinally_pair who .display displaying), fun hall => ?_⟩
  rw [Bool.and_eq_true, Bool.and_eq_true] at hall
  obtain ⟨⟨hclear, hshow⟩, hdisplay⟩ := hall
  rw [List.append_assoc]
  exact List.rel_append (matches_pair hclear) (List.rel_append (matches_pair hshow) (matches_pair hdisplay))

theorem restoreState_plays (recipe : StateRecipe) (baselineShow : Text) (who : Who) (t : List (Event Command)) :
    Plays answer t (restoreState reader recipe baselineShow who)
      (Adds (stateCleared reader recipe baselineShow who) t) := by
  refine whenReady_plays (fun u hu => ⟨u, false, rfl, rfl, hu, nofun⟩) fun clearing => ?_
  have hone := inFinally_pair who (.stateClear recipe) clearing
  by_cases hclear : holds (fun text => !isRefusal reader text) clearing = true
  · rw [if_pos hclear]
    refine whenReady_plays (fun u hu => Adds.failed hone hu) fun showing => ?_
    refine .ret ⟨_, _, List.append_assoc _ _ _, rfl,
      inFinally_append hone (inFinally_pair who (.stateShow recipe) showing), fun hshow => ?_⟩
    exact List.rel_append (matches_pair hclear) (matches_pair hshow)
  · rw [if_neg hclear]
    exact .ret ⟨_, false, rfl, rfl, hone, nofun⟩

/-! ## the steps inside of `try` -/

/-- the steps come to an end, whatever is answered -/
def Gives (m : Prog (shell Command) Exn Found) : Prop :=
  ∀ (answer : List (Event Command) → (o : (shell Command).Op) → (shell Command).Ans o) (t : List (Event Command)),
    Plays answer t m fun t' x => ∃ steps found, t' = t ++ steps ∧ x = .ok found

theorem Gives.ret (found : Found) : Gives (.ret found) := fun _ t =>
  Plays.ret ⟨[], found, (List.append_nil t).symm, rfl⟩

theorem Gives.attempt {c : Command} {f : Text → Prog (shell Command) Exn Found} (hf : ∀ text, Gives (f text)) :
    Gives (attempt c f) := by
  intro answer t
  refine tried_plays fun r => ?_
  cases r with
  | error e => exact .ret ⟨_, _, rfl, rfl⟩
  | ok text =>
    refine (hf text answer _).mono ?_
    rintro t' x ⟨steps, found, rfl, rfl⟩
    exact ⟨_, found, List.append_assoc _ _ _, rfl⟩

theorem Gives.listed (c : Command) (f : Text → Bool → Found) : Gives (listed c f) := fun _ _ =>
  Plays.op (.ret ⟨_, _, rfl, rfl⟩)

theorem Gives.ite {p : Prop} [Decidable p] {m m' : Prog (shell Command) Exn Found} (h : Gives m) (h' : Gives m') :
    Gives (if p then m else m') := by
  by_cases hp : p
  · rw [if_pos hp]
    exact h
  · rw [if_neg hp]
    exact h'

theorem body_gives (recipe : Recipe) (count : Nat) : Gives (body reader recipe count) :=
  .attempt fun _ => .ite (.ret _) (.attempt fun _ => .ite (.ret _) (.listed _ _))

theorem stateBody_gives (recipe : StateRecipe) (virtualServer : Text) (count : Nat) :
    Gives (stateBody reader recipe virtualServer count) :=
  .attempt fun _ => .ite (.ret _) (.attempt fun _ => .ite (.listed _ _) (.ret _))

/-! ## the results -/

/-- the device was identified and the baseline was read; after the steps, one session has taken everything back -/
def Verified (identity : I) (baseline : List (Event Command)) (accepted : Who → List (Event Command → Prop))
    (t : List (Event Command)) : Prop :=
  ∃ status steps w, t = answered .original .before .getStatus (.ok status) :: baseline ++ steps ++ w ∧
    reader.verifyIdentity status = .ok identity ∧ (∀ e ∈ w, InFinally e) ∧
      ByOne accepted (SameDevice reader.verifyIdentity .getStatus identity .repair .restore) w

variable [DecidableEq I]

/-- `try: … finally: …`, and the result -/
theorem guarded_plays {m : Prog (shell Command) Exn Found} {P : Who → List (Event Command → Prop)}
    {restore : Who → Prog (shell Command) Exn Bool} {reconnects : Bool} {identity : I} {R : Type}
    {make : Found → Bool → R} (hm : Gives m)
    (hrestore : ∀ who t, Plays answer t (restore who) (Adds (P who) t)) :
    Plays answer t (m.bind fun found => (finish reader reconnects identity restore).bind fun verified =>
      .ret (make found verified)) fun t' x => ∃ found verified steps w, t' = t ++ steps ++ w ∧
        x = .ok (make found verified) ∧ (∀ e ∈ w, InFinally e) ∧ (verified = true →
          ByOne P (SameDevice reader.verifyIdentity .getStatus identity .repair .restore) w) := by
  refine Plays.bind (hm answer t) (fun _ _ h => ?_) ?_
  · obtain ⟨_, _, -, hx⟩ := h
    exact nomatch hx
  rintro t' found ⟨steps, found', rfl, hfound⟩
  obtain rfl := Except.ok.inj hfound
  refine Plays.bind (orReconnect_plays SameDevice.append (hrestore .original _)
    (onSame_plays fun t => hrestore .repair t)) (fun _ _ h => ?_) ?_
  · obtain ⟨_, _, -, hx, -⟩ := h
    exact nomatch hx
  rintro t' verified ⟨w, b, rfl, hb, hw, hone⟩
  obtain rfl := Except.ok.inj hb
  exact .ret ⟨found, verified, steps, w, rfl, rfl, hw, hone⟩

/-- a result that says so was verified -/
theorem verified_of_result {identity : I} {count : Nat} {found : Found} {verified : Bool}
    (h : (result identity count found verified).cleanup = .verified ∨
      (result identity count found verified).ok = true) : verified = true := by
  cases verified with
  | true => rfl
  | false =>
    rcases h with h | h
    · exact nomatch h
    · simp [result] at h

/-- what the result of `run` says about the filter is true -/
theorem run_plays (recipe : Recipe) (count : Nat) (reconnects : Bool) :
    Plays answer [] (run reader recipe count reconnects) fun t x => ∀ r, x = .ok r →
      r.cleanup = .verified ∨ r.ok = true → ∃ shown displayed,
        Verified reader r.identity [answered .original .before .show_ (.ok shown),
          answered .original .before .display (.ok displayed)]
          (cleared reader (clean shown) (clean displayed)) t := by
  refine sendWith_plays (fun e => nofun) fun status => ?_
  cases hid : reader.verifyIdentity status with
  | error e => exact .raise nofun
  | ok identity =>
    refine sendWith_plays (fun e => nofun) fun shown => ?_
    by_cases hshown : clean shown ≠ []
    · rw [if_pos hshown]
      exact .raise nofun
    rw [if_neg hshown]
    refine sendWith_plays (fun e => nofun) fun displayed => ?_
    by_cases hdisplayed : reader.letters.casefold (clean displayed) ≠ reader.letters.casefold displayRefusal
    · rw [if_pos hdisplayed]
      exact .raise nofun
    rw [if_neg hdisplayed]
    refine (guarded_plays reader (body_gives reader recipe count)
      (restore_plays reader (clean shown) (clean displayed))).mono ?_
    rintro t x ⟨found, verified, steps, w, rfl, rfl, hw, hone⟩ r hr hsays
    obtain rfl := Except.ok.inj hr
    exact ⟨shown, displayed, status, steps, w, rfl, hid, hw, hone (verified_of_result hsays)⟩

/-- what the result of `run_state_list` says about the filter is true -/
theorem runStateList_plays (recipe : StateRecipe) (virtualServer : Text) (count : Nat) (reconnects : Bool) :
    Plays answer [] (runStateList reader recipe virtualServer count reconnects) fun t x => ∀ r, x = .ok r →
      r.cleanup = .verified ∨ r.ok = true → ∃ shown,
        Verified reader r.identity [answered .original .before (.stateShow recipe) (.ok shown)]
          (stateCleared reader recipe (clean shown)) t := by
  unfold runStateList
  by_cases hname : (!isVirtualServer virtualServer) = true
  · rw [if_pos hname]
    exact .raise nofun
  rw [if_neg hname]
  refine sendWith_plays (fun e => nofun) fun status => ?_
  cases hid : reader.verifyIdentity status with
  | error e => exact .raise nofun
  | ok identity =>
    refine sendWith_plays (fun e => nofun) fun shown => ?_
    by_cases hshown : (filterValues (clean shown)).any (sameValues · (stateFilter recipe "0" "any".toList)) = true
    · rw [if_pos hshown]
      refine (guarded_plays reader (stateBody_gives reader recipe virtualServer count)
        (restoreState_plays reader recipe (clean shown))).mono ?_
      rintro t x ⟨found, verified, steps, w, rfl, rfl, hw, hone⟩ r hr hsays
      obtain rfl := Except.ok.inj hr
      exact ⟨shown, status, steps, w, rfl, hid, hw, hone (verified_of_result hsays)⟩
    · rw [if_neg hshown]
      exact .raise nofun

end Fortiadc

/-! ## both platforms -/

/-- whatever the sessions answer: a run on FortiOS that does not end in `RestoreUnverified` has restored what it
changed, and on FortiADC the filter is as it was if the result says so -/
theorem restored_or_said {I : Type} [DecidableEq I] (fortios : Fortios.Reader) (i : Fortios.Input)
    (answer : List (Event Fortios.Command) → (o : (shell Fortios.Command).Op) → (shell Fortios.Command).Ans o)
    (fortiadc : Fortiadc.Reader I)
    (answer' : List (Event Fortiadc.Command) → (o : (shell Fortiadc.Command).Op) → (shell Fortiadc.Command).Ans o) :
    Plays answer [] (Fortios.run fortios i) (Fortios.Restores fortios i) ∧
      (∀ recipe count reconnects, Plays answer' [] (Fortiadc.run fortiadc recipe count reconnects) fun t x =>
        ∀ r, x = .ok r → r.cleanup = .verified ∨ r.ok = true → ∃ shown displayed,
          Fortiadc.Verified fortiadc r.identity [answered .original .before .show_ (.ok shown),
            answered .original .before .display (.ok displayed)]
            (Fortiadc.cleared fortiadc (Fortiadc.clean shown) (Fortiadc.clean displayed)) t) ∧
      ∀ recipe virtualServer count reconnects,
        Plays answer' [] (Fortiadc.runStateList fortiadc recipe virtualServer count reconnects) fun t x =>
          ∀ r, x = .ok r → r.cleanup = .verified ∨ r.ok = true → ∃ shown,
            Fortiadc.Verified fortiadc r.identity [answered .original .before (.stateShow recipe) (.ok shown)]
              (Fortiadc.stateCleared fortiadc recipe (Fortiadc.clean shown)) t :=
  ⟨Fortios.run_plays fortios i, Fortiadc.run_plays fortiadc, Fortiadc.runStateList_plays fortiadc⟩

end Netops.Diagnostics

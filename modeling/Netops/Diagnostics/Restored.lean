import Netops.Diagnostics.Fortios

/-!
# What a diagnostic changes on FortiOS is taken back

* `IsChange`          an event that changes an option, a filter or the debugging;
* `Undoes`            the command that takes a change back;
* `Restored`          one session has accepted all such commands, and has shown the baseline then;
* `setOptions_plays`, `filterBody_plays`   while changes are made, what takes them back is kept;
* `run_restores`      a run that does not end in `RestoreUnverified` has restored what it changed.
-/

namespace Netops.Diagnostics

open Effect
open Netops.Fortios (Text)

namespace Fortios

/-! ## changes -/

/-- an option, a filter or the debugging is changed -/
def Command.changes : Command → Bool
  | .setOption _ _ _ | .setFilter _ _ | .traceStart _ | .debugEnable => true
  | _ => false

/-- the event changes something: what is sent inside of `finally` does not count -/
def IsChange (e : Event Command) : Prop := ∃ c r, c.changes = true ∧ e = answered .original .body c r

/-- an option that the device refused, in exactly these words -/
def ExactRefusal (c : Command) (r : Except Exn Text) : Prop :=
  ∃ recipe option value, refusable option = true ∧ c = .setOption recipe option.toList value ∧
    r = .error (.refused (refusal option))

/-- `undo` takes a command back; an option gets the value that the baseline shows -/
def Undoes (i : Input) (baseline : Text) (c undo : Command) : Prop :=
  match c with
  | .setOption recipe option _ => ∃ current, ∃ s ∈ settings i.recipe i.interface i.count, ∃ previous,
      currentOf baseline = some current ∧ s.option.toList = option ∧ previousOf current s = some previous ∧
        undo = .setOption recipe option previous
  | .setFilter recipe _ => undo = .clearFilter recipe
  | .traceStart _ => undo = .traceStop
  | .debugEnable => undo = .debugDisable
  | _ => False

/-- the debugging is started -/
def Command.starts : Command → Bool
  | .traceStart _ | .debugEnable => true
  | _ => false

/-- if the event is a change, then it was refused, or is taken back by one of the commands -/
def Covered (i : Input) (baseline : Text) (cleanup : List Command) (e : Event Command) : Prop :=
  ∀ c r, c.changes = true → e = answered .original .body c r →
    (ExactRefusal c r ∨ ∃ undo ∈ cleanup, Undoes i baseline c undo) ∧
      (c.starts = true → Command.debugDisable ∈ cleanup)

theorem answered_inj {who who' : Who} {phase phase' : Phase} {c c' : Command} {r r' : Except Exn Text}
    (h : answered who phase c r = answered who' phase' c' r') : who = who' ∧ phase = phase' ∧ c = c' ∧ r = r' := by
  obtain ⟨hop, hr⟩ := Sigma.mk.inj h
  obtain ⟨rfl, rfl, rfl⟩ := Op.command.inj hop
  exact ⟨rfl, rfl, rfl, eq_of_heq hr⟩

theorem not_isChange {who : Who} {phase : Phase} {c : Command} {r : Except Exn Text}
    (h : phase ≠ .body ∨ c.changes = false) : ¬IsChange (answered who phase c r) := by
  rintro ⟨c', r', hc, heq⟩
  obtain ⟨-, rfl, rfl, -⟩ := answered_inj heq
  rcases h with h | h
  · exact h rfl
  · rw [h] at hc
    exact nomatch hc

theorem not_isChange_of_inFinally {e : Event Command} (h : InFinally e) : ¬IsChange e := by
  rintro ⟨c, r, -, rfl⟩
  exact nomatch h

/-- an event that is no change needs nothing -/
theorem Covered.of_not_isChange {i : Input} {baseline : Text} {cleanup : List Command} {e : Event Command}
    (h : ¬IsChange e) : Covered i baseline cleanup e := fun c r hc he => absurd ⟨c, r, hc, he⟩ h

theorem Covered.mono {i : Input} {baseline : Text} {cleanup cleanup' : List Command} {e : Event Command}
    (h : Covered i baseline cleanup e) (hsub : cleanup ⊆ cleanup') : Covered i baseline cleanup' e := by
  intro c r hc he
  obtain ⟨hback, hstart⟩ := h c r hc he
  refine ⟨?_, fun hs => hsub (hstart hs)⟩
  rcases hback with hback | ⟨undo, hmem, hback⟩
  · exact .inl hback
  · exact .inr ⟨undo, hsub hmem, hback⟩

/-- a command that is taken back -/
theorem Covered.of_undo {i : Input} {baseline : Text} {cleanup : List Command} {c undo : Command}
    {r : Except Exn Text} (hmem : undo ∈ cleanup) (h : Undoes i baseline c undo)
    (hstart : c.starts = true → Command.debugDisable ∈ cleanup) :
    Covered i baseline cleanup (answered .original .body c r) := by
  intro c' r' _ heq
  obtain ⟨-, -, rfl, -⟩ := answered_inj heq
  exact ⟨.inr ⟨undo, hmem, h⟩, hstart⟩

/-! ## restoring -/

/-- the events of a session that has taken everything back -/
def Kept.accepted (kept : Kept) (who : Who) (recipe : Recipe) : List (Event Command → Prop) :=
  kept.cleanup.map (fun c e => ∃ text, e = answered who .restore c (.ok text)) ++
    (match kept.display, kept.baseline with
      | some display, some baseline => [fun e => e = answered who .restore display (.ok baseline)]
      | _, _ => []) ++
    if recipe = Recipe.flow ∧ Command.debugDisable ∈ kept.cleanup then
      [fun e => ∃ text, e = answered who .restore .debugInfo (.ok text) ∧ debugDisabled text = true]
    else []

variable {answer : List (Event Command) → (o : (shell Command).Op) → (shell Command).Ans o} {ε : Type}
  {t : List (Event Command)}

theorem sendAll_plays (who : Who) (cs : List Command) :
    Plays answer t (sendAll who cs : Prog (shell Command) ε Bool)
      (Adds (cs.map fun c e => ∃ text, e = answered who .restore c (.ok text)) t) := by
  induction cs generalizing t with
  | nil => exact .ret (.nothing t)
  | cons c cs ih =>
    refine tried_plays fun r => Adds.bind ih fun u b hu hall => ?_
    refine .ret ⟨answered who .restore c r :: u, _, by rw [List.append_assoc]; rfl, rfl, ?_, fun hok => ?_⟩
    · exact inFinally_append (inFinally_answered who c r) hu
    · rw [Bool.and_eq_true] at hok
      cases r with
      | error e => exact nomatch hok.1
      | ok text => exact .cons ⟨text, rfl⟩ (hall hok.2)

theorem checked_plays (who : Who) (c : Command) (good : Text → Bool) :
    Plays answer t (checked who c good : Prog (shell Command) ε Bool)
      (Adds [fun e => ∃ text, e = answered who .restore c (.ok text) ∧ good text = true] t) := by
  refine tried_plays fun r => .ret ⟨[answered who .restore c r], _, rfl, rfl, ?_, fun hok => ?_⟩
  · exact inFinally_answered who c r
  · cases r with
    | error e => exact nomatch hok
    | ok text => exact .cons ⟨text, rfl, hok⟩ .nil

/-- `_restore` says that everything is taken back only if one session has done it -/
theorem restore_plays (who : Who) (kept : Kept) (recipe : Recipe) :
    Plays answer t (restore who kept recipe : Prog (shell Command) ε Bool)
      (Adds (kept.accepted who recipe) t) := by
  refine Adds.bind (sendAll_plays who kept.cleanup) fun u sent hu hsent => ?_
  have hshow : Plays answer (t ++ u) (match kept.display, kept.baseline with
      | some display, some baseline => checked who display fun text => text = baseline
      | _, _ => .ret true : Prog (shell Command) ε Bool)
      (Adds (match kept.display, kept.baseline with
        | some display, some baseline => [fun e => e = answered who .restore display (.ok baseline)]
        | _, _ => []) (t ++ u)) := by
    split
    · next display baseline _ _ =>
      refine (checked_plays who display _).mono ?_
      rintro t' x ⟨v, b, ht, hx, hv, hall⟩
      refine ⟨v, b, ht, hx, hv, fun hb => ?_⟩
      cases hall hb with
      | cons hfirst hrest =>
        obtain ⟨text, rfl, hgood⟩ := hfirst
        cases hrest
        rw [of_decide_eq_true hgood]
        exact .cons rfl .nil
    · exact .ret (.nothing _)
  refine Adds.bind hshow fun v shown hv hshown => ?_
  have hdebug : Plays answer (t ++ u ++ v)
      (if recipe = Recipe.flow ∧ Command.debugDisable ∈ kept.cleanup then checked who .debugInfo debugDisabled
        else .ret true : Prog (shell Command) ε Bool)
      (Adds (if recipe = Recipe.flow ∧ Command.debugDisable ∈ kept.cleanup then
        [fun e => ∃ text, e = answered who .restore .debugInfo (.ok text) ∧ debugDisabled text = true]
        else []) (t ++ u ++ v)) := by
    split_ifs
    · exact checked_plays who .debugInfo debugDisabled
    · exact .ret (.nothing _)
  refine Adds.bind hdebug fun w quiet hw hquiet => .ret ⟨u ++ v ++ w, _, ?_, rfl, ?_, fun hok => ?_⟩
  · simp only [List.append_assoc]
  · exact inFinally_append (inFinally_append hu hv) hw
  · rw [Bool.and_eq_true, Bool.and_eq_true] at hok
    exact List.rel_append (List.rel_append (hsent hok.1.1) (hshown hok.1.2)) (hquiet hok.2)

/-! ## `finally` -/

variable {reader : Reader} {i : Input}

/-- `finally` ends without an exception only if one session has restored everything -/
theorem finish_plays (kept : Kept) (found : Identity × Text × Mode) (t : List (Event Command)) :
    Plays answer t (finish reader i kept found) fun t' x => ∃ w, t' = t ++ w ∧ (∀ e ∈ w, InFinally e) ∧
      ((x = .ok () ∧ ByOne (fun who => kept.accepted who i.recipe)
        (SameDevice reader.statusIdentity .systemStatus found .repair .restore) w) ∨
          x = .error .restoreUnverified) := by
  refine Plays.bind (@orReconnect_plays _ _ _ t _ _ _ (fun who => kept.accepted who i.recipe) _
    SameDevice.append (restore_plays .original kept i.recipe)
    (onSame_plays fun t => restore_plays .repair kept i.recipe)) (fun _ _ h => ?_) ?_
  · obtain ⟨_, _, -, hx, -⟩ := h
    exact nomatch hx
  · rintro t' restored ⟨w, b, rfl, hb, hw, hone⟩
    obtain rfl := Except.ok.inj hb
    cases restored with
    | true => exact .ret ⟨w, rfl, hw, .inl ⟨rfl, hone rfl⟩⟩
    | false => exact .raise ⟨w, rfl, hw, .inr rfl⟩

/-! ## the steps inside of `try` -/

/-- what the steps have done: the baseline was read before the first change, and every change is taken back by
what is kept -/
structure Does (i : Input) (kept : Kept) (w : List (Event Command)) : Prop where
  covered : (∃ e ∈ w, IsChange e) → ∃ display baseline a b,
    kept.display = some display ∧ kept.baseline = some baseline ∧
      (display = .viewSettings i.recipe ∨ display = .showFilter i.recipe) ∧
        w = a ++ answered .original .body display (.ok baseline) :: b ∧ (∀ e ∈ a, ¬IsChange e) ∧
          ∀ e ∈ b, Covered i baseline kept.cleanup e

/-- what an outcome keeps -/
def keptOf {α : Type} (of : α → Kept) : Except (Exn × Kept) α → Kept
  | .ok a => of a
  | .error e => e.2

/-- nothing is changed -/
theorem Does.of_quiet {kept : Kept} {w : List (Event Command)} (h : ∀ e ∈ w, ¬IsChange e) : Does i kept w :=
  ⟨fun ⟨e, he, hchange⟩ => absurd hchange (h e he)⟩

theorem quiet_body {c : Command} (h : c.changes = false) (r : Except Exn Text) :
    ∀ e ∈ [answered .original .body c r], ¬IsChange e := by
  intro e he
  obtain rfl := List.mem_singleton.1 he
  exact not_isChange (.inr h)

/-- the loop over the options: what has been sent is taken back -/
theorem setOptions_plays {current : List (Text × Text)} {baseline : Text}
    (hcurrent : currentOf baseline = some current) (rest : List Setting)
    (hrest : ∀ s ∈ rest, s ∈ settings i.recipe i.interface i.count) (kept : Kept) (t : List (Event Command)) :
    Plays answer t (setOptions i.recipe current rest kept) fun t' x => ∃ b, t' = t ++ b ∧
      (keptOf id x).display = kept.display ∧ (keptOf id x).baseline = kept.baseline ∧
        kept.cleanup ⊆ (keptOf id x).cleanup ∧ ∀ e ∈ b, Covered i baseline (keptOf id x).cleanup e := by
  induction rest generalizing kept t with
  | nil => exact .ret ⟨[], (List.append_nil t).symm, rfl, rfl, List.Subset.refl _, List.forall_mem_nil _⟩
  | cons s rest ih =>
    unfold setOptions
    cases hprev : previousOf current s with
    | none => exact .raise ⟨[], (List.append_nil t).symm, rfl, rfl, List.Subset.refl _, List.forall_mem_nil _⟩
    | some previous =>
      have hmem := hrest s List.mem_cons_self
      refine tried_plays fun r => ?_
      have hcovered : ∀ cleanup, Command.setOption i.recipe s.option.toList previous ∈ cleanup →
          Covered i baseline cleanup (answered .original .body (.setOption i.recipe s.option.toList s.value) r) :=
        fun cleanup hin => .of_undo hin ⟨current, s, hmem, previous, hcurrent, rfl, hprev, rfl⟩ nofun
      cases r with
      | ok text =>
        refine (ih (fun s' hs' => hrest s' (List.mem_cons_of_mem _ hs')) _ _).mono ?_
        rintro t' x ⟨b, rfl, hdisplay, hbase, hsub, hall⟩
        refine ⟨answered .original .body (.setOption i.recipe s.option.toList s.value) (.ok text) :: b,
          by rw [List.append_assoc]; rfl, hdisplay, hbase, fun c hc => hsub (List.mem_cons_of_mem _ hc), ?_⟩
        intro e he
        rcases List.mem_cons.1 he with rfl | he
        · exact hcovered _ (hsub List.mem_cons_self)
        · exact hall e he
      | error e =>
        dsimp only
        by_cases hrefused : refusable s.option ∧ e = .refused (refusal s.option)
        · rw [if_pos hrefused]
          refine .raise ⟨_, rfl, rfl, rfl, List.Subset.refl _, fun e' he' => ?_⟩
          obtain rfl := List.mem_singleton.1 he'
          intro c r _ heq
          obtain ⟨-, -, rfl, rfl⟩ := answered_inj heq
          exact ⟨.inl ⟨i.recipe, s.option, s.value, hrefused.1, rfl, by rw [hrefused.2]⟩, nofun⟩
        · rw [if_neg hrefused]
          refine .raise ⟨_, rfl, rfl, rfl, List.subset_cons_self _ _, fun e' he' => ?_⟩
          obtain rfl := List.mem_singleton.1 he'
          exact hcovered _ List.mem_cons_self

/-- a part of a run does what it keeps -/
def DoesThen {α : Type} (i : Input) (of : α → Kept) (t t' : List (Event Command)) (x : Except (Exn × Kept) α) :
    Prop := ∃ w, t' = t ++ w ∧ Does i (keptOf of x) w

theorem DoesThen.of_quiet {α : Type} {of : α → Kept} {x : Except (Exn × Kept) α} {w : List (Event Command)}
    (h : ∀ e ∈ w, ¬IsChange e) : DoesThen i of t (t ++ w) x := ⟨w, rfl, .of_quiet h⟩

theorem DoesThen.nothing {α : Type} {of : α → Kept} {x : Except (Exn × Kept) α} : DoesThen i of t t x :=
  ⟨[], (List.append_nil t).symm, .of_quiet (List.forall_mem_nil _)⟩

/-- the events after the baseline -/
theorem DoesThen.of_covered {α : Type} {of : α → Kept} {x : Except (Exn × Kept) α} {display : Command}
    {baseline : Text} {t' : List (Event Command)} (a b : List (Event Command))
    (ht : t' = t ++ (a ++ answered .original .body display (.ok baseline) :: b))
    (hdisplay : display = .viewSettings i.recipe ∨ display = .showFilter i.recipe)
    (hkept : (keptOf of x).display = some display ∧ (keptOf of x).baseline = some baseline)
    (ha : ∀ e ∈ a, ¬IsChange e) (hb : ∀ e ∈ b, Covered i baseline (keptOf of x).cleanup e) :
    DoesThen i of t t' x :=
  ⟨_, ht, ⟨fun _ => ⟨display, baseline, a, b, hkept.1, hkept.2, hdisplay, rfl, ha, hb⟩⟩⟩

theorem optionBody_plays (t : List (Event Command)) :
    Plays answer t (optionBody i) (DoesThen i Prod.snd t) := by
  have hquiet := @quiet_body (.viewSettings i.recipe) rfl
  refine sendWith_plays (fun e => .of_quiet (hquiet _)) fun baseline => ?_
  cases hcurrent : currentOf baseline with
  | none => exact .raise (.of_quiet (hquiet _))
  | some current =>
    have hset := @setOptions_plays answer i current baseline hcurrent (settings i.recipe i.interface i.count)
      (fun _ hs => hs) { display := some (.viewSettings i.recipe), baseline := some baseline }
      (t ++ [answered .original .body (.viewSettings i.recipe) (.ok baseline)])
    refine Plays.bind hset ?_ ?_
    · rintro t' e ⟨b, rfl, hdisplay, hbase, -, hall⟩
      exact .of_covered [] b (List.append_assoc _ _ _) (.inl rfl) ⟨hdisplay, hbase⟩ (List.forall_mem_nil _) hall
    · rintro t' kept ⟨b, rfl, hdisplay, hbase, -, hall⟩
      exact .ret (.of_covered [] b (List.append_assoc _ _ _) (.inl rfl) ⟨hdisplay, hbase⟩ (List.forall_mem_nil _) hall)

/-- the loop over the filters: one command takes all of them back -/
theorem setFilters_plays {baseline : Text} (kept : Kept) (hclear : Command.clearFilter i.recipe ∈ kept.cleanup)
    (sels : List Text) (t : List (Event Command)) :
    Plays answer t (setFilters i.recipe kept sels) fun t' x => ∃ b, t' = t ++ b ∧ keptOf (fun _ => kept) x = kept ∧
      ∀ e ∈ b, Covered i baseline kept.cleanup e := by
  induction sels generalizing t with
  | nil => exact .ret ⟨[], (List.append_nil t).symm, rfl, List.forall_mem_nil _⟩
  | cons s rest ih =>
    have hcovered : ∀ r, Covered i baseline kept.cleanup (answered .original .body (.setFilter i.recipe s) r) :=
      fun r => .of_undo hclear rfl nofun
    refine sendWith_plays (fun e => ⟨_, rfl, rfl, fun e' he' => ?_⟩) fun text => ?_
    · obtain rfl := List.mem_singleton.1 he'
      exact hcovered _
    · refine (ih _).mono ?_
      rintro t' x ⟨b, rfl, hkept, hall⟩
      refine ⟨answered .original .body (.setFilter i.recipe s) (.ok text) :: b, by rw [List.append_assoc]; rfl,
        hkept, fun e he => ?_⟩
      rcases List.mem_cons.1 he with rfl | he
      · exact hcovered _
      · exact hall e he

/-- the checks of a flow before the filters -/
theorem flowChecks_plays (identity : Identity) (t : List (Event Command)) :
    Plays answer t (if i.recipe = .flow then
      (sendKept {} .debugInfo).bind fun debug =>
        if !debugDisabled debug then .raise (.value, {})
        else if !tupleIdentities.contains identity && hasLine "console timestamp:" "enable" debug then
          .raise (.optionRefused, {})
        else .ret ()
      else .ret () : Step Unit) fun t' _ => ∃ a, t' = t ++ a ∧ ∀ e ∈ a, ¬IsChange e := by
  have hquiet := @quiet_body .debugInfo rfl
  by_cases hflow : i.recipe = .flow
  · rw [if_pos hflow]
    refine sendWith_plays (fun e => ⟨_, rfl, hquiet _⟩) fun debug => ?_
    by_cases hdebug : (!debugDisabled debug) = true
    · rw [if_pos hdebug]
      exact .raise ⟨_, rfl, hquiet _⟩
    · rw [if_neg hdebug]
      split_ifs
      · exact .raise ⟨_, rfl, hquiet _⟩
      · exact .ret ⟨_, rfl, hquiet _⟩
  · rw [if_neg hflow]
    exact .ret ⟨[], (List.append_nil t).symm, List.forall_mem_nil _⟩

/-- the debugging is started after what stops it is kept -/
theorem startTrace_plays {baseline : Text} {kept : Kept} (hstop : Command.traceStop ∈ kept.cleanup)
    (hdisable : Command.debugDisable ∈ kept.cleanup) (count : Nat) (t : List (Event Command)) :
    Plays answer t ((sendKept kept (.traceStart count)).bind fun _ =>
      (sendKept kept .debugEnable).bind fun _ => .ret (none, kept) : Step (Option Command × Kept))
      fun t' x => ∃ b, t' = t ++ b ∧ keptOf Prod.snd x = kept ∧ ∀ e ∈ b, Covered i baseline kept.cleanup e := by
  have hfirst : ∀ r, Covered i baseline kept.cleanup (answered .original .body (.traceStart count) r) :=
    fun r => .of_undo hstop rfl fun _ => hdisable
  have hsecond : ∀ r, Covered i baseline kept.cleanup (answered .original .body .debugEnable r) :=
    fun r => .of_undo hdisable rfl fun _ => hdisable
  have hboth : ∀ r r', ∀ e ∈ [answered .original .body (.traceStart count) r, answered .original .body .debugEnable r'],
      Covered i baseline kept.cleanup e := by
    intro r r' e he
    rcases List.mem_cons.1 he with rfl | he
    · exact hfirst r
    · obtain rfl := List.mem_singleton.1 he
      exact hsecond r'
  refine sendWith_plays (fun e => ⟨_, rfl, rfl, fun e' he' => ?_⟩) fun text => ?_
  · obtain rfl := List.mem_singleton.1 he'
    exact hfirst _
  · refine sendWith_plays (fun e => ⟨_, List.append_assoc t _ _, rfl, hboth _ _⟩) fun text' => ?_
    exact .ret ⟨_, List.append_assoc t _ _, rfl, hboth _ _⟩

theorem filterBody_plays (identity : Identity) (t : List (Event Command)) :
    Plays answer t (filterBody i identity) (DoesThen i Prod.snd t) := by
  have hquiet := @quiet_body (.showFilter i.recipe) rfl
  refine Plays.bind (flowChecks_plays identity t) ?_ ?_
  · rintro t' e ⟨a, rfl, ha⟩
    exact .of_quiet ha
  · rintro t' - ⟨a, rfl, ha⟩
    have hshown : ∀ r, ∀ e ∈ a ++ [answered .original .body (.showFilter i.recipe) r], ¬IsChange e := by
      intro r e he
      rcases List.mem_append.1 he with he | he
      · exact ha e he
      · exact hquiet r e he
    refine sendWith_plays (fun e => ⟨_, List.append_assoc t a _, .of_quiet (hshown _)⟩) fun baseline => ?_
    by_cases hempty : (!emptyFilter baseline i.recipe) = true
    · rw [if_pos hempty]
      exact .raise ⟨_, List.append_assoc t a _, .of_quiet (hshown _)⟩
    rw [if_neg hempty]
    have hset := @setFilters_plays answer i baseline
      ⟨[.clearFilter i.recipe], some (.showFilter i.recipe), some baseline⟩
      List.mem_cons_self (selectors i identity)
      (t ++ a ++ [answered .original .body (.showFilter i.recipe) (.ok baseline)])
    refine Plays.bind hset ?_ ?_
    · rintro t' e ⟨b, rfl, hkept, hall⟩
      refine .of_covered a b (by simp only [List.append_assoc]; rfl) (.inr rfl) ?_ ha ?_
      · exact ⟨congrArg Kept.display hkept, congrArg Kept.baseline hkept⟩
      · have hcleanup : e.2.cleanup = [.clearFilter i.recipe] := congrArg Kept.cleanup hkept
        intro e' he'
        show Covered i baseline e.2.cleanup e'
        rw [hcleanup]
        exact hall e' he'
    · rintro t' - ⟨b, rfl, -, hall⟩
      by_cases hsessions : i.recipe = .sessions
      · rw [if_pos hsessions]
        exact .ret (.of_covered a b (by simp only [List.append_assoc]; rfl) (.inr rfl) ⟨rfl, rfl⟩ ha hall)
      · rw [if_neg hsessions]
        have hstart := @startTrace_plays answer i baseline
          ⟨[.debugDisable, .traceStop, .clearFilter i.recipe], some (.showFilter i.recipe), some baseline⟩
          (List.mem_cons_of_mem _ List.mem_cons_self) List.mem_cons_self i.count
          (t ++ a ++ [answered .original .body (.showFilter i.recipe) (.ok baseline)] ++ b)
        refine hstart.mono ?_
        rintro t' x ⟨b', rfl, hkept, hall'⟩
        refine .of_covered a (b ++ b') (by simp only [List.append_assoc]; rfl) (.inr rfl) ?_ ha ?_
        · rw [hkept]
          exact ⟨rfl, rfl⟩
        · rw [hkept]
          intro e he
          rcases List.mem_append.1 he with he | he
          · exact (hall e he).mono fun c hc => List.mem_cons_of_mem _ (List.mem_cons_of_mem _ hc)
          · exact hall' e he

theorem prepare_plays (identity : Identity) (t : List (Event Command)) :
    Plays answer t (prepare reader i identity) (DoesThen i Prod.snd t) := by
  have hquiet := @quiet_body .logFilterDump rfl
  unfold prepare
  split
  · exact optionBody_plays t
  · exact optionBody_plays t
  · exact .ret .nothing
  · refine sendWith_plays (fun e => .of_quiet (hquiet _)) fun baseline => ?_
    dsimp only
    split_ifs
    · exact .raise (.of_quiet (hquiet _))
    · exact .ret (.of_quiet (hquiet _))
  · exact filterBody_plays identity t
  · exact filterBody_plays identity t

theorem Does.append {kept : Kept} {w v : List (Event Command)} (h : Does i kept w) (hv : ∀ e ∈ v, ¬IsChange e) :
    Does i kept (w ++ v) := by
  refine ⟨fun ⟨e, he, hchange⟩ => ?_⟩
  rcases List.mem_append.1 he with he | he
  · obtain ⟨display, baseline, a, b, hdisplay, hbase, hwhich, rfl, ha, hb⟩ := h.covered ⟨e, he, hchange⟩
    refine ⟨display, baseline, a, b ++ v, hdisplay, hbase, hwhich, by rw [List.append_assoc]; rfl, ha, ?_⟩
    intro e' he'
    rcases List.mem_append.1 he' with he' | he'
    · exact hb e' he'
    · exact .of_not_isChange (hv e' he')
  · exact absurd hchange (hv e he)

theorem quiet_bounded (c : Option Command) (r : Except Exn (Text × Bool)) :
    ∀ e ∈ [(⟨.bounded c, r⟩ : Event Command)], ¬IsChange e := by
  intro e he
  obtain rfl := List.mem_singleton.1 he
  rintro ⟨c', r', -, heq⟩
  exact nomatch (Sigma.mk.inj heq).1

theorem body_plays (identity : Identity) (domain : Text) (t : List (Event Command)) :
    Plays answer t (body reader i identity domain) (DoesThen i Prod.snd t) := by
  refine Plays.bind (prepare_plays identity t) (fun t' e h => h) ?_
  rintro t' ⟨command, kept⟩ ⟨w, rfl, hdoes⟩
  have hend : ∀ r, Does i kept (w ++ [⟨.bounded command, r⟩]) := fun r => hdoes.append (quiet_bounded command r)
  refine Plays.op (ofReply_plays (fun e _ => ⟨_, List.append_assoc t w _, hend _⟩) ?_)
  rintro ⟨output, timedOut⟩ -
  dsimp only
  by_cases hlogs : i.recipe = .logs
  · rw [if_pos hlogs]
    cases reader.logRead output (kept.baseline.getD []) timedOut with
    | ok text => exact .ret ⟨_, List.append_assoc t w _, hend _⟩
    | error e => exact .raise ⟨_, List.append_assoc t w _, hend _⟩
  · rw [if_neg hlogs]
    exact .ret ⟨_, List.append_assoc t w _, hend _⟩

/-! ## the run -/

/-- what was changed is restored, by one session -/
structure Restoration (reader : Reader) (i : Input) (t : List (Event Command)) where
  who : Who
  found : Identity × Text × Mode
  cleanup : List Command
  display : Command
  baseline : Text
  before : List (Event Command)
  changes : List (Event Command)
  /-- what that session, or another one, did before -/
  earlier : List (Event Command)
  restoring : List (Event Command)
  later : List (Event Command)
  eq : t = before ++ answered .original .body display (.ok baseline) :: (changes ++ (earlier ++ restoring ++ later))
  shows : display = .viewSettings i.recipe ∨ display = .showFilter i.recipe
  /-- the baseline was read before the first change -/
  unchanged : ∀ e ∈ before, ¬IsChange e
  covered : ∀ e ∈ changes, Covered i baseline cleanup e
  /-- everything after the last change -/
  inFinally : ∀ e ∈ earlier ++ restoring ++ later, InFinally e
  accepted : Matches (Kept.accepted ⟨cleanup, some display, some baseline⟩ who i.recipe) restoring
  status : SameDevice reader.statusIdentity .systemStatus found .original .before before
  same : who = .original ∨ SameDevice reader.statusIdentity .systemStatus found .repair .restore earlier

/-- the run has restored what it changed, unless it says so -/
def Restores (reader : Reader) (i : Input) {α : Type} (t : List (Event Command)) (x : Except Exn α) : Prop :=
  x ≠ .error .restoreUnverified → (∃ e ∈ t, IsChange e) → Nonempty (Restoration reader i t)

theorem Restores.of_quiet {α : Type} {x : Except Exn α} (h : ∀ e ∈ t, ¬IsChange e) : Restores reader i t x :=
  fun _ ⟨e, he, hchange⟩ => absurd hchange (h e he)

/-- the steps inside of `try`, and then `finally` -/
theorem restoration {kept : Kept} {found : Identity × Text × Mode} {t w v : List (Event Command)}
    (ht : ∀ e ∈ t, ¬IsChange e) (hstatus : SameDevice reader.statusIdentity .systemStatus found .original .before t)
    (hdoes : Does i kept w) (hv : ∀ e ∈ v, InFinally e)
    (hone : ByOne (fun who => kept.accepted who i.recipe)
      (SameDevice reader.statusIdentity .systemStatus found .repair .restore) v)
    (hchange : ∃ e ∈ t ++ w ++ v, IsChange e) : Nonempty (Restoration reader i (t ++ w ++ v)) := by
  have hin : ∃ e ∈ w, IsChange e := by
    obtain ⟨e, he, hchange⟩ := hchange
    rcases List.mem_append.1 he with he | he
    · rcases List.mem_append.1 he with he | he
      · exact absurd hchange (ht e he)
      · exact ⟨e, he, hchange⟩
    · exact absurd hchange (not_isChange_of_inFinally (hv e he))
  obtain ⟨display, baseline, a, b, hdisplay, hbase, hwhich, rfl, ha, hb⟩ := hdoes.covered hin
  obtain ⟨who, c, u, d, rfl, haccepted, hsame⟩ := hone
  obtain ⟨status, hmem, hid⟩ := hstatus
  refine ⟨⟨who, found, kept.cleanup, display, baseline, t ++ a, b, c, u, d, ?_, hwhich, ?_, hb, hv, ?_, ?_, hsame⟩⟩
  · simp only [List.append_assoc]
    rfl
  · intro e he
    rcases List.mem_append.1 he with he | he
    · exact ht e he
    · exact ha e he
  · obtain ⟨cleanup, d, b⟩ := kept
    obtain rfl := hdisplay
    obtain rfl := hbase
    exact haccepted
  · exact ⟨status, List.mem_append_left _ hmem, hid⟩

theorem guarded_plays {found : Identity × Text × Mode} (ht : ∀ e ∈ t, ¬IsChange e)
    (hstatus : SameDevice reader.statusIdentity .systemStatus found .original .before t) :
    Plays answer t (guarded reader i found) (Restores reader i) := by
  refine Plays.bind (body_plays found.1 found.2.1 t).outcome (fun _ _ h => ?_) ?_
  · obtain ⟨_, hx, -⟩ := h
    exact nomatch hx
  · rintro t' x ⟨y, hy, w, rfl, hdoes⟩
    obtain rfl := Except.ok.inj hy
    cases x with
    | ok r =>
      obtain ⟨output, kept⟩ := r
      refine Plays.bind (finish_plays kept found _) ?_ ?_
      · rintro t' e ⟨v, rfl, hv, ⟨hx, -⟩ | hx⟩
        · exact nomatch hx
        · exact fun hne => absurd (congrArg Except.error (Except.error.inj hx)) hne
      · rintro t' _ ⟨v, rfl, hv, ⟨-, hone⟩ | hx⟩
        · exact .ret fun _ hchange => restoration ht hstatus hdoes hv hone hchange
        · exact nomatch hx
    | error r =>
      obtain ⟨e, kept⟩ := r
      refine Plays.bind (finish_plays kept found _) ?_ ?_
      · rintro t' e ⟨v, rfl, hv, ⟨hx, -⟩ | hx⟩
        · exact nomatch hx
        · exact fun hne => absurd (congrArg Except.error (Except.error.inj hx)) hne
      · rintro t' _ ⟨v, rfl, hv, ⟨-, hone⟩ | hx⟩
        · exact .raise fun _ hchange => restoration ht hstatus hdoes hv hone hchange
        · exact nomatch hx

/-- a run that does not end in `RestoreUnverified` has restored what it changed -/
theorem run_plays (reader : Reader) (i : Input) :
    Plays answer [] (run reader i) (Restores reader i) := by
  have hbefore : ∀ c r, ∀ e ∈ [answered .original .before c r], ¬IsChange e := by
    intro c r e he
    obtain rfl := List.mem_singleton.1 he
    exact not_isChange (.inl (by decide))
  have happend : ∀ u v : List (Event Command), (∀ e ∈ u, ¬IsChange e) → (∀ e ∈ v, ¬IsChange e) →
      ∀ e ∈ u ++ v, ¬IsChange e := by
    intro u v hu hv e he
    rcases List.mem_append.1 he with he | he
    · exact hu e he
    · exact hv e he
  refine sendWith_plays (fun e => .of_quiet (hbefore _ _)) fun status => ?_
  have hone := hbefore .systemStatus (.ok status)
  cases hid : reader.statusIdentity status with
  | error e => exact .raise (.of_quiet hone)
  | ok found =>
    dsimp only
    cases admission i found with
    | some e => exact .raise (.of_quiet hone)
    | none =>
      refine tried_plays fun shown => ?_
      have htwo := happend _ _ hone (hbefore (.showInterface i.interface) shown)
      cases shown with
      | error e => exact .raise (.of_quiet htwo)
      | ok text =>
        dsimp only
        cases reader.owner text i.interface with
        | none => exact .raise (.of_quiet htwo)
        | some owner =>
          dsimp only
          by_cases howner : owner ≠ found.2.1
          · rw [if_pos howner]
            exact .raise (.of_quiet htwo)
          rw [if_neg howner]
          refine sendWith_plays (fun e => .of_quiet (happend _ _ htwo (hbefore _ _))) fun info => ?_
          have hthree := happend _ _ htwo (hbefore (.interfaceList i.interface) (.ok info))
          by_cases hshown : (!interfaceShown i.interface info) = true
          · rw [if_pos hshown]
            exact .raise (.of_quiet hthree)
          rw [if_neg hshown]
          exact guarded_plays hthree ⟨status, List.mem_append_left _ (List.mem_append_left _ List.mem_cons_self), hid⟩

end Fortios

end Netops.Diagnostics

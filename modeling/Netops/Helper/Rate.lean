import Netops.Helper.Proxy

/-!
# Rate limits and free pages

What a run of the proxy spends: a call that goes to the server takes slots of its target, or redeems
a continuation that an earlier answer offered.

* `Chargeable`         a line that is a call of a target, whatever state the proxy is in;
* `request_effect`     what a line does to the rates;
* `response_effect`    what a frame does to them;
* `Reach`              runs with a clock that does not go back;
* `Fair`               what holds in every state of a run.
-/

namespace Netops.Relay

open Json (Value sorted)
open Netops.Helper

/-! ## the key of a call -/

/-- the arguments that are the same on all pages of a read -/
def otherArguments (args : Fields) : Fields := args.filter fun f => f.1 ∉ pageArguments

/-- the other arguments are sent as the same text, up to the order of keys -/
def SameArguments (a b : Fields) : Prop :=
  Json.dumps (sorted (.obj (otherArguments a))) = Json.dumps (sorted (.obj (otherArguments b)))

theorem SameArguments.eq {a b : Fields} (h : SameArguments a b) {d : Nat}
    (ha : (sorted (.obj (otherArguments a))).Printable d)
    (hb : (sorted (.obj (otherArguments b))).Printable d) :
    sorted (.obj (otherArguments a)) = sorted (.obj (otherArguments b)) :=
  Json.dumps_injective ha hb h

/-- the proxy does not take its own argument from the client -/
def NoAuth (args : Fields) : Prop := ∀ f ∈ args, f.1 ≠ authField

theorem filter_key {args : Fields} (h : NoAuth args) :
    (args.filter fun f => f.1 ∉ authField :: pageArguments) = otherArguments args := by
  refine List.filter_congr fun f hf => ?_
  simp [h f hf]

/-- `[tool,arguments]` -/
theorem continuationKey_eq {tool : Text} {args : Fields} (h : NoAuth args) :
    continuationKey tool args =
      ('[' :: Json.quote Json.escape tool ++ ',' :: Json.dumps (sorted (.obj (otherArguments args)))
        ++ [']']).map Char.toNat := by
  rw [continuationKey, filter_key h]
  simp [sorted, Json.sortedItems, Json.dumps, Json.write, Json.writeItems, Json.writeMore]

theorem toNat_injective : Function.Injective Char.toNat := fun _ _ => Char.toNat_inj.1

/-- the key tells the tool and the arguments -/
theorem continuationKey_inj {tool tool' : Text} {args args' : Fields} (h : NoAuth args)
    (h' : NoAuth args') (ht : tool ∈ continuationTools) (ht' : tool' ∈ continuationTools)
    (he : continuationKey tool args = continuationKey tool' args') :
    tool = tool' ∧ SameArguments args args' := by
  rw [continuationKey_eq h, continuationKey_eq h'] at he
  have hc := toNat_injective.list_map he
  simp only [continuationTools, List.mem_cons, List.not_mem_nil, or_false] at ht ht'
  rcases ht with rfl | rfl <;> rcases ht' with rfl | rfl
  · refine ⟨rfl, ?_⟩
    simpa [SameArguments] using hc
  · exact absurd hc (by simp [Json.quote, text, Json.escape])
  · exact absurd hc (by simp [Json.quote, text, Json.escape])
  · refine ⟨rfl, ?_⟩
    simpa [SameArguments] using hc

/-- the key is one line -/
theorem continuationKey_line {tool : Text} {args : Fields}
    (h : Json.PlainNumbers (Json.leavesOfFields args)) : 10 ∉ continuationKey tool args := by
  intro hmem
  obtain ⟨c, hc, hten⟩ := List.mem_map.1 hmem
  have hplain : Json.PlainNumbers (sorted (.arr [.str tool,
      .obj (args.filter fun f => f.1 ∉ authField :: pageArguments)])).leaves := by
    intro t ht
    rw [Json.mem_leaves_sorted] at ht
    refine h t (Json.mem_leavesOfFields.2 ?_)
    obtain ⟨v, hv, ht⟩ := Json.mem_leavesOfItems.1 ht
    simp only [List.mem_cons, List.not_mem_nil, or_false] at hv
    rcases hv with rfl | rfl
    · cases List.mem_singleton.1 ht
    · obtain ⟨f, hf, ht⟩ := Json.mem_leavesOfFields.1 ht
      exact ⟨f, List.mem_of_mem_filter hf, ht⟩
  have hge := Json.dumps_noControl _ hplain c hc
  rw [hten] at hge
  exact absurd hge (by decide)

theorem pageKey_inj {k k' s s' : Text} (hk : 10 ∉ k) (hk' : 10 ∉ k') (h : pageKey k s = pageKey k' s') :
    k = k' ∧ s = s' := by
  induction k generalizing k' with
  | nil =>
    cases k' with
    | nil => exact ⟨rfl, (List.cons.inj h).2⟩
    | cons c k' => exact absurd (List.mem_cons.2 (.inl (List.cons.inj h).1)) hk'
  | cons c k ih =>
    cases k' with
    | nil => exact absurd (List.mem_cons.2 (.inl (List.cons.inj h).1.symm)) hk
    | cons c' k' =>
      obtain ⟨rfl, htail⟩ := List.cons.inj h
      obtain ⟨rfl, rfl⟩ := ih (fun hm => hk (List.mem_cons_of_mem _ hm))
        (fun hm => hk' (List.mem_cons_of_mem _ hm)) htail
      exact ⟨rfl, rfl⟩

/-! ## calls of a target -/

/-- the tool and the arguments in a message -/
def callIn (message : Fields) : Option (Text × Fields) :=
  let params := (objectOf (field message "params")).getD []
  match field params "name", field params "arguments" with
  | some (.str tool), some (.obj args) => some (tool, args)
  | _, _ => none

/-- the message is a call of a target that is admitted, as far as its rate allows -/
structure Chargeable (host : Host) (site : Site) (message : Fields) (tool : Text) (given args : Fields)
    (target : Text) (admitted : Admitted) : Prop where
  method : field message "method" = some (str "tools/call")
  call : callIn message = some (tool, given)
  valid : validateToolArguments host site tool given = .arguments args
  remote : tool ≠ text "target_scope" ∧ tool ≠ text "helper_status" ∧ tool ≠ text "read_query_catalog"
  target : validAlias (field args "target") = some target
  authorize : site.authorize tool args = .ok admitted

/-- the call in the outcome of a line -/
def Outcome.call : Outcome → Option Call
  | .forwarded _ call => call
  | _ => none

/-- the rate limit had a say in the outcome -/
def Outcome.charged : Outcome → Bool
  | .forwarded _ (some _) => true
  | .rateLimited _ _ => true
  | _ => false

section
variable (host : Host) (limit : Text → Limit) (clock : Clock) (site : Site)

/-- what a message does to the rates -/
inductive Effect (message : Fields) (id : Option Id) (p : Proxy) : Outcome × Proxy → Prop
  | quiet {o : Outcome} {p' : Proxy} (targets : List Text) (ho : o.charged = false)
      (hr : p'.rates = rateStatus limit clock.status targets p.rates)
      (hp : p'.pendingContinuations ⊆ p.pendingContinuations) : Effect message id p (o, p')
  | limited {p' : Proxy} {tool : Text} {given args : Fields} {target : Text} {admitted : Admitted}
      {shown : Value} {retry : Int} (hc : Chargeable host site message tool given args target admitted)
      (h : charge host (limit target) clock.redeemed clock.consumed target tool args p.rates
        = (.error retry, p'.rates))
      (hp : p'.pendingContinuations ⊆ p.pendingContinuations) :
      Effect message id p (.rateLimited shown retry, p')
  | paid {p' : Proxy} {tool : Text} {given args : Fields} {target : Text} {admitted : Admitted}
      {sent : Value} {how : Charge} (hc : Chargeable host site message tool given args target admitted)
      (h : charge host (limit target) clock.redeemed clock.consumed target tool args p.rates
        = (.ok how, p'.rates))
      (hp : ∀ e ∈ p'.pendingContinuations, e ∈ p.pendingContinuations ∨
        id = some e.1 ∧ tool ∈ continuationTools ∧ e.2 = continuationKey tool args) :
      Effect message id p (.forwarded sent (some ⟨id, tool, args, how⟩), p')

end

theorem rateStatus_nil (limit : Text → Limit) (now : ℚ) (r : Rates) : rateStatus limit now [] r = r := by
  simp [rateStatus]

section
variable {host : Host} {limit : Text → Limit} {clock : Clock} {site : Site} {message : Fields}
  {id : Option Id} {p : Proxy}

/-- nothing of the rates is touched -/
theorem effect_same {o : Outcome} {p' : Proxy} (ho : o.charged = false) (hr : p'.rates = p.rates)
    (hp : p'.pendingContinuations ⊆ p.pendingContinuations) :
    Effect host limit clock site message id p (o, p') :=
  .quiet [] ho (by rw [hr, rateStatus_nil]) hp

theorem settle_rates (p : Proxy) : (settle host id p).rates = p.rates := by
  cases id <;> rfl

theorem settle_pending (p : Proxy) :
    (settle host id p).pendingContinuations ⊆ p.pendingContinuations := by
  cases id with
  | none => exact fun _ h => h
  | some id => exact List.filter_sublist.subset

/-- the answer is given here, and the id is taken off again -/
theorem effect_settle {o : Outcome} {p' : Proxy} (ho : o.charged = false) (hr : p'.rates = p.rates)
    (hp : p'.pendingContinuations = p.pendingContinuations) :
    Effect host limit clock site message id p (o, settle host id p') :=
  effect_same ho (by rw [settle_rates, hr]) (hp ▸ settle_pending p')

theorem targetScope_effect (args : Fields) :
    Effect host limit clock site message id p (targetScope host limit clock site id args p) := by
  rw [targetScope]
  split
  · exact effect_settle rfl rfl rfl
  · next target _ =>
    split
    · exact effect_same rfl rfl fun _ h => h
    · exact effect_settle rfl rfl rfl
    · exact .quiet [target] rfl (settle_rates _) (settle_pending _)

theorem callTool_effect {params given args : Fields} {tool : Text}
    (hmethod : field message "method" = some (str "tools/call"))
    (hcall : callIn message = some (tool, given))
    (hvalid : validateToolArguments host site tool given = .arguments args)
    (hscope : tool ≠ text "target_scope") :
    Effect host limit clock site message id p
      (callTool host limit clock site message params id tool args p) := by
  rw [callTool.eq_def]
  dsimp only
  by_cases hstatus : tool = text "helper_status"
  · rw [if_pos hstatus]
    split
    · exact .quiet site.enrolled rfl (settle_rates _) (settle_pending _)
    · cases id with
      | none => exact .quiet site.enrolled rfl rfl fun _ h => h
      | some id => exact .quiet site.enrolled rfl rfl fun _ h => h
  rw [if_neg hstatus]
  by_cases hcatalog : tool = text "read_query_catalog"
  · rw [if_pos hcatalog]
    cases id with
    | none => exact effect_same rfl rfl fun _ h => h
    | some id => exact effect_same rfl rfl fun _ h => h
  rw [if_neg hcatalog]
  split
  · exact effect_settle rfl rfl rfl
  · next target htarget =>
    split
    · exact effect_settle rfl rfl rfl
    · next admitted hauthorize =>
      have hc : Chargeable host site message tool given args target admitted :=
        ⟨hmethod, hcall, hvalid, ⟨hscope, hstatus, hcatalog⟩, htarget, hauthorize⟩
      split
      · next retry rates hcharge =>
        refine .limited hc ?_ (settle_pending _)
        rw [settle_rates]
        exact hcharge
      · next how rates hcharge =>
        cases id with
        | none => exact .paid hc hcharge fun e he => .inl he
        | some id =>
          refine .paid hc hcharge fun e he => ?_
          dsimp only at he
          split at he
          · next htool =>
            rcases List.mem_append.1 he with he | he
            · exact .inl (List.filter_sublist.subset he)
            · obtain rfl := List.mem_singleton.1 he
              exact .inr ⟨rfl, htool, rfl⟩
          · exact .inl he

/-- only the rates and the keys of continuations matter -/
theorem Effect.congr {q : Proxy} {r : Outcome × Proxy} (h : Effect host limit clock site message id q r)
    (hr : q.rates = p.rates) (hp : q.pendingContinuations = p.pendingContinuations) :
    Effect host limit clock site message id p r := by
  cases h with
  | quiet targets ho hr' hp' => exact .quiet targets ho (hr ▸ hr') (hp ▸ hp')
  | limited hc h hp' => exact .limited hc (hr ▸ h) (hp ▸ hp')
  | paid hc h hp' => exact .paid hc (hr ▸ h) (hp ▸ hp')

theorem dispatch_effect :
    Effect host limit clock site message id p (dispatch host limit clock site message id p) := by
  rw [dispatch]
  by_cases hmethod : field message "method" = some (str "tools/call")
  · rw [if_neg (not_not.2 hmethod)]
    dsimp only
    split
    · next tool given hname hargs =>
      have hcall : callIn message = some (tool, given) := by
        rw [callIn, hname, hargs]
      split
      · exact effect_same rfl rfl fun _ h => h
      · exact effect_settle rfl rfl rfl
      · exact effect_settle rfl rfl rfl
      · next args hvalid =>
        by_cases hscope : tool = text "target_scope"
        · rw [if_pos hscope]
          cases id with
          | none => exact targetScope_effect args
          | some id => exact (targetScope_effect args).congr rfl rfl
        · rw [if_neg hscope]
          cases id with
          | none => exact callTool_effect hmethod hcall hvalid hscope
          | some id => exact (callTool_effect hmethod hcall hvalid hscope).congr rfl rfl
    · exact effect_settle rfl rfl rfl
  · rw [if_pos hmethod]
    exact effect_same rfl rfl fun _ h => h

theorem accept_ok {q : Proxy} (h : accept host clock id message p = .ok q) :
    q.rates = p.rates ∧ q.pendingContinuations = p.pendingContinuations := by
  rw [accept.eq_def] at h
  split at h
  · split at h
    · exact nomatch h
    · split at h
      · exact nomatch h
      · cases h
        exact ⟨rfl, rfl⟩
  · cases h
    split <;> exact ⟨rfl, rfl⟩

theorem accept_error {o : Outcome} (h : accept host clock id message p = .error o) :
    ∃ i, id = some i ∧ (o = .refused i (-32600) ∨ o = .refused i (-32014)) := by
  rw [accept.eq_def] at h
  split at h
  · split_ifs at h
    · cases h
      exact ⟨_, rfl, .inl rfl⟩
    · cases h
      exact ⟨_, rfl, .inr rfl⟩
  · exact nomatch h

end

/-- what a line does to the rates -/
theorem request_effect (host : Host) (limit : Text → Limit) (clock : Clock) (site : Site) (raw : Bytes)
    (p : Proxy) :
    (∃ id message, readMessage host raw = .ok (id, message) ∧
        Effect host limit clock site message id p (request host limit clock site raw p)) ∨
      ∃ o, request host limit clock site raw p = (o, p) ∧ o.charged = false := by
  rw [request.eq_def]
  split
  · next code h => exact .inr ⟨_, rfl, rfl⟩
  · next id message h =>
    split
    · next o ho =>
      obtain ⟨i, -, hi⟩ := accept_error ho
      refine .inr ⟨o, rfl, ?_⟩
      rcases hi with rfl | rfl
      · rfl
      · rfl
    · next q hq =>
      obtain ⟨hr, hp⟩ := accept_ok hq
      exact .inl ⟨id, message, h, dispatch_effect.congr hr hp⟩

/-! ## answers -/

/-- What frames do to the rates: continuations are issued, each for a call that waited for the
answer, and calls do not wait any more. -/
inductive Settles (host : Host) : Rates × IdMap Text → Rates × IdMap Text → Prop
  | drop {r : Rates} {keys keys' : IdMap Text} (h : keys' ⊆ keys) : Settles host (r, keys) (r, keys')
  | issue {r : Rates} {keys : IdMap Text} {id : Id} {e : Id × Text} (now : ℚ) (message : Fields)
      (he : e ∈ keys) (hid : sameKey host.rt e.1 id = true) :
      Settles host (r, keys) (issueContinuation host now id e.2 message r, keys)
  | trans {a b c : Rates × IdMap Text} (h : Settles host a b) (h' : Settles host b c) : Settles host a c

namespace Settles
variable {host : Host}

theorem refl (a : Rates × IdMap Text) : Settles host a a := .drop fun _ h => h

end Settles

/-- the part of the state that frames work on -/
def Proxy.ledger (p : Proxy) : Rates × IdMap Text := (p.rates, p.pendingContinuations)

section
variable {host : Host} {p : Proxy}

theorem mem_of_find {β : Type} {rt : Runtime} {m : IdMap β} {id : Id} {v : β}
    (h : IdMap.find rt m id = some v) : ∃ e ∈ m, sameKey rt e.1 id = true ∧ e.2 = v := by
  obtain ⟨e, he, rfl⟩ := Option.map_eq_some_iff.1 h
  refine ⟨e, List.mem_of_find?_eq_some he, ?_, rfl⟩
  have hp := List.find?_some he
  exact hp

theorem closeSession_ledger (reason : Helper.Reason) (epoch : Option Nat) :
    (p.closeSession reason epoch).ledger = p.ledger := by
  rw [Proxy.closeSession]
  split <;> rfl

theorem issueFor_settles {now : ℚ} {id : Id} {w : Waiting} {message : Fields}
    (hw : waiting host p id = some w) :
    Settles host p.ledger (issueFor host now id w message (p.clearPending host.rt id)).ledger := by
  have hdrop : ∀ r : Rates, Settles host (r, p.pendingContinuations)
      (r, (p.clearPending host.rt id).pendingContinuations) :=
    fun _ => .drop List.filter_sublist.subset
  obtain ⟨method, -, rfl⟩ := Option.map_eq_some_iff.1 hw
  rw [issueFor]
  split
  · next key hkey =>
    obtain ⟨e, he, hid, rfl⟩ := mem_of_find hkey
    split
    · exact (Settles.issue now message he hid).trans (hdrop _)
    · exact hdrop _
  · exact hdrop _

theorem answer_settles {now : ℚ} {id : Id} {w : Waiting} {message : Fields}
    (hw : waiting host p id = some w) :
    Settles host p.ledger (answer host now id w message (p.clearPending host.rt id)).2.ledger := by
  have hdrop : Settles host p.ledger (p.clearPending host.rt id).ledger :=
    .drop List.filter_sublist.subset
  rw [answer]
  split
  · exact hdrop
  · split
    · exact hdrop
    · split
      · exact issueFor_settles hw
      · exact issueFor_settles hw

theorem transform_settles (now : ℚ) (epoch : Option Nat) (message : Fields) :
    Settles host p.ledger (transform host now epoch message p).2.ledger := by
  rw [transform]
  split
  · exact .refl _
  · split
    · exact .refl _
    · dsimp only
      split
      · exact .refl _
      · split
        · rw [closeSession_ledger]
          exact .refl _
        · split
          · exact .refl _
          · split
            · rw [closeSession_ledger]
              exact .refl _
            · next w hw => exact answer_settles hw

theorem transformAll_settles (epoch : Option Nat) : ∀ (messages : List Fields) (now : Nat → ℚ)
    (p : Proxy), Settles host p.ledger (transformAll host epoch now messages p).2.ledger := by
  intro messages
  induction messages with
  | nil => exact fun now p => .refl _
  | cons message rest ih =>
    intro now p
    have hone : Settles host p.ledger (transform host (now 0) epoch message p).2.ledger :=
      transform_settles (now 0) epoch message
    rw [transformAll]
    split
    · next q hq =>
      rw [hq] at hone
      exact hone
    · next q hq =>
      rw [hq] at hone
      exact hone.trans (ih _ q)
    · next v q hq =>
      rw [hq] at hone
      exact hone.trans (ih _ q)

theorem response_settles (now : Nat → ℚ) (epoch : Option Nat) (raw : Bytes) :
    Settles host p.ledger (response host now epoch raw p).2.ledger := by
  have hclose : ∀ reason, Settles host p.ledger (p.closeSession reason epoch).ledger := by
    intro reason
    rw [closeSession_ledger]
    exact .refl _
  rw [response]
  split
  · exact .refl _
  · split
    · exact hclose _
    · split
      · exact .refl _
      · split
        · exact hclose _
        · split
          · exact hclose _
          · exact hclose _
          · next messages _ _ =>
            split
            · exact hclose _
            · have hall : Settles host p.ledger (transformAll host epoch now messages p).2.ledger :=
                transformAll_settles epoch messages now p
              split <;> (next hq => rw [hq] at hall; exact hall)
        · split
          · exact hclose _
          · next message _ =>
            have hone : Settles host p.ledger (transform host (now 0) epoch message p).2.ledger :=
              transform_settles (now 0) epoch message
            split <;> (next hq => rw [hq] at hone; exact hone)

end

/-! ## what the operations on the rates do -/

section
variable {host : Host} {limit : Limit} {redeemed consumed : ℚ} {target tool : Text} {args : Fields}
  {r : Rates}

/-- how a call may be paid for, or why it is not -/
inductive Charged (host : Host) (limit : Limit) (consumed : ℚ) (target tool : Text) (args : Fields)
    (r : Rates) : Except Int Charge × Rates → Prop
  | redeemed {key : Text} {c : Continuation} (hfree : rateCostsSlot tool args = false)
      (hkey : key = pageKey (continuationKey tool args) (strOf host (field args "content_sha256")))
      (hc : (key, c) ∈ r.continuations) (hoffset : field args "offset" = some (.int c.nextOffset)) :
      Charged host limit consumed target tool args r (.ok (.continuation c.number),
        { r with continuations := r.continuations.filter fun d => d.1 ≠ key })
  | slots (hroom : (pruned limit consumed (r.history target)).length + rateCost tool ≤ limit.requests) :
      Charged host limit consumed target tool args r (.ok (.slots target (rateCost tool) consumed),
        { r with
          history := Function.update r.history target
            (pruned limit consumed (r.history target) ++ List.replicate (rateCost tool) consumed) })
  | refused (hfull : limit.requests < (pruned limit consumed (r.history target)).length + rateCost tool) :
      Charged host limit consumed target tool args r
        (.error (retryAfter limit consumed (rateCost tool) (pruned limit consumed (r.history target))),
          { r with
            history := Function.update r.history target (pruned limit consumed (r.history target)) })

theorem redeemContinuation_none {r' : Rates}
    (h : redeemContinuation host redeemed tool args r = (none, r')) : r' = r := by
  rw [redeemContinuation] at h
  split at h
  · split at h
    · cases h
      rfl
    · exact nomatch h
  · cases h
    rfl

theorem redeemContinuation_some {n : Nat} {r' : Rates} (hfree : rateCostsSlot tool args = false)
    (h : redeemContinuation host redeemed tool args r = (some n, r')) :
    Charged host limit consumed target tool args r (.ok (.continuation n), r') := by
  rw [redeemContinuation] at h
  split at h
  · next key c hfind =>
    split at h
    · exact nomatch h
    · next hvalid =>
      cases h
      have hk : key = pageKey (continuationKey tool args) (strOf host (field args "content_sha256")) := by
        simpa using List.find?_some hfind
      rw [← hk]
      exact .redeemed hfree hk (List.mem_of_find?_eq_some hfind)
        (not_not.1 (not_or.1 hvalid).2)
  · exact nomatch h

theorem charge_cases (host : Host) (limit : Limit) (redeemed consumed : ℚ) (target tool : Text)
    (args : Fields) (r : Rates) : Charged host limit consumed target tool args r
      (charge host limit redeemed consumed target tool args r) := by
  rw [charge]
  split
  · next n r' h =>
    split at h
    · exact nomatch h
    · next hfree => exact redeemContinuation_some (by simpa using hfree) h
  · next r' h =>
    have hr : r' = r := by
      split at h
      · cases h
        rfl
      · exact redeemContinuation_none h
    subst hr
    rw [consumeRateLimit]
    by_cases hfull : limit.requests
        < (pruned limit consumed (r'.history target)).length + rateCost tool
    · rw [if_pos hfull]
      exact .refused hfull
    · rw [if_neg hfull]
      exact .slots (Nat.le_of_not_lt hfull)

end

/-- one of them expires first -/
theorem exists_oldest {cs : List (Text × Continuation)} (h : cs ≠ []) :
    ∃ c ∈ cs, ∀ d ∈ cs, c.2.expires ≤ d.2.expires := by
  induction cs with
  | nil => exact absurd rfl h
  | cons c cs ih =>
    by_cases hcs : cs = []
    · subst hcs
      refine ⟨c, List.mem_cons_self .., fun d hd => ?_⟩
      rw [List.mem_singleton.1 hd]
    · obtain ⟨e, he, hmin⟩ := ih hcs
      rcases le_total c.2.expires e.2.expires with hle | hle
      · refine ⟨c, List.mem_cons_self .., fun d hd => ?_⟩
        rcases List.mem_cons.1 hd with rfl | hd
        · exact le_rfl
        · exact hle.trans (hmin d hd)
      · refine ⟨e, List.mem_cons_of_mem _ he, fun d hd => ?_⟩
        rcases List.mem_cons.1 hd with rfl | hd
        · exact hle
        · exact hmin d hd

theorem length_evictOldest {cs : List (Text × Continuation)} (h : cs ≠ []) :
    (evictOldest cs).length + 1 = cs.length := by
  obtain ⟨c, hc, hmin⟩ := exists_oldest h
  rw [evictOldest, List.length_eraseP_of_mem hc (by simpa using fun a b hd => hmin (a, b) hd)]
  exact Nat.sub_add_cancel (List.length_pos_of_mem hc)

theorem makeRoom_sublist : ∀ (n : Nat) (cs : List (Text × Continuation)), (makeRoom n cs).Sublist cs := by
  intro n
  induction n with
  | zero => exact fun cs => List.Sublist.refl _
  | succ n ih =>
    intro cs
    rw [makeRoom]
    split
    · exact (ih _).trans List.eraseP_sublist
    · exact List.Sublist.refl _

theorem length_makeRoom : ∀ (n : Nat) (cs : List (Text × Continuation)), cs.length ≤ n →
    (makeRoom n cs).length < continuationMaxEntries := by
  intro n
  induction n with
  | zero =>
    intro cs h
    rw [List.length_eq_zero_iff.1 (Nat.le_zero.1 h)]
    decide
  | succ n ih =>
    intro cs h
    rw [makeRoom]
    split
    · next hfull =>
      refine ih _ ?_
      have hne : cs ≠ [] := by
        rintro rfl
        exact absurd hfull (by decide)
      have hlen := length_evictOldest hne
      omega
    · next hfree => exact Nat.lt_of_not_le hfree

/-- what an answer does to the continuations: some are dropped, and one may be added -/
theorem issueContinuation_cases (host : Host) (now : ℚ) (id : Id) (key : Text) (message : Fields)
    (r : Rates) : ∃ kept, kept.Sublist r.continuations ∧
      (issueContinuation host now id key message r = { r with continuations := kept } ∨
        ∃ next snapshot expires, offeredPage message = some (next, snapshot) ∧
          kept.length < continuationMaxEntries ∧
          issueContinuation host now id key message r =
            { r with
              continuations := kept ++ [(pageKey key snapshot, ⟨next, expires, r.issued.length⟩)]
              issued := r.issued ++ [⟨id, key, message⟩] }) := by
  rw [issueContinuation]
  split
  · exact ⟨_, List.filter_sublist.trans List.filter_sublist, .inl rfl⟩
  · next next snapshot hoffer =>
    have hsnap : strOf host (snapshotOf message) = snapshot := by
      rw [offeredPage] at hoffer
      rw [snapshotOf]
      split at hoffer
      · exact nomatch hoffer
      · next result hresult =>
        rw [hresult, Option.bind_some]
        split at hoffer
        · exact nomatch hoffer
        · next structured hstructured =>
          rw [hstructured, Option.bind_some]
          split at hoffer
          · exact nomatch hoffer
          · split at hoffer
            · next s _ hs =>
              split at hoffer
              · cases hoffer
                rw [hs]
                rfl
              · exact nomatch hoffer
            · exact nomatch hoffer
    rw [hsnap]
    refine ⟨_, (makeRoom_sublist _ _).trans (List.filter_sublist.trans List.filter_sublist),
      .inr ⟨next, snapshot, now + continuationTtl, hoffer, length_makeRoom _ _ (Nat.le_refl _), rfl⟩⟩

end Netops.Relay

import Netops.Helper.Frames

/-!
# The helper bridge of the role worker (`worker.py`)

`HelperBridge.call` sends a tool call through a `Proxy` of its own and calls the server in between.
There is no session controller: nothing opens the session again, and nothing drops a request that
waits.

* `Served`   what becomes of `server.call_tool`;
* `Wire`     `json.dumps(value).encode()`, and what the proxy reads of it;
* `call`     `HelperBridge.call`, without the redaction of what it returns;
* `Survives`   the condition on a call under which the session stays open and nothing waits after it.
-/

namespace Netops.Relay

open Json (Value)
open Netops.Helper

/-! ## the bridge -/

mutual

/-- how deep lists and dictionaries nest -/
def nesting : Value → Nat
  | .arr vs => nestingOfItems vs + 1
  | .obj fs => nestingOfFields fs + 1
  | _ => 0

def nestingOfItems : List Value → Nat
  | [] => 0
  | v :: vs => max (nesting v) (nestingOfItems vs)

def nestingOfFields : List (Text × Value) → Nat
  | [] => 0
  | (_, v) :: fs => max (nesting v) (nestingOfFields fs)

end

/-- `MAX_JSON_NESTING` -/
def maxJsonNesting : Nat := 128

/-- `uuid.uuid4().hex` -/
def isHex (s : Text) : Bool :=
  s.length = 32 && s.all fun n => (48 ≤ n && n ≤ 57) || (97 ≤ n && n ≤ 102)

def toolCall (id name : Text) (arguments : Fields) : Fields :=
  [(text "jsonrpc", str "2.0"), (text "id", .str id), (text "method", str "tools/call"),
    (text "params", .obj [(text "name", .str name), (text "arguments", .obj arguments)])]

def resultAnswer (id : Text) (result : Fields) : Fields :=
  [(text "jsonrpc", str "2.0"), (text "id", .str id), (text "result", .obj result)]

def errorAnswer (id : Text) : Fields :=
  [(text "jsonrpc", str "2.0"), (text "id", .str id),
    (text "error", .obj [(text "code", .int (-32603)), (text "message", str "Role operation failed")])]

/-- what the server returned -/
structure Output where
  content : List Value
  structured : Value
  isError : Value
  metadata : Value

def Output.payload (o : Output) : Fields :=
  [(text "content", .arr o.content), (text "structuredContent", o.structured),
    (text "isError", o.isError), (text "_meta", o.metadata)]

/-- what becomes of `server.call_tool` -/
inductive Served where
  /-- `CancelledError`, or another exception that is no `Exception` -/
  | cancelled
  /-- an `Exception` -/
  | failed
  /-- something that `json` cannot write -/
  | odd
  | returned (output : Output)

structure Wire (host : Host) where
  /-- `json.dumps(value).encode()`; `none` where it raises -/
  encode : Value → Option Bytes
  /-- a call is read as it was written, or not at all -/
  call_read : ∀ {id name : Text} {arguments : Fields} {raw : Bytes},
    encode (.obj (toolCall id name arguments)) = some raw →
      host.rt.document raw = some (.obj (toolCall id name arguments)) ∨ host.rt.document raw = none
  /-- an answer is read as an answer with the same id, unless it nests too deep -/
  answer_read : ∀ {id : Text} {result : Fields} {raw : Bytes}, isHex id = true →
    encode (.obj (resultAnswer id result)) = some raw →
    nesting (.obj (resultAnswer id result)) ≤ maxJsonNesting →
      raw.all isSpace = false ∧
        ∃ result', host.rt.serverDocument raw = some (.obj (resultAnswer id result'))
  /-- the answer to a call that failed is short -/
  error_read : ∀ {id : Text}, isHex id = true →
    ∃ raw, encode (.obj (errorAnswer id)) = some raw ∧ raw.length ≤ maxServerFrameBytes ∧
      raw.all isSpace = false ∧ host.rt.serverDocument raw = some (.obj (errorAnswer id))

/-- a call of the bridge and what it meets: the files, the clock and the server -/
structure Attempt where
  id : Text
  name : Text
  arguments : Fields
  served : Served
  site : Site
  clock : Clock
  now : Nat → ℚ
  later : ℚ
  hex : isHex id = true

/-- how `HelperBridge.call` ends -/
inductive Ended where
  | unavailable
  /-- the proxy answered itself -/
  | refused (o : Outcome)
  | cancelled
  | raised
  | responseRefused
  | answered (v : Value)

section
variable {host : Host} (w : Wire host) (limit : Text → Limit) (a : Attempt)

/-- the answer of the server goes back through the proxy -/
def respond (v : Value) (p : Proxy) : Ended × Proxy :=
  match w.encode v with
  | none => (.raised, p)
  | some raw => match response host a.now none raw p with
    | (.raised, p) => (.raised, p)
    | (.nothing, p) => (.responseRefused, p)
    | (.batch _, p) => (.raised, p)
    | (.message v, p) =>
      (.answered v,
        -- the status is read once more
        if a.name = text "helper_status" then
          { p with rates := rateStatus limit a.later a.site.enrolled p.rates }
        else p)

/-- the server is called -/
def serve (p : Proxy) : Ended × Proxy :=
  match a.served with
  | .cancelled => (.cancelled, p)
  | .odd => (.raised, p)
  | .failed => respond w limit a (.obj (errorAnswer a.id)) p
  | .returned output => respond w limit a (.obj (resultAnswer a.id output.payload)) p

/-- `HelperBridge.call` -/
def call (p : Proxy) : Ended × Proxy :=
  if a.name = text "snmp_get" ∨ a.name = text "ftp_list" then (.unavailable, p)
  else match w.encode (.obj (toolCall a.id a.name a.arguments)) with
    | none => (.raised, p)
    | some raw => match request host limit a.clock a.site raw p with
      | (.raised, p) => (.raised, p)
      | (.forwarded _ _, p) => serve w limit a p
      | (o, p) => (.refused o, p)

end

/-! ## what survives a call -/

/-- the session is open, and nothing waits -/
structure Idle (p : Proxy) : Prop where
  sessionOpen : p.sessionOpen = true
  pending : p.pending = []
  pendingDeadlines : p.pendingDeadlines = []
  pendingTools : p.pendingTools = []
  responseSecrets : p.responseSecrets = []
  controlPayloads : p.controlPayloads = []
  pendingContinuations : p.pendingContinuations = []
  internalRequests : p.internalRequests = []

/-- No exception leaves the checks of the arguments and the scope of a target, the call is not
cancelled, and what the server returns can be written, is not too long and does not nest too deep. -/
structure Survives {host : Host} (w : Wire host) (a : Attempt) : Prop where
  checked : validateToolArguments host a.site a.name a.arguments ≠ .raised
  scope : a.name = text "target_scope" → ∀ target, validAlias (field a.arguments "target") = some target →
    a.site.scope target ≠ .raised
  served : a.served ≠ .cancelled ∧ a.served ≠ .odd
  returned : ∀ output, a.served = .returned output →
    nesting (.obj (resultAnswer a.id output.payload)) ≤ maxJsonNesting ∧
      ∃ raw, w.encode (.obj (resultAnswer a.id output.payload)) = some raw ∧
        raw.length ≤ maxServerFrameBytes

/-! ## a request with one id -/

/-- nothing but this request waits -/
structure Only (rt : Runtime) (id : Id) (p : Proxy) : Prop where
  sessionOpen : p.sessionOpen = true
  pending : ∀ e ∈ p.pending, sameKey rt e.1 id = true
  pendingDeadlines : ∀ e ∈ p.pendingDeadlines, sameKey rt e.1 id = true
  pendingTools : ∀ e ∈ p.pendingTools, sameKey rt e.1 id = true
  responseSecrets : ∀ e ∈ p.responseSecrets, sameKey rt e.1 id = true
  controlPayloads : ∀ e ∈ p.controlPayloads, sameKey rt e.1 id = true
  pendingContinuations : ∀ e ∈ p.pendingContinuations, sameKey rt e.1 id = true
  internalRequests : p.internalRequests = []

section
variable {rt : Runtime} {id : Id} {p : Proxy} {β : Type} {m : IdMap β}

theorem pop_nil (h : ∀ e ∈ m, sameKey rt e.1 id = true) : IdMap.pop rt m id = [] := by
  rw [IdMap.pop, List.filter_eq_nil_iff]
  intro e he
  rw [h e he]
  decide

theorem put_only (hid : sameKey rt id id = true) (h : ∀ e ∈ m, sameKey rt e.1 id = true) (v : β) :
    ∀ e ∈ IdMap.put rt m id v, sameKey rt e.1 id = true := by
  intro e he
  rw [IdMap.put, pop_nil h, List.nil_append, List.mem_singleton] at he
  rw [he]
  exact hid

/-- the request is dropped -/
theorem Only.clear (h : Only rt id p) : Idle (p.clearPending rt id) where
  sessionOpen := h.sessionOpen
  pending := pop_nil h.pending
  pendingDeadlines := pop_nil h.pendingDeadlines
  pendingTools := pop_nil h.pendingTools
  responseSecrets := pop_nil h.responseSecrets
  controlPayloads := pop_nil h.controlPayloads
  pendingContinuations := pop_nil h.pendingContinuations
  internalRequests := h.internalRequests

theorem Only.withRates (h : Only rt id p) (r : Rates) : Only rt id { p with rates := r } :=
  ⟨h.sessionOpen, h.pending, h.pendingDeadlines, h.pendingTools, h.responseSecrets, h.controlPayloads,
    h.pendingContinuations, h.internalRequests⟩

theorem Idle.withRates (h : Idle p) (r : Rates) : Idle { p with rates := r } :=
  ⟨h.sessionOpen, h.pending, h.pendingDeadlines, h.pendingTools, h.responseSecrets, h.controlPayloads,
    h.pendingContinuations, h.internalRequests⟩

def Outcome.isForwarded : Outcome → Bool
  | .forwarded _ _ => true
  | _ => false

/-- what a request leads to: it waits, or it was answered and nothing waits -/
inductive After (rt : Runtime) (id : Id) (p : Proxy) : Outcome × Proxy → Prop
  | raised (q : Proxy) : After rt id p (.raised, q)
  | forwarded (message : Value) (call : Option Call) (q : Proxy) (h : Only rt id q)
      (hp : q.pending = p.pending) : After rt id p (.forwarded message call, q)
  | answered (o : Outcome) (q : Proxy) (ho : o.isForwarded = false) (h : Idle q) : After rt id p (o, q)

theorem After.congr {q : Proxy} {r : Outcome × Proxy} (h : After rt id q r) (hp : q.pending = p.pending) :
    After rt id p r := by
  cases h with
  | raised q' => exact .raised q'
  | forwarded message call q' h' hq => exact .forwarded message call q' h' (hq.trans hp)
  | answered o q' ho h' => exact .answered o q' ho h'

end

section
variable {host : Host} {limit : Text → Limit} {clock : Clock} {site : Site} {message : Fields} {id : Id}
  {p : Proxy}

theorem targetScope_after (h : Only host.rt id p) (args : Fields) :
    After host.rt id p (targetScope host limit clock site (some id) args p) := by
  rw [targetScope]
  split
  · exact .answered _ _ rfl h.clear
  · split
    · exact .raised _
    · exact .answered _ _ rfl h.clear
    · exact .answered _ _ rfl (h.withRates _).clear

theorem callTool_after (hid : sameKey host.rt id id = true) (h : Only host.rt id p) (params : Fields)
    (tool : Text) (args : Fields) :
    After host.rt id p (callTool host limit clock site message params (some id) tool args p) := by
  rw [callTool]
  dsimp only
  split
  · split
    · exact .answered _ _ rfl (h.withRates _).clear
    · exact .forwarded _ _ _ ⟨h.sessionOpen, h.pending, h.pendingDeadlines, h.pendingTools,
        put_only hid h.responseSecrets _, put_only hid h.controlPayloads _, h.pendingContinuations,
        h.internalRequests⟩ rfl
  · split
    · exact .forwarded _ _ _ ⟨h.sessionOpen, h.pending, h.pendingDeadlines, h.pendingTools,
        put_only hid h.responseSecrets _, h.controlPayloads, h.pendingContinuations,
        h.internalRequests⟩ rfl
    · split
      · exact .answered _ _ rfl h.clear
      · split
        · exact .answered _ _ rfl h.clear
        · split
          · exact .answered _ _ rfl (h.withRates _).clear
          · refine .forwarded _ _ _ ⟨h.sessionOpen, h.pending, h.pendingDeadlines, h.pendingTools,
              put_only hid h.responseSecrets _, h.controlPayloads, ?_, h.internalRequests⟩ rfl
            dsimp only
            split
            · exact put_only hid h.pendingContinuations _
            · exact h.pendingContinuations

theorem dispatch_after (hid : sameKey host.rt id id = true) (h : Only host.rt id p) :
    After host.rt id p (dispatch host limit clock site message (some id) p) := by
  rw [dispatch]
  split
  · exact .forwarded _ _ _ h rfl
  · dsimp only
    split
    · split
      · exact .raised _
      · exact .answered _ _ rfl h.clear
      · exact .answered _ _ rfl h.clear
      · next tool _ _ _ _ args _ =>
        have hq : Only host.rt id { p with
            pendingTools := IdMap.put host.rt p.pendingTools id tool
            pendingDeadlines := if tool ∈ longTools then
              IdMap.put host.rt p.pendingDeadlines id (clock.checked + longTimeout)
              else p.pendingDeadlines } := by
          refine ⟨h.sessionOpen, h.pending, ?_, put_only hid h.pendingTools _, h.responseSecrets,
            h.controlPayloads, h.pendingContinuations, h.internalRequests⟩
          dsimp only
          split
          · exact put_only hid h.pendingDeadlines _
          · exact h.pendingDeadlines
        split
        · exact (targetScope_after hq args).congr rfl
        · exact (callTool_after hid hq _ tool args).congr rfl
    · exact .answered _ _ rfl h.clear

theorem withhold_toolCall (id name : Text) (arguments : Fields) :
    withholdClientCapabilities (toolCall id name arguments) = toolCall id name arguments := rfl

theorem sameKey_str (rt : Runtime) (s : Text) : sameKey rt (.str s) (.str s) = true := by
  simp [sameKey]

theorem Idle.only (h : Idle p) (rt : Runtime) (id : Id) : Only rt id p := by
  refine ⟨h.sessionOpen, ?_, ?_, ?_, ?_, ?_, ?_, h.internalRequests⟩
  · rw [h.pending]
    exact fun e he => nomatch he
  · rw [h.pendingDeadlines]
    exact fun e he => nomatch he
  · rw [h.pendingTools]
    exact fun e he => nomatch he
  · rw [h.responseSecrets]
    exact fun e he => nomatch he
  · rw [h.controlPayloads]
    exact fun e he => nomatch he
  · rw [h.pendingContinuations]
    exact fun e he => nomatch he

/-- where nothing waits, a call is taken up -/
theorem Idle.accept (h : Idle p) (host : Host) (clock : Clock) (id name : Text) (arguments : Fields) :
    ∃ q, accept host clock (some (.str id)) (toolCall id name arguments) p = .ok q ∧
      Only host.rt (.str id) q ∧ (.str id, text "tools/call") ∈ q.pending ∧ q.rates = p.rates := by
  have hid := sameKey_str host.rt id
  have honly := h.only host.rt (.str id)
  have hmethod : field (toolCall id name arguments) "method" = some (.str (text "tools/call")) := rfl
  have hfind : IdMap.find host.rt p.pending (.str id) = none := by
    rw [h.pending]
    rfl
  refine ⟨{ p with
    pending := IdMap.put host.rt p.pending (.str id) (text "tools/call")
    pendingDeadlines := IdMap.put host.rt p.pendingDeadlines (.str id) (clock.accepted + pendingTimeout) },
    ?_, ⟨honly.sessionOpen, put_only hid honly.pending (text "tools/call"),
      put_only hid honly.pendingDeadlines (clock.accepted + pendingTimeout), honly.pendingTools,
      honly.responseSecrets, honly.controlPayloads, honly.pendingContinuations, honly.internalRequests⟩,
    ?_, rfl⟩
  · rw [Relay.accept.eq_def, hmethod]
    dsimp only
    rw [hfind, if_neg (by decide), h.pending, if_neg (by decide), if_neg (by decide)]
  · exact List.mem_append_right _ (List.mem_cons_self ..)

/-- the arguments of `target_scope` stay as they are -/
theorem validated_scope {args args' : Fields}
    (h : validateToolArguments host site (text "target_scope") args = .arguments args') : args' = args := by
  rw [validateToolArguments] at h
  split at h
  · cases h
  · rw [if_neg (by decide)] at h
    split at h
    · cases h
    · split at h
      · cases h
      · cases h
      · split at h
        · cases h
        · split at h
          · cases h
          · cases h
          · cases h
          · next hmap _ =>
            rw [mapPlatform, if_neg (by decide)] at hmap
            rw [if_neg fun hc => absurd hc.1 (by decide)] at h
            cases hmap
            cases h
            rfl

theorem callTool_not_raised {params args : Fields} {oid : Option Id} {tool : Text} :
    (callTool host limit clock site message params oid tool args p).1 ≠ .raised := by
  unfold callTool
  dsimp only
  split
  · split <;> exact fun h => by cases h
  · split
    · exact fun h => by cases h
    · split
      · exact fun h => by cases h
      · split
        · exact fun h => by cases h
        · split <;> exact fun h => by cases h

/-- an exception leaves the checks of the arguments, or the scope of a target -/
theorem dispatch_raised {name : Text} {arguments : Fields} {oid : Option Id} {sid : Text}
    (h : (dispatch host limit clock site (toolCall sid name arguments) oid p).1 = .raised) :
    validateToolArguments host site name arguments = .raised ∨
      name = text "target_scope" ∧ ∃ target, validAlias (field arguments "target") = some target ∧
        site.scope target = .raised := by
  have hmethod : field (toolCall sid name arguments) "method" = some (str "tools/call") := rfl
  have hname : field ((objectOf (field (toolCall sid name arguments) "params")).getD []) "name"
      = some (.str name) := rfl
  have hargs : field ((objectOf (field (toolCall sid name arguments) "params")).getD []) "arguments"
      = some (.obj arguments) := rfl
  rw [dispatch, if_neg (not_not.2 hmethod)] at h
  dsimp only at h
  rw [hname, hargs] at h
  dsimp only at h
  split at h
  · next hv => exact .inl hv
  · cases h
  · cases h
  · next args hv =>
    split at h
    · next htool =>
      rw [htool] at hv
      rw [validated_scope hv, targetScope] at h
      split at h
      · cases h
      · next target ht =>
        split at h
        · next hs => exact .inr ⟨htool, target, ht, hs⟩
        · cases h
        · cases h
    · exact absurd h callTool_not_raised

theorem readMessage_call {w : Wire host} {sid name : Text} {arguments : Fields} {raw : Bytes}
    (hraw : w.encode (.obj (toolCall sid name arguments)) = some raw) :
    readMessage host raw = .error (-32700) ∨
      readMessage host raw = .ok (some (.str sid), toolCall sid name arguments) := by
  rw [readMessage]
  split
  · exact .inl rfl
  · rcases w.call_read hraw with hd | hd
    · rw [hd]
      exact .inr rfl
    · rw [hd]
      exact .inl rfl

/-- a call, where nothing waits -/
theorem request_after (limit : Text → Limit) (h : Idle p) {w : Wire host} {a : Attempt} (hs : Survives w a) {raw : Bytes}
    (hraw : w.encode (.obj (toolCall a.id a.name a.arguments)) = some raw) :
    (∃ o q, request host limit a.clock a.site raw p = (o, q) ∧ Idle q ∧ o ≠ .raised ∧
        o.isForwarded = false) ∨
      ∃ m c q, request host limit a.clock a.site raw p = (.forwarded m c, q) ∧
        Only host.rt (.str a.id) q ∧ (.str a.id, text "tools/call") ∈ q.pending := by
  rw [request]
  rcases readMessage_call hraw with hread | hread
  · rw [hread]
    exact .inl ⟨_, p, rfl, h, fun h => (by cases h), rfl⟩
  · obtain ⟨q, hq, honly, hmem, -⟩ := h.accept host a.clock a.id a.name a.arguments
    rw [hread]
    dsimp only
    rw [hq]
    dsimp only
    have hafter : After host.rt (.str a.id) q (dispatch host limit a.clock a.site
        (toolCall a.id a.name a.arguments) (some (.str a.id)) q) :=
      dispatch_after (sameKey_str ..) honly
    have hraised : (dispatch host limit a.clock a.site (toolCall a.id a.name a.arguments)
        (some (.str a.id)) q).1 ≠ .raised := by
      intro hr
      rcases dispatch_raised hr with hv | ⟨hname, target, ht, hscope⟩
      · exact hs.checked hv
      · exact hs.scope hname target ht hscope
    generalize dispatch host limit a.clock a.site (toolCall a.id a.name a.arguments)
      (some (.str a.id)) q = r at hafter hraised
    cases hafter with
    | raised q' => exact absurd rfl hraised
    | forwarded m c q' h' hp => exact .inr ⟨m, c, q', rfl, h', hp ▸ hmem⟩
    | answered o q' ho h' => exact .inl ⟨o, q', rfl, h', hraised, ho⟩

theorem answer_not_nothing {now : ℚ} {w : Waiting} : (answer host now id w message p).1 ≠ .nothing := by
  rw [answer]
  split
  · exact fun h => by cases h
  · split
    · exact fun h => by cases h
    · split <;> exact fun h => by cases h

/-- the answer to the only request: nothing waits any more -/
theorem response_idle {sid : Text} (h : Only host.rt (.str sid) p)
    (hmem : (.str sid, text "tools/call") ∈ p.pending) {reply : Fields}
    (hvalid : (serverMessage (.obj reply)).isSome) (hans : isAnswer reply = true)
    (hid : idIn reply = .str sid) {raw : Bytes} (hlen : raw.length ≤ maxServerFrameBytes)
    (hblank : raw.all isSpace = false) (hdoc : host.rt.serverDocument raw = some (.obj reply))
    (now : Nat → ℚ) :
    Idle (response host now none raw p).2 ∧ (response host now none raw p).1 ≠ .nothing := by
  have hacc : p.accepting none = true := by
    rw [Proxy.accepting, h.sessionOpen]
    rfl
  have hfind : (IdMap.find host.rt p.pending (.str sid)).isSome :=
    find_isSome.2 ⟨_, hmem, sameKey_str ..⟩
  obtain ⟨method, hmethod⟩ := Option.isSome_iff_exists.1 hfind
  have hpaired : ∃ w, paired host p reply = some (.str sid, w) := by
    rw [paired, if_pos ⟨hans, by rw [h.internalRequests]; rfl⟩, hid, waiting, hmethod]
    exact ⟨_, rfl⟩
  obtain ⟨w, hw⟩ := hpaired
  obtain ⟨-, -, ht⟩ := transform_paired (now 0) hacc hw
  obtain ⟨s, hs⟩ := Option.isSome_iff_exists.1 hvalid
  have hmessage : validMessage (.obj reply) = some reply := by
    rw [validMessage, hs]
    rfl
  have hresponse : response host now none raw p = single (answer host (now 0) (.str sid) w reply
      (p.clearPending host.rt (.str sid))) := by
    rw [response, if_neg (by rw [hacc]; decide), if_neg (Nat.not_lt.2 hlen), if_neg (by rw [hblank]; decide),
      hdoc]
    dsimp only
    rw [hmessage]
    dsimp only
    rw [ht]
    generalize answer host (now 0) (.str sid) w reply (p.clearPending host.rt (.str sid)) = r
    obtain ⟨_ | _ | v, q⟩ := r <;> rfl
  obtain ⟨r, hstate⟩ := answer_state host (now 0) (.str sid) w reply (p.clearPending host.rt (.str sid))
  have hnot : (answer host (now 0) (.str sid) w reply (p.clearPending host.rt (.str sid))).1 ≠ .nothing :=
    answer_not_nothing
  rw [hresponse]
  generalize answer host (now 0) (.str sid) w reply (p.clearPending host.rt (.str sid)) = x at hstate hnot
  obtain ⟨_ | _ | v, q⟩ := x
  · exact ⟨hstate ▸ h.clear.withRates r, fun h => (by cases h)⟩
  · exact absurd rfl hnot
  · exact ⟨hstate ▸ h.clear.withRates r, fun h => (by cases h)⟩

variable {w : Wire host} {a : Attempt}

theorem respond_idle (h : Only host.rt (.str a.id) p) (hmem : (.str a.id, text "tools/call") ∈ p.pending)
    {v : Value} {raw : Bytes} (hraw : w.encode v = some raw) {reply : Fields}
    (hvalid : (serverMessage (.obj reply)).isSome) (hans : isAnswer reply = true)
    (hid : idIn reply = .str a.id) (hlen : raw.length ≤ maxServerFrameBytes)
    (hblank : raw.all isSpace = false) (hdoc : host.rt.serverDocument raw = some (.obj reply)) :
    Idle (respond w limit a v p).2 ∧ (respond w limit a v p).1 ≠ .responseRefused := by
  obtain ⟨hidle, hnot⟩ := response_idle h hmem hvalid hans hid hlen hblank hdoc a.now
  rw [respond, hraw]
  dsimp only
  generalize response host a.now none raw p = r at hidle hnot
  obtain ⟨reply', q⟩ := r
  cases reply' with
  | raised => exact ⟨hidle, fun h => (nomatch h)⟩
  | nothing => exact absurd rfl hnot
  | batch vs => exact ⟨hidle, fun h => (nomatch h)⟩
  | message v =>
    refine ⟨?_, fun h => (nomatch h)⟩
    dsimp only
    split
    · exact hidle.withRates _
    · exact hidle

/-- after a call that meets the condition the session is open and nothing waits -/
theorem call_idle (h : Idle p) (hs : Survives w a) :
    Idle (call w limit a p).2 ∧ (call w limit a p).1 ≠ .responseRefused := by
  rw [call]
  split
  · exact ⟨h, fun h => (nomatch h)⟩
  · split
    · exact ⟨h, fun h => (nomatch h)⟩
    · next raw hraw =>
      rcases request_after limit h hs hraw with ⟨o, q, hr, hq, hraised, ho⟩ | ⟨m, c, q, hr, hq, hmem⟩
      · rw [hr]
        cases o with
        | raised => exact absurd rfl hraised
        | forwarded m c => exact nomatch ho
        | _ => exact ⟨hq, fun h => (nomatch h)⟩
      · rw [hr]
        dsimp only
        rw [serve]
        split
        · next hcancelled => exact absurd hcancelled hs.served.1
        · next hodd => exact absurd hodd hs.served.2
        · obtain ⟨raw, hraw, hlen, hblank, hdoc⟩ := w.error_read a.hex
          exact respond_idle hq hmem hraw rfl rfl rfl hlen hblank hdoc
        · next output ho =>
          obtain ⟨hnest, raw, hraw, hlen⟩ := hs.returned output ho
          obtain ⟨hblank, result, hdoc⟩ := w.answer_read a.hex hraw hnest
          exact respond_idle hq hmem hraw rfl rfl rfl hlen hblank hdoc

/-! ## what a call depends on -/

theorem callTool_fst {q : Proxy} (h : p.rates = q.rates) (params args : Fields) (oid : Option Id)
    (tool : Text) :
    (callTool host limit clock site message params oid tool args p).1 =
      (callTool host limit clock site message params oid tool args q).1 := by
  unfold callTool
  dsimp only
  split
  · cases site.status <;> rfl
  · split
    · rfl
    · split
      · rfl
      · split
        · rfl
        · rw [h]
          split <;> rfl

theorem targetScope_fst {q : Proxy} (args : Fields) (oid : Option Id) :
    (targetScope host limit clock site oid args p).1 = (targetScope host limit clock site oid args q).1 := by
  unfold targetScope
  split
  · rfl
  · split <;> rfl

/-- of the state only the rates decide what becomes of a call -/
theorem dispatch_fst {q : Proxy} (h : p.rates = q.rates) (oid : Option Id) :
    (dispatch host limit clock site message oid p).1 = (dispatch host limit clock site message oid q).1 := by
  unfold dispatch
  dsimp only
  split
  · rfl
  · split
    · split
      · rfl
      · rfl
      · rfl
      · cases oid with
        | none =>
          dsimp only
          split
          · exact targetScope_fst ..
          · exact callTool_fst h ..
        | some id =>
          dsimp only
          split
          · exact targetScope_fst ..
          · refine callTool_fst ?_ ..
            exact h
    · rfl

/-- a proxy that was just started, with these rates -/
def Proxy.fresh (r : Rates) : Proxy := { Proxy.start with rates := r }

theorem idle_start : Idle Proxy.start := ⟨rfl, rfl, rfl, rfl, rfl, rfl, rfl, rfl⟩

/-- where nothing waits, a request is treated as if it were the first, but for the rates -/
theorem Idle.request_fst (h : Idle p) (raw : Bytes) :
    (request host limit clock site raw p).1 = (request host limit clock site raw (.fresh p.rates)).1 := by
  rw [request, request]
  split
  · rfl
  · next id message _ =>
    have haccept : ∀ q : Proxy, q.pending = [] → q.rates = p.rates →
        ∃ q', Relay.accept host clock id message q = .ok q' ∧ q'.rates = p.rates := by
      intro q hq hr
      unfold Relay.accept
      split
      · rw [hq, if_neg fun h => (by cases h), if_neg (by decide)]
        exact ⟨_, rfl, hr⟩
      · refine ⟨_, rfl, ?_⟩
        split <;> exact hr
    obtain ⟨q, hq, hqr⟩ := haccept p h.pending rfl
    obtain ⟨q', hq', hqr'⟩ := haccept (.fresh p.rates) rfl rfl
    rw [hq, hq']
    exact dispatch_fst (hqr.trans hqr'.symm) id

/-! ## whole runs -/

/-- the states that calls which meet the condition lead to -/
inductive Reached (w : Wire host) (limit : Text → Limit) : Proxy → Prop
  | start : Reached w limit Proxy.start
  | call (p : Proxy) (a : Attempt) (h : Reached w limit p) (hs : Survives w a) :
      Reached w limit (call w limit a p).2

/-- After every call the session is open and nothing waits, so a later one is treated as if it were the
first, but for the rates, and its answer is not refused. -/
theorem bridge_survives (w : Wire host) (limit : Text → Limit) (p : Proxy) (h : Reached w limit p) :
    Idle p ∧ (∀ a, Survives w a → (call w limit a p).1 ≠ .responseRefused) ∧
      ∀ clock site raw, (request host limit clock site raw p).1 =
        (request host limit clock site raw (.fresh p.rates)).1 := by
  have hidle : Idle p := by
    induction h with
    | start => exact idle_start
    | call p a _ hs ih => exact (call_idle ih hs).1
  exact ⟨hidle, fun a hs => (call_idle hidle hs).2, fun _ _ raw => hidle.request_fst raw⟩

end

section

def sampleId : Text := text "0123456789abcdef0123456789abcdef"

/-- a call that is admitted without a device -/
def catalogCall : Fields := toolCall sampleId (text "read_query_catalog") []

def bridgeHost : Host where
  rt := ⟨fun _ => none, messageOf [.obj catalogCall],
    fun raw => (Utf8.decodeAll raw).bind (Json.loads maxJsonNesting)⟩
  py := Sanitize.plainPython
  depth := 99
  textDocument s := Json.loads 100 (s.map Char.ofNat)
  dumps v := (Json.dumps v).map Char.toNat
  str _ := []
  isPrintable n := 32 ≤ n && n < 127
  plain_numbers raw v h := by
    have hfind : messageOf [.obj catalogCall] raw = some v := h
    have hmem := List.mem_of_find?_eq_some hfind
    rw [List.mem_singleton.1 hmem]
    intro t ht
    simp [catalogCall, toolCall, Value.leaves, Json.leavesOfFields, str] at ht

theorem bytesOf_read {v : Value} (h : v.Printable maxJsonNesting) :
    bridgeHost.rt.serverDocument (bytesOf v) = some v := by
  show (Utf8.decodeAll (Utf8.encode (Json.dumps v))).bind _ = _
  rw [Utf8.decodeAll_encode, Option.bind_some, Json.loads_dumps h]

theorem bytesOf_visible (fields : Fields) : (bytesOf (.obj fields)).all isSpace = false := rfl

theorem hex_scalar {id : Text} (h : isHex id = true) : ∀ p ∈ id, Json.Scalar p := by
  intro p hp
  rw [isHex, Bool.and_eq_true, List.all_eq_true] at h
  have hc := h.2 p hp
  simp only [Bool.or_eq_true, Bool.and_eq_true, decide_eq_true_eq] at hc
  exact .inl (by omega)

theorem errorAnswer_printable {id : Text} (h : isHex id = true) :
    Value.Printable maxJsonNesting (.obj (errorAnswer id)) := by
  show Json.PrintableFields 127 (errorAnswer id)
  exact ⟨by decide, by decide, by decide, hex_scalar h, by decide, by decide, trivial⟩

theorem length_encode_le (cs : List Char) : (Utf8.encode cs).length ≤ 4 * cs.length := by
  induction cs with
  | nil => exact Nat.le_refl 0
  | cons c cs ih =>
    rw [Utf8.encode_cons, List.length_append, List.length_cons]
    have hc : (String.utf8EncodeChar c).length ≤ 4 := by
      rw [String.length_utf8EncodeChar]
      exact Char.utf8Size_le_four c
    omega

theorem length_escape_le (s : Text) : (s.flatMap Json.escape).length ≤ 12 * s.length := by
  induction s with
  | nil => exact Nat.le_refl 0
  | cons n s ih =>
    have hn : (Json.escape n).length ≤ 12 := by
      rw [Json.escape]
      split_ifs <;> simp [Json.unicodeEscape]
    rw [List.flatMap_cons, List.length_append, List.length_cons]
    omega

theorem errorAnswer_length {id : Text} (h : isHex id = true) :
    (bytesOf (.obj (errorAnswer id))).length ≤ maxServerFrameBytes := by
  have hid : id.length = 32 := by
    rw [isHex, Bool.and_eq_true] at h
    simpa using h.1
  have hlen := length_escape_le id
  have hbytes := length_encode_le (Json.dumps (.obj (errorAnswer id)))
  have hdumps : (Json.dumps (.obj (errorAnswer id))).length = (id.flatMap Json.escape).length + 83 := by
    have hquote : (Json.quote Json.escape id).length = (id.flatMap Json.escape).length + 2 := by
      simp [Json.quote]
    have hrest : (Json.quote Json.escape (text "jsonrpc")).length = 9 ∧
        (Json.quote Json.escape (text "2.0")).length = 5 ∧ (Json.quote Json.escape (text "id")).length = 4 ∧
        (Json.quote Json.escape (text "error")).length = 7 ∧
        (Json.quote Json.escape (text "code")).length = 6 ∧ (Json.intText (-32603)).length = 6 ∧
        (Json.quote Json.escape (text "message")).length = 9 ∧
        (Json.quote Json.escape (text "Role operation failed")).length = 23 := by decide
    rw [Json.dumps, Json.write, errorAnswer]
    simp only [Json.writeFields, Json.writeMoreFields, Json.write, str, List.length_cons,
      List.length_append, List.length_nil, hquote, hrest]
    omega
  rw [hdumps] at hbytes
  refine hbytes.trans ?_
  rw [maxServerFrameBytes]
  omega

def bridgeWire : Wire bridgeHost where
  encode v := if v.Printable maxJsonNesting then some (bytesOf v) else none
  call_read := by
    intro id name arguments raw h
    split at h
    · next hp =>
      cases h
      have hfind : bridgeHost.rt.document (bytesOf (.obj (toolCall id name arguments))) =
          if bytesOf (.obj catalogCall) = bytesOf (.obj (toolCall id name arguments)) then
            some (.obj catalogCall) else none := by
        show messageOf [.obj catalogCall] _ = _
        rw [messageOf, List.find?_cons, List.find?_nil]
        split <;> simp_all
      rw [hfind]
      split
      · next he =>
        have hread := bytesOf_read (show Value.Printable maxJsonNesting (.obj catalogCall) by decide)
        rw [he, bytesOf_read hp] at hread
        exact .inl hread.symm
      · exact .inr rfl
    · exact nomatch h
  answer_read := by
    intro id result raw _ h _
    split at h
    · next hp =>
      cases h
      exact ⟨bytesOf_visible _, result, bytesOf_read hp⟩
    · exact nomatch h
  error_read := by
    intro id h
    have hp := errorAnswer_printable h
    exact ⟨_, if_pos hp, errorAnswer_length h, bytesOf_visible _, bytesOf_read hp⟩

theorem encode_printable {v : Value} (h : v.Printable maxJsonNesting) :
    bridgeWire.encode v = some (bytesOf v) := if_pos h

/-- a call whose server behaves like this -/
def catalogAttempt (served : Served) : Attempt :=
  ⟨sampleId, text "read_query_catalog", [], served, sampleSite, clockAt 0, fun _ => 0, 0, by decide⟩

theorem catalog_survives :
    Survives bridgeWire (catalogAttempt (.returned ⟨[], .null, .bool false, .obj []⟩)) where
  checked := fun h => nomatch h
  scope := fun h => absurd h (by decide)
  served := ⟨fun h => (nomatch h), fun h => (nomatch h)⟩
  returned := by
    intro output ho
    cases ho
    exact ⟨by decide, bytesOf _, encode_printable (by decide), by decide +kernel⟩

theorem bridge_survives_catalog :
    Idle (call bridgeWire sampleLimit
      (catalogAttempt (.returned ⟨[], .null, .bool false, .obj []⟩)) Proxy.start).2 :=
  (bridge_survives bridgeWire sampleLimit _ (.call _ _ .start catalog_survives)).1

/-- a call that is cancelled waits for ever -/
theorem cancelled_call_waits :
    ¬ ∀ (host : Host) (w : Wire host) (limit : Text → Limit) (a : Attempt),
      Idle (call w limit a Proxy.start).2 := by
  intro h
  have hidle := h bridgeHost bridgeWire sampleLimit (catalogAttempt .cancelled)
  have hpending : (call bridgeWire sampleLimit (catalogAttempt .cancelled) Proxy.start).2.pending.isEmpty
      = false := by decide +kernel
  rw [hidle.pending] at hpending
  exact nomatch hpending

end

end Netops.Relay

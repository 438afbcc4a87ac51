import Netops.Triage.Parse

/-!
# The triage of a virtual server (`triage_slb` in `engine.py`, `evaluate` and `verdict`)

* `Logged`        a value with what is missing, and the steps that were asked and that were read;
* `triage`        the steps, one after the other;
* `evaluate`      the rules;
* `verdict`.
-/

namespace Netops.TriageSlb

open Regex Patterns
open Netops.Fortios (Text isSpace)

/-! ## steps -/

inductive DosLimit where
  | access | conn | req
  deriving DecidableEq

inductive Step where
  | vsConfig
  | poolConfig
  | healthCheckConfig (name : Text)
  | tlsConfig
  | wafConfig
  | slbVsStat
  | slbLoad
  | tlsHandshakeStats
  | dos (limit : DosLimit)
  | wafSignatureStatus
  | systemPerformance
  deriving DecidableEq

/-- `MISSING_REASONS` -/
inductive Reason where
  | timeout | truncated | empty | unsupported | permissionDenied | deviceCliError | unparsed | notApplicable
  deriving DecidableEq

def Reason.name : Reason → String
  | .timeout => "timeout"
  | .truncated => "truncated"
  | .empty => "empty"
  | .unsupported => "unsupported"
  | .permissionDenied => "permission_denied"
  | .deviceCliError => "device_cli_error"
  | .unparsed => "unparsed"
  | .notApplicable => "not_applicable"

def Reason.ofCode (code : Text) : Option Reason :=
  [Reason.timeout, .truncated, .empty, .unsupported, .permissionDenied, .deviceCliError, .unparsed,
    .notApplicable].find? fun r => r.name.toList = code

structure Missing where
  step : Step
  reason : Reason
  detail : Option Text := none
  deriving DecidableEq

/-- what is missing, and the steps that were asked of the device and those that were read -/
structure Log where
  missing : List Missing := []
  asked : List Step := []
  executed : List Step := []

/-- a value with its log; `none` is an exception -/
def Logged (α : Type) : Type := Option (α × Log)

def Log.append (l m : Log) : Log := ⟨l.missing ++ m.missing, l.asked ++ m.asked, l.executed ++ m.executed⟩

instance : Monad Logged where
  pure a := some (a, {})
  bind x f :=
    match x with
    | none => none
    | some (a, l) =>
      match f a with
      | none => none
      | some (b, m) => some (b, l.append m)

/-- `miss` -/
def miss (step : Step) (reason : Reason) (detail : Option Text := none) : Logged Unit :=
  some ((), { missing := [⟨step, reason, detail⟩] })

/-! ## reading -/

/-- what a reading of the configuration brings: an exception with its text, or a text that may go on -/
inductive ConfigReply where
  | failed (error : Text)
  | text (output : Text) (whole : Bool)

/-- what a query brings; an answer that is not `ok` has a code and an error -/
inductive QueryReply where
  | failed (error : Text)
  | refused (code : Option Text) (error : Text)
  | text (output : Text) (whole : Bool)

structure Answers where
  /-- `config_read` of a section, with or without the defaults -/
  config : Text → Bool → ConfigReply
  query : Step → QueryReply

section
variable (py : Python)

/-- `_triage_failure` -/
def triageFailure (error : Text) : Reason :=
  let has (s : String) : Bool := s.toList <:+: py.casefold error
  if has "timed out" || has "timeout" then .timeout
  else if has "refused" || has "device_cli_error" then .deviceCliError
  else if has "not enabled" || has "outside target policy" || has "not_supported" then .unsupported
  else .deviceCliError

/-- what the parser makes of a text -/
def parsed {α : Type} (step : Step) (result : Except Failure α) : Logged (Option α) :=
  match result with
  | .ok value => some (some value, { asked := [step], executed := [step] })
  | .error .unparsed => some (none, { missing := [⟨step, .unparsed, none⟩], asked := [step] })
  | .error .raised => none

def missed {α : Type} (step : Step) (reason : Reason) (detail : Option Text := none) : Logged (Option α) :=
  some (none, { missing := [⟨step, reason, detail⟩], asked := [step] })

/-- `config_step` -/
def configStep {α : Type} (step : Step) (reply : ConfigReply) (parser : Text → Except Failure α) :
    Logged (Option α) :=
  match reply with
  | .failed error => missed step (triageFailure py error) (some ((error.takeWhile (· ≠ ';')).take 120))
  | .text output whole => if !whole then missed step .truncated else parsed step (parser output)

/-- `query_step` -/
def queryStep {α : Type} (step : Step) (reply : QueryReply) (parser : Text → Except Failure α) :
    Logged (Option α) :=
  match reply with
  | .failed error => missed step (triageFailure py error)
  | .refused code error => missed step ((code.bind Reason.ofCode).getD (triageFailure py error)) code
  | .text output whole =>
    if !whole then missed step .truncated
    else if output.all isSpace then missed step .empty
    else parsed step (parser output)

/-! ## the chain -/

/-- what the triage has read -/
structure Chain where
  virtualServer : Text
  vsConfig : Option VirtualServer
  vsRuntime : Option VsStat
  poolName : Option Text
  pool : Option Pool
  healthChecks : List (Text × Option (List (String × Option Text)))
  tlsConfig : Option Text
  tls : Option (List Side)
  wafConfig : Option Text
  waf : Option (List (Text × Text))
  dosProfile : Option Text
  dos : List (DosLimit × Dos)
  load : Option Load
  resources : Option (List (Text × Text))

/-- `SAFE_FORTIADC_OBJECT` -/
def safeObject (t : Text) : Bool :=
  fullMatch (.seq (.char isAlnum) (upTo (.char fun c => isAlnum c || c = '_' || c = '.' || c = '-') 34)) t

/-- a name that is not empty -/
def given (name : Option Text) : Option Text := name.filter (· ≠ [])

def maxHealthChecks : Nat := 4

/-- the names, each once -/
def distinct (names : List Text) : List Text :=
  names.foldl (fun seen n => if n ∈ seen then seen else seen ++ [n]) []

/-- the names of the health checks of a pool and of its members -/
def Pool.checks (p : Pool) : List Text :=
  distinct (p.healthCheck ++ p.members.flatMap fun m => m.healthCheck.getD [])

section
variable (answers : Answers)

/-- the pool of the virtual server -/
def readPool (vs : Option VirtualServer) : Logged (Option Pool) :=
  match vs with
  | none => do
    miss .poolConfig .notApplicable
    return none
  | some vs =>
    match vs.pool with
    | none => do
      miss .poolConfig .notApplicable
      return none
    | some name =>
      if !safeObject name then do
        miss .poolConfig (if name ≠ [] then .unparsed else .notApplicable)
        return none
      else
        configStep py .poolConfig (answers.config ("load-balance pool ".toList ++ name) true)
          fun text => poolConfig py text name

/-- the loop over the health checks, with the number of those before -/
def readHealthChecks (enrolled : List Text) : Nat → List Text →
    Logged (List (Text × Option (List (String × Option Text))))
  | _, [] => return []
  | index, name :: rest => do
    if maxHealthChecks ≤ index then
      miss (.healthCheckConfig name) .truncated
      readHealthChecks enrolled (index + 1) rest
    else if !safeObject name || !(enrolled.contains name) then
      miss (.healthCheckConfig name) .unsupported (some "health check is not enrolled in adc_health_checks".toList)
      readHealthChecks enrolled (index + 1) rest
    else
      let value ← configStep py (.healthCheckConfig name)
        (answers.config ("system health-check ".toList ++ name) true) fun text => healthCheckConfig text name
      let others ← readHealthChecks enrolled (index + 1) rest
      return (name, value) :: others

/-- a profile that is only read, and not parsed -/
def readProfile (step : Step) (family : String) (defaults : Bool) (profile : Option Text) : Logged (Option Text) :=
  match given profile with
  | none => return none
  | some name =>
    if safeObject name then
      configStep py step (answers.config (family.toList ++ name) defaults) fun _ => .ok name
    else do
      miss step .unparsed
      return none

/-- a query that is made only for a profile -/
def readFor {α : Type} (profile : Option Text) (step : Step) (parser : Text → Except Failure α) :
    Logged (Option α) :=
  match given profile with
  | none => return none
  | some _ => queryStep py step (answers.query step) parser

/-- the limits of the DoS profile -/
def readDos (virtualServer : Text) (profile : Option Text) : List DosLimit → Logged (List (DosLimit × Dos))
  | [] => return []
  | limit :: rest => do
    let value ← readFor py answers profile (.dos limit) fun text => parseDos py text virtualServer
    let others ← readDos virtualServer profile rest
    return (value.map fun v => (limit, v)).toList ++ others

/-- the steps of `triage_slb` -/
def chainOf (enrolled : List Text) (virtualServer vdom : Text) : Logged Chain := do
  let vs ← configStep py .vsConfig (answers.config ("load-balance virtual-server ".toList ++ virtualServer) true)
    fun text => virtualServerConfig text virtualServer
  let pool ← readPool py answers vs
  let healthChecks ← readHealthChecks py answers enrolled 0 ((pool.map Pool.checks).getD [])
  let tlsProfile := vs.bind VirtualServer.clientSslProfile
  let wafProfile := vs.bind VirtualServer.wafProfile
  let dosProfile := vs.bind VirtualServer.dosProfile
  let tlsConfig ← readProfile py answers .tlsConfig "load-balance client-ssl-profile " false tlsProfile
  let wafConfig ← readProfile py answers .wafConfig "security waf profile " true wafProfile
  let runtime ← queryStep py .slbVsStat (answers.query .slbVsStat)
    fun text => parseVsStat py text virtualServer vdom
  let load ← queryStep py .slbLoad (answers.query .slbLoad) fun text => parseSlbLoad py text virtualServer
  let tls ← readFor py answers tlsProfile .tlsHandshakeStats (parseTlsStats py)
  let dos ← readDos py answers virtualServer dosProfile [.access, .conn, .req]
  let waf ← readFor py answers wafProfile .wafSignatureStatus parseKeyValues
  let resources ← queryStep py .systemPerformance (answers.query .systemPerformance) parseKeyValues
  return ⟨virtualServer, vs, runtime, vs.bind VirtualServer.pool, pool, healthChecks, tlsConfig, tls, wafConfig,
    waf, given dosProfile, dos, load, resources⟩

end

end

/-! ## the rules -/

inductive Rule where
  | vsDisabled | vsAvail | memberDisabled | noHc | memberDown | poolAllDown | mismatch | tlsFail | dos | waf
  deriving DecidableEq

/-- `FAULT_RULES` -/
def Rule.isFault : Rule → Bool
  | .vsDisabled | .vsAvail | .memberDown | .poolAllDown | .mismatch | .tlsFail => true
  | .memberDisabled | .noHc | .dos | .waf => false

/-- what a finding says -/
inductive Fact where
  | status (status : Text)
  | availability (state : Text)
  | noHealthCheck
  | down (realServer : Option Text) (hcState lastStateChange : Text) (checks : List Text)
  | noneUp
  | noneEnabled
  | memberIds (configured measured : List Nat) (pools : List Text)
  | loadIds (present : Bool) (loaded configured : List Nat)
  | handshakes (server : Option Nat) (failed succeeded : Nat)
  | limit (metric : Text) (value : Nat)
  | wafProfile
  | wafStatus (values : List (Text × Text))
  deriving DecidableEq

structure Finding where
  rule : Rule
  object : Text
  member : Option Nat := none
  fact : Fact
  deriving DecidableEq

def healthy : Text := "HEALTHY".toList
def up : Text := "UP".toList

/-- the members that are measured: a later row takes the place of an earlier one -/
def runtimeMembers (pools : List StatPool) : List (Nat × MemberStat) :=
  (pools.flatMap StatPool.members).foldl (fun d m => Dict.set m.id m d) []

/-- the same numbers, in any order and number -/
def sameIds (a b : List Nat) : Bool := a.all b.contains && b.all a.contains

/-- the findings on the virtual server -/
def serverFindings (c : Chain) : List Finding :=
  (c.vsConfig.toList.filter (·.status ≠ enable)).map
      (fun vs => ⟨.vsDisabled, c.virtualServer, none, .status vs.status⟩) ++
    (c.vsRuntime.toList.filter (·.availability ≠ some healthy)).map
      (fun r => ⟨.vsAvail, c.virtualServer, none, .availability (r.availability.getD [])⟩)

/-- the findings on the configuration of the pool -/
def configFindings (name : Text) (pool : Pool) : List Finding :=
  (pool.members.filter (·.status ≠ enable)).map
      (fun m => ⟨.memberDisabled, name, some m.id, .status m.status⟩) ++
    if pool.healthCheck = [] ∧ pool.members.all (fun m => (m.healthCheck.getD []) = []) = true then
      [⟨.noHc, name, none, .noHealthCheck⟩]
    else []

/-- the finding on one enabled member -/
def downFinding (name : Text) (pool : Pool) (measured : List (Nat × MemberStat)) (m : Member) : List Finding :=
  match Dict.get m.id measured with
  | none => []
  | some state =>
    if state.hcState ≠ up then
      let checks := match m.healthCheck with
        | some (c :: cs) => c :: cs
        | _ => pool.healthCheck
      [⟨.memberDown, name, some m.id, .down m.realServer state.hcState state.lastStateChange checks⟩]
    else []

/-- the findings on the members of the pool as they are measured -/
def poolFindings (name : Text) (pool : Pool) (pools : List StatPool) : List Finding :=
  let measured := runtimeMembers pools
  let enabled := pool.members.filter (·.status = enable)
  let configured := pool.members.map Member.id
  let names := pools.map StatPool.name
  enabled.flatMap (downFinding name pool measured) ++
    (if enabled = [] then [⟨.poolAllDown, name, none, .noneEnabled⟩]
      else if enabled.any fun m => (Dict.get m.id measured).any fun s => s.hcState = up then []
      else [⟨.poolAllDown, name, none, .noneUp⟩]) ++
    if !sameIds configured (Dict.keys measured) || names.any (· ≠ name) then
      [⟨.mismatch, name, none, .memberIds configured (Dict.keys measured) names⟩]
    else []

/-- the findings on the load -/
def loadFindings (virtualServer : Text) (pool : Pool) (load : Load) : List Finding :=
  let loaded := load.pools.flatMap fun p => p.members.map LoadMember.id
  let configured := pool.members.map Member.id
  if !load.present || !sameIds loaded configured then
    [⟨.mismatch, virtualServer, none, .loadIds load.present loaded configured⟩]
  else []

/-- the findings on the handshakes -/
def tlsFindings (virtualServer : Text) (sides : List Side) : List Finding :=
  (sides.filter fun s => 0 < s.failed.getD 0).map fun s =>
    ⟨.tlsFail, virtualServer, none, .handshakes s.server (s.failed.getD 0) (s.succeeded.getD 0)⟩

/-- the findings that are no faults -/
def otherFindings (c : Chain) : List Finding :=
  c.dos.map (fun x => ⟨.dos, c.virtualServer, none, .limit x.2.metric x.2.value⟩) ++
    c.wafConfig.toList.map (fun profile => ⟨.waf, profile, none, .wafProfile⟩) ++
    c.waf.toList.map (fun values => ⟨.waf, "waf-signature-status".toList, none, .wafStatus values⟩)

/-- `evaluate` -/
def evaluate (c : Chain) : List Finding :=
  let name := c.poolName.getD []
  serverFindings c ++
    (match c.pool with
      | none => []
      | some pool =>
        configFindings name pool ++
          (match c.vsRuntime with
            | none => []
            | some r => poolFindings name pool r.pools) ++
          match c.load with
          | none => []
          | some load => loadFindings c.virtualServer pool load) ++
    (c.tls.map (tlsFindings c.virtualServer)).getD [] ++ otherFindings c

inductive Verdict where
  | incomplete | faultFound | noFaultInCheckedData
  deriving DecidableEq

/-- `REQUIRED_STEPS` -/
def requiredSteps : List Step := [.vsConfig, .poolConfig, .slbVsStat, .systemPerformance]

/-- `verdict` -/
def verdict (findings : List Finding) (missing : List Missing) (executed : List Step) : Verdict :=
  if missing ≠ [] ∨ requiredSteps.any (fun s => !(executed.contains s)) = true then .incomplete
  else if findings.any (·.rule.isFault) then .faultFound
  else .noFaultInCheckedData

structure Report where
  chain : Chain
  findings : List Finding
  log : Log
  verdict : Verdict

/-- `triage_slb`, behind the checks of its arguments; `none` is an exception -/
def triage (py : Python) (answers : Answers) (enrolled : List Text) (virtualServer vdom : Text) : Option Report :=
  match chainOf py answers enrolled virtualServer vdom with
  | none => none
  | some (chain, log) =>
    some ⟨chain, evaluate chain, log, verdict (evaluate chain) log.missing log.executed⟩

end Netops.TriageSlb

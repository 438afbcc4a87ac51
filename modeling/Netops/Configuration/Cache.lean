import Mathlib.Algebra.Order.Ring.Rat
import Netops.Configuration.Compare
import Netops.Lib.Json
import Netops.Lib.Prog
import Netops.Lib.Utf8

/-!
# The snapshots that are kept

`store`, `compare`, `get_snapshot`, `get_full_snapshot`, `filtered_snapshot` and `discard_snapshot` of
`configuration.py`.  Every section that holds the lock is one operation; the callers share the cache and
their operations come in any order.

* `Snapshot`, `Held`    a snapshot, and the object that it is: `is` compares objects;
* `Cache`               the snapshots, the differences, the clock, and what has happened so far;
* `Op`, `machine`       the sections and what they do to the cache;
* `store`, `compare`, `getSnapshot`, `getFullSnapshot`, `filteredSnapshot`   the programs.
-/

namespace Netops.Snapshots

open Filter Effect

abbrev Text := List Char

/-- `_TTL`, in seconds -/
def ttl : ℚ := 86400

/-- `PROFILE` -/
def minimalProfile : Text := "fortios-minimal-4".toList

/-- why a call ends without a value -/
inductive Refused where
  /-- configuration snapshot not found or expired -/
  | missing
  /-- configuration snapshot scope mismatch -/
  | scope
  /-- configuration snapshot section, firmware or profile mismatch -/
  | mismatch
  /-- configuration snapshot capture options mismatch -/
  | captureOptions
  /-- configuration platform is outside target policy -/
  | platform
  /-- invalid configuration profile -/
  | profile
  /-- invalid configuration capture options -/
  | options
  /-- invalid configuration visibility metadata -/
  | metadata
  /-- full configuration cannot cache secret-derived records -/
  | records
  /-- configuration filtered view expired; restart at offset 0 -/
  | viewExpired
  /-- configuration memory budget exhausted; output withheld -/
  | budget
  /-- a difference that was there a moment ago -/
  | key
  | content (why : Failure)
  deriving DecidableEq, Repr

/-! ## snapshots -/

/-- what a scope is made of -/
structure Auth where
  name : Text
  host : Text
  port : Nat
  login : Text
  hostKeyFingerprint : Text
  credentialKind : Text
  secret : Text
  sshPlatform : Text
  /-- `configuration_limits.identity()` -/
  limits : List Nat

structure Scope where
  digest : Bytes
  platform : Text
  view : Text
  limits : List Nat
  deriving DecidableEq

/-- `scope[:3]` -/
def Scope.target (s : Scope) : Bytes × Text × Text := (s.digest, s.platform, s.view)

/-- `'\0'.join` -/
def joined : List Text → Text
  | [] => []
  | [t] => t
  | t :: rest => t ++ Char.ofNat 0 :: joined rest

/-- `scope`; `key` is the key that the process has drawn -/
def scope (key : Bytes) (auth : Auth) (platform : Text) : Except Refused Scope :=
  let wire := if platform = "fortios".toList then "fortinet".toList else "fortiadc".toList
  if (platform ≠ "fortios".toList ∧ platform ≠ "fortiadc".toList) ∨ auth.sshPlatform ≠ wire then
    .error .platform
  else
    let material := joined [auth.name, auth.host, (toString auth.port).toList, auth.login,
      auth.hostKeyFingerprint, auth.credentialKind, auth.secret]
    .ok ⟨Sha256.hmac key (Utf8.encode material), platform, "running".toList, auth.limits⟩

/-- the names that a snapshot has, with the types that `_capture_metadata` asks for -/
structure Metadata where
  configScope : Text
  configurationComplete : Bool
  identityScopeVerified : Option Bool
  visibilityLimitations : List Text
  credentialRedactions : Option Int
  unverifiedCount : Option Int
  unsupportedFormatCount : Option Int
  unverifiedFields : Option (List Text)
  unverifiedTruncated : Option Bool
  deriving DecidableEq

def limitations : List Text :=
  ["system", "networking", "load-balance", "log", "link-load-balance", "global-load-balance", "security",
    "share-resource", "user", "access-profile-unverified", "vdom-unverified", "vdom-override-unverified",
    "vdom-coverage-not-verified", "account-rights-not-verified", "requested-section-only",
    "schema-fields-unverified", "formats-not-verified"].map String.toList

/-- `_capture_metadata` -/
def captureMetadata : Option Metadata → Except Refused (Option Metadata)
  | none => .ok none
  | some m =>
    let count := fun n : Option Int => n.all fun n => 0 ≤ n && n ≤ 1073741824
    if m.configScope ∈ ["all", "single-vdom-device", "device-account-visible"].map String.toList ∧
        (∀ value ∈ m.visibilityLimitations, value ∈ limitations) ∧
        m.visibilityLimitations.length ≤ limitations.length ∧
        ¬(m.configurationComplete = true ∧ m.visibilityLimitations ≠ []) ∧
        count m.credentialRedactions ∧ count m.unverifiedCount ∧ count m.unsupportedFormatCount ∧
        (m.unverifiedFields.all fun fields => fields.length ≤ 32 && fields.all fun value =>
          value.length ≤ 768 && value.all fun c => 32 ≤ c.toNat && c.toNat ≠ 127) then .ok (some m)
    else .error .metadata

/-- a content, the number of its lines and of those with the needle -/
abbrev Shown := Content × Nat × Option Nat

/-- the contents of the small profile must not hold its markers -/
abbrev isMinimal (profile : Text) : Bool := profile = minimalProfile

structure Snapshot where
  scope : Scope
  profile : Text
  /-- `text` and `hidden` -/
  capture : Capture (isMinimal profile)
  created : ℚ
  redactedCount : Nat
  part : Text
  firmware : List Text
  includeDefaults : Bool
  metadata : Option Metadata
  /-- the last view, with the digest of what was asked for -/
  filtered : Option (Text × Shown)

/-- what two snapshots must have in common -/
def Snapshot.facts (s : Snapshot) : Text × List Text × Text × Bool × Option Metadata :=
  (s.part, s.firmware, s.profile, s.includeDefaults, s.metadata)

def Snapshot.text (s : Snapshot) : Content := s.capture.text.content

/-- the comparison of two snapshots of one profile -/
def Snapshot.compareWith (budget : Budget) (left right : Snapshot) (h : left.profile = right.profile) :
    Except Failure Compared :=
  compareCaptures (isMinimal left.profile) budget left.capture (h ▸ right.capture)

/-- `filtered_content` of a snapshot -/
def Snapshot.view (budget : Budget) (s : Snapshot) (contains : Option Text) (context : Int) :
    Except Failure Shown :=
  filteredContent budget s.text contains context (isMinimal s.profile)

/-- an object: two of them with the same fields are still two -/
structure Held where
  object : Nat
  snapshot : Snapshot

/-- the clock and the snapshots when somebody looked one up -/
structure Look where
  caller : Nat
  clock : ℚ
  snapshots : List (Text × Held)

structure Cache where
  /-- `_SNAPSHOTS` -/
  snapshots : List (Text × Held)
  /-- `_DIFFS` -/
  diffs : List ((Text × Text) × Compared)
  clock : ℚ
  /-- how many objects there have been -/
  objects : Nat
  /-- the identities that were drawn so far -/
  drawn : List Text
  /-- what was stored so far -/
  stored : List (Text × Snapshot)
  /-- what `filter_digest` was asked for so far -/
  digested : List (Text × Text × Int)
  looks : List Look

def Cache.start : Cache := ⟨[], [], 0, 0, [], [], [], []⟩

/-- `time.monotonic()`, which never goes back -/
def Cache.tick (now : ℚ) (c : Cache) : Cache := { c with clock := max c.clock now }

def expired (now : ℚ) (s : Snapshot) : Bool := ttl < now - s.created

/-- `_prune` -/
def Cache.prune (c : Cache) : Cache :=
  let snapshots := c.snapshots.filter fun x => !expired c.clock x.2.snapshot
  { c with
    snapshots
    diffs := c.diffs.filter fun x => x.1.1 ∈ Dict.keys snapshots ∧ x.1.2 ∈ Dict.keys snapshots }

/-- the lookup of a caller is remembered -/
def Cache.look (caller : Nat) (c : Cache) : Cache :=
  { c with looks := ⟨caller, c.clock, c.snapshots⟩ :: c.looks }

/-- a new object takes the place of the old one -/
def Cache.put (identity : Text) (s : Snapshot) (c : Cache) : Cache :=
  { c with
    snapshots := Dict.set identity ⟨c.objects, s⟩ c.snapshots
    objects := c.objects + 1 }

/-! ## the sections -/

/-- `re.fullmatch('cfg_[0-9a-f]{32}', identity)` -/
def isIdentity (identity : Text) : Bool :=
  identity.take 4 = "cfg_".toList && identity.length = 36 && (identity.drop 4).all Sha256.lowerHex

/-- `_snapshot_profile` -/
def snapshotProfile (profile platform : Text) : Bool :=
  (platform = "fortios".toList || platform = "fortiadc".toList) &&
    ((profile = minimalProfile && platform = "fortios".toList) ||
      let rest := profile.drop (platform.length + 8)
      (profile.take (platform.length + 8) = platform ++ "-full-1:".toList ||
        profile.take (platform.length + 8) = platform ++ "-full-2:".toList) &&
      rest.length = 64 && rest.all Sha256.lowerHex)

/-- the oldest ones of the target go until three are left -/
def evictSame : List Text → List (Text × Held) → List (Text × Held)
  | [], d => d
  | identity :: same, d =>
    if 4 ≤ (identity :: same).length then evictSame same (d.filter fun x => x.1 ≠ identity) else d

/-- the oldest ones go until fifteen are left -/
def evictOld : List (Text × Held) → List (Text × Held)
  | [] => []
  | x :: d => if 16 ≤ (x :: d).length then evictOld d else x :: d

/-- the section of `store`.  The identities are drawn one after the other until one is not in use; it does
not end where all of them are. -/
def Cache.insert (s : Snapshot) (tokens : List Text) (refused : Bool) (c : Cache) :
    Option (Except Refused Text) × Cache :=
  let snapshots := c.snapshots.filter fun x => !expired s.created x.2.snapshot
  let same := Dict.keys (snapshots.filter fun x => x.2.snapshot.scope.target = s.scope.target)
  let c := { c with snapshots := evictOld (evictSame same snapshots) }
  let inUse := fun identity : Text => identity ∈ Dict.keys c.snapshots
  match tokens.dropWhile inUse with
  | [] => (none, { c with drawn := tokens ++ c.drawn })
  | identity :: _ =>
    let c := { c with drawn := identity :: tokens.takeWhile inUse ++ c.drawn }.prune
    if refused then (some (.error .budget), c)
    else (some (.ok identity), { c.put identity s with stored := (identity, s) :: c.stored })

section
variable (key : Bytes)

/-- the section of `compare` -/
def Cache.pair (caller : Nat) (auth : Auth) (base other platform : Text) (c : Cache) :
    Except Refused (Held × Held) × Cache :=
  let c := c.prune.look caller
  match Dict.get base c.snapshots, Dict.get other c.snapshots with
  | some left, some right =>
    match scope key auth platform with
    | .error e => (.error e, c)
    | .ok s =>
      if left.snapshot.scope ≠ s ∨ right.snapshot.scope ≠ s then (.error .scope, c)
      else (.ok (left, right), c)
  | _, _ => (.error .missing, c)

/-- `_scoped_snapshot` -/
def Cache.scopedSnapshot (auth : Auth) (identity part platform : Text) (c : Cache) : Except Refused Held :=
  if !isIdentity identity then .error .missing
  else match Dict.get identity c.snapshots with
    | none => .error .missing
    | some held =>
      if expired c.clock held.snapshot then .error .missing
      else match scope key auth platform with
        | .error e => .error e
        | .ok s => if held.snapshot.scope ≠ s ∨ held.snapshot.part ≠ part then .error .scope else .ok held

/-- the two ways to look up a snapshot, `get_snapshot` and `get_full_snapshot` -/
inductive Lookup where
  | minimal (auth : Auth) (part platform profile : Text)
  | full (auth : Auth) (part platform : Text) (includeDefaults : Bool)

def Lookup.run (identity : Text) (c : Cache) : Lookup → Except Refused Held
  | .minimal auth part platform profile =>
    if !snapshotProfile profile platform then .error .profile
    else match c.scopedSnapshot key auth identity part platform with
      | .error e => .error e
      | .ok held => if held.snapshot.profile ≠ profile then .error .scope else .ok held
  | .full auth part platform includeDefaults =>
    match c.scopedSnapshot key auth identity part platform with
    | .error e => .error e
    | .ok held =>
      if !snapshotProfile held.snapshot.profile platform then .error .profile
      else if held.snapshot.profile = minimalProfile ∨ held.snapshot.metadata = none ∨
          held.snapshot.includeDefaults ≠ includeDefaults then .error .captureOptions
      else .ok held

/-- arguments that `filter_arguments` has let through -/
structure Filtering where
  contains : Option Text
  context : Int
  valid : filterArguments contains context = true

/-- `filter_digest` -/
def filterDigest (identity needle : Text) (context : Int) : Text :=
  let points := fun t : Text => Json.Value.str (t.map Char.toNat)
  let value := Json.dumps (.arr [points identity, points needle, .int context])
  (Sha256.hmac key (Utf8.encode value)).flatMap fun b =>
    [Nat.digitChar (b.toNat / 16), Nat.digitChar (b.toNat % 16)]

/-- a snapshot is made ready for a view: one without the last one takes its place -/
def Cache.readyView (identity : Text) (held : Held) (needle fingerprint : Text) (offset : Int) (c : Cache) :
    Except Refused (Shown ⊕ Held × Text × Text) × Cache :=
  if offset ≠ 0 then (.error .viewExpired, c)
  else
    let baseline := { held.snapshot with filtered := none }
    (.ok (.inr (⟨c.objects, baseline⟩, needle, fingerprint)), c.put identity baseline)

/-- the first section of `filtered_snapshot` -/
def Cache.beginView (caller : Nat) (lookup : Lookup) (identity : Text) (f : Filtering) (offset : Int)
    (c : Cache) : Except Refused (Shown ⊕ Held × Text × Text) × Cache :=
  let c := c.look caller
  match lookup.run key identity c with
  | .error e => (.error e, c)
  | .ok held =>
    match f.contains with
    | none => (.ok (.inl (held.snapshot.text, 0, none)), c)
    | some needle =>
      let c := { c with digested := (identity, needle, f.context) :: c.digested }
      let fingerprint := filterDigest key identity needle f.context
      match held.snapshot.filtered with
      | some (digest, shown) =>
        if digest = fingerprint then (.ok (.inl shown), c)
        else c.readyView identity held needle fingerprint offset
      | none => c.readyView identity held needle fingerprint offset

/-- the second section of `filtered_snapshot` -/
def Cache.endView (identity : Text) (baseline : Held) (fingerprint : Text) (shown : Shown) (refused : Bool)
    (c : Cache) : Except Refused Unit × Cache :=
  if (Dict.get identity c.snapshots).map Held.object ≠ some baseline.object ∨
      expired c.clock baseline.snapshot then (.error .missing, c)
  else if refused then (.error .budget, c)
  else (.ok (), c.put identity { baseline.snapshot with filtered := some (fingerprint, shown) })

end

/-- `discard_snapshot` -/
def Cache.discard (identity : Text) (c : Cache) : Cache :=
  { c with snapshots := c.snapshots.filter fun x => x.1 ≠ identity }.prune

/-- the first section of `capture`: what was kept of the target with other limits goes -/
def Cache.beginCapture (target : Option Scope) (c : Cache) : Cache :=
  match target with
  | none => c.prune
  | some s =>
    { c with
      snapshots := c.snapshots.filter fun x =>
        ¬(x.2.snapshot.scope.target = s.target ∧ x.2.snapshot.scope ≠ s) }.prune

/-! ## the programs -/

/-- the sections, the look at the clock and at the differences, and what the memory allows -/
inductive Op where
  | monotonic
  | insert (s : Snapshot)
  | pair (auth : Auth) (base other platform : Text)
  | known (pair : Text × Text)
  | recall (pair : Text × Text)
  | remember (pair : Text × Text) (value : Compared)
  | memory
  | lookup (l : Lookup) (identity : Text)
  | beginView (l : Lookup) (identity : Text) (f : Filtering) (offset : Int)
  | endView (identity : Text) (baseline : Held) (fingerprint : Text) (shown : Shown)
  | discard (identity : Text)
  | beginCapture (target : Option Scope)

/-- what is not in the hands of the program: the clock, the identities, the memory -/
def Op.Ask : Op → Type
  | .insert _ => ℚ × List Text × Bool
  | .known _ | .recall _ | .remember _ _ => Unit
  | .memory => Budget
  | .endView _ _ _ _ => ℚ × Bool
  | _ => ℚ

def Op.Ans : Op → Type
  | .monotonic => ℚ
  | .insert _ => Option (Except Refused Text)
  | .pair _ _ _ _ => Except Refused (Held × Held)
  | .known _ => Bool
  | .recall _ => Option Compared
  | .remember _ _ | .discard _ | .beginCapture _ => Unit
  | .memory => Budget
  | .lookup _ _ => Except Refused Held
  | .beginView _ _ _ _ => Except Refused (Shown ⊕ Held × Text × Text)
  | .endView _ _ _ _ => Except Refused Unit

def sig : Sig := ⟨Op, Op.Ask, Op.Ans⟩

/-- what the caller with this number does to the cache -/
def machine (key : Bytes) (caller : Nat) : Machine sig Cache where
  exec
    | .monotonic, now, c => ((c.tick now).clock, c.tick now)
    | .insert s, (now, tokens, refused), c => (c.tick now).insert s tokens refused
    | .pair auth base other platform, now, c => (c.tick now).pair key caller auth base other platform
    | .known pair, _, c => (decide (pair ∈ Dict.keys c.diffs), c)
    | .recall pair, _, c => (Dict.get pair c.diffs, c)
    | .remember pair value, _, c => ((), { c with diffs := Dict.set pair value c.diffs })
    | .memory, budget, c => (budget, c)
    | .lookup l identity, now, c => (l.run key identity (c.tick now), (c.tick now).look caller)
    | .beginView l identity f offset, now, c => (c.tick now).beginView key caller l identity f offset
    | .endView identity baseline fingerprint shown, (now, refused), c =>
      (c.tick now).endView identity baseline fingerprint shown refused
    | .discard identity, now, c => ((), (c.tick now).discard identity)
    | .beginCapture target, now, c => ((), (c.tick now).beginCapture target)

inductive Result where
  | done
  | identity (i : Text)
  | snapshot (s : Snapshot)
  /-- a difference, and what is said of the two snapshots besides -/
  | difference (value : Compared) (captures : List (Text × List Text × Text × Bool × Option Metadata))
  | shown (s : Shown)

abbrev P := Prog sig Refused Result

/-- what `store` is called with -/
structure Storing where
  auth : Auth
  profile : Text
  capture : Capture (isMinimal profile)
  count : Nat
  part : Text
  firmware : List Text
  platform : Text
  includeDefaults : Bool
  metadata : Option Metadata

section
variable (key : Bytes)

def store (a : Storing) : P :=
  if !snapshotProfile a.profile a.platform then .raise .profile
  else if a.profile = minimalProfile ∧ (a.includeDefaults = true ∨ a.metadata ≠ none) then .raise .options
  else match captureMetadata a.metadata with
    | .error e => .raise e
    | .ok metadata =>
      if a.profile ≠ minimalProfile ∧ a.capture.hidden.records ≠ [] then .raise .records
      else .op Op.monotonic fun now : ℚ =>
        match scope key a.auth a.platform with
        | .error e => .raise e
        | .ok target =>
          .op (Op.insert ⟨target, a.profile, a.capture, now, a.count, a.part, a.firmware, a.includeDefaults,
            metadata, none⟩) fun
            | none => .stuck
            | some (.error e) => .raise e
            | some (.ok identity) => .ret (.identity identity)

/-- the snapshots say more of themselves where they are full ones -/
def captures (withMetadata : Bool) (left right : Snapshot) :
    List (Text × List Text × Text × Bool × Option Metadata) :=
  if withMetadata = true ∧ left.profile ≠ minimalProfile then [left.facts, right.facts] else []

def compare (auth : Auth) (base other platform : Text) (withMetadata : Bool) : P :=
  if !(isIdentity base && isIdentity other) then .raise .missing
  else .op (Op.pair auth base other platform) fun
    | .error e => .raise e
    | .ok (left, right) =>
      if h : left.snapshot.facts = right.snapshot.facts then
        .op (Op.known (base, other)) fun
          | true => .op (Op.recall (base, other)) fun
            | none => .raise .key
            | some value => .ret (.difference value (captures withMetadata left.snapshot right.snapshot))
          | false => .op Op.memory fun budget : Budget =>
            match left.snapshot.compareWith budget right.snapshot (congrArg (·.2.2.1) h) with
            | .error e => .raise (.content e)
            | .ok value => .op (Op.remember (base, other) value) fun _ =>
              .ret (.difference value (captures withMetadata left.snapshot right.snapshot))
      else .raise .mismatch

/-- `get_snapshot` and `get_full_snapshot` -/
def getSnapshot (l : Lookup) (identity : Text) : P :=
  .op (Op.lookup l identity) fun
    | .error e => .raise e
    | .ok held => .ret (.snapshot held.snapshot)

def filteredSnapshot (l : Lookup) (identity : Text) (f : Filtering) (offset : Int) : P :=
  .op (Op.beginView l identity f offset) fun
    | .error e => .raise e
    | .ok (.inl shown) => .ret (.shown shown)
    | .ok (.inr (baseline, needle, fingerprint)) => .op Op.memory fun budget : Budget =>
      match baseline.snapshot.view budget (some needle) f.context with
      | .error e => .raise (.content e)
      | .ok shown => .op (Op.endView identity baseline fingerprint shown) fun
        | .error e => .raise e
        | .ok _ => .ret (.shown shown)

def discardSnapshot (identity : Text) : P := .op (Op.discard identity) fun _ => .ret .done

def capture (target : Option Scope) : P := .op (Op.beginCapture target) fun _ => .ret .done

end

inductive Call where
  | store (a : Storing)
  | compare (auth : Auth) (base other platform : Text) (withMetadata : Bool)
  | getSnapshot (l : Lookup) (identity : Text)
  | filteredSnapshot (l : Lookup) (identity : Text) (f : Filtering) (offset : Int)
  | discardSnapshot (identity : Text)
  | capture (target : Option Scope)

def Call.prog (key : Bytes) : Call → P
  | .store a => Snapshots.store key a
  | .compare auth base other platform withMetadata =>
    Snapshots.compare auth base other platform withMetadata
  | .getSnapshot l identity => Snapshots.getSnapshot l identity
  | .filteredSnapshot l identity f offset => Snapshots.filteredSnapshot l identity f offset
  | .discardSnapshot identity => Snapshots.discardSnapshot identity
  | .capture target => Snapshots.capture target

/-- the cache and the calls that are being served -/
abbrev Callers := Sys sig Cache Refused Result Call

/-- what any calls can lead to; a call may be given up at any moment -/
abbrev Reachable (key : Bytes) (w : Callers) : Prop :=
  Sys.Reach (machine key) (fun _ c => c) (Call.prog key) Cache.start w

end Netops.Snapshots

import Mathlib.Data.List.Sort
import Mathlib.Data.Set.Function
import Netops.Fortios.Parse
import Netops.Lib.Dict
import Netops.Lib.Sha256
import Netops.Lib.Utf8

/-!
# The migration of the findings store (`store.py`, `findings.py` of the auditor)

Version 2 of the store has the tenant in the fingerprint of a finding.  `migrate` writes every finding and
every entry of the baseline anew, in one transaction, while the index over the baseline is in force.

* `fingerprintV1`, `fingerprintOf`   the old and the new fingerprint;
* `Database`       the tables as far as the migration reads them; keys and index are fields;
* `migrate`        the migration, each statement of which SQLite may refuse.
-/

namespace Netops.Migrate
open Netops.Fortios (Text strip)

/-! ## fingerprints -/

/-- `FINGERPRINT_SEPARATOR` -/
def separator : Char := '\x1f'

def checkedComponent (name : String) (value : Text) : Except String Text :=
  if separator ∈ value then .error (name ++ " holds U+001F, the separator of the finding fingerprint")
  else .ok value

/-- `FINGERPRINT_SEPARATOR.join` -/
def joined : List Text → Text
  | [] => []
  | [w] => w
  | w :: ws => w ++ separator :: joined ws

/-- the bytes that are hashed -/
def hashed (values : List Text) : List UInt8 := Utf8.encode (joined values)

/-- `_digest` -/
def digest (components : List (String × Text)) : Except String Text := do
  let values ← components.mapM fun c => checkedComponent c.1 c.2
  return Sha256.hexdigest (hashed values)

/-- `str(rule_version)` -/
def shownVersion (version : Int) : Text := (toString version).toList

def fingerprintOf (ruleId : Text) (ruleVersion : Int) (tenant device objectKey : Text) : Except String Text :=
  digest [("rule_id", ruleId), ("rule_version", shownVersion ruleVersion), ("tenant", tenant),
    ("device", device), ("object_key", objectKey)]

def fingerprintV1 (ruleId : Text) (ruleVersion : Int) (device objectKey : Text) : Except String Text :=
  digest [("rule_id", ruleId), ("rule_version", shownVersion ruleVersion), ("device", device),
    ("object_key", objectKey)]

/-! ## the tables -/

/-- a tenant that is not a text is `none` -/
structure RunRow where
  id : Int
  tenant : Option Text
  deriving DecidableEq

structure FindingRow where
  id : Int
  runId : Int
  fingerprint : Text
  ruleId : Text
  ruleVersion : Int
  device : Text
  objectKey : Text
  deriving DecidableEq

structure BaselineRow where
  id : Int
  tenant : Text
  device : Text
  fingerprint : Text
  deriving DecidableEq

/-- the columns of `baseline_tenant_device_fingerprint` -/
def BaselineRow.key (b : BaselineRow) : Text × Text × Text := (b.tenant, b.device, b.fingerprint)

structure Database where
  hasRuns : Bool
  userVersion : Int
  runs : List RunRow
  findings : List FindingRow
  baseline : List BaselineRow
  findings_ids : (findings.map FindingRow.id).Nodup
  baseline_ids : (baseline.map BaselineRow.id).Nodup
  baseline_unique : (baseline.map BaselineRow.key).Nodup

namespace Database

/-- the tenant of the run of a finding, in the left join -/
def tenantOf (db : Database) (f : FindingRow) : Option Text :=
  (db.runs.find? fun r => r.id = f.runId).bind RunRow.tenant

/-- `baseline_fingerprints` -/
def baselineFingerprints (db : Database) (tenant device : Text) : List Text :=
  (db.baseline.filter fun b => b.tenant = tenant ∧ b.device = device).map BaselineRow.fingerprint

/-- `schema_version` -/
def schemaVersion (db : Database) : Int :=
  if db.hasRuns = false then 0 else if db.userVersion = 0 then 1 else db.userVersion

/-- `UPDATE findings SET fingerprint = ? WHERE id = ?` -/
def setFinding (db : Database) (id : Int) (fresh : Text) : Database :=
  { db with
    findings := db.findings.map fun f => if f.id = id then { f with fingerprint := fresh } else f
    findings_ids := by
      rw [List.map_map]
      have hid : (FindingRow.id ∘ fun f : FindingRow =>
          if f.id = id then { f with fingerprint := fresh } else f) = FindingRow.id := by
        funext f
        show (if f.id = id then { f with fingerprint := fresh } else f).id = f.id
        split_ifs <;> rfl
      rw [hid]
      exact db.findings_ids }

/-- the rows of the baseline after an update -/
def updated (baseline : List BaselineRow) (id : Int) (fresh : Text) : List BaselineRow :=
  baseline.map fun b => if b.id = id then { b with fingerprint := fresh } else b

theorem updated_ids (baseline : List BaselineRow) (id : Int) (fresh : Text) :
    (updated baseline id fresh).map BaselineRow.id = baseline.map BaselineRow.id := by
  rw [updated, List.map_map]
  refine List.map_congr_left fun b _ => ?_
  show (if b.id = id then { b with fingerprint := fresh } else b).id = b.id
  split_ifs <;> rfl

/-- `UPDATE baseline SET fingerprint = ? WHERE id = ?`; refused where the index would hold a key twice -/
def setBaseline (db : Database) (id : Int) (fresh : Text) : Option Database :=
  if h : ((updated db.baseline id fresh).map BaselineRow.key).Nodup then
    some { db with
      baseline := updated db.baseline id fresh
      baseline_ids := by rw [updated_ids]; exact db.baseline_ids
      baseline_unique := h }
  else none

end Database

/-! ## the migration -/

/-- the tenant and the old fingerprint of a finding, with its new one -/
abbrev Mapping := List ((Text × Text) × Text)

/-- a `StoreError`, or an error of SQLite, which `migrate` turns into one -/
inductive Failure where
  | store (message : String)
  | sqlite (message : String)
  deriving DecidableEq

section
variable (refuses : Nat → Option String)

/-- the statement `n`, which SQLite may refuse -/
def statement (n : Nat) : Except Failure Unit :=
  match refuses n with
  | some e => .error (.sqlite e)
  | none => .ok ()

/-- the new fingerprint of a finding with the tenant of its run -/
def freshFingerprint (row : FindingRow) (tenant : Option Text) : Except Failure (Text × Text) :=
  let nobody := Failure.store ("finding " ++ toString row.id ++
    " belongs to no run that names a tenant, the store cannot be migrated")
  match tenant with
  | none => .error nobody
  | some tenant =>
    if strip tenant = [] then .error nobody
    else match fingerprintOf row.ruleId row.ruleVersion tenant row.device row.objectKey with
      | .error e => .error (.store ("finding " ++ toString row.id ++ " cannot be migrated: " ++ e))
      | .ok fresh => .ok (tenant, fresh)

/-- `_migrated_findings` -/
def migratedFindings (tenantOf : FindingRow → Option Text) :
    Nat → List FindingRow → Mapping → Database → Except Failure (Mapping × Database)
  | _, [], mapping, db => .ok (mapping, db)
  | n, row :: rows, mapping, db => do
    let (tenant, fresh) ← freshFingerprint row (tenantOf row)
    statement refuses n
    migratedFindings tenantOf (n + 1) rows (Dict.set (tenant, row.fingerprint) fresh mapping)
      (db.setFinding row.id fresh)

/-- the new fingerprint of an entry of the baseline -/
def mappedFingerprint (mapping : Mapping) (row : BaselineRow) : Except Failure Text :=
  match Dict.get (row.tenant, row.fingerprint) mapping with
  | none => .error (.store ("baseline entry " ++ toString row.id ++
      " names a fingerprint no finding of its tenant carries, the store cannot be migrated"))
  | some fresh => .ok fresh

def updateBaseline (db : Database) (id : Int) (fresh : Text) : Except Failure Database :=
  match db.setBaseline id fresh with
  | none => .error (.sqlite
      "UNIQUE constraint failed: baseline.tenant, baseline.device, baseline.fingerprint")
  | some db => .ok db

/-- `_migrated_baseline` -/
def migratedBaseline (mapping : Mapping) : Nat → List BaselineRow → Database → Except Failure Database
  | _, [], db => .ok db
  | n, row :: rows, db => do
    let fresh ← mappedFingerprint mapping row
    statement refuses n
    let db ← updateBaseline db row.id fresh
    migratedBaseline mapping (n + 1) rows db

/-- what is counted in the end -/
structure Counts where
  findings : Nat
  baseline : Nat
  deriving DecidableEq

/-- the transaction: the two loops over what is selected, each row with an update, and the version -/
def transaction (db : Database) : Except Failure (Counts × Database) := do
  let findings := db.findings.insertionSort fun a b => a.id ≤ b.id
  let baseline := db.baseline.insertionSort fun a b => a.id ≤ b.id
  statement refuses 0
  statement refuses 1
  let (mapping, migrated) ← migratedFindings refuses db.tenantOf 2 findings [] db
  statement refuses (findings.length + 2)
  let migrated ← migratedBaseline refuses mapping (findings.length + 3) baseline migrated
  statement refuses (findings.length + baseline.length + 3)
  statement refuses (findings.length + baseline.length + 4)
  return (⟨findings.length, baseline.length⟩, { migrated with userVersion := 2 })

/-- `migrate`; a transaction that fails is rolled back -/
def migrate (path : String) (db : Database) : Except String Counts × Database :=
  let version := db.schemaVersion
  if version = 0 then (.error ("store " ++ path ++ " holds no audit schema"), db)
  else if version = 2 then (.error ("store " ++ path ++ " already holds schema version 2"), db)
  else if version ≠ 1 then
    (.error ("store " ++ path ++ " holds schema version " ++ toString version ++
      ", the migration reads version 1"), db)
  else match transaction refuses db with
    | .error (.store e) => (.error e, db)
    | .error (.sqlite e) => (.error ("store " ++ path ++ " cannot be migrated: " ++ e), db)
    | .ok (counts, migrated) => (.ok counts, migrated)

end

/-! ## the fingerprint says what it is made of -/

theorem append_separator_inj {a b c d : Text} (ha : separator ∉ a) (hb : separator ∉ b)
    (h : a ++ separator :: c = b ++ separator :: d) : a = b ∧ c = d := by
  induction a generalizing b with
  | nil =>
    cases b with
    | nil => exact ⟨rfl, (List.cons.inj h).2⟩
    | cons x b => exact absurd (List.cons.inj h).1 fun e => hb (e ▸ List.mem_cons_self)
  | cons x a ih =>
    cases b with
    | nil => exact absurd (List.cons.inj h).1 fun e => ha (e ▸ List.mem_cons_self)
    | cons y b =>
      obtain ⟨rfl, hrest⟩ := List.cons.inj h
      obtain ⟨rfl, rfl⟩ := ih (fun hm => ha (List.mem_cons_of_mem _ hm))
        (fun hm => hb (List.mem_cons_of_mem _ hm)) hrest
      exact ⟨rfl, rfl⟩

theorem joined_inj {vs ws : List Text} (hv : ∀ v ∈ vs, separator ∉ v) (hw : ∀ w ∈ ws, separator ∉ w)
    (hlen : vs.length = ws.length) (h : joined vs = joined ws) : vs = ws := by
  induction vs generalizing ws with
  | nil => exact (List.length_eq_zero_iff.mp hlen.symm).symm
  | cons v vs ih =>
    obtain ⟨w, ws, rfl⟩ : ∃ w ws', ws = w :: ws' := by
      cases ws with
      | nil => exact absurd hlen (by simp)
      | cons w ws => exact ⟨w, ws, rfl⟩
    have hlen' : vs.length = ws.length := Nat.succ.inj hlen
    have hv' : ∀ x ∈ vs, separator ∉ x := fun x hx => hv x (List.mem_cons_of_mem _ hx)
    have hw' : ∀ x ∈ ws, separator ∉ x := fun x hx => hw x (List.mem_cons_of_mem _ hx)
    cases vs with
    | nil =>
      obtain rfl := List.length_eq_zero_iff.mp hlen'.symm
      exact congrArg (· :: []) h
    | cons v' vs =>
      cases ws with
      | nil => exact absurd hlen' (by simp)
      | cons w' ws =>
        obtain ⟨rfl, hrest⟩ :=
          append_separator_inj (hv v List.mem_cons_self) (hw w List.mem_cons_self) h
        rw [ih hv' hw' hlen' hrest]

theorem mapM_checked {components : List (String × Text)} {values : List Text}
    (h : components.mapM (fun c => checkedComponent c.1 c.2) = .ok values) :
    values = components.map Prod.snd ∧ ∀ v ∈ values, separator ∉ v := by
  induction components generalizing values with
  | nil =>
    obtain rfl := Except.ok.inj h
    exact ⟨rfl, fun v hv => absurd hv List.not_mem_nil⟩
  | cons c components ih =>
    rw [List.mapM_cons] at h
    unfold checkedComponent at h
    split_ifs at h with hc
    · exact nomatch h
    · cases hrest : components.mapM fun c => checkedComponent c.1 c.2 with
      | error e =>
        unfold checkedComponent at hrest
        rw [hrest] at h
        exact nomatch h
      | ok rest =>
        obtain ⟨hrest', hall⟩ := ih hrest
        unfold checkedComponent at hrest
        rw [hrest] at h
        obtain rfl := Except.ok.inj h
        refine ⟨by rw [List.map_cons, hrest'], fun v hv => ?_⟩
        rcases List.mem_cons.mp hv with rfl | hv
        · exact hc
        · exact hall v hv

theorem digest_ok {components : List (String × Text)} {fingerprint : Text}
    (h : digest components = .ok fingerprint) :
    fingerprint = Sha256.hexdigest (hashed (components.map Prod.snd)) ∧
      ∀ v ∈ components.map Prod.snd, separator ∉ v := by
  unfold digest at h
  cases hvalues : components.mapM fun c => checkedComponent c.1 c.2 with
  | error e =>
    rw [hvalues] at h
    exact nomatch h
  | ok values =>
    rw [hvalues] at h
    obtain ⟨rfl, hall⟩ := mapM_checked hvalues
    exact ⟨(Except.ok.inj h).symm, hall⟩

theorem hashed_inj {vs ws : List Text} (hv : ∀ v ∈ vs, separator ∉ v) (hw : ∀ w ∈ ws, separator ∉ w)
    (hlen : vs.length = ws.length) (h : hashed vs = hashed ws) : vs = ws := by
  refine joined_inj hv hw hlen ?_
  have hdecode := congrArg Utf8.decodeAll h
  rw [hashed, hashed, Utf8.decodeAll_encode, Utf8.decodeAll_encode] at hdecode
  exact Option.some.inj hdecode

/-! ## the loop over the findings -/

theorem ok_of_bind {ε α β : Type} {x : Except ε α} {f : α → Except ε β} {b : β}
    (h : (x >>= f) = .ok b) : ∃ a, x = .ok a ∧ f a = .ok b := by
  cases x with
  | error e => exact nomatch h
  | ok a => exact ⟨a, rfl, h⟩

theorem freshFingerprint_ok {row : FindingRow} {tenant? : Option Text} {tenant fresh : Text}
    (h : freshFingerprint row tenant? = .ok (tenant, fresh)) : tenant? = some tenant ∧
      fingerprintOf row.ruleId row.ruleVersion tenant row.device row.objectKey = .ok fresh := by
  unfold freshFingerprint at h
  dsimp only at h
  split at h
  · exact nomatch h
  · split_ifs at h
    split at h
    · exact nomatch h
    · rename_i hfresh
      obtain ⟨rfl, rfl⟩ := Prod.mk.inj (Except.ok.inj h)
      exact ⟨rfl, hfresh⟩

/-- the row with its new fingerprint -/
def newRow (db : Database) (f : FindingRow) : FindingRow :=
  match freshFingerprint f (db.tenantOf f) with
  | .ok (_, fresh) => { f with fingerprint := fresh }
  | .error _ => f

/-- after the findings `done` have been written -/
structure FindingsDone (db : Database) (done : List FindingRow) (mapping : Mapping) (cur : Database) :
    Prop where
  runs : cur.runs = db.runs
  baseline : cur.baseline = db.baseline
  rows : cur.findings = db.findings.map fun f => if f ∈ done then newRow db f else f
  fresh : ∀ f ∈ done, ∃ tenant x, freshFingerprint f (db.tenantOf f) = .ok (tenant, x) ∧
    (tenant, f.fingerprint) ∈ Dict.keys mapping
  source : ∀ key x, Dict.get key mapping = some x →
    ∃ f ∈ done, freshFingerprint f (db.tenantOf f) = .ok (key.1, x) ∧ f.fingerprint = key.2

section
variable {refuses : Nat → Option String} {db cur cur' : Database} {mapping mapping' : Mapping}

theorem mem_keys_set {K V : Type} [DecidableEq K] {key k : K} {value : V} {d : List (K × V)}
    (h : k = key ∨ k ∈ Dict.keys d) : k ∈ Dict.keys (Dict.set key value d) := by
  rcases h with rfl | h
  · have hget := Dict.get_set k k value d
    rw [if_pos rfl] at hget
    exact Dict.mem_keys (Dict.mem_of_get hget)
  · obtain ⟨v, hv⟩ := Dict.exists_get h
    by_cases hk : k = key
    · have hget := Dict.get_set key k value d
      rw [if_pos hk] at hget
      exact Dict.mem_keys (Dict.mem_of_get hget)
    · have hget := Dict.get_set key k value d
      rw [if_neg hk, hv] at hget
      exact Dict.mem_keys (Dict.mem_of_get hget)

/-- one finding -/
theorem FindingsDone.step {done : List FindingRow} {row : FindingRow} {tenant fresh : Text}
    (h : FindingsDone db done mapping cur) (hrow : row ∈ db.findings)
    (hfresh : freshFingerprint row (db.tenantOf row) = .ok (tenant, fresh)) :
    FindingsDone db (done ++ [row]) (Dict.set (tenant, row.fingerprint) fresh mapping)
      (cur.setFinding row.id fresh) := by
  refine ⟨h.runs, h.baseline, ?_, fun f hf => ?_, fun key x hx => ?_⟩
  · show cur.findings.map _ = _
    rw [h.rows, List.map_map]
    refine List.map_congr_left fun f hf => ?_
    have hnew : newRow db row = { row with fingerprint := fresh } := by rw [newRow, hfresh]
    have hid : ∀ g : FindingRow, (newRow db g).id = g.id := by
      intro g
      unfold newRow
      split <;> rfl
    by_cases hid' : f.id = row.id
    · obtain rfl : f = row := List.inj_on_of_nodup_map db.findings_ids hf hrow hid'
      have hmem : f ∈ done ++ [f] := List.mem_append_right _ List.mem_cons_self
      show (if (if f ∈ done then newRow db f else f).id = f.id then
        { (if f ∈ done then newRow db f else f) with fingerprint := fresh } else _) = _
      rw [if_pos hmem, hnew]
      split_ifs <;> rfl
    · have hne : (if f ∈ done then newRow db f else f).id ≠ row.id := by
        split_ifs
        · rw [hid]
          exact hid'
        · exact hid'
      have hmem : f ∈ done ++ [row] ↔ f ∈ done := by
        rw [List.mem_append, List.mem_singleton]
        exact or_iff_left fun e => hid' (congrArg _ e)
      show (if (if f ∈ done then newRow db f else f).id = row.id then _ else _) = _
      rw [if_neg hne]
      simp only [hmem]
  · rcases List.mem_append.mp hf with hf | hf
    · obtain ⟨t, x, hx, hkey⟩ := h.fresh f hf
      exact ⟨t, x, hx, mem_keys_set (.inr hkey)⟩
    · rw [List.mem_singleton.mp hf]
      exact ⟨tenant, fresh, hfresh, mem_keys_set (.inl rfl)⟩
  · rw [Dict.get_set] at hx
    split_ifs at hx with hkey
    · obtain rfl := Option.some.inj hx
      subst hkey
      exact ⟨row, List.mem_append_right _ List.mem_cons_self, hfresh, rfl⟩
    · obtain ⟨f, hf, hf'⟩ := h.source key x hx
      exact ⟨f, List.mem_append_left _ hf, hf'⟩

/-- all findings -/
theorem FindingsDone.run {n : Nat} {done rows : List FindingRow} (h : FindingsDone db done mapping cur)
    (hrows : ∀ f ∈ rows, f ∈ db.findings)
    (hrun : migratedFindings refuses db.tenantOf n rows mapping cur = .ok (mapping', cur')) :
    FindingsDone db (done ++ rows) mapping' cur' := by
  induction rows generalizing n done mapping cur with
  | nil =>
    obtain ⟨rfl, rfl⟩ := Prod.mk.inj (Except.ok.inj hrun)
    rwa [List.append_nil]
  | cons row rows ih =>
    obtain ⟨⟨tenant, fresh⟩, hfresh, hrun⟩ := ok_of_bind hrun
    obtain ⟨_, -, hrun⟩ := ok_of_bind hrun
    have hstep := h.step (hrows row List.mem_cons_self) hfresh
    rw [List.append_cons]
    exact ih hstep (fun f hf => hrows f (List.mem_cons_of_mem _ hf)) hrun

/-! ## the loop over the baseline -/

/-- the entry with its new fingerprint -/
def newEntry (mapping : Mapping) (b : BaselineRow) : BaselineRow :=
  { b with fingerprint := (Dict.get (b.tenant, b.fingerprint) mapping).getD b.fingerprint }

/-- after the entries `done` have been written -/
structure BaselineDone (db : Database) (mapping : Mapping) (done : List BaselineRow) (cur : Database) :
    Prop where
  runs : cur.runs = db.runs
  findings : cur.findings = db.findings
  rows : cur.baseline = db.baseline.map fun b => if b ∈ done then newEntry mapping b else b
  fresh : ∀ b ∈ done, ∃ x, Dict.get (b.tenant, b.fingerprint) mapping = some x

theorem setBaseline_some {id : Int} {fresh : Text} (h : cur.setBaseline id fresh = some cur') :
    cur'.runs = cur.runs ∧ cur'.findings = cur.findings ∧
      cur'.baseline = Database.updated cur.baseline id fresh := by
  unfold Database.setBaseline at h
  split_ifs at h
  obtain rfl := Option.some.inj h
  exact ⟨rfl, rfl, rfl⟩

/-- one entry -/
theorem BaselineDone.step {done : List BaselineRow} {row : BaselineRow} {fresh : Text}
    (h : BaselineDone db mapping done cur) (hrow : row ∈ db.baseline)
    (hfresh : Dict.get (row.tenant, row.fingerprint) mapping = some fresh)
    (hset : cur.setBaseline row.id fresh = some cur') :
    BaselineDone db mapping (done ++ [row]) cur' := by
  obtain ⟨hruns, hfindings, hbaseline⟩ := setBaseline_some hset
  refine ⟨hruns.trans h.runs, hfindings.trans h.findings, ?_, fun b hb => ?_⟩
  · rw [hbaseline, Database.updated, h.rows, List.map_map]
    refine List.map_congr_left fun b hb => ?_
    have hnew : newEntry mapping row = { row with fingerprint := fresh } := by
      rw [newEntry, hfresh]
      rfl
    by_cases hid : b.id = row.id
    · obtain rfl : b = row := List.inj_on_of_nodup_map db.baseline_ids hb hrow hid
      have hmem : b ∈ done ++ [b] := List.mem_append_right _ List.mem_cons_self
      show (if (if b ∈ done then newEntry mapping b else b).id = b.id then
        { (if b ∈ done then newEntry mapping b else b) with fingerprint := fresh } else _) = _
      rw [if_pos hmem, hnew]
      split_ifs <;> rfl
    · have hne : (if b ∈ done then newEntry mapping b else b).id ≠ row.id := by
        split_ifs <;> exact hid
      have hmem : b ∈ done ++ [row] ↔ b ∈ done := by
        rw [List.mem_append, List.mem_singleton]
        exact or_iff_left fun e => hid (congrArg _ e)
      show (if (if b ∈ done then newEntry mapping b else b).id = row.id then _ else _) = _
      rw [if_neg hne]
      simp only [hmem]
  · rcases List.mem_append.mp hb with hb | hb
    · exact h.fresh b hb
    · rw [List.mem_singleton.mp hb]
      exact ⟨fresh, hfresh⟩

/-- all entries -/
theorem BaselineDone.run {n : Nat} {done rows : List BaselineRow} (h : BaselineDone db mapping done cur)
    (hrows : ∀ b ∈ rows, b ∈ db.baseline)
    (hrun : migratedBaseline refuses mapping n rows cur = .ok cur') :
    BaselineDone db mapping (done ++ rows) cur' := by
  induction rows generalizing n done cur with
  | nil =>
    obtain rfl := Except.ok.inj hrun
    rwa [List.append_nil]
  | cons row rows ih =>
    obtain ⟨fresh, hfresh, hrun⟩ := ok_of_bind hrun
    obtain ⟨_, -, hrun⟩ := ok_of_bind hrun
    obtain ⟨next, hupdate, hrun⟩ := ok_of_bind hrun
    have hget : Dict.get (row.tenant, row.fingerprint) mapping = some fresh := by
      unfold mappedFingerprint at hfresh
      split at hfresh
      · cases hfresh
      · rename_i hget
        rw [hget, Except.ok.inj hfresh]
    have hset : cur.setBaseline row.id fresh = some next := by
      unfold updateBaseline at hupdate
      split at hupdate
      · cases hupdate
      · rename_i hset
        rw [hset, Except.ok.inj hupdate]
    rw [List.append_cons]
    exact ih (h.step (hrows row List.mem_cons_self) hget hset)
      (fun b hb => hrows b (List.mem_cons_of_mem _ hb)) hrun

/-! ## what the fingerprints say -/

/-- the components of the old and of the new fingerprint -/
def FindingRow.valuesV1 (f : FindingRow) : List Text :=
  [f.ruleId, shownVersion f.ruleVersion, f.device, f.objectKey]

def FindingRow.values (f : FindingRow) (tenant : Text) : List Text :=
  [f.ruleId, shownVersion f.ruleVersion, tenant, f.device, f.objectKey]

/-- all that is hashed for a store -/
def Database.hashes (db : Database) : List (List UInt8) :=
  db.findings.flatMap fun f =>
    hashed f.valuesV1 :: ((db.tenantOf f).map fun tenant => hashed (f.values tenant)).toList

/-- the stored fingerprints are those of the components -/
def Database.Stored (db : Database) : Prop :=
  ∀ f ∈ db.findings, fingerprintV1 f.ruleId f.ruleVersion f.device f.objectKey = .ok f.fingerprint

/-- SHA-256 has no collision among what is hashed for the store -/
def Database.CollisionFree (db : Database) : Prop := Set.InjOn Sha256.hexdigest {x | x ∈ db.hashes}

theorem mem_hashes_V1 {f : FindingRow} (hf : f ∈ db.findings) : hashed f.valuesV1 ∈ db.hashes :=
  List.mem_flatMap.mpr ⟨f, hf, List.mem_cons_self⟩

theorem mem_hashes {f : FindingRow} (hf : f ∈ db.findings) {tenant : Text}
    (ht : db.tenantOf f = some tenant) : hashed (f.values tenant) ∈ db.hashes := by
  refine List.mem_flatMap.mpr ⟨f, hf, List.mem_cons_of_mem _ ?_⟩
  rw [ht]
  exact List.mem_cons_self

section
variable {f g : FindingRow} {tenant tenant' x y : Text}

/-- findings with one old fingerprint have the same components -/
theorem values_of_fingerprint (hstored : db.Stored) (hfree : db.CollisionFree) (hf : f ∈ db.findings)
    (hg : g ∈ db.findings) (h : f.fingerprint = g.fingerprint) : f.valuesV1 = g.valuesV1 := by
  obtain ⟨hf1, hf2⟩ := digest_ok (hstored f hf)
  obtain ⟨hg1, hg2⟩ := digest_ok (hstored g hg)
  have hhash : hashed f.valuesV1 = hashed g.valuesV1 :=
    hfree (mem_hashes_V1 hf) (mem_hashes_V1 hg) (hf1.symm.trans (h.trans hg1))
  exact hashed_inj hf2 hg2 rfl hhash

/-- findings with one new fingerprint have the same components and tenants -/
theorem values_of_fresh (hfree : db.CollisionFree) (hf : f ∈ db.findings) (hg : g ∈ db.findings)
    (hx : freshFingerprint f (db.tenantOf f) = .ok (tenant, x))
    (hy : freshFingerprint g (db.tenantOf g) = .ok (tenant', y)) (h : x = y) :
    f.values tenant = g.values tenant' := by
  obtain ⟨htf, hfx⟩ := freshFingerprint_ok hx
  obtain ⟨htg, hgy⟩ := freshFingerprint_ok hy
  obtain ⟨hf1, hf2⟩ := digest_ok hfx
  obtain ⟨hg1, hg2⟩ := digest_ok hgy
  have hhash : hashed (f.values tenant) = hashed (g.values tenant') :=
    hfree (mem_hashes hf htf) (mem_hashes hg htg) (hf1.symm.trans (h.trans hg1))
  exact hashed_inj hf2 hg2 rfl hhash

theorem valuesV1_iff : f.valuesV1 = g.valuesV1 ↔ f.values tenant = g.values tenant := by
  simp [FindingRow.valuesV1, FindingRow.values]

theorem values_tenant (h : f.values tenant = g.values tenant') : tenant = tenant' := by
  simp only [FindingRow.values, List.cons.injEq] at h
  exact h.2.2.1

theorem fresh_eq (hx : freshFingerprint f (db.tenantOf f) = .ok (tenant, x))
    (hy : freshFingerprint g (db.tenantOf g) = .ok (tenant, y)) (h : f.values tenant = g.values tenant) :
    x = y := by
  obtain ⟨hf1, -⟩ := digest_ok (freshFingerprint_ok hx).2
  obtain ⟨hg1, -⟩ := digest_ok (freshFingerprint_ok hy).2
  have hvalues : hashed (f.values tenant) = hashed (g.values tenant) := congrArg _ h
  rw [hf1, hg1]
  exact congrArg Sha256.hexdigest hvalues

/-- the mapping leads from the old fingerprint of a finding to its new one, and from no other -/
theorem FindingsDone.get_iff {all : List FindingRow} (h : FindingsDone db all mapping cur)
    (hall : ∀ g, g ∈ all ↔ g ∈ db.findings) (hstored : db.Stored) (hfree : db.CollisionFree)
    (hf : f ∈ db.findings) (hx : freshFingerprint f (db.tenantOf f) = .ok (tenant, x)) (old : Text) :
    Dict.get (tenant, old) mapping = some x ↔ old = f.fingerprint := by
  constructor
  · intro hget
    obtain ⟨g, hg, hgx, hgold⟩ := h.source _ x hget
    have hvalues := values_of_fresh hfree hf ((hall g).mp hg) hx hgx rfl
    have hvalues1 := valuesV1_iff.mpr hvalues
    obtain ⟨hf1, -⟩ := digest_ok (hstored f hf)
    obtain ⟨hg1, -⟩ := digest_ok (hstored g ((hall g).mp hg))
    have hsame : hashed f.valuesV1 = hashed g.valuesV1 := congrArg _ hvalues1
    have hold : old = g.fingerprint := hgold.symm
    rw [hold, hf1, hg1]
    exact congrArg Sha256.hexdigest hsame.symm
  · rintro rfl
    obtain ⟨t, x', hx', hkey⟩ := h.fresh f ((hall f).mpr hf)
    obtain ⟨rfl, rfl⟩ := Prod.mk.inj (Except.ok.inj (hx.symm.trans hx'))
    obtain ⟨y, hy⟩ := Dict.exists_get hkey
    obtain ⟨g, hg, hgy, hgold⟩ := h.source _ y hy
    have hvalues1 := values_of_fingerprint hstored hfree hf ((hall g).mp hg) hgold.symm
    rw [hy, fresh_eq hx hgy (valuesV1_iff.mp hvalues1)]

end

/-! ## the whole migration -/

/-- What the store is afterwards.  A finding has the fingerprint with the tenant of its run, and it is in
the baseline of its tenant for the devices for which it was there before; the entries are the same ones. -/
structure Migrated (db db' : Database) : Prop where
  version : db'.userVersion = 2
  runs : db'.runs = db.runs
  findings : List.Forall₂ (fun f f' => f' = { f with fingerprint := f'.fingerprint } ∧
    ∃ tenant, db.tenantOf f = some tenant ∧
      fingerprintOf f.ruleId f.ruleVersion tenant f.device f.objectKey = .ok f'.fingerprint ∧
      ∀ device, f'.fingerprint ∈ db'.baselineFingerprints tenant device ↔
        f.fingerprint ∈ db.baselineFingerprints tenant device) db.findings db'.findings
  baseline : List.Forall₂ (fun b b' => b' = { b with fingerprint := b'.fingerprint })
    db.baseline db'.baseline

/-- a transaction that succeeds has gone through both loops -/
theorem transaction_ok {counts : Counts} {db' : Database}
    (h : transaction refuses db = .ok (counts, db')) : ∃ mapping all mid,
      FindingsDone db all mapping mid ∧ (∀ f, f ∈ all ↔ f ∈ db.findings) ∧
      db'.userVersion = 2 ∧ db'.runs = db.runs ∧ db'.findings = db.findings.map (newRow db) ∧
      db'.baseline = db.baseline.map (newEntry mapping) ∧
      ∀ b ∈ db.baseline, ∃ x, Dict.get (b.tenant, b.fingerprint) mapping = some x := by
  have hfindings : ∀ f, f ∈ (db.findings.insertionSort fun a b => a.id ≤ b.id) ↔ f ∈ db.findings :=
    fun f => List.mem_insertionSort _
  have hbaseline : ∀ b, b ∈ (db.baseline.insertionSort fun a b => a.id ≤ b.id) ↔ b ∈ db.baseline :=
    fun b => List.mem_insertionSort _
  have hstart : FindingsDone db [] [] db := by
    refine ⟨rfl, rfl, ?_, fun f hf => absurd hf List.not_mem_nil, fun key x hx => ?_⟩
    · simp
    · exact nomatch hx
  unfold transaction at h
  obtain ⟨_, -, h⟩ := ok_of_bind h
  obtain ⟨_, -, h⟩ := ok_of_bind h
  obtain ⟨⟨mapping, mid⟩, hrun1, h⟩ := ok_of_bind h
  obtain ⟨_, -, h⟩ := ok_of_bind h
  obtain ⟨last, hrun2, h⟩ := ok_of_bind h
  obtain ⟨_, -, h⟩ := ok_of_bind h
  obtain ⟨_, -, h⟩ := ok_of_bind h
  obtain ⟨-, rfl⟩ := Prod.mk.inj (Except.ok.inj h)
  have hdone1 := hstart.run (fun f hf => (hfindings f).mp hf) hrun1
  have hstart2 : BaselineDone mid mapping [] mid :=
    ⟨rfl, rfl, by simp, fun b hb => absurd hb List.not_mem_nil⟩
  have hmid : ∀ b, b ∈ mid.baseline ↔ b ∈ db.baseline := fun b => by rw [hdone1.baseline]
  have hdone2 := hstart2.run (fun b hb => (hmid b).mpr ((hbaseline b).mp hb)) hrun2
  rw [List.nil_append] at hdone1 hdone2
  refine ⟨mapping, _, mid, hdone1, hfindings, rfl, hdone2.runs.trans hdone1.runs, ?_, ?_, fun b hb => ?_⟩
  · show last.findings = _
    rw [hdone2.findings, hdone1.rows]
    exact List.map_congr_left fun f hf => if_pos ((hfindings f).mpr hf)
  · show last.baseline = _
    rw [hdone2.rows, hdone1.baseline]
    exact List.map_congr_left fun b hb => if_pos ((hbaseline b).mpr hb)
  · exact hdone2.fresh b ((hbaseline b).mpr hb)

/-- a finding is in the new baseline of its tenant where it was in the old one -/
theorem mem_baselineFingerprints {db' : Database} {mapping : Mapping} {all : List FindingRow}
    {mid : Database} (h : FindingsDone db all mapping mid) (hall : ∀ g, g ∈ all ↔ g ∈ db.findings)
    (hstored : db.Stored) (hfree : db.CollisionFree)
    (hbaseline : db'.baseline = db.baseline.map (newEntry mapping))
    (hmapped : ∀ b ∈ db.baseline, ∃ x, Dict.get (b.tenant, b.fingerprint) mapping = some x)
    {f : FindingRow} (hf : f ∈ db.findings) {tenant x : Text}
    (hx : freshFingerprint f (db.tenantOf f) = .ok (tenant, x)) (device : Text) :
    x ∈ db'.baselineFingerprints tenant device ↔
      f.fingerprint ∈ db.baselineFingerprints tenant device := by
  have hnew : ∀ b ∈ db.baseline, b.tenant = tenant →
      ((newEntry mapping b).fingerprint = x ↔ b.fingerprint = f.fingerprint) := by
    rintro b hb rfl
    obtain ⟨y, hy⟩ := hmapped b hb
    rw [← h.get_iff hall hstored hfree hf hx, hy, newEntry, hy]
    exact (Option.some_inj).symm
  simp only [Database.baselineFingerprints, List.mem_map, List.mem_filter, decide_eq_true_eq, hbaseline]
  constructor
  · rintro ⟨b', ⟨⟨b, hb, rfl⟩, ht, hd⟩, hfp⟩
    exact ⟨b, ⟨hb, ht, hd⟩, (hnew b hb ht).mp hfp⟩
  · rintro ⟨b, ⟨hb, ht, hd⟩, hfp⟩
    exact ⟨newEntry mapping b, ⟨⟨b, hb, rfl⟩, ht, hd⟩, (hnew b hb ht).mpr hfp⟩

theorem transaction_migrated (hstored : db.Stored) (hfree : db.CollisionFree) {counts : Counts}
    {db' : Database} (h : transaction refuses db = .ok (counts, db')) : Migrated db db' := by
  obtain ⟨mapping, all, mid, hdone, hall, hversion, hruns, hfindings, hbaseline, hmapped⟩ :=
    transaction_ok h
  refine ⟨hversion, hruns, ?_, ?_⟩
  · rw [hfindings, List.forall₂_map_right_iff, List.forall₂_same]
    intro f hf
    obtain ⟨tenant, x, hx, -⟩ := hdone.fresh f ((hall f).mpr hf)
    have hrow : newRow db f = { f with fingerprint := x } := by rw [newRow, hx]
    obtain ⟨htenant, hfresh⟩ := freshFingerprint_ok hx
    rw [hrow]
    exact ⟨rfl, tenant, htenant, hfresh,
      mem_baselineFingerprints hdone hall hstored hfree hbaseline hmapped hf hx⟩
  · rw [hbaseline, List.forall₂_map_right_iff, List.forall₂_same]
    exact fun b _ => rfl

end

/-- **The migration keeps the meaning of the store.**  It fails and changes nothing, or every finding has its
new fingerprint and stands in the baseline of its tenant as before. -/
theorem migrate_preserves (refuses : Nat → Option String) (path : String) (db : Database)
    (hstored : db.Stored) (hfree : db.CollisionFree) :
    (∃ e, migrate refuses path db = (.error e, db)) ∨
      ∃ counts db', migrate refuses path db = (.ok counts, db') ∧ Migrated db db' := by
  unfold migrate
  dsimp only
  split_ifs with h0 h2 h1
  · exact .inl ⟨_, rfl⟩
  · exact .inl ⟨_, rfl⟩
  · exact .inl ⟨_, rfl⟩
  · cases htransaction : transaction refuses db with
    | error e =>
      cases e with
      | store e => exact .inl ⟨_, rfl⟩
      | sqlite e => exact .inl ⟨_, rfl⟩
    | ok result =>
      obtain ⟨counts, db'⟩ := result
      exact .inr ⟨counts, db', rfl, transaction_migrated hstored hfree htransaction⟩

/-- a finding of the tenant of the run -/
def sampleFinding (id runId : Int) : FindingRow where
  id := id
  runId := runId
  fingerprint := Sha256.hexdigest (hashed ["r".toList, "1".toList, "d".toList, "k".toList])
  ruleId := "r".toList
  ruleVersion := 1
  device := "d".toList
  objectKey := "k".toList

/-- two tenants with the same finding, which one of them has accepted -/
def twoTenants : Database where
  hasRuns := true
  userVersion := 0
  runs := [⟨1, some "a".toList⟩, ⟨2, some "b".toList⟩]
  findings := [sampleFinding 1 1, sampleFinding 2 2]
  baseline := [⟨1, "b".toList, "d".toList, (sampleFinding 2 2).fingerprint⟩]
  findings_ids := by decide
  baseline_ids := by decide
  baseline_unique := List.nodup_singleton _

theorem stored_twoTenants : twoTenants.Stored := by
  unfold Database.Stored
  decide +kernel

theorem collisionFree_twoTenants : twoTenants.CollisionFree := by
  have hall : ∀ x ∈ twoTenants.hashes, ∀ y ∈ twoTenants.hashes,
      Sha256.hexdigest x = Sha256.hexdigest y → x = y := by decide +kernel
  exact fun x hx y hy h => hall x hx y hy h

theorem migrate_preserves_twoTenants :
    (∃ e, migrate (fun _ => none) "findings.db" twoTenants = (.error e, twoTenants)) ∨
      ∃ counts db', migrate (fun _ => none) "findings.db" twoTenants = (.ok counts, db') ∧
        Migrated twoTenants db' :=
  migrate_preserves _ _ twoTenants stored_twoTenants collisionFree_twoTenants

/-- before, the finding of the one tenant is in the baseline of the other; afterwards it is not -/
theorem migrate_other_tenant : twoTenants.Stored ∧ twoTenants.CollisionFree ∧
    (migrate (fun _ => none) "findings.db" twoTenants).1 = .ok ⟨2, 1⟩ ∧
    (sampleFinding 1 1).fingerprint ∈ twoTenants.baselineFingerprints "b".toList "d".toList ∧
    ∃ f ∈ (migrate (fun _ => none) "findings.db" twoTenants).2.findings, f.id = 1 ∧
      f.fingerprint ∉ (migrate (fun _ => none) "findings.db" twoTenants).2.baselineFingerprints
        "b".toList "d".toList := by
  refine ⟨stored_twoTenants, collisionFree_twoTenants, ?_, ?_, ?_⟩
  · decide +kernel
  · decide +kernel
  · decide +kernel

end Netops.Migrate

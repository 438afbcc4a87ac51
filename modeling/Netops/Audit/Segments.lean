import Mathlib.Algebra.Ring.Nat
import Netops.Lib.Json
import Netops.Lib.Sha256
import Netops.Lib.Utf8

/-!
# The local audit log (`audit.py` of the gateway)

An event is one line of JSON at the end of `current.jsonl`; a full segment is renamed after the time.
A write may be cut: the process dies, or the disk is full.  From then on the last record has no end,
and every further append is refused until an operator runs `recover`.

* `append`         `Audit._append` in local mode;
* `splitRecords`   the complete records of a segment, and what is left;
* `recover`        moves what is left to a file of its own and cuts it off.

Times are nanoseconds.  A rotated segment is known by the time in its name.
-/

namespace Netops.Audit

abbrev Bytes := List UInt8

def maxMessage : Nat := 4 * 1024 * 1024
def segmentReadLimit : Nat := 33554432
def lineEnd : UInt8 := 10

/-- `audit_limits` -/
structure Limits where
  budget : Nat
  segmentSize : Nat
  retentionSeconds : Nat
  budget_ge : maxMessage * 4 ≤ budget
  segment_ge : maxMessage ≤ segmentSize
  segment_le : segmentSize ≤ budget
  retention_pos : 0 < retentionSeconds

/-! ## records -/

/-- the bytes of an event, without the end of the line -/
def record (event : Json.Value) : Bytes := Utf8.encode (Json.dumpsRaw event)

def line (event : Json.Value) : Bytes := record event ++ [lineEnd]

/-- `json.dumps(..).encode()` and the end of the line; `none` where one of the two raises: a number
that is not finite or has too many digits, half of a surrogate pair, too many levels -/
def encode (depth : Nat) (event : Json.Value) : Option Bytes :=
  if event.Printable depth then some (line event) else none

/-- `bytes.splitlines`; `cr` after a carriage return -/
def splitLinesFrom : Bool → Bytes → List Bytes
  | _, [] => []
  | cr, b :: bs =>
    if b = 10 then if cr then splitLinesFrom false bs else [] :: splitLinesFrom false bs
    else if b = 13 then [] :: splitLinesFrom true bs
    else
      match splitLinesFrom false bs with
      | [] => [[b]]
      | l :: ls => (b :: l) :: ls

/-- `split_records`: cut after the last end of a line -/
def splitRecords (raw : Bytes) : List Bytes × Bytes :=
  let fragment := (raw.reverse.takeWhile (· ≠ lineEnd)).reverse
  (splitLinesFrom false (raw.take (raw.length - fragment.length)), fragment)

/-- `incomplete_tail` -/
def incompleteTail (data : Bytes) : Bool := !data.isEmpty && data.getLast? ≠ some lineEnd

/-- `json.loads` of a line in UTF-8 -/
def loadsLine (depth : Nat) (raw : Bytes) : Option Json.Value :=
  (Utf8.decodeAll raw).bind (Json.loads depth)

/-! ## the directory -/

structure Segment where
  stamp : Nat
  data : Bytes
  modified : Nat
  deriving DecidableEq, Repr

inductive SegmentName where
  | rotated (stamp : Nat)
  | current
  deriving DecidableEq, Repr

def SegmentName.stem : SegmentName → String
  | .rotated stamp => toString stamp
  | .current => "current"

def SegmentName.text (name : SegmentName) : String := name.stem ++ ".jsonl"

/-- a file of torn bytes -/
structure Quarantined where
  segment : SegmentName
  stamp : Nat
  data : Bytes
  deriving DecidableEq, Repr

def Quarantined.text (q : Quarantined) : String :=
  "incomplete-" ++ q.segment.stem ++ "-" ++ toString q.stamp ++ ".partial"

/-- `current` with the time it was last written -/
structure Directory where
  rotated : List Segment
  current : Option (Bytes × Nat)
  quarantine : List Quarantined
  deriving DecidableEq, Repr

namespace Directory

/-- the bytes of `current.jsonl` -/
def content (d : Directory) : Bytes := (d.current.map Prod.fst).getD []

/-- the bytes of all segments -/
def size (d : Directory) : Nat := (d.rotated.map (·.data.length)).sum + d.content.length

end Directory

/-! ## appending -/

/-- what the clock shows during an append -/
structure Clock where
  now : Nat
  stamp : Nat
  modified : Nat

/-- how far an append gets: to its end, not even to opening the segment, or to some bytes -/
inductive Fate where
  | done
  | beforeOpen
  | cut (bytes : Nat)
  deriving DecidableEq, Repr

/-- `unwritten`: the process died or the system refused the write -/
inductive Failure where
  | unavailable (message : String)
  | unencodable
  | unwritten
  deriving DecidableEq, Repr

/-- `written` counts the bytes of the event that reached the segment -/
structure Outcome where
  result : Except Failure Unit
  directory : Directory
  written : Nat

def expire (limits : Limits) (now : Nat) (d : Directory) : Directory :=
  { d with
    rotated := d.rotated.filter fun s => now ≤ s.modified + limits.retentionSeconds * 1000000000 }

/-- a segment of the same name is replaced -/
def rotate (limits : Limits) (stamp size : Nat) (d : Directory) : Directory :=
  match d.current with
  | none => d
  | some (data, modified) =>
    if limits.segmentSize < data.length + size then
      { d with
        rotated := d.rotated.filter (·.stamp ≠ stamp) ++ [⟨stamp, data, modified⟩]
        current := none }
    else d

/-- the segment that is removed first -/
def oldest (segments : List Segment) : Option Segment :=
  (segments.insertionSort fun a b =>
    a.modified < b.modified ∨ a.modified = b.modified ∧ a.stamp ≤ b.stamp).head?

/-- the loop over the budget; it removes at most all rotated segments -/
def makeRoom (limits : Limits) (size : Nat) : Nat → Directory → Bool × Directory
  | 0, d => (d.size + size ≤ limits.budget, d)
  | n+1, d =>
    if d.size + size ≤ limits.budget then (true, d)
    else
      match oldest d.rotated with
      | none => (false, d)
      | some s => makeRoom limits size n { d with rotated := d.rotated.erase s }

def incompleteMessage : String := "Incomplete prior audit write requires operator recovery"

/-- the write itself -/
def writeRecord (clock : Clock) (fate : Fate) (encoded : Bytes) (d : Directory) : Outcome :=
  let put (bytes : Bytes) : Directory :=
    { d with current := some (d.content ++ bytes,
        if bytes = [] then (d.current.map Prod.snd).getD clock.modified else clock.modified) }
  match fate with
  | .beforeOpen => ⟨.error .unwritten, d, 0⟩
  | .cut n =>
    if incompleteTail d.content then ⟨.error (.unavailable incompleteMessage), d, 0⟩
    else ⟨.error .unwritten, put (encoded.take n), (encoded.take n).length⟩
  | .done =>
    if incompleteTail d.content then ⟨.error (.unavailable incompleteMessage), d, 0⟩
    else ⟨.ok (), put encoded, encoded.length⟩

/-- `Audit._append` in local mode -/
def append (limits : Limits) (depth : Nat) (clock : Clock) (fate : Fate) (event : Json.Value)
    (d : Directory) : Outcome :=
  match encode depth event with
  | none => ⟨.error .unencodable, d, 0⟩
  | some encoded =>
    if maxMessage * 2 < encoded.length then
      ⟨.error (.unavailable "Audit record exceeds the supported message size"), d, 0⟩
    else
      let d := expire limits clock.now d
      if incompleteTail d.content then ⟨.error (.unavailable incompleteMessage), d, 0⟩
      else
        let d := rotate limits clock.stamp encoded.length d
        let (fits, d) := makeRoom limits encoded.length d.rotated.length d
        if fits then writeRecord clock fate encoded d
        else ⟨.error (.unavailable "Audit budget exhausted"), d, 0⟩

/-! ## recovery -/

inductive RecoverFailure where
  | fileSize
  | invalidJson (segment : SegmentName)
  | quarantineExists
  deriving DecidableEq, Repr

structure Recovered where
  segment : String
  bytes : Nat
  sha256 : List Char
  quarantine : String
  deriving DecidableEq, Repr

/-- `sorted(directory.glob("*.jsonl"))` -/
def Directory.segments (d : Directory) : List (SegmentName × Bytes) :=
  ((d.rotated.map fun s => (s.stamp, s.data)).insertionSort
      fun a b => toString a.1 ≤ toString b.1).map (fun s => (SegmentName.rotated s.1, s.2))
    ++ d.current.toList.map fun c => (SegmentName.current, c.1)

/-- what is to be cut off a segment -/
def planSegment (depth : Nat) (segment : SegmentName × Bytes) :
    Except RecoverFailure (Option (SegmentName × Bytes)) :=
  if segmentReadLimit < segment.2.length then .error .fileSize
  else
    let (lines, fragment) := splitRecords segment.2
    if lines.any fun l => (loadsLine depth l).isNone then .error (.invalidJson segment.1)
    else .ok (if fragment = [] then none else some (segment.1, fragment))

/-- `os.ftruncate` -/
def Directory.truncate (d : Directory) (segment : SegmentName) (bytes : Nat) (now : Nat) : Directory :=
  match segment with
  | .current => { d with current := d.current.map fun c => (c.1.take (c.1.length - bytes), now) }
  | .rotated stamp =>
    { d with
      rotated := d.rotated.map fun s =>
        if s.stamp = stamp then { s with data := s.data.take (s.data.length - bytes), modified := now }
        else s }

/-- the steps of the plan, each with what the clock shows -/
def runPlan : (Nat → Nat) → List (SegmentName × Bytes) → Directory →
    Except RecoverFailure (List Recovered) × Directory
  | _, [], d => (.ok [], d)
  | clock, (segment, fragment) :: plan, d =>
    let q : Quarantined := ⟨segment, clock 0, fragment⟩
    if d.quarantine.any fun p => p.segment = segment && p.stamp = q.stamp then
      (.error .quarantineExists, d)
    else
      let d := { d.truncate segment fragment.length q.stamp with quarantine := d.quarantine ++ [q] }
      let result : Recovered := ⟨segment.text, fragment.length, Sha256.hexdigest fragment, q.text⟩
      match runPlan (fun i => clock (i + 1)) plan d with
      | (.ok results, d) => (.ok (result :: results), d)
      | (.error e, d) => (.error e, d)

/-- `recover`; `clock` shows a time for every segment -/
def recover (depth : Nat) (clock : Nat → Nat) (d : Directory) :
    Except RecoverFailure (List Recovered) × Directory :=
  match d.segments.mapM (planSegment depth) with
  | .error e => (.error e, d)
  | .ok plan => runPlan clock (plan.filterMap id) d

end Netops.Audit

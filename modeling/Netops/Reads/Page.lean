import Mathlib.Algebra.Order.Ring.Rat
import Mathlib.Data.List.MinMax
import Netops.Lib.Dict
import Netops.Lib.Prog
import Netops.Lib.Sha256
import Netops.Reads.Dhcp

/-!
# Pages of a read (`engine.py`, `ssh_read`)

A read at offset 0 asks the device; where the text does not fit in a page, it is kept for the pages after
it, under the query and the digest of the text.  A later page is cut from what was kept, and the last one
drops it.  The cache is shared by all reads; `load`, `store` and `pop` hold its lock.

A request has passed `_ssh_read_state`, and the device answers with what `redact` leaves of its text.
`catalogue` stands for `READ_QUERIES` and says which queries may have an empty answer.
-/

namespace Netops.Reads

open Regex Patterns Effect
open Netops.Fortios (Text isSpace)

inductive Platform where
  | linux | fortinet | extremeExos | ciscoIos | ciscoXe | ciscoNxos | aristaEos | juniperJunos
  | juniperJunosEls | ruckusUnleashed | fortiadc
  deriving DecidableEq

/-! ## refusals of the device -/

def notEnd : Regex Char := noneIn "\r\n"

def fortinetRefusal : Regex Char :=
  oneOf [.seq (anyCase "Command fail.")
      (maybe (sequence [gap, anyCase "Return code", gap, maybe (lit "-"), plus digit])),
    .seq (anyCase "command parse error before") (.star notEnd),
    sequence [anyCase "Unknown action", gap, plus digit],
    .seq (maybe (.seq (lit "%") gap)) (anyCase "Inbound soft reconfiguration not enabled")]

def fortiadcRefusal : Regex Char :=
  sequence [lit "Command fail. Return code is ", maybe (oneIn "+-"), plus digit, lit " (",
    .alt (plus (noneIn "()\r\n")) (lit "(null)"), lit ")"]

def exosRefusal : Regex Char :=
  oneOf [anyCase "This user does not have permissions for this command.",
    anyCase "Method is not implemented on this platform.",
    sequence [lit "%%", gap, oneOf [anyCase "Invalid input detected", anyCase "Unrecognized command",
      anyCase "Incomplete command", anyCase "Ambiguous command"], .star notEnd]]

/-- `_CISCO_AUTOCOMMAND_REFUSAL` -/
def ciscoRefusal : Regex Char :=
  sequence [lit "Line has invalid autocommand \"", .star (noneIn "\"\r\n"), lit "\""]

def aristaRefusal : Regex Char :=
  sequence [lit "% Invalid input", maybe (sequence [lit " (", .star (noneIn ")\r\n"), lit ")"]),
    lit " at line ", plus digit]

/-- `_JUNOS_REFUSAL` -/
def junosRefusal : Regex Char :=
  .seq (lit "error: ") (oneOf [
    .seq (lit "syntax error, expecting <command>: ") (.star notEnd),
    .seq (lit "unknown command: ") (.star notEnd),
    .seq (lit "permission denied: ") (.star notEnd),
    sequence [lit "the ", plus (.char fun c => isLower c || ('0' ≤ c && c ≤ '9') || c = '-'),
      lit " subsystem is not running"]])

def nxosRefusal : Regex Char :=
  .alt (sequence [lit "Syntax error while parsing '", .star (noneIn "'\r\n"), lit "'"])
    (lit "% Permission denied for the role")

/-- `_CLI_REFUSALS` -/
def cliRefusal : Platform → Option (Regex Char)
  | .fortinet => some fortinetRefusal
  | .fortiadc => some fortiadcRefusal
  | .extremeExos => some exosRefusal
  | .ciscoIos | .ciscoXe => some ciscoRefusal
  | .aristaEos => some aristaRefusal
  | .juniperJunos | .juniperJunosEls => some junosRefusal
  | .ciscoNxos => some nxosRefusal
  | .linux | .ruckusUnleashed => none

/-- `_cli_refused` -/
def cliRefused (platform : Platform) (output : Text) : Bool :=
  match cliRefusal platform with
  | none => false
  | some r => occursIn (wholeLine (.seq blanks r)) output

/-- `MCLAG_QUERIES` -/
def mclagQueries : List Text :=
  ["switch_mclag_icl", "switch_trunk_status", "switch_mclag_consistency"].map String.toList

/-- `switch_mclag.not_supported` -/
def mclagNotSupported (query text : Text) : Bool :=
  query ∈ mclagQueries && occursIn (wholeLine (sequence [lit "switch:S",
    between (.char fun c => isUpper c || ('0' ≤ c && c ≤ '9')) 11 15,
    lit " does not support MCLAG feature!"])) text

/-- `lookup_route_failed` -/
def lookupRouteFailed (platform : Platform) (query text : Text) : Bool :=
  platform = .fortinet && (query = "policy_lookup_ipv4".toList || query = "policy_lookup_ipv6".toList) &&
    occursIn (wholeLine (.seq blanks (lit "Error code: err_route"))) text

/-! ## pages -/

inductive Refused where
  | offset | maxBytes | unnamed | expired | outside | boundary | decode
  deriving DecidableEq

def Refused.message : Refused → String
  | .offset => "offset must be an integer between 0 and 8000000"
  | .maxBytes => "max_bytes must be an integer between 1000 and 48000"
  | .unnamed => "SSH pagination needs the content_sha256 of its first page; restart at offset 0"
  | .expired => "SSH pagination state expired; restart at offset 0"
  | .outside => "offset is outside the output"
  | .boundary => "offset is not a UTF-8 boundary; use next_offset"
  | .decode => "'utf-8' codec can't decode bytes"

/-- `_validate_pagination` -/
def validatePagination (offset maxBytes : Int) : Except Refused (Nat × Nat) :=
  if ¬(0 ≤ offset ∧ offset ≤ 8000000) then .error .offset
  else if ¬(1000 ≤ maxBytes ∧ maxBytes ≤ 48000) then .error .maxBytes
  else .ok (offset.toNat, maxBytes.toNat)

structure Page where
  totalBytes : Nat
  offset : Nat
  returnedBytes : Nat
  nextOffset : Option Nat
  complete : Bool
  contentSha256 : Text
  untrustedDeviceOutput : Text

/-- `hashlib.sha256(text.encode("utf-8")).hexdigest()` -/
def sha256 (text : Text) : Text := Sha256.hexdigest (Utf8.encode text)

/-- `_page_text` -/
def pageText (text : Text) (offset maxBytes : Nat) : Except Refused Page :=
  let raw := Utf8.encode text
  if raw.length < offset then .error .outside
  else match Utf8.decodeAll (raw.take offset) with
    | none => .error .boundary
    | some _ =>
      let stop := Utf8.cutBack raw offset (min (offset + maxBytes) raw.length)
      match Utf8.decodeAll ((raw.take stop).drop offset) with
      | none => .error .decode
      | some page => .ok
        { totalBytes := raw.length
          offset := offset
          returnedBytes := stop - offset
          nextOffset := if stop < raw.length then some stop else none
          complete := stop = raw.length
          contentSha256 := sha256 text
          untrustedDeviceOutput := page }

/-! ## the cache -/

/-- what a read asks for, as `_ssh_cache_key` has it -/
structure Query where
  target : Text
  host : Text
  port : Nat
  login : Text
  secretSha256 : Text
  platform : Platform
  query : Text
  parameters : List (Text × Text)
  deriving DecidableEq

/-- the query and the digest of the text -/
abbrev Key := Query × Text

structure Kept where
  expires : ℚ
  rc : Option Int
  output : Text

/-- `_SSH_PAGE_CACHE`.  `lost` remembers the keys that ran out of time or made room since they were
stored. -/
structure Cache where
  entries : List (Key × Kept)
  lost : List Key
  nodup : (Dict.keys entries).Nodup

def Cache.empty : Cache := ⟨[], [], List.nodup_nil⟩

def ttlSeconds : ℚ := 120
def maxEntries : Nat := 8
def captureMaxBytes : Nat := 2000000

/-- the entries that are still good, and those that are not -/
def Cache.prune (now : ℚ) (c : Cache) : Cache where
  entries := c.entries.filter fun x => !decide (x.2.expires ≤ now)
  lost := Dict.keys (c.entries.filter fun x => decide (x.2.expires ≤ now)) ++ c.lost
  nodup := Dict.nodup_keys_filter _ c.nodup

/-- `_load_cached_ssh_output` -/
def Cache.load (key : Key) (now : ℚ) (c : Cache) : Option (Option Int × Text) × Cache :=
  let c := c.prune now
  ((Dict.get key c.entries).map fun x => (x.rc, x.output), c)

def Cache.pop (key : Key) (c : Cache) : Cache where
  entries := c.entries.filter fun x => x.1 ≠ key
  lost := c.lost
  nodup := Dict.nodup_keys_filter _ c.nodup

/-- the oldest entry makes room -/
def Cache.evict (c : Cache) : Cache :=
  if c.entries.length < maxEntries then c
  else match c.entries.argmin fun x => x.2.expires with
    | none => c
    | some oldest => { c.pop oldest.1 with lost := oldest.1 :: c.lost }

/-- `_store_cached_ssh_output` -/
def Cache.store (key : Key) (rc : Option Int) (output : Text) (now : ℚ) (c : Cache) : Cache where
  entries := Dict.set key ⟨now + ttlSeconds, rc, output⟩ c.evict.entries
  lost := c.evict.lost.filter fun k => k ≠ key
  nodup := Dict.nodup_keys_set _ _ c.evict.nodup

/-! ## the read -/

/-- why a device was not read -/
inductive Unread where
  | productIdentity (rc : Option Int)
  | failed (error : Text)

inductive Op where
  /-- `_verified_read` and `redact` -/
  | verifiedRead (q : Query)
  | load (key : Key)
  | store (key : Key) (rc : Option Int) (output : Text)
  | pop (key : Key)

/-- what the device answers, and the time -/
def Op.Ask : Op → Type
  | .verifiedRead _ => Except Unread (Option Int × Text)
  | .load _ | .store _ _ _ => ℚ
  | .pop _ => Unit

def Op.Ans : Op → Type
  | .verifiedRead _ => Except Unread (Option Int × Text)
  | .load _ => Option (Option Int × Text)
  | .store _ _ _ | .pop _ => Unit

def sig : Sig := ⟨Op, Op.Ask, Op.Ans⟩

def machine : Machine sig Cache where
  exec
    | .verifiedRead _, answer, c => (answer, c)
    | .load key, now, c => c.load key now
    | .store key rc output, now, c => ((), c.store key rc output now)
    | .pop key, _, c => ((), c.pop key)

/-- a page with what is said of it besides -/
structure Shown where
  rc : Option Int
  /-- `pagination_source` is `cached` -/
  cached : Bool
  page : Page
  dhcpBindings : Option SwitchDhcp.Summary

inductive Reply where
  | unread (e : Unread)
  | tooLarge (rc : Option Int)
  | deviceCliError (rc : Option Int) (routeFailed : Bool) (output : Text)
  | empty (rc : Option Int)
  | page (s : Shown)

abbrev P := Prog sig Refused

structure Request where
  query : Query
  offset : Int
  maxBytes : Int
  contentSha256 : Option Text

/-- `_named_snapshot` -/
def namedSnapshot (value : Text) : Bool := value.length = 64 && value.all Sha256.lowerHex

section
variable (isWord : Char → Bool) (catalogue : Platform → Text → Bool)

/-- what is not shown because the device did not do what it was asked for -/
def deviceRefused (q : Query) (cleaned : Text) : Bool :=
  (cliRefused q.platform cleaned &&
      !(q.platform = .fortinet && q.query ∈ mclagQueries && mclagNotSupported q.query cleaned)) ||
    lookupRouteFailed q.platform q.query cleaned

/-- nothing was read -/
def emptyRead (q : Query) (cleaned : Text) : Bool :=
  cleaned.all isSpace && !catalogue q.platform q.query

def dhcpBindingsQuery (q : Query) : Bool :=
  q.platform = .fortinet && q.query = "switch_dhcp_bindings".toList

def dhcpBindings (q : Query) (cleaned : Text) (page : Page) : Option SwitchDhcp.Summary :=
  if dhcpBindingsQuery q then
    some (SwitchDhcp.summarize isWord cleaned page.offset (page.offset + page.returnedBytes))
  else none

/-- `ssh_read`, once there is a text -/
def sshAnswer (q : Query) (offset maxBytes : Nat) (rc : Option Int) (cleaned : Text) (cached : Bool) :
    P Reply :=
  let key := (q, sha256 cleaned)
  if deviceRefused q cleaned then
    .op (Op.pop key) fun _ => match pageText cleaned 0 maxBytes with
      | .error e => .raise e
      | .ok page => .ret (.deviceCliError rc (lookupRouteFailed q.platform q.query cleaned)
          page.untrustedDeviceOutput)
  else if emptyRead catalogue q cleaned then .op (Op.pop key) fun _ => .ret (.empty rc)
  else match pageText cleaned offset maxBytes with
    | .error e => .raise e
    | .ok page =>
      let reply := Reply.page ⟨rc, cached, page, dhcpBindings isWord q cleaned page⟩
      if page.nextOffset.isSome then
        if offset = 0 then .op (Op.store key rc cleaned) fun _ => .ret reply else .ret reply
      else .op (Op.pop key) fun _ => .ret reply

/-- a read at offset 0 -/
def sshFresh (q : Query) (maxBytes : Nat) : P Reply :=
  .op (Op.verifiedRead q) fun
    | .error e => .ret (.unread e)
    | .ok (rc, cleaned) =>
      if captureMaxBytes < (Utf8.encode cleaned).length then .ret (.tooLarge rc)
      else sshAnswer isWord catalogue q 0 maxBytes rc cleaned false

/-- a later page of what was read -/
def sshCached (q : Query) (sha : Text) (offset maxBytes : Nat) : P Reply :=
  .op (Op.load (q, sha)) fun
    | none => .raise .expired
    | some (rc, cleaned) => sshAnswer isWord catalogue q offset maxBytes rc cleaned true

/-- `ssh_read` -/
def sshRead (r : Request) : P Reply :=
  match validatePagination r.offset r.maxBytes with
  | .error e => .raise e
  | .ok (offset, maxBytes) =>
    if offset = 0 then sshFresh isWord catalogue r.query maxBytes
    else match r.contentSha256.filter namedSnapshot with
      | none => .raise .unnamed
      | some sha => sshCached isWord catalogue r.query sha offset maxBytes

/-- where a reply says that there is more: the offset and the digest -/
def Reply.next : Reply → Option (Nat × Text)
  | .page s => s.page.nextOffset.map fun n => (n, s.page.contentSha256)
  | _ => none

/-- the calls of somebody who follows `next_offset`; the `n`-th page may have `sizes n` bytes -/
def follow (q : Query) (sizes : Nat → Nat) : Nat → Nat → Nat → Option Text → P (List Reply)
  | 0, _, _, _ => .stuck
  | fuel+1, n, offset, sha =>
    (sshRead isWord catalogue ⟨q, offset, sizes n, sha⟩).bind fun reply =>
      match reply.next with
      | none => .ret [reply]
      | some (offset, sha) => (follow q sizes fuel (n + 1) offset (some sha)).bind fun rest =>
        .ret (reply :: rest)

/-- all calls from offset 0 on -/
def readAll (q : Query) (sizes : Nat → Nat) (fuel : Nat) : P (List Reply) :=
  follow isWord catalogue q sizes fuel 0 0 none

end

end Netops.Reads

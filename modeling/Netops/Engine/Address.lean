import Netops.Fortios.Rest

/-!
# IPv4 addresses and networks (`ipaddress`)

What the planner uses of the `ipaddress` module.  An address is its number; `none` stands for a
`ValueError`.
-/

namespace Netops.Engine
open Netops.Fortios

/-- `int(text)` for a text of digits -/
def decimal (t : Text) : Nat := t.foldl (fun n c => n * 10 + (c.toNat - 48)) 0

/-- `str(n)` -/
def decimalText (n : Nat) : Text := Nat.toDigits 10 n

/-- `_parse_octet`: at most three digits, and no leading zero -/
def octet (t : Text) : Option Nat :=
  if t ≠ [] ∧ t.all isDigit ∧ t.length ≤ 3 ∧ (t = ['0'] ∨ t.head? ≠ some '0') ∧ decimal t ≤ 255 then
    some (decimal t)
  else none

/-- `IPv4Address(text)` -/
def address (t : Text) : Option Nat :=
  match (t.splitOn '.').map octet with
  | [some a, some b, some c, some d] => some (((a * 256 + b) * 256 + c) * 256 + d)
  | _ => none

/-- `str(address)` -/
def addressText (n : Nat) : Text :=
  decimalText (n / 16777216) ++ '.' :: decimalText (n / 65536 % 256) ++ '.' ::
    decimalText (n / 256 % 256) ++ '.' :: decimalText (n % 256)

/-- the mask of a prefix length -/
def mask (length : Nat) : Nat := 2 ^ 32 - 2 ^ (32 - length)

/-- `_prefix_from_ip_int` -/
def prefixOfMask (n : Nat) : Option Nat := (List.range 33).find? fun length => mask length = n

/-- the prefix length that a text gives: a number, a mask or the inverse of a mask -/
def prefixLength (t : Text) : Option Nat :=
  if t ≠ [] ∧ t.all isDigit then if decimal t ≤ 32 then some (decimal t) else none
  else match address t with
    | none => none
    | some n => (prefixOfMask n).or (prefixOfMask (2 ^ 32 - 1 - n))

structure Network where
  address : Nat
  length : Nat
  deriving DecidableEq

def Network.broadcast (n : Network) : Nat := n.address + (2 ^ (32 - n.length) - 1)

def Network.contains (n : Network) (a : Nat) : Bool := n.address ≤ a && a ≤ n.broadcast

/-- `IPv4Network(address + "/" + mask, strict)` -/
def network (strict : Bool) (base lengthText : Text) : Option Network :=
  match address base, prefixLength lengthText with
  | some a, some length =>
    let start := a / 2 ^ (32 - length) * 2 ^ (32 - length)
    if strict ∧ start ≠ a then none else some ⟨start, length⟩
  | _, _ => none

end Netops.Engine

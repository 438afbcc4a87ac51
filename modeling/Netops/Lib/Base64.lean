import Mathlib.Data.List.Basic

/-!
# Base64

`base64.b64encode` and `base64.b64decode` with `validate=True` on byte strings.

* `decode_encode`     what is encoded decodes to itself;
* `encode_length`, `encode_alphabet`   the form of the text.
-/

namespace Base64

/-- the digit of the value `n` -/
def digit (n : Nat) : Char :=
  if n < 26 then Char.ofNat (65 + n)
  else if n < 52 then Char.ofNat (71 + n)
  else if n < 62 then Char.ofNat (n - 4)
  else if n = 62 then '+' else '/'

/-- the value of a digit -/
def value (c : Char) : Option Nat :=
  if 'A' ≤ c ∧ c ≤ 'Z' then some (c.toNat - 65)
  else if 'a' ≤ c ∧ c ≤ 'z' then some (c.toNat - 71)
  else if '0' ≤ c ∧ c ≤ '9' then some (c.toNat + 4)
  else if c = '+' then some 62
  else if c = '/' then some 63
  else none

theorem value_digit : ∀ n < 64, value (digit n) = some n := by decide

theorem digit_ne_pad : ∀ n < 64, digit n ≠ '=' := by decide

/-- `b64encode` -/
def encode : List UInt8 → List Char
  | [] => []
  | [a] => [digit (a.toNat / 4), digit (a.toNat % 4 * 16), '=', '=']
  | [a, b] => [digit (a.toNat / 4), digit (a.toNat % 4 * 16 + b.toNat / 16),
      digit (b.toNat % 16 * 4), '=']
  | a :: b :: c :: bs => digit (a.toNat / 4) :: digit (a.toNat % 4 * 16 + b.toNat / 16) ::
      digit (b.toNat % 16 * 4 + c.toNat / 64) :: digit (c.toNat % 64) :: encode bs

def first (x y : Nat) : UInt8 := UInt8.ofNat (x * 4 + y / 16)
def second (y z : Nat) : UInt8 := UInt8.ofNat (y % 16 * 16 + z / 4)
def third (z w : Nat) : UInt8 := UInt8.ofNat (z % 4 * 64 + w)

/-- `b64decode`, strict; the bits that are left over before the padding are not looked at -/
def decode : List Char → Option (List UInt8)
  | [] => some []
  | a :: b :: c :: d :: cs => do
    let x ← value a
    let y ← value b
    if cs = [] ∧ c = '=' ∧ d = '=' then return [first x y]
    else
      let z ← value c
      if cs = [] ∧ d = '=' then return [first x y, second y z]
      else
        let w ← value d
        let bs ← decode cs
        return first x y :: second y z :: third z w :: bs
  | _ => none

section
variable (a b c : UInt8)

theorem first_eq (n : Nat) (h : n < 16) : first (a.toNat / 4) (a.toNat % 4 * 16 + n) = a := by
  have ha := a.toNat_lt
  rw [first, show a.toNat / 4 * 4 + (a.toNat % 4 * 16 + n) / 16 = a.toNat by omega]
  exact UInt8.ofNat_toNat

theorem second_eq (m n : Nat) (h : n < 4) :
    second (m * 16 + b.toNat / 16) (b.toNat % 16 * 4 + n) = b := by
  have hb := b.toNat_lt
  rw [second, show (m * 16 + b.toNat / 16) % 16 * 16 + (b.toNat % 16 * 4 + n) / 4 = b.toNat by omega]
  exact UInt8.ofNat_toNat

theorem third_eq (m : Nat) : third (m * 4 + c.toNat / 64) (c.toNat % 64) = c := by
  have hc := c.toNat_lt
  rw [third, show (m * 4 + c.toNat / 64) % 4 * 64 + c.toNat % 64 = c.toNat by omega]
  exact UInt8.ofNat_toNat

end

theorem decode_encode (bs : List UInt8) : decode (encode bs) = some bs := by
  induction bs using encode.induct with
  | case1 => rfl
  | case2 a =>
    have ha := a.toNat_lt
    rw [encode, decode, value_digit _ (by omega), value_digit _ (by omega)]
    simpa using first_eq a 0 (by omega)
  | case3 a b =>
    have ha := a.toNat_lt
    have hb := b.toNat_lt
    rw [encode, decode, value_digit _ (by omega), value_digit _ (by omega), value_digit _ (by omega)]
    have h1 := first_eq a (b.toNat / 16) (by omega)
    have h2 := second_eq b (a.toNat % 4) 0 (by omega)
    rw [Nat.add_zero] at h2
    simp [digit_ne_pad _ (show b.toNat % 16 * 4 < 64 by omega), h1, h2]
  | case4 a b c bs ih =>
    have ha := a.toNat_lt
    have hb := b.toNat_lt
    have hc := c.toNat_lt
    rw [encode, decode, value_digit _ (by omega), value_digit _ (by omega), value_digit _ (by omega),
      value_digit _ (by omega), ih]
    have h1 := first_eq a (b.toNat / 16) (by omega)
    have h2 := second_eq b (a.toNat % 4) (c.toNat / 64) (by omega)
    have h3 := third_eq c (b.toNat % 16)
    simp [digit_ne_pad _ (show c.toNat % 64 < 64 by omega), h1, h2, h3]

theorem encode_length (bs : List UInt8) : (encode bs).length = 4 * ((bs.length + 2) / 3) := by
  induction bs using encode.induct with
  | case1 => rfl
  | case2 a => simp [encode]
  | case3 a b => simp [encode]
  | case4 a b c bs ih =>
    simp only [encode, List.length_cons, ih]
    omega

/-- a letter, a digit or one of `+/=` -/
def alphabet (c : Char) : Bool := c.isAlphanum || c = '+' || c = '/' || c = '='

theorem digit_alphabet : ∀ n < 64, alphabet (digit n) = true := by decide

theorem encode_alphabet (bs : List UInt8) : ∀ c ∈ encode bs, alphabet c = true := by
  induction bs using encode.induct with
  | case1 => simp [encode]
  | case2 a =>
    have ha := a.toNat_lt
    simp only [encode, List.forall_mem_cons]
    exact ⟨digit_alphabet _ (by omega), digit_alphabet _ (by omega), rfl, rfl, by simp⟩
  | case3 a b =>
    have ha := a.toNat_lt
    have hb := b.toNat_lt
    simp only [encode, List.forall_mem_cons]
    exact ⟨digit_alphabet _ (by omega), digit_alphabet _ (by omega), digit_alphabet _ (by omega),
      rfl, by simp⟩
  | case4 a b c bs ih =>
    have ha := a.toNat_lt
    have hb := b.toNat_lt
    have hc := c.toNat_lt
    simp only [encode, List.forall_mem_cons]
    exact ⟨digit_alphabet _ (by omega), digit_alphabet _ (by omega), digit_alphabet _ (by omega),
      digit_alphabet _ (by omega), ih⟩

end Base64

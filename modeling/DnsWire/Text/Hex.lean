/-!
# Hexadecimal text

* `Hex.octet` and `Hex.chars` — two lowercase digits for each octet, nothing in between;
* `Hex.digit?` — the value of one digit, in either case.
-/

namespace DnsWire.Hex

/-- The two lowercase digits of an octet. -/
def octet (value : UInt8) : List Char :=
  [Nat.digitChar (value.toNat / 16), Nat.digitChar (value.toNat % 16)]

/-- The digits of a run of octets. -/
def chars (octets : List UInt8) : List Char :=
  octets.flatMap octet

@[simp] theorem chars_nil : chars [] = [] := rfl

@[simp] theorem chars_cons (value : UInt8) (rest : List UInt8) :
    chars (value :: rest) = octet value ++ chars rest := rfl

@[simp] theorem length_chars (octets : List UInt8) :
    (chars octets).length = 2 * octets.length := by
  induction octets with
  | nil => rfl
  | cons value rest ih => simp [octet, ih]; omega

/-- The value of a hexadecimal digit, in lower or upper case. -/
def digit? (c : Char) : Option Nat :=
  if c.isDigit then some (c.toNat - '0'.toNat)
  else if 'a' ≤ c.toLower ∧ c.toLower ≤ 'f' then some (c.toLower.toNat - 'a'.toNat + 10)
  else none

end DnsWire.Hex

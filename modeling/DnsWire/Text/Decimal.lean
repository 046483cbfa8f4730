/-!
# Decimal numbers

How numbers are written and read in decimal.

* `Decimal.digits` — the shortest numeral of a number, as `toString` writes it;
* `Decimal.padded` — the same, filled with zeros to a least width;
* `Decimal.natural?` — reads an unsigned number up to a bound: one `+` may stand in front, and
  zeros in front of the number are ignored;
* `Decimal.integer?` — reads a signed number in the same way.
-/

namespace DnsWire.Decimal

/-- The decimal digits of a number, without zeros in front. -/
def digits (n : Nat) : List Char :=
  Nat.toDigits 10 n

theorem toString_eq (n : Nat) : toString n = String.ofList (digits n) :=
  Nat.toString_eq_ofList_toDigits

/-- The decimal digits of a number, with zeros in front up to `width` characters. -/
def padded (width n : Nat) : List Char :=
  (digits n).leftpad width '0'

/-- The value of a nonempty run of decimal digits. -/
def numeral? (text : List Char) : Option Nat :=
  if text ≠ [] ∧ text.all Char.isDigit then some (Nat.ofDigitChars 10 text 0) else none

theorem isDigit_of_mem_digits {n : Nat} {c : Char} (mem : c ∈ digits n) : c.isDigit = true :=
  Nat.isDigit_of_mem_toDigits (by decide) (by decide) mem

/-- A number reads back from its digits. -/
@[simp] theorem numeral?_digits (n : Nat) : numeral? (digits n) = some n := by
  have isDigit : ∀ c ∈ digits n, c.isDigit = true := fun _ => isDigit_of_mem_digits
  simpa [numeral?, digits, Nat.toDigits_ne_nil, Nat.ofDigitChars_ten_toDigits] using isDigit

theorem isDigit_of_mem_padded {width n : Nat} {c : Char} (mem : c ∈ padded width n) :
    c.isDigit = true := by
  rw [padded, List.leftpad, List.mem_append] at mem
  rcases mem with zero | digit
  · rw [(List.mem_replicate.1 zero).2]
    rfl
  · exact isDigit_of_mem_digits digit

/-- Zeros in front of a number are ignored. -/
theorem numeral?_padded (width n : Nat) : numeral? (padded width n) = some n := by
  have some : padded width n ≠ [] := by
    simp [padded, digits, List.leftpad]
  have value : Nat.ofDigitChars 10 (padded width n) 0 = n := by
    simp [padded, digits, List.leftpad, Nat.ofDigitChars_append, Nat.ofDigitChars_ten_toDigits]
  rw [numeral?, if_pos ⟨some, List.all_eq_true.2 fun _ => isDigit_of_mem_padded⟩, value]

/-- Zeros fill the width where the digits leave room for them. -/
theorem length_padded {width n : Nat} (room : (digits n).length ≤ width) :
    (padded width n).length = width := by
  rw [padded, List.length_leftpad, Nat.max_eq_left room]

/-- Reads an unsigned number of at most `bound`: an optional `+` and at least one digit. -/
def natural? (bound : Nat) (text : List Char) : Option Nat :=
  let numeral := match text with
    | '+' :: rest => rest
    | _ => text
  (numeral? numeral).filter (· ≤ bound)

/-- Reads a number with an optional sign in front of at least one digit. -/
def integer? (text : List Char) : Option Int :=
  match text with
  | '-' :: rest => (numeral? rest).map fun n => -(n : Int)
  | '+' :: rest => (numeral? rest).map Int.ofNat
  | _ => (numeral? text).map Int.ofNat

end DnsWire.Decimal

import DnsWire.Address.Ip
import DnsWire.Text.Hex

/-!
# Reading internet addresses

An address is read from the front of a text, and what follows it is left for the next reader.

* `Ipv4.read?` — four numbers up to 255, without zeros in front.
* `Ipv6.read?` — groups of up to four hexadecimal digits. Two colons stand for at least one zero
  group, and an IPv4 address may take the place of the last two groups, in front of the two
  colons only if nothing is left out.
-/

namespace DnsWire

/-- A reader of the front of a text: the value and the rest, or nothing. -/
abbrev TextReader (α : Type) : Type :=
  List Char → Option (α × List Char)

namespace TextReader

/-- One given character. -/
def char (c : Char) : TextReader Unit
  | first :: rest => if first = c then some ((), rest) else none
  | [] => none

/-- All decimal digits at the front; there has to be one. The value is at most `bound`. -/
def decimal (bound : Nat) : TextReader Nat := fun text =>
  (Decimal.numeral? (text.takeWhile Char.isDigit)).bind fun value =>
    if value ≤ bound then some (value, text.dropWhile Char.isDigit) else none

end TextReader

namespace Ipv4

/-- One of the four numbers: up to three digits, and no zero in front of others. -/
def readOctet? : TextReader UInt8 := fun text =>
  let digits := text.takeWhile Char.isDigit
  if digits.length ≤ 3 ∧ (digits.head? = some '0' → digits.length = 1) then
    (TextReader.decimal 255 text).map fun (value, rest) => (UInt8.ofNat value, rest)
  else none

/-- Four numbers joined by dots. -/
def read? : TextReader Ipv4 := fun text => do
  let (a, text) ← readOctet? text
  let (_, text) ← TextReader.char '.' text
  let (b, text) ← readOctet? text
  let (_, text) ← TextReader.char '.' text
  let (c, text) ← readOctet? text
  let (_, text) ← TextReader.char '.' text
  let (d, text) ← readOctet? text
  return (⟨#v[a, b, c, d]⟩, text)

end Ipv4

namespace Ipv6

/-- One group: up to four hexadecimal digits. -/
def readGroup? : TextReader UInt16 := fun text =>
  let digits := text.takeWhile fun c => (Hex.digit? c).isSome
  if digits ≠ [] ∧ digits.length ≤ 4 then
    let value := (digits.filterMap Hex.digit?).foldl (fun value digit => 16 * value + digit) 0
    some (UInt16.ofNat value, text.dropWhile fun c => (Hex.digit? c).isSome)
  else none

/-- The colon in front of every group but the first. -/
def readSeparator? (first : Bool) (text : List Char) : Option (List Char) :=
  if first then some text else (TextReader.char ':' text).map Prod.snd

/-- Up to `room` groups. An IPv4 address is taken for two groups and ends them. The answer holds
the groups, whether they end in an IPv4 address, and the rest of the text. -/
def readGroups (first : Bool) : Nat → List Char → List UInt16 × Bool × List Char
  | 0, text => ([], false, text)
  | room + 1, text =>
    let dotted := if room = 0 then none else (readSeparator? first text).bind Ipv4.read?
    match dotted with
    | some (v4, rest) =>
      ([word16 v4.octets[0] v4.octets[1], word16 v4.octets[2] v4.octets[3]], true, rest)
    | none =>
      match (readSeparator? first text).bind readGroup? with
      | some (group, rest) =>
        let (groups, endsDotted, rest) := readGroups false room rest
        (group :: groups, endsDotted, rest)
      | none => ([], false, text)

/-- The address with the groups of `front` at its start, those of `back` at its end and zeros
between them. -/
def ofEnds (front back : List UInt16) : Ipv6 :=
  let zeros := List.replicate (8 - front.length - back.length) 0
  ofGroups (Vector.ofFn fun i => (front ++ zeros ++ back).getD i 0)

/-- An address, with or without two colons in it. -/
def read? : TextReader Ipv6 := fun text =>
  match readGroups true 8 text with
  | (front, endsDotted, text) =>
    if front.length = 8 then some (ofEnds front [], text)
    else if endsDotted then none
    else do
      let (_, text) ← TextReader.char ':' text
      let (_, text) ← TextReader.char ':' text
      let (back, _, text) := readGroups true (7 - front.length) text
      return (ofEnds front back, text)

end Ipv6

end DnsWire

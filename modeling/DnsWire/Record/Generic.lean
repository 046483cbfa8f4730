import DnsWire.Text.Decimal
import DnsWire.Text.Hex

/-!
# Record data of any type

Data of a type without a form of its own is written as `\#`, the number of its octets and the
octets in hexadecimal, in groups of four with a space in front of each.
-/

namespace DnsWire.Generic

/-- A run of octets in groups of four; the last one may have fewer. -/
def groups : List UInt8 → List (List UInt8)
  | a :: b :: c :: d :: rest => [a, b, c, d] :: groups rest
  | [] => []
  | short => [short]

/-- A group of octets with a space in front. -/
def groupText (group : List UInt8) : List Char :=
  ' ' :: Hex.chars group

/-- The generic form of record data. -/
def chars (octets : List UInt8) : List Char :=
  ['\\', '#', ' '] ++ Decimal.digits octets.length ++ (groups octets).flatMap groupText

end DnsWire.Generic

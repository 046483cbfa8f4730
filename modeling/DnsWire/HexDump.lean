import DnsWire.Text.Ascii
import DnsWire.Text.Decimal
import DnsWire.Text.Hex

/-!
# Hex dumps

A message octet by octet. Each line holds the position of an octet, its value in hexadecimal and
in decimal, and its character if it is printable ASCII.
-/

namespace DnsWire.HexDump

/-- The character in the last column. -/
def shown (octet : UInt8) : Char :=
  if Ascii.isPrintable octet then Char.ofUInt8 octet else '.'

/-- The line of one octet, with the end of the line. -/
def line (position : Nat) (octet : UInt8) : List Char :=
  Decimal.padded 2 position ++ [':', ' '] ++ Hex.octet octet ++ [' '] ++
    Decimal.padded 3 octet.toNat ++ [' ', '\'', shown octet, '\'', '\n']

/-- The lines of all octets. -/
def text (octets : List UInt8) : String :=
  String.ofList (octets.zipIdx.flatMap fun (octet, position) => line position octet)

end DnsWire.HexDump

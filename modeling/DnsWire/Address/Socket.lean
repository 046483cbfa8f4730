import DnsWire.Address.Reader

/-!
# Socket addresses

An address and a port name the server that a query goes to. The address of version 6 stands in
brackets, and may carry the number of the interface through which it is reached.
-/

namespace DnsWire

/-- An address and a port. -/
inductive SocketAddress where
  /-- An address of version 4. -/
  | v4 (address : Ipv4) (port : UInt16)
  /-- An address of version 6, and the interface through which it is reached, or zero. -/
  | v6 (address : Ipv6) (scope : UInt32) (port : UInt16)
  deriving DecidableEq, Repr

namespace SocketAddress

/-- The port. -/
def port : SocketAddress → UInt16
  | .v4 _ port => port
  | .v6 _ _ port => port

/-- A socket address as text; the interface is left out if it is zero. -/
def text : SocketAddress → String
  | .v4 address port => address.text ++ ":" ++ toString port.toNat
  | .v6 address scope port =>
    let interface := if scope = 0 then "" else "%" ++ toString scope.toNat
    "[" ++ address.text ++ interface ++ "]:" ++ toString port.toNat

/-- A colon and a port. -/
def readPort? : TextReader UInt16 := fun text => do
  let (_, text) ← TextReader.char ':' text
  let (port, text) ← TextReader.decimal 65535 text
  return (UInt16.ofNat port, text)

/-- A percent sign and the number of an interface; zero if there is no percent sign with a number
behind it. -/
def readScope (text : List Char) : UInt32 × List Char :=
  let scope := do
    let (_, text) ← TextReader.char '%' text
    TextReader.decimal 4294967295 text
  match scope with
  | some (scope, text) => (UInt32.ofNat scope, text)
  | none => (0, text)

/-- A socket address of version 4. -/
def readV4? : TextReader SocketAddress := fun text => do
  let (address, text) ← Ipv4.read? text
  let (port, text) ← readPort? text
  return (.v4 address port, text)

/-- A socket address of version 6. -/
def readV6? : TextReader SocketAddress := fun text => do
  let (_, text) ← TextReader.char '[' text
  let (address, text) ← Ipv6.read? text
  let (scope, text) := readScope text
  let (_, text) ← TextReader.char ']' text
  let (port, text) ← readPort? text
  return (.v6 address scope port, text)

/-- The socket address that a whole text spells. -/
def ofText? (text : String) : Option SocketAddress :=
  match readV4? text.toList <|> readV6? text.toList with
  | some (address, []) => some address
  | _ => none

end SocketAddress

end DnsWire

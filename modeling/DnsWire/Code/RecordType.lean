import DnsWire.Code.Registry

/-!
# Record types

The type of a record says what its data means; in a question it says which records are wanted.
Every word of 16 bits is a type. Those without a mnemonic are written `TYPE` and the number.
-/

namespace DnsWire

/-- A record type. -/
structure RecordType where
  /-- The type on the wire. -/
  code : UInt16
  deriving DecidableEq, Ord, Repr

namespace RecordType

/-- An IPv4 address of a host. -/
def a : RecordType := ⟨1⟩

/-- An alias for another name. -/
def cname : RecordType := ⟨5⟩

/-- A host that accepts mail. -/
def mx : RecordType := ⟨15⟩

/-- Strings of text. -/
def txt : RecordType := ⟨16⟩

/-- An IPv6 address of a host. -/
def aaaa : RecordType := ⟨28⟩

/-- In a question, every type. -/
def any : RecordType := ⟨255⟩

/-- The mnemonics of record types. -/
def registry : Registry where
  word := "TYPE"
  bound := 65535
  mnemonics := [(1, "A"), (2, "NS"), (5, "CNAME"), (6, "SOA"), (12, "PTR"), (15, "MX"),
    (16, "TXT"), (28, "AAAA"), (255, "ANY")]

/-- The mnemonic of a type, if it has one. -/
def mnemonic? (t : RecordType) : Option String :=
  registry.mnemonic? t.code.toNat

/-- A type as text. -/
def text (t : RecordType) : String :=
  registry.text t.code.toNat

/-- The type with a mnemonic. -/
def ofMnemonic? (text : String) : Option RecordType :=
  (registry.ofMnemonic? (Utf8.encode text.toList)).map fun code => ⟨UInt16.ofNat code⟩

/-- The type that a text stands for. -/
def ofText (text : String) : Except CodeError RecordType :=
  match registry.ofText? text with
  | some code => .ok ⟨UInt16.ofNat code⟩
  | none => .error .recordType

end RecordType

end DnsWire

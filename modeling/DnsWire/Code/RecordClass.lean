import DnsWire.Code.Registry

/-!
# Classes

The class of a record names the network it belongs to, in practice always the internet. Every
word of 16 bits is a class. Those without a mnemonic are written `CLASS` and the number, and the
class that stands for all of them is written as a star.
-/

namespace DnsWire

/-- A class of records. -/
structure RecordClass where
  /-- The class on the wire. -/
  code : UInt16
  deriving DecidableEq, Ord, Repr

namespace RecordClass

/-- The internet. -/
def internet : RecordClass := ⟨1⟩

/-- The mnemonics of classes. -/
def registry : Registry where
  word := "CLASS"
  bound := 65535
  mnemonics := [(1, "IN"), (3, "CH"), (4, "HS"), (255, "*")]

/-- The mnemonic of a class, if it has one. -/
def mnemonic? (c : RecordClass) : Option String :=
  registry.mnemonic? c.code.toNat

/-- A class as text. -/
def text (c : RecordClass) : String :=
  registry.text c.code.toNat

/-- The class with a mnemonic. -/
def ofMnemonic? (text : String) : Option RecordClass :=
  (registry.ofMnemonic? (Utf8.encode text.toList)).map fun code => ⟨UInt16.ofNat code⟩

/-- The class that a text stands for. -/
def ofText (text : String) : Except CodeError RecordClass :=
  match registry.ofText? text with
  | some code => .ok ⟨UInt16.ofNat code⟩
  | none => .error .recordClass

end RecordClass

end DnsWire

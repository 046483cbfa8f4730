import DnsWire.Code.Registry

/-!
# Opcodes

The opcode of a message says which kind of request it belongs to. An opcode is an octet, of which
the header has room for four bits. Those without a mnemonic are written as a bare number.
-/

namespace DnsWire

/-- A kind of request. -/
structure Opcode where
  /-- The opcode as an octet. -/
  code : UInt8
  deriving DecidableEq, Ord, Repr

namespace Opcode

/-- A standard query. -/
def query : Opcode := ⟨0⟩

/-- The mnemonics of opcodes. -/
def registry : Registry where
  word := ""
  bound := 255
  mnemonics := [(0, "QUERY"), (1, "IQUERY"), (2, "STATUS"), (4, "NOTIFY"), (5, "UPDATE")]

/-- The mnemonic of an opcode, if it has one. -/
def mnemonic? (o : Opcode) : Option String :=
  registry.mnemonic? o.code.toNat

/-- An opcode as text. -/
def text (o : Opcode) : String :=
  registry.text o.code.toNat

/-- The opcode with a mnemonic. -/
def ofMnemonic? (text : String) : Option Opcode :=
  (registry.ofMnemonic? (Utf8.encode text.toList)).map fun code => ⟨UInt8.ofNat code⟩

/-- The opcode that a text stands for. -/
def ofText (text : String) : Except CodeError Opcode :=
  match registry.ofText? text with
  | some code => .ok ⟨UInt8.ofNat code⟩
  | none => .error .opcode

end Opcode

end DnsWire

import DnsWire.Code.RecordClass
import DnsWire.Code.RecordType
import DnsWire.Name.Walk

/-!
# Questions

A question asks for the records of a name, a type and a class. Its name is a text, as it came from
a message or from whoever asks; whether it spells a name shows when the question is written.
-/

namespace DnsWire

/-- A question. -/
structure Question where
  /-- The name asked about. -/
  name : String
  /-- The type of the records wanted. -/
  type : RecordType
  /-- The class of the records wanted. -/
  recordClass : RecordClass := .internet
  deriving DecidableEq

namespace Question

/-- A question as one line of text, its fields separated by tabs. -/
def text (q : Question) : String :=
  "\t".intercalate [q.name, q.type.text, q.recordClass.text]

/-- Reads a question. -/
def decode : Decoder Question := do
  let name ← Name.decodeText
  let type ← Decoder.word16
  let recordClass ← Decoder.word16
  return ⟨name, ⟨type⟩, ⟨recordClass⟩⟩

/-- A question in wire format. -/
def encode (q : Question) : Except EncodeError (List UInt8) := do
  let name ← Name.encode q.name
  return name ++ octets16 q.type.code ++ octets16 q.recordClass.code

/-- Writes a question onto a buffer: why it could not be written, if so, and the buffer behind it.
A question that cannot be written leaves the buffer as it was. -/
def append (buffer : List UInt8) (q : Question) : Option EncodeError × List UInt8 :=
  match q.encode with
  | .ok octets => (none, buffer ++ octets)
  | .error e => (some e, buffer)

/-- Writes questions one behind the other onto a buffer, and says what came of each. -/
def writeEach (buffer : List UInt8) : List Question → List (Option EncodeError × List UInt8)
  | [] => []
  | q :: others =>
    let came := append buffer q
    came :: writeEach came.2 others

end Question

end DnsWire

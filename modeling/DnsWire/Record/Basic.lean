import DnsWire.Code.RecordClass
import DnsWire.Record.Data

/-!
# Resource records

A record attaches data to a name. On the wire its fixed part, the `RecordHeader`, gives the size
of the data behind it.
-/

namespace DnsWire

/-- The sections of a message that hold records. -/
inductive Section where
  /-- The records that answer the questions. -/
  | answer
  /-- The records that name the servers with authority. -/
  | authority
  /-- The records that may be of use besides. -/
  | additional
  deriving DecidableEq, Ord, Repr

namespace Section

/-- The section that follows, if there is one. -/
def next? : Section → Option Section
  | .answer => some .authority
  | .authority => some .additional
  | .additional => none

/-- A section as text. -/
def text : Section → String
  | .answer => "ANSWER"
  | .authority => "AUTHORITY"
  | .additional => "ADDITIONAL"

end Section

/-- A resource record. -/
structure Record where
  /-- The name that the data is attached to. -/
  owner : String
  /-- The network that the record belongs to. -/
  recordClass : RecordClass
  /-- For how many seconds the record may be kept. -/
  ttl : UInt32
  /-- What the record says; it decides the type. -/
  data : RecordData
  deriving DecidableEq

/-- The part of a record in front of its data. -/
structure RecordHeader where
  /-- The name that the data is attached to. -/
  owner : String
  /-- What the data means. -/
  type : RecordType
  /-- The network that the record belongs to. -/
  recordClass : RecordClass
  /-- For how many seconds the record may be kept. -/
  ttl : UInt32
  /-- The number of octets of the data. -/
  dataSize : UInt16
  deriving DecidableEq

namespace RecordHeader

/-- Reads the part of a record in front of its data. -/
def decode : Decoder RecordHeader := do
  let owner ← Name.decodeText
  let type ← Decoder.word16
  let recordClass ← Decoder.word16
  let ttl ← Decoder.word32
  let dataSize ← Decoder.word16
  return ⟨owner, ⟨type⟩, ⟨recordClass⟩, ttl, dataSize⟩

/-- Reads the data behind this header. -/
def decodeRecord (h : RecordHeader) : Decoder Record := do
  let data ← RecordData.decode h.type h.dataSize.toNat
  return ⟨h.owner, h.recordClass, h.ttl, data⟩

end RecordHeader

namespace Record

/-- The type of the record, which is that of its data. -/
def type (r : Record) : RecordType :=
  r.data.type

/-- A record as one line of text, its fields separated by tabs. -/
def text (r : Record) : String :=
  "\t".intercalate
    [r.owner, toString r.ttl.toNat, r.recordClass.text, r.type.text, r.data.text]

/-- Reads a record. -/
def decode : Decoder Record := do
  let header ← RecordHeader.decode
  header.decodeRecord

end Record

end DnsWire

import DnsWire.Header
import DnsWire.Question
import DnsWire.Record.Basic

/-!
# Messages

A message is a header section, the questions, and the records of three sections, read in one pass
from the first octet to the last.

* `Message.decode` — reads a message. A response that reports an error is read no further than
  its header; octets behind the last record are counted and nothing more.
* `Message.isAnswer` — whether a message responds to another one.
* `Message.canonicalName?` — the name at the end of the aliases of the first question.
-/

namespace DnsWire

/-- What a message says about the request. -/
inductive Status where
  /-- A request, or a response without error. All sections are read. -/
  | noError
  /-- A response that reports an error. Nothing behind the header is read. -/
  | serverError (code : ResponseCode)
  deriving BEq

namespace Status

/-- Whether an error is reported. -/
def isError : Status → Bool
  | .noError => false
  | .serverError _ => true

/-- A status as text. -/
def text : Status → String
  | .noError => "NOERROR"
  | .serverError code => code.text ++ " (" ++ code.description ++ ")"

end Status

/-- A message. -/
structure Message where
  /-- The header section as it was received. -/
  head : HeaderSection
  /-- Whether it reports an error, and then nothing below is read. -/
  status : Status := .noError
  /-- The questions, in the order of the message, as everything below. -/
  questions : List Question := []
  /-- The records that answer the questions. -/
  answer : List Record := []
  /-- The records that name servers with authority. -/
  authority : List Record := []
  /-- The records of use besides. -/
  additional : List Record := []
  /-- The number of octets behind the last record. -/
  trailing : Nat := 0
  deriving BEq

namespace Message

/-! ## Reading -/

/-- Whether a header belongs to a response that reports an error. -/
def reportsError (h : Header) : Bool :=
  h.flags.qr && h.responseCode != .noError

/-- Reads the sections behind a header section. -/
def decodeSections (head : HeaderSection) : Decoder Message := do
  let questions ← Question.decode.times head.counts.questions.toNat
  let answer ← Record.decode.times head.counts.answer.toNat
  let authority ← Record.decode.times head.counts.authority.toNat
  let additional ← Record.decode.times head.counts.additional.toNat
  let trailing ← Decoder.remaining
  return { head, questions, answer, authority, additional, trailing }

/-- Reads a message whose header section is there. -/
def decoder : Decoder Message := do
  let head ← HeaderSection.decode
  if reportsError head.header then
    return { head, status := .serverError head.header.responseCode }
  else decodeSections head

/-- Reads a message. -/
def decode (octets : Array UInt8) : Except DecodeError Message :=
  if octets.size < HeaderSection.size then .error .tooShort
  else (decoder (Window.whole octets) 0).map Prod.fst

/-! ## Access -/

/-- How the request went. -/
def responseCode (m : Message) : ResponseCode :=
  m.head.header.responseCode

/-- Whether the message reports an error. -/
def isError (m : Message) : Bool :=
  m.status.isError

/-- Whether octets are left over behind the last record. -/
def hasTrailing (m : Message) : Bool :=
  0 < m.trailing

/-- The number of entries of a section as a count; a count has 16 bits, and the greatest one
stands for every number beyond it. -/
def countOf (entries : Nat) : UInt16 :=
  UInt16.ofNat (min entries 65535)

/-- The numbers of entries that were read. -/
def readCounts (m : Message) : Counts :=
  .of (countOf m.questions.length) (countOf m.answer.length) (countOf m.authority.length)
    (countOf m.additional.length)

/-- The type that the first question asks for. -/
def questionType? (m : Message) : Option RecordType :=
  m.questions.head?.map Question.type

/-- The records of a section. -/
def sectionOf (m : Message) : Section → List Record
  | .answer => m.answer
  | .authority => m.authority
  | .additional => m.additional

/-- All records in order, each with its section. -/
def records (m : Message) : List (Section × Record) :=
  m.answer.map (Section.answer, ·) ++ m.authority.map (Section.authority, ·) ++
    m.additional.map (Section.additional, ·)

/-! ## Responses and aliases -/

/-- Whether the message is a response to `query`: the identifiers are equal, and so are the
questions unless the response reports an error. -/
def isAnswer (m query : Message) : Bool :=
  m.head.header.flags.qr && m.head.header.id == query.head.header.id &&
    (m.isError || m.questions == query.questions)

/-- The name that a record gives for `name`, if it is an alias. Names are compared without regard
to the case of ASCII letters. -/
def aliasOf? (name : String) (r : Record) : Option String :=
  match r.data with
  | .cname target => if Ascii.sameText r.owner name then some target else none
  | _ => none

/-- The name that is reached from `name` by at most `steps` aliases, each of them the first one
among the records that fits. -/
def follow (records : List Record) : Nat → String → String
  | 0, name => name
  | steps + 1, name =>
    match records.findSome? (aliasOf? name) with
    | some target => follow records steps target
    | none => name

/-- The name at the end of the aliases of the first question. As many aliases are followed as
there are records in the answer section. -/
def canonicalName? (m : Message) : Option String :=
  m.questions.head?.map fun q => follow m.answer m.answer.length q.name

end Message

end DnsWire

import DnsWire.Proofs.Message.Entries
import DnsWire.Proofs.Message.Wire
import DnsWire.Proofs.Written.Data

/-!
# Messages as they are written

A message in the form of RFC 1035 without compression (`Written.Message.wire`): header section,
questions and records one behind the other, every number with its most significant octet first,
and in front of all data its true size. Any such message is accepted, whatever octets follow it,
and it is read as what was written (`Written.Message.decode_wire`).

The proof goes up the layers of the format. An entry is read back where it stands
(`Question.readsBack`, `Record.readsBack`), a section as the entries in it
(`Decoder.ReadsBack.times`), and the message as its sections.
-/

namespace DnsWire.Written

open Decoder

/-! ## Entries -/

/-- A question. -/
structure Question where
  name : Name
  type : RecordType
  recordClass : RecordClass

namespace Question

/-- A question in wire format: name, type and class. -/
def wire (q : Question) : List UInt8 :=
  q.name.wire ++ (octets16 q.type.code ++ octets16 q.recordClass.code)

/-- What the question is read as. -/
def read (q : Question) : DnsWire.Question :=
  ⟨q.name.text, q.type, q.recordClass⟩

theorem readsBack : ReadsBack DnsWire.Question.decode wire read := by
  intro w pos q shows
  obtain ⟨name, tail⟩ := Window.shows_append.1 shows
  refine DnsWire.Question.decode_eq_ok.2 ⟨_, Name.decodeText_of_shows name, tail, ?_⟩
  rw [wire, List.length_append, Nat.add_assoc]
  rfl

end Question

/-- A record. The size of its data has to fit into 16 bits. -/
structure Record where
  owner : Name
  recordClass : RecordClass
  ttl : UInt32
  data : Data
  fits : data.wire.length ≤ 65535

namespace Record

/-- The record without its data, whose size it gives. -/
def header (r : Record) : RecordHeader :=
  ⟨r.owner.text, r.data.type, r.recordClass, r.ttl, UInt16.ofNat r.data.wire.length⟩

/-- A record in wire format: name, type, class, time to live, size of the data, data. -/
def wire (r : Record) : List UInt8 :=
  r.owner.wire ++
    (octets16 r.data.type.code ++ octets16 r.recordClass.code ++ octets32 r.ttl ++
      octets16 (UInt16.ofNat r.data.wire.length)) ++ r.data.wire

/-- What the record is read as. -/
def read (r : Record) : DnsWire.Record :=
  ⟨r.owner.text, r.recordClass, r.ttl, r.data.read⟩

theorem dataSize_header (r : Record) : r.header.dataSize.toNat = r.data.wire.length := by
  have := r.fits
  rw [header, UInt16.toNat_ofNat']
  omega

theorem readsBack : ReadsBack DnsWire.Record.decode wire read := by
  intro w pos r shows
  obtain ⟨front, data⟩ := Window.shows_append.1 shows
  obtain ⟨owner, tail⟩ := Window.shows_append.1 front
  have header : RecordHeader.decode w pos = .ok (r.header, pos + r.owner.wire.length + 10) :=
    RecordHeader.decode_eq_ok.2 ⟨_, Name.decodeText_of_shows owner, tail, rfl⟩
  rw [List.length_append, ← Nat.add_assoc] at data
  have room : pos + r.owner.wire.length + 10 + r.data.wire.length ≤ w.stop := data.room
  have read : RecordData.decode r.data.type r.data.wire.length w (pos + r.owner.wire.length + 10) =
      .ok (r.data.read, pos + r.owner.wire.length + 10 + r.data.wire.length) :=
    filling_eq_ok.2 ⟨room, Data.reader_of_shows
      (((w.begins_narrow room).shows (Nat.le_refl _)).2 data) rfl, Nat.le_refl _⟩
  refine DnsWire.Record.decode_eq_ok.2 ⟨r.header, _, header, ?_, rfl, rfl, rfl⟩
  rw [dataSize_header, wire, List.length_append, List.length_append, ← Nat.add_assoc,
    ← Nat.add_assoc]
  exact read

end Record

/-! ## Messages -/

/-- A message. The header section counts the entries and reports no error. -/
structure Message where
  head : HeaderSection
  questions : List Question
  answer : List Record
  authority : List Record
  additional : List Record
  questions_count : head.counts.questions.toNat = questions.length
  answer_count : head.counts.answer.toNat = answer.length
  authority_count : head.counts.authority.toNat = authority.length
  additional_count : head.counts.additional.toNat = additional.length
  passes : head.header.flags.qr = false ∨ head.header.responseCode.code = 0

/-- A header reports an error if it is that of a response and its code is not zero. -/
theorem reportsError_eq_false {h : Header} :
    DnsWire.Message.reportsError h = false ↔ h.flags.qr = false ∨ h.responseCode.code = 0 := by
  have code : (h.responseCode != .noError) = (h.responseCode.code != 0) := rfl
  rw [DnsWire.Message.reportsError, Bool.and_eq_false_iff, code, bne_eq_false_iff_eq]

namespace Message

/-- A message in wire format: header section, questions, and the records of the three sections. -/
def wire (m : Message) : List UInt8 :=
  m.head.wire ++
    (m.questions.flatMap Question.wire ++
      (m.answer.flatMap Record.wire ++
        (m.authority.flatMap Record.wire ++ m.additional.flatMap Record.wire)))

/-- What the message is read as, where a number of octets follow it. -/
def read (m : Message) (trailing : Nat) : DnsWire.Message where
  head := m.head
  status := .noError
  questions := m.questions.map Question.read
  answer := m.answer.map Record.read
  authority := m.authority.map Record.read
  additional := m.additional.map Record.read
  trailing := trailing

theorem decodeSectionEntries_of_shows {w : Window} {m : Message} (shows : w.Shows 0 m.wire) :
    DnsWire.Message.decodeSectionEntries m.head w HeaderSection.size =
      .ok (m.read 0, m.wire.length) := by
  obtain ⟨-, shows⟩ := Window.shows_append.1 shows
  rw [Nat.zero_add, HeaderSection.length_wire] at shows
  obtain ⟨questions, shows⟩ := Window.shows_append.1 shows
  obtain ⟨answer, shows⟩ := Window.shows_append.1 shows
  obtain ⟨authority, additional⟩ := Window.shows_append.1 shows
  have questions := Question.readsBack.times questions
  have answer := Record.readsBack.times answer
  have authority := Record.readsBack.times authority
  have additional := Record.readsBack.times additional
  rw [← m.questions_count] at questions
  rw [← m.answer_count] at answer
  rw [← m.authority_count] at authority
  rw [← m.additional_count] at additional
  have stop : m.wire.length = HeaderSection.size + (m.questions.flatMap Question.wire).length +
      (m.answer.flatMap Record.wire).length + (m.authority.flatMap Record.wire).length +
      (m.additional.flatMap Record.wire).length := by
    rw [wire]
    simp only [List.length_append, HeaderSection.length_wire, Nat.add_assoc]
  rw [stop]
  exact DnsWire.Message.decodeSectionEntries_eq_ok.2
    ⟨_, _, _, questions, answer, authority, additional, rfl, rfl, rfl⟩

/-- A message is read where it stands, and all behind it is counted. -/
theorem decode_of_shows {octets : Array UInt8} {m : Message}
    (shows : (Window.whole octets).Shows 0 m.wire) :
    DnsWire.Message.decode octets = .ok (m.read (octets.size - m.wire.length)) :=
  DnsWire.Message.decode_eq_ok.2 ⟨(Window.shows_append.1 shows).1, Or.inr
    ⟨reportsError_eq_false.2 m.passes, m.wire.length, decodeSectionEntries_of_shows shows, rfl⟩⟩

/-- **Well-formed messages are read back.** Let a message be written without compression, with
counts and sizes that are true and without an error to report, and let any octets follow it. It is
read without error as its header section and its entries, each in its section and place, and the
octets that follow are counted. -/
theorem decode_wire (m : Message) (tail : List UInt8) :
    DnsWire.Message.decode (m.wire ++ tail).toArray = .ok (m.read tail.length) := by
  obtain ⟨shows, -⟩ := Window.shows_append.1 (Window.shows_whole (m.wire ++ tail))
  rw [decode_of_shows shows, List.size_toArray, List.length_append, Nat.add_sub_cancel_left]

/-- The name `example.com`. -/
def exampleCom : Name :=
  ⟨[⟨[101, 120, 97, 109, 112, 108, 101], by decide, by decide⟩,
    ⟨[99, 111, 109], by decide, by decide⟩], by decide⟩

/-- The name `www.example.com`. -/
def wwwExampleCom : Name :=
  ⟨⟨[119, 119, 119], by decide, by decide⟩ :: exampleCom.labels, by decide⟩

/-- A response that gives an alias, and a mail host for what it stands for. -/
def sample : Message where
  head := HeaderSection.writeAll {} [.id 7, .flag .qr true, .questions 1, .answer 1, .additional 1]
  questions := [⟨wwwExampleCom, .a, .internet⟩]
  answer := [⟨wwwExampleCom, .internet, 60, .cname exampleCom, by decide⟩]
  authority := []
  additional := [⟨exampleCom, .internet, 60, .mx 10 ⟨[], by decide⟩, by decide⟩]
  questions_count := rfl
  answer_count := rfl
  authority_count := rfl
  additional_count := rfl
  passes := Or.inr rfl

/-- The names of the sample are read as their texts, with an octet left over behind it. -/
theorem decode_wire_sample :
    DnsWire.Message.decode (sample.wire ++ [9]).toArray = .ok
      { head := sample.head
        questions := [⟨"www.example.com", .a, .internet⟩]
        answer := [⟨"www.example.com", .internet, 60, .cname "example.com"⟩]
        additional := [⟨"example.com", .internet, 60, .mx 10 "."⟩]
        trailing := 1 } := by
  have www : wwwExampleCom.text = "www.example.com" := by decide
  have com : exampleCom.text = "example.com" := by decide
  have root : Name.text ⟨[], by decide⟩ = "." := by decide
  rw [decode_wire]
  simp only [read, sample, Question.read, Record.read, Data.read, List.map_cons, List.map_nil, www,
    com, root, List.length_cons, List.length_nil]

end Message

end DnsWire.Written

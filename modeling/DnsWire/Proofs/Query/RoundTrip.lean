import DnsWire.Proofs.Message.Entries
import DnsWire.Proofs.Message.Wire
import DnsWire.Proofs.Decoder.Tiles
import DnsWire.Tool.Session

/-!
# Queries are read back

A query that is written is read back as the message it was meant to be (`encode_roundTrip`), for
every host name that spells a name at all. So the tool, which reads its own query before it sends
it, has nothing to complain about there.

The parts come from elsewhere: the header section stands at the start of the query
(`HeaderSection.decode_eq_ok` by way of `Message.decode_eq_ok`), and the one question stands behind
it (`Question.decode_of_encode`).
-/

namespace DnsWire

namespace Query

/-- No bit of the flags and codes of a query is set but the one for recursion. -/
theorem octets_head (id : UInt16) :
    (head id).header.octet 2 = 1 ∧ (head id).header.octet 3 = 0 := by
  constructor
  · simp [head, HeaderSection.writeAll, HeaderSection.write, Header.setFlag, Header.setBit,
      Header.octet, Header.setOctet, Flag.octet, Flag.bit, Header.setOpcode, Header.setId, setWord,
      Opcode.query]
  · rfl

theorem flags_head (id : UInt16) : (head id).header.flags = { rd := true } := by
  obtain ⟨high, low⟩ := octets_head id
  have third (bit : UInt8) : (head id).header.getBit 2 bit = (1 &&& (1 : UInt8) <<< bit != 0) :=
    congrArg (· &&& (1 : UInt8) <<< bit != 0) high
  have fourth (bit : UInt8) : (head id).header.getBit 3 bit = (0 &&& (1 : UInt8) <<< bit != 0) :=
    congrArg (· &&& (1 : UInt8) <<< bit != 0) low
  simp only [Header.flags, Header.flag, Flag.octet, Flag.bit, third, fourth]
  rfl

theorem codes_head (id : UInt16) :
    (head id).header.opcode = .query ∧ (head id).header.responseCode = .noError ∧
      (head id).header.reserved = false := by
  obtain ⟨high, low⟩ := octets_head id
  refine ⟨?_, ?_, ?_⟩
  · rw [Header.opcode, high]
    rfl
  · rw [Header.responseCode, low]
    rfl
  · exact congrArg (· &&& (1 : UInt8) <<< (6 : UInt8) != 0) low

/-- The message that a query is. -/
def message (id : UInt16) (host : String) (type : QueryType) : Message where
  head := head id
  questions := [{ name := Name.spelling host, type := type.recordType }]

/-- A query is written as its header section and its question. -/
theorem encode_eq (id : UInt16) (host : String) (type : QueryType) :
    encode id host type =
      (Question.encode { name := host, type := type.recordType }).map ((head id).wire ++ ·) := by
  unfold encode Question.append
  cases Question.encode { name := host, type := type.recordType } <;> rfl

/-- Nothing but the host name keeps a query from being written. -/
theorem encode_eq_error {id : UInt16} {host : String} {type : QueryType} {e : EncodeError} :
    encode id host type = .error e ↔ Name.encode host = .error e := by
  rw [encode_eq, except_map_eq_error, Question.encode_eq_error]

/-- A query that was written is read as the message that it is. -/
theorem decode_of_encode {id : UInt16} {host : String} {type : QueryType} {octets : List UInt8}
    (h : encode id host type = .ok octets) :
    Message.decode octets.toArray = .ok (message id host type) := by
  rw [encode_eq] at h
  obtain ⟨question, written, rfl⟩ := except_map_eq_ok.1 h
  have shows := Window.shows_whole ((head id).wire ++ question)
  rw [Window.shows_append, HeaderSection.length_wire, Nat.zero_add] at shows
  have read := Question.decode_of_encode written shows.2
  have passes : Message.reportsError (head id).header = false := by
    rw [Message.reportsError, flags_head]
    rfl
  refine Message.decode_eq_ok.2
    ⟨shows.1, Or.inr ⟨passes, HeaderSection.size + question.length, ?_, ?_⟩⟩
  · refine Message.decodeSectionEntries_eq_ok.2 ⟨_, _, _, ?_, rfl, rfl, rfl, rfl, rfl, rfl⟩
    exact Decoder.times_eq_ok.2 ⟨rfl, _, read, rfl⟩
  · simp [message]

end Query

/-- The tool stops before it has sent its query only where the host name spells no name. -/
theorem Tool.prepare_eq_error {arguments : Tool.Arguments} {id : UInt16} {outcome : Tool.Outcome} :
    Tool.prepare arguments id = .error outcome ↔
      ∃ e, Name.encode arguments.host = .error e ∧
        outcome =
          .failure "" ("Cannot build query for " ++ arguments.host ++ ": " ++ e.message) := by
  unfold prepare
  cases written : Query.encode id arguments.host arguments.type with
  | error e =>
      have name := Query.encode_eq_error.1 written
      simp [name, eq_comm]
  | ok octets =>
      -- What was written is read again, so neither way out is taken.
      have named : ∀ e, Name.encode arguments.host ≠ .error e := by
        intro e fails
        rw [Query.encode_eq_error.2 fails] at written
        cases written
      simp [Query.decode_of_encode written, named]

namespace Query

/-- **Queries are read back.** A query is written exactly when its host name is, and fails as the
host name does. What is written is read as a message with the identifier that was asked for, no
flag but the one for recursion, and one question of class internet, whose name is the host name
without its final dot; nothing else is in it, and nothing is left over. So when the tool does not
send a query the host name is the reason, and never the query that it wrote. -/
theorem encode_roundTrip (id : UInt16) (host : String) (type : QueryType) :
    (∀ e, encode id host type = .error e ↔ Name.encode host = .error e) ∧
    (∀ octets, encode id host type = .ok octets →
      ∃ m, Message.decode octets.toArray = .ok m ∧
        m.status = .noError ∧ m.head.header.id = id ∧ m.head.header.opcode = .query ∧
        m.responseCode = .noError ∧ m.head.header.flags = { rd := true } ∧
        m.head.header.reserved = false ∧ m.head.counts = .of 1 0 0 0 ∧
        m.readCounts = .of 1 0 0 0 ∧
        m.questions = [⟨Name.spelling host, type.recordType, .internet⟩] ∧
        m.answer = [] ∧ m.authority = [] ∧ m.additional = [] ∧ m.trailing = 0 ∧
        m.canonicalName? = some (Name.spelling host)) ∧
    ∀ arguments outcome, Tool.prepare arguments id = .error outcome ↔
      ∃ e, Name.encode arguments.host = .error e ∧
        outcome =
          .failure "" ("Cannot build query for " ++ arguments.host ++ ": " ++ e.message) := by
  refine ⟨fun _ => encode_eq_error, ?_, fun _ _ => Tool.prepare_eq_error⟩
  intro octets written
  obtain ⟨opcode, responseCode, reserved⟩ := codes_head id
  exact ⟨message id host type, decode_of_encode written, rfl, word16_octets16 id, opcode,
    responseCode, flags_head id, reserved, rfl, rfl, rfl, rfl, rfl, rfl, rfl, rfl⟩

/-- A query for the address of `example.com.` asks for `example.com`. -/
theorem encode_roundTrip_exampleCom :
    ∃ octets m, encode 0xABCD "example.com." .a = .ok octets ∧
      Message.decode octets.toArray = .ok m ∧ m.questions = [⟨"example.com", .a, .internet⟩] := by
  have written : encode 0xABCD "example.com." .a =
      .ok [0xAB, 0xCD, 1, 0, 0, 1, 0, 0, 0, 0, 0, 0, 7, 101, 120, 97, 109, 112, 108, 101,
        3, 99, 111, 109, 0, 0, 1, 0, 1] := by
    rfl
  obtain ⟨m, read, -, -, -, -, -, -, -, -, questions, -⟩ :=
    (encode_roundTrip 0xABCD "example.com." .a).2.1 _ written
  have spelled : Name.spelling "example.com." = "example.com" := by decide
  rw [spelled] at questions
  exact ⟨_, m, written, read, questions⟩

end Query

end DnsWire

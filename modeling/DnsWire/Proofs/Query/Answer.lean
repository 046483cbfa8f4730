import DnsWire.Proofs.Query.RoundTrip

/-!
# Queries and their answers

Whether a response belongs to a query is decided on two messages that were read on their own. This
module says what that comes to in octets (`Query.isAnswer_echo`): a response with the identifier of
the query answers it if it reports an error or if the question of the query stands behind its
header, octet by octet, whatever else is in the response. The question is then read as it was read
in the query, although the message around it is another one, because its name was written without
pointers (`Question.decode_of_encode`).

Besides, nothing that was sent as a query is ever taken for an answer, and a response without error
that is taken for one asks what the query asked.
-/

namespace DnsWire

namespace Message

/-- A message answers another one if it is a response to it that reports an error or has the same
questions. -/
theorem isAnswer_iff {m query : Message} :
    m.isAnswer query = true ↔
      m.head.header.flags.qr = true ∧ m.head.header.id = query.head.header.id ∧
        (m.isError = true ∨ m.questions = query.questions) := by
  simp [isAnswer, and_assoc]

/-- A request answers nothing. -/
theorem isAnswer_of_request {m : Message} (request : m.head.header.flags.qr = false)
    (query : Message) : m.isAnswer query = false := by
  simp [isAnswer, request]

/-- Whether an error is reported shows in the header section, and then there is nothing else. -/
theorem isError_of_decode {octets : Array UInt8} {m : Message} (h : decode octets = .ok m) :
    m.isError = reportsError m.head.header ∧ (m.isError = true → m.questions = []) := by
  obtain ⟨-, ⟨error, eq⟩ | ⟨passes, _, read, -⟩⟩ := decode_eq_ok.1 h
  · rw [error, eq]
    exact ⟨isError_of_serverError rfl, fun _ => rfl⟩
  · obtain ⟨_, _, _, -, -, -, -, -, status, -⟩ := decodeSectionEntries_eq_ok.1 read
    have passed : m.isError = false := isError_eq_false.2 status
    rw [passes, passed]
    exact ⟨rfl, nofun⟩

/-- A response that was read reports an error exactly if its code is not zero. -/
theorem isError_eq_of_response {octets : Array UInt8} {m : Message} (h : decode octets = .ok m)
    (response : m.head.header.flags.qr = true) :
    m.isError = (m.responseCode != .noError) := by
  rw [(isError_of_decode h).1, reportsError, response, Bool.true_and]
  rfl

/-- A message that counts one question has the one that stands behind its header. -/
theorem questions_of_shows {octets : Array UInt8} {m : Message} (h : decode octets = .ok m)
    (passed : m.isError = false) (one : m.head.counts.questions = 1) {q : Question}
    {wire : List UInt8} (written : q.encode = .ok wire)
    (shows : (Window.whole octets).Shows HeaderSection.size wire) :
    m.questions = [{ q with name := Name.spelling q.name }] := by
  obtain ⟨-, ⟨-, eq⟩ | ⟨-, _, read, -⟩⟩ := decode_eq_ok.1 h
  · rw [eq, isError_of_serverError rfl] at passed
    cases passed
  · obtain ⟨_, _, _, questions, -⟩ := decodeSectionEntries_eq_ok.1 read
    have first := Question.decode_of_encode written shows
    have only : Question.decode.times 1 (Window.whole octets) HeaderSection.size =
        .ok ([{ q with name := Name.spelling q.name }], HeaderSection.size + wire.length) :=
      Decoder.times_eq_ok.2 ⟨rfl, _, first, rfl⟩
    rw [one] at questions
    exact (congrArg Prod.fst (Except.ok.inj (only.symm.trans questions))).symm

end Message

namespace Query

/-- What stands behind the header section of a query is its question. -/
theorem question_of_encode {id : UInt16} {host : String} {type : QueryType}
    {query : List UInt8} (written : encode id host type = .ok query) :
    Question.encode { name := host, type := type.recordType } = .ok (query.drop 12) ∧
      12 ≤ query.length := by
  rw [encode_eq] at written
  obtain ⟨question, encoded, rfl⟩ := except_map_eq_ok.1 written
  have length : (head id).wire.length = 12 := rfl
  rw [← length, List.drop_left, List.length_append]
  exact ⟨encoded, Nat.le_add_right _ _⟩

/-- **A response that echoes the query answers it.** Let a query be written. It is read, and it
answers no message, itself included. Let a response be read, from any octets, with the identifier
of the query. If its code is not zero, or it counts one question and the octets of the query behind
its header stand behind the header of the response, then it answers the query, whatever else it
says. On the other hand every message that answers the query is a response with its identifier, and
one without error has exactly one question: for the host name without its final dot, of the type
that the query is for, and of class internet. -/
theorem isAnswer_echo {id : UInt16} {host : String} {type : QueryType} {query : List UInt8}
    (written : encode id host type = .ok query) :
    ∃ asked, Message.decode query.toArray = .ok asked ∧ asked.head.header.id = id ∧
      asked.isAnswer asked = false ∧
      ∀ octets response, Message.decode octets = .ok response →
        asked.isAnswer response = false ∧
        (response.head.header.id = id → response.head.header.flags.qr = true →
          ((response.responseCode != .noError) = true ∨
            (response.head.counts.questions = 1 ∧
              (octets.extract 12 query.length).toList = query.drop 12)) →
          response.isAnswer asked = true) ∧
        (response.isAnswer asked = true →
          response.head.header.flags.qr = true ∧ response.head.header.id = id ∧
            ((response.responseCode == .noError) = true →
              response.questions = [⟨Name.spelling host, type.recordType, .internet⟩])) := by
  obtain ⟨encoded, long⟩ := question_of_encode written
  have request : (message id host type).head.header.flags.qr = false := by
    rw [message, flags_head]
  have stated : (message id host type).head.header.id = id := word16_octets16 id
  refine ⟨message id host type, decode_of_encode written, stated,
    Message.isAnswer_of_request request _, ?_⟩
  intro octets response read
  refine ⟨Message.isAnswer_of_request request _, ?_, ?_⟩
  · intro same isResponse kind
    refine Message.isAnswer_iff.2 ⟨isResponse, same.trans stated.symm, ?_⟩
    have error := Message.isError_eq_of_response read isResponse
    cases failed : response.isError with
    | true => exact Or.inl rfl
    | false =>
        rw [failed] at error
        rcases kind with code | ⟨one, echo⟩
        · rw [code] at error
          cases error
        · have room : 12 ≤ octets.size :=
            HeaderSection.size_le_of_shows (Message.decode_eq_ok.1 read).1
          have stretch : query.length = 12 + (query.drop 12).length := by
            rw [List.length_drop]
            omega
          rw [stretch] at echo
          have shows := Window.shows_of_extract room echo
          exact Or.inr (Message.questions_of_shows read failed one encoded shows)
  · intro answers
    obtain ⟨isResponse, same, kind⟩ := Message.isAnswer_iff.1 answers
    refine ⟨isResponse, same.trans stated, fun code => ?_⟩
    have error := Message.isError_eq_of_response read isResponse
    rw [bne, code] at error
    rcases kind with failed | questions
    · rw [failed] at error
      cases error
    · exact questions

/-- A response with a record and an octet left over answers the query for its question, and not the
other way round. -/
theorem isAnswer_echo_sample :
    ∃ query asked response, encode 0xABCD "a." .txt = .ok query ∧
      Message.decode query.toArray = .ok asked ∧
      Message.decode Message.sample = .ok response ∧ response.trailing = 1 ∧
      response.isAnswer asked = true ∧ asked.isAnswer response = false ∧
      response.questions = [⟨"a", .txt, .internet⟩] := by
  have written : encode 0xABCD "a." .txt =
      .ok [0xAB, 0xCD, 1, 0, 0, 1, 0, 0, 0, 0, 0, 0, 1, 97, 0, 0, 16, 0, 1] := by
    rfl
  have head : (Message.decode Message.sample).toOption.map (fun m => (m.head.header.id,
      m.head.header.flags.qr, m.head.counts.questions, m.responseCode == .noError, m.trailing)) =
        some (0xABCD, true, 1, true, 1) := by
    decide +kernel
  obtain ⟨response, read, fields⟩ := except_toOption_map_eq_some.1 head
  simp only [Prod.mk.injEq] at fields
  obtain ⟨same, isResponse, one, code, left⟩ := fields
  obtain ⟨asked, known, -, -, decided⟩ := isAnswer_echo written
  obtain ⟨backward, forward, answers⟩ := decided _ response read
  have accepted := forward same isResponse (Or.inr ⟨one, by decide⟩)
  have spelled : Name.spelling "a." = "a" := by decide
  have questions := (answers accepted).2.2 code
  rw [spelled] at questions
  exact ⟨_, asked, response, written, known, read, left, accepted, backward, questions⟩

end Query

end DnsWire

import Mathlib.Data.List.Forall2
import Mathlib.Data.Set.List
import DnsWire.Proofs.Message.Scan
import DnsWire.Proofs.Query.Answer
import DnsWire.Proofs.Written.Message

/-!
# Answers and the case of letters

Domain names are the same whatever the case of their letters. Aliases are followed in this sense,
and so the canonical names of two messages that differ in nothing else are the same name
(`Message.sameText_follow`). Questions are compared as they are written: of two responses whose
questions differ in case alone, at most one answers a query (`Message.isAnswer_recased`), and for
each of them there is a query that it answers, since what a response asks can be asked by a request
(`Message.exists_request`).
-/

namespace DnsWire

/-- Questions that are equal but for the case of letters in their names. -/
structure Question.Alike (left right : Question) : Prop where
  name : Ascii.sameText left.name right.name = true
  type : left.type = right.type
  recordClass : left.recordClass = right.recordClass

namespace Message

variable {octets octets' : Array UInt8} {m m' : Message}

/-! ## Aliases -/

theorem aliasOf?_congr {left right : String} (same : Ascii.sameText left right = true) :
    aliasOf? left = aliasOf? right := by
  rw [Ascii.sameText_iff] at same
  funext r
  unfold aliasOf? Ascii.sameText
  rw [same]

/-- The case of the first name shows at most as long as no alias is taken. -/
theorem sameText_follow (records : List Record) (steps : Nat) {left right : String}
    (same : Ascii.sameText left right = true) :
    Ascii.sameText (follow records steps left) (follow records steps right) = true := by
  cases steps with
  | zero => exact same
  | succ steps =>
      rw [follow, follow, aliasOf?_congr same]
      cases records.findSome? (aliasOf? right) with
      | none => exact same
      | some target => exact Ascii.sameText_refl _

theorem canonicalName?_recased (alike : List.Forall₂ Question.Alike m.questions m'.questions)
    (records : m.answer = m'.answer) :
    Option.Rel (fun left right => Ascii.sameText left right = true) m.canonicalName?
      m'.canonicalName? := by
  unfold canonicalName?
  rw [← records]
  cases first : m.questions with
  | nil =>
      rw [first, List.forall₂_nil_left_iff] at alike
      rw [alike]
      exact .none
  | cons q others =>
      rw [first, List.forall₂_cons_left_iff] at alike
      obtain ⟨q', others', same, -, first'⟩ := alike
      rw [first']
      exact .some (sameText_follow m.answer _ same.name)

/-! ## Queries -/

/-- Questions that were read can be written. -/
theorem exists_written_questions (h : decode octets = .ok m) (passed : m.isError = false) :
    ∃ written : List Written.Question, written.map Written.Question.read = m.questions ∧
      m.head.counts.questions.toNat = written.length := by
  obtain ⟨-, ⟨-, eq⟩ | ⟨-, _, read, -⟩⟩ := decode_eq_ok.1 h
  · rw [eq, isError_of_serverError rfl] at passed
    cases passed
  · obtain ⟨_, _, _, questions, -⟩ := decodeSectionEntries_eq_ok.1 read
    obtain ⟨length, tiles⟩ := Decoder.times_eq_ok.1 questions
    have each : ∀ q ∈ m.questions, ∃ written : Written.Question, written.read = q := by
      refine tiles.forall_mem fun q _ _ decoded => ?_
      obtain ⟨_, named, -⟩ := Question.decode_eq_ok.1 decoded
      obtain ⟨n, -, text⟩ := Decoder.map_eq_ok.1 named
      exact ⟨⟨n, q.type, q.recordClass⟩, by rw [Written.Question.read, text]⟩
    have range : m.questions ∈ Set.range (List.map Written.Question.read) := by
      rw [Set.range_list_map]
      exact each
    obtain ⟨written, eq⟩ := range
    refine ⟨written, eq, ?_⟩
    rw [← length, ← List.length_map (f := Written.Question.read), eq]

/-- What a message asks can be asked by a request, with the same identifier. -/
theorem exists_request (h : decode octets = .ok m) (passed : m.isError = false) :
    ∃ request query, decode request = .ok query ∧ query.head.header.flags.qr = false ∧
      query.head.header.id = m.head.header.id ∧ query.questions = m.questions := by
  obtain ⟨written, eq, count⟩ := exists_written_questions h passed
  have isRequest : (Header.setId {} m.head.header.id).flags.qr = false := by
    rw [Header.flags_setId]
    rfl
  let request : Written.Message :=
    { head := ⟨Header.setId {} m.head.header.id, .of m.head.counts.questions 0 0 0⟩
      questions := written
      answer := []
      authority := []
      additional := []
      questions_count := by rw [(Counts.words_of ..).1, count]
      answer_count := rfl
      authority_count := rfl
      additional_count := rfl
      passes := Or.inl isRequest }
  have read := Written.Message.decode_of_shows (Window.shows_whole request.wire)
  exact ⟨_, _, read, isRequest, Header.id_setId .., eq⟩

/-- **Answers and the case of letters.** Let two messages be read whose header sections are equal
and whose questions are equal but for the case of letters in names. They answer the same requests
if and only if they are no responses or their questions are equal as they are written: what one of
them answers the other one answers in no other case. With equal records in their answer sections,
their canonical names are equal but for the case of letters. -/
theorem isAnswer_recased (read : decode octets = .ok m) (read' : decode octets' = .ok m')
    (heads : m.head = m'.head) (alike : List.Forall₂ Question.Alike m.questions m'.questions) :
    ((∀ request query, decode request = .ok query → query.head.header.flags.qr = false →
        m.isAnswer query = m'.isAnswer query) ↔
      m.head.header.flags.qr = false ∨ m.questions = m'.questions) ∧
    (∀ query, m.isAnswer query = true →
      (m'.isAnswer query = true ↔ m.questions = m'.questions)) ∧
    (m.answer = m'.answer →
      Option.Rel (fun left right => Ascii.sameText left right = true) m.canonicalName?
        m'.canonicalName?) := by
  obtain ⟨error, empty⟩ := isError_of_decode read
  obtain ⟨error', empty'⟩ := isError_of_decode read'
  rw [← heads, ← error] at error'
  have unasked : m.isError = true → m.questions = m'.questions := by
    intro failed
    rw [empty failed, empty' (error'.trans failed)]
  have transfer : ∀ query, m.isAnswer query = true →
      (m'.isAnswer query = true ↔ m.questions = m'.questions) := by
    intro query answers
    obtain ⟨response, same, kind⟩ := isAnswer_iff.1 answers
    rw [isAnswer_iff, ← heads, error']
    refine ⟨fun answers' => ?_, fun eq => ⟨response, same, eq ▸ kind⟩⟩
    cases failed : m.isError with
    | true => exact unasked failed
    | false =>
        simp only [failed, Bool.false_eq_true, false_or] at kind answers'
        rw [kind, answers'.2.2]
  refine ⟨⟨fun agree => ?_, fun h request query _ _ => ?_⟩, transfer,
    canonicalName?_recased alike⟩
  · cases response : m.head.header.flags.qr with
    | false => exact Or.inl rfl
    | true =>
        refine Or.inr ?_
        cases failed : m.isError with
        | true => exact unasked failed
        | false =>
            obtain ⟨request, query, asked, isRequest, id, questions⟩ := exists_request read failed
            have answers : m.isAnswer query = true :=
              isAnswer_iff.2 ⟨response, id.symm, Or.inr questions.symm⟩
            exact (transfer query answers).1 (agree request query asked isRequest ▸ answers)
  · rcases h with isRequest | questions
    · rw [isAnswer_of_request isRequest, isAnswer_of_request (heads ▸ isRequest)]
    · rw [isAnswer, isAnswer, heads, error', questions]

/-- A response that asks for the address of the name with one letter. -/
def letterSample (letter : UInt8) : Array UInt8 :=
  #[0, 1, 0x81, 0x80, 0, 1, 0, 0, 0, 0, 0, 0, 1, letter, 0, 0, 1, 0, 1]

/-- A query for the address of `a`. -/
def letterRequest : Array UInt8 :=
  #[0, 1, 1, 0, 0, 1, 0, 0, 0, 0, 0, 0, 1, 0x61, 0, 0, 1, 0, 1]

theorem exists_decode_letterSamples :
    ∃ m m', decode (letterSample 0x61) = .ok m ∧ decode (letterSample 0x41) = .ok m' ∧
      m.head = m'.head ∧ m.head.header.flags.qr = true ∧ m.head.header.id = 1 ∧
      m.questions = [⟨"a", .a, .internet⟩] ∧ m'.questions = [⟨"A", .a, .internet⟩] ∧
      m.answer = [] ∧ m'.answer = [] ∧ m'.isError = false := by
  have read : ∀ letter ∈ [(0x61 : UInt8), 0x41], (decode (letterSample letter)).toOption.map
      (fun m => (m.head, m.questions, m.answer, m.isError)) =
        some (⟨.ofOctets 1 0x81 0x80, .of 1 0 0 0⟩,
          [⟨String.singleton (Char.ofNat letter.toNat), .a, .internet⟩], [], false) := by
    decide +kernel
  obtain ⟨m, decoded, fields⟩ := except_toOption_map_eq_some.1 (read 0x61 (by decide))
  obtain ⟨m', decoded', fields'⟩ := except_toOption_map_eq_some.1 (read 0x41 (by decide))
  simp only [Prod.mk.injEq] at fields fields'
  obtain ⟨head, questions, answer, -⟩ := fields
  obtain ⟨head', questions', answer', passed⟩ := fields'
  refine ⟨m, m', decoded, decoded', head.trans head'.symm, ?_, ?_, questions, questions', answer,
    answer', passed⟩
  · rw [head]
    rfl
  · rw [head]
    rfl

theorem alike_letterSamples :
    List.Forall₂ Question.Alike [⟨"a", .a, .internet⟩] [⟨"A", .a, .internet⟩] :=
  .cons ⟨by decide, rfl, rfl⟩ .nil

/-- Two responses that differ in the case of one letter: some query is answered by one of them
alone, and their canonical names are `a` and `A`. -/
theorem isAnswer_recased_sample :
    ∃ m m', decode (letterSample 0x61) = .ok m ∧ decode (letterSample 0x41) = .ok m' ∧
      m.head = m'.head ∧ List.Forall₂ Question.Alike m.questions m'.questions ∧
      (∃ request query, decode request = .ok query ∧ query.head.header.flags.qr = false ∧
        m.isAnswer query ≠ m'.isAnswer query) ∧
      Option.Rel (fun left right => Ascii.sameText left right = true) m.canonicalName?
        m'.canonicalName? := by
  obtain ⟨m, m', read, read', heads, response, -, questions, questions', answer, answer', -⟩ :=
    exists_decode_letterSamples
  have alike : List.Forall₂ Question.Alike m.questions m'.questions := by
    rw [questions, questions']
    exact alike_letterSamples
  obtain ⟨agree, -, canonical⟩ := isAnswer_recased read read' heads alike
  refine ⟨m, m', read, read', heads, alike, ?_, canonical (answer.trans answer'.symm)⟩
  by_contra none
  push Not at none
  rcases agree.1 none with request | same
  · rw [response] at request
    cases request
  · rw [questions, questions'] at same
    exact absurd same (by decide)

/-- A response that asks for `A` is no answer to a query for `a`, although one that asks for `a`
is. -/
theorem isAnswer_otherCase :
    ∃ query m m', decode letterRequest = .ok query ∧ decode (letterSample 0x61) = .ok m ∧
      decode (letterSample 0x41) = .ok m' ∧ query.head.header.flags.qr = false ∧
      m.head = m'.head ∧ List.Forall₂ Question.Alike m.questions m'.questions ∧
      m.isAnswer query = true ∧ m'.isAnswer query = false := by
  have asked : (decode letterRequest).toOption.map (fun query => (query.head.header.flags.qr,
      query.head.header.id, query.questions)) = some (false, 1, [⟨"a", .a, .internet⟩]) := by
    decide +kernel
  obtain ⟨query, decoded, fields⟩ := except_toOption_map_eq_some.1 asked
  simp only [Prod.mk.injEq] at fields
  obtain ⟨isRequest, id, questions⟩ := fields
  obtain ⟨m, m', read, read', heads, response, same, first, other, -, -, passed⟩ :=
    exists_decode_letterSamples
  refine ⟨query, m, m', decoded, read, read', isRequest, heads, ?_, ?_, ?_⟩
  · rw [first, other]
    exact alike_letterSamples
  · exact isAnswer_iff.2 ⟨response, same.trans id.symm, Or.inr (first.trans questions.symm)⟩
  · rw [Bool.eq_false_iff]
    intro answers
    rcases (isAnswer_iff.1 answers).2.2 with failed | equal
    · rw [passed] at failed
      cases failed
    · rw [other, questions] at equal
      exact absurd equal (by decide)

end Message

end DnsWire

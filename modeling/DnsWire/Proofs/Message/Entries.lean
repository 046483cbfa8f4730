import DnsWire.Proofs.Header.Wire
import DnsWire.Proofs.Message.Confined

/-!
# The entries of a message

`Message.decode` ends by counting the octets that are left, which no statement about two bounds
survives. It is taken apart here into a reader that looks at header and entries only
(`decodeEntries`) and the count (`withTrailing`); `decode_eq_entries` puts both together again.
`decode_eq_ok` says what a message that is read consists of.
-/

namespace DnsWire.Message

open Decoder

/-- Reads the sections behind a header section. -/
def decodeSectionEntries (head : HeaderSection) : Decoder Message := do
  let questions ← Question.decode.times head.counts.questions.toNat
  let answer ← Record.decode.times head.counts.answer.toNat
  let authority ← Record.decode.times head.counts.authority.toNat
  let additional ← Record.decode.times head.counts.additional.toNat
  return { head, questions, answer, authority, additional }

/-- Reads a message without a look at what is left behind its last entry. -/
def decodeEntries : Decoder Message := do
  let head ← HeaderSection.decode
  if reportsError head.header then
    return { head, status := .serverError head.header.responseCode }
  else decodeSectionEntries head

theorem isError_eq_false {m : Message} : m.isError = false ↔ m.status = .noError := by
  unfold isError
  cases m.status with
  | noError => simp [Status.isError]
  | serverError code => simp [Status.isError]

theorem isError_of_serverError {m : Message} {code : ResponseCode}
    (h : m.status = .serverError code) : m.isError = true := by
  rw [isError, h]
  rfl

/-- The message with a number of octets behind its last record. Behind a header that reports an
error nothing is read, and nothing counted. -/
def withTrailing (count : Nat) (m : Message) : Message :=
  if m.isError then m else { m with trailing := count }

theorem withTrailing_of_serverError {m : Message} {code : ResponseCode}
    (h : m.status = .serverError code) (count : Nat) : m.withTrailing count = m := by
  rw [withTrailing, if_pos (isError_of_serverError h)]

theorem withTrailing_of_noError {m : Message} (h : m.status = .noError) (count : Nat) :
    m.withTrailing count = { m with trailing := count } := by
  rw [withTrailing, if_neg (Bool.eq_false_iff.1 (isError_eq_false.2 h))]

/-- The octets that are left are counted from where the last entry ends. -/
theorem decodeSections_eq (head : HeaderSection) (w : Window) (pos : Nat) :
    decodeSections head w pos =
      (decodeSectionEntries head w pos).map fun r =>
        ({ r.1 with trailing := w.stop - r.2 }, r.2) := by
  unfold decodeSections decodeSectionEntries
  simp only [bind_apply]
  cases Question.decode.times head.counts.questions.toNat w pos with
  | error e => rfl
  | ok questions =>
    dsimp only
    cases Record.decode.times head.counts.answer.toNat w questions.2 with
    | error e => rfl
    | ok answer =>
      dsimp only
      cases Record.decode.times head.counts.authority.toNat w answer.2 with
      | error e => rfl
      | ok authority =>
        dsimp only
        cases Record.decode.times head.counts.additional.toNat w authority.2 <;> rfl

/-- What the sections hold, each from where the one before it ends. -/
theorem decodeSectionEntries_eq_ok {head : HeaderSection} {w : Window} {pos next : Nat}
    {m : Message} :
    decodeSectionEntries head w pos = .ok (m, next) ↔
      ∃ answerAt authorityAt additionalAt,
        Question.decode.times head.counts.questions.toNat w pos = .ok (m.questions, answerAt) ∧
        Record.decode.times head.counts.answer.toNat w answerAt = .ok (m.answer, authorityAt) ∧
        Record.decode.times head.counts.authority.toNat w authorityAt =
          .ok (m.authority, additionalAt) ∧
        Record.decode.times head.counts.additional.toNat w additionalAt =
          .ok (m.additional, next) ∧
        m.head = head ∧ m.status = .noError ∧ m.trailing = 0 := by
  unfold decodeSectionEntries
  simp only [bind_eq_ok, pure_apply, Except.ok.injEq, Prod.mk.injEq]
  constructor
  · intro h
    obtain ⟨_, answerAt, hq, _, authorityAt, ha, _, additionalAt, hn, _, _, hr, rfl, rfl⟩ := h
    exact ⟨answerAt, authorityAt, additionalAt, hq, ha, hn, hr, rfl, rfl, rfl⟩
  · intro h
    obtain ⟨answerAt, authorityAt, additionalAt, hq, ha, hn, hr, rfl, status, trailing⟩ := h
    refine ⟨_, answerAt, hq, _, authorityAt, ha, _, additionalAt, hn, _, next, hr, ?_, rfl⟩
    rw [← status, ← trailing]

/-- What a message without its trailing octets is: a header that reports an error, or a header
and all that it announces. -/
theorem decodeEntries_eq_ok {w : Window} {next : Nat} {m : Message} :
    decodeEntries w 0 = .ok (m, next) ↔
      w.Shows 0 m.head.wire ∧
        ((reportsError m.head.header = true ∧ next = HeaderSection.size ∧
            m = { head := m.head, status := .serverError m.head.header.responseCode }) ∨
          (reportsError m.head.header = false ∧
            decodeSectionEntries m.head w HeaderSection.size = .ok (m, next))) := by
  unfold decodeEntries
  simp only [bind_eq_ok, HeaderSection.decode_eq_ok]
  constructor
  · intro h
    obtain ⟨head, _, ⟨shows, rfl⟩, read⟩ := h
    by_cases error : reportsError head.header = true
    · rw [if_pos error] at read
      cases read
      exact ⟨shows, Or.inl ⟨error, Nat.zero_add _, rfl⟩⟩
    · rw [if_neg error, Nat.zero_add] at read
      obtain ⟨_, _, _, -, -, -, -, rfl, -⟩ := decodeSectionEntries_eq_ok.1 read
      exact ⟨shows, Or.inr ⟨Bool.eq_false_iff.2 error, read⟩⟩
  · intro h
    obtain ⟨shows, ⟨error, rfl, eq⟩ | ⟨error, read⟩⟩ := h
    · refine ⟨m.head, _, ⟨shows, rfl⟩, ?_⟩
      rw [if_pos error, ← eq, Nat.zero_add]
      rfl
    · refine ⟨m.head, _, ⟨shows, rfl⟩, ?_⟩
      rw [if_neg (by rw [error]; decide), Nat.zero_add]
      exact read

/-- Reading a message is reading its entries and counting what is left. -/
theorem decode_eq_entries {octets : Array UInt8} (long : HeaderSection.size ≤ octets.size) :
    decode octets =
      (decodeEntries (Window.whole octets) 0).map fun r =>
        r.1.withTrailing (octets.size - r.2) := by
  unfold decode decoder decodeEntries
  rw [if_neg (Nat.not_lt.2 long)]
  simp only [bind_apply]
  cases HeaderSection.decode (Window.whole octets) 0 with
  | error e => rfl
  | ok r =>
    dsimp only
    by_cases error : reportsError r.1.header = true
    · rw [if_pos error, if_pos error]
      rfl
    · rw [if_neg error, if_neg error, decodeSections_eq]
      cases read : decodeSectionEntries r.1 (Window.whole octets) r.2 with
      | error e => rfl
      | ok entries =>
        obtain ⟨_, _, _, -, -, -, -, -, status, -⟩ := decodeSectionEntries_eq_ok.1 read
        simp only [Except.map, withTrailing_of_noError status]
        rfl

/-- What a message is read from: its header section, and unless that reports an error the entries
behind it, with as many octets left over as lie behind the last one. -/
theorem decode_eq_ok {octets : Array UInt8} {m : Message} :
    decode octets = .ok m ↔
      (Window.whole octets).Shows 0 m.head.wire ∧
        ((reportsError m.head.header = true ∧
            m = { head := m.head, status := .serverError m.head.header.responseCode }) ∨
          (reportsError m.head.header = false ∧ ∃ next,
            decodeSectionEntries m.head (Window.whole octets) HeaderSection.size =
              .ok ({ m with trailing := 0 }, next) ∧ m.trailing = octets.size - next)) := by
  constructor
  · intro h
    have long : HeaderSection.size ≤ octets.size := by
      refine Nat.not_lt.1 fun short => ?_
      rw [decode, if_pos short] at h
      cases h
    rw [decode_eq_entries long] at h
    obtain ⟨⟨entries, next⟩, read, rfl⟩ := except_map_eq_ok.1 h
    rcases decodeEntries_eq_ok.1 read with ⟨shows, ⟨error, -, eq⟩ | ⟨error, read⟩⟩
    · have status : entries.status = .serverError entries.head.header.responseCode := by rw [eq]
      rw [withTrailing_of_serverError status]
      exact ⟨shows, Or.inl ⟨error, eq⟩⟩
    · obtain ⟨_, _, _, -, -, -, -, -, status, trailing⟩ := decodeSectionEntries_eq_ok.1 read
      rw [withTrailing_of_noError status]
      refine ⟨shows, Or.inr ⟨error, next, ?_, rfl⟩⟩
      simp only
      rw [← trailing]
      exact read
  · intro h
    obtain ⟨shows, kind⟩ := h
    rw [decode_eq_entries (HeaderSection.size_le_of_shows shows), except_map_eq_ok]
    rcases kind with ⟨error, eq⟩ | ⟨error, next, read, trailing⟩
    · have status : m.status = .serverError m.head.header.responseCode := by rw [eq]
      exact ⟨(m, _), decodeEntries_eq_ok.2 ⟨shows, Or.inl ⟨error, rfl, eq⟩⟩,
        withTrailing_of_serverError status _⟩
    · obtain ⟨_, _, _, -, -, -, -, -, status, -⟩ := decodeSectionEntries_eq_ok.1 read
      refine ⟨({ m with trailing := 0 }, next),
        decodeEntries_eq_ok.2 ⟨shows, Or.inr ⟨error, read⟩⟩, ?_⟩
      rw [withTrailing_of_noError status, ← trailing]

theorem steady_decodeSectionEntries (head : HeaderSection) : Steady (decodeSectionEntries head) :=
  (steady_question.times _).bind fun _ => (steady_record.times _).bind fun _ =>
    (steady_record.times _).bind fun _ => (steady_record.times _).bind fun _ => Steady.pure _

theorem steady_decodeEntries : Steady decodeEntries := by
  refine steady_headerSection.bind fun head => ?_
  split
  · exact Steady.pure _
  · exact steady_decodeSectionEntries head

/-- A response to try the statements about messages on: a question for the text of `a`, one record,
which points back to that name, and one octet left over. -/
def sample : Array UInt8 :=
  #[0xAB, 0xCD, 0x81, 0x80, 0, 1, 0, 1, 0, 0, 0, 0, 1, 97, 0, 0, 16, 0, 1,
    0xC0, 12, 0, 16, 0, 1, 0, 0, 0, 60, 0, 3, 2, 104, 105, 9]

/-- What the sample is read as, in numbers. -/
theorem exists_decode_sample :
    ∃ m, decode sample = .ok m ∧ m.status = .noError ∧ m.questions.length = 1 ∧
      m.answer.length = 1 ∧ m.authority.length = 0 ∧ m.additional.length = 0 ∧ m.trailing = 1 := by
  have read : (decode sample).toOption.map (fun m => (m.isError, m.questions.length,
      m.answer.length, m.authority.length, m.additional.length, m.trailing)) =
        some (false, 1, 1, 0, 0, 1) := by
    decide +kernel
  obtain ⟨m, decoded, numbers⟩ := except_toOption_map_eq_some.1 read
  obtain ⟨passed, sections⟩ := Prod.mk.inj numbers
  simp only [Prod.mk.injEq] at sections
  exact ⟨m, decoded, isError_eq_false.1 passed, sections⟩

end DnsWire.Message

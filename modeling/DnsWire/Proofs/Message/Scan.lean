import DnsWire.Proofs.Decoder.Tiles
import DnsWire.Proofs.Header.Wire
import DnsWire.Proofs.Message.Entries
import DnsWire.Proofs.Message.Wire

/-!
# A message is one scan

The entries of a message that is read lie one behind the other, from the end of its header section
to the octets left over (`scan_of_decode`). Where a pointer leads, and how long the data of a
record is said to be, has no bearing on where the next entry begins: an entry ends a fixed number
of octets behind its own name, and a record by as many more as its header says.
-/

namespace DnsWire.Message

open Decoder

/-- A question or a record, as they follow each other in a message. -/
inductive Entry where
  | question (q : Question)
  | record (r : Record)

/-- All entries in the order of the message. -/
def entries (m : Message) : List Entry :=
  m.questions.map .question ++ m.answer.map .record ++ m.authority.map .record ++
    m.additional.map .record

/-- An entry is what is read at `pos`, and it reaches up to `next`: four octets behind its name, or
ten octets and the octets of its data. -/
def Entry.Occupies (w : Window) : Entry → Nat → Nat → Prop
  | .question q, pos, next =>
      Question.decode w pos = .ok (q, next) ∧
        ∃ nameEnd, Name.decodeText w pos = .ok (q.name, nameEnd) ∧ next = nameEnd + 4
  | .record r, pos, next =>
      Record.decode w pos = .ok (r, next) ∧
        ∃ nameEnd h, Name.decodeText w pos = .ok (r.owner, nameEnd) ∧
          RecordHeader.decode w pos = .ok (h, nameEnd + 10) ∧
          next = nameEnd + 10 + h.dataSize.toNat

/-! ## One entry -/

theorem occupies_question {w : Window} {pos next : Nat} {q : Question}
    (h : Question.decode w pos = .ok (q, next)) : (Entry.question q).Occupies w pos next := by
  obtain ⟨nameEnd, name, -, eq⟩ := Question.decode_eq_ok.1 h
  exact ⟨h, nameEnd, name, eq⟩

theorem occupies_record {w : Window} {pos next : Nat} {r : Record}
    (h : Record.decode w pos = .ok (r, next)) : (Entry.record r).Occupies w pos next := by
  obtain ⟨head, mid, header, data, owner, -, -⟩ := Record.decode_eq_ok.1 h
  obtain ⟨nameEnd, name, -, rfl⟩ := RecordHeader.decode_eq_ok.1 header
  obtain ⟨eq, -⟩ := RecordData.next_of_decode data
  rw [← owner] at name
  exact ⟨h, nameEnd, head, name, header, eq⟩

/-- A question takes five octets at least: its name may be the root. -/
theorem room_of_question {w : Window} (q : Question) (pos next : Nat)
    (h : Question.decode w pos = .ok (q, next)) : pos + 5 ≤ next := by
  obtain ⟨nameEnd, name, -, rfl⟩ := Question.decode_eq_ok.1 h
  have := (Name.stays_of_decodeText name).1
  omega

/-- A record takes eleven octets at least: its name may be the root, and its data empty. -/
theorem room_of_record {w : Window} (r : Record) (pos next : Nat)
    (h : Record.decode w pos = .ok (r, next)) : pos + 11 ≤ next := by
  obtain ⟨-, nameEnd, head, name, -, rfl⟩ := occupies_record h
  have := (Name.stays_of_decodeText name).1
  omega

theorem lt_of_occupies {w : Window} {e : Entry} {pos next : Nat} (h : e.Occupies w pos next) :
    pos < next := by
  cases e with
  | question q =>
      have := room_of_question q pos next h.1
      omega
  | record r =>
      have := room_of_record r pos next h.1
      omega

/-! ## All entries -/

/-- Entries that are read one section after the other tile the message. -/
theorem tiles_of_decodeSectionEntries {head : HeaderSection} {w : Window} {pos next : Nat}
    {m : Message} (h : decodeSectionEntries head w pos = .ok (m, next)) :
    Tiles (Entry.Occupies w) pos m.entries next := by
  obtain ⟨answerAt, authorityAt, additionalAt, questions, answer, authority, additional, -⟩ :=
    decodeSectionEntries_eq_ok.1 h
  refine tiles_append.2 ⟨additionalAt, tiles_append.2 ⟨authorityAt, tiles_append.2
    ⟨answerAt, ?_, ?_⟩, ?_⟩, ?_⟩
  · exact tiles_map.2 ((times_eq_ok.1 questions).2.imp fun _ _ _ => occupies_question)
  · exact tiles_map.2 ((times_eq_ok.1 answer).2.imp fun _ _ _ => occupies_record)
  · exact tiles_map.2 ((times_eq_ok.1 authority).2.imp fun _ _ _ => occupies_record)
  · exact tiles_map.2 ((times_eq_ok.1 additional).2.imp fun _ _ _ => occupies_record)

/-- Entries that are read take no less than what the least of them would. -/
theorem room_of_decodeSectionEntries {head : HeaderSection} {w : Window} {pos next : Nat}
    {m : Message} (h : decodeSectionEntries head w pos = .ok (m, next)) :
    pos + 5 * m.questions.length +
      11 * (m.answer.length + m.authority.length + m.additional.length) ≤ next := by
  obtain ⟨answerAt, authorityAt, additionalAt, questions, answer, authority, additional, -⟩ :=
    decodeSectionEntries_eq_ok.1 h
  have := (times_eq_ok.1 questions).2.room 5 room_of_question
  have := (times_eq_ok.1 answer).2.room 11 room_of_record
  have := (times_eq_ok.1 authority).2.room 11 room_of_record
  have := (times_eq_ok.1 additional).2.room 11 room_of_record
  omega

theorem countOf_toNat (count : UInt16) : countOf count.toNat = count := by
  have := count.toNat_lt
  rw [countOf, Nat.min_eq_left (by omega), UInt16.ofNat_toNat]

/-- What was read in every section is as much as the header says. -/
theorem lengths_of_decodeSectionEntries {head : HeaderSection} {w : Window} {pos next : Nat}
    {m : Message} (h : decodeSectionEntries head w pos = .ok (m, next)) :
    m.questions.length = head.counts.questions.toNat ∧
      m.answer.length = head.counts.answer.toNat ∧
      m.authority.length = head.counts.authority.toNat ∧
      m.additional.length = head.counts.additional.toNat := by
  obtain ⟨_, _, _, questions, answer, authority, additional, -⟩ := decodeSectionEntries_eq_ok.1 h
  exact ⟨(times_eq_ok.1 questions).1, (times_eq_ok.1 answer).1, (times_eq_ok.1 authority).1,
    (times_eq_ok.1 additional).1⟩

theorem readCounts_of_decodeSectionEntries {head : HeaderSection} {w : Window} {pos next : Nat}
    {m : Message} (h : decodeSectionEntries head w pos = .ok (m, next)) :
    m.readCounts = head.counts := by
  obtain ⟨questions, answer, authority, additional⟩ := lengths_of_decodeSectionEntries h
  rw [readCounts, questions, answer, authority, additional]
  simp only [countOf_toNat, Counts.of_words]

/-! ## The whole message -/

/-- An error is reported by the bits of the third and the fourth octet. -/
theorem reportsError_iff {octets : Array UInt8} {m : Message}
    (h : (Window.whole octets).Shows 0 m.head.wire) :
    reportsError m.head.header = true ↔
      ∃ high low, octets[2]? = some high ∧ octets[3]? = some low ∧
        128 ≤ high.toNat ∧ low.toNat % 16 ≠ 0 := by
  rw [HeaderSection.wire, Header.wire_eq] at h
  obtain ⟨-, -, third, fourth, -⟩ := h
  rw [reportsError, Bool.and_eq_true, Header.qr_iff, Header.responseCode_bne_iff]
  constructor
  · exact fun bits => ⟨_, _, third, fourth, bits⟩
  · intro h
    obtain ⟨high, low, at_high, at_low, bits⟩ := h
    cases third.symm.trans at_high
    cases fourth.symm.trans at_low
    exact bits

/-- **One scan.** The header section of a message that is read is the first twelve octets. An error
is reported exactly when the message is a response with a code other than zero, and then nothing
else is read. Otherwise every section holds as many entries as the header says, and the entries
lie one behind the other between the header and the octets left over. So a message has at least
five octets for each question and eleven for each record, whatever its counts claim. -/
theorem scan_of_decode {octets : Array UInt8} {m : Message} (h : decode octets = .ok m) :
    m.head.wire = (octets.extract 0 12).toList ∧
    (m.isError = true ↔ ∃ high low, octets[2]? = some high ∧ octets[3]? = some low ∧
      128 ≤ high.toNat ∧ low.toNat % 16 ≠ 0) ∧
    (m.isError = true → m.questions = [] ∧ m.answer = [] ∧ m.authority = [] ∧ m.additional = [] ∧
      m.readCounts = .of 0 0 0 0 ∧ m.trailing = 0) ∧
    (m.isError = false → m.readCounts = m.head.counts ∧
      m.questions.length = m.head.counts.questions.toNat ∧
      m.answer.length = m.head.counts.answer.toNat ∧
      m.authority.length = m.head.counts.authority.toNat ∧
      m.additional.length = m.head.counts.additional.toNat ∧
      ∃ offsets : Nat → Nat, offsets 0 = 12 ∧
        offsets m.entries.length + m.trailing = octets.size ∧
        ∀ i (lt : i < m.entries.length), offsets i < offsets (i + 1) ∧
          m.entries[i].Occupies (Window.whole octets) (offsets i) (offsets (i + 1))) ∧
    12 + 5 * m.questions.length +
      11 * (m.answer.length + m.authority.length + m.additional.length) + m.trailing ≤
        octets.size := by
  obtain ⟨shows, kind⟩ := decode_eq_ok.1 h
  have head : m.head.wire = (octets.extract 0 12).toList := by
    have stands := (Window.shows_iff.1 shows).2
    rw [HeaderSection.length_wire] at stands
    exact stands.symm
  have long : 12 ≤ octets.size := HeaderSection.size_le_of_shows shows
  have bits := reportsError_iff shows
  rcases kind with ⟨error, eq⟩ | ⟨error, next, read, trailing⟩
  · have failed : m.isError = true := by
      rw [eq]
      exact isError_of_serverError rfl
    refine ⟨head, by rw [failed, ← bits, error], ?_, ?_, ?_⟩
    · intro _
      rw [eq]
      exact ⟨rfl, rfl, rfl, rfl, rfl, rfl⟩
    · intro passed
      rw [failed] at passed
      cases passed
    · rw [eq]
      exact long
  · obtain ⟨_, _, _, -, -, -, -, -, status, -⟩ := decodeSectionEntries_eq_ok.1 read
    have passed : m.isError = false := isError_eq_false.2 status
    obtain ⟨questions, answer, authority, additional⟩ := lengths_of_decodeSectionEntries read
    have inside : next ≤ octets.size := ((steady_decodeSectionEntries _).stays long read).2
    have tiles : Tiles (Entry.Occupies (Window.whole octets)) 12 m.entries next :=
      tiles_of_decodeSectionEntries (m := { m with trailing := 0 }) read
    have counts : m.readCounts = m.head.counts :=
      readCounts_of_decodeSectionEntries (m := { m with trailing := 0 }) read
    refine ⟨head, by rw [passed, ← bits, error], ?_, ?_, ?_⟩
    · intro failed
      rw [passed] at failed
      cases failed
    · intro _
      obtain ⟨offsets, start, last, between⟩ := tiles.offsets
      refine ⟨counts, questions, answer, authority, additional, offsets, start, ?_, ?_⟩
      · rw [last, trailing]
        omega
      · intro i lt
        exact ⟨lt_of_occupies (between i lt), between i lt⟩
    · have := room_of_decodeSectionEntries (m := { m with trailing := 0 }) read
      dsimp only at this
      rw [trailing]
      have size : HeaderSection.size = 12 := rfl
      omega

/-- The question of the sample takes seven octets and its record, whose name is a pointer, fifteen;
one octet is left over. -/
theorem scan_sample :
    ∃ m q r, decode sample = .ok m ∧ m.entries = [.question q, .record r] ∧
      ∃ offsets : Nat → Nat, offsets 0 = 12 ∧ offsets 1 = 19 ∧ offsets 2 = 34 ∧
        (Entry.question q).Occupies (Window.whole sample) (offsets 0) (offsets 1) ∧
        (Entry.record r).Occupies (Window.whole sample) (offsets 1) (offsets 2) := by
  obtain ⟨m, decoded, status, questions, answer, authority, additional, trailing⟩ :=
    exists_decode_sample
  obtain ⟨q, questions⟩ := List.length_eq_one_iff.1 questions
  obtain ⟨r, answer⟩ := List.length_eq_one_iff.1 answer
  have entries : m.entries = [.question q, .record r] := by
    simp [Message.entries, questions, answer, List.length_eq_zero_iff.1 authority,
      List.length_eq_zero_iff.1 additional]
  have passed : m.isError = false := isError_eq_false.2 status
  obtain ⟨-, -, -, scan, -⟩ := scan_of_decode decoded
  obtain ⟨-, -, -, -, -, offsets, start, last, between⟩ := scan passed
  rw [entries] at last between
  have first := (between 0 Nat.zero_lt_two).2
  have second := (between 1 Nat.one_lt_two).2
  have meet : (Question.decode (Window.whole sample) 12).toOption.map Prod.snd = some 19 := by
    decide +kernel
  rw [← start, first.1] at meet
  have size : sample.size = 35 := rfl
  rw [trailing, size] at last
  exact ⟨m, q, r, decoded, entries, offsets, start, Option.some.inj meet, Nat.succ.inj last, first,
    second⟩

end DnsWire.Message

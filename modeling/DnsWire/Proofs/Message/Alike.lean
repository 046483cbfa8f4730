import DnsWire.Proofs.Message.Entries
import DnsWire.Proofs.Message.Wire
import DnsWire.Proofs.Name.Spelled

/-!
# Windows that begin alike

Two windows `w` and `v` that begin with a third one, `u`, differ in nothing but what lies behind
it. An entry that ends inside `u` ends in the same place in both, and it is the same entry but for
its name, because only the labels that a pointer leads to can reach beyond the entry
(`Question.decode_of_begins`, `Record.decode_of_begins`).

`Decoder.SameUpTo` says this of a reader and a part of its value. It goes from one entry to any
number of them (`Decoder.SameUpTo.times`), and to all sections of a message
(`Message.sameUpTo_nameless`).
-/

namespace DnsWire

open Decoder

variable {u w v : Window} {pos next : Nat}

/-! ## One entry -/

theorem Name.next_eq_of_begins (left : u.Begins w) (right : u.Begins v) {text text' : String}
    {next' : Nat} (h : Name.decodeText w pos = .ok (text, next)) (inside : next ≤ u.stop)
    (h' : Name.decodeText v pos = .ok (text', next')) : next = next' := by
  obtain ⟨n, read, -⟩ := map_eq_ok.1 h
  obtain ⟨n', read', -⟩ := map_eq_ok.1 h'
  obtain ⟨_, spells, -⟩ := spells_of_decode read
  obtain ⟨_, spells', -⟩ := spells_of_decode read'
  refine (spells.next_unique spells' fun i lt => ?_).1
  rw [← left.agree i (by omega), right.agree i (by omega)]

theorem Question.decode_of_begins (left : u.Begins w) (right : u.Begins v) {q : Question}
    (h : Question.decode w pos = .ok (q, next)) (inside : next ≤ u.stop) {text : String}
    {nameEnd : Nat} (name : Name.decodeText v pos = .ok (text, nameEnd)) :
    Question.decode v pos = .ok ({ q with name := text }, next) := by
  obtain ⟨nameEnd, named, tail, rfl⟩ := Question.decode_eq_ok.1 h
  cases Name.next_eq_of_begins left right named (Nat.le_trans (Nat.le_add_right _ _) inside) name
  exact Question.decode_eq_ok.2
    ⟨nameEnd, name, (right.shows inside).1 ((left.shows inside).2 tail), rfl⟩

theorem Record.decode_of_begins (left : u.Begins w) (right : u.Begins v) {r : Record}
    (h : Record.decode w pos = .ok (r, next)) (inside : next ≤ u.stop) {text : String}
    {nameEnd : Nat} (name : Name.decodeText v pos = .ok (text, nameEnd)) :
    Record.decode v pos = .ok ({ r with owner := text }, next) := by
  obtain ⟨head, mid, header, data, owner, fields⟩ := Record.decode_eq_ok.1 h
  obtain ⟨nameEnd, named, tail, rfl⟩ := RecordHeader.decode_eq_ok.1 header
  obtain ⟨rfl, -⟩ := RecordData.next_of_decode data
  have inside' : nameEnd + 10 ≤ u.stop := Nat.le_trans (Nat.le_add_right _ _) inside
  cases Name.next_eq_of_begins left right named (Nat.le_trans (Nat.le_add_right _ _) inside') name
  have header' : RecordHeader.decode v pos = .ok ({ head with owner := text }, nameEnd + 10) :=
    RecordHeader.decode_eq_ok.2
      ⟨nameEnd, name, (right.shows inside').1 ((left.shows inside').2 tail), rfl⟩
  -- The size in front of the data bounds it, so its names cannot tell the windows apart.
  have same : RecordData.decode head.type head.dataSize.toNat w (nameEnd + 10) =
      RecordData.decode head.type head.dataSize.toNat v (nameEnd + 10) :=
    ((confined_recordData head.type).filling_eq left inside).symm.trans
      ((confined_recordData head.type).filling_eq right inside)
  exact Record.decode_eq_ok.2 ⟨_, _, header', same.symm.trans data, rfl, fields⟩

/-! ## All but the names -/

/-- A question but for its name. -/
def Question.nameless (q : Question) : Question :=
  { q with name := "" }

/-- A record but for its owner. Names inside the data stay. -/
def Record.nameless (r : Record) : Record :=
  { r with owner := "" }

/-- A message but for the names of its questions and the owners of its records. -/
def Message.nameless (m : Message) : Message :=
  { m with
    questions := m.questions.map Question.nameless
    answer := m.answer.map Record.nameless
    authority := m.authority.map Record.nameless
    additional := m.additional.map Record.nameless }

/-- What a reader makes of windows that begin alike is the same but for what `f` leaves out, and it
ends in the same place. -/
def Decoder.SameUpTo {α β : Type} (f : α → β) (u w v : Window) (d : Decoder α) : Prop :=
  ∀ ⦃pos next next' : Nat⦄ ⦃a a' : α⦄, pos ≤ w.stop → d w pos = .ok (a, next) → next ≤ u.stop →
    d v pos = .ok (a', next') → next = next' ∧ f a = f a'

theorem Decoder.SameUpTo.times {α β : Type} {f : α → β} {d : Decoder α}
    (same : SameUpTo f u w v d) (steady : Steady d) (count : Nat) :
    SameUpTo (List.map f) u w v (d.times count) := by
  induction count with
  | zero =>
      intro pos next next' values values' _ h _ h'
      cases h
      cases h'
      exact ⟨rfl, rfl⟩
  | succ count ih =>
      intro pos next next' values values' start h inside h'
      rw [times_succ] at h h'
      obtain ⟨a, mid, first, h⟩ := bind_eq_ok.1 h
      obtain ⟨rest, _, tail, last⟩ := bind_eq_ok.1 h
      cases last
      obtain ⟨a', mid', first', h'⟩ := bind_eq_ok.1 h'
      obtain ⟨rest', _, tail', last'⟩ := bind_eq_ok.1 h'
      cases last'
      have mid_le := (steady.stays start first).2
      have grows := ((steady.times count).stays mid_le tail).1
      obtain ⟨rfl, here⟩ := same start first (Nat.le_trans grows inside) first'
      obtain ⟨rfl, behind⟩ := ih mid_le tail inside tail'
      exact ⟨rfl, by rw [List.map_cons, List.map_cons, here, behind]⟩

theorem Question.sameUpTo_nameless (left : u.Begins w) (right : u.Begins v) :
    SameUpTo Question.nameless u w v Question.decode := by
  intro pos next next' q q' _ h inside h'
  obtain ⟨_, name, -⟩ := Question.decode_eq_ok.1 h'
  have read := h'.symm.trans (decode_of_begins left right h inside name)
  obtain ⟨eq, stop⟩ := Prod.mk.inj (Except.ok.inj read)
  exact ⟨stop.symm, (congrArg nameless eq).symm⟩

theorem Record.sameUpTo_nameless (left : u.Begins w) (right : u.Begins v) :
    SameUpTo Record.nameless u w v Record.decode := by
  intro pos next next' r r' _ h inside h'
  obtain ⟨_, _, header, -⟩ := Record.decode_eq_ok.1 h'
  obtain ⟨_, name, -⟩ := RecordHeader.decode_eq_ok.1 header
  have read := h'.symm.trans (decode_of_begins left right h inside name)
  obtain ⟨eq, stop⟩ := Prod.mk.inj (Except.ok.inj read)
  exact ⟨stop.symm, (congrArg nameless eq).symm⟩

namespace Message

theorem sameUpTo_nameless (left : u.Begins w) (right : u.Begins v) (head : HeaderSection) :
    SameUpTo nameless u w v (decodeSectionEntries head) := by
  intro pos next next' m m' start h inside h'
  have questionsOf := (Question.sameUpTo_nameless left right).times steady_question
  have recordsOf := (Record.sameUpTo_nameless left right).times steady_record
  obtain ⟨_, _, _, questions, answer, authority, additional, head_eq, status, trailing⟩ :=
    decodeSectionEntries_eq_ok.1 h
  obtain ⟨_, _, _, questions', answer', authority', additional', head_eq', status', trailing'⟩ :=
    decodeSectionEntries_eq_ok.1 h'
  have atAnswer := (steady_question.times _).stays start questions
  have atAuthority := (steady_record.times _).stays atAnswer.2 answer
  have atAdditional := (steady_record.times _).stays atAuthority.2 authority
  have atEnd := (steady_record.times _).stays atAdditional.2 additional
  obtain ⟨rfl, questions⟩ := questionsOf _ start questions (by omega) questions'
  obtain ⟨rfl, answer⟩ := recordsOf _ atAnswer.2 answer (by omega) answer'
  obtain ⟨rfl, authority⟩ := recordsOf _ atAuthority.2 authority (by omega) authority'
  obtain ⟨rfl, additional⟩ := recordsOf _ atAdditional.2 additional inside additional'
  refine ⟨rfl, ?_⟩
  rw [nameless, nameless, head_eq, head_eq', status, status', trailing, trailing', questions,
    answer, authority, additional]

end Message

end DnsWire

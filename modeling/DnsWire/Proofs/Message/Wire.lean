import DnsWire.Proofs.Decoder.Shows
import DnsWire.Proofs.Message.Confined
import DnsWire.Proofs.Name.Wire

/-!
# Questions and records and their octets

What stands behind the name of a question or of a record is of fixed size but for the data, and
the data ends where the size in front of it says. So the position behind an entry follows from the
position behind its name (`Question.decode_eq_ok`, `RecordHeader.decode_eq_ok`,
`RecordData.next_of_decode`), wherever the pointers of its names lead. A question that was written
is read back where it stands (`Question.decode_of_encode`).
-/

namespace DnsWire

open Decoder

variable {w : Window} {pos next : Nat}

/-- A name takes at least one octet, and the position behind it is still inside the window. -/
theorem Name.stays_of_decodeText {text : String} (h : Name.decodeText w pos = .ok (text, next)) :
    pos < next ∧ next ≤ w.stop := by
  obtain ⟨n, read, -⟩ := map_eq_ok.1 h
  exact Walk.stays_of_run (Name.decode_eq_ok.1 read)

/-- The four octets behind the name of a question. -/
def Question.tail (q : Question) : List UInt8 :=
  octets16 q.type.code ++ octets16 q.recordClass.code

theorem Question.decode_eq_ok {q : Question} :
    Question.decode w pos = .ok (q, next) ↔
      ∃ nameEnd, Name.decodeText w pos = .ok (q.name, nameEnd) ∧ w.Shows nameEnd q.tail ∧
        next = nameEnd + 4 := by
  unfold Question.decode Question.tail
  simp only [bind_eq_ok, word16_eq_ok_iff_shows, pure_apply, Except.ok.injEq, Prod.mk.injEq,
    Window.shows_append, length_octets16]
  constructor
  · intro h
    obtain ⟨_, nameEnd, name, _, _, ⟨type, rfl⟩, _, _, ⟨recordClass, rfl⟩, rfl, rfl⟩ := h
    exact ⟨nameEnd, name, ⟨type, recordClass⟩, rfl⟩
  · intro h
    obtain ⟨nameEnd, name, ⟨type, recordClass⟩, rfl⟩ := h
    exact ⟨_, nameEnd, name, _, _, ⟨type, rfl⟩, _, _, ⟨recordClass, rfl⟩, rfl, rfl⟩

/-- A question is written as its name and the octets behind a name. -/
theorem Question.encode_eq (q : Question) :
    q.encode = (Name.encode q.name).map fun name => name ++ q.tail := by
  unfold encode tail
  rw [except_bind_pure]
  simp only [List.append_assoc]

theorem Question.encode_eq_ok {q : Question} {octets : List UInt8} :
    q.encode = .ok octets ↔ ∃ n, Name.ofHostName q.name = .ok n ∧ n.wire ++ q.tail = octets := by
  rw [encode_eq, except_map_eq_ok]
  unfold Name.encode
  constructor
  · intro h
    obtain ⟨_, written, eq⟩ := h
    obtain ⟨n, name, rfl⟩ := except_map_eq_ok.1 written
    exact ⟨n, name, eq⟩
  · intro h
    obtain ⟨n, name, eq⟩ := h
    exact ⟨n.wire, except_map_eq_ok.2 ⟨n, name, rfl⟩, eq⟩

/-- Nothing but its name keeps a question from being written. -/
theorem Question.encode_eq_error {q : Question} {e : EncodeError} :
    q.encode = .error e ↔ Name.encode q.name = .error e := by
  rw [encode_eq, except_map_eq_error]

/-- A question that was written is read back where it stands. -/
theorem Question.decode_of_encode {q : Question} {octets : List UInt8} (h : q.encode = .ok octets)
    (shows : w.Shows pos octets) :
    Question.decode w pos = .ok ({ q with name := Name.spelling q.name }, pos + octets.length) := by
  obtain ⟨n, name, rfl⟩ := encode_eq_ok.1 h
  obtain ⟨at_name, at_tail⟩ := Window.shows_append.1 shows
  have text := Name.decodeText_of_shows at_name
  rw [Name.text_of_ofHostName name] at text
  refine Question.decode_eq_ok.2 ⟨_, text, at_tail, ?_⟩
  rw [List.length_append, Nat.add_assoc]
  rfl

/-- The ten octets between the name of a record and its data. -/
def RecordHeader.tail (h : RecordHeader) : List UInt8 :=
  octets16 h.type.code ++ octets16 h.recordClass.code ++ octets32 h.ttl ++ octets16 h.dataSize

theorem RecordHeader.decode_eq_ok {h : RecordHeader} :
    RecordHeader.decode w pos = .ok (h, next) ↔
      ∃ nameEnd, Name.decodeText w pos = .ok (h.owner, nameEnd) ∧ w.Shows nameEnd h.tail ∧
        next = nameEnd + 10 := by
  unfold RecordHeader.decode RecordHeader.tail
  simp only [bind_eq_ok, word16_eq_ok_iff_shows, word32_eq_ok_iff_shows, pure_apply,
    Except.ok.injEq, Prod.mk.injEq, Window.shows_append, List.length_append, length_octets16,
    length_octets32]
  constructor
  · intro h
    obtain ⟨_, nameEnd, name, _, _, ⟨type, rfl⟩, _, _, ⟨recordClass, rfl⟩, _, _, ⟨ttl, rfl⟩,
      _, _, ⟨dataSize, rfl⟩, rfl, rfl⟩ := h
    exact ⟨nameEnd, name, ⟨⟨⟨type, recordClass⟩, ttl⟩, dataSize⟩, rfl⟩
  · intro h
    obtain ⟨nameEnd, name, ⟨⟨⟨type, recordClass⟩, ttl⟩, dataSize⟩, rfl⟩ := h
    exact ⟨_, nameEnd, name, _, _, ⟨type, rfl⟩, _, _, ⟨recordClass, rfl⟩, _, _, ⟨ttl, rfl⟩,
      _, _, ⟨dataSize, rfl⟩, rfl, rfl⟩

/-- Data takes up the octets that it is given, all of them and none beyond. -/
theorem RecordData.next_of_decode {type : RecordType} {size : Nat} {data : RecordData}
    (h : RecordData.decode type size w pos = .ok (data, next)) :
    next = pos + size ∧ pos + size ≤ w.stop := by
  obtain ⟨room, read, full⟩ := filling_eq_ok.1 h
  have inside := ((confined_recordData type).stays (Nat.le_add_right pos size) read).2
  exact ⟨Nat.le_antisymm inside full, room⟩

theorem Record.decode_eq_ok {r : Record} :
    Record.decode w pos = .ok (r, next) ↔
      ∃ h mid, RecordHeader.decode w pos = .ok (h, mid) ∧
        RecordData.decode h.type h.dataSize.toNat w mid = .ok (r.data, next) ∧
        r.owner = h.owner ∧ r.recordClass = h.recordClass ∧ r.ttl = h.ttl := by
  unfold Record.decode RecordHeader.decodeRecord
  simp only [bind_eq_ok, pure_apply, Except.ok.injEq, Prod.mk.injEq]
  constructor
  · intro h
    obtain ⟨h, mid, header, data, _, read, rfl, rfl⟩ := h
    exact ⟨h, mid, header, read, rfl, rfl, rfl⟩
  · intro h
    obtain ⟨h, mid, header, read, owner, recordClass, ttl⟩ := h
    refine ⟨h, mid, header, r.data, next, read, ?_, rfl⟩
    rw [← owner, ← recordClass, ← ttl]

end DnsWire

import DnsWire.Proofs.Message.Alike
import DnsWire.Proofs.Message.Prefix
import DnsWire.Proofs.Message.Scan

/-!
# The octets behind the last record

A pointer leads backwards, but the labels that it leads to may run on beyond it, as far as the
window goes. So the octets that a message counts as left over may all the same have been read, as
part of a name (`decode_overlapping`). They are never read for anything else, and whether a message
is independent of them depends on the names at the start of its entries alone
(`decode_replaceTrailing`).

Two facts meet here. Octets behind a message that is read change nothing (`decode_append`), so all
depends on whether the message is still read when nothing is left behind its last record. It is if
each entry is, and an entry is if its name is (`occupies_narrow`): everything else lies where the
entry stands.
-/

namespace DnsWire

open Decoder

variable {w v : Window} {pos next stop : Nat}

/-! ## Names -/

/-- A name begins at `pos` and is spelled by octets in front of `bound` alone. -/
def Name.SpelledBelow (octets : Array UInt8) (bound pos : Nat) : Prop :=
  ∃ labels pointers next, Name.Spells octets bound pos pos labels pointers next

theorem Name.spelledBelow_of_decodeText {text : String}
    (h : Name.decodeText w pos = .ok (text, next)) : SpelledBelow w.octets w.stop pos := by
  obtain ⟨n, read, -⟩ := map_eq_ok.1 h
  obtain ⟨pointers, spells, -⟩ := spells_of_decode read
  exact ⟨_, pointers, next, spells⟩

theorem Name.decodeText_narrow {text : String} (h : Name.decodeText w pos = .ok (text, next))
    (le : stop ≤ w.stop) (below : SpelledBelow w.octets stop pos) :
    Name.decodeText (w.narrow stop le) pos = .ok (text, next) := by
  obtain ⟨n, read, rfl⟩ := map_eq_ok.1 h
  obtain ⟨pointers, spells, few⟩ := spells_of_decode read
  obtain ⟨_, _, _, spells'⟩ := below
  obtain ⟨rfl, rfl, rfl⟩ := spells.unique spells'
  have fits : spelledSize (n.labels.map Label.octets) < maxWireSize := by
    rw [spelledSize_octets]
    exact n.fits
  rw [decodeText_of_spells (w := w.narrow stop le) spells' few, if_pos fits, text_eq_spelledText]

namespace Message

/-! ## Entries -/

/-- Of all that an entry is read from, only the octets of its name may lie behind it. -/
theorem occupies_narrow {e : Entry} (h : e.Occupies w pos next) (inside : next ≤ stop)
    (le : stop ≤ w.stop) :
    e.Occupies (w.narrow stop le) pos next ↔ Name.SpelledBelow w.octets stop pos := by
  have begins := w.begins_narrow le
  cases e with
  | question q =>
      constructor
      · intro h'
        obtain ⟨-, _, name, -⟩ := h'
        exact Name.spelledBelow_of_decodeText name
      · intro below
        obtain ⟨h, _, name, -⟩ := h
        exact occupies_question (Question.decode_of_begins begins (.refl _) h inside
          (Name.decodeText_narrow name le below))
  | record r =>
      constructor
      · intro h'
        obtain ⟨-, _, _, name, -⟩ := h'
        exact Name.spelledBelow_of_decodeText name
      · intro below
        obtain ⟨h, _, _, name, -⟩ := h
        exact occupies_record (Record.decode_of_begins begins (.refl _) h inside
          (Name.decodeText_narrow name le below))

theorem occupies_of_begins (begins : w.Begins v) {e : Entry}
    (h : e.Occupies w pos next) : e.Occupies v pos next := by
  cases e with
  | question q => exact occupies_question (steady_question.ok_of_begins begins h.1)
  | record r => exact occupies_record (steady_record.ok_of_begins begins h.1)

theorem tiles_narrow {entries : List Entry} (le : stop ≤ w.stop) :
    Tiles (Entry.Occupies (w.narrow stop le)) pos entries stop ↔
      Tiles (fun e pos next => e.Occupies w pos next ∧ Name.SpelledBelow w.octets stop pos)
        pos entries stop := by
  constructor
  · intro tiles
    refine (tiles.inside fun _ _ _ h => Nat.le_of_lt (lt_of_occupies h)).imp ?_
    intro e pos next h
    obtain ⟨h, inside⟩ := h
    have farther := occupies_of_begins (w.begins_narrow le) h
    exact ⟨farther, (occupies_narrow farther inside le).1 h⟩
  · intro tiles
    refine (tiles.inside fun _ _ _ h => Nat.le_of_lt (lt_of_occupies h.1)).imp ?_
    intro e pos next h
    obtain ⟨⟨h, below⟩, inside⟩ := h
    exact (occupies_narrow h inside le).2 below

theorem decodeSectionEntries_iff_tiles {head : HeaderSection} {m : Message}
    (h : decodeSectionEntries head w pos = .ok (m, next)) :
    decodeSectionEntries head v pos = .ok (m, next) ↔
      Tiles (Entry.Occupies v) pos m.entries next := by
  refine ⟨tiles_of_decodeSectionEntries, fun tiles => ?_⟩
  obtain ⟨questions, answer, authority, additional⟩ := lengths_of_decodeSectionEntries h
  obtain ⟨_, _, _, -, -, -, -, fields⟩ := decodeSectionEntries_eq_ok.1 h
  obtain ⟨additionalAt, tiles, additionalTiles⟩ := tiles_append.1 tiles
  obtain ⟨authorityAt, tiles, authorityTiles⟩ := tiles_append.1 tiles
  obtain ⟨answerAt, questionTiles, answerTiles⟩ := tiles_append.1 tiles
  exact decodeSectionEntries_eq_ok.2 ⟨answerAt, authorityAt, additionalAt,
    times_eq_ok.2 ⟨questions, (tiles_map.1 questionTiles).imp fun _ _ _ => And.left⟩,
    times_eq_ok.2 ⟨answer, (tiles_map.1 answerTiles).imp fun _ _ _ => And.left⟩,
    times_eq_ok.2 ⟨authority, (tiles_map.1 authorityTiles).imp fun _ _ _ => And.left⟩,
    times_eq_ok.2 ⟨additional, (tiles_map.1 additionalTiles).imp fun _ _ _ => And.left⟩, fields⟩

/-! ## Messages -/

/-- The entries of a message without error end where its trailing octets begin. -/
theorem sections_of_decode {octets : Array UInt8} {m : Message} (h : decode octets = .ok m)
    (status : m.status = .noError) :
    HeaderSection.size ≤ octets.size - m.trailing ∧ m.trailing ≤ octets.size ∧
      reportsError m.head.header = false ∧
      decodeSectionEntries m.head (Window.whole octets) HeaderSection.size =
        .ok ({ m with trailing := 0 }, octets.size - m.trailing) := by
  obtain ⟨shows, ⟨-, eq⟩ | ⟨passed, next, read, trailing⟩⟩ := decode_eq_ok.1 h
  · rw [eq] at status
    cases status
  · have room := HeaderSection.size_le_of_shows shows
    obtain ⟨long, le⟩ := (steady_decodeSectionEntries m.head).stays room read
    have stop : octets.size - m.trailing = next := by
      rw [trailing]
      exact Nat.sub_sub_self le
    rw [stop]
    exact ⟨long, trailing ▸ Nat.sub_le _ _, passed, read⟩

/-- Octets behind a message that is read are left over. -/
theorem decode_append {octets : Array UInt8} {m : Message} (h : decode octets = .ok m)
    (status : m.status = .noError) (tail : Array UInt8) :
    decode (octets ++ tail) = .ok { m with trailing := m.trailing + tail.size } := by
  have first : (octets ++ tail).extract 0 octets.size = octets := by simp
  have le : octets.size ≤ (octets ++ tail).size := by simp
  have long := Nat.le_trans (sections_of_decode h status).1 (Nat.sub_le _ _)
  rcases decode_extract_cases le long with cut | ⟨e, fails, -⟩ | ⟨m', n, read, whole, same⟩
  · rw [first, h] at cut
    cases cut
  · rw [first, h] at fails
    cases fails
  · rw [first, h] at read
    cases read
    rw [whole, same.eq_of_noError status, Array.size_append, Nat.add_sub_cancel_left]

/-- With nothing left behind its last record, a message is read or runs out of octets. -/
theorem decode_dropTrailing_cases {octets : Array UInt8} {m : Message} (h : decode octets = .ok m)
    (status : m.status = .noError) :
    decode (octets.extract 0 (octets.size - m.trailing)) = .error .truncated ∨
      decode (octets.extract 0 (octets.size - m.trailing)) = .ok { m with trailing := 0 } := by
  obtain ⟨long, le, -⟩ := sections_of_decode h status
  rcases decode_extract_cases (Nat.sub_le _ _) long with
    cut | ⟨e, -, fails⟩ | ⟨m', n, read, whole, same⟩
  · exact Or.inl cut
  · rw [h] at fails
    cases fails
  · rw [h] at whole
    cases whole
    have eq := same.eq_of_noError (same.status_eq.symm.trans status)
    have none : m'.trailing = 0 := by
      have := congrArg trailing eq
      dsimp only at this
      omega
    refine Or.inr ?_
    rw [read, eq, ← none]

/-- The entries of the message tile its octets, and the name at the start of each of them is spelled
by octets up to the last record. -/
def NamesInside (octets : Array UInt8) (m : Message) : Prop :=
  Tiles (fun e pos next => e.Occupies (Window.whole octets) pos next ∧
      Name.SpelledBelow octets (octets.size - m.trailing) pos)
    HeaderSection.size m.entries (octets.size - m.trailing)

/-- With nothing left behind its last record, a message is read exactly if no name needs what was
there. -/
theorem decode_dropTrailing_iff {octets : Array UInt8} {m : Message} (h : decode octets = .ok m)
    (status : m.status = .noError) :
    decode (octets.extract 0 (octets.size - m.trailing)) = .ok { m with trailing := 0 } ↔
      NamesInside octets m := by
  obtain ⟨long, -, passed, read⟩ := sections_of_decode h status
  unfold NamesInside
  have le : octets.size - m.trailing ≤ octets.size := Nat.sub_le _ _
  generalize octets.size - m.trailing = stop at long read le ⊢
  have size : (octets.extract 0 stop).size = stop := Array.size_extract_of_le le
  -- The message that ends there shows what the whole message does under a bound there.
  have begins : (Window.whole (octets.extract 0 stop)).Begins ((Window.whole octets).narrow stop le) :=
    ⟨Nat.le_of_eq size, (begins_extract le).agree⟩
  have sees := (steady_decodeSectionEntries m.head).confined.sees begins size HeaderSection.size
  refine Iff.trans ?_ ((decodeSectionEntries_iff_tiles read).trans (tiles_narrow le))
  rw [← sees]
  constructor
  · intro cut
    have status' : ({ m with trailing := 0 } : Message).status = .noError := status
    obtain ⟨-, -, -, read'⟩ := sections_of_decode cut status'
    rwa [size] at read'
  · intro read'
    refine decode_eq_ok.2 ⟨?_, Or.inr ⟨passed, stop, read', by rw [size, Nat.sub_self]⟩⟩
    refine ((begins_extract le).shows ?_).2 (decode_eq_ok.1 h).1
    rw [HeaderSection.length_wire, Nat.zero_add]
    exact Nat.le_trans long (Nat.le_of_eq size.symm)

theorem begins_append (octets tail : Array UInt8) :
    (Window.whole octets).Begins (Window.whole (octets ++ tail)) where
  stop_le := by simp [Window.whole]
  agree := fun _ lt => (Array.getElem?_append_left lt).symm

/-- Other octets behind the last record may change names, but nothing else. -/
theorem nameless_of_decode {octets tail : Array UInt8} {m m' : Message} (h : decode octets = .ok m)
    (status : m.status = .noError)
    (h' : decode (octets.extract 0 (octets.size - m.trailing) ++ tail) = .ok m') :
    m'.nameless = { m.nameless with trailing := tail.size } := by
  obtain ⟨long, -, passed, read⟩ := sections_of_decode h status
  have le : octets.size - m.trailing ≤ octets.size := Nat.sub_le _ _
  generalize octets.size - m.trailing = stop at long read le h'
  have size : (octets.extract 0 stop).size = stop := Array.size_extract_of_le le
  have left := begins_extract le
  have right := begins_append (octets.extract 0 stop) tail
  have room : 0 + m.head.wire.length ≤ (Window.whole (octets.extract 0 stop)).stop := by
    rw [HeaderSection.length_wire, Nat.zero_add]
    exact Nat.le_trans long (Nat.le_of_eq size.symm)
  have shows := (right.shows room).1 ((left.shows room).2 (decode_eq_ok.1 h).1)
  obtain ⟨shows', kind⟩ := decode_eq_ok.1 h'
  have head : m'.head = m.head := by
    have read := HeaderSection.decode_eq_ok.2 ⟨shows, rfl⟩
    rw [HeaderSection.decode_eq_ok.2 ⟨shows', rfl⟩] at read
    exact (Prod.mk.inj (Except.ok.inj read)).1
  rw [head] at kind
  rcases kind with ⟨failed, -⟩ | ⟨-, next, read', trailing⟩
  · rw [passed] at failed
    cases failed
  · obtain ⟨rfl, same⟩ := sameUpTo_nameless left right m.head (Nat.le_trans long le) read
      (Nat.le_of_eq size.symm) read'
    rw [Array.size_append, size, Nat.add_sub_cancel_left] at trailing
    calc m'.nameless
        = { nameless { m' with trailing := 0 } with trailing := m'.trailing } := rfl
      _ = { nameless { m with trailing := 0 } with trailing := tail.size } := by
          rw [head, ← same, trailing]

/-- **What the octets behind the last record can change.** Let a message be read without error. If
every name in front of an entry is spelled by the octets up to the last record, the octets that are
left over may be replaced by any others, and nothing but their number changes. If not, the message
runs out of octets without them, and with others in their place it is the same but for names. -/
theorem decode_replaceTrailing {octets : Array UInt8} {m : Message} (h : decode octets = .ok m)
    (status : m.status = .noError) :
    (NamesInside octets m → ∀ tail,
      decode (octets.extract 0 (octets.size - m.trailing) ++ tail) =
        .ok { m with trailing := tail.size }) ∧
    (¬ NamesInside octets m →
      decode (octets.extract 0 (octets.size - m.trailing)) = .error .truncated) ∧
    ∀ tail m', decode (octets.extract 0 (octets.size - m.trailing) ++ tail) = .ok m' →
      m'.nameless = { m.nameless with trailing := tail.size } := by
  rw [← decode_dropTrailing_iff h status]
  refine ⟨?_, ?_, fun tail m' h' => nameless_of_decode h status h'⟩
  · intro read tail
    rw [decode_append read status, Nat.zero_add]
  · intro unread
    exact (decode_dropTrailing_cases h status).resolve_right unread

/-- The sample is read the same whatever stands in place of the octet that is left over. -/
theorem decode_replaceTrailing_sample :
    ∃ m, decode sample = .ok m ∧ ∀ tail, decode (sample.extract 0 34 ++ tail) =
      .ok { m with trailing := tail.size } := by
  obtain ⟨m, decoded, status, -, -, -, -, trailing⟩ := exists_decode_sample
  obtain ⟨keeps, cut, -⟩ := decode_replaceTrailing decoded status
  have stop : sample.size - m.trailing = 34 := by
    rw [trailing]
    rfl
  rw [stop] at keeps cut
  have read : (decode (sample.extract 0 34)).toOption.isSome := by
    decide +kernel
  refine ⟨m, decoded, keeps (Classical.byContradiction fun outside => ?_)⟩
  rw [cut outside] at read
  cases read

/-- A question whose name is a pointer to the first octet, which counts as the size of a label. This
label takes up all octets up to the last one, so the zero octet left over ends the name. -/
def overlapping : Array UInt8 :=
  #[17, 97, 1, 0, 0, 1, 0, 0, 0, 0, 0, 0, 0xC0, 0, 0, 1, 0, 1, 0]

/-- With another label in place of the octet that is left over, the name has one label more. -/
theorem decode_overlapping :
    ∃ m n, decode overlapping = .ok m ∧ m.status = .noError ∧ m.trailing = 1 ∧
      decode (overlapping.extract 0 18 ++ #[1, 120, 0]) = .ok n ∧ n.questions ≠ m.questions := by
  have read : (decode overlapping).toOption.map (fun m =>
      (m.isError, m.trailing, m.questions.map fun q => q.name.length)) = some (false, 1, [17]) := by
    decide +kernel
  have read' : (decode (overlapping.extract 0 18 ++ #[1, 120, 0])).toOption.map (fun n =>
      n.questions.map fun q => q.name.length) = some [19] := by
    decide +kernel
  obtain ⟨m, decoded, numbers⟩ := except_toOption_map_eq_some.1 read
  obtain ⟨n, decoded', longer⟩ := except_toOption_map_eq_some.1 read'
  simp only [Prod.mk.injEq] at numbers
  obtain ⟨passed, trailing, shorter⟩ := numbers
  refine ⟨m, n, decoded, isError_eq_false.1 passed, trailing, decoded', ?_⟩
  intro same
  rw [same, shorter] at longer
  cases longer

end Message

end DnsWire

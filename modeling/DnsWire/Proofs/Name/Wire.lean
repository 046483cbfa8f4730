import DnsWire.Proofs.Decoder.Shows
import DnsWire.Proofs.Name.Step
import DnsWire.Text.Utf8.Lemmas

/-!
# Names and their octets

A name is read back from its wire format wherever that stands in a message
(`Name.decode_of_shows`), and a name that a host name spells has that host name for its text
(`Name.text_of_ofHostName`). So the text of what is written for a host name is the host name,
whatever characters it is made of: no label is long enough to be cut, none is changed on its way
through UTF-8, and the limits of writing are those of reading.
-/

namespace DnsWire

/-! ## Reading what was written -/

/-- Labels that stand one behind the other with a zero octet at their end are passed one by one. -/
theorem Walk.run_of_shows {w : Window} {labels : List Label} {s : Walk}
    (shows : w.Shows s.position (labels.flatMap Label.wire ++ [0]))
    (fits : s.passed + Label.wireSizes labels < Name.maxWireSize) :
    s.run w = .ok (labels, s.position + Label.wireSizes labels + 1) := by
  induction labels generalizing s with
  | nil =>
      obtain ⟨zero, room⟩ := shows
      exact run_of_done (step_eq_done.2 ⟨room, zero, rfl⟩)
  | cons l labels ih =>
      rw [List.flatMap_cons, List.append_assoc, Window.shows_append, Label.length_wire] at shows
      obtain ⟨⟨at_pos, content⟩, behind⟩ := shows
      rw [Label.wireSizes_cons] at fits ⊢
      -- The octet that has to stand behind a label is the size of the next one or the zero.
      have room : s.position + l.wireSize + 1 ≤ w.stop := by
        have := behind.room
        rw [List.length_append, List.length_singleton] at this
        omega
      have octets : (w.octets.extract (s.position + 1) (s.position + l.wireSize)).toList =
          l.octets := by
        have := (Window.shows_iff.1 content).2
        rw [Nat.add_right_comm] at this
        exact this
      have step := step_eq_label.2 ⟨room, at_pos, octets, by omega, rfl⟩
      have rest := ih (s := { s with position := _, passed := _ }) behind (by
        rw [Nat.add_assoc]
        exact fits)
      rw [run_of_label step, rest]
      simp only [Except.map, Nat.add_assoc]

/-- A name is read where its wire format stands. -/
theorem Name.decode_of_shows {w : Window} {pos : Nat} {n : Name} (shows : w.Shows pos n.wire) :
    Name.decode w pos = .ok (n, pos + n.wireSize) := by
  have fits := n.fits
  refine Name.decode_eq_ok.2 (Walk.run_of_shows shows ?_)
  simp only [Walk.start]
  omega

/-- A name is read as its text where its wire format stands. -/
theorem Name.decodeText_of_shows {w : Window} {pos : Nat} {n : Name}
    (shows : w.Shows pos n.wire) :
    Name.decodeText w pos = .ok (n.text, pos + n.wire.length) := by
  rw [Name.length_wire]
  exact Decoder.map_eq_ok.2 ⟨n, Name.decode_of_shows shows, rfl⟩

/-! ## Host names -/

/-- A label has the octets of the part of the host name that it is made from. -/
theorem Label.ofText_eq_ok {part : List Char} {l : Label} :
    ofText part = .ok l ↔ Utf8.encode part = l.octets := by
  unfold ofText
  dsimp only
  constructor
  · intro h
    split at h
    · split at h
      · cases h
        rfl
      · cases h
    · cases h
  · intro h
    have pos := l.size_pos
    have le := l.size_le
    rw [← h] at pos le
    rw [dif_pos pos, dif_pos le]
    congr 1
    ext1
    exact h

/-- Parts of a host name make labels exactly if they have the octets of those. -/
theorem Label.mapM_ofText_eq_ok {parts : List (List Char)} {labels : List Label} :
    parts.mapM ofText = .ok labels ↔ parts.map Utf8.encode = labels.map octets := by
  induction parts generalizing labels with
  | nil => cases labels <;> simp [pure, Except.pure]
  | cons part parts ih =>
      rw [List.mapM_cons, except_bind_eq_ok]
      constructor
      · intro h
        obtain ⟨l, first, h⟩ := h
        obtain ⟨others, tail, h⟩ := except_bind_eq_ok.1 h
        cases h
        rw [List.map_cons, List.map_cons, ofText_eq_ok.1 first, ih.1 tail]
      · intro h
        cases labels with
        | nil => cases h
        | cons l labels =>
            obtain ⟨first, tail⟩ := List.cons.inj h
            exact ⟨l, ofText_eq_ok.2 first, except_bind_eq_ok.2 ⟨labels, ih.2 tail, rfl⟩⟩

/-- Labels have the parts of the host name that they are made from for their texts. -/
theorem Label.map_text_of_ofText {parts : List (List Char)} {labels : List Label}
    (h : parts.mapM ofText = .ok labels) : labels.map text = parts := by
  have texts := congrArg (List.map Utf8.decode) (mapM_ofText_eq_ok.1 h)
  rw [List.map_map, List.map_map] at texts
  exact texts.symm.trans (by simp [Function.comp_def])

namespace Name

/-- A host name as it is read back: without the one dot that may stand at its end, and as a dot
where nothing would be left. -/
def spelling (host : String) : String :=
  if host = "" ∨ host = "." then "."
  else if host.toList.getLast? = some '.' then String.ofList host.toList.dropLast
  else host

theorem isEmpty_withoutFinalDot {host : List Char} :
    (withoutFinalDot host).isEmpty = true ↔ host = [] ∨ host = ['.'] := by
  unfold withoutFinalDot
  rw [List.isEmpty_iff]
  by_cases dot : host.getLast? = some '.'
  · obtain ⟨front, rfl⟩ := List.getLast?_eq_some_iff.1 dot
    simp
  · rw [if_neg dot]
    constructor
    · exact Or.inl
    · intro h
      rcases h with rfl | rfl
      · rfl
      · exact absurd rfl dot

theorem spelling_eq (host : String) :
    spelling host =
      if (withoutFinalDot host.toList).isEmpty then "."
      else String.ofList (withoutFinalDot host.toList) := by
  have empty : (withoutFinalDot host.toList).isEmpty = true ↔ host = "" ∨ host = "." := by
    rw [isEmpty_withoutFinalDot, ← String.toList_inj, ← String.toList_inj]
    rfl
  unfold spelling
  by_cases root : host = "" ∨ host = "."
  · rw [if_pos root, if_pos (empty.2 root)]
  · rw [if_neg root, if_neg (fun h => root (empty.1 h))]
    unfold withoutFinalDot
    split
    · rfl
    · exact String.ofList_toList.symm

theorem isEmpty_parts (host : List Char) :
    (parts host).isEmpty = (withoutFinalDot host).isEmpty := by
  unfold parts
  dsimp only
  by_cases root : (withoutFinalDot host).isEmpty = true
  · rw [if_pos root, root]
    rfl
  · rw [if_neg root, Bool.eq_false_iff.2 root]
    exact List.isEmpty_eq_false_iff.2 (List.splitOn_ne_nil _ _)

theorem intercalate_parts (host : List Char) :
    ['.'].intercalate (parts host) = withoutFinalDot host := by
  unfold parts
  dsimp only
  split
  · next empty => rw [List.isEmpty_iff.1 empty, List.intercalate_nil]
  · exact List.intercalate_splitOn _

/-- A host name without its final dot is as good as its parts. -/
theorem parts_inj {left right : List Char} :
    parts left = parts right ↔ withoutFinalDot left = withoutFinalDot right := by
  refine ⟨fun same => ?_, fun same => ?_⟩
  · rw [← intercalate_parts, same, intercalate_parts]
  · unfold parts
    rw [same]

theorem ofHostName_eq_ok {host : String} {n : Name} :
    ofHostName host = .ok n ↔ (parts host.toList).mapM Label.ofText = .ok n.labels := by
  obtain ⟨labels, fits⟩ := n
  unfold ofHostName
  rw [except_bind_eq_ok]
  constructor
  · intro h
    obtain ⟨read, parts, h⟩ := h
    split at h
    · cases h
      exact parts
    · cases h
  · intro parts
    exact ⟨labels, parts, dif_pos fits⟩

/-- The name that a host name spells has the host name for its text. -/
theorem text_of_ofHostName {host : String} {n : Name} (h : ofHostName host = .ok n) :
    n.text = spelling host := by
  have texts := Label.map_text_of_ofText (ofHostName_eq_ok.1 h)
  -- A host name falls into one part at least, so only the root is without labels.
  have root : n.labels.isEmpty = (withoutFinalDot host.toList).isEmpty := by
    rw [← isEmpty_parts, ← texts, List.isEmpty_map]
  unfold text textOf
  rw [spelling_eq, texts, root]
  cases empty : (withoutFinalDot host.toList).isEmpty with
  | true => rfl
  | false => rw [if_neg (by decide), if_neg (by decide), intercalate_parts]

end Name

end DnsWire

import DnsWire.Proofs.Guarded.Cursor
import DnsWire.Proofs.Name.Compression

/-!
# Labels behind guards

What stands in front of a label is read in bits, and a label itself goes through a buffer that has
room for the longest one. The text of a name grows with each label, and whether a dot is due in
between is seen from the text: a label is never without a text, even where its octets are not UTF-8
(`Spelling.text_ofLabels_eq_empty`), so no dot is missing and no name with labels is taken for the
root.

* `Cursor.head`, `Cursor.label`, `Cursor.follow` — what is read of a name at one place. Inside a
  window they come to what a decoder comes to (`head_cursorAt`, `label_cursorAt`,
  `follow_cursorAt`).
* `Spelling` — what the labels passed so far amount to (`Spelling.push_ofLabels`,
  `Spelling.finish_ofLabels`).
-/

namespace DnsWire

theorem Label.wireSizes_concat (labels : List Label) (l : Label) :
    wireSizes (labels ++ [l]) = wireSizes labels + l.wireSize := by
  rw [← length_flatMap_wire, List.flatMap_append, List.length_append, length_flatMap_wire,
    length_flatMap_wire]
  rfl

namespace Guarded

/-! ## In front of a label -/

/-- Reads what stands in front of a label. -/
def Cursor.head (max : Nat) (c : Cursor) : Except Halt (LabelHead × Cursor) := do
  let (first, behind) ← c.octet max
  if first = 0 then return (.root, behind)
  else if h : 0 < first.toNat ∧ first.toNat ≤ Label.maxSize then
    return (.label ⟨first.toNat, h⟩, behind)
  else if first < 0xC0 then .error (.error (.form .invalidLabelType))
  else
    let (second, behind) ← behind.octet max
    -- The two upper bits say that this is a pointer; only the others are moved.
    let high ← shift max (first.toNat &&& 0x3F) 8
    return (.pointer (second.toNat ||| high), behind)

/-- Takes the octets of a label by way of a buffer that holds the longest one. -/
def Cursor.label (max : Nat) (c : Cursor) (size : Nat) : Except Halt (Array UInt8 × Cursor) := do
  let buffer := Array.replicate Label.maxSize 0
  let part ← slice buffer 0 size
  let (octets, behind) ← c.take max part.size
  let buffer ← overwrite buffer part.size octets
  let label ← slice buffer 0 size
  return (label, behind)

/-- Goes on at the target of a pointer. That there is no such position must not happen. -/
def Cursor.follow (c : Cursor) (target : Nat) : Except Halt Cursor :=
  (c.seek target).mapError fun _ => .fault .seek

section

variable {max : Nat} {w : Window} {pos : Nat}

/-- The bits of a pointer are its target. -/
theorem lor_shift_eq (high low : UInt8) :
    low.toNat ||| (high.toNat &&& 0x3F) <<< 8 = LabelHead.targetOf high low := by
  have and : high.toNat &&& 0x3F = high.toNat % 64 := Nat.and_two_pow_sub_one_eq_mod _ 6
  rw [and, Nat.or_comm, ← Nat.shiftLeft_add_eq_or_of_lt low.toNat_lt, Nat.shiftLeft_eq,
    LabelHead.targetOf]
  omega

theorem head_cursorAt (words : 65535 ≤ max) (fits : w.octets.size ≤ max) (le : pos ≤ w.stop) :
    (cursorAt w pos).head max =
      lift ((LabelHead.decode w pos).map fun r => (r.1, cursorAt w r.2)) := by
  rw [Cursor.head, LabelHead.decode, octet_cursorAt fits le, Decoder.bind_apply]
  cases read : Decoder.octet w pos with
  | error e => rfl
  | ok r =>
      obtain ⟨first, next⟩ := r
      obtain ⟨room, -, rfl⟩ := Decoder.octet_eq_ok.1 read
      simp only [Except.map, lift_ok, ok_bind]
      split
      · rfl
      split
      · rfl
      split
      · rfl
      · rw [octet_cursorAt fits room, Decoder.bind_apply]
        cases Decoder.octet w (pos + 1) with
        | error e => rfl
        | ok r =>
            have small : (first.toNat &&& 0x3F) <<< 8 ≤ max := by
              rw [Nat.and_two_pow_sub_one_eq_mod _ 6, Nat.shiftLeft_eq]
              omega
            simp only [Except.map, lift_ok, ok_bind, shift_of_le small, lor_shift_eq]
            rfl

theorem label_cursorAt (fits : w.octets.size ≤ max) {size : Nat} (short : size ≤ Label.maxSize)
    (room : pos + size ≤ w.stop) :
    (cursorAt w pos).label max size =
      .ok ((w.slice pos size room).toArray, cursorAt w (pos + size)) := by
  have part : ((Array.replicate Label.maxSize (0 : UInt8)).extract 0 size).size = size := by
    rw [Array.size_extract, Array.size_replicate]
    omega
  have taken : (w.slice pos size room).toArray.size = size := Vector.size_toArray _
  rw [Cursor.label, slice_of_le (Nat.zero_le _) (by rwa [Array.size_replicate]), ok_bind, part,
    take_cursorAt fits (by omega), Decoder.vector, dif_pos room]
  simp only [Except.map, lift_ok, ok_bind]
  rw [overwrite_of_le (by rwa [Array.size_replicate]) taken, ok_bind,
    slice_of_le (Nat.zero_le _) (by rw [Array.size_append, taken]; omega), ok_bind]
  simp

theorem follow_cursorAt {target : Nat} (le : target ≤ w.stop) :
    (cursorAt w pos).follow target = .ok (cursorAt w target) := by
  rw [Cursor.follow, Cursor.seek, cursorAt, if_pos le]
  rfl

end

/-! ## What has been spelled -/

/-- A name of which the first labels have been passed. -/
structure Spelling where
  /-- The octets of the labels. Nothing is computed from them; they are what the rest is about. -/
  labels : List (List UInt8) := []
  /-- The text of the labels. -/
  text : String := ""
  /-- The number of octets that the labels take. -/
  wireSize : Nat := 0
  deriving DecidableEq, Repr

namespace Spelling

/-- One label more. Whether a dot is due is seen from the text. -/
def push (max : Nat) (s : Spelling) (label : Array UInt8) : Except Halt Spelling := do
  let size ← add max label.size 1
  let wireSize ← add max s.wireSize size
  -- The limit counts the octet of the root, which is not passed as a label.
  if Name.maxWireSize ≤ wireSize then .error (.error (.form .longName))
  else
    return {
      labels := s.labels ++ [label.toList]
      text := (if s.text.isEmpty then s.text else s.text.push '.') ++
        String.ofList (Utf8.decode label.toList)
      wireSize }

/-- A label takes octets of a name, and is passed where there is room for the root behind it. -/
theorem wireSize_of_push {max : Nat} {s t : Spelling} {label : Array UInt8}
    (h : s.push max label = .ok t) :
    s.wireSize < t.wireSize ∧ t.wireSize < Name.maxWireSize := by
  obtain ⟨size, grown, h⟩ := except_bind_eq_ok.1 h
  obtain ⟨wireSize, sum, h⟩ := except_bind_eq_ok.1 h
  obtain ⟨-, rfl⟩ := add_eq_ok.1 grown
  obtain ⟨-, rfl⟩ := add_eq_ok.1 sum
  split at h
  · cases h
  · next room =>
    cases h
    exact ⟨by dsimp only; omega, Nat.not_le.1 room⟩

/-- The text of the whole name, which is a dot if there is no text. -/
def finish (s : Spelling) : String :=
  if s.text.isEmpty then "." else s.text

/-- What these labels are spelled as. -/
def ofLabels (labels : List Label) : Spelling where
  labels := labels.map Label.octets
  text := if labels = [] then "" else Name.spelledText (labels.map Label.octets)
  wireSize := Label.wireSizes labels

variable {max : Nat}

theorem text_ofLabels_cons (l : Label) (labels : List Label) :
    (ofLabels (l :: labels)).text = Name.spelledText (l.octets :: labels.map Label.octets) := rfl

/-- A label has a text, so there is none only where there are no labels. -/
theorem text_ofLabels_eq_empty {labels : List Label} :
    (ofLabels labels).text = "" ↔ labels = [] := by
  cases labels with
  | nil => exact iff_of_true rfl rfl
  | cons l labels =>
      have first : Name.spelledText [l.octets] ≠ "" := by
        rw [Name.spelledText_singleton, Ne, String.ofList_eq_empty_iff, Utf8.decode_eq_nil]
        exact List.ne_nil_of_length_pos l.size_pos
      refine iff_of_false ?_ (List.cons_ne_nil l labels)
      rw [text_ofLabels_cons, ← List.singleton_append, Name.spelledText_append,
        if_neg (List.cons_ne_nil _ _)]
      split
      · exact first
      · rw [String.append_eq_empty_iff, String.append_eq_empty_iff]
        exact fun h => first h.1.1

theorem ofLabels_concat (labels : List Label) (l : Label) :
    ofLabels (labels ++ [l]) = {
      labels := (ofLabels labels).labels ++ [l.octets]
      text := (if (ofLabels labels).text.isEmpty then (ofLabels labels).text
        else (ofLabels labels).text.push '.') ++ String.ofList (Utf8.decode l.octets)
      wireSize := Label.wireSizes labels + l.wireSize } := by
  by_cases none : labels = []
  · subst none
    simp [ofLabels, Name.spelledText_singleton]
  · have some : (ofLabels labels).text.isEmpty = false := by
      rw [Bool.eq_false_iff, Ne, String.isEmpty_iff, text_ofLabels_eq_empty]
      exact none
    have dot (t : String) : t.push '.' = t ++ "." := String.push_eq_append '.'
    rw [some]
    simp [ofLabels, none, dot, Label.wireSizes_concat, Name.spelledText_append,
      Name.spelledText_singleton]

theorem push_ofLabels (words : 65535 ≤ max) {labels : List Label}
    (passed : Label.wireSizes labels < Name.maxWireSize) (l : Label) :
    (ofLabels labels).push max l.octets.toArray =
      if Label.wireSizes labels + l.wireSize < Name.maxWireSize then
        .ok (ofLabels (labels ++ [l]))
      else .error (.error (.form .longName)) := by
  have short : l.wireSize ≤ 64 := Nat.succ_le_succ l.size_le
  have size : add max l.octets.toArray.size 1 = .ok l.wireSize := add_of_le (by
    change l.wireSize ≤ max
    omega)
  have sum : add max (ofLabels labels).wireSize l.wireSize =
      .ok (Label.wireSizes labels + l.wireSize) := add_of_le (by
    change Label.wireSizes labels + l.wireSize ≤ max
    simp only [Name.maxWireSize] at passed
    omega)
  rw [push, size, ok_bind, sum, ok_bind, ofLabels_concat]
  by_cases room : Label.wireSizes labels + l.wireSize < Name.maxWireSize
  · rw [if_neg (Nat.not_le.2 room), if_pos room]
    rfl
  · rw [if_pos (Nat.not_lt.1 room), if_neg room]

/-- The text of a name is that of its labels. -/
theorem finish_ofLabels (labels : List Label) :
    (ofLabels labels).finish = Name.spelledText (labels.map Label.octets) := by
  rw [finish]
  by_cases none : labels = []
  · rw [none]
    rfl
  · rw [if_neg]
    · simp [ofLabels, none]
    · rw [String.isEmpty_iff, text_ofLabels_eq_empty]
      exact none

end Spelling

end Guarded

end DnsWire

import DnsWire.Proofs.Record.Strings
import DnsWire.Record.Data

/-!
# Character strings in quotes

A master file holds character strings in quotes, with one space between neighbours. Inside of the
quotes a backslash and three digits are the octet with that number, a backslash in front of any
other character is that character, and every other character is itself.

* `CharacterStrings.readFrom?` — these rules, one character at a time: `Place` says what the
  character may be.
* `CharacterStrings.ofQuoted?` — the strings that a text holds.

Strings are written so that they read back (`CharacterStrings.ofQuoted?_quoted`), in printable ASCII
alone (`CharacterStrings.printable_of_mem_quoted`).

## Proof shape

Whatever stands behind an octet in quotes, the reader takes the octet off and is inside of the
quotes again (`readFrom?_quotedOctet`). This goes on for a string (`readFrom?_flatMap`), and then
for the strings behind it (`readFrom?_behind`). So the text behind is arbitrary in each of these, and no
quote or digit in it is taken for a part of what is in front.
-/

namespace DnsWire.CharacterStrings

/-! ## The rules -/

/-- Where a character stands. -/
inductive Place where
  /-- In front of a string: the opening quote. -/
  | between
  /-- Inside of the quotes. -/
  | inside
  /-- Behind a backslash and the digits that follow it so far. -/
  | escape (digits : List Char)
  /-- Behind the closing quote. -/
  | behind

/-- The octet of an ASCII character. -/
def ofChar? (c : Char) : Option UInt8 :=
  if c.toNat < 128 then some (UInt8.ofNat c.toNat) else none

/-- The octet with a number. -/
def ofNumeral? (digits : List Char) : Option UInt8 :=
  (Decimal.numeral? digits).bind fun n => if n < 256 then some (UInt8.ofNat n) else none

/-- Strings with one more octet at the front of the first one. -/
def prepend? (octet : Option UInt8) (strings : Option (List (List UInt8))) :
    Option (List (List UInt8)) :=
  octet.bind fun octet => strings.map (List.modifyHead (octet :: ·))

/-- The strings in a text from a place on. Inside of the quotes, the first one is what is left of
the string there. -/
def readFrom? : Place → List Char → Option (List (List UInt8))
  | .between, [] => none
  | .between, c :: text => if c = '"' then readFrom? .inside text else none
  | .inside, [] => none
  | .inside, c :: text =>
    if c = '"' then readFrom? .behind text
    else if c = '\\' then readFrom? (.escape []) text
    else prepend? (ofChar? c) (readFrom? .inside text)
  | .escape _, [] => none
  | .escape digits, c :: text =>
    if digits = [] ∧ c.isDigit = false then prepend? (ofChar? c) (readFrom? .inside text)
    else if digits.length < 2 then readFrom? (.escape (digits ++ [c])) text
    else prepend? (ofNumeral? (digits ++ [c])) (readFrom? .inside text)
  | .behind, [] => some [[]]
  | .behind, c :: text => if c = ' ' then (readFrom? .between text).map ([] :: ·) else none

/-- The strings that a text holds in quotes. -/
def ofQuoted? (text : List Char) : Option (List (List UInt8)) :=
  if text = [] then some [] else readFrom? .between text

section Rules

variable {a b c : Char} (text : List Char)

theorem readFrom?_plain (quote : c ≠ '"') (backslash : c ≠ '\\') :
    readFrom? .inside (c :: text) = prepend? (ofChar? c) (readFrom? .inside text) := by
  rw [readFrom?, if_neg quote, if_neg backslash]

theorem readFrom?_escaped (other : c.isDigit = false) :
    readFrom? .inside ('\\' :: c :: text) = prepend? (ofChar? c) (readFrom? .inside text) := by
  simp [readFrom?, other]

theorem readFrom?_decimal (digit : a.isDigit = true) :
    readFrom? .inside ('\\' :: a :: b :: c :: text) =
      prepend? (ofNumeral? [a, b, c]) (readFrom? .inside text) := by
  simp [readFrom?, digit]

end Rules

/-! ## Octets -/

theorem toNat_ofUInt8 (octet : UInt8) : (Char.ofUInt8 octet).toNat = octet.toNat := rfl

theorem ofChar?_ofUInt8 {octet : UInt8} (ascii : octet.toNat < 128) :
    ofChar? (Char.ofUInt8 octet) = some octet := by
  rw [ofChar?, toNat_ofUInt8, if_pos ascii, UInt8.ofNat_toNat]

theorem ofNumeral?_padded (octet : UInt8) :
    ofNumeral? (Decimal.padded 3 octet.toNat) = some octet := by
  have bound := octet.toNat_lt
  rw [ofNumeral?, Decimal.numeral?_padded, Option.bind_some, if_pos (by omega), UInt8.ofNat_toNat]

theorem exists_padded_eq (octet : UInt8) :
    ∃ a b c, Decimal.padded 3 octet.toNat = [a, b, c] := by
  have bound := octet.toNat_lt
  have room : (Decimal.digits octet.toNat).length ≤ 3 :=
    (Nat.length_toDigits_le_iff (by decide) (by decide)).2 (by omega)
  have length := Decimal.length_padded room
  match Decimal.padded 3 octet.toNat, length with
  | [a, b, c], _ => exact ⟨a, b, c, rfl⟩

/-- An octet in quotes is taken off as a whole. -/
theorem readFrom?_quotedOctet (octet : UInt8) (text : List Char) :
    readFrom? .inside (quotedOctet octet ++ text) =
      prepend? (some octet) (readFrom? .inside text) := by
  unfold quotedOctet
  split
  · next special =>
    have ascii : octet.toNat < 128 := by
      rcases special with rfl | rfl <;> decide
    have other : (Char.ofUInt8 octet).isDigit = false := by
      rcases special with rfl | rfl <;> rfl
    rw [List.cons_append, List.singleton_append, readFrom?_escaped text other,
      ofChar?_ofUInt8 ascii]
  split
  · next special printable =>
    rw [not_or] at special
    have ascii := Ascii.isPrintable_iff.1 printable
    have quote : Char.ofUInt8 octet ≠ '"' := by
      intro eq
      exact special.1 (UInt8.toNat_inj.1 (congrArg Char.toNat eq))
    have backslash : Char.ofUInt8 octet ≠ '\\' := by
      intro eq
      exact special.2 (UInt8.toNat_inj.1 (congrArg Char.toNat eq))
    rw [List.singleton_append, readFrom?_plain text quote backslash, ofChar?_ofUInt8 (by omega)]
  · -- The first digit makes it a number, and a number takes three characters, whatever follows.
    obtain ⟨a, b, c, digits⟩ := exists_padded_eq octet
    have digit : a.isDigit = true :=
      Decimal.isDigit_of_mem_padded (digits ▸ List.mem_cons_self)
    have number := ofNumeral?_padded octet
    rw [digits] at number
    rw [digits, ← number]
    exact readFrom?_decimal text digit

/-! ## Strings -/

/-- What is left of a string is taken off octet by octet. -/
theorem readFrom?_flatMap (string : List UInt8) (text : List Char) :
    readFrom? .inside (string.flatMap quotedOctet ++ text) =
      (readFrom? .inside text).map (List.modifyHead (string ++ ·)) := by
  induction string with
  | nil =>
      have same : List.modifyHead (fun string : List UInt8 => [] ++ string) = id :=
        List.modifyHead_id
      rw [same, Option.map_id]
      rfl
  | cons octet rest ih =>
      rw [List.flatMap_cons, List.append_assoc, readFrom?_quotedOctet, ih]
      simp [prepend?, Function.comp_def]

/-- A string in quotes is taken off as a whole. -/
theorem readFrom?_quotedString (string : List UInt8) (text : List Char) :
    readFrom? .between (quotedString string ++ text) =
      (readFrom? .behind text).map (List.modifyHead (string ++ ·)) := by
  rw [quotedString, List.append_assoc, List.cons_append, readFrom?, if_pos rfl,
    readFrom?_flatMap, List.singleton_append, readFrom?, if_pos rfl]

/-- Behind a closing quote, all other strings follow. -/
theorem readFrom?_behind (strings : List (List UInt8)) :
    readFrom? .behind (strings.flatMap fun next => ' ' :: quotedString next) =
      some ([] :: strings) := by
  induction strings with
  | nil => rfl
  | cons string rest ih =>
      rw [List.flatMap_cons, List.cons_append, readFrom?, if_pos rfl, readFrom?_quotedString, ih]
      simp

theorem quoted_cons (string : List UInt8) (rest : List (List UInt8)) :
    quoted (string :: rest) =
      quotedString string ++ rest.flatMap fun next => ' ' :: quotedString next := by
  rw [quoted, List.map_cons, intercalate_cons_eq, List.flatMap_map]
  rfl

/-- Strings read back from their quotes. -/
theorem ofQuoted?_quoted (strings : List (List UInt8)) :
    ofQuoted? (quoted strings) = some strings := by
  cases strings with
  | nil => rfl
  | cons string rest =>
      have some : quoted (string :: rest) ≠ [] := by simp [quoted_cons, quotedString]
      rw [ofQuoted?, if_neg some, quoted_cons, readFrom?_quotedString, readFrom?_behind]
      simp

/-! ## Characters -/

theorem printable_of_mem_quotedOctet {octet : UInt8} {c : Char} (mem : c ∈ quotedOctet octet) :
    0x20 ≤ c.toNat ∧ c.toNat ≤ 0x7E := by
  unfold quotedOctet at mem
  split at mem
  · next special =>
    simp only [List.mem_cons, List.not_mem_nil, or_false] at mem
    rcases special with rfl | rfl <;> rcases mem with rfl | rfl <;> decide
  split at mem
  · next printable =>
    rw [List.mem_singleton.1 mem]
    exact Ascii.isPrintable_iff.1 printable
  · rcases List.mem_cons.1 mem with rfl | digit
    · decide
    · have range := Char.isDigit_iff_toNat.1 (Decimal.isDigit_of_mem_padded digit)
      exact ⟨Nat.le_trans (by decide) range.1, Nat.le_trans range.2 (by decide)⟩

theorem printable_of_mem_quotedString {string : List UInt8} {c : Char}
    (mem : c ∈ quotedString string) : 0x20 ≤ c.toNat ∧ c.toNat ≤ 0x7E := by
  simp only [quotedString, List.cons_append, List.mem_cons, List.mem_append, List.mem_flatMap,
    List.not_mem_nil, or_false] at mem
  rcases mem with rfl | ⟨octet, -, inside⟩ | rfl
  · decide
  · exact printable_of_mem_quotedOctet inside
  · decide

/-- Quotes, separators and whatever octets there are: all of it is printable. -/
theorem printable_of_mem_quoted {strings : List (List UInt8)} {c : Char}
    (mem : c ∈ quoted strings) : 0x20 ≤ c.toNat ∧ c.toNat ≤ 0x7E := by
  cases strings with
  | nil => cases mem
  | cons string rest =>
      rw [quoted_cons, List.mem_append, List.mem_flatMap] at mem
      rcases mem with first | ⟨next, -, behind⟩
      · exact printable_of_mem_quotedString first
      · rcases List.mem_cons.1 behind with rfl | inside
        · decide
        · exact printable_of_mem_quotedString inside

/-- **The presentation of a text record.** Its data is shown in printable ASCII, and by the rules of
a master file the strings read back as they were. So data that differs is shown differently. -/
theorem ofQuoted?_text (strings : List (List UInt8)) :
    (∀ c ∈ (RecordData.txt strings).text.toList, 0x20 ≤ c.toNat ∧ c.toNat ≤ 0x7E) ∧
      ofQuoted? (RecordData.txt strings).text.toList = some strings ∧
      ∀ others, (RecordData.txt others).text = (RecordData.txt strings).text ↔
        others = strings := by
  have text : ∀ strings, (RecordData.txt strings).text.toList = quoted strings := fun _ =>
    String.toList_ofList
  refine ⟨?_, ?_, fun others => ⟨fun same => ?_, fun same => by rw [same]⟩⟩
  · rw [text]
    exact fun c => printable_of_mem_quoted
  · rw [text, ofQuoted?_quoted]
  · have shown := congrArg (fun shown => ofQuoted? shown.toList) same
    simp only [text, ofQuoted?_quoted, Option.some.injEq] at shown
    exact shown

/-- The rules allow more spellings than one: a number or a backslash for a character that needs
neither. A second space is no separator. -/
example :
    ofQuoted? ['"', '\\', '0', '6', '5', '\\', 'b', '"', ' ', '"', '"'] = some [[65, 98], []] ∧
      ofQuoted? ['"', '"', ' ', ' ', '"', '"'] = none := by
  decide

end DnsWire.CharacterStrings

import Mathlib.Data.List.DropRight
import DnsWire.Proofs.Record.Extent

/-!
# The generic form of record data

Data of a type without a form of its own is shown as a mark, the number of its octets and the octets
in hexadecimal (`Generic.chars`), and is not lost by that.

* `Hex.octets?` — reads digits in pairs, one octet for each.
* `Generic.ofChars?` — reads the generic form: what stands behind the number, without its spaces, in
  pairs. The number has to be that of the octets read.
* `Generic.ofRecord?` — reads the last field of a record in one line of text.

The form reads back as the octets (`Generic.ofChars?_chars`). Its characters are printable and no
tabs, so that it is found again behind the last tab of its record, whatever the owner is
(`Generic.ofRecord?_text`). `RecordData.unknown_readsBack` says the same of a message, from the
octets on the wire to the printed record.
-/

namespace DnsWire

/-! ## Hexadecimal digits -/

namespace Hex

/-- The digits in which octets are written. -/
def digits : List Char :=
  ['0', '1', '2', '3', '4', '5', '6', '7', '8', '9', 'a', 'b', 'c', 'd', 'e', 'f']

/-- The octets that digits give in pairs; there must not be an odd one. -/
def octets? : List Char → Option (List UInt8)
  | [] => some []
  | [_] => none
  | high :: low :: rest =>
    (digit? high).bind fun high => (digit? low).bind fun low =>
      (octets? rest).map (UInt8.ofNat (16 * high + low) :: ·)

theorem digit?_digitChar {n : Nat} (lt : n < 16) : digit? (Nat.digitChar n) = some n := by
  revert n
  decide

theorem digitChar_eq_getD {n : Nat} (lt : n < 16) : Nat.digitChar n = digits.getD n '0' := by
  revert n
  decide

theorem digitChar_mem_digits {n : Nat} (lt : n < 16) : Nat.digitChar n ∈ digits := by
  revert n
  decide

/-- The two digits of an octet, taken from the list. -/
theorem octet_eq (value : UInt8) :
    octet value = [digits.getD (value.toNat / 16) '0', digits.getD (value.toNat % 16) '0'] := by
  have bound := value.toNat_lt
  rw [octet, digitChar_eq_getD (by omega), digitChar_eq_getD (Nat.mod_lt _ (by decide))]

theorem printable_of_mem_digits {c : Char} (mem : c ∈ digits) :
    0x20 ≤ c.toNat ∧ c.toNat ≤ 0x7E := by
  have all : digits.all (fun c => 0x20 ≤ c.toNat ∧ c.toNat ≤ 0x7E) = true := by decide
  exact of_decide_eq_true (List.all_eq_true.1 all c mem)

theorem mem_digits_of_mem_chars {octets : List UInt8} {c : Char} (mem : c ∈ chars octets) :
    c ∈ digits := by
  obtain ⟨value, -, digit⟩ := List.mem_flatMap.1 mem
  have bound := value.toNat_lt
  rw [octet, List.mem_cons, List.mem_singleton] at digit
  rcases digit with rfl | rfl
  · exact digitChar_mem_digits (by omega)
  · exact digitChar_mem_digits (Nat.mod_lt _ (by decide))

theorem flatten_map_chars (groups : List (List UInt8)) :
    (groups.map chars).flatten = chars groups.flatten := by
  induction groups with
  | nil => rfl
  | cons group rest ih =>
      rw [List.map_cons, List.flatten_cons, ih, List.flatten_cons]
      exact List.flatMap_append.symm

/-- Octets read back from their digits. -/
theorem octets?_chars (octets : List UInt8) : octets? (chars octets) = some octets := by
  induction octets with
  | nil => rfl
  | cons value rest ih =>
      have bound := value.toNat_lt
      have value_eq : 16 * (value.toNat / 16) + value.toNat % 16 = value.toNat := Nat.div_add_mod _ _
      rw [chars_cons, octet, List.cons_append, List.cons_append, List.nil_append, octets?,
        digit?_digitChar (by omega), digit?_digitChar (Nat.mod_lt _ (by decide)), ih]
      simp only [Option.bind_some, Option.map_some, value_eq, UInt8.ofNat_toNat]

end Hex

namespace Generic

/-! ## Groups -/

/-- The octets of one group after the other are all octets. -/
theorem flatten_groups (octets : List UInt8) : (groups octets).flatten = octets := by
  fun_induction groups octets with
  | case1 a b c d rest ih => rw [List.flatten_cons, ih]; rfl
  | case2 => rfl
  | case3 short => simp

/-- Groups begin at every fourth octet and take four, as far as there are as many. -/
theorem groups_eq (octets : List UInt8) :
    groups octets =
      (List.range ((octets.length + 3) / 4)).map fun i => (octets.drop (4 * i)).take 4 := by
  fun_induction groups octets with
  | case1 a b c d rest ih =>
      have count : ((a :: b :: c :: d :: rest).length + 3) / 4 = (rest.length + 3) / 4 + 1 := by
        simp only [List.length_cons]
        omega
      rw [count, List.range_succ_eq_map, List.map_cons, List.map_map, ih]
      rfl
  | case2 => rfl
  | case3 short long none =>
      match short with
      | [] => exact absurd rfl none
      | [_] => simp
      | [_, _] => simp
      | [_, _, _] => simp
      | a :: b :: c :: d :: rest => exact absurd rfl (long a b c d rest)

/-! ## Reading the form back -/

/-- The octets in the generic form. -/
def ofChars? (text : List Char) : Option (List UInt8) :=
  match text.splitOn ' ' with
  | mark :: number :: groups =>
    if mark = ['\\', '#'] then
      (Hex.octets? groups.flatten).filter fun octets =>
        Decimal.numeral? number = some octets.length
    else none
  | _ => none

/-- The generic form as its parts, with spaces in between. -/
theorem chars_eq_intercalate (octets : List UInt8) :
    chars octets =
      [' '].intercalate (['\\', '#'] :: Decimal.digits octets.length ::
        (groups octets).map Hex.chars) := by
  rw [CharacterStrings.intercalate_cons_eq, List.flatMap_cons, List.flatMap_map]
  rfl

theorem printable_of_mem_chars {octets : List UInt8} {c : Char} (mem : c ∈ chars octets) :
    0x20 ≤ c.toNat ∧ c.toNat ≤ 0x7E := by
  rw [chars, List.mem_append, List.mem_append, List.mem_flatMap] at mem
  rcases mem with (mark | number) | ⟨group, -, inside⟩
  · simp only [List.mem_cons, List.not_mem_nil, or_false] at mark
    rcases mark with rfl | rfl | rfl <;> decide
  · have range := Char.isDigit_iff_toNat.1 (Decimal.isDigit_of_mem_digits number)
    exact ⟨Nat.le_trans (by decide) range.1, Nat.le_trans range.2 (by decide)⟩
  · rcases List.mem_cons.1 inside with rfl | digit
    · decide
    · exact Hex.printable_of_mem_digits (Hex.mem_digits_of_mem_chars digit)

/-- The generic form reads back as the octets. -/
theorem ofChars?_chars (octets : List UInt8) : ofChars? (chars octets) = some octets := by
  have spaceless : ∀ part ∈ ['\\', '#'] :: Decimal.digits octets.length ::
      (groups octets).map Hex.chars, ' ' ∉ part := by
    simp only [List.forall_mem_cons, List.forall_mem_map]
    refine ⟨by decide, fun mem => ?_, fun group _ mem => ?_⟩
    · exact absurd (Decimal.isDigit_of_mem_digits mem) (by decide)
    · exact absurd (Hex.mem_digits_of_mem_chars mem) (by decide)
  unfold ofChars?
  rw [chars_eq_intercalate, List.splitOn_intercalate ' ' spaceless (List.cons_ne_nil _ _)]
  simp [Hex.flatten_map_chars, flatten_groups, Hex.octets?_chars]

/-! ## Records -/

/-- The octets in the last field of a record. -/
def ofRecord? (text : List Char) : Option (List UInt8) :=
  ofChars? (text.rtakeWhile (· ≠ '\t'))

theorem ofRecord?_text (r : Record) {type : RecordType} {octets : List UInt8}
    (data : r.data = .unknown type octets) : ofRecord? r.text.toList = some octets := by
  have text : ∃ front, r.text.toList = front ++ '\t' :: chars octets := by
    refine ⟨['\t'].intercalate
      [r.owner.toList, (toString r.ttl.toNat).toList, r.recordClass.text.toList,
        r.type.text.toList], ?_⟩
    simp [Record.text, data, RecordData.text, CharacterStrings.intercalate_cons_eq]
  have tabless : ∀ c ∈ (chars octets).reverse, decide (c ≠ '\t') = true := by
    intro c mem
    have printable := printable_of_mem_chars (List.mem_reverse.1 mem)
    refine decide_eq_true ?_
    rintro rfl
    exact absurd printable.1 (by decide)
  obtain ⟨front, text⟩ := text
  rw [ofRecord?, text, List.rtakeWhile, List.reverse_append, List.reverse_cons, List.append_assoc,
    List.takeWhile_append_of_pos tabless]
  simp [ofChars?_chars]

end Generic

namespace RecordData

/-- Data of a type without a form of its own is kept wherever there are as many octets. -/
theorem decode_of_unknown {type : RecordType} (unknown : type ∉ Written.knownTypes) {w : Window}
    {pos size : Nat} (le : pos + size ≤ w.stop) :
    decode type size w pos =
      .ok (.unknown type (w.octets.extract pos (pos + size)).toList, pos + size) :=
  decode_eq_ok.2 ⟨le, rfl, rfl, unknown, rfl, rfl⟩

/-- **The generic form loses nothing.** Data in the generic form is a mark, the number of its octets
and, behind one space each, groups of two lowercase digits for each of four octets; the last group
has what is left, and without octets there is none. Read in pairs without the spaces, the digits
give the octets, as many as the number says. So whatever octets a record of a type without a form of
its own has in a message, the record is read, and they are found again in its line of text. -/
theorem unknown_readsBack :
    (∀ type octets,
      (unknown type octets).text.toList =
        ['\\', '#', ' '] ++ Decimal.digits octets.length ++
          ((List.range ((octets.length + 3) / 4)).flatMap fun i =>
            ' ' :: ((octets.drop (4 * i)).take 4).flatMap fun value =>
              [Hex.digits.getD (value.toNat / 16) '0', Hex.digits.getD (value.toNat % 16) '0']) ∧
      Generic.ofChars? (unknown type octets).text.toList = some octets) ∧
    (∀ type ∉ Written.knownTypes, ∀ (w : Window) pos size, pos + size ≤ w.stop →
      decode type size w pos =
        .ok (.unknown type (w.octets.extract pos (pos + size)).toList, pos + size)) ∧
    ∀ w pos h mid, RecordHeader.decode w pos = .ok (h, mid) → h.type ∉ Written.knownTypes →
      mid + h.dataSize.toNat ≤ w.stop →
        ∃ r, Record.decode w pos = .ok (r, mid + h.dataSize.toNat) ∧
          Generic.ofRecord? r.text.toList =
            some (w.octets.extract mid (mid + h.dataSize.toNat)).toList := by
  refine ⟨fun type octets => ?_, fun _ unknown _ _ _ => decode_of_unknown unknown, ?_⟩
  · have text : (unknown type octets).text.toList = Generic.chars octets := String.toList_ofList
    rw [text]
    refine ⟨?_, Generic.ofChars?_chars octets⟩
    rw [Generic.chars, Generic.groups_eq, List.flatMap_map]
    simp only [Generic.groupText, Hex.chars, ← Hex.octet_eq]
  · intro w pos h mid header unknown le
    have data := decode_of_unknown unknown le
    exact ⟨⟨h.owner, h.recordClass, h.ttl, _⟩,
      Record.decode_eq_ok.2 ⟨h, mid, header, data, rfl, rfl, rfl⟩, Generic.ofRecord?_text _ rfl⟩

/-- A record of type 99 with five octets of data, and an octet behind it. -/
def unknownSample : Array UInt8 :=
  #[0, 0, 99, 0, 1, 0, 0, 0, 60, 0, 5, 1, 2, 3, 4, 0xAB, 7]

/-- The fifth octet is a group of its own. -/
theorem unknown_readsBack_sample :
    ∃ r, Record.decode (.whole unknownSample) 0 = .ok (r, 16) ∧
      Generic.ofRecord? r.text.toList = some [1, 2, 3, 4, 0xAB] ∧
      Generic.ofChars? "\\# 5 01020304 ab".toList = some [1, 2, 3, 4, 0xAB] := by
  have header : RecordHeader.decode (.whole unknownSample) 0 =
      .ok (⟨".", ⟨99⟩, .internet, 60, 5⟩, 11) := by
    decide +kernel
  obtain ⟨r, read, recovered⟩ :=
    unknown_readsBack.2.2 (.whole unknownSample) 0 _ 11 header (by decide) (by decide)
  have text : (unknown ⟨99⟩ [1, 2, 3, 4, 0xAB]).text = "\\# 5 01020304 ab" := by decide
  refine ⟨r, read, recovered, ?_⟩
  rw [← text]
  exact (unknown_readsBack.1 ⟨99⟩ [1, 2, 3, 4, 0xAB]).2

end RecordData

end DnsWire

import Mathlib.Data.List.Induction
import Mathlib.Data.List.Nodup
import DnsWire.Code.Opcode
import DnsWire.Code.RecordClass
import DnsWire.Code.RecordType
import DnsWire.Text.Utf8.Offsets

/-!
# How codes are spelled

Record types, classes and opcodes are read from text by one rule, and this module says which texts
it accepts.

* `Decimal.Denotes` and `Decimal.IsNumeral` — the grammar of numbers: digits, each ten times the
  value in front of it and its own, behind at most one plus sign.
* `Registry.Names` and `Registry.Numbers` — the two spellings of a code: its mnemonic, or the word
  of the registry and a numeral of the code, both in any case of letters.
* `Registry.Distinct` — what the rule asks of a registry. Its mnemonics hold no digit, so that no
  text is both a mnemonic and a number, which ends in one.

Texts are read in octets (`Registry.read`). The case of their letters is the same there as in
characters (`Utf8.sameOctets_encode`), and where the word ends both parts are texts again
(`Utf8.exists_append_of_isBoundary`), so the grammar can speak of characters. The two spellings are
all there is (`Registry.Distinct.ofText?_eq_some`), and of them a code is written in one
(`Registry.spells_text`). `ofText_spellings` puts this together for the three kinds of codes.
-/

namespace DnsWire

/-! ## Numerals -/

namespace Decimal

/-- At least one decimal digit, and the number that the digits denote. -/
inductive Denotes : List Char → Nat → Prop
  /-- A digit denotes its distance from zero. -/
  | digit {c : Char} (isDigit : c.isDigit = true) : Denotes [c] (c.toNat - '0'.toNat)
  /-- A digit behind other ones makes them ten times as much, and adds itself. -/
  | behind {digits : List Char} {n : Nat} {c : Char} (front : Denotes digits n)
      (isDigit : c.isDigit = true) : Denotes (digits ++ [c]) (10 * n + (c.toNat - '0'.toNat))

/-- A numeral of a number: digits that denote it, with or without a plus sign in front. -/
def IsNumeral (text : List Char) (n : Nat) : Prop :=
  ∃ sign digits, (sign = [] ∨ sign = ['+']) ∧ text = sign ++ digits ∧ Denotes digits n

variable {text : List Char} {n : Nat}

theorem Denotes.ne_nil (h : Denotes text n) : text ≠ [] := by
  cases h with
  | digit => exact List.cons_ne_nil _ _
  | behind => exact List.append_ne_nil_of_right_ne_nil _ (List.cons_ne_nil _ _)

theorem Denotes.isDigit_of_mem (h : Denotes text n) {c : Char} (mem : c ∈ text) :
    c.isDigit = true := by
  induction h with
  | digit isDigit => exact List.mem_singleton.1 mem ▸ isDigit
  | behind front isDigit ih =>
      rcases List.mem_append.1 mem with inside | last
      · exact ih inside
      · exact List.mem_singleton.1 last ▸ isDigit

theorem Denotes.ofDigitChars_eq (h : Denotes text n) : Nat.ofDigitChars 10 text 0 = n := by
  induction h with
  | digit => simp [Nat.ofDigitChars]
  | behind front isDigit ih => rw [Nat.ofDigitChars_append, ih]; rfl

/-- Digits denote the number that they are read as. -/
theorem denotes_ofDigitChars (some : text ≠ []) (digits : ∀ c ∈ text, c.isDigit = true) :
    Denotes text (Nat.ofDigitChars 10 text 0) := by
  induction text using List.reverseRecOn with
  | nil => exact absurd rfl some
  | append_singleton front c ih =>
      have isDigit := digits c (List.mem_append_right _ (List.mem_singleton.2 rfl))
      rw [Nat.ofDigitChars_append]
      by_cases first : front = []
      · subst first
        simpa [Nat.ofDigitChars] using Denotes.digit isDigit
      · exact .behind (ih first fun d mem => digits d (List.mem_append_left _ mem)) isDigit

theorem numeral?_eq_some : numeral? text = some n ↔ Denotes text n := by
  unfold numeral?
  refine ⟨fun h => ?_, fun h => ?_⟩
  · split at h
    · next digits =>
      cases h
      exact denotes_ofDigitChars digits.1 (List.all_eq_true.1 digits.2)
    · cases h
  · rw [if_pos ⟨h.ne_nil, List.all_eq_true.2 fun _ => h.isDigit_of_mem⟩, h.ofDigitChars_eq]

/-- Digits do not begin with a sign. -/
theorem not_denotes_plus (rest : List Char) : ¬Denotes ('+' :: rest) n := fun h =>
  absurd (h.isDigit_of_mem List.mem_cons_self) (by decide)

theorem natural?_eq_some {bound : Nat} :
    natural? bound text = some n ↔ IsNumeral text n ∧ n ≤ bound := by
  unfold natural?
  rw [Option.filter_eq_some_iff, decide_eq_true_eq, numeral?_eq_some]
  refine and_congr_left fun _ => ⟨fun h => ?_, fun h => ?_⟩
  · split at h
    · exact ⟨['+'], _, Or.inr rfl, rfl, h⟩
    · exact ⟨[], _, Or.inl rfl, rfl, h⟩
  · obtain ⟨_, digits, rfl | rfl, rfl, denotes⟩ := h
    · split
      · exact absurd denotes (not_denotes_plus _)
      · exact denotes
    · exact denotes

theorem IsNumeral.exists_digit (h : IsNumeral text n) : ∃ c ∈ text, c.isDigit = true := by
  obtain ⟨sign, digits, -, rfl, denotes⟩ := h
  have last := List.getLast_mem denotes.ne_nil
  exact ⟨_, List.mem_append_right _ last, denotes.isDigit_of_mem last⟩

theorem IsNumeral.ascii (h : IsNumeral text n) : ∀ c ∈ text, c.toNat < 128 := by
  obtain ⟨sign, digits, signed, rfl, denotes⟩ := h
  refine List.forall_mem_append.2 ⟨?_, fun c mem => ?_⟩
  · rcases signed with rfl | rfl <;> simp
  · have range := Char.isDigit_iff_toNat.1 (denotes.isDigit_of_mem mem)
    exact Nat.lt_of_le_of_lt range.2 (by decide)

theorem isNumeral_digits (n : Nat) : IsNumeral (digits n) n :=
  ⟨[], _, Or.inl rfl, rfl, numeral?_eq_some.1 (numeral?_digits n)⟩

end Decimal

/-! ## Letters -/

namespace Ascii

/-- Texts that are equal up to the case of letters share what does not hang on it. -/
theorem forall_of_fold_eq {left right : List Char} {p : Char → Prop}
    (same : fold left = fold right) (caseless : ∀ c, p c.toLower ↔ p c)
    (all : ∀ c ∈ right, p c) : ∀ c ∈ left, p c := by
  intro c mem
  have folded : c.toLower ∈ fold right := same ▸ List.mem_map_of_mem mem
  obtain ⟨d, inside, eq⟩ := List.mem_map.1 folded
  rw [← caseless, ← eq, caseless]
  exact all d inside

theorem forall_of_all {text : List Char} (all : text.all (·.toNat < 128) = true) :
    ∀ c ∈ text, c.toNat < 128 :=
  fun c mem => of_decide_eq_true (List.all_eq_true.1 all c mem)

theorem toLower_ascii_iff (c : Char) : c.toLower.toNat < 128 ↔ c.toNat < 128 := by
  rw [toNat_toLower]
  split <;> omega

theorem isDigit_toLower (c : Char) : c.toLower.isDigit = c.isDigit := by
  rw [Bool.eq_iff_iff, Char.isDigit_iff_toNat, Char.isDigit_iff_toNat, toNat_toLower]
  have zero : '0'.toNat = 48 := rfl
  have nine : '9'.toNat = 57 := rfl
  split <;> omega

end Ascii

/-! ## Registries -/

namespace Registry

/-- A text is the mnemonic of a code, in any case of letters. -/
def Names (r : Registry) (text : String) (code : Nat) : Prop :=
  ∃ mnemonic, r.mnemonic? code = some mnemonic ∧ Ascii.sameText text mnemonic = true

/-- A text is the word of a registry, in any case of letters, and a numeral of a code. -/
def Numbers (r : Registry) (text : String) (code : Nat) : Prop :=
  ∃ word numeral, text.toList = word ++ numeral ∧ Ascii.fold word = Ascii.fold r.word.toList ∧
    Decimal.IsNumeral numeral code ∧ code ≤ r.bound

/-- A text spells a code in one of the two ways. -/
def Spells (r : Registry) (text : String) (code : Nat) : Prop :=
  r.Names text code ∨ r.Numbers text code

/-- The spellings of a registry can be told apart. -/
structure Distinct (r : Registry) : Prop where
  /-- No code has two mnemonics. -/
  codes : (r.mnemonics.map Prod.fst).Nodup
  /-- No two codes have mnemonics that differ in nothing but the case of letters. -/
  mnemonics : (r.mnemonics.map fun entry => Ascii.fold entry.2.toList).Nodup
  /-- Codes with a mnemonic are codes. -/
  bounded : ∀ entry ∈ r.mnemonics, entry.1 ≤ r.bound
  /-- No mnemonic looks like a number. -/
  digitless : ∀ entry ∈ r.mnemonics, entry.2.toList.any Char.isDigit = false
  /-- Mnemonics are written in ASCII. -/
  ascii : ∀ entry ∈ r.mnemonics, entry.2.toList.all (·.toNat < 128) = true
  /-- So is the word. -/
  word_ascii : r.word.toList.all (·.toNat < 128) = true

variable {r : Registry} {text : String} {code other : Nat}

theorem Distinct.mnemonic?_eq_some (distinct : r.Distinct) {mnemonic : String} :
    r.mnemonic? code = some mnemonic ↔ (code, mnemonic) ∈ r.mnemonics := by
  refine ⟨mem_of_mnemonic?, fun mem => ?_⟩
  cases found : r.mnemonic? code with
  | some known =>
      have same := List.inj_on_of_nodup_map distinct.codes (mem_of_mnemonic? found) mem rfl
      rw [(Prod.mk.inj same).2]
  | none =>
      have other := List.lookup_eq_none_iff.1 found _ mem
      rw [bne_self_eq_false] at other
      cases other

theorem fold_eq_of_find? {entries : List (Nat × String)} {entry : Nat × String}
    (h : entries.find? (fun e => Ascii.sameOctets (Utf8.encode text.toList)
      (Utf8.encode e.2.toList)) = some entry) :
    Ascii.fold text.toList = Ascii.fold entry.2.toList := by
  have found := (List.find?_eq_some_iff_append.1 h).1
  exact Utf8.sameOctets_encode.1 found

theorem Distinct.ofMnemonic?_eq_some (distinct : r.Distinct) :
    r.ofMnemonic? (Utf8.encode text.toList) = some code ↔ r.Names text code := by
  unfold ofMnemonic? Names
  simp only [Option.map_eq_some_iff, distinct.mnemonic?_eq_some, Ascii.sameText_iff]
  refine ⟨fun h => ?_, fun h => ?_⟩
  · obtain ⟨entry, found, rfl⟩ := h
    exact ⟨entry.2, List.mem_of_find?_eq_some found, fold_eq_of_find? found⟩
  · obtain ⟨mnemonic, mem, same⟩ := h
    cases found : r.mnemonics.find? fun entry => Ascii.sameOctets (Utf8.encode text.toList)
        (Utf8.encode entry.2.toList) with
    | none =>
        have skipped := List.find?_eq_none.1 found (code, mnemonic) mem
        exact absurd (Utf8.sameOctets_encode.2 same) skipped
    | some entry =>
        have folds := (fold_eq_of_find? found).symm.trans same
        have first := List.inj_on_of_nodup_map distinct.mnemonics
          (List.mem_of_find?_eq_some found) mem folds
        exact ⟨entry, rfl, congrArg Prod.fst first⟩

theorem ofNumber_eq_ok :
    r.ofNumber (Utf8.encode text.toList) = .ok (some code) ↔ r.Numbers text code := by
  unfold ofNumber Numbers
  dsimp only
  refine ⟨fun h => ?_, fun h => ?_⟩
  · split at h
    · cases h
    · next front cut =>
      obtain ⟨boundary, rfl⟩ := Utf8.front?_eq_some.1 cut
      obtain ⟨word, numeral, spelled, in_front, behind⟩ := Utf8.exists_append_of_isBoundary boundary
      rw [Utf8.behind_of_isBoundary boundary, in_front, behind] at h
      split at h
      · next same =>
        have number : Decimal.natural? r.bound (Utf8.decode (Utf8.encode numeral)) = some code :=
          Except.ok.inj h
        rw [Utf8.decode_encode] at number
        exact ⟨word, numeral, spelled, Utf8.sameOctets_encode.1 same,
          Decimal.natural?_eq_some.1 number⟩
      · cases h
  · obtain ⟨word, numeral, spelled, same, isNumeral⟩ := h
    have length := Utf8.length_encode_of_fold_eq same
    have boundary : Utf8.isBoundary (Utf8.encode text.toList) (Utf8.encode r.word.toList).length =
        true := Utf8.isBoundary_encode.2 ⟨word, numeral, spelled, length⟩
    have cut : Utf8.front? (Utf8.encode text.toList) (Utf8.encode r.word.toList).length =
        some (Utf8.encode word) :=
      Utf8.front?_eq_some.2
        ⟨boundary, by rw [spelled, Utf8.encode_append, ← length, List.take_left]⟩
    have rest : (Utf8.encode text.toList).drop (Utf8.encode r.word.toList).length =
        Utf8.encode numeral := by
      rw [spelled, Utf8.encode_append, ← length, List.drop_left]
    have number := Decimal.natural?_eq_some.2 isNumeral
    rw [cut, Utf8.behind_of_isBoundary boundary, rest]
    dsimp only
    rw [if_pos (Utf8.sameOctets_encode.2 same), ← number]
    exact congrArg (fun chars => Except.ok (Decimal.natural? r.bound chars))
      (Utf8.decode_encode numeral)

/-- A number ends in a digit, and no mnemonic holds one. -/
theorem Distinct.not_names_of_numbers (distinct : r.Distinct) (number : r.Numbers text code) :
    ¬r.Names text other := by
  intro named
  obtain ⟨mnemonic, entry, same⟩ := named
  obtain ⟨word, numeral, spelled, -, isNumeral, -⟩ := number
  obtain ⟨c, inside, digit⟩ := isNumeral.exists_digit
  have none := Ascii.forall_of_fold_eq (p := fun c => ¬c.isDigit = true)
    (Ascii.sameText_iff.1 same) (fun c => by rw [Ascii.isDigit_toLower])
    (List.any_eq_false.1 (distinct.digitless _ (mem_of_mnemonic? entry))) c
  rw [spelled, List.mem_append] at none
  exact none (Or.inr inside) digit

theorem Distinct.ofText?_eq_some (distinct : r.Distinct) :
    r.ofText? text = some code ↔ r.Spells text code := by
  have read := r.read_eq text
  unfold Registry.read at read
  dsimp only at read
  unfold Spells
  cases found : r.ofMnemonic? (Utf8.encode text.toList) with
  | some named =>
      have names := distinct.ofMnemonic?_eq_some.1 found
      rw [found] at read
      rw [← Except.ok.inj read, ← found, distinct.ofMnemonic?_eq_some]
      exact (or_iff_left fun number => distinct.not_names_of_numbers number names).symm
  | none =>
      have unnamed : ¬r.Names text code := by
        rw [← distinct.ofMnemonic?_eq_some, found]
        exact nofun
      rw [found] at read
      rw [or_iff_right unnamed, ← ofNumber_eq_ok]
      dsimp only at read
      rw [read, Except.ok.injEq]

theorem Distinct.ofText?_eq_none (distinct : r.Distinct) :
    r.ofText? text = none ↔ ∀ code, ¬r.Spells text code := by
  rw [Option.eq_none_iff_forall_ne_some]
  exact forall_congr' fun code => not_congr distinct.ofText?_eq_some

theorem Distinct.le_bound (distinct : r.Distinct) (h : r.Spells text code) : code ≤ r.bound := by
  rcases h with ⟨_, entry, -⟩ | ⟨_, _, -, -, -, le⟩
  · exact distinct.bounded _ (mem_of_mnemonic? entry)
  · exact le

theorem Distinct.spells_unique (distinct : r.Distinct) (first : r.Spells text code)
    (second : r.Spells text other) : code = other :=
  Option.some.inj <| (distinct.ofText?_eq_some.2 first).symm.trans <|
    distinct.ofText?_eq_some.2 second

theorem Distinct.ascii_of_spells (distinct : r.Distinct) (h : r.Spells text code) :
    ∀ c ∈ text.toList, c.toNat < 128 := by
  rcases h with ⟨mnemonic, entry, same⟩ | ⟨word, numeral, spelled, same, isNumeral, -⟩
  · exact Ascii.forall_of_fold_eq (Ascii.sameText_iff.1 same) Ascii.toLower_ascii_iff
      (Ascii.forall_of_all (distinct.ascii _ (mem_of_mnemonic? entry)))
  · have word_ascii := Ascii.forall_of_all distinct.word_ascii
    rw [spelled]
    exact List.forall_mem_append.2
      ⟨Ascii.forall_of_fold_eq same Ascii.toLower_ascii_iff word_ascii, isNumeral.ascii⟩

/-- A code is written in one of its spellings. -/
theorem spells_text (le : code ≤ r.bound) : r.Spells (r.text code) code := by
  unfold text
  cases known : r.mnemonic? code with
  | some mnemonic => exact Or.inl ⟨mnemonic, known, Ascii.sameText_refl mnemonic⟩
  | none =>
      refine Or.inr ⟨r.word.toList, Decimal.digits code, ?_, rfl, Decimal.isNumeral_digits code, le⟩
      rw [Option.getD_none, Decimal.toString_eq, String.toList_append, String.toList_ofList]

/-- A kind of code that holds the numbers up to the bound is read as its registry says. -/
theorem Distinct.wrapped (distinct : r.Distinct) {α : Type} {make : Nat → α} {e : CodeError}
    (number : α → Nat) (again : ∀ a, make (number a) = a)
    (kept : ∀ code, code ≤ r.bound → number (make code) = code) :
    (∀ a, (match r.ofText? text with
      | some code => Except.ok (make code)
      | none => .error e) = .ok a ↔ r.Spells text (number a)) ∧
    ((match r.ofText? text with
      | some code => Except.ok (make code)
      | none => .error e) = .error e ↔ ∀ code, ¬r.Spells text code) := by
  rw [← distinct.ofText?_eq_none]
  simp only [← distinct.ofText?_eq_some]
  cases read : r.ofText? text with
  | none => simp
  | some code =>
      have same := kept code (distinct.le_bound (distinct.ofText?_eq_some.1 read))
      refine ⟨fun a => ?_, by simp⟩
      rw [Except.ok.injEq, Option.some.injEq]
      refine ⟨fun eq => ?_, fun eq => ?_⟩
      · rw [← eq, same]
      · rw [eq, again]

end Registry

/-! ## The three kinds of codes -/

theorem RecordType.distinct : registry.Distinct := by
  constructor <;> decide

theorem RecordClass.distinct : registry.Distinct := by
  constructor <;> decide

theorem Opcode.distinct : registry.Distinct := by
  constructor <;> decide

section OfText

variable {text : String}

theorem RecordType.ofText_iff :
    (∀ t, ofText text = .ok t ↔ registry.Spells text t.code.toNat) ∧
      (ofText text = .error .recordType ↔ ∀ code, ¬registry.Spells text code) :=
  distinct.wrapped (fun t : RecordType => t.code.toNat)
    (fun _ => congrArg RecordType.mk UInt16.ofNat_toNat)
    fun _ le => UInt16.toNat_ofNat_of_lt' (Nat.lt_succ_of_le le)

theorem RecordClass.ofText_iff :
    (∀ c, ofText text = .ok c ↔ registry.Spells text c.code.toNat) ∧
      (ofText text = .error .recordClass ↔ ∀ code, ¬registry.Spells text code) :=
  distinct.wrapped (fun c : RecordClass => c.code.toNat)
    (fun _ => congrArg RecordClass.mk UInt16.ofNat_toNat)
    fun _ le => UInt16.toNat_ofNat_of_lt' (Nat.lt_succ_of_le le)

theorem Opcode.ofText_iff :
    (∀ o, ofText text = .ok o ↔ registry.Spells text o.code.toNat) ∧
      (ofText text = .error .opcode ↔ ∀ code, ¬registry.Spells text code) :=
  distinct.wrapped (fun o : Opcode => o.code.toNat)
    (fun _ => congrArg Opcode.mk UInt8.ofNat_toNat)
    fun _ le => UInt8.toNat_ofNat_of_lt' (Nat.lt_succ_of_le le)

end OfText

/-- **The spellings of codes.** A text is read as a type, class or opcode exactly if it is the
mnemonic of the code, or the word of its kind and a numeral of the code, which is a digit at least
and a plus sign at most in front; letters count in either case, and opcodes have no word. Every
other text is an error. No text is cut inside of a character, although the word may end there, in
the octets of the text: it is an error then as well. No text is both a mnemonic and a number, so no
text spells two codes of a kind. Every code reads back from the text that it is written as. -/
theorem ofText_spellings (text : String) :
    let types : Registry := ⟨"TYPE", 65535, [(1, "A"), (2, "NS"), (5, "CNAME"), (6, "SOA"),
      (12, "PTR"), (15, "MX"), (16, "TXT"), (28, "AAAA"), (255, "ANY")]⟩
    let classes : Registry := ⟨"CLASS", 65535, [(1, "IN"), (3, "CH"), (4, "HS"), (255, "*")]⟩
    let opcodes : Registry := ⟨"", 255, [(0, "QUERY"), (1, "IQUERY"), (2, "STATUS"),
      (4, "NOTIFY"), (5, "UPDATE")]⟩
    ((∀ t, RecordType.ofText text = .ok t ↔ types.Spells text t.code.toNat) ∧
      (RecordType.ofText text = .error .recordType ↔ ∀ code, ¬types.Spells text code)) ∧
    ((∀ c, RecordClass.ofText text = .ok c ↔ classes.Spells text c.code.toNat) ∧
      (RecordClass.ofText text = .error .recordClass ↔ ∀ code, ¬classes.Spells text code)) ∧
    ((∀ o, Opcode.ofText text = .ok o ↔ opcodes.Spells text o.code.toNat) ∧
      (Opcode.ofText text = .error .opcode ↔ ∀ code, ¬opcodes.Spells text code)) ∧
    (∀ r ∈ [RecordType.registry, RecordClass.registry, Opcode.registry],
      (∀ fault, r.read text ≠ .error fault) ∧
      (∀ code other, r.Numbers text code → ¬r.Names text other) ∧
      (∀ code other, r.Spells text code → r.Spells text other → code = other)) ∧
    (Utf8.Splits text.toList 4 →
      Utf8.behind (Utf8.encode text.toList) 4 = .error .boundary ∧
        RecordType.ofText text = .error .recordType) ∧
    (Utf8.Splits text.toList 5 →
      Utf8.behind (Utf8.encode text.toList) 5 = .error .boundary ∧
        RecordClass.ofText text = .error .recordClass) ∧
    (∀ t, RecordType.ofText (RecordType.text t) = .ok t) ∧
    (∀ c, RecordClass.ofText (RecordClass.text c) = .ok c) ∧
    ∀ o, Opcode.ofText (Opcode.text o) = .ok o := by
  refine ⟨RecordType.ofText_iff, RecordClass.ofText_iff, Opcode.ofText_iff, ?_, ?_, ?_, ?_, ?_, ?_⟩
  · intro r mem
    have distinct : r.Distinct := by
      simp only [List.mem_cons, List.not_mem_nil, or_false] at mem
      rcases mem with rfl | rfl | rfl
      · exact RecordType.distinct
      · exact RecordClass.distinct
      · exact Opcode.distinct
    exact ⟨r.read_ne_error text, fun _ _ => distinct.not_names_of_numbers,
      fun _ _ => distinct.spells_unique⟩
  · intro splits
    refine ⟨Utf8.behind_of_splits splits, RecordType.ofText_iff.2.2 fun code spells => ?_⟩
    exact Utf8.not_splits_of_ascii (RecordType.distinct.ascii_of_spells spells) splits
  · intro splits
    refine ⟨Utf8.behind_of_splits splits, RecordClass.ofText_iff.2.2 fun code spells => ?_⟩
    exact Utf8.not_splits_of_ascii (RecordClass.distinct.ascii_of_spells spells) splits
  · intro t
    exact (RecordType.ofText_iff.1 t).2 (Registry.spells_text (Nat.le_of_lt_succ t.code.toNat_lt))
  · intro c
    exact (RecordClass.ofText_iff.1 c).2 (Registry.spells_text (Nat.le_of_lt_succ c.code.toNat_lt))
  · intro o
    exact (Opcode.ofText_iff.1 o).2 (Registry.spells_text (Nat.le_of_lt_succ o.code.toNat_lt))

/-- Mnemonics, a number with a sign and a zero in front, and texts with a character of three octets
in the place of the last letter of the word. -/
theorem ofText_spellings_samples :
    RecordType.ofText "cName" = .ok .cname ∧ Opcode.ofText "notify" = .ok ⟨4⟩ ∧
      RecordClass.ofText "*" = .ok ⟨255⟩ ∧ RecordType.ofText "tYpE+028" = .ok .aaaa ∧
      RecordType.ofText "TYP€1" = .error .recordType ∧
      RecordClass.ofText "CLAS€1" = .error .recordClass ∧
      RecordType.ofText "TYPE" = .error .recordType ∧
      Opcode.ofText "256" = .error .opcode := by
  have cname : RecordType.registry.Names "cName" 5 := ⟨"CNAME", rfl, by decide⟩
  have notify : Opcode.registry.Names "notify" 4 := ⟨"NOTIFY", rfl, by decide⟩
  have star : RecordClass.registry.Names "*" 255 := ⟨"*", rfl, rfl⟩
  have number : RecordType.registry.Numbers "tYpE+028" 28 :=
    ⟨['t', 'Y', 'p', 'E'], ['+', '0', '2', '8'], rfl, rfl, Decimal.natural?_eq_some.1 (by decide)⟩
  have fourth : Utf8.Splits "TYP€1".toList 4 :=
    ⟨['T', 'Y', 'P'], '€', ['1'], rfl, by decide, by decide⟩
  have fifth : Utf8.Splits "CLAS€1".toList 5 :=
    ⟨['C', 'L', 'A', 'S'], '€', ['1'], rfl, by decide, by decide⟩
  refine ⟨?_, ?_, ?_, ?_, ?_, ?_, rfl, rfl⟩
  · exact ((ofText_spellings "cName").1.1 .cname).2 (Or.inl cname)
  · exact ((ofText_spellings "notify").2.2.1.1 ⟨4⟩).2 (Or.inl notify)
  · exact ((ofText_spellings "*").2.1.1 ⟨255⟩).2 (Or.inl star)
  · exact ((ofText_spellings "tYpE+028").1.1 .aaaa).2 (Or.inr number)
  · exact ((ofText_spellings "TYP€1").2.2.2.2.1 fourth).2
  · exact ((ofText_spellings "CLAS€1").2.2.2.2.2.1 fifth).2

end DnsWire

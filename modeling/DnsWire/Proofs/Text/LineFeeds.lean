import Mathlib.Algebra.GroupWithZero.Nat
import DnsWire.Message.Dig
import DnsWire.Proofs.Record.Generic
import DnsWire.Proofs.Record.Quoted

/-!
# Line feeds in texts

How many line feeds there are in the text of each part of a message (`lineFeeds`). The count is
additive, and it is zero for everything that is written from numbers, mnemonics or escaped octets.
What is left are names: a label is shown as it is, so the text of a name has as many line feeds as
there are octets 10 in its labels (`Name.lineFeeds_text`), and the other texts have those of the
names in them (`Question.lineFeeds_text`, `Record.lineFeeds_text`).
-/

namespace DnsWire

/-- The number of line feeds in a text. -/
def lineFeeds (text : String) : Nat :=
  text.toList.count '\n'

theorem lineFeeds_eq_zero {text : String} : lineFeeds text = 0 ↔ '\n' ∉ text.toList :=
  List.count_eq_zero

@[simp] theorem lineFeeds_append (left right : String) :
    lineFeeds (left ++ right) = lineFeeds left + lineFeeds right := by
  rw [lineFeeds, String.toList_append, List.count_append]
  rfl

@[simp] theorem lineFeeds_ofList (text : List Char) :
    lineFeeds (String.ofList text) = text.count '\n' := by
  rw [lineFeeds, String.toList_ofList]

/-- A separator without line feeds leaves those of the parts. -/
theorem count_intercalate {separator : List Char} (none : '\n' ∉ separator)
    (parts : List (List Char)) :
    (separator.intercalate parts).count '\n' = (parts.map (List.count '\n')).sum := by
  induction parts with
  | nil => rfl
  | cons part parts ih =>
      cases parts with
      | nil => simp
      | cons second parts =>
          rw [List.intercalate_cons_cons, List.count_append, List.count_append, ih,
            List.count_eq_zero.2 none]
          rfl

theorem lineFeeds_intercalate {separator : String} (none : lineFeeds separator = 0)
    (parts : List String) :
    lineFeeds (separator.intercalate parts) = (parts.map lineFeeds).sum := by
  rw [lineFeeds, String.toList_intercalate, count_intercalate (lineFeeds_eq_zero.1 none),
    List.map_map]
  rfl

theorem lineFeeds_intercalate_map {α : Type} {separator : String} (none : lineFeeds separator = 0)
    {part : α → String} (plain : ∀ a, lineFeeds (part a) = 0) (values : List α) :
    lineFeeds (separator.intercalate (values.map part)) = 0 := by
  rw [lineFeeds_intercalate none, List.sum_eq_zero_iff_forall_eq_nat, List.forall_mem_map,
    List.forall_mem_map]
  exact fun a _ => plain a

/-! ## Numbers and mnemonics -/

/-- A digit up to `f` is no line feed. -/
theorem digitChar_ne_lineFeed {n : Nat} (lt : n < 16) : Nat.digitChar n ≠ '\n' := by
  revert n
  decide

theorem lineFeed_not_mem_toDigits {base : Nat} (two : 1 < base) (le : base ≤ 16) (n : Nat) :
    '\n' ∉ Nat.toDigits base n := by
  induction n using Nat.strongRecOn with
  | ind n ih =>
      have digit : Nat.digitChar (n % base) ≠ '\n' :=
        digitChar_ne_lineFeed (Nat.lt_of_lt_of_le (Nat.mod_lt n (by omega)) le)
      rw [Nat.toDigits_eq_if (by omega)]
      split
      · next last =>
        rw [Nat.mod_eq_of_lt last] at digit
        exact fun h => digit (List.mem_singleton.1 h).symm
      · next further =>
        rw [List.mem_append, not_or]
        exact ⟨ih _ (Nat.div_lt_self (by omega) two),
          fun h => digit (List.mem_singleton.1 h).symm⟩

@[simp] theorem lineFeeds_toString (n : Nat) : lineFeeds (toString n) = 0 := by
  rw [Decimal.toString_eq, lineFeeds_ofList, List.count_eq_zero]
  exact lineFeed_not_mem_toDigits (by decide) (by decide) n

/-- A registry without line feeds writes codes without line feeds. -/
theorem Registry.lineFeeds_text {r : Registry} (word : lineFeeds r.word = 0)
    (mnemonics : ∀ entry ∈ r.mnemonics, lineFeeds entry.2 = 0) (code : Nat) :
    lineFeeds (r.text code) = 0 := by
  rw [text]
  cases found : r.mnemonic? code with
  | none => rw [Option.getD_none, lineFeeds_append, word, lineFeeds_toString]
  | some mnemonic => exact mnemonics (code, mnemonic) (mem_of_mnemonic? found)

@[simp] theorem RecordType.lineFeeds_text (t : RecordType) : lineFeeds t.text = 0 :=
  Registry.lineFeeds_text (by decide) (by decide) _

@[simp] theorem RecordClass.lineFeeds_text (c : RecordClass) : lineFeeds c.text = 0 :=
  Registry.lineFeeds_text (by decide) (by decide) _

@[simp] theorem Opcode.lineFeeds_text (o : Opcode) : lineFeeds o.text = 0 :=
  Registry.lineFeeds_text (by decide) (by decide) _

@[simp] theorem ResponseCode.lineFeeds_text (r : ResponseCode) : lineFeeds r.text = 0 := by
  unfold text codeText
  split
  iterate 11 rfl
  exact lineFeeds_toString _

@[simp] theorem ResponseCode.lineFeeds_description (r : ResponseCode) :
    lineFeeds r.description = 0 := by
  unfold description
  split <;> rfl

@[simp] theorem Flags.lineFeeds_text (f : Flags) : lineFeeds f.text = 0 := by
  refine lineFeeds_intercalate_map (by decide) (fun name => ?_) _
  cases name <;> rfl

@[simp] theorem Section.lineFeeds_text (s : Section) : lineFeeds s.text = 0 := by
  cases s <;> rfl

@[simp] theorem Status.lineFeeds_text (s : Status) : lineFeeds s.text = 0 := by
  cases s with
  | noError => rfl
  | serverError code => simp [text, show lineFeeds " (" = 0 by rfl, show lineFeeds ")" = 0 by rfl]

/-! ## Addresses and escaped octets -/

@[simp] theorem Ipv4.lineFeeds_text (a : Ipv4) : lineFeeds a.text = 0 := by
  refine lineFeeds_intercalate_map (by decide) (fun octet => ?_) _
  exact lineFeeds_toString octet.toNat

theorem Ipv6.lineFeeds_groupsText (groups : List UInt16) : lineFeeds (groupsText groups) = 0 := by
  refine lineFeeds_intercalate_map (by decide) (fun group => ?_) _
  rw [lineFeeds_ofList, List.count_eq_zero]
  exact lineFeed_not_mem_toDigits (by decide) (by decide) _

@[simp] theorem Ipv6.lineFeeds_text (a : Ipv6) : lineFeeds a.text = 0 := by
  unfold text
  split
  · next v4 _ =>
    rw [lineFeeds_append, v4.lineFeeds_text]
    rfl
  · dsimp only
    split
    · rw [lineFeeds_append, lineFeeds_append, lineFeeds_groupsText, lineFeeds_groupsText]
      rfl
    · exact lineFeeds_groupsText _

/-- A line feed is not printable. -/
theorem count_of_printable {text : List Char}
    (printable : ∀ {c}, c ∈ text → 0x20 ≤ c.toNat ∧ c.toNat ≤ 0x7E) : text.count '\n' = 0 := by
  rw [List.count_eq_zero]
  intro mem
  exact absurd (printable mem).1 (by decide)

theorem CharacterStrings.count_quoted (strings : List (List UInt8)) :
    (quoted strings).count '\n' = 0 :=
  count_of_printable printable_of_mem_quoted

theorem Generic.count_chars (octets : List UInt8) : (chars octets).count '\n' = 0 :=
  count_of_printable printable_of_mem_chars

/-! ## Names and what they stand in -/

/-- The number of octets 10 in the labels of a name. -/
def Name.lineFeedOctets (n : Name) : Nat :=
  (n.labels.map fun l => l.octets.count 10).sum

/-- Labels are shown as they are. -/
theorem Label.count_text (l : Label) : l.text.count '\n' = l.octets.count 10 := by
  show (Utf8.decode l.octets).count (Char.ofNat (10 : UInt8).toNat) = l.octets.count 10
  exact Utf8.count_decode (by decide) (by decide) l.octets

theorem Name.lineFeeds_text (n : Name) : lineFeeds n.text = n.lineFeedOctets := by
  rw [text, lineFeeds_ofList, textOf]
  split
  · next empty =>
    rw [lineFeedOctets, List.isEmpty_iff.1 empty]
    rfl
  · rw [count_intercalate (by decide), List.map_map]
    exact congrArg List.sum (List.map_congr_left fun l _ => l.count_text)

/-- The names in the data of a record, as texts. -/
def RecordData.names : RecordData → List String
  | .cname target => [target]
  | .mx _ exchange => [exchange]
  | _ => []

/-- The names in a record. -/
def Record.names (r : Record) : List String :=
  r.owner :: r.data.names

theorem RecordData.lineFeeds_text (data : RecordData) :
    lineFeeds data.text = (data.names.map lineFeeds).sum := by
  cases data with
  | a address => exact address.lineFeeds_text
  | aaaa address => exact address.lineFeeds_text
  | cname target => rfl
  | mx preference exchange =>
      rw [text, lineFeeds_append, lineFeeds_append, lineFeeds_toString, Nat.zero_add, names]
      exact Nat.add_comm (lineFeeds " ") (lineFeeds exchange)
  | txt strings => exact (lineFeeds_ofList _).trans (CharacterStrings.count_quoted strings)
  | unknown type octets => exact (lineFeeds_ofList _).trans (Generic.count_chars octets)

theorem Record.lineFeeds_text (r : Record) :
    lineFeeds r.text = (r.names.map lineFeeds).sum := by
  rw [text, lineFeeds_intercalate (by decide)]
  simp only [List.map_cons, List.map_nil, List.sum_cons, List.sum_nil, lineFeeds_toString,
    RecordClass.lineFeeds_text, RecordType.lineFeeds_text, RecordData.lineFeeds_text, names,
    Nat.zero_add, Nat.add_zero]

theorem Question.lineFeeds_text (q : Question) : lineFeeds q.text = lineFeeds q.name := by
  rw [text, lineFeeds_intercalate (by decide)]
  simp only [List.map_cons, List.map_nil, List.sum_cons, List.sum_nil,
    RecordClass.lineFeeds_text, RecordType.lineFeeds_text, Nat.add_zero]

end DnsWire

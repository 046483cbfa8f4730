import DnsWire.Text.Ascii
import DnsWire.Text.Decimal
import DnsWire.Text.Utf8

/-!
# Registered codes

Record types, classes and opcodes are numbers, and a registry gives some of them a mnemonic. All
three are written and read by the same rule, of which a `Registry` holds the particulars:

* a code with a mnemonic is written as its mnemonic, any other one as a word and its number;
* both forms are read for every code, in any case of letters.

Texts are read octet by octet. The end of the word may fall inside of a character, where a text
cannot be cut (`Utf8.Fault`); `Registry.read_ne_error` says that it is never tried.
-/

namespace DnsWire

/-- The mnemonics of one kind of code, and how a code without one is written. -/
structure Registry where
  /-- The word in front of the number. -/
  word : String
  /-- The greatest code. -/
  bound : Nat
  /-- The codes with a mnemonic. -/
  mnemonics : List (Nat × String)

namespace Registry

/-- The mnemonic of a code, if it has one. -/
def mnemonic? (r : Registry) (code : Nat) : Option String :=
  r.mnemonics.lookup code

theorem mem_of_mnemonic? {r : Registry} {code : Nat} {mnemonic : String}
    (h : r.mnemonic? code = some mnemonic) : (code, mnemonic) ∈ r.mnemonics := by
  obtain ⟨_, _, entries, -⟩ := List.lookup_eq_some_iff.1 h
  rw [entries]
  exact List.mem_append_right _ List.mem_cons_self

/-- The text of a code. -/
def text (r : Registry) (code : Nat) : String :=
  (r.mnemonic? code).getD (r.word ++ toString code)

/-- The code with a mnemonic, in any case of letters. -/
def ofMnemonic? (r : Registry) (octets : List UInt8) : Option Nat :=
  (r.mnemonics.find? fun entry =>
    Ascii.sameOctets octets (Utf8.encode entry.2.toList)).map Prod.fst

/-- The code that is written as the word, in any case of letters, and a number. The word is looked
for among as many octets as it has itself, and what is behind them is read as the number. -/
def ofNumber (r : Registry) (octets : List UInt8) : Except Utf8.Fault (Option Nat) := do
  let word := Utf8.encode r.word.toList
  match Utf8.front? octets word.length with
  | none => return none
  | some front =>
    if Ascii.sameOctets front word then
      let numeral ← Utf8.behind octets word.length
      return Decimal.natural? r.bound (Utf8.decode numeral)
    else return none

/-- The code that a text stands for, with its octets looked at one by one. -/
def read (r : Registry) (text : String) : Except Utf8.Fault (Option Nat) :=
  let octets := Utf8.encode text.toList
  match r.ofMnemonic? octets with
  | some code => .ok (some code)
  | none => r.ofNumber octets

/-- A text is cut only where it has been found out that it can be. -/
theorem ofNumber_ne_error (r : Registry) (octets : List UInt8) (fault : Utf8.Fault) :
    r.ofNumber octets ≠ .error fault := by
  unfold ofNumber
  dsimp only
  split
  · exact nofun
  · next front cut =>
    rw [Utf8.behind_of_isBoundary (Utf8.front?_eq_some.1 cut).1]
    split <;> exact nofun

theorem read_ne_error (r : Registry) (text : String) (fault : Utf8.Fault) :
    r.read text ≠ .error fault := by
  unfold read
  dsimp only
  split
  · exact nofun
  · exact r.ofNumber_ne_error _ fault

/-- The code that a text stands for. -/
def ofText? (r : Registry) (text : String) : Option Nat :=
  match outcome : r.read text with
  | .ok code? => code?
  | .error fault => absurd outcome (r.read_ne_error text fault)

theorem read_eq (r : Registry) (text : String) : r.read text = .ok (r.ofText? text) := by
  unfold ofText?
  split
  · next code? outcome => exact outcome
  · next fault outcome => exact absurd outcome (r.read_ne_error text fault)

end Registry

/-- A text that stands for no code of a kind. -/
inductive CodeError where
  /-- No record type is written like this. -/
  | recordType
  /-- No class is written like this. -/
  | recordClass
  /-- No opcode is written like this. -/
  | opcode
  deriving DecidableEq, Repr

/-- The line of text for a code that is not read. -/
def CodeError.message : CodeError → String
  | .recordType => "unknown record type"
  | .recordClass => "unknown class"
  | .opcode => "unknown opcode"

end DnsWire

/-!
# ASCII text

Domain names, mnemonics and the keywords of the command line are compared without regard to the
case of ASCII letters, and the octets of a record are shown as characters only where ASCII has a
printable one. This module holds both rules:

* `Ascii.fold` and `Ascii.sameText` — equality up to the case of the letters `A` to `Z`; every
  other character, the accented letters among them, stands for itself alone;
* `Ascii.lower` and `Ascii.sameOctets` — the same for octets;
* `Ascii.isPrintable` — the octets from the space to the tilde.
-/

namespace DnsWire.Ascii

/-- The characters with the letters `A` to `Z` in lower case; `Char.toLower` changes no others. -/
def fold (text : List Char) : List Char :=
  text.map Char.toLower

/-- Whether two texts are equal up to the case of ASCII letters. -/
def sameText (left right : String) : Bool :=
  fold left.toList == fold right.toList

theorem sameText_iff {left right : String} :
    sameText left right = true ↔ fold left.toList = fold right.toList := by
  simp [sameText]

@[simp] theorem sameText_refl (text : String) : sameText text text = true := by
  simp [sameText]

theorem toNat_toLower (c : Char) :
    c.toLower.toNat = if 65 ≤ c.toNat ∧ c.toNat ≤ 90 then c.toNat + 32 else c.toNat := by
  have range : c.val ≥ 'A'.val ∧ c.val ≤ 'Z'.val ↔ 65 ≤ c.toNat ∧ c.toNat ≤ 90 := by
    simp only [ge_iff_le, UInt32.le_iff_toNat_le]
    rfl
  unfold Char.toLower
  split
  · next upper =>
    have bounds : c.val.toNat ≤ 90 := (range.1 upper).2
    rw [if_pos (range.1 upper)]
    show (c.val + 32).toNat = c.val.toNat + 32
    rw [UInt32.toNat_add]
    exact Nat.mod_eq_of_lt (Nat.lt_of_le_of_lt (Nat.add_le_add_right bounds 32) (by decide))
  · next other => rw [if_neg (mt range.2 other)]

/-- An octet, or the letter in lower case if it is one of `A` to `Z`. -/
def lower (octet : UInt8) : UInt8 :=
  if 0x41 ≤ octet && octet ≤ 0x5A then octet + 0x20 else octet

/-- Whether octets are equal up to the case of ASCII letters. -/
def sameOctets (left right : List UInt8) : Bool :=
  left.map lower == right.map lower

theorem sameOctets_iff {left right : List UInt8} :
    sameOctets left right = true ↔ left.map lower = right.map lower := by
  simp [sameOctets]

theorem toNat_lower (octet : UInt8) :
    (lower octet).toNat =
      if 65 ≤ octet.toNat ∧ octet.toNat ≤ 90 then octet.toNat + 32 else octet.toNat := by
  simp only [lower, Bool.and_eq_true, decide_eq_true_eq, UInt8.le_iff_toNat_le,
    UInt8.reduceToNat]
  split
  · next upper =>
    show (octet + 32).toNat = octet.toNat + 32
    rw [UInt8.toNat_add]
    exact Nat.mod_eq_of_lt (Nat.lt_of_le_of_lt (Nat.add_le_add_right upper.2 32) (by decide))
  · rfl

/-- Whether an octet is a printable ASCII character, the space included. -/
def isPrintable (octet : UInt8) : Bool :=
  0x20 ≤ octet && octet ≤ 0x7E

theorem isPrintable_iff {octet : UInt8} :
    isPrintable octet = true ↔ 0x20 ≤ octet.toNat ∧ octet.toNat ≤ 0x7E := by
  simp [isPrintable, UInt8.le_iff_toNat_le]

end DnsWire.Ascii

import Mathlib.Algebra.GroupWithZero.Nat
import DnsWire.Header

/-!
# Bits of the header section

Eleven fields share the third and the fourth octet of a header section, and each is changed by
masks and shifts in the octet that it stands in. This module says what that does to the bits.

* `PutsBits` — some neighbouring bits of a word are those of a number now, and all others are what
  they were. A word that is made of two has the bits of both (`PutsBits.append_left`,
  `PutsBits.append_right`).
* `putsBits_setBit`, `putsBits_opcode`, `putsBits_responseCode` — the three masks of a header.

What follows for whoever looks at these bits, and at others, is `PutsBits.extract_same` and
`PutsBits.extract_apart`.
-/

namespace DnsWire

/-! ## Changes to neighbouring bits -/

/-- The bits of a word from `shift` on, as many as `width` says, are those of a number now, and all
others are what they were. -/
def PutsBits {n : Nat} (shift width value : Nat) (old new : BitVec n) : Prop :=
  ∀ j < n, new.getLsbD j =
    if shift ≤ j ∧ j < shift + width then value.testBit (j - shift) else old.getLsbD j

namespace PutsBits

variable {m n shift width value : Nat} {old new : BitVec n}

/-- The whole of a word is changed. -/
theorem whole (old new : BitVec n) : PutsBits 0 n new.toNat old new := by
  intro j lt
  rw [if_pos ⟨Nat.zero_le _, by omega⟩]
  rfl

/-- The front half of a word is changed. -/
theorem append_left (h : PutsBits shift width value old new) (low : BitVec m) :
    PutsBits (shift + m) width value (old ++ low) (new ++ low) := by
  intro j lt
  rw [BitVec.getLsbD_append, BitVec.getLsbD_append]
  by_cases behind : j < m
  · have outside : ¬(shift + m ≤ j ∧ j < shift + m + width) := by omega
    rw [if_pos behind, if_pos behind, if_neg outside]
  · have moved : (shift + m ≤ j ∧ j < shift + m + width) ↔
        shift ≤ j - m ∧ j - m < shift + width := by omega
    rw [if_neg behind, if_neg behind, h (j - m) (by omega), Nat.sub_sub, Nat.add_comm m]
    simp only [moved]

/-- The rear half of a word is changed. -/
theorem append_right (h : PutsBits shift width value old new) (fits : shift + width ≤ n)
    (high : BitVec m) : PutsBits shift width value (high ++ old) (high ++ new) := by
  intro j lt
  rw [BitVec.getLsbD_append, BitVec.getLsbD_append]
  by_cases behind : j < n
  · rw [if_pos behind, if_pos behind, h j behind]
  · have outside : ¬(shift ≤ j ∧ j < shift + width) := by omega
    rw [if_neg behind, if_neg behind, if_neg outside]

/-- The bits that were changed are those of the number. -/
theorem extract_same (h : PutsBits shift width value old new) (fits : shift + width ≤ n) :
    (new.extractLsb' shift width).toNat = value % 2 ^ width := by
  rw [← BitVec.toNat_ofNat]
  refine congrArg BitVec.toNat (BitVec.eq_of_getLsbD_eq fun k lt => ?_)
  rw [BitVec.getLsbD_extractLsb', h (shift + k) (by omega), if_pos (by omega),
    Nat.add_sub_cancel_left, BitVec.getLsbD_ofNat]

/-- Bits apart from those that were changed are what they were. -/
theorem extract_apart (h : PutsBits shift width value old new) {start size : Nat}
    (fits : start + size ≤ n) (apart : start + size ≤ shift ∨ shift + width ≤ start) :
    new.extractLsb' start size = old.extractLsb' start size := by
  refine BitVec.eq_of_getLsbD_eq fun k lt => ?_
  rw [BitVec.getLsbD_extractLsb', BitVec.getLsbD_extractLsb', h (start + k) (by omega),
    if_neg (by omega)]

end PutsBits

/-! ## The masks of a header -/

/-- A word of 16 bits has the bits of its two octets. -/
theorem toBitVec_word16 (high low : UInt8) :
    (word16 high low).toBitVec = high.toBitVec ++ low.toBitVec := by
  refine BitVec.eq_of_toNat_eq ?_
  rw [BitVec.toNat_append, ← Nat.shiftLeft_add_eq_or_of_lt low.toBitVec.isLt, Nat.shiftLeft_eq]
  show (word16 high low).toNat = high.toNat * 2 ^ 8 + low.toNat
  rw [toNat_word16]
  omega

theorem getLsbD_mask {bit : UInt8} (lt : bit.toNat < 8) {j : Nat} (small : j < 8) :
    ((1 : UInt8) <<< bit).toBitVec.getLsbD j = decide (j = bit.toNat) := by
  have only : ¬j < bit.toNat ∧ j - bit.toNat = 0 ↔ j = bit.toNat := by omega
  have place : (bit.toBitVec % 8).toNat = bit.toNat := Nat.mod_eq_of_lt lt
  have one : (UInt8.toBitVec 1).getLsbD (j - bit.toNat) = decide (j - bit.toNat = 0) := by
    simp
  rw [UInt8.toBitVec_shiftLeft, BitVec.shiftLeft_eq', BitVec.getLsbD_shiftLeft, place, one]
  simp only [small, decide_true, Bool.true_and, ← only, Bool.decide_and, decide_not]

/-- A bit of an octet is set or cleared. -/
theorem putsBits_setBit (octet : UInt8) {bit : UInt8} (lt : bit.toNat < 8) (value : Bool) :
    PutsBits bit.toNat 1 value.toNat octet.toBitVec
      (if value then octet ||| (1 : UInt8) <<< bit
        else octet &&& ~~~((1 : UInt8) <<< bit)).toBitVec := by
  intro j small
  have mask := getLsbD_mask lt small
  generalize (1 : UInt8) <<< bit = single at mask ⊢
  have here : (bit.toNat ≤ j ∧ j < bit.toNat + 1) ↔ j = bit.toNat := by omega
  simp only [here]
  cases value with
  | false =>
      simp only [Bool.false_eq_true, if_false, UInt8.toBitVec_and, UInt8.toBitVec_not,
        BitVec.getLsbD_and, BitVec.getLsbD_not, small, mask]
      split <;> simp [*]
  | true =>
      simp only [if_true, UInt8.toBitVec_or, BitVec.getLsbD_or, mask]
      split <;> simp [*]

/-- The opcode of an octet is changed, and its first and its last three bits are kept. -/
theorem putsBits_opcode (octet code : UInt8) :
    PutsBits 3 4 code.toNat octet.toBitVec
      ((octet &&& 0x87) ||| (code &&& 0x0F) <<< (3 : UInt8)).toBitVec := by
  intro j small
  have bit : code.toNat.testBit (j - 3) = code.toBitVec.getLsbD (j - 3) := rfl
  rw [bit]
  match j, small with
  | 0, _ | 1, _ | 2, _ | 3, _ | 4, _ | 5, _ | 6, _ | 7, _ =>
    simp

/-- The response code of an octet is changed, and its first four bits are kept. -/
theorem putsBits_responseCode (octet code : UInt8) :
    PutsBits 0 4 code.toNat octet.toBitVec ((octet &&& 0xF0) ||| (code &&& 0x0F)).toBitVec := by
  intro j small
  have bit : code.toNat.testBit (j - 0) = code.toBitVec.getLsbD j := rfl
  rw [bit]
  match j, small with
  | 0, _ | 1, _ | 2, _ | 3, _ | 4, _ | 5, _ | 6, _ | 7, _ =>
    simp

end DnsWire

/-!
# Words as octets

The wire format writes every number with its most significant octet first. `octets16` and
`octets32` write a word, `word16` and `word32` put one together from its octets, and each pair is
inverse to the other. `wordOf` and `setWord` are the same for a word that stands among octets.
-/

namespace DnsWire

/-- The two octets of a word of 16 bits. -/
def octets16 (word : UInt16) : List UInt8 :=
  [UInt8.ofNat (word.toNat / 256), UInt8.ofNat word.toNat]

/-- The four octets of a word of 32 bits. -/
def octets32 (word : UInt32) : List UInt8 :=
  [UInt8.ofNat (word.toNat / 16777216), UInt8.ofNat (word.toNat / 65536),
    UInt8.ofNat (word.toNat / 256), UInt8.ofNat word.toNat]

/-- The word of 16 bits with these octets. -/
def word16 (high low : UInt8) : UInt16 :=
  UInt16.ofNat (256 * high.toNat + low.toNat)

/-- The word of 32 bits with these octets. -/
def word32 (a b c d : UInt8) : UInt32 :=
  UInt32.ofNat (16777216 * a.toNat + 65536 * b.toNat + 256 * c.toNat + d.toNat)

/-- The word of 16 bits that stands at a place among octets. -/
def wordOf {n : Nat} (octets : Vector UInt8 n) (i : Nat) (inside : i + 1 < n := by omega) :
    UInt16 :=
  word16 octets[i] octets[i + 1]

/-- The octets with a word of 16 bits at a place. -/
def setWord {n : Nat} (octets : Vector UInt8 n) (i : Nat) (word : UInt16)
    (inside : i + 1 < n := by omega) : Vector UInt8 n :=
  (octets.set i (UInt8.ofNat (word.toNat / 256))).set (i + 1) (UInt8.ofNat word.toNat)

@[simp] theorem length_octets16 (word : UInt16) : (octets16 word).length = 2 := rfl

@[simp] theorem length_octets32 (word : UInt32) : (octets32 word).length = 4 := rfl

theorem toNat_word16 (high low : UInt8) :
    (word16 high low).toNat = 256 * high.toNat + low.toNat := by
  have h := high.toNat_lt
  have l := low.toNat_lt
  rw [word16, UInt16.toNat_ofNat']
  omega

theorem octets16_word16 (high low : UInt8) : octets16 (word16 high low) = [high, low] := by
  have h := high.toNat_lt
  have l := low.toNat_lt
  simp only [octets16, word16, UInt16.toNat_ofNat', List.cons.injEq, and_true,
    ← UInt8.toNat_inj, UInt8.toNat_ofNat']
  omega

theorem word16_octets16 (word : UInt16) :
    word16 (UInt8.ofNat (word.toNat / 256)) (UInt8.ofNat word.toNat) = word := by
  have h := word.toNat_lt
  simp only [word16, ← UInt16.toNat_inj, UInt16.toNat_ofNat', UInt8.toNat_ofNat']
  omega

/-- A word is read as it was written. -/
@[simp] theorem wordOf_setWord {n : Nat} (octets : Vector UInt8 n) (i : Nat) (word : UInt16)
    (inside : i + 1 < n) : wordOf (setWord octets i word) i = word := by
  unfold wordOf setWord
  rw [Vector.getElem_set_self, Vector.getElem_set_ne _ _ (by omega), Vector.getElem_set_self,
    word16_octets16]

/-- A word is not touched where another one is written. -/
theorem wordOf_setWord_of_apart {n : Nat} (octets : Vector UInt8 n) {i j : Nat} (word : UInt16)
    (inside : i + 1 < n) (within : j + 1 < n) (apart : i + 1 < j ∨ j + 1 < i) :
    wordOf (setWord octets i word) j = wordOf octets j := by
  unfold wordOf setWord
  rw [Vector.getElem_set_ne _ _ (by omega), Vector.getElem_set_ne _ _ (by omega),
    Vector.getElem_set_ne _ _ (by omega), Vector.getElem_set_ne _ _ (by omega)]

theorem octets32_word32 (a b c d : UInt8) : octets32 (word32 a b c d) = [a, b, c, d] := by
  have ha := a.toNat_lt
  have hb := b.toNat_lt
  have hc := c.toNat_lt
  have hd := d.toNat_lt
  simp only [octets32, word32, UInt32.toNat_ofNat', List.cons.injEq, and_true,
    ← UInt8.toNat_inj, UInt8.toNat_ofNat']
  omega

theorem word32_octets32 (word : UInt32) :
    word32 (UInt8.ofNat (word.toNat / 16777216)) (UInt8.ofNat (word.toNat / 65536))
      (UInt8.ofNat (word.toNat / 256)) (UInt8.ofNat word.toNat) = word := by
  have h := word.toNat_lt
  simp only [word32, ← UInt32.toNat_inj, UInt32.toNat_ofNat', UInt8.toNat_ofNat']
  omega

end DnsWire

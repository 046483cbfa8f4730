import DnsWire.Text.Utf8

/-!
# Text reads back from its UTF-8

Main statement: `decode_encode` — a text is what its octets are read as, so no replacement
character stands where there was none. Octets from which a text comes are thereby those that writing
it gives back (`isValid_iff`). Only no octets at all are read as no text (`decode_eq_nil`).

The proof follows the four lengths of a sequence. `start_one` to `start_four` say what the first
octet of each announces, in terms of the number of the character; `decodeFrom_more` and
`decodeFrom_last` add the continuation octets.
-/

namespace DnsWire.Utf8

/-! ## First octets -/

theorem start_one {n : Nat} (hi : n ≤ 127) :
    start (UInt8.ofNat n) = .char (Char.ofNat n) := by
  have octet : (UInt8.ofNat n).toNat = n := by
    simp only [UInt8.toNat_ofNat']
    omega
  simp only [start, UInt8.lt_iff_toNat_lt, octet, UInt8.reduceToNat]
  rw [if_pos (by omega)]

theorem start_two {n : Nat} (lo : 127 < n) (hi : n ≤ 2047) :
    start (UInt8.ofNat (n / 64 % 32 + 192)) = .pending ⟨n / 64, 0, 0x80, 0xBF⟩ := by
  have octet : (UInt8.ofNat (n / 64 % 32 + 192)).toNat = n / 64 + 192 := by
    simp only [UInt8.toNat_ofNat']
    omega
  simp only [start, UInt8.lt_iff_toNat_lt, octet, UInt8.reduceToNat]
  rw [if_neg (by omega), if_neg (by omega), if_pos (by omega)]
  congr 2
  omega

theorem start_three {n : Nat} (lo : 2047 < n) (hi : n ≤ 65535) :
    start (UInt8.ofNat (n / 4096 % 16 + 224)) =
      .pending ⟨n / 4096, 1, if n / 4096 = 0 then 0xA0 else 0x80,
        if n / 4096 = 13 then 0x9F else 0xBF⟩ := by
  have octet : (UInt8.ofNat (n / 4096 % 16 + 224)).toNat = n / 4096 + 224 := by
    simp only [UInt8.toNat_ofNat']
    omega
  simp only [start, UInt8.lt_iff_toNat_lt, ← UInt8.toNat_inj, octet, UInt8.reduceToNat]
  rw [if_neg (by omega), if_neg (by omega), if_neg (by omega), if_pos (by omega)]
  simp only [Nat.add_eq_right, Nat.reduceEqDiff, show (n / 4096 + 224) % 16 = n / 4096 by omega]

theorem start_four {n : Nat} (lo : 65535 < n) (hi : n < 1114112) :
    start (UInt8.ofNat (n / 262144 % 8 + 240)) =
      .pending ⟨n / 262144, 2, if n / 262144 = 0 then 0x90 else 0x80,
        if n / 262144 = 4 then 0x8F else 0xBF⟩ := by
  have octet : (UInt8.ofNat (n / 262144 % 8 + 240)).toNat = n / 262144 + 240 := by
    simp only [UInt8.toNat_ofNat']
    omega
  simp only [start, UInt8.lt_iff_toNat_lt, ← UInt8.toNat_inj, octet, UInt8.reduceToNat]
  rw [if_neg (by omega), if_neg (by omega), if_neg (by omega), if_neg (by omega),
    if_pos (by omega)]
  simp only [Nat.add_eq_right, Nat.reduceEqDiff, show (n / 262144 + 240) % 8 = n / 262144 by omega]

/-! ## Continuation octets -/

theorem toNat_continuation (n : Nat) : (UInt8.ofNat (n % 64 + 128)).toNat = n % 64 + 128 := by
  simp only [UInt8.toNat_ofNat']
  omega

theorem admits_continuation {p : Pending} {n : Nat} (lo : p.low.toNat ≤ n % 64 + 128)
    (hi : n % 64 + 128 ≤ p.high.toNat) : p.admits (UInt8.ofNat (n % 64 + 128)) = true := by
  simp only [Pending.admits, UInt8.le_iff_toNat_le, toNat_continuation, lo, hi, decide_true,
    Bool.and_self]

theorem push_continuation (p : Pending) (n : Nat) :
    p.push (UInt8.ofNat (n % 64 + 128)) = 64 * p.bits + n % 64 := by
  simp only [Pending.push, toNat_continuation]
  omega

/-- The last continuation octet completes a sequence. -/
theorem decodeFrom_last {bits n : Nat} {low high : UInt8} (rest : List UInt8)
    (lo : low.toNat ≤ n % 64 + 128) (hi : n % 64 + 128 ≤ high.toNat) :
    decodeFrom (some ⟨bits, 0, low, high⟩) (UInt8.ofNat (n % 64 + 128) :: rest) =
      Char.ofNat (64 * bits + n % 64) :: decodeFrom none rest := by
  rw [decodeFrom, if_pos (admits_continuation lo hi), push_continuation]

/-- Any other continuation octet adds its six bits. -/
theorem decodeFrom_more {bits more n : Nat} {low high : UInt8} (rest : List UInt8)
    (lo : low.toNat ≤ n % 64 + 128) (hi : n % 64 + 128 ≤ high.toNat) :
    decodeFrom (some ⟨bits, more + 1, low, high⟩) (UInt8.ofNat (n % 64 + 128) :: rest) =
      decodeFrom (some ⟨64 * bits + n % 64, more, 0x80, 0xBF⟩) rest := by
  rw [decodeFrom, if_pos (admits_continuation lo hi), push_continuation]

theorem decodeFrom_pending {octet : UInt8} {p : Pending} (rest : List UInt8)
    (h : start octet = .pending p) :
    decodeFrom none (octet :: rest) = decodeFrom (some p) rest := by
  rw [decodeFrom, h]

/-! ## Characters and texts -/

/-- The octets of a character are read as the character, whatever follows them. -/
theorem decodeFrom_utf8EncodeChar (c : Char) (rest : List UInt8) :
    decodeFrom none (String.utf8EncodeChar c ++ rest) = c :: decodeFrom none rest := by
  have back : Char.ofNat c.val.toNat = c := Char.ofNat_toNat c
  have valid : c.val.toNat < 55296 ∨ 57343 < c.val.toNat ∧ c.val.toNat < 1114112 := c.valid
  rw [String.utf8EncodeChar.eq_1]
  generalize c.val.toNat = n at back valid
  have any : (0x80 : UInt8).toNat ≤ n % 64 + 128 ∧ n % 64 + 128 ≤ (0xBF : UInt8).toNat := by
    simp only [UInt8.reduceToNat]
    omega
  split
  · next one =>
    rw [List.cons_append, decodeFrom, start_one one, back]
    rfl
  split
  · next one two =>
    rw [List.cons_append, decodeFrom_pending _ (start_two (by omega) two), List.cons_append,
      decodeFrom_last _ any.1 any.2, show 64 * (n / 64) + n % 64 = n by omega, back]
    rfl
  split
  · next one two three =>
    rw [List.cons_append, decodeFrom_pending _ (start_three (by omega) three), List.cons_append,
      decodeFrom_more, List.cons_append, decodeFrom_last _ any.1 any.2,
      show 64 * (64 * (n / 4096) + n / 64 % 64) + n % 64 = n by omega, back]
    · rfl
    · split <;> simp only [UInt8.reduceToNat] <;> omega
    · split <;> simp only [UInt8.reduceToNat] <;> omega
  · next one two three =>
    rw [List.cons_append, decodeFrom_pending _ (start_four (by omega) (by omega)),
      List.cons_append, decodeFrom_more, List.cons_append, decodeFrom_more, List.cons_append,
      decodeFrom_last _ any.1 any.2,
      show 64 * (64 * (64 * (n / 262144) + n / 4096 % 64) + n / 64 % 64) + n % 64 = n by omega,
      back]
    · rfl
    · simp only [UInt8.reduceToNat]
      omega
    · simp only [UInt8.reduceToNat]
      omega
    · split <;> simp only [UInt8.reduceToNat] <;> omega
    · split <;> simp only [UInt8.reduceToNat] <;> omega

/-- A text reads back from its octets. -/
@[simp] theorem decode_encode (text : List Char) : decode (encode text) = text := by
  induction text with
  | nil => rfl
  | cons c rest ih => rw [encode_cons, decode, decodeFrom_utf8EncodeChar, ← decode, ih]

theorem encode_injective : Function.Injective encode := by
  intro left right same
  rw [← decode_encode left, same, decode_encode]

theorem encode_eq_nil {text : List Char} : encode text = [] ↔ text = [] :=
  encode_injective.eq_iff (b := [])

/-! ## Octets without a text -/

/-- A sequence that has begun becomes a character, or a replacement where it breaks off. -/
theorem decodeFrom_some_ne_nil (p : Pending) (octets : List UInt8) :
    decodeFrom (some p) octets ≠ [] := by
  induction octets generalizing p with
  | nil => simp [decodeFrom]
  | cons octet rest ih =>
      rw [decodeFrom]
      split
      · split
        · simp
        · exact ih _
      · split <;> simp

/-- Octets leave a text behind, whatever they are. -/
@[simp] theorem decode_eq_nil {octets : List UInt8} : decode octets = [] ↔ octets = [] := by
  cases octets with
  | nil => simp
  | cons octet rest =>
      simp only [decode, decodeFrom, reduceCtorEq, iff_false]
      split
      · simp
      · exact decodeFrom_some_ne_nil _ rest

/-- Each character uses up an octet; a sequence that has begun has used up one already. -/
theorem length_decodeFrom_le (begun : Option Pending) (octets : List UInt8) :
    (decodeFrom begun octets).length ≤ octets.length + begun.toList.length := by
  fun_induction decodeFrom begun octets <;>
    simp only [List.length_cons, List.length_nil, Option.toList_some, Option.toList_none] at * <;>
    omega

/-- Octets leave no more characters behind than there are octets. -/
theorem length_decode_le (octets : List UInt8) : (decode octets).length ≤ octets.length :=
  length_decodeFrom_le none octets

/-! ## Octets that are UTF-8 -/

/-- The octets are those of a text. -/
def IsValid (octets : List UInt8) : Prop :=
  ∃ text, encode text = octets

/-- Octets are UTF-8 exactly if nothing in them has to be replaced. -/
theorem isValid_iff {octets : List UInt8} : IsValid octets ↔ encode (decode octets) = octets := by
  constructor
  · intro h
    obtain ⟨text, rfl⟩ := h
    rw [decode_encode]
  · exact fun h => ⟨_, h⟩

instance (octets : List UInt8) : Decidable (IsValid octets) :=
  decidable_of_iff _ isValid_iff.symm

theorem toNat_ofNat_ascii {n : Nat} (ascii : n < 128) : (Char.ofNat n).toNat = n := by
  rw [Char.ofNat, dif_pos (Or.inl (by omega))]
  rfl

/-- An octet below 128 is a character of its own and no part of another one. -/
theorem mem_utf8EncodeChar {octet : UInt8} {c : Char} (ascii : octet.toNat < 128) :
    octet ∈ String.utf8EncodeChar c ↔ c = Char.ofNat octet.toNat := by
  have value : c = Char.ofNat octet.toNat ↔ c.val.toNat = octet.toNat := by
    refine ⟨fun eq => ?_, fun h => (Char.ofNat_toNat c).symm.trans (congrArg Char.ofNat h)⟩
    rw [eq]
    exact toNat_ofNat_ascii ascii
  rw [value, String.utf8EncodeChar.eq_1]
  generalize c.val.toNat = n
  split
  · rw [List.mem_singleton, ← UInt8.toNat_inj, UInt8.toNat_ofNat']
    omega
  -- The octets of a longer sequence are 128 at least, and so is the character.
  split
  · simp only [List.mem_cons, List.not_mem_nil, or_false, ← UInt8.toNat_inj, UInt8.toNat_ofNat']
    omega
  split
  · simp only [List.mem_cons, List.not_mem_nil, or_false, ← UInt8.toNat_inj, UInt8.toNat_ofNat']
    omega
  · simp only [List.mem_cons, List.not_mem_nil, or_false, ← UInt8.toNat_inj, UInt8.toNat_ofNat']
    omega

theorem mem_encode {octet : UInt8} {text : List Char} (ascii : octet.toNat < 128) :
    octet ∈ encode text ↔ Char.ofNat octet.toNat ∈ text := by
  simp only [encode, List.mem_flatMap, mem_utf8EncodeChar ascii, exists_eq_right]

/-! ## Octets below 128 in any octets -/

/-- Neither the octets to come nor the character that they make are below 128. -/
structure Pending.BeyondAscii (p : Pending) : Prop where
  low_ge : 128 ≤ p.low.toNat
  high_le : p.high.toNat ≤ 191
  bits_ge : if p.more = 0 then 2 ≤ p.bits else 130 ≤ 64 * p.bits + p.low.toNat

/-- Between two characters, an octet below 128 is a character, and any other one is replaced or
begins a sequence. -/
theorem start_cases (octet : UInt8) :
    (octet.toNat < 128 ∧ start octet = .char (Char.ofNat octet.toNat)) ∨
      (128 ≤ octet.toNat ∧ start octet = .char replacement) ∨
      (128 ≤ octet.toNat ∧ ∃ p : Pending, start octet = .pending p ∧ p.BeyondAscii) := by
  have bound := octet.toNat_lt
  simp only [start, UInt8.lt_iff_toNat_lt, ← UInt8.toNat_inj, UInt8.reduceToNat]
  split
  · next ascii => exact Or.inl ⟨ascii, rfl⟩
  refine Or.inr ?_
  split
  · exact Or.inl ⟨by omega, rfl⟩
  split
  · refine Or.inr ⟨by omega, _, rfl, by simp, by simp, ?_⟩
    simp only [if_pos]
    omega
  split
  · refine Or.inr ⟨by omega, _, rfl, ?_, ?_, ?_⟩
    · dsimp only
      split <;> simp
    · dsimp only
      split <;> simp
    · dsimp only
      rw [if_neg (by decide)]
      split <;> simp only [UInt8.reduceToNat] <;> omega
  split
  · refine Or.inr ⟨by omega, _, rfl, ?_, ?_, ?_⟩
    · dsimp only
      split <;> simp
    · dsimp only
      split <;> simp
    · dsimp only
      rw [if_neg (by decide)]
      split <;> simp only [UInt8.reduceToNat] <;> omega
  · exact Or.inl ⟨by omega, rfl⟩

theorem Pending.BeyondAscii.ge_of_admits {p : Pending} (h : p.BeyondAscii) {octet : UInt8}
    (admitted : p.admits octet = true) :
    p.low.toNat ≤ octet.toNat ∧ octet.toNat ≤ 191 := by
  simp only [Pending.admits, Bool.and_eq_true, decide_eq_true_eq, UInt8.le_iff_toNat_le]
    at admitted
  exact ⟨admitted.1, Nat.le_trans admitted.2 h.high_le⟩

theorem Pending.BeyondAscii.push_ge {p : Pending} (h : p.BeyondAscii) (octet : UInt8)
    (last : p.more = 0) : 128 ≤ p.push octet := by
  have := h.bits_ge
  rw [if_pos last] at this
  rw [Pending.push]
  omega

theorem Pending.BeyondAscii.push {p : Pending} (h : p.BeyondAscii) {octet : UInt8}
    (admits : p.admits octet = true) {more : Nat} (further : p.more = more + 1) :
    Pending.BeyondAscii ⟨p.push octet, more, 0x80, 0xBF⟩ := by
  have bits := h.bits_ge
  rw [if_neg (by omega)] at bits
  have range := h.ge_of_admits admits
  have low := h.low_ge
  refine ⟨by simp, by simp, ?_⟩
  simp only [Pending.push, UInt8.reduceToNat]
  split <;> omega

/-- Where a sequence breaks off, the octet is read as if nothing had begun. -/
theorem decodeFrom_of_not_admits {p : Pending} {octet : UInt8} (rest : List UInt8)
    (h : p.admits octet = false) :
    decodeFrom (some p) (octet :: rest) = replacement :: decodeFrom none (octet :: rest) := by
  simp only [decodeFrom, h]
  cases start octet <;> rfl

theorem ofNat_ne_ascii {n k : Nat} (big : 128 ≤ n) (pos : 0 < k) (ascii : k < 128) :
    Char.ofNat n ≠ Char.ofNat k := by
  intro eq
  have value := toNat_ofNat_ascii ascii
  rw [← eq, Char.ofNat] at value
  by_cases valid : n.isValidChar
  · rw [dif_pos valid] at value
    have : n = k := value
    omega
  · rw [dif_neg valid] at value
    have : 0 = k := value
    omega

theorem replacement_ne_ascii {k : Nat} (pos : 0 < k) (ascii : k < 128) :
    replacement ≠ Char.ofNat k :=
  ofNat_ne_ascii (n := 0xFFFD) (by decide) pos ascii

theorem ofNat_eq_ofNat_ascii {left right : UInt8} (left_ascii : left.toNat < 128)
    (right_ascii : right.toNat < 128) :
    Char.ofNat left.toNat = Char.ofNat right.toNat ↔ left = right := by
  rw [← UInt8.toNat_inj]
  refine ⟨fun eq => ?_, congrArg Char.ofNat⟩
  rw [← toNat_ofNat_ascii left_ascii, eq, toNat_ofNat_ascii right_ascii]

section Count

variable {octet : UInt8}

/-- Between two characters, an octet adds itself and nothing else to those behind it. -/
theorem count_decodeFrom_cons (pos : 0 < octet.toNat) (ascii : octet.toNat < 128)
    {rest : List UInt8}
    (idle : (decodeFrom none rest).count (Char.ofNat octet.toNat) = rest.count octet)
    (begun : ∀ p : Pending, p.BeyondAscii →
      (decodeFrom (some p) rest).count (Char.ofNat octet.toNat) = rest.count octet)
    (first : UInt8) :
    (decodeFrom none (first :: rest)).count (Char.ofNat octet.toNat) =
      (first :: rest).count octet := by
  rw [decodeFrom]
  rcases start_cases first with ⟨below, eq⟩ | ⟨above, eq⟩ | ⟨above, p, eq, beyond⟩
  · rw [eq]
    simp only [List.count_cons, idle, beq_iff_eq, ofNat_eq_ofNat_ascii below ascii]
  · have other : first ≠ octet := by
      rintro rfl
      omega
    rw [eq]
    dsimp only
    rw [List.count_cons_of_ne (replacement_ne_ascii pos ascii), List.count_cons_of_ne other, idle]
  · have other : first ≠ octet := by
      rintro rfl
      omega
    rw [eq]
    dsimp only
    rw [List.count_cons_of_ne other, begun p beyond]

/-- A character below 128 comes from the octet with its number and from no other one, between two
characters and inside of a sequence. -/
theorem count_decodeFrom (pos : 0 < octet.toNat) (ascii : octet.toNat < 128)
    (octets : List UInt8) :
    (decodeFrom none octets).count (Char.ofNat octet.toNat) = octets.count octet ∧
      ∀ p : Pending, p.BeyondAscii →
        (decodeFrom (some p) octets).count (Char.ofNat octet.toNat) = octets.count octet := by
  have replaced := replacement_ne_ascii pos ascii
  induction octets with
  | nil =>
      refine ⟨rfl, fun p _ => ?_⟩
      rw [decodeFrom, List.count_cons_of_ne replaced, List.count_nil, List.count_nil]
  | cons first rest ih =>
      obtain ⟨idle, begun⟩ := ih
      have fresh := count_decodeFrom_cons pos ascii idle begun first
      refine ⟨fresh, fun p beyond => ?_⟩
      cases admitted : p.admits first with
      | false =>
          rw [decodeFrom_of_not_admits rest admitted, List.count_cons_of_ne replaced, fresh]
      | true =>
          have other : first ≠ octet := by
            have range := beyond.ge_of_admits admitted
            have low := beyond.low_ge
            rintro rfl
            omega
          rw [decodeFrom, if_pos admitted, List.count_cons_of_ne other]
          cases more : p.more with
          | zero =>
              dsimp only
              rw [List.count_cons_of_ne (ofNat_ne_ascii (beyond.push_ge first more) pos ascii),
                idle]
          | succ further => exact begun _ (beyond.push admitted more)

/-- As often as an octet below 128 stands in octets, its character stands in their text, whatever
breaks off or is replaced around it. -/
theorem count_decode (pos : 0 < octet.toNat) (ascii : octet.toNat < 128) (octets : List UInt8) :
    (decode octets).count (Char.ofNat octet.toNat) = octets.count octet :=
  (count_decodeFrom pos ascii octets).1

end Count

end DnsWire.Utf8

import DnsWire.Text.Ascii
import DnsWire.Text.Utf8.Lemmas

/-!
# Texts cut at offsets in octets

A text can be cut at an offset into its octets exactly if some characters in front of it take up so
many octets (`isBoundary_encode`), so both parts are texts again. An offset that falls inside of a
character (`Splits`) is none of these, and cutting there is a fault (`behind_of_splits`).

ASCII characters are octets of their own, which no other character shares. So the case of letters
can be looked at in octets instead of characters (`sameOctets_encode`).
-/

namespace DnsWire.Utf8

/-! ## The octets of a character -/

theorem isContinuation_iff {octet : UInt8} :
    isContinuation octet = true ↔ 128 ≤ octet.toNat ∧ octet.toNat < 192 := by
  simp [isContinuation, UInt8.le_iff_toNat_le, UInt8.lt_iff_toNat_lt]

/-- A character begins with an octet that continues none, and goes on with octets that do. An ASCII
character is one octet, and the octets of any other one are 128 at least. -/
theorem utf8EncodeChar_cases (c : Char) : ∃ first rest,
    String.utf8EncodeChar c = first :: rest ∧ isContinuation first = false ∧
      (∀ octet ∈ rest, isContinuation octet = true) ∧
      (c.toNat < 128 ∧ first.toNat = c.toNat ∧ rest = [] ∨
        128 ≤ c.toNat ∧ 128 ≤ first.toNat) := by
  have valid : c.val.toNat < 55296 ∨ 57343 < c.val.toNat ∧ c.val.toNat < 1114112 := c.valid
  have number : c.toNat = c.val.toNat := rfl
  have whole {m : Nat} (small : m < 256) : (UInt8.ofNat m).toNat = m := by
    rw [UInt8.toNat_ofNat', Nat.mod_eq_of_lt small]
  have leading {m : Nat} (small : m < 256) (range : m < 128 ∨ 192 ≤ m) :
      isContinuation (UInt8.ofNat m) = false := by
    rw [Bool.eq_false_iff, Ne, isContinuation_iff, whole small]
    omega
  have later (m : Nat) : isContinuation (UInt8.ofNat (m % 64 + 128)) = true := by
    rw [isContinuation_iff, toNat_continuation]
    omega
  rw [String.utf8EncodeChar.eq_1, number]
  generalize c.val.toNat = n at valid
  split
  · exact ⟨_, _, rfl, leading (by omega) (by omega), nofun,
      Or.inl ⟨by omega, whole (by omega), rfl⟩⟩
  split
  · refine ⟨_, _, rfl, leading (by omega) (by omega), ?_, Or.inr ⟨by omega, ?_⟩⟩
    · exact List.forall_mem_cons.2 ⟨later _, nofun⟩
    · rw [whole (by omega)]
      omega
  split
  · refine ⟨_, _, rfl, leading (by omega) (by omega), ?_, Or.inr ⟨by omega, ?_⟩⟩
    · exact List.forall_mem_cons.2 ⟨later _, List.forall_mem_cons.2 ⟨later _, nofun⟩⟩
    · rw [whole (by omega)]
      omega
  · refine ⟨_, _, rfl, leading (by omega) (by omega), ?_, Or.inr ⟨by omega, ?_⟩⟩
    · exact List.forall_mem_cons.2 ⟨later _,
        List.forall_mem_cons.2 ⟨later _, List.forall_mem_cons.2 ⟨later _, nofun⟩⟩⟩
    · rw [whole (by omega)]
      omega

@[simp] theorem encode_append (front behind : List Char) :
    encode (front ++ behind) = encode front ++ encode behind :=
  List.flatMap_append

/-! ## Boundaries -/

variable {text : List Char} {offset : Nat}

/-- A text can be cut in front of itself. -/
theorem isBoundary_append_encode (front : List UInt8) (text : List Char) :
    isBoundary (front ++ encode text) front.length = true := by
  unfold isBoundary
  rw [List.getElem?_append_right (Nat.le_refl _), Nat.sub_self]
  cases text with
  | nil => simp
  | cons c rest =>
      obtain ⟨first, later, octets, begins, -⟩ := utf8EncodeChar_cases c
      simp [octets, begins]

/-- Behind some octets a text is cut where it is cut without them. -/
theorem isBoundary_append (front : List UInt8) {octets : List UInt8} (pos : 0 < offset) :
    isBoundary (front ++ octets) (front.length + offset) = isBoundary octets offset := by
  have further : (front.length + offset == 0) = false := beq_eq_false_iff_ne.2 (by omega)
  have ends : (front.length + offset == (front ++ octets).length) = (offset == octets.length) := by
    rw [List.length_append, Bool.eq_iff_iff, beq_iff_eq, beq_iff_eq, Nat.add_left_cancel_iff]
  unfold isBoundary
  rw [List.getElem?_append_right (Nat.le_add_right _ _), Nat.add_sub_cancel_left, further, ends,
    beq_eq_false_iff_ne.2 (Nat.ne_of_gt pos)]

/-- Inside of a character there is nothing to cut. -/
theorem isBoundary_inside {c : Char} (rest : List UInt8) (pos : 0 < offset)
    (inside : offset < (String.utf8EncodeChar c).length) :
    isBoundary (String.utf8EncodeChar c ++ rest) offset = false := by
  obtain ⟨first, later, octets, -, continued, -⟩ := utf8EncodeChar_cases c
  rw [octets] at inside ⊢
  obtain ⟨i, rfl⟩ := Nat.exists_eq_add_of_le' pos
  have lt : i < later.length := Nat.lt_of_succ_lt_succ inside
  have octet := continued later[i] (List.getElem_mem lt)
  simp [isBoundary, List.getElem?_append_left, lt, octet]

/-- The octets of a text can be cut where some of its characters end. -/
theorem isBoundary_encode : isBoundary (encode text) offset = true ↔
    ∃ front behind, text = front ++ behind ∧ (encode front).length = offset := by
  constructor
  · intro cut
    induction text generalizing offset with
    | nil =>
        have : offset = 0 := by simpa [isBoundary] using cut
        exact ⟨[], [], rfl, this.symm⟩
    | cons c rest ih =>
        rw [encode_cons] at cut
        -- The offset is in front of the first character, inside of it, at its end or further on.
        rcases Nat.eq_zero_or_pos offset with rfl | pos
        · exact ⟨[], c :: rest, rfl, rfl⟩
        by_cases inside : offset < (String.utf8EncodeChar c).length
        · rw [isBoundary_inside _ pos inside] at cut
          cases cut
        obtain ⟨further, rfl⟩ := Nat.exists_eq_add_of_le (Nat.not_lt.1 inside)
        rcases Nat.eq_zero_or_pos further with rfl | more
        · exact ⟨[c], rest, rfl, by simp⟩
        rw [isBoundary_append _ more] at cut
        obtain ⟨front, behind, rfl, length⟩ := ih cut
        exact ⟨c :: front, behind, rfl, by rw [encode_cons, List.length_append, length]⟩
  · intro h
    obtain ⟨front, behind, rfl, rfl⟩ := h
    rw [encode_append]
    exact isBoundary_append_encode _ _

/-- Where a text is cut, both parts are the octets of characters. -/
theorem exists_append_of_isBoundary (h : isBoundary (encode text) offset = true) :
    ∃ front behind, text = front ++ behind ∧ (encode text).take offset = encode front ∧
      (encode text).drop offset = encode behind := by
  obtain ⟨front, behind, rfl, rfl⟩ := isBoundary_encode.1 h
  exact ⟨front, behind, rfl, by simp, by simp⟩

/-- An offset in octets falls inside of a character. -/
def Splits (text : List Char) (offset : Nat) : Prop :=
  ∃ front c behind, text = front ++ c :: behind ∧ (encode front).length < offset ∧
    offset < (encode (front ++ [c])).length

/-- Every character of an ASCII text is one octet, which no offset falls inside of. -/
theorem not_splits_of_ascii (ascii : ∀ c ∈ text, c.toNat < 128) : ¬Splits text offset := by
  intro splits
  obtain ⟨front, c, behind, rfl, after, before⟩ := splits
  have small := ascii c (List.mem_append_right _ List.mem_cons_self)
  obtain ⟨first, rest, octets, -, -, ⟨-, -, rfl⟩ | ⟨large, -⟩⟩ := utf8EncodeChar_cases c
  · have length : (encode (front ++ [c])).length = (encode front).length + 1 := by
      simp [octets]
    omega
  · omega

theorem isBoundary_of_splits (h : Splits text offset) :
    isBoundary (encode text) offset = false := by
  obtain ⟨front, c, behind, rfl, after, before⟩ := h
  obtain ⟨further, rfl⟩ := Nat.exists_eq_add_of_lt after
  have inside : further + 1 < (String.utf8EncodeChar c).length := by
    simp only [encode_append, encode_cons, encode_nil, List.length_append, List.length_nil]
      at before
    omega
  rw [encode_append, encode_cons, Nat.add_assoc, isBoundary_append _ (Nat.succ_pos _)]
  exact isBoundary_inside _ (Nat.succ_pos _) inside

/-- To cut a text inside of a character is a fault. -/
theorem behind_of_splits (h : Splits text offset) :
    behind (encode text) offset = .error .boundary :=
  if_neg (by rw [isBoundary_of_splits h]; exact Bool.false_ne_true)

/-! ## The case of letters -/

theorem map_lower_utf8EncodeChar (c : Char) :
    (String.utf8EncodeChar c).map Ascii.lower = String.utf8EncodeChar c.toLower := by
  obtain ⟨first, rest, octets, -, continued, kind⟩ := utf8EncodeChar_cases c
  have above (octet : UInt8) (beyond : 128 ≤ octet.toNat) : Ascii.lower octet = octet := by
    rw [← UInt8.toNat_inj, Ascii.toNat_lower, if_neg (by omega)]
  rw [octets]
  rcases kind with ⟨ascii, value, rfl⟩ | ⟨beyond, large⟩
  · obtain ⟨first', rest', octets', -, -, ⟨-, value', rfl⟩ | ⟨beyond', -⟩⟩ :=
      utf8EncodeChar_cases c.toLower
    · rw [octets', List.map_singleton, List.singleton_inj, ← UInt8.toNat_inj, Ascii.toNat_lower,
        value, value', Ascii.toNat_toLower]
    · rw [Ascii.toNat_toLower] at beyond'
      split at beyond' <;> omega
  · have same : c.toLower = c := by
      rw [← Char.toNat_inj, Ascii.toNat_toLower, if_neg (by omega)]
    have kept : rest.map Ascii.lower = rest :=
      (List.map_congr_left fun octet mem =>
        above octet (isContinuation_iff.1 (continued octet mem)).1).trans (List.map_id _)
    rw [same, octets, List.map_cons, above first large, kept]

theorem map_lower_encode (text : List Char) :
    (encode text).map Ascii.lower = encode (Ascii.fold text) := by
  induction text with
  | nil => rfl
  | cons c rest ih =>
      rw [encode_cons, List.map_append, map_lower_utf8EncodeChar, ih]
      rfl

/-- The octets of texts are equal up to the case of letters as the texts are. -/
theorem sameOctets_encode {left right : List Char} :
    Ascii.sameOctets (encode left) (encode right) = true ↔
      Ascii.fold left = Ascii.fold right := by
  rw [Ascii.sameOctets_iff, map_lower_encode, map_lower_encode, encode_injective.eq_iff]

theorem length_encode_of_fold_eq {left right : List Char}
    (same : Ascii.fold left = Ascii.fold right) : (encode left).length = (encode right).length := by
  have octets := congrArg List.length (Ascii.sameOctets_iff.1 (sameOctets_encode.2 same))
  rwa [List.length_map, List.length_map] at octets

end DnsWire.Utf8

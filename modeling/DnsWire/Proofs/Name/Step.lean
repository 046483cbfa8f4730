import DnsWire.Name.Walk

/-!
# The steps of a walk through a name

`LabelHead.decode` and `Walk.step` are inverted here once, as equivalences that say which octets
stand in the message and which limits are kept. What is known of a name that is read comes from
these and from `Walk.run_induction`; only what is said of errors looks at the definitions again.

* `LabelHead.decode_eq_root`, `decode_eq_label`, `decode_eq_pointer` — what the octets in front of
  a label are.
* `Walk.step_eq_done`, `step_eq_label`, `step_eq_jump` — what one step of a walk asks for, and
  `step_of_longName` for the label that a name has no room for.
-/

namespace DnsWire

/-! ## In front of a label -/

/-- The size of a label fits into the octet in front of it. -/
theorem Label.toNat_ofNat_size {size : Nat} (le : size ≤ Label.maxSize) :
    (UInt8.ofNat size).toNat = size := by
  simp only [Label.maxSize] at le
  simp only [UInt8.toNat_ofNat']
  omega

namespace LabelHead

/-- The offset that the two octets of a pointer hold in their low fourteen bits. -/
def targetOf (high low : UInt8) : Nat :=
  256 * (high.toNat % 64) + low.toNat

/-- What stands in front of a label is decided by its first octet. -/
theorem decode_eq_ok {w : Window} {pos next : Nat} {head : LabelHead} :
    decode w pos = .ok (head, next) ↔
      pos + 1 ≤ w.stop ∧ ∃ first, w.octets[pos]? = some first ∧
        ((first = 0 ∧ head = .root ∧ next = pos + 1) ∨
          (∃ h : 0 < first.toNat ∧ first.toNat ≤ Label.maxSize,
            head = .label ⟨first.toNat, h⟩ ∧ next = pos + 1) ∨
          (0xC0 ≤ first ∧ pos + 2 ≤ w.stop ∧ ∃ second, w.octets[pos + 1]? = some second ∧
            head = .pointer (targetOf first second) ∧ next = pos + 2)) := by
  unfold decode
  rw [Decoder.bind_eq_ok]
  constructor
  · intro h
    obtain ⟨first, _, taken, read⟩ := h
    obtain ⟨le, at_pos, rfl⟩ := Decoder.octet_eq_ok.1 taken
    refine ⟨le, first, at_pos, ?_⟩
    split at read
    · next zero =>
      cases read
      exact Or.inl ⟨zero, rfl, rfl⟩
    split at read
    · next h =>
      cases read
      exact Or.inr (Or.inl ⟨h, rfl, rfl⟩)
    split at read
    · cases read
    · next mark =>
      obtain ⟨second, _, taken', read⟩ := Decoder.bind_eq_ok.1 read
      obtain ⟨le', at_next, rfl⟩ := Decoder.octet_eq_ok.1 taken'
      cases read
      exact Or.inr (Or.inr ⟨UInt8.not_lt.1 mark, le', second, at_next, rfl, rfl⟩)
  · intro h
    obtain ⟨le, first, at_pos, kind⟩ := h
    refine ⟨first, pos + 1, Decoder.octet_eq_ok.2 ⟨le, at_pos, rfl⟩, ?_⟩
    rcases kind with ⟨rfl, rfl, rfl⟩ | ⟨h, rfl, rfl⟩ | ⟨mark, le', second, at_next, rfl, rfl⟩
    · rfl
    · have nonzero : first ≠ 0 := by
        rintro rfl
        exact absurd h.1 (by decide)
      rw [if_neg nonzero, dif_pos h]
      rfl
    · have large : 192 ≤ first.toNat := UInt8.le_iff_toNat_le.1 mark
      have nonzero : first ≠ 0 := by
        rintro rfl
        exact absurd large (by decide)
      have long : ¬ (0 < first.toNat ∧ first.toNat ≤ Label.maxSize) := by
        simp only [Label.maxSize]
        omega
      rw [if_neg nonzero, dif_neg long, if_neg (UInt8.not_lt.2 mark), Decoder.bind_eq_ok]
      exact ⟨second, pos + 2, Decoder.octet_eq_ok.2 ⟨le', at_next, rfl⟩, rfl⟩

theorem decode_eq_root {w : Window} {pos next : Nat} :
    decode w pos = .ok (.root, next) ↔
      pos + 1 ≤ w.stop ∧ w.octets[pos]? = some 0 ∧ next = pos + 1 := by
  rw [decode_eq_ok]
  constructor
  · intro h
    obtain ⟨le, first, at_pos, ⟨rfl, -, rfl⟩ | ⟨_, eq, -⟩ | ⟨-, -, _, -, eq, -⟩⟩ := h
    · exact ⟨le, at_pos, rfl⟩
    · cases eq
    · cases eq
  · intro h
    obtain ⟨le, at_pos, rfl⟩ := h
    exact ⟨le, 0, at_pos, Or.inl ⟨rfl, rfl, rfl⟩⟩

theorem decode_eq_label {w : Window} {pos next : Nat}
    {size : { n : Nat // 0 < n ∧ n ≤ Label.maxSize }} :
    decode w pos = .ok (.label size, next) ↔
      pos + 1 ≤ w.stop ∧ w.octets[pos]? = some (UInt8.ofNat size.val) ∧ next = pos + 1 := by
  rw [decode_eq_ok]
  constructor
  · intro h
    obtain ⟨le, first, at_pos, ⟨-, eq, -⟩ | ⟨_, eq, rfl⟩ | ⟨-, -, _, -, eq, -⟩⟩ := h
    · cases eq
    · cases eq
      exact ⟨le, by simpa using at_pos, rfl⟩
    · cases eq
  · intro h
    obtain ⟨le, at_pos, rfl⟩ := h
    have value := Label.toNat_ofNat_size size.property.2
    refine ⟨le, _, at_pos, Or.inr (Or.inl ⟨by rw [value]; exact size.property, ?_, rfl⟩)⟩
    congr 1
    exact Subtype.ext value.symm

theorem decode_eq_pointer {w : Window} {pos next target : Nat} :
    decode w pos = .ok (.pointer target, next) ↔
      pos + 2 ≤ w.stop ∧ ∃ high low, w.octets[pos]? = some high ∧ w.octets[pos + 1]? = some low ∧
        0xC0 ≤ high ∧ target = targetOf high low ∧ next = pos + 2 := by
  rw [decode_eq_ok]
  constructor
  · intro h
    obtain ⟨-, high, at_pos, ⟨-, eq, -⟩ | ⟨_, eq, -⟩ | ⟨mark, le, low, at_next, eq, rfl⟩⟩ := h
    · cases eq
    · cases eq
    · cases eq
      exact ⟨le, high, low, at_pos, at_next, mark, rfl, rfl⟩
  · intro h
    obtain ⟨le, high, low, at_pos, at_next, mark, rfl, rfl⟩ := h
    exact ⟨by omega, high, at_pos, Or.inr (Or.inr ⟨mark, le, low, at_next, rfl, rfl⟩)⟩

end LabelHead

/-- A label is its octets. -/
@[ext] theorem Label.ext_octets {l m : Label} (h : l.octets = m.octets) : l = m := by
  cases l
  cases m
  cases h
  rfl

/-! ## One step -/

namespace Walk

/-- A walk ends at a zero octet. -/
theorem step_eq_done {w : Window} {s : Walk} {next : Nat} :
    s.step w = .ok (.done next) ↔
      s.position + 1 ≤ w.stop ∧ w.octets[s.position]? = some 0 ∧ next = s.position + 1 := by
  rw [← LabelHead.decode_eq_root]
  unfold step
  constructor
  · intro h
    split at h
    · cases h
    · next read =>
      cases h
      exact read
    · split at h
      · split at h <;> cases h
      · cases h
    · split at h <;> cases h
  · intro read
    rw [read]

/-- A walk passes a label where its size, its octets and one more octet stand, as long as there
is room for it in a name. -/
theorem step_eq_label {w : Window} {s t : Walk} {l : Label} :
    s.step w = .ok (.label l t) ↔
      s.position + l.wireSize + 1 ≤ w.stop ∧
        w.octets[s.position]? = some (UInt8.ofNat l.size) ∧
        (w.octets.extract (s.position + 1) (s.position + l.wireSize)).toList = l.octets ∧
        s.passed + l.wireSize < Name.maxWireSize ∧
        t = { s with position := s.position + l.wireSize, passed := s.passed + l.wireSize } := by
  unfold step
  constructor
  · intro h
    split at h
    · cases h
    · cases h
    · next size next read =>
      obtain ⟨-, at_pos, rfl⟩ := LabelHead.decode_eq_label.1 read
      split at h
      · next room =>
        split at h
        · next fits =>
          cases h
          simp only [Label.wireSize, Label.size_ofVector]
          rw [← Nat.add_assoc, ← Nat.add_assoc, Nat.add_right_comm s.position]
          exact ⟨room, at_pos, rfl, fits, rfl⟩
        · cases h
      · cases h
    · split at h <;> cases h
  · intro h
    obtain ⟨room, at_pos, octets, fits, rfl⟩ := h
    simp only [Label.wireSize] at room octets fits ⊢
    rw [← Nat.add_assoc, Nat.add_right_comm] at octets
    have read : LabelHead.decode w s.position =
        .ok (.label ⟨l.size, l.size_pos, l.size_le⟩, s.position + 1) :=
      LabelHead.decode_eq_label.2 ⟨by omega, at_pos, rfl⟩
    rw [read]
    dsimp only
    rw [dif_pos (by omega), if_pos (by omega)]
    congr 2
    · ext1
      exact octets
    · simp only [Walk.mk.injEq, true_and]
      omega

/-- A label for which there is no room in a name is told from one that is cut short. -/
theorem step_of_longName {w : Window} {s : Walk} {l : Label}
    (room : s.position + l.wireSize + 1 ≤ w.stop)
    (at_pos : w.octets[s.position]? = some (UInt8.ofNat l.size))
    (long : Name.maxWireSize ≤ s.passed + l.wireSize) :
    s.step w = .error (.form .longName) := by
  simp only [Label.wireSize] at room long
  have read : LabelHead.decode w s.position =
      .ok (.label ⟨l.size, l.size_pos, l.size_le⟩, s.position + 1) :=
    LabelHead.decode_eq_label.2 ⟨by omega, at_pos, rfl⟩
  unfold step
  rw [read]
  dsimp only
  rw [dif_pos (by omega), if_neg (by omega)]

/-- A walk goes on at the target of a pointer that leads in front of the run of labels that it
ends. -/
theorem step_eq_jump {w : Window} {s t : Walk} {next : Nat} :
    s.step w = .ok (.jump next t) ↔
      ∃ target, LabelHead.decode w s.position = .ok (.pointer target, next) ∧
        target < s.runStart ∧ s.pointers < Name.maxPointers ∧
        t = { s with position := target, runStart := target, pointers := s.pointers + 1 } := by
  unfold step
  constructor
  · intro h
    split at h
    · cases h
    · cases h
    · split at h
      · split at h <;> cases h
      · cases h
    · next target _ read =>
      split at h
      · next allowed =>
        cases h
        exact ⟨target, read, allowed.1, allowed.2, rfl⟩
      · cases h
  · intro h
    obtain ⟨target, read, backwards, few, rfl⟩ := h
    rw [read]
    dsimp only
    rw [if_pos ⟨backwards, few⟩]

end Walk

end DnsWire

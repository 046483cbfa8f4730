import DnsWire.Proofs.Message.Entries

/-!
# The beginning of a message

What is read from the first octets of a message, where the rest never arrived. Either the octets
run out, or nothing changes but the number of octets behind the last record
(`decode_extract`). So no beginning that ends inside the entries of a good message is taken for a
message, and none fails for a reason that the whole message does not give.

The proof is one application of `steady_decodeEntries`: the window on the first octets begins the
window on all of them.
-/

namespace DnsWire.Message

/-- Octets of which the first ones are taken show those. -/
theorem begins_extract {octets : Array UInt8} {size : Nat} (le : size ≤ octets.size) :
    (Window.whole (octets.extract 0 size)).Begins (Window.whole octets) where
  stop_le := by
    simp only [Window.whole, Array.size_extract]
    omega
  agree := by
    intro i lt
    simp only [Window.whole, Array.size_extract] at lt ⊢
    rw [Array.getElem?_extract, if_pos (by omega), Nat.zero_add]

theorem decode_eq_tooShort {octets : Array UInt8} :
    decode octets = .error .tooShort ↔ octets.size < HeaderSection.size := by
  constructor
  · intro h
    by_cases short : octets.size < HeaderSection.size
    · exact short
    · rw [decode_eq_entries (Nat.not_lt.1 short)] at h
      exact absurd (except_map_eq_error.1 h) (steady_decodeEntries.errs _ _)
  · intro short
    rw [decode, if_pos short]

/-- Two messages that differ in nothing but what was left behind the last record, which is `more`
octets longer in the second one. -/
def SameBut (more : Nat) (m n : Message) : Prop :=
  (m.status = .noError ∧ n = { m with trailing := m.trailing + more }) ∨
    (∃ code, m.status = .serverError code) ∧ m.trailing = 0 ∧ n = m

theorem SameBut.status_eq {more : Nat} {m n : Message} (h : SameBut more m n) :
    n.status = m.status := by
  rcases h with ⟨-, rfl⟩ | ⟨-, -, rfl⟩ <;> rfl

theorem SameBut.eq_of_noError {more : Nat} {m n : Message} (h : SameBut more m n)
    (status : m.status = .noError) : n = { m with trailing := m.trailing + more } := by
  rcases h with ⟨-, eq⟩ | ⟨⟨code, failed⟩, -⟩
  · exact eq
  · rw [status] at failed
    cases failed

/-- Counting more octets behind the same entries changes only their number. -/
theorem sameBut_withTrailing {w : Window} {next : Nat} {m : Message}
    (h : decodeEntries w 0 = .ok (m, next)) (count more : Nat) :
    SameBut more (m.withTrailing count) (m.withTrailing (count + more)) := by
  rcases decodeEntries_eq_ok.1 h with ⟨-, ⟨-, -, eq⟩ | ⟨-, read⟩⟩
  · have status : m.status = .serverError m.head.header.responseCode := by rw [eq]
    rw [withTrailing_of_serverError status, withTrailing_of_serverError status]
    exact Or.inr ⟨⟨_, status⟩, by rw [eq], rfl⟩
  · obtain ⟨_, _, _, -, -, -, -, -, status, -⟩ := decodeSectionEntries_eq_ok.1 read
    rw [withTrailing_of_noError status, withTrailing_of_noError status]
    exact Or.inl ⟨status, rfl⟩

/-- A beginning that has room for the header section runs out of octets or is read as the whole
message is. -/
theorem decode_extract_cases {octets : Array UInt8} {size : Nat} (le : size ≤ octets.size)
    (long : HeaderSection.size ≤ size) :
    decode (octets.extract 0 size) = .error .truncated ∨
      (∃ e, decode (octets.extract 0 size) = .error e ∧ decode octets = .error e) ∨
      ∃ m n, decode (octets.extract 0 size) = .ok m ∧ decode octets = .ok n ∧
        SameBut (octets.size - size) m n := by
  have length : (octets.extract 0 size).size = size := Array.size_extract_of_le le
  rw [decode_eq_entries (by omega), decode_eq_entries (by omega), length]
  rcases steady_decodeEntries.cut (begins_extract le) 0 with short | eq
  · rw [short]
    exact Or.inl rfl
  refine Or.inr ?_
  rw [← eq]
  cases read : decodeEntries (Window.whole (octets.extract 0 size)) 0 with
  | error e => exact Or.inl ⟨e, rfl, rfl⟩
  | ok r =>
      obtain ⟨m, next⟩ := r
      have inside : next ≤ size := by
        have := (steady_decodeEntries.stays (Nat.zero_le _) read).2
        exact Nat.le_trans this (Nat.le_of_eq length)
      refine Or.inr ⟨_, _, rfl, rfl, ?_⟩
      -- Both end at the same entry, so all that was cut off is left over besides.
      have more : octets.size - next = size - next + (octets.size - size) := by omega
      simp only
      rw [more]
      exact sameBut_withTrailing read _ _

/-- **Reading the beginning of a message.** Below twelve octets a message is too short, and from
twelve octets on it is never called so. Such a beginning runs out of octets, or it and the whole
message give the same error, or both give the same message but for the octets left over. A message
without error is therefore read from no beginning that leaves out a part of its entries. -/
theorem decode_extract (octets : Array UInt8) (size : Nat) (le : size ≤ octets.size) :
    (decode (octets.extract 0 size) = .error .tooShort ↔ size < 12) ∧
    (12 ≤ size →
      decode (octets.extract 0 size) = .error .truncated ∨
      (∃ e, decode (octets.extract 0 size) = .error e ∧ decode octets = .error e) ∨
      ∃ m n, decode (octets.extract 0 size) = .ok m ∧ decode octets = .ok n ∧
        SameBut (octets.size - size) m n) ∧
    ∀ n, decode octets = .ok n → n.status = .noError → size < octets.size - n.trailing →
      decode (octets.extract 0 size) = .error (if size < 12 then .tooShort else .truncated) := by
  have length : (octets.extract 0 size).size = size := Array.size_extract_of_le le
  have tooShort : decode (octets.extract 0 size) = .error .tooShort ↔ size < 12 := by
    rw [decode_eq_tooShort, length]
    rfl
  refine ⟨tooShort, decode_extract_cases le, ?_⟩
  intro n whole status inside
  by_cases short : size < 12
  · rw [if_pos short]
    exact tooShort.2 short
  rw [if_neg short]
  rcases decode_extract_cases le (Nat.not_lt.1 short) with
    cut | ⟨e, -, fails⟩ | ⟨m, n', -, eq, same⟩
  · exact cut
  · rw [fails] at whole
    cases whole
  · rw [whole] at eq
    cases eq
    -- The beginning is not read: it would leave over what it has not got.
    rcases same with ⟨-, rfl⟩ | ⟨⟨code, failed⟩, -, rfl⟩
    · simp only at inside
      omega
    · rw [status] at failed
      cases failed

/-- The sample is read alike without the octet that is left over. Without the end of its record it
runs out of octets, and without the end of its header section it is too short. -/
theorem decode_extract_sample :
    ∃ whole part, decode sample = .ok whole ∧ whole.status = .noError ∧
      decode (sample.extract 0 34) = .ok part ∧ SameBut 1 part whole ∧
      decode (sample.extract 0 25) = .error .truncated ∧
      decode (sample.extract 0 11) = .error .tooShort := by
  obtain ⟨whole, decoded, status, -, -, -, -, trailing⟩ := exists_decode_sample
  have inside : 25 < sample.size - whole.trailing := by
    rw [trailing]
    decide
  have kept : (decode (sample.extract 0 34)).toOption.map Message.trailing = some 0 := by
    decide +kernel
  obtain ⟨part, read, -⟩ := except_toOption_map_eq_some.1 kept
  have short := (decode_extract sample 25 (by decide)).2.2 whole decoded status inside
  have none := (decode_extract sample 11 (by decide)).1.2 (by decide)
  rcases (decode_extract sample 34 (by decide)).2.1 (by decide) with
    cut | ⟨e, fails, -⟩ | ⟨m, n, read', decoded', same⟩
  · rw [read] at cut
    cases cut
  · rw [read] at fails
    cases fails
  · rw [read] at read'
    rw [decoded] at decoded'
    cases read'
    cases decoded'
    exact ⟨whole, part, decoded, status, read, same, short, none⟩

end DnsWire.Message

/-!
# What can go wrong on the wire

The causes for which a message is not read, and those for which a name is not written. Each has
one line of text; nothing else in the library is worded twice.
-/

namespace DnsWire

/-- The ways in which octets that are there break the format. -/
inductive FormError where
  /-- The length octet of a label begins with the bits 01 or 10. -/
  | invalidLabelType
  /-- A name takes more than 255 octets once its pointers are resolved. -/
  | longName
  /-- Record data ends before the length that the record gives. -/
  | trailingData
  deriving DecidableEq, Repr

/-- Why a message, or a part of one, is not read. -/
inductive DecodeError where
  /-- The message has no room for the header section. -/
  | tooShort
  /-- The octets end inside a field. -/
  | truncated
  /-- A compression pointer does not point in front of its own run of labels, or is one too many. -/
  | compressionLoop
  /-- The octets are there and break the format. -/
  | form (error : FormError)
  deriving DecidableEq, Repr

/-- Why a host name is not written as a name. -/
inductive EncodeError where
  /-- A label has more than 63 octets. -/
  | labelTooLong
  /-- A label has no octets. -/
  | emptyLabel
  /-- The name takes more than 255 octets. -/
  | longName
  deriving DecidableEq, Repr

/-- The line of text for a breach of the format. -/
def FormError.message : FormError → String
  | .invalidLabelType => "invalid label type"
  | .longName => "long domain name"
  | .trailingData => "trailing data in record data"

/-- The line of text for a message that is not read. -/
def DecodeError.message : DecodeError → String
  | .tooShort => "short message"
  | .truncated => "unexpected end of input"
  | .compressionLoop => "invalid compression pointer"
  | .form error => error.message

/-- The line of text for a name that is not written. -/
def EncodeError.message : EncodeError → String
  | .labelTooLong => "long label"
  | .emptyLabel => "empty label"
  | .longName => "long domain name"

/-! ## Changing a value that may have failed -/

section

variable {ε α β : Type} {x : Except ε α} {f : α → β}

theorem except_map_eq_ok {b : β} : x.map f = .ok b ↔ ∃ a, x = .ok a ∧ f a = b := by
  cases x <;> simp [Except.map]

/-- What is made of a value can be computed where an equation between results cannot. -/
theorem except_toOption_map_eq_some {b : β} :
    x.toOption.map f = some b ↔ ∃ a, x = .ok a ∧ f a = b := by
  cases x <;> simp [Except.toOption]

theorem except_map_eq_error {e : ε} : x.map f = .error e ↔ x = .error e := by
  cases x <;> simp [Except.map]

/-- A failure stays one whatever would be made of a value. -/
theorem except_map_cut {y : Except ε α} {e : ε} (h : x = .error e ∨ x = y) :
    x.map f = .error e ∨ x.map f = y.map f := by
  rcases h with short | same
  · rw [short]
    exact Or.inl rfl
  · rw [same]
    exact Or.inr rfl

theorem except_bind_pure : (x >>= fun a => pure (f a)) = x.map f := by
  cases x <;> rfl

theorem except_bind_eq_ok {g : α → Except ε β} {b : β} :
    x >>= g = .ok b ↔ ∃ a, x = .ok a ∧ g a = .ok b := by
  cases x <;> simp [bind, Except.bind]

theorem except_bind_eq_error {g : α → Except ε β} {e : ε} :
    x >>= g = .error e ↔ x = .error e ∨ ∃ a, x = .ok a ∧ g a = .error e := by
  cases x <;> simp [bind, Except.bind]

/-- The first of several values that fails decides the error. -/
theorem except_mapM_eq_error {g : α → Except ε β} {values : List α} {e : ε} :
    values.mapM g = .error e ↔
      ∃ front a behind, values = front ++ a :: behind ∧ g a = .error e ∧
        ∀ b ∈ front, ∃ made, g b = .ok made := by
  induction values with
  | nil => simp [pure, Except.pure]
  | cons first rest ih =>
      rw [List.mapM_cons, except_bind_eq_error]
      refine ⟨fun h => ?_, fun h => ?_⟩
      · rcases h with here | ⟨made, passed, h⟩
        · exact ⟨[], first, rest, rfl, here, nofun⟩
        · rcases except_bind_eq_error.1 h with tail | ⟨_, _, h⟩
          · obtain ⟨front, a, behind, rfl, fails, all⟩ := ih.1 tail
            exact ⟨first :: front, a, behind, rfl, fails,
              List.forall_mem_cons.2 ⟨⟨made, passed⟩, all⟩⟩
          · cases h
      · obtain ⟨front, a, behind, split, fails, all⟩ := h
        cases front with
        | nil =>
            cases split
            exact Or.inl fails
        | cons passed front =>
            cases split
            obtain ⟨⟨made, first_ok⟩, all⟩ := List.forall_mem_cons.1 all
            have tail := ih.2 ⟨front, a, behind, rfl, fails, all⟩
            exact Or.inr ⟨made, first_ok, except_bind_eq_error.2 (Or.inl tail)⟩

end

end DnsWire

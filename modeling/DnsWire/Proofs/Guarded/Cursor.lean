import DnsWire.Proofs.Decoder.Shows

/-!
# Octets behind guards

A `Decoder` counts in natural numbers, and the bound of its window lies within the message by type.
Where positions are words of a machine and octets lie in buffers, more can happen than an error of
the message: a sum that is no word, a difference below zero, an index outside of the buffer. Here
every operation that is not defined everywhere looks first, and what must not happen is a `Fault`,
which nothing turns into an error of the message.

* `add`, `sub`, `shift`, `slice`, `get`, `overwrite` — words up to `max`, and buffers.
* `Cursor` — a position in a buffer and a bound, with no promise on either. `need`, `octet`, `take`
  and `seek` are what is read with them.

At a position in a window a cursor does what the decoder does (`octet_cursorAt`,
`take_cursorAt`), and a decoder comes to no fault (`lift`).
-/

namespace DnsWire.Guarded

/-- What must not happen. -/
inductive Fault where
  /-- The result of a computation is no word. -/
  | overflow
  /-- Octets of a buffer are asked for that it does not have. -/
  | range
  /-- The target of a pointer lies beyond the bound. -/
  | seek
  deriving DecidableEq, Repr

/-- Why there is no result: the octets are no message, or a guard has found a fault. -/
inductive Halt where
  | error (e : DecodeError)
  | fault (f : Fault)
  deriving DecidableEq, Repr

/-- What a decoder comes to, which is never a fault. -/
def lift {α : Type} (result : Except DecodeError α) : Except Halt α :=
  result.mapError .error

section

variable {α β : Type}

@[simp] theorem lift_ok (a : α) : lift (.ok a) = .ok a := rfl

@[simp] theorem lift_error (e : DecodeError) : lift (.error e : Except _ α) = .error (.error e) :=
  rfl

theorem lift_eq_ok {result : Except DecodeError α} {a : α} :
    lift result = .ok a ↔ result = .ok a := by
  cases result <;> simp

theorem lift_ne_fault (result : Except DecodeError α) (f : Fault) :
    lift result ≠ .error (.fault f) := by
  cases result <;> simp

@[simp] theorem ok_bind (a : α) (f : α → Except Halt β) : (.ok a >>= f) = f a := rfl

@[simp] theorem pure_eq_ok (a : α) : (pure a : Except Halt α) = .ok a := rfl

/-- What is made of a value makes no fault. -/
theorem lift_map (result : Except DecodeError α) (f : α → β) :
    lift (result.map f) = (lift result).map f := by
  cases result <;> rfl

end

/-! ## Words and buffers -/

/-- The sum of two words. -/
def add (max a b : Nat) : Except Halt Nat :=
  if a + b ≤ max then .ok (a + b) else .error (.fault .overflow)

/-- The difference of two words. -/
def sub (a b : Nat) : Except Halt Nat :=
  if b ≤ a then .ok (a - b) else .error (.fault .overflow)

/-- A word with its bits moved up by `places`, none of them lost. -/
def shift (max a places : Nat) : Except Halt Nat :=
  if a <<< places ≤ max then .ok (a <<< places) else .error (.fault .overflow)

/-- The octets from `start` on and in front of `stop`. -/
def slice (buffer : Array UInt8) (start stop : Nat) : Except Halt (Array UInt8) :=
  if start ≤ stop ∧ stop ≤ buffer.size then .ok (buffer.extract start stop)
  else .error (.fault .range)

/-- The octet at a place. -/
def get (buffer : Array UInt8) (i : Nat) : Except Halt UInt8 :=
  if h : i < buffer.size then .ok buffer[i] else .error (.fault .range)

/-- The buffer with other octets in place of the first `size` ones. -/
def overwrite (buffer : Array UInt8) (size : Nat) (octets : Array UInt8) :
    Except Halt (Array UInt8) :=
  if size ≤ buffer.size ∧ octets.size = size then
    .ok (octets ++ buffer.extract size buffer.size)
  else .error (.fault .range)

section

variable {max a b start stop i size : Nat} {buffer octets : Array UInt8}

theorem add_of_le (h : a + b ≤ max) : add max a b = .ok (a + b) := if_pos h

theorem add_eq_ok {sum : Nat} : add max a b = .ok sum ↔ a + b ≤ max ∧ sum = a + b := by
  unfold add
  split
  · next le => simp [le, eq_comm]
  · next great => simp [great]

theorem sub_of_le (h : b ≤ a) : sub a b = .ok (a - b) := if_pos h

theorem shift_of_le (h : a <<< b ≤ max) : shift max a b = .ok (a <<< b) := if_pos h

theorem slice_of_le (order : start ≤ stop) (h : stop ≤ buffer.size) :
    slice buffer start stop = .ok (buffer.extract start stop) := if_pos ⟨order, h⟩

theorem get_of_lt (h : i < buffer.size) : get buffer i = .ok buffer[i] := dif_pos h

theorem overwrite_of_le (h : size ≤ buffer.size) (full : octets.size = size) :
    overwrite buffer size octets = .ok (octets ++ buffer.extract size buffer.size) :=
  if_pos ⟨h, full⟩

end

/-! ## Cursors -/

/-- A position in a buffer and a bound of reading. -/
structure Cursor where
  /-- The octets that are there. -/
  octets : Array UInt8
  /-- The position of the next octet. -/
  position : Nat
  /-- The position at which reading has to stop. -/
  stop : Nat
  deriving DecidableEq, Repr

namespace Cursor

/-- The number of octets in front of the bound. -/
def remaining (c : Cursor) : Except Halt Nat :=
  sub c.stop c.position

/-- Asks for a number of octets in front of the bound. -/
def need (c : Cursor) (size : Nat) : Except Halt Unit := do
  let remaining ← c.remaining
  if remaining < size then .error (.error .truncated) else return ()

/-- One octet. -/
def octet (max : Nat) (c : Cursor) : Except Halt (UInt8 × Cursor) := do
  c.need 1
  -- All octets in front of the bound are taken as a buffer of their own, and its first one is read.
  let rest ← slice c.octets c.position c.stop
  let first ← slice rest 0 1
  let value ← get first 0
  let position ← add max c.position 1
  return (value, { c with position })

/-- A number of octets. -/
def take (max : Nat) (c : Cursor) (size : Nat) : Except Halt (Array UInt8 × Cursor) := do
  c.need size
  let position ← add max c.position size
  let octets ← slice c.octets c.position position
  return (octets, { c with position })

/-- Goes on at another position, which may be the bound and nothing beyond it. -/
def seek (c : Cursor) (target : Nat) : Except Halt Cursor :=
  if target ≤ c.stop then .ok { c with position := target } else .error (.error .truncated)

end Cursor

/-- The cursor at a position in a window. -/
def cursorAt (w : Window) (pos : Nat) : Cursor :=
  ⟨w.octets, pos, w.stop⟩

section

variable {max : Nat} {w : Window} {pos : Nat}

theorem need_cursorAt (le : pos ≤ w.stop) (size : Nat) :
    (cursorAt w pos).need size =
      if pos + size ≤ w.stop then .ok () else .error (.error .truncated) := by
  rw [Cursor.need, Cursor.remaining, cursorAt, sub_of_le le, ok_bind]
  by_cases room : pos + size ≤ w.stop
  · rw [if_pos room, if_neg (by omega)]
    rfl
  · rw [if_neg room, if_pos (by omega)]

theorem take_cursorAt (fits : w.octets.size ≤ max) (le : pos ≤ w.stop) (size : Nat) :
    (cursorAt w pos).take max size =
      lift ((Decoder.vector size w pos).map fun r => (r.1.toArray, cursorAt w r.2)) := by
  have bound := w.stop_le
  rw [Cursor.take, need_cursorAt le, Decoder.vector]
  by_cases room : pos + size ≤ w.stop
  · rw [if_pos room, dif_pos room, ok_bind]
    simp only [cursorAt]
    rw [add_of_le (by omega), ok_bind, slice_of_le (by omega) (by omega), ok_bind]
    rfl
  · rw [if_neg room, dif_neg room]
    rfl

theorem octet_cursorAt (fits : w.octets.size ≤ max) (le : pos ≤ w.stop) :
    (cursorAt w pos).octet max =
      lift ((Decoder.octet w pos).map fun r => (r.1, cursorAt w r.2)) := by
  have bound := w.stop_le
  rw [Cursor.octet, need_cursorAt le, Decoder.octet, Decoder.bind_apply, Decoder.vector]
  by_cases room : pos + 1 ≤ w.stop
  · have rest : (w.octets.extract pos w.stop).size = w.stop - pos := by
      rw [Array.size_extract]
      omega
    have first : ((w.octets.extract pos w.stop).extract 0 1).size = 1 := by
      rw [Array.size_extract, rest]
      omega
    rw [if_pos room, dif_pos room, ok_bind]
    simp only [cursorAt]
    rw [slice_of_le le bound, ok_bind, slice_of_le (Nat.zero_le _) (by omega), ok_bind,
      get_of_lt (by omega), ok_bind, add_of_le (by omega), ok_bind]
    simp [Except.map]
  · rw [if_neg room, dif_neg room]
    rfl

end

end DnsWire.Guarded

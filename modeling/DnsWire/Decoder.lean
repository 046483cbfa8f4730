import DnsWire.Error
import DnsWire.Octets

/-!
# Reading octets

Every part of a message is read in the same way: from a position, inside a stretch of the
message, giving a value and the position behind it.

* `Window` — the octets of a whole message together with the bound below which reading is
  allowed. The octets stay whole because a compression pointer counts from the start of the
  message; only the bound moves when record data is read.
* `Decoder` — a reader of one value, with the primitives `octet`, `word16`, `word32`, `vector`,
  `rest` and `remaining`.
* `Decoder.times` — as many values as a count says, one behind the other.
* `Decoder.filling` — a value that has to take up a given number of octets exactly.
-/

namespace DnsWire

/-- The octets of a message and the bound below which they are open to reading. -/
structure Window where
  /-- All octets of the message. -/
  octets : Array UInt8
  /-- The position at which reading has to stop. -/
  stop : Nat
  /-- The bound lies within the message. -/
  stop_le : stop ≤ octets.size

namespace Window

/-- The whole of a message. -/
def whole (octets : Array UInt8) : Window :=
  ⟨octets, octets.size, Nat.le_refl _⟩

/-- A message up to a bound; a bound beyond its end stands for the end. -/
def upTo (octets : Array UInt8) (bound : Nat) : Window :=
  ⟨octets, min bound octets.size, Nat.min_le_right ..⟩

/-- The same message with a nearer bound. -/
def narrow (w : Window) (stop : Nat) (le : stop ≤ w.stop) : Window :=
  ⟨w.octets, stop, Nat.le_trans le w.stop_le⟩

/-- As many octets as `size` says, from a position on. -/
def slice (w : Window) (start size : Nat) (le : start + size ≤ w.stop) : Vector UInt8 size :=
  ⟨w.octets.extract start (start + size), by
    have := w.stop_le
    simp only [Array.size_extract]
    omega⟩

@[simp] theorem getElem_slice (w : Window) (start size : Nat) (le : start + size ≤ w.stop)
    (i : Nat) (lt : i < size) :
    (w.slice start size le)[i] =
      getElem w.octets (start + i) (Nat.lt_of_lt_of_le (by omega) w.stop_le) := by
  simp [slice]

end Window

/-- A reader of one value: given a window and a position, the value and the position behind it,
or the reason why there is none. -/
def Decoder (α : Type) : Type :=
  Window → Nat → Except DecodeError (α × Nat)

namespace Decoder

variable {α β : Type}

instance : Monad Decoder where
  pure a := fun _ pos => .ok (a, pos)
  bind d f := fun w pos =>
    match d w pos with
    | .error e => .error e
    | .ok (a, next) => f a w next

@[simp] theorem pure_apply (a : α) (w : Window) (pos : Nat) :
    (pure a : Decoder α) w pos = .ok (a, pos) := rfl

theorem bind_apply (d : Decoder α) (f : α → Decoder β) (w : Window) (pos : Nat) :
    (d >>= f) w pos =
      match d w pos with
      | .error e => .error e
      | .ok (a, next) => f a w next := rfl

/-- A sequence of two readers succeeds when both do, the second from where the first ends. -/
theorem bind_eq_ok {d : Decoder α} {f : α → Decoder β} {w : Window} {pos stop : Nat} {b : β} :
    (d >>= f) w pos = .ok (b, stop) ↔
      ∃ a next, d w pos = .ok (a, next) ∧ f a w next = .ok (b, stop) := by
  rw [bind_apply]
  constructor
  · cases d w pos with
    | error e => nofun
    | ok r => exact fun h => ⟨r.1, r.2, rfl, h⟩
  · rintro ⟨a, next, h, h'⟩
    rw [h]
    exact h'

/-- A sequence of two readers fails when either does. -/
theorem bind_eq_error {d : Decoder α} {f : α → Decoder β} {w : Window} {pos : Nat}
    {e : DecodeError} :
    (d >>= f) w pos = .error e ↔
      d w pos = .error e ∨ ∃ a next, d w pos = .ok (a, next) ∧ f a w next = .error e := by
  rw [bind_apply]
  constructor
  · cases d w pos with
    | error e => exact fun h => .inl (by cases h; rfl)
    | ok r => exact fun h => .inr ⟨r.1, r.2, rfl, h⟩
  · rintro (h | ⟨a, next, h, h'⟩) <;> rw [h]
    exact h'

/-- A reader with its value changed succeeds when the reader does. -/
theorem map_eq_ok {d : Decoder α} {f : α → β} {w : Window} {pos stop : Nat} {b : β} :
    (f <$> d) w pos = .ok (b, stop) ↔ ∃ a, d w pos = .ok (a, stop) ∧ f a = b := by
  change (d >>= fun a => pure (f a)) w pos = _ ↔ _
  rw [bind_eq_ok]
  constructor
  · rintro ⟨a, next, h, h'⟩
    cases h'
    exact ⟨a, h, rfl⟩
  · rintro ⟨a, h, rfl⟩
    exact ⟨a, stop, h, rfl⟩

/-- Stops reading for a reason. -/
def fail (e : DecodeError) : Decoder α :=
  fun _ _ => .error e

/-- Goes on at another position, which may be the end of the window and nothing beyond it. -/
def seek (target : Nat) : Decoder Unit :=
  fun w _ => if target ≤ w.stop then .ok ((), target) else .error .truncated

/-- A fixed number of octets. -/
def vector (size : Nat) : Decoder (Vector UInt8 size) :=
  fun w pos =>
    if h : pos + size ≤ w.stop then .ok (w.slice pos size h, pos + size)
    else .error .truncated

/-- One octet. -/
def octet : Decoder UInt8 := do
  let octets ← vector 1
  return octets[0]

/-- A word of 16 bits. -/
def word16 : Decoder UInt16 := do
  let octets ← vector 2
  return DnsWire.word16 octets[0] octets[1]

/-- A word of 32 bits. -/
def word32 : Decoder UInt32 := do
  let octets ← vector 4
  return DnsWire.word32 octets[0] octets[1] octets[2] octets[3]

/-- A fixed number of octets is read where there are as many. -/
theorem vector_eq_ok {size pos next : Nat} {w : Window} {octets : Vector UInt8 size} :
    vector size w pos = .ok (octets, next) ↔
      ∃ le : pos + size ≤ w.stop, octets = w.slice pos size le ∧ next = pos + size := by
  unfold vector
  split
  · next le => simp [le, eq_comm]
  · next short => simp [short]

/-- One octet is read where there is one. -/
theorem octet_eq_ok {w : Window} {pos next : Nat} {value : UInt8} :
    octet w pos = .ok (value, next) ↔
      pos + 1 ≤ w.stop ∧ w.octets[pos]? = some value ∧ next = pos + 1 := by
  simp only [octet, bind_eq_ok, vector_eq_ok, pure_apply, Except.ok.injEq, Prod.mk.injEq]
  constructor
  · rintro ⟨_, _, ⟨le, rfl, rfl⟩, rfl, rfl⟩
    exact ⟨le, by simp, rfl⟩
  · rintro ⟨le, at_pos, rfl⟩
    obtain ⟨_, rfl⟩ := Array.getElem?_eq_some_iff.1 at_pos
    exact ⟨_, _, ⟨le, rfl, rfl⟩, by simp, rfl⟩

/-- A word of 16 bits is read where there are two octets. -/
theorem word16_eq_ok {w : Window} {pos next : Nat} {value : UInt16} :
    word16 w pos = .ok (value, next) ↔
      pos + 2 ≤ w.stop ∧ next = pos + 2 ∧
        ∃ high low, w.octets[pos]? = some high ∧ w.octets[pos + 1]? = some low ∧
          value = DnsWire.word16 high low := by
  simp only [word16, bind_eq_ok, vector_eq_ok, pure_apply, Except.ok.injEq, Prod.mk.injEq]
  constructor
  · rintro ⟨_, _, ⟨le, rfl, rfl⟩, rfl, rfl⟩
    have bound := w.stop_le
    exact ⟨le, rfl, _, _, Array.getElem?_eq_getElem (by omega), Array.getElem?_eq_getElem (by omega),
      by simp⟩
  · rintro ⟨le, rfl, high, low, at_high, at_low, rfl⟩
    obtain ⟨_, rfl⟩ := Array.getElem?_eq_some_iff.1 at_high
    obtain ⟨_, rfl⟩ := Array.getElem?_eq_some_iff.1 at_low
    exact ⟨_, _, ⟨le, rfl, rfl⟩, by simp, rfl⟩

/-- All octets up to the end of the window. -/
def rest : Decoder (List UInt8) :=
  fun w pos => .ok ((w.octets.extract pos w.stop).toList, max pos w.stop)

/-- Inside the window, what is left ends with the window. -/
theorem rest_apply {w : Window} {pos : Nat} (le : pos ≤ w.stop) :
    rest w pos = .ok ((w.octets.extract pos w.stop).toList, w.stop) := by
  unfold rest
  rw [Nat.max_eq_right le]

/-- The number of octets that are left. -/
def remaining : Decoder Nat :=
  fun w pos => .ok (w.stop - pos, pos)

/-- As many values as the count says, behind those already read, which come last one first. -/
def timesOnto (d : Decoder α) : Nat → List α → Decoder (List α)
  | 0, read => pure read.reverse
  | count + 1, read => fun w pos =>
    match d w pos with
    | .error e => .error e
    | .ok (a, next) => timesOnto d count (a :: read) w next

/-- As many values as the count says, one behind the other. -/
def times (d : Decoder α) (count : Nat) : Decoder (List α) :=
  timesOnto d count []

theorem timesOnto_apply (d : Decoder α) (count : Nat) (read : List α) (w : Window) (pos : Nat) :
    timesOnto d count read w pos =
      (times d count w pos).map fun r => (read.reverse ++ r.1, r.2) := by
  induction count generalizing read pos with
  | zero => simp [times, timesOnto, Except.map]
  | succ count ih =>
    simp only [times, timesOnto]
    cases d w pos with
    | error e => rfl
    | ok r =>
      simp only [ih (r.1 :: read), ih [r.1]]
      cases times d count w r.2 <;> simp [Except.map]

/-- No value is read where none is asked for. -/
@[simp] theorem times_zero (d : Decoder α) : times d 0 = pure [] := rfl

/-- The first value is read in front of all others. -/
theorem times_succ (d : Decoder α) (count : Nat) :
    times d (count + 1) = do
      let a ← d
      let others ← times d count
      return a :: others := by
  funext w pos
  simp only [times, timesOnto, bind_apply]
  cases d w pos with
  | error e => rfl
  | ok r =>
    simp only [timesOnto_apply d count [r.1]]
    cases h : timesOnto d count [] w r.2 <;> simp [Except.map, times, h]

/-- A value that takes up exactly the next `size` octets. Nothing behind them is read, and it is
an error if any of them is left over. -/
def filling (size : Nat) (d : Decoder α) : Decoder α :=
  fun w pos =>
    if h : pos + size ≤ w.stop then
      match d (w.narrow (pos + size) h) pos with
      | .error e => .error e
      | .ok (a, next) =>
        if next < pos + size then .error (.form .trailingData) else .ok (a, next)
    else .error .truncated

/-- A value takes up exactly `size` octets when its reader, with these octets in front of it and
none behind them, ends at the last one. -/
theorem filling_eq_ok {size pos next : Nat} {d : Decoder α} {w : Window} {a : α} :
    filling size d w pos = .ok (a, next) ↔
      ∃ le : pos + size ≤ w.stop,
        d (w.narrow (pos + size) le) pos = .ok (a, next) ∧ pos + size ≤ next := by
  unfold filling
  split
  · next le =>
    simp only [le, exists_true_left]
    cases d (w.narrow (pos + size) le) pos with
    | error e => simp
    | ok r =>
      obtain ⟨b, stop⟩ := r
      simp only [Except.ok.injEq, Prod.mk.injEq]
      split
      · next short =>
        simp only [reduceCtorEq, false_iff]
        rintro ⟨⟨-, rfl⟩, full⟩
        exact Nat.not_lt.2 full short
      · next full =>
        simp only [Except.ok.injEq, Prod.mk.injEq]
        exact ⟨fun eq => ⟨eq, eq.2 ▸ Nat.not_lt.1 full⟩, And.left⟩
  · next short => simp [short]

section Unfilled

variable {size pos next : Nat} {d : Decoder α} {w : Window}

/-! A value does not take up `size` octets when there are not as many, when its reader fails on
them, or when it ends in front of the last one. -/

theorem filling_of_short (short : w.stop < pos + size) :
    filling size d w pos = .error .truncated := by
  unfold filling
  rw [dif_neg (Nat.not_le.2 short)]

theorem filling_of_error (le : pos + size ≤ w.stop) {e : DecodeError}
    (fails : d (w.narrow (pos + size) le) pos = .error e) : filling size d w pos = .error e := by
  unfold filling
  rw [dif_pos le, fails]

theorem filling_of_early (le : pos + size ≤ w.stop) {a : α}
    (read : d (w.narrow (pos + size) le) pos = .ok (a, next)) (early : next < pos + size) :
    filling size d w pos = .error (.form .trailingData) := by
  unfold filling
  rw [dif_pos le, read]
  exact if_pos early

end Unfilled

end Decoder

end DnsWire

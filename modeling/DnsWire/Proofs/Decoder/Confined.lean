import DnsWire.Proofs.Decoder.Shows

/-!
# Readers that keep to their window

Two windows are compared here: one `Begins` the other when it shows the same octets and has its
bound nearer. Octets in front of that bound stand in both (`Begins.shows`). What a reader does at the
nearer bound falls into two classes.

* `Confined` — the reader ends inside its window, and octets beyond the bound are nothing to it.
  Readers that take *everything* up to the bound are confined and no more.
* `Steady` — the reader asks for octets one after the other, so a nearer bound makes it run out
  of octets or changes nothing. No other error may arise first.

Both are closed under sequencing. `Decoder.filling` makes a steady reader of a confined one,
because it fixes the bound before anything is read (`Confined.filling`).
-/

namespace DnsWire

namespace Window

/-- The octets that `w` shows are the first ones of those that `v` shows. -/
structure Begins (w v : Window) : Prop where
  stop_le : w.stop ≤ v.stop
  agree : ∀ i, i < w.stop → w.octets[i]? = v.octets[i]?

theorem Begins.refl (w : Window) : w.Begins w :=
  ⟨Nat.le_refl _, fun _ _ => rfl⟩

theorem Begins.trans {u w v : Window} (h : u.Begins w) (h' : w.Begins v) : u.Begins v :=
  ⟨Nat.le_trans h.stop_le h'.stop_le,
    fun i lt => (h.agree i lt).trans (h'.agree i (Nat.lt_of_lt_of_le lt h.stop_le))⟩

theorem Begins.slice_eq {w v : Window} (h : w.Begins v) {start size : Nat}
    (le : start + size ≤ w.stop) :
    w.slice start size le = v.slice start size (Nat.le_trans le h.stop_le) := by
  refine Vector.ext fun i lt => ?_
  have left := w.stop_le
  have right := Nat.le_trans h.stop_le v.stop_le
  have same := h.agree (start + i) (by omega)
  rw [getElem_slice, getElem_slice]
  rw [Array.getElem?_eq_getElem (by omega), Array.getElem?_eq_getElem (by omega)] at same
  exact Option.some.inj same

/-- Under one bound, beginning is the same from both sides. -/
theorem Begins.symm {w v : Window} (h : w.Begins v) (same : w.stop = v.stop) : v.Begins w :=
  ⟨Nat.le_of_eq same.symm, fun i lt => (h.agree i (by omega)).symm⟩

/-- A nearer bound leaves the beginning of a window. -/
theorem begins_narrow (w : Window) {stop : Nat} (le : stop ≤ w.stop) :
    (w.narrow stop le).Begins w :=
  ⟨le, fun _ _ => rfl⟩

/-- A message up to a bound begins the whole message. -/
theorem begins_upTo (octets : Array UInt8) (bound : Nat) :
    (upTo octets bound).Begins (whole octets) :=
  ⟨Nat.min_le_right .., fun _ _ => rfl⟩

/-- A bound inside both windows leaves them with the same octets. -/
theorem Begins.narrow {w v : Window} (h : w.Begins v) {stop : Nat} (le : stop ≤ w.stop) :
    (w.narrow stop le).Begins (v.narrow stop (Nat.le_trans le h.stop_le)) :=
  ⟨Nat.le_refl stop, fun i lt => h.agree i (Nat.lt_of_lt_of_le lt le)⟩

/-- Octets in front of the nearer bound stand in both windows or in none. -/
theorem Begins.shows {w v : Window} (h : w.Begins v) {pos : Nat} {octets : List UInt8}
    (room : pos + octets.length ≤ w.stop) : w.Shows pos octets ↔ v.Shows pos octets := by
  induction octets generalizing pos with
  | nil => exact iff_of_true room (Nat.le_trans room h.stop_le)
  | cons octet rest ih =>
      rw [List.length_cons] at room
      rw [shows_cons, shows_cons, h.agree pos (by omega), ih (by omega)]

end Window

namespace Decoder

variable {α β : Type}

/-- The reader never goes back, and ends inside its window. -/
def Stays (d : Decoder α) : Prop :=
  ∀ ⦃w : Window⦄ ⦃pos next : Nat⦄ ⦃a : α⦄,
    pos ≤ w.stop → d w pos = .ok (a, next) → pos ≤ next ∧ next ≤ w.stop

theorem Stays.bind {d : Decoder α} {f : α → Decoder β} (hd : Stays d)
    (hf : ∀ a, Stays (f a)) : Stays (d >>= f) := by
  intro w pos next b le h
  obtain ⟨a, mid, first, second⟩ := bind_eq_ok.1 h
  have left := hd le first
  have right := hf a left.2 second
  exact ⟨Nat.le_trans left.1 right.1, right.2⟩

/-- Wherever a value begins, the octets that it fills end inside the window. -/
theorem Stays.filling {d : Decoder α} (hd : Stays d) (size : Nat) : Stays (filling size d) := by
  intro w pos next a le h
  obtain ⟨room, read, full⟩ := filling_eq_ok.1 h
  have := hd (Nat.le_add_right pos size) read
  exact ⟨this.1, Nat.le_trans this.2 room⟩

/-- The reader does not ask for a header section. -/
def NeverTooShort (d : Decoder α) : Prop :=
  ∀ w pos, d w pos ≠ .error .tooShort

theorem NeverTooShort.bind {d : Decoder α} {f : α → Decoder β} (hd : NeverTooShort d)
    (hf : ∀ a, NeverTooShort (f a)) : NeverTooShort (d >>= f) := by
  intro w pos h
  rcases bind_eq_error.1 h with first | ⟨a, mid, -, second⟩
  · exact hd w pos first
  · exact hf a w mid second

/-- The reader neither ends nor looks beyond the bound of its window. -/
structure Confined (d : Decoder α) : Prop where
  stays : Stays d
  errs : NeverTooShort d
  sees : ∀ {w v : Window}, w.Begins v → w.stop = v.stop → ∀ pos, d w pos = d v pos

/-- The reader ends inside its window, and a nearer bound is noticed in one way only: there are
too few octets. -/
structure Steady (d : Decoder α) : Prop where
  stays : Stays d
  errs : NeverTooShort d
  cut : ∀ {w v : Window}, w.Begins v → ∀ pos,
    d w pos = .error .truncated ∨ d w pos = d v pos

/-- Of two windows with one bound each begins the other, so neither can run out first. -/
theorem Steady.confined {d : Decoder α} (h : Steady d) : Confined d where
  stays := h.stays
  errs := h.errs
  sees := by
    intro w v begins same pos
    rcases h.cut begins pos with short | eq
    · rcases h.cut (begins.symm same) pos with short' | eq'
      · rw [short, short']
      · exact eq'.symm
    · exact eq

/-- What is read under the nearer bound is read under the farther one. -/
theorem Steady.ok_of_begins {d : Decoder α} (h : Steady d) {w v : Window} (begins : w.Begins v)
    {pos : Nat} {r : α × Nat} (read : d w pos = .ok r) : d v pos = .ok r := by
  rcases h.cut begins pos with short | eq
  · rw [read] at short
    cases short
  · exact eq.symm.trans read

/-- A value that ends beyond the nearer bound is cut short there, wherever the bound is. -/
theorem Steady.truncated_of_begins {d : Decoder α} (h : Steady d) {w v : Window}
    (begins : w.Begins v) {pos next : Nat} {a : α} (le : pos ≤ w.stop)
    (read : d v pos = .ok (a, next)) (beyond : w.stop < next) : d w pos = .error .truncated := by
  rcases h.cut begins pos with short | eq
  · exact short
  · have inside := (h.stays le (eq.trans read)).2
    exact absurd inside (Nat.not_le.2 beyond)

/-! ### Sequences -/

theorem Steady.pure (a : α) : Steady (Pure.pure a : Decoder α) where
  stays := by
    intro w pos next b le h
    cases h
    exact ⟨Nat.le_refl _, le⟩
  errs := by
    intro w pos h
    cases h
  cut := fun _ _ => Or.inr rfl

theorem Steady.bind {d : Decoder α} {f : α → Decoder β} (hd : Steady d)
    (hf : ∀ a, Steady (f a)) : Steady (d >>= f) where
  stays := hd.stays.bind fun a => (hf a).stays
  errs := hd.errs.bind fun a => (hf a).errs
  cut := by
    intro w v begins pos
    rw [bind_apply, bind_apply]
    rcases hd.cut begins pos with short | eq
    · rw [short]
      exact Or.inl rfl
    · rw [eq]
      cases d v pos with
      | error e => exact Or.inr rfl
      | ok r => exact (hf r.1).cut begins r.2

theorem Steady.map {d : Decoder α} (hd : Steady d) (f : α → β) : Steady (f <$> d) :=
  hd.bind fun a => Steady.pure (f a)

theorem Confined.bind {d : Decoder α} {f : α → Decoder β} (hd : Confined d)
    (hf : ∀ a, Confined (f a)) : Confined (d >>= f) where
  stays := hd.stays.bind fun a => (hf a).stays
  errs := hd.errs.bind fun a => (hf a).errs
  sees := by
    intro w v begins same pos
    rw [bind_apply, bind_apply, hd.sees begins same]
    cases d v pos with
    | error e => rfl
    | ok r => exact (hf r.1).sees begins same r.2

theorem Steady.times {d : Decoder α} (hd : Steady d) (count : Nat) : Steady (d.times count) := by
  induction count with
  | zero => exact Steady.pure []
  | succ count ih =>
      rw [times_succ]
      exact hd.bind fun a => ih.bind fun others => Steady.pure (a :: others)

/-! ### Primitives -/

theorem steady_fail {e : DecodeError} (long : e ≠ .tooShort) :
    Steady (fail e : Decoder α) where
  stays := by
    intro w pos next a le h
    cases h
  errs := by
    intro w pos h
    cases h
    exact long rfl
  cut := fun _ _ => Or.inr rfl

theorem steady_vector (size : Nat) : Steady (vector size) where
  stays := by
    intro w pos next octets le h
    obtain ⟨room, -, rfl⟩ := vector_eq_ok.1 h
    exact ⟨Nat.le_add_right pos size, room⟩
  errs := by
    intro w pos h
    unfold vector at h
    split at h <;> cases h
  cut := by
    intro w v begins pos
    by_cases room : pos + size ≤ w.stop
    · refine Or.inr ?_
      unfold vector
      rw [dif_pos room, dif_pos (Nat.le_trans room begins.stop_le), begins.slice_eq room]
    · refine Or.inl ?_
      unfold vector
      rw [dif_neg room]

theorem steady_octet : Steady octet :=
  (steady_vector 1).bind fun _ => Steady.pure _

theorem steady_word16 : Steady word16 :=
  (steady_vector 2).bind fun _ => Steady.pure _

theorem steady_word32 : Steady word32 :=
  (steady_vector 4).bind fun _ => Steady.pure _

theorem confined_rest : Confined rest where
  stays := by
    intro w pos next octets le h
    cases h
    exact ⟨Nat.le_max_left _ _, Nat.max_le.2 ⟨le, Nat.le_refl _⟩⟩
  errs := by
    intro w pos h
    cases h
  sees := by
    intro w v begins same pos
    have equal : w.octets.extract pos w.stop = v.octets.extract pos v.stop := by
      have left := w.stop_le
      have right := v.stop_le
      apply Array.ext_getElem?
      intro i
      rw [Array.getElem?_extract, Array.getElem?_extract, ← same]
      by_cases lt : i < min w.stop w.octets.size - pos
      · rw [if_pos lt, if_pos (by omega), begins.agree (pos + i) (by omega)]
      · rw [if_neg lt, if_neg (by omega)]
    unfold rest
    rw [equal, same]

/-- With the same bound both times, the reader has no chance to tell the windows apart. -/
theorem Confined.filling_eq {d : Decoder α} (hd : Confined d) {w v : Window} (begins : w.Begins v)
    {pos size : Nat} (room : pos + size ≤ w.stop) : filling size d w pos = filling size d v pos := by
  unfold Decoder.filling
  rw [dif_pos room, dif_pos (Nat.le_trans room begins.stop_le),
    hd.sees (begins.narrow room) rfl]

/-- Where the bound is fixed first, a nearer bound of the message leaves too few octets or is out
of sight. -/
theorem Confined.filling {d : Decoder α} (hd : Confined d) (size : Nat) :
    Steady (filling size d) where
  stays := hd.stays.filling size
  errs := by
    intro w pos h
    unfold Decoder.filling at h
    split at h
    · next room =>
      cases read : d (w.narrow (pos + size) room) pos with
      | error e =>
          rw [read] at h
          cases h
          exact hd.errs _ pos read
      | ok r =>
          rw [read] at h
          dsimp only at h
          split at h <;> cases h
    · cases h
  cut := by
    intro w v begins pos
    by_cases room : pos + size ≤ w.stop
    · exact Or.inr (hd.filling_eq begins room)
    · exact Or.inl (filling_of_short (Nat.not_le.1 room))

end Decoder

end DnsWire

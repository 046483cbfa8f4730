import DnsWire.Decoder

/-!
# Values one behind the other

`Tiles reads pos values stop` says that values lie between two positions without a gap: each
begins where the one before it ends. Readers that repeat another one read such tilings
(`Decoder.times_eq_ok`), tilings of two lists make one of both (`tiles_append`), and the positions
at the seams are those of a sequence (`Tiles.offsets`).
-/

namespace DnsWire

variable {α β : Type}

/-- The first value reaches from `pos` to where the second begins, and so on up to `stop`. -/
def Tiles (reads : α → Nat → Nat → Prop) : Nat → List α → Nat → Prop
  | pos, [], stop => pos = stop
  | pos, a :: rest, stop => ∃ next, reads a pos next ∧ Tiles reads next rest stop

variable {reads : α → Nat → Nat → Prop} {pos stop : Nat}

theorem tiles_append {left right : List α} :
    Tiles reads pos (left ++ right) stop ↔
      ∃ mid, Tiles reads pos left mid ∧ Tiles reads mid right stop := by
  induction left generalizing pos with
  | nil =>
      constructor
      · exact fun h => ⟨pos, rfl, h⟩
      · intro h
        obtain ⟨_, rfl, h⟩ := h
        exact h
  | cons a rest ih =>
      simp only [List.cons_append, Tiles, ih]
      constructor
      · intro h
        obtain ⟨next, first, mid, left, right⟩ := h
        exact ⟨mid, ⟨next, first, left⟩, right⟩
      · intro h
        obtain ⟨mid, ⟨next, first, left⟩, right⟩ := h
        exact ⟨next, first, mid, left, right⟩

/-- A tiling by what is made of values is one by the values themselves. -/
theorem tiles_map {f : α → β} {made : β → Nat → Nat → Prop} {values : List α} :
    Tiles made pos (values.map f) stop ↔ Tiles (fun a => made (f a)) pos values stop := by
  induction values generalizing pos with
  | nil => exact Iff.rfl
  | cons a rest ih => simp only [List.map_cons, Tiles, ih]

theorem Tiles.imp {made : α → Nat → Nat → Prop} {values : List α}
    (h : Tiles reads pos values stop)
    (step : ∀ a pos next, reads a pos next → made a pos next) : Tiles made pos values stop := by
  induction values generalizing pos with
  | nil => exact h
  | cons a rest ih =>
      obtain ⟨next, first, tail⟩ := h
      exact ⟨next, step a pos next first, ih tail⟩

/-- What is true of each value that is read is true of all in the tiling. -/
theorem Tiles.forall_mem {values : List α} (h : Tiles reads pos values stop) {p : α → Prop}
    (step : ∀ a pos next, reads a pos next → p a) : ∀ a ∈ values, p a := by
  induction values generalizing pos with
  | nil => exact nofun
  | cons a rest ih =>
      obtain ⟨next, first, tail⟩ := h
      intro b mem
      rcases List.mem_cons.1 mem with rfl | inside
      · exact step b pos next first
      · exact ih tail b inside

/-- Where each value takes a least number of octets, all of them together do. -/
theorem Tiles.room {values : List α} (h : Tiles reads pos values stop) (least : Nat)
    (step : ∀ a pos next, reads a pos next → pos + least ≤ next) :
    pos + least * values.length ≤ stop := by
  induction values generalizing pos with
  | nil => exact Nat.le_of_eq h
  | cons a rest ih =>
      obtain ⟨next, first, tail⟩ := h
      have here := step a pos next first
      have behind := ih tail
      rw [List.length_cons, Nat.mul_succ]
      omega

/-- No value reaches beyond the end of the tiling. -/
theorem Tiles.inside {values : List α} (h : Tiles reads pos values stop)
    (step : ∀ a pos next, reads a pos next → pos ≤ next) :
    Tiles (fun a pos next => reads a pos next ∧ next ≤ stop) pos values stop := by
  induction values generalizing pos with
  | nil => exact h
  | cons a rest ih =>
      obtain ⟨next, first, tail⟩ := h
      have behind := tail.room 0 step
      exact ⟨next, ⟨first, by omega⟩, ih tail⟩

/-- The seams of a tiling. -/
theorem Tiles.offsets {values : List α} (h : Tiles reads pos values stop) :
    ∃ offsets : Nat → Nat, offsets 0 = pos ∧ offsets values.length = stop ∧
      ∀ i (lt : i < values.length), reads values[i] (offsets i) (offsets (i + 1)) := by
  induction values generalizing pos with
  | nil => exact ⟨fun _ => pos, rfl, h, nofun⟩
  | cons a rest ih =>
      obtain ⟨next, first, tail⟩ := h
      obtain ⟨offsets, start, last, between⟩ := ih tail
      -- The first seam goes in front of those of the rest.
      refine ⟨fun i => if i = 0 then pos else offsets (i - 1), rfl, last, ?_⟩
      intro i lt
      cases i with
      | zero => simpa [start] using first
      | succ i => exact between i (Nat.lt_of_succ_lt_succ lt)

/-- As many values as a count says are read exactly as they lie one behind the other. -/
theorem Decoder.times_eq_ok {d : Decoder α} {w : Window} {count : Nat} {values : List α} :
    d.times count w pos = .ok (values, stop) ↔
      values.length = count ∧
        Tiles (fun a pos next => d w pos = .ok (a, next)) pos values stop := by
  induction count generalizing pos values with
  | zero =>
      rw [times_zero, pure_apply]
      constructor
      · intro h
        cases h
        exact ⟨rfl, rfl⟩
      · intro h
        obtain ⟨none, h⟩ := h
        cases List.length_eq_zero_iff.1 none
        cases h
        rfl
  | succ count ih =>
      rw [times_succ, bind_eq_ok]
      constructor
      · intro h
        obtain ⟨a, next, first, tail⟩ := h
        obtain ⟨rest, _, tail, last⟩ := bind_eq_ok.1 tail
        cases last
        obtain ⟨length, tiles⟩ := ih.1 tail
        exact ⟨by rw [List.length_cons, length], next, first, tiles⟩
      · intro h
        obtain ⟨length, h⟩ := h
        cases values with
        | nil => cases length
        | cons a rest =>
            obtain ⟨next, first, tail⟩ := h
            refine ⟨a, next, first, bind_eq_ok.2 ⟨rest, stop, ih.2 ⟨?_, tail⟩, rfl⟩⟩
            exact Nat.succ.inj length

end DnsWire

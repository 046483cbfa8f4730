import DnsWire.Decoder

/-!
# Octets at a position

`Window.Shows` says that given octets stand in a window from a position on. It meets a reader from
both sides: a word, a header or a name is read exactly where its wire format stands, so one
equivalence serves what was written and is read back as well as what was read and is written
again. Wire formats are concatenations, which `shows_append` takes apart.

`Decoder.ReadsBack` is this for a reader and a format with a known end. It goes from one value to
any number of values one behind the other (`ReadsBack.times`).
-/

namespace DnsWire

namespace Window

variable {w : Window} {pos : Nat}

/-- The octets stand in the window from `pos` on. -/
def Shows (w : Window) : Nat → List UInt8 → Prop
  | pos, [] => pos ≤ w.stop
  | pos, octet :: rest => w.octets[pos]? = some octet ∧ w.Shows (pos + 1) rest

theorem shows_cons {octet : UInt8} {rest : List UInt8} :
    w.Shows pos (octet :: rest) ↔ w.octets[pos]? = some octet ∧ w.Shows (pos + 1) rest :=
  Iff.rfl

theorem Shows.room {octets : List UInt8} (h : w.Shows pos octets) :
    pos + octets.length ≤ w.stop := by
  induction octets generalizing pos with
  | nil => exact h
  | cons octet rest ih =>
      have := ih h.2
      rw [List.length_cons]
      omega

theorem shows_append {left right : List UInt8} :
    w.Shows pos (left ++ right) ↔ w.Shows pos left ∧ w.Shows (pos + left.length) right := by
  induction left generalizing pos with
  | nil => exact ⟨fun h => ⟨Nat.le_trans (Nat.le_add_right _ _) h.room, h⟩, And.right⟩
  | cons octet rest ih =>
      rw [List.cons_append, shows_cons, shows_cons, ih, List.length_cons, and_assoc,
        Nat.add_right_comm, Nat.add_assoc]

/-- The octets of a stretch of the message stand where the stretch begins. -/
theorem shows_iff {octets : List UInt8} :
    w.Shows pos octets ↔
      pos + octets.length ≤ w.stop ∧
        (w.octets.extract pos (pos + octets.length)).toList = octets := by
  induction octets generalizing pos with
  | nil => simp [Shows]
  | cons octet rest ih =>
      have bound := w.stop_le
      rw [shows_cons, ih, List.length_cons, Nat.add_right_comm, ← Nat.add_assoc]
      by_cases lt : pos < w.octets.size
      · have first : (w.octets.extract pos (pos + rest.length + 1)).toList =
            w.octets[pos] :: (w.octets.extract (pos + 1) (pos + rest.length + 1)).toList := by
          simp only [Array.toList_extract, List.extract_eq_take_drop]
          rw [List.drop_eq_getElem_cons (by simpa using lt), Array.getElem_toList,
            show pos + rest.length + 1 - pos = rest.length + 1 by omega, List.take_succ_cons,
            show pos + rest.length + 1 - (pos + 1) = rest.length by omega]
        rw [first, List.cons.injEq, Array.getElem?_eq_getElem lt, Option.some.injEq]
        exact and_left_comm
      · constructor
        · intro h
          obtain ⟨-, room, -⟩ := h
          omega
        · intro h
          obtain ⟨room, -⟩ := h
          omega

/-- Octets stand at the start of the message that they make up. -/
theorem shows_whole (octets : List UInt8) : (whole octets.toArray).Shows 0 octets := by
  rw [shows_iff]
  simp [whole]

/-- Octets stand behind those in front of them, whatever follows. -/
theorem shows_between (before octets behind : List UInt8) :
    (whole (before ++ octets ++ behind).toArray).Shows before.length octets := by
  have whole := shows_whole (before ++ octets ++ behind)
  rw [shows_append, shows_append, Nat.zero_add] at whole
  exact whole.1.2

/-- Octets that are cut out of a message stand there. -/
theorem shows_of_extract {message : Array UInt8} {start : Nat} {octets : List UInt8}
    (le : start ≤ message.size)
    (h : (message.extract start (start + octets.length)).toList = octets) :
    (whole message).Shows start octets := by
  refine shows_iff.2 ⟨?_, h⟩
  have length := congrArg List.length h
  rw [Array.length_toList, Array.size_extract] at length
  show start + octets.length ≤ message.size
  omega

end Window

namespace Decoder

variable {w : Window} {pos next : Nat}

theorem word16_eq_ok_iff_shows {value : UInt16} :
    word16 w pos = .ok (value, next) ↔ w.Shows pos (octets16 value) ∧ next = pos + 2 := by
  rw [word16_eq_ok]
  constructor
  · intro h
    obtain ⟨room, rfl, high, low, at_high, at_low, rfl⟩ := h
    rw [octets16_word16]
    exact ⟨⟨at_high, at_low, room⟩, rfl⟩
  · intro h
    obtain ⟨⟨at_high, at_low, room⟩, rfl⟩ := h
    exact ⟨room, rfl, _, _, at_high, at_low, (word16_octets16 value).symm⟩

theorem word32_eq_ok_iff_shows {value : UInt32} :
    word32 w pos = .ok (value, next) ↔ w.Shows pos (octets32 value) ∧ next = pos + 4 := by
  unfold word32
  simp only [bind_eq_ok, vector_eq_ok, pure_apply, Except.ok.injEq, Prod.mk.injEq]
  constructor
  · intro h
    obtain ⟨_, _, ⟨room, rfl, rfl⟩, rfl, rfl⟩ := h
    have bound := w.stop_le
    rw [octets32_word32]
    refine ⟨⟨?_, ?_, ?_, ?_, room⟩, rfl⟩ <;>
      · rw [Window.getElem_slice]
        exact Array.getElem?_eq_getElem (by omega)
  · intro h
    obtain ⟨⟨at_a, at_b, at_c, at_d, room⟩, rfl⟩ := h
    have room : pos + 4 ≤ w.stop := room
    obtain ⟨_, first⟩ := Array.getElem?_eq_some_iff.1 at_a
    obtain ⟨_, second⟩ := Array.getElem?_eq_some_iff.1 at_b
    obtain ⟨_, third⟩ := Array.getElem?_eq_some_iff.1 at_c
    obtain ⟨_, fourth⟩ := Array.getElem?_eq_some_iff.1 at_d
    refine ⟨_, _, ⟨room, rfl, rfl⟩, ?_, rfl⟩
    simp only [Window.getElem_slice, Nat.add_zero]
    simp only [Nat.add_assoc, Nat.reduceAdd] at second third fourth
    rw [first, second, third, fourth, word32_octets32]

/-- A fixed number of octets is read where they stand. -/
theorem vector_of_shows {size : Nat} {octets : Vector UInt8 size} (h : w.Shows pos octets.toList) :
    vector size w pos = .ok (octets, pos + size) := by
  obtain ⟨room, content⟩ := Window.shows_iff.1 h
  rw [Vector.length_toList] at room content
  exact vector_eq_ok.2 ⟨room, Vector.toList_inj.1 content.symm, rfl⟩

theorem vector_eq_ok_iff_shows {size : Nat} {octets : Vector UInt8 size} :
    vector size w pos = .ok (octets, next) ↔ w.Shows pos octets.toList ∧ next = pos + size := by
  refine ⟨fun h => ?_, fun h => ?_⟩
  · obtain ⟨room, rfl, rfl⟩ := vector_eq_ok.1 h
    refine ⟨Window.shows_iff.2 ⟨?_, ?_⟩, rfl⟩
    · rwa [Vector.length_toList]
    · rw [Vector.length_toList]
      rfl
  · obtain ⟨shows, rfl⟩ := h
    exact vector_of_shows shows

/-- Where there is room, some octets stand. -/
theorem exists_shows_vector {size : Nat} (room : pos + size ≤ w.stop) :
    ∃ octets : Vector UInt8 size, w.Shows pos octets.toList :=
  ⟨w.slice pos size room, (vector_eq_ok_iff_shows.1 (vector_eq_ok.2 ⟨room, rfl, rfl⟩)).1⟩

theorem exists_shows_octets16 (room : pos + 2 ≤ w.stop) :
    ∃ word, w.Shows pos (octets16 word) := by
  have bound := w.stop_le
  refine ⟨DnsWire.word16 w.octets[pos] w.octets[pos + 1], ?_⟩
  rw [octets16_word16]
  exact ⟨Array.getElem?_eq_getElem _, Array.getElem?_eq_getElem _, room⟩

/-- All octets are read that stand up to the bound. -/
theorem rest_of_shows {octets : List UInt8} (h : w.Shows pos octets)
    (full : w.stop = pos + octets.length) : rest w pos = .ok (octets, pos + octets.length) := by
  unfold rest
  rw [full, (Window.shows_iff.1 h).2, Nat.max_eq_right (Nat.le_add_right _ _)]

/-! ### Reading back -/

variable {α β : Type} {d : Decoder β} {wire : α → List UInt8} {value : α → β}

/-- Whatever is written in a format is read where it stands, up to its end. -/
def ReadsBack (d : Decoder β) (wire : α → List UInt8) (value : α → β) : Prop :=
  ∀ ⦃w : Window⦄ ⦃pos : Nat⦄ ⦃a : α⦄,
    w.Shows pos (wire a) → d w pos = .ok (value a, pos + (wire a).length)

/-- What is read back one by one is read back as a whole. -/
theorem ReadsBack.times (h : ReadsBack d wire value) {values : List α}
    (shows : w.Shows pos (values.flatMap wire)) :
    d.times values.length w pos =
      .ok (values.map value, pos + (values.flatMap wire).length) := by
  induction values generalizing pos with
  | nil => rfl
  | cons a rest ih =>
      rw [List.flatMap_cons, Window.shows_append] at shows
      rw [List.length_cons, times_succ, List.flatMap_cons, List.length_append, ← Nat.add_assoc]
      exact bind_eq_ok.2 ⟨_, _, h shows.1, bind_eq_ok.2 ⟨_, _, ih shows.2, rfl⟩⟩

end Decoder

end DnsWire

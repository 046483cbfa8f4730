import DnsWire.Name.Walk
import DnsWire.Text.Utf8.Lemmas

/-!
# How deep the reading of a name is nested

Reading a name goes on by itself behind each label and at the target of each pointer. Neither the
position nor the rest of the message gets smaller on the way, for a pointer leads back and labels
lead forth again; what bounds the depth are the two limits of a name. A pointer uses up one of 128.
A label uses up two octets at least of 254, so there are 127 of them (`Enters.counts_le`). With the
reading that everything begins with this is a depth of 256, whatever the message holds
(`Name.decode_nesting`).

* `Walk.Enters` — from where to where the reading goes on, with the labels and pointers between.
* `Walk.runWithin` — `Walk.run` with a limit on the depth. It exceeds the limit where there is a
  reading that deep and nowhere else (`runWithin_eq_none`), and within it nothing is different
  (`run_of_runWithin`).
* `Name.length_text_le` — the limit on the text of a name.
-/

namespace DnsWire

/-! ## Sizes of labels and texts -/

namespace Label

theorem two_le_wireSize (l : Label) : 2 ≤ l.wireSize := Nat.succ_le_succ l.size_pos

theorem two_mul_length_le_wireSizes (labels : List Label) :
    2 * labels.length ≤ wireSizes labels := by
  induction labels with
  | nil => exact Nat.le_refl _
  | cons l labels ih =>
      have := l.two_le_wireSize
      rw [List.length_cons, wireSizes_cons]
      omega

/-- The text of a label takes no more characters than the label has octets. -/
theorem length_text_lt (l : Label) : l.text.length < l.wireSize :=
  Nat.lt_succ_of_le (Utf8.length_decode_le l.octets)

/-- Each dot between two texts stands for the octet in front of the second label. -/
theorem length_intercalate_text_lt (l : Label) (labels : List Label) :
    (['.'].intercalate ((l :: labels).map text)).length < wireSizes (l :: labels) := by
  induction labels generalizing l with
  | nil => simpa using length_text_lt l
  | cons m labels ih =>
      have first := length_text_lt l
      have rest := ih m
      rw [List.map_cons] at rest
      rw [List.map_cons, List.map_cons, List.intercalate_cons_cons, wireSizes_cons]
      simp only [List.length_append, List.length_cons, List.length_nil]
      omega

end Label

namespace Name

/-- The text of a name has a character less than its labels have octets; the root is one dot. -/
theorem length_text_le (n : Name) : n.text.length ≤ 253 := by
  obtain ⟨labels, fits⟩ := n
  rw [text, String.length_ofList]
  cases labels with
  | nil => exact Nat.le_add_left 1 252
  | cons l labels =>
      have shorter := Label.length_intercalate_text_lt l labels
      simp only [maxWireSize] at fits
      simp only [textOf, List.isEmpty_cons, Bool.false_eq_true, if_false]
      omega

end Name

namespace Walk

variable {w : Window}

/-! ## What is entered -/

/-- Where the reading from `s` goes on by itself: from `t`, behind the labels `labels` and after
`pointers` pointers. -/
inductive Enters (w : Window) : Walk → List Label → Nat → Walk → Prop
  /-- The reading that everything begins with. -/
  | here (s : Walk) : Enters w s [] 0 s
  /-- A label has been passed. -/
  | label {s t u : Walk} {l : Label} {labels : List Label} {pointers : Nat}
      (step : s.step w = .ok (.label l t)) (rest : Enters w t labels pointers u) :
      Enters w s (l :: labels) pointers u
  /-- A pointer has been followed. -/
  | jump {s t u : Walk} {next : Nat} {labels : List Label} {pointers : Nat}
      (step : s.step w = .ok (.jump next t)) (rest : Enters w t labels pointers u) :
      Enters w s labels (pointers + 1) u

/-- A walk counts the octets of its labels and its pointers. -/
theorem Enters.counted {s t : Walk} {labels : List Label} {pointers : Nat}
    (h : Enters w s labels pointers t) :
    t.passed = s.passed + Label.wireSizes labels ∧ t.pointers = s.pointers + pointers := by
  induction h with
  | here s => exact ⟨rfl, rfl⟩
  | label step _ ih =>
      obtain ⟨passed, -, pointers⟩ := passed_of_label step
      rw [ih.1, ih.2, passed, pointers, Label.wireSizes_cons, Nat.add_assoc]
      exact ⟨rfl, rfl⟩
  | jump step _ ih =>
      obtain ⟨pointers, -, passed⟩ := pointers_of_jump step
      rw [ih.1, ih.2, passed, pointers, Nat.add_assoc, Nat.add_comm 1]
      exact ⟨rfl, rfl⟩

/-- A walk is within the limits of a name. -/
structure WithinLimits (s : Walk) : Prop where
  passed_lt : s.passed < Name.maxWireSize
  pointers_le : s.pointers ≤ Name.maxPointers

theorem withinLimits_start (pos : Nat) : (start pos).WithinLimits :=
  ⟨Nat.zero_lt_succ _, Nat.zero_le _⟩

theorem WithinLimits.of_label {s t : Walk} {l : Label} (within : s.WithinLimits)
    (step : s.step w = .ok (.label l t)) : t.WithinLimits := by
  obtain ⟨-, room, pointers⟩ := passed_of_label step
  exact ⟨room, pointers ▸ within.pointers_le⟩

theorem WithinLimits.of_jump {s t : Walk} {next : Nat} (within : s.WithinLimits)
    (step : s.step w = .ok (.jump next t)) : t.WithinLimits := by
  obtain ⟨pointers, few, passed⟩ := pointers_of_jump step
  exact ⟨passed ▸ within.passed_lt, pointers ▸ few⟩

/-- No reading leaves the limits of a name. -/
theorem Enters.withinLimits {s t : Walk} {labels : List Label} {pointers : Nat}
    (h : Enters w s labels pointers t) (within : s.WithinLimits) : t.WithinLimits := by
  induction h with
  | here s => exact within
  | label step _ ih => exact ih (within.of_label step)
  | jump step _ ih => exact ih (within.of_jump step)

/-- The limits of a name are limits on how often the reading of one goes on by itself. -/
theorem Enters.counts_le {pos pointers : Nat} {t : Walk} {labels : List Label}
    (h : Enters w (start pos) labels pointers t) : labels.length ≤ 127 ∧ pointers ≤ 128 := by
  obtain ⟨passed, taken⟩ := h.counted
  obtain ⟨room, few⟩ := h.withinLimits (withinLimits_start pos)
  have twice := Label.two_mul_length_le_wireSizes labels
  simp only [start, Name.maxWireSize, Name.maxPointers] at passed taken room few
  omega

/-- The labels of a name are those behind which its last reading began. -/
theorem exists_enters_of_run {s : Walk} {labels : List Label} {next : Nat}
    (h : s.run w = .ok (labels, next)) :
    ∃ pointers t behind, Enters w s labels pointers t ∧ t.step w = .ok (.done behind) := by
  refine run_induction (motive := fun s labels _ => ∃ pointers t behind,
    Enters w s labels pointers t ∧ t.step w = .ok (.done behind)) ?_ ?_ ?_ h
  · intro s next ends
    exact ⟨0, s, next, .here s, ends⟩
  · intro s t l labels next step _ ih
    obtain ⟨pointers, u, behind, enters, ends⟩ := ih
    exact ⟨pointers, u, behind, .label step enters, ends⟩
  · intro s t labels next _ step _ ih
    obtain ⟨pointers, u, behind, enters, ends⟩ := ih
    exact ⟨pointers + 1, u, behind, .jump step enters, ends⟩

/-! ## A limit on the depth -/

/-- The walk from here to the end of the name, as long as no more than `depth` readings are nested
in one another; `none` where there are more. -/
def runWithin (w : Window) : Nat → Walk → Option (Except DecodeError (List Label × Nat))
  | 0, _ => none
  | depth + 1, s =>
    match s.step w with
    | .error e => some (.error e)
    | .ok (.done next) => some (.ok ([], next))
    | .ok (.label l behind) =>
      (runWithin w depth behind).map fun read => read.map fun r => (l :: r.1, r.2)
    | .ok (.jump next there) =>
      (runWithin w depth there).map fun read => read.map fun r => (r.1, next)

/-- Within the limit, a walk comes to what it comes to without one. -/
theorem run_of_runWithin {depth : Nat} {s : Walk} {read : Except DecodeError (List Label × Nat)}
    (h : runWithin w depth s = some read) : s.run w = read := by
  fun_induction runWithin w depth s generalizing read with
  | case1 => cases h
  | case2 depth s e failed =>
    rw [run_of_error failed]
    exact Option.some.inj h
  | case3 depth s next ends =>
    rw [run_of_done ends]
    exact Option.some.inj h
  | case4 depth s l behind step ih =>
    obtain ⟨rest, eq, rfl⟩ := Option.map_eq_some_iff.1 h
    rw [run_of_label step, ih eq]
  | case5 depth s next there step ih =>
    obtain ⟨rest, eq, rfl⟩ := Option.map_eq_some_iff.1 h
    rw [run_of_jump step, ih eq]

/-- A limit is exceeded exactly by a reading that is entered that deep. -/
theorem runWithin_eq_none {depth : Nat} {s : Walk} :
    runWithin w depth s = none ↔
      ∃ labels pointers t, Enters w s labels pointers t ∧ labels.length + pointers = depth := by
  constructor
  · intro h
    fun_induction runWithin w depth s with
    | case1 s => exact ⟨[], 0, s, .here s, rfl⟩
    | case2 | case3 => cases h
    | case4 depth s l behind step ih =>
      obtain ⟨labels, pointers, t, enters, deep⟩ := ih (Option.map_eq_none_iff.1 h)
      refine ⟨l :: labels, pointers, t, .label step enters, ?_⟩
      rw [List.length_cons]
      omega
    | case5 depth s next there step ih =>
      obtain ⟨labels, pointers, t, enters, deep⟩ := ih (Option.map_eq_none_iff.1 h)
      exact ⟨labels, pointers + 1, t, .jump step enters, congrArg (· + 1) deep⟩
  · intro h
    obtain ⟨labels, pointers, t, enters, rfl⟩ := h
    induction enters with
    | here s => rfl
    | @label s t u l labels pointers step _ ih =>
        rw [List.length_cons, Nat.add_right_comm, runWithin, step]
        exact Option.map_eq_none_iff.2 ih
    | @jump s t u next labels pointers step _ ih =>
        rw [← Nat.add_assoc, runWithin, step]
        exact Option.map_eq_none_iff.2 ih

/-- 256 readings are nested in one another at most. -/
theorem runWithin_start (w : Window) (pos : Nat) :
    runWithin w 256 (start pos) = some ((start pos).run w) := by
  cases within : runWithin w 256 (start pos) with
  | none =>
      obtain ⟨labels, pointers, t, enters, deep⟩ := runWithin_eq_none.1 within
      have := enters.counts_le
      omega
  | some read => rw [run_of_runWithin within]

end Walk

namespace Name

/-- Reading a name is the walk from its first octet, errors included. -/
theorem decode_map (w : Window) (pos : Nat) :
    ((decode w pos).map fun r => (r.1.labels, r.2)) = (Walk.start pos).run w := by
  cases read : decode w pos with
  | error e => exact (decode_eq_error.1 read).symm
  | ok r => exact (decode_eq_ok.1 read).symm

/-- **The depth of reading a name is bounded.** Whatever the octets of a message are and wherever
in it a name is read, the reading goes on by itself behind 127 labels and at the targets of 128
pointers at most, whether it comes to a name or to an error. So a limit of 256 on the depth changes
nothing, and a name that is read has at most 127 labels and at most 253 characters of text. -/
theorem decode_nesting (w : Window) (pos : Nat) :
    (∀ labels pointers t, Walk.Enters w (Walk.start pos) labels pointers t →
      labels.length ≤ 127 ∧ pointers ≤ 128 ∧ 1 + labels.length + pointers ≤ 256) ∧
    Walk.runWithin w 256 (Walk.start pos) =
      some ((decode w pos).map fun r => (r.1.labels, r.2)) ∧
    ∀ n next, decode w pos = .ok (n, next) →
      (∃ pointers t, Walk.Enters w (Walk.start pos) n.labels pointers t) ∧
        n.labels.length ≤ 127 ∧ n.text.length ≤ 253 := by
  refine ⟨?_, ?_, ?_⟩
  · intro labels pointers t enters
    have := enters.counts_le
    omega
  · rw [decode_map]
    exact Walk.runWithin_start w pos
  · intro n next read
    obtain ⟨pointers, t, -, enters, -⟩ := Walk.exists_enters_of_run (decode_eq_ok.1 read)
    exact ⟨⟨pointers, t, enters⟩, enters.counts_le.1, n.length_text_le⟩

/-- A name of one label and a pointer to the root in front of it. -/
theorem decode_nesting_sample :
    (∃ labels pointers t,
      Walk.Enters (.whole #[0, 1, 97, 0xC0, 0]) (Walk.start 1) labels pointers t ∧
        labels.length + pointers = 2 ∧ labels.length ≤ 127 ∧ pointers ≤ 128) ∧
    ∃ n, decode (.whole #[0, 1, 97, 0xC0, 0]) 1 = .ok (n, 5) ∧
      n.labels.length ≤ 127 ∧ n.text.length ≤ 253 := by
  obtain ⟨nested, -, limits⟩ := decode_nesting (.whole #[0, 1, 97, 0xC0, 0]) 1
  constructor
  · have deep : (Walk.runWithin (.whole #[0, 1, 97, 0xC0, 0]) 2 (Walk.start 1)).isNone := by
      decide +kernel
    obtain ⟨labels, pointers, t, enters, sum⟩ :=
      Walk.runWithin_eq_none.1 (Option.isNone_iff_eq_none.1 deep)
    have counts := nested labels pointers t enters
    exact ⟨labels, pointers, t, enters, sum, counts.1, counts.2.1⟩
  · have read : (decode (.whole #[0, 1, 97, 0xC0, 0]) 1).toOption.map Prod.snd = some 5 := by
      decide +kernel
    obtain ⟨⟨n, next⟩, read, rfl⟩ := except_toOption_map_eq_some.1 read
    exact ⟨n, read, (limits n 5 read).2⟩

end Name

end DnsWire

import DnsWire.Name.Basic

/-!
# Reading names

A name in a message is a run of labels that ends in the root or in a pointer to a run further up,
so reading it is a walk through the message.

* `Walk` — where the walk stands: the position, the start of the current run, the number of
  pointers taken and the octets that the labels passed so far take.
* `Walk.step` — one label, one pointer or the end. A label has to leave room for the octet behind
  it and for the rest of a name of 255 octets; a pointer has to lead in front of its own run.
* `Walk.run` — the labels up to the end, and the position behind the name. A pointer ends the
  name where it stands, however long the walk goes on.

Each step uses up part of a budget, a pointer one of 128 and a label its octets of 254, which is
why every walk ends.
-/

namespace DnsWire

/-- The greatest number of pointers that the walk through one name takes. -/
def Name.maxPointers : Nat := 128

/-- Where the walk through a name stands. -/
structure Walk where
  /-- The position of the next length octet. -/
  position : Nat
  /-- The position at which the current run of labels began. -/
  runStart : Nat
  /-- The number of pointers taken so far. -/
  pointers : Nat
  /-- The number of octets of the labels passed so far in wire format. -/
  passed : Nat
  deriving DecidableEq, Repr

/-- One step of the walk. -/
inductive Walk.Step where
  /-- The name ends, and what follows it begins at `next`. -/
  | done (next : Nat)
  /-- A label, and the walk behind it. -/
  | label (l : Label) (behind : Walk)
  /-- A pointer with `next` behind it, and the walk at its target. -/
  | jump (next : Nat) (there : Walk)

namespace Walk

/-- The start of a walk. -/
def start (position : Nat) : Walk :=
  ⟨position, position, 0, 0⟩

/-- What the walk may still use up. -/
def budget (s : Walk) : Nat :=
  (Name.maxPointers - s.pointers) + (Name.maxWireSize - s.passed)

/-- One label, one pointer or the end of the name. -/
def step (w : Window) (s : Walk) : Except DecodeError Step :=
  match LabelHead.decode w s.position with
  | .error e => .error e
  | .ok (.root, next) => .ok (.done next)
  | .ok (.label size, next) =>
    if room : next + size.val + 1 ≤ w.stop then
      if s.passed + size.val + 1 < Name.maxWireSize then
        let octets := w.slice next size.val (Nat.le_of_succ_le room)
        .ok (.label (.ofVector octets size.property.1 size.property.2)
          { s with position := next + size.val, passed := s.passed + size.val + 1 })
      else .error (.form .longName)
    else .error .truncated
  | .ok (.pointer target, next) =>
    if target < s.runStart ∧ s.pointers < Name.maxPointers then
      .ok (.jump next
        { s with position := target, runStart := target, pointers := s.pointers + 1 })
    else .error .compressionLoop

/-- Behind a label the walk has passed its octets, and there is room for the root. -/
theorem passed_of_label {w : Window} {s t : Walk} {l : Label}
    (h : s.step w = .ok (.label l t)) :
    t.passed = s.passed + l.wireSize ∧ t.passed < Name.maxWireSize ∧ t.pointers = s.pointers := by
  unfold step at h
  split at h
  · cases h
  · cases h
  · next size next _ =>
    split at h
    · split at h
      · next fits =>
        cases h
        refine ⟨?_, fits, rfl⟩
        simp [Label.wireSize, Nat.add_assoc]
      · cases h
    · cases h
  · split at h <;> cases h

/-- A pointer is counted and passes no label. -/
theorem pointers_of_jump {w : Window} {s t : Walk} {next : Nat}
    (h : s.step w = .ok (.jump next t)) :
    t.pointers = s.pointers + 1 ∧ s.pointers < Name.maxPointers ∧ t.passed = s.passed := by
  unfold step at h
  split at h
  · cases h
  · cases h
  · split at h
    · split at h <;> cases h
    · cases h
  · split at h
    · next allowed =>
      cases h
      exact ⟨rfl, allowed.2, rfl⟩
    · cases h

theorem budget_of_label {w : Window} {s t : Walk} {l : Label}
    (h : s.step w = .ok (.label l t)) : t.budget < s.budget := by
  have := passed_of_label h
  simp only [budget, Label.wireSize] at *
  omega

theorem budget_of_jump {w : Window} {s t : Walk} {next : Nat}
    (h : s.step w = .ok (.jump next t)) : t.budget < s.budget := by
  have := pointers_of_jump h
  simp only [budget] at *
  omega

/-- The labels from here to the end of the name, and the position behind the run that the walk
stands in. -/
def run (w : Window) (s : Walk) : Except DecodeError (List Label × Nat) :=
  match _step : s.step w with
  | .error e => .error e
  | .ok (.done next) => .ok ([], next)
  | .ok (.label l behind) => (behind.run w).map fun r => (l :: r.1, r.2)
  | .ok (.jump next there) => (there.run w).map fun r => (r.1, next)
termination_by s.budget
decreasing_by
  · exact budget_of_label _step
  · exact budget_of_jump _step

theorem run_of_error {w : Window} {s : Walk} {e : DecodeError} (h : s.step w = .error e) :
    s.run w = .error e := by
  unfold run
  split <;> simp_all

theorem run_of_done {w : Window} {s : Walk} {next : Nat} (h : s.step w = .ok (.done next)) :
    s.run w = .ok ([], next) := by
  unfold run
  split <;> simp_all

theorem run_of_label {w : Window} {s behind : Walk} {l : Label}
    (h : s.step w = .ok (.label l behind)) :
    s.run w = (behind.run w).map fun r => (l :: r.1, r.2) := by
  rw [run]
  split <;> simp_all

theorem run_of_jump {w : Window} {s there : Walk} {next : Nat}
    (h : s.step w = .ok (.jump next there)) :
    s.run w = (there.run w).map fun r => (r.1, next) := by
  rw [run]
  split <;> simp_all

/-- Induction along a walk that comes to its end. -/
theorem run_induction {w : Window} {motive : Walk → List Label → Nat → Prop}
    (done : ∀ s next, s.step w = .ok (.done next) → motive s [] next)
    (label : ∀ s t l labels next, s.step w = .ok (.label l t) → t.run w = .ok (labels, next) →
      motive t labels next → motive s (l :: labels) next)
    (jump : ∀ s t labels next behind, s.step w = .ok (.jump next t) →
      t.run w = .ok (labels, behind) → motive t labels behind → motive s labels next)
    {s : Walk} {labels : List Label} {next : Nat} (h : s.run w = .ok (labels, next)) :
    motive s labels next := by
  fun_induction run w s generalizing labels next with
  | case1 => cases h
  | case2 s next step =>
    cases h
    exact done s next step
  | case3 s l behind step ih =>
    obtain ⟨r, tail, eq⟩ := except_map_eq_ok.1 h
    cases eq
    exact label s behind l r.1 r.2 step tail (ih tail)
  | case4 s behind there step ih =>
    obtain ⟨r, tail, eq⟩ := except_map_eq_ok.1 h
    cases eq
    exact jump s there r.1 behind r.2 step tail (ih tail)

/-- The labels of a whole walk, together with those passed before, fit into a name. -/
theorem fits_of_run {w : Window} {s : Walk} {labels : List Label} {next : Nat}
    (start : s.passed < Name.maxWireSize) (h : s.run w = .ok (labels, next)) :
    s.passed + Label.wireSizes labels < Name.maxWireSize := by
  revert start
  refine run_induction (motive := fun s labels _ => s.passed < Name.maxWireSize →
    s.passed + Label.wireSizes labels < Name.maxWireSize) ?_ ?_ ?_ h
  · intro s next _ start
    exact start
  · intro s t l labels next step _ ih _
    have passed := passed_of_label step
    have := ih passed.2.1
    rw [Label.wireSizes_cons]
    omega
  · intro s t labels next behind step _ ih start
    have passed := pointers_of_jump step
    have := ih (by omega)
    omega

/-- The labels of a whole walk fit into a name. -/
theorem fits_of_run_start {w : Window} {pos : Nat} {labels : List Label} {next : Nat}
    (h : (start pos).run w = .ok (labels, next)) :
    Label.wireSizes labels + 1 ≤ Name.maxWireSize := by
  have := fits_of_run (Nat.zero_lt_succ _) h
  simp only [start] at this
  omega

end Walk

namespace Name

/-- Reads a name. Its pointers lead to any part of the message in front of them. -/
def decode : Decoder Name := fun w pos =>
  match h : (Walk.start pos).run w with
  | .error e => .error e
  | .ok (labels, next) =>
    .ok (⟨labels, Walk.fits_of_run_start h⟩, next)

/-- Reading a name is the walk from its first octet. -/
theorem decode_eq_ok {w : Window} {pos next : Nat} {n : Name} :
    decode w pos = .ok (n, next) ↔ (Walk.start pos).run w = .ok (n.labels, next) := by
  obtain ⟨labels, fits⟩ := n
  unfold decode
  split <;> simp_all

theorem decode_eq_error {w : Window} {pos : Nat} {e : DecodeError} :
    decode w pos = .error e ↔ (Walk.start pos).run w = .error e := by
  unfold decode
  split <;> simp_all

/-- Reads the text of a name. -/
def decodeText : Decoder String :=
  text <$> decode

/-- The text of the name at `start`, and the position behind the name. Nothing at `stop` or
beyond it is read, and there have to be two octets at least. -/
def decodeAt (octets : Array UInt8) (start stop : Nat) : Except DecodeError (String × Nat) :=
  let w := Window.upTo octets stop
  if start + 2 ≤ w.stop then decodeText w start else .error .truncated

end Name

end DnsWire

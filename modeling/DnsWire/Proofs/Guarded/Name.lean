import DnsWire.Proofs.Guarded.Label
import DnsWire.Proofs.Message.Confined
import DnsWire.Proofs.Name.Nesting

/-!
# Reading names behind guards

`Call.run` reads a name the way a program with words and buffers does. It goes on by itself behind
each label and at the target of each pointer, each time with a `Call` of its own: where it stands,
where the run of labels began, how many pointers have been taken and what has been spelled so far.
All calls are handed back with the result, also where that is an error.

## Proof shape

`Keeps` is what every call keeps to. A label leaves room for an octet behind it, and a pointer leads
in front of a run that began inside the window, so no position gets beyond the bound; the two limits
of a name bound the counters. One step from such a place is a step of a walk (`step_ofWalk`), so the
guards find nothing there, and what the step leads to keeps to the same (`Keeps.of_label`,
`Keeps.of_jump`). `run_ofWalk` lifts both to all calls of a name, each of which is `Safe`.
-/

namespace DnsWire.Guarded

/-! ## Calls -/

/-- What is handed over where the reading of a name goes on by itself. -/
structure Call where
  /-- Where the reading stands and how far it may go. -/
  cursor : Cursor
  /-- The position at which the current run of labels began. -/
  runStart : Nat
  /-- The number of pointers taken so far. -/
  pointers : Nat
  /-- What has been spelled so far. -/
  spelling : Spelling
  deriving DecidableEq, Repr

/-- What a call comes to before it goes on. -/
inductive Next where
  /-- The name ends. -/
  | done (behind : Cursor)
  /-- The reading goes on behind a label. -/
  | label (call : Call)
  /-- The reading goes on at the target of a pointer, but the name ends behind the pointer. -/
  | jump (behind : Cursor) (call : Call)

namespace Call

/-- The call that a name begins with. -/
def first (c : Cursor) : Call :=
  ⟨c, c.position, 0, {}⟩

/-- Passes a label of which the size has been read. -/
def pass (max : Nat) (c : Call) (behind : Cursor) (size : Nat) : Except Halt Next := do
  -- Behind the label something follows, the root at least.
  let room ← add max size 1
  behind.need room
  let (label, behind) ← behind.label max size
  let spelling ← c.spelling.push max label
  return .label { c with cursor := behind, spelling }

/-- Follows a pointer that has been read. -/
def leap (max : Nat) (c : Call) (behind : Cursor) (target : Nat) : Except Halt Next :=
  if target < c.runStart ∧ c.pointers < Name.maxPointers then do
    let there ← behind.follow target
    let pointers ← add max c.pointers 1
    return .jump behind { c with cursor := there, runStart := target, pointers }
  else .error (.error .compressionLoop)

/-- What a call does before it goes on. -/
def step (max : Nat) (c : Call) : Except Halt Next := do
  let (head, behind) ← c.cursor.head max
  match head with
  | .root => return .done behind
  | .label size => c.pass max behind size.val
  | .pointer target => c.leap max behind target

section

variable {max : Nat} {c d : Call} {behind : Cursor}

theorem next_of_pass {size : Nat} {n : Next} (h : c.pass max behind size = .ok n) :
    ∃ d, n = .label d ∧ d.pointers = c.pointers ∧
      c.spelling.wireSize < d.spelling.wireSize ∧ d.spelling.wireSize < Name.maxWireSize := by
  obtain ⟨_, -, h⟩ := except_bind_eq_ok.1 h
  obtain ⟨_, -, h⟩ := except_bind_eq_ok.1 h
  obtain ⟨⟨label, behind⟩, -, h⟩ := except_bind_eq_ok.1 h
  obtain ⟨spelling, pushed, h⟩ := except_bind_eq_ok.1 h
  cases h
  exact ⟨_, rfl, rfl, Spelling.wireSize_of_push pushed⟩

theorem next_of_leap {target : Nat} {n : Next} (h : c.leap max behind target = .ok n) :
    ∃ d, n = .jump behind d ∧ d.spelling = c.spelling ∧ d.pointers = c.pointers + 1 ∧
      c.pointers < Name.maxPointers ∧ d.runStart < c.runStart := by
  unfold leap at h
  split at h
  · next allowed =>
    obtain ⟨there, -, h⟩ := except_bind_eq_ok.1 h
    obtain ⟨pointers, counted, h⟩ := except_bind_eq_ok.1 h
    obtain ⟨-, rfl⟩ := add_eq_ok.1 counted
    cases h
    exact ⟨_, rfl, rfl, rfl, allowed.2, allowed.1⟩
  · cases h

theorem wireSize_of_label (h : c.step max = .ok (.label d)) :
    d.pointers = c.pointers ∧ c.spelling.wireSize < d.spelling.wireSize ∧
      d.spelling.wireSize < Name.maxWireSize := by
  obtain ⟨⟨head, behind⟩, -, h⟩ := except_bind_eq_ok.1 h
  cases head with
  | root => cases h
  | label size =>
      obtain ⟨_, eq, counts⟩ := next_of_pass h
      cases eq
      exact counts
  | pointer target =>
      obtain ⟨_, eq, -⟩ := next_of_leap h
      cases eq

theorem pointers_of_jump (h : c.step max = .ok (.jump behind d)) :
    d.spelling = c.spelling ∧ d.pointers = c.pointers + 1 ∧ c.pointers < Name.maxPointers ∧
      d.runStart < c.runStart := by
  obtain ⟨⟨head, behind⟩, -, h⟩ := except_bind_eq_ok.1 h
  cases head with
  | root => cases h
  | label size =>
      obtain ⟨_, eq, -⟩ := next_of_pass h
      cases eq
  | pointer target =>
      obtain ⟨_, eq, counts⟩ := next_of_leap h
      cases eq
      exact counts

end

/-- What the reading of a name may still use up. -/
def budget (c : Call) : Nat :=
  (Name.maxPointers - c.pointers) + (Name.maxWireSize - c.spelling.wireSize)

/-- The calls from here to the end of the name, what is spelled there, and the cursor behind the
run that the reading stands in. -/
def run (max : Nat) (c : Call) : List Call × Except Halt (Spelling × Cursor) :=
  match _step : c.step max with
  | .error h => ([c], .error h)
  | .ok (.done behind) => ([c], .ok (c.spelling, behind))
  | .ok (.label d) =>
    let rest := d.run max
    (c :: rest.1, rest.2)
  | .ok (.jump behind d) =>
    let rest := d.run max
    (c :: rest.1, rest.2.map fun r => (r.1, behind))
termination_by c.budget
decreasing_by
  · have := wireSize_of_label _step
    simp only [budget]
    omega
  · have counts := pointers_of_jump _step
    simp only [budget]
    rw [counts.1]
    omega

section

variable {max : Nat} {c d : Call} {behind : Cursor}

theorem run_of_error {h : Halt} (step : c.step max = .error h) : c.run max = ([c], .error h) := by
  rw [run]
  split <;> simp_all

theorem run_of_done (step : c.step max = .ok (.done behind)) :
    c.run max = ([c], .ok (c.spelling, behind)) := by
  rw [run]
  split <;> simp_all

theorem run_of_label (step : c.step max = .ok (.label d)) :
    c.run max = (c :: (d.run max).1, (d.run max).2) := by
  rw [run]
  split <;> simp_all

theorem run_of_jump (step : c.step max = .ok (.jump behind d)) :
    c.run max = (c :: (d.run max).1, (d.run max).2.map fun r => (r.1, behind)) := by
  rw [run]
  split <;> simp_all

end

/-- The call at which a walk stands when it has passed these labels. -/
def ofWalk (w : Window) (s : Walk) (labels : List Label) : Call :=
  ⟨cursorAt w s.position, s.runStart, s.pointers, .ofLabels labels⟩

end Call

/-- What a call comes to where a walk takes this step. -/
def Next.ofStep (w : Window) (labels : List Label) : Walk.Step → Next
  | .done next => .done (cursorAt w next)
  | .label l t => .label (.ofWalk w t (labels ++ [l]))
  | .jump next t => .jump (cursorAt w next) (.ofWalk w t labels)

/-! ## What walks keep to -/

/-- What is true of a walk that has passed these labels since a name began inside the window. -/
structure Keeps (w : Window) (s : Walk) (labels : List Label) : Prop where
  runStart_le : s.runStart ≤ s.position
  position_le : s.position ≤ w.stop
  passed_eq : s.passed = Label.wireSizes labels
  limits : s.WithinLimits

section

variable {max : Nat} {w : Window} {s t : Walk} {labels : List Label}

theorem keeps_start {pos : Nat} (le : pos ≤ w.stop) : Keeps w (.start pos) [] :=
  ⟨Nat.le_refl pos, le, rfl, Walk.withinLimits_start pos⟩

/-- Behind a label there is room for one more octet. -/
theorem Keeps.of_label {l : Label} (keeps : Keeps w s labels)
    (step : s.step w = .ok (.label l t)) : Keeps w t (labels ++ [l]) := by
  have limits := keeps.limits.of_label step
  obtain ⟨room, -, -, -, rfl⟩ := Walk.step_eq_label.1 step
  have begun := keeps.runStart_le
  refine ⟨?_, ?_, ?_, limits⟩
  · dsimp only
    omega
  · dsimp only
    omega
  · dsimp only
    rw [keeps.passed_eq, Label.wireSizes_concat]

/-- A pointer leads in front of a run that began inside the window. -/
theorem Keeps.of_jump {next : Nat} (keeps : Keeps w s labels)
    (step : s.step w = .ok (.jump next t)) : Keeps w t labels := by
  have limits := keeps.limits.of_jump step
  obtain ⟨target, -, backwards, -, rfl⟩ := Walk.step_eq_jump.1 step
  have begun := keeps.runStart_le
  have inside := keeps.position_le
  -- The target is in front of the old run; that it is inside the window needs no look at the octets.
  refine ⟨Nat.le_refl target, ?_, keeps.passed_eq, limits⟩
  dsimp only
  omega

theorem pass_ofWalk (words : 65535 ≤ max) (fits : w.octets.size ≤ max) (keeps : Keeps w s labels)
    {next size : Nat} (le : next ≤ w.stop) (pos : 0 < size) (short : size ≤ Label.maxSize) :
    (Call.ofWalk w s labels).pass max (cursorAt w next) size =
      if room : next + size + 1 ≤ w.stop then
        if s.passed + size + 1 < Name.maxWireSize then
          let l := .ofVector (w.slice next size (Nat.le_of_succ_le room)) pos short
          .ok (.label (.ofWalk w
            { s with position := next + size, passed := s.passed + size + 1 } (labels ++ [l])))
        else .error (.error (.form .longName))
      else .error (.error .truncated) := by
  have sum : add max size 1 = .ok (size + 1) := add_of_le (by
    simp only [Label.maxSize] at short
    omega)
  rw [Call.pass, sum, ok_bind, need_cursorAt le, ← Nat.add_assoc]
  by_cases room : next + size + 1 ≤ w.stop
  · let l := Label.ofVector (w.slice next size (Nat.le_of_succ_le room)) pos short
    have octets : (w.slice next size (Nat.le_of_succ_le room)).toArray = l.octets.toArray := rfl
    have passed := keeps.limits.passed_lt
    have grown : Label.wireSizes labels + l.wireSize = s.passed + size + 1 := by
      rw [keeps.passed_eq, Label.wireSize, Label.size_ofVector, Nat.add_assoc]
    rw [keeps.passed_eq] at passed
    rw [if_pos room, dif_pos room, ok_bind, label_cursorAt fits short (Nat.le_of_succ_le room),
      ok_bind, octets]
    dsimp only [Call.ofWalk]
    rw [Spelling.push_ofLabels words passed l, grown]
    by_cases long : s.passed + size + 1 < Name.maxWireSize
    · rw [if_pos long, if_pos long]
      rfl
    · rw [if_neg long, if_neg long]
      rfl
  · rw [if_neg room, dif_neg room]
    rfl

theorem leap_ofWalk (words : 65535 ≤ max) (keeps : Keeps w s labels) (next target : Nat) :
    (Call.ofWalk w s labels).leap max (cursorAt w next) target =
      if target < s.runStart ∧ s.pointers < Name.maxPointers then
        .ok (.jump (cursorAt w next) (.ofWalk w
          { s with position := target, runStart := target, pointers := s.pointers + 1 } labels))
      else .error (.error .compressionLoop) := by
  have begun := keeps.runStart_le
  have inside := keeps.position_le
  by_cases allowed : target < s.runStart ∧ s.pointers < Name.maxPointers
  · have counted : add max s.pointers 1 = .ok (s.pointers + 1) := add_of_le (by
      have few := allowed.2
      simp only [Name.maxPointers] at few
      omega)
    rw [if_pos allowed, Call.leap, if_pos (by exact allowed), follow_cursorAt (by omega), ok_bind]
    dsimp only [Call.ofWalk]
    rw [counted, ok_bind]
    rfl
  · rw [if_neg allowed, Call.leap, if_neg (by exact allowed)]

/-- Behind guards, a walk takes the step that it takes without them. -/
theorem step_ofWalk (words : 65535 ≤ max) (fits : w.octets.size ≤ max)
    (keeps : Keeps w s labels) :
    (Call.ofWalk w s labels).step max = lift ((s.step w).map (Next.ofStep w labels)) := by
  rw [Call.step, Walk.step]
  have here : (Call.ofWalk w s labels).cursor = cursorAt w s.position := rfl
  rw [here, head_cursorAt words fits keeps.position_le]
  cases read : LabelHead.decode w s.position with
  | error e => rfl
  | ok r =>
      obtain ⟨head, next⟩ := r
      have le := (steady_labelHead.stays keeps.position_le read).2
      simp only [Except.map, lift_ok, ok_bind]
      cases head with
      | root => rfl
      | label size =>
          dsimp only
          rw [pass_ofWalk words fits keeps le size.property.1 size.property.2]
          split
          · split <;> rfl
          · rfl
      | pointer target =>
          dsimp only
          rw [leap_ofWalk words keeps]
          split <;> rfl

/-! ## All calls -/

/-- What is true where the reading of a name in a message of `size` octets goes on by itself. -/
structure Call.Safe (max size : Nat) (c : Call) : Prop where
  /-- The run of labels began in front of the reading or where it stands. -/
  runStart_le : c.runStart ≤ c.cursor.position
  /-- The reading stands in front of its bound or there. -/
  position_le : c.cursor.position ≤ c.cursor.stop
  /-- The bound is inside the octets that are there. -/
  stop_le : c.cursor.stop ≤ c.cursor.octets.size
  /-- These are no more than those of the message. -/
  octets_le : c.cursor.octets.size ≤ size
  /-- No more pointers have been taken than are allowed. -/
  pointers_le : c.pointers ≤ 128
  /-- Each label takes its octets and the one in front of them. -/
  wireSize_eq : c.spelling.wireSize = Name.spelledSize c.spelling.labels
  /-- There is room for the root. -/
  wireSize_le : c.spelling.wireSize ≤ 254
  /-- There is no text exactly while there are no labels. -/
  text_eq_empty_iff : c.spelling.text = "" ↔ c.spelling.labels = []
  /-- If the name ends here, its text is that of its labels. -/
  finish_eq : c.spelling.finish = Name.spelledText c.spelling.labels
  /-- A name with labels is not taken for the root. -/
  finish_of_labels : c.spelling.labels ≠ [] → c.spelling.finish = c.spelling.text
  /-- A pointer begins a run in front of the one that it ends. -/
  runStart_lt : ∀ behind d, c.step max = .ok (.jump behind d) → d.runStart < c.runStart
  /-- The target of a pointer in front of the run is a position that can be gone to. -/
  seek_eq : ∀ target behind, c.cursor.head max = .ok (.pointer target, behind) →
    target < c.runStart → behind.seek target = .ok { behind with position := target }
  /-- The guards find nothing. -/
  no_fault : ∀ f, c.step max ≠ .error (.fault f)

theorem safe_ofWalk (words : 65535 ≤ max) {size : Nat} (fits : size ≤ max)
    (part : w.octets.size ≤ size) (keeps : Keeps w s labels) :
    (Call.ofWalk w s labels).Safe max size where
  runStart_le := keeps.runStart_le
  position_le := keeps.position_le
  stop_le := w.stop_le
  octets_le := part
  pointers_le := keeps.limits.pointers_le
  wireSize_eq := (Name.spelledSize_octets labels).symm
  wireSize_le := by
    have := keeps.limits.passed_lt
    rw [keeps.passed_eq] at this
    exact Nat.le_of_lt_succ this
  text_eq_empty_iff := Spelling.text_ofLabels_eq_empty.trans List.map_eq_nil_iff.symm
  finish_eq := Spelling.finish_ofLabels labels
  finish_of_labels := by
    intro some
    rw [Spelling.finish, if_neg]
    rw [String.isEmpty_iff]
    exact fun h => some (List.map_eq_nil_iff.2 (Spelling.text_ofLabels_eq_empty.1 h))
  runStart_lt := fun _ _ step => (Call.pointers_of_jump step).2.2.2
  seek_eq := by
    intro target behind read backwards
    have here : (Call.ofWalk w s labels).cursor = cursorAt w s.position := rfl
    rw [here, head_cursorAt words (Nat.le_trans part fits) keeps.position_le, lift_eq_ok] at read
    obtain ⟨⟨head, next⟩, -, eq⟩ := except_map_eq_ok.1 read
    cases eq
    exact if_pos (Nat.le_trans (Nat.le_of_lt backwards)
      (Nat.le_trans keeps.runStart_le keeps.position_le))
  no_fault := by
    intro f
    rw [step_ofWalk words (Nat.le_trans part fits) keeps]
    exact lift_ne_fault _ f

/-- Behind guards, a walk comes to what it comes to without them, and no call on the way leaves
what a walk keeps to. -/
theorem run_ofWalk (words : 65535 ≤ max) {size : Nat} (fits : size ≤ max)
    (part : w.octets.size ≤ size) (keeps : Keeps w s labels) :
    (∀ c ∈ ((Call.ofWalk w s labels).run max).1, c.Safe max size) ∧
      ((Call.ofWalk w s labels).run max).2 =
        lift ((s.run w).map fun r => (.ofLabels (labels ++ r.1), cursorAt w r.2)) := by
  have safe {s : Walk} {labels : List Label} (keeps : Keeps w s labels) :=
    safe_ofWalk words fits part keeps
  have steps {s : Walk} {labels : List Label} (keeps : Keeps w s labels) :=
    step_ofWalk words (Nat.le_trans part fits) keeps
  -- On the steps of the walk. The labels that it has passed grow on the way.
  fun_induction Walk.run w s generalizing labels with
  | case1 s e failed =>
      have step := steps keeps
      rw [failed] at step
      rw [Call.run_of_error step]
      exact ⟨List.forall_mem_singleton.2 (safe keeps), rfl⟩
  | case2 s next ends =>
      have step := steps keeps
      rw [ends] at step
      rw [Call.run_of_done step]
      refine ⟨List.forall_mem_singleton.2 (safe keeps), ?_⟩
      simp [Except.map, Call.ofWalk]
  | case3 s l behind passes ih =>
      have step := steps keeps
      rw [passes] at step
      obtain ⟨later, rest⟩ := ih (keeps.of_label passes)
      rw [Call.run_of_label step, rest]
      refine ⟨List.forall_mem_cons.2 ⟨safe keeps, later⟩, ?_⟩
      cases behind.run w <;> simp [Except.map]
  | case4 s next there jumps ih =>
      have step := steps keeps
      rw [jumps] at step
      obtain ⟨later, rest⟩ := ih (keeps.of_jump jumps)
      rw [Call.run_of_jump step, rest]
      refine ⟨List.forall_mem_cons.2 ⟨safe keeps, later⟩, ?_⟩
      cases there.run w <;> simp [Except.map]

end

end DnsWire.Guarded

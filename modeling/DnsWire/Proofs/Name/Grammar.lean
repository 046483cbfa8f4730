import DnsWire.Proofs.Name.Step

/-!
# The grammar of names

`Name.Spells` says what a name is in a message, as a relation on octets: labels one behind the
other, each run of them ended by a zero octet or by a pointer to a run further up. It counts
pointers and knows nothing of budgets, steps or errors. Reading a name succeeds exactly on what
the relation allows, within 128 pointers and 254 octets of labels (`decodeAt_eq_ok_iff_spells`).

## Proof shape

A walk keeps the pointers taken and the octets passed *before* its position, the relation counts
those *behind* it. Both directions therefore speak of a walk in the midst of a name and add the
two counts up: `spells_of_run` follows the walk (`Walk.run_induction`), `run_of_spells` follows
the derivation.
-/

namespace DnsWire

namespace Name

/-- The octets spell labels from `pos` on, in a run that began at `runStart`. Only octets below
`bound` count. Some number of pointers is taken, and `next` is the position behind the run. -/
inductive Spells (octets : Array UInt8) (bound : Nat) :
    (runStart pos : Nat) → (labels : List (List UInt8)) → (pointers next : Nat) → Prop
  /-- A zero octet ends the name. -/
  | root {runStart pos : Nat} (room : pos + 1 ≤ bound) (zero : octets[pos]? = some 0) :
      Spells octets bound runStart pos [] 0 (pos + 1)
  /-- An octet between 1 and 63 gives the size of a label, which follows; at least one octet more
  has to be there. -/
  | label {runStart pos pointers next : Nat} {size : UInt8} {label : List UInt8}
      {labels : List (List UInt8)} (at_pos : octets[pos]? = some size) (size_pos : 1 ≤ size.toNat)
      (size_le : size.toNat ≤ 63) (room : pos + 1 + size.toNat + 1 ≤ bound)
      (content : (octets.extract (pos + 1) (pos + 1 + size.toNat)).toList = label)
      (rest : Spells octets bound runStart (pos + 1 + size.toNat) labels pointers next) :
      Spells octets bound runStart pos (label :: labels) pointers next
  /-- An octet with its two high bits set begins a pointer. The other fourteen bits of the pointer
  are an offset in front of the run, and a new run begins there. -/
  | pointer {runStart pos target pointers behind : Nat} {high low : UInt8}
      {labels : List (List UInt8)} (room : pos + 2 ≤ bound) (at_pos : octets[pos]? = some high)
      (mark : 0xC0 ≤ high) (at_next : octets[pos + 1]? = some low)
      (offset : target = 256 * (high.toNat % 64) + low.toNat) (backwards : target < runStart)
      (rest : Spells octets bound target target labels pointers behind) :
      Spells octets bound runStart pos labels (pointers + 1) (pos + 2)

/-- The number of octets of labels in wire format, each with its size in front. -/
def spelledSize : List (List UInt8) → Nat
  | [] => 0
  | label :: labels => label.length + 1 + spelledSize labels

/-- Labels as text: each read as UTF-8 on its own, with dots in between. -/
def spelledText (labels : List (List UInt8)) : String :=
  if labels = [] then "."
  else ".".intercalate (labels.map fun label => String.ofList (Utf8.decode label))

/-! ## Labels and their octets -/

theorem spelledSize_octets (labels : List Label) :
    spelledSize (labels.map Label.octets) = Label.wireSizes labels := by
  induction labels with
  | nil => rfl
  | cons l labels ih =>
      rw [Label.wireSizes_cons, ← ih]
      rfl

theorem text_eq_spelledText (n : Name) : n.text = spelledText (n.labels.map Label.octets) := by
  rw [text, textOf, spelledText]
  by_cases h : n.labels = []
  · simp [h]
  -- One side joins strings, the other one the characters of strings.
  · rw [if_neg (by simpa using h), if_neg (by simpa using h), ← String.toList_inj,
      String.toList_intercalate]
    simp only [List.map_map, Function.comp_def, String.toList_ofList]
    rfl

/-! ## Walks and derivations -/

/-- What a walk passes on its way to the end is a derivation. -/
theorem spells_of_run {w : Window} {s : Walk} {labels : List Label} {next : Nat}
    (few : s.pointers ≤ maxPointers) (h : s.run w = .ok (labels, next)) :
    ∃ pointers, Spells w.octets w.stop s.runStart s.position (labels.map Label.octets)
      pointers next ∧ s.pointers + pointers ≤ maxPointers := by
  revert few
  refine Walk.run_induction (motive := fun s labels next => s.pointers ≤ maxPointers →
    ∃ pointers, Spells w.octets w.stop s.runStart s.position (labels.map Label.octets)
      pointers next ∧ s.pointers + pointers ≤ maxPointers) ?_ ?_ ?_ h
  · intro s next step few
    obtain ⟨room, zero, rfl⟩ := Walk.step_eq_done.1 step
    exact ⟨0, .root room zero, few⟩
  · intro s t l labels next step _ ih few
    obtain ⟨room, at_pos, content, -, rfl⟩ := Walk.step_eq_label.1 step
    obtain ⟨pointers, rest, sum⟩ := ih few
    have size := Label.toNat_ofNat_size l.size_le
    have behind : s.position + l.wireSize = s.position + 1 + l.size := by
      simp only [Label.wireSize]
      omega
    rw [behind] at room content rest
    exact ⟨pointers, .label at_pos (size ▸ l.size_pos) (size ▸ l.size_le) (size ▸ room)
      (size ▸ content) (size ▸ rest), sum⟩
  · intro s t labels next behind step _ ih few
    obtain ⟨target, read, backwards, fewer, rfl⟩ := Walk.step_eq_jump.1 step
    obtain ⟨room, high, low, at_pos, at_next, mark, rfl, rfl⟩ := LabelHead.decode_eq_pointer.1 read
    -- The target begins a run of its own, so the derivation behind it starts where it stands.
    obtain ⟨pointers, rest, sum⟩ := ih fewer
    refine ⟨pointers + 1, .pointer room at_pos mark at_next rfl backwards rest, ?_⟩
    simp only at sum
    omega

/-- The octets that the relation takes for a label are of a size that a label may have. -/
theorem exists_label_of_content {w : Window} {pos : Nat} {size : UInt8} {label : List UInt8}
    (size_pos : 1 ≤ size.toNat) (size_le : size.toNat ≤ 63)
    (room : pos + 1 + size.toNat + 1 ≤ w.stop)
    (content : (w.octets.extract (pos + 1) (pos + 1 + size.toNat)).toList = label) :
    ∃ l : Label, l.octets = label ∧ UInt8.ofNat l.size = size ∧
      pos + l.wireSize = pos + 1 + size.toNat := by
  have length : label.length = size.toNat := by
    have := w.stop_le
    rw [← content]
    simp only [Array.length_toList, Array.size_extract]
    omega
  refine ⟨⟨label, by omega, by simp only [Label.maxSize]; omega⟩, rfl, ?_, ?_⟩
  · simp [Label.size, length]
  · simp only [Label.wireSize, Label.size]
    omega

/-- What a derivation spells is passed by every walk that can afford it. -/
theorem run_of_spells {w : Window} {runStart pos pointers next : Nat}
    {spelled : List (List UInt8)} (h : Spells w.octets w.stop runStart pos spelled pointers next) :
    ∀ s : Walk, s.position = pos → s.runStart = runStart → s.pointers + pointers ≤ maxPointers →
      s.passed + spelledSize spelled < maxWireSize →
      ∃ labels, labels.map Label.octets = spelled ∧ s.run w = .ok (labels, next) := by
  induction h with
  | root room zero =>
      intro s here _ _ _
      subst here
      exact ⟨[], rfl, Walk.run_of_done (Walk.step_eq_done.2 ⟨room, zero, rfl⟩)⟩
  | @label runStart pos pointers next size label labels at_pos size_pos size_le room content rest
      ih =>
      intro s here begun few fits
      subst here begun
      obtain ⟨l, rfl, rfl, behind⟩ := exists_label_of_content size_pos size_le room content
      have passed : s.passed + l.wireSize + spelledSize labels < maxWireSize := by
        simp only [spelledSize] at fits
        simp only [Label.wireSize, Label.size]
        omega
      let t : Walk :=
        { s with position := s.position + l.wireSize, passed := s.passed + l.wireSize }
      have step : s.step w = .ok (.label l t) :=
        Walk.step_eq_label.2 ⟨by omega, at_pos, by rw [behind]; exact content, by omega, rfl⟩
      obtain ⟨tail, octets, run⟩ := ih t behind rfl few passed
      refine ⟨l :: tail, by simp [octets], ?_⟩
      rw [Walk.run_of_label step, run]
      rfl
  | @pointer runStart pos target pointers behind high low labels room at_pos mark at_next offset
      backwards rest ih =>
      intro s here begun few fits
      subst here begun
      let t : Walk :=
        { s with position := target, runStart := target, pointers := s.pointers + 1 }
      have read : LabelHead.decode w s.position = .ok (.pointer target, s.position + 2) :=
        LabelHead.decode_eq_pointer.2 ⟨room, high, low, at_pos, at_next, mark, offset, rfl⟩
      have step : s.step w = .ok (.jump (s.position + 2) t) :=
        Walk.step_eq_jump.2 ⟨target, read, backwards, by omega, rfl⟩
      obtain ⟨tail, octets, run⟩ := ih t rfl rfl (by simp only [t]; omega) fits
      refine ⟨tail, octets, ?_⟩
      rw [Walk.run_of_jump step, run]
      rfl

theorem spells_of_decode {w : Window} {pos next : Nat} {n : Name}
    (h : decode w pos = .ok (n, next)) :
    ∃ pointers, Spells w.octets w.stop pos pos (n.labels.map Label.octets) pointers next ∧
      pointers ≤ maxPointers := by
  obtain ⟨pointers, spells, few⟩ := spells_of_run (Nat.zero_le _) (decode_eq_ok.1 h)
  exact ⟨pointers, spells, by simpa [Walk.start] using few⟩

theorem decode_of_spells {w : Window} {pos pointers next : Nat} {spelled : List (List UInt8)}
    (h : Spells w.octets w.stop pos pos spelled pointers next) (few : pointers ≤ maxPointers)
    (fits : spelledSize spelled < maxWireSize) :
    ∃ n : Name, n.labels.map Label.octets = spelled ∧ decode w pos = .ok (n, next) := by
  obtain ⟨labels, octets, run⟩ := run_of_spells h (Walk.start pos) rfl rfl
    (by simpa [Walk.start] using few) (by simpa [Walk.start] using fits)
  exact ⟨⟨labels, Walk.fits_of_run_start run⟩, octets, decode_eq_ok.2 run⟩

/-- **The grammar of names.** The name at `start`, where nothing from `stop` on is read, is read
exactly when there are two octets and they begin a walk that comes to an end, takes at most 128
pointers and passes at most 254 octets of labels. The text is that of the labels on the way, and
the position is the one behind the run that begins at `start`. -/
theorem decodeAt_eq_ok_iff_spells (octets : Array UInt8) (start stop : Nat) (text : String)
    (next : Nat) :
    decodeAt octets start stop = .ok (text, next) ↔
      start + 2 ≤ min stop octets.size ∧
        ∃ labels pointers, Spells octets (min stop octets.size) start start labels pointers next ∧
          pointers ≤ 128 ∧ spelledSize labels ≤ 254 ∧ text = spelledText labels := by
  unfold decodeAt
  dsimp only [Window.upTo]
  by_cases two : start + 2 ≤ min stop octets.size
  · rw [if_pos two, decodeText, Decoder.map_eq_ok]
    constructor
    · intro h
      obtain ⟨n, read, rfl⟩ := h
      obtain ⟨pointers, spells, few⟩ := spells_of_decode read
      refine ⟨two, _, pointers, spells, few, ?_, text_eq_spelledText n⟩
      have fits := n.fits
      rw [spelledSize_octets]
      simp only [maxWireSize] at fits
      omega
    · intro h
      obtain ⟨-, labels, pointers, spells, few, fits, rfl⟩ := h
      obtain ⟨n, rfl, read⟩ := decode_of_spells (w := Window.upTo octets stop) spells few
        (Nat.lt_succ_of_le fits)
      exact ⟨n, read, text_eq_spelledText n⟩
  · rw [if_neg two]
    simp [two]

end Name

end DnsWire

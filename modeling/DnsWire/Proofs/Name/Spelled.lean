import DnsWire.Proofs.Name.Grammar
import DnsWire.Proofs.Name.Wire

/-!
# What is spelled decides what is read

At most one sequence of labels is spelled at a position (`Spells.unique`), and where a run of them
ends depends on the octets of the run alone (`Spells.next_unique`). Where one is spelled, and it
takes no more pointers than allowed, reading has two outcomes and no third one: the text of the
labels, or the error for a name that is too long (`decodeText_of_spells`). So a statement about
reading a name needs no walk: it is enough to say what is spelled.

Names that were written without pointers, and labels in front of anything that is spelled, are
spelled where their octets stand (`spells_of_shows`, `Spells.prepend`).
-/

namespace DnsWire

namespace Name

variable {octets : Array UInt8} {w : Window} {bound runStart pos pointers next : Nat}
  {spelled : List (List UInt8)}

/-! ## One position, one name -/

/-- A pointer and the size of a label have different high bits. -/
theorem size_ne_mark {size : UInt8} (le : size.toNat ≤ 63) : ¬ 0xC0 ≤ size := by
  intro mark
  have := UInt8.le_iff_toNat_le.1 mark
  simp only [UInt8.reduceToNat] at this
  omega

theorem Spells.pos_lt_next (h : Spells octets bound runStart pos spelled pointers next) :
    pos < next := by
  induction h with
  | root => exact Nat.lt_succ_self _
  | label _ _ _ _ _ _ ih => omega
  | pointer => omega

/-- Where the octets up to the end of a run are the same, a run ends in the same place, and if the
others are the same too, so is what is spelled. -/
theorem Spells.next_unique {octets' : Array UInt8} {bound' runStart' pointers' next' : Nat}
    {spelled' : List (List UInt8)} (h : Spells octets bound runStart pos spelled pointers next)
    (h' : Spells octets' bound' runStart' pos spelled' pointers' next')
    (agree : ∀ i, i < next → octets[i]? = octets'[i]?) :
    next = next' ∧ (octets = octets' → spelled = spelled' ∧ pointers = pointers') := by
  induction h generalizing bound' runStart' pointers' next' spelled' with
  | root room zero =>
      rw [agree _ (Nat.lt_succ_self _)] at zero
      cases h' with
      | root => exact ⟨rfl, fun _ => ⟨rfl, rfl⟩⟩
      | label at_pos size_pos =>
          cases zero.symm.trans at_pos
          cases size_pos
      | pointer _ at_pos mark =>
          cases zero.symm.trans at_pos
          exact absurd mark (by decide)
  | label at_pos size_pos size_le _ content rest ih =>
      have := rest.pos_lt_next
      rw [agree _ (by omega)] at at_pos
      cases h' with
      | root _ zero =>
          cases at_pos.symm.trans zero
          cases size_pos
      | label at_pos' _ _ _ content' rest' =>
          cases at_pos.symm.trans at_pos'
          obtain ⟨rfl, same⟩ := ih rest' agree
          refine ⟨rfl, fun eq => ?_⟩
          subst eq
          obtain ⟨rfl, rfl⟩ := same rfl
          exact ⟨by rw [← content, ← content'], rfl⟩
      | pointer _ at_pos' mark =>
          cases at_pos.symm.trans at_pos'
          exact absurd mark (size_ne_mark size_le)
  | pointer _ at_pos mark at_next offset _ rest ih =>
      rw [agree _ (by omega)] at at_pos at_next
      cases h' with
      | root _ zero =>
          cases at_pos.symm.trans zero
          exact absurd mark (by decide)
      | label at_pos' _ size_le =>
          cases at_pos.symm.trans at_pos'
          exact absurd mark (size_ne_mark size_le)
      | pointer _ at_pos' _ at_next' offset' _ rest' =>
          refine ⟨rfl, fun eq => ?_⟩
          subst eq
          cases at_pos.symm.trans at_pos'
          cases at_next.symm.trans at_next'
          cases offset.trans offset'.symm
          obtain ⟨-, same⟩ := ih rest' fun _ _ => rfl
          obtain ⟨rfl, rfl⟩ := same rfl
          exact ⟨rfl, rfl⟩

theorem Spells.unique {bound' runStart' pointers' next' : Nat} {spelled' : List (List UInt8)}
    (h : Spells octets bound runStart pos spelled pointers next)
    (h' : Spells octets bound' runStart' pos spelled' pointers' next') :
    spelled = spelled' ∧ pointers = pointers' ∧ next = next' := by
  obtain ⟨rfl, same⟩ := h.next_unique h' fun _ _ => rfl
  obtain ⟨rfl, rfl⟩ := same rfl
  exact ⟨rfl, rfl, rfl⟩

theorem Spells.room (h : Spells octets bound runStart pos spelled pointers next) :
    pos < bound := by
  cases h <;> omega

/-! ## The two outcomes -/

/-- What is spelled and takes more octets than a name may have is reported as such by every walk
that has the pointers to pass it. -/
theorem run_of_longName (h : Spells w.octets w.stop runStart pos spelled pointers next) :
    ∀ s : Walk, s.position = pos → s.runStart = runStart → s.pointers + pointers ≤ maxPointers →
      s.passed < maxWireSize → maxWireSize ≤ s.passed + spelledSize spelled →
      s.run w = .error (.form .longName) := by
  induction h with
  | root =>
      intro s _ _ _ fits long
      simp only [spelledSize] at long
      omega
  | label at_pos size_pos size_le room content rest ih =>
      intro s here begun few _ long
      subst here begun
      obtain ⟨l, rfl, rfl, behind⟩ := exists_label_of_content size_pos size_le room content
      -- The walk stops at the first label that it has no room for, which may be this one.
      by_cases fits : s.passed + l.wireSize < maxWireSize
      · let t : Walk :=
          { s with position := s.position + l.wireSize, passed := s.passed + l.wireSize }
        have step : s.step w = .ok (.label l t) :=
          Walk.step_eq_label.2 ⟨by omega, at_pos, by rw [behind]; exact content, fits, rfl⟩
        rw [Walk.run_of_label step, ih t behind rfl few fits]
        · rfl
        · simp only [spelledSize] at long
          simp only [t, Label.wireSize, Label.size]
          omega
      · exact Walk.run_of_error (Walk.step_of_longName (by omega) at_pos (by omega))
  | @pointer runStart pos target pointers behind high low labels room at_pos mark at_next offset
      backwards rest ih =>
      intro s here begun few fits long
      subst here begun
      let t : Walk :=
        { s with position := target, runStart := target, pointers := s.pointers + 1 }
      have read : LabelHead.decode w s.position = .ok (.pointer target, s.position + 2) :=
        LabelHead.decode_eq_pointer.2 ⟨room, high, low, at_pos, at_next, mark, offset, rfl⟩
      have step : s.step w = .ok (.jump (s.position + 2) t) :=
        Walk.step_eq_jump.2 ⟨target, read, backwards, by omega, rfl⟩
      rw [Walk.run_of_jump step, ih t rfl rfl (by simp only [t]; omega) fits long]
      rfl

/-- **What is spelled decides what is read:** its labels, or that they are too long for a name. -/
theorem decodeText_of_spells (h : Spells w.octets w.stop pos pos spelled pointers next)
    (few : pointers ≤ maxPointers) :
    decodeText w pos =
      if spelledSize spelled < maxWireSize then .ok (spelledText spelled, next)
      else .error (.form .longName) := by
  split
  · next fits =>
      obtain ⟨n, rfl, read⟩ := decode_of_spells h few fits
      exact Decoder.map_eq_ok.2 ⟨n, read, text_eq_spelledText n⟩
  · next long =>
      have run := run_of_longName h (Walk.start pos) rfl rfl (by simpa [Walk.start] using few)
        (Nat.zero_lt_succ _) (by simpa [Walk.start] using long)
      exact Decoder.bind_eq_error.2 (Or.inl (decode_eq_error.2 run))

/-- A name with this text stands in the window from `pos` on, and its octets there end at `next`. -/
def Stands (w : Window) (pos next : Nat) (text : String) : Prop :=
  ∃ labels pointers, Spells w.octets w.stop pos pos labels pointers next ∧
    pointers ≤ maxPointers ∧ spelledSize labels < maxWireSize ∧ text = spelledText labels

/-- A name is read exactly where it stands. -/
theorem decodeText_eq_ok {text : String} :
    decodeText w pos = .ok (text, next) ↔ Stands w pos next text := by
  refine ⟨fun h => ?_, fun h => ?_⟩
  · obtain ⟨n, read, rfl⟩ := Decoder.map_eq_ok.1 h
    obtain ⟨pointers, spells, few⟩ := spells_of_decode read
    refine ⟨_, pointers, spells, few, ?_, text_eq_spelledText n⟩
    rw [spelledSize_octets]
    exact n.fits
  · obtain ⟨labels, pointers, spells, few, fits, rfl⟩ := h
    rw [decodeText_of_spells spells few, if_pos fits]

/-- Where two octets are open to reading, the rule that asks for them says no more. -/
theorem decodeAt_of_room {start stop : Nat} (two : start + 2 ≤ min stop octets.size) :
    decodeAt octets start stop = decodeText (Window.upTo octets stop) start :=
  if_pos two

theorem room_of_decodeAt {start stop : Nat} {text : String}
    (h : decodeAt octets start stop = .ok (text, next)) : start + 2 ≤ min stop octets.size := by
  by_cases two : start + 2 ≤ min stop octets.size
  · exact two
  · cases (if_neg two).symm.trans h

/-- What is read is the text of what is spelled. -/
theorem exists_name_of_spells {stop behind : Nat} {text : String}
    (read : decodeAt octets pos stop = .ok (text, behind))
    (h : Spells octets (min stop octets.size) pos pos spelled pointers next) :
    ∃ n : Name, n.labels.map Label.octets = spelled ∧ n.text = text := by
  rw [decodeAt_of_room (room_of_decodeAt read)] at read
  obtain ⟨n, named, rfl⟩ := Decoder.map_eq_ok.1 read
  obtain ⟨_, spells, -⟩ := spells_of_decode named
  exact ⟨n, (spells.unique h).1, rfl⟩

/-! ## What was written is spelled -/

/-- Labels in wire format without pointers: each behind its size, and a zero octet at the end. -/
def spelledWire (labels : List (List UInt8)) : List UInt8 :=
  labels.flatMap (fun label => UInt8.ofNat label.length :: label) ++ [0]

theorem spelledWire_octets (labels : List Label) :
    spelledWire (labels.map Label.octets) = labels.flatMap Label.wire ++ [0] := by
  rw [spelledWire, List.flatMap_map]
  rfl

/-- Labels in front of what is spelled are spelled with it. -/
theorem Spells.prepend {labels : List Label} (shows : w.Shows pos (labels.flatMap Label.wire))
    (h : Spells w.octets w.stop runStart (pos + Label.wireSizes labels) spelled pointers next) :
    Spells w.octets w.stop runStart pos (labels.map Label.octets ++ spelled) pointers next := by
  induction labels generalizing pos with
  | nil => exact h
  | cons l labels ih =>
      rw [List.flatMap_cons, Window.shows_append, Label.length_wire] at shows
      obtain ⟨⟨at_pos, content⟩, behind⟩ := shows
      rw [Label.wireSizes_cons, ← Nat.add_assoc] at h
      have size : (UInt8.ofNat l.size).toNat = l.size := Label.toNat_ofNat_size l.size_le
      have rest := ih behind h
      have room := rest.room
      have behind : pos + l.wireSize = pos + 1 + (UInt8.ofNat l.size).toNat := by
        rw [size, Label.wireSize]
        omega
      rw [behind] at rest room
      have octets := (Window.shows_iff.1 content).2
      rw [← Label.size, ← size] at octets
      refine .label at_pos ?_ ?_ room octets rest
      · rw [size]
        exact l.size_pos
      · rw [size]
        exact l.size_le

/-- Labels with a zero octet behind them are spelled, whatever run they belong to. -/
theorem spells_of_shows {labels : List Label}
    (shows : w.Shows pos (labels.flatMap Label.wire ++ [0])) :
    Spells w.octets w.stop runStart pos (labels.map Label.octets) 0
      (pos + Label.wireSizes labels + 1) := by
  obtain ⟨front, zero, room⟩ := Window.shows_append.1 shows
  rw [Label.length_flatMap_wire] at zero room
  simpa using Spells.prepend front (.root room zero)

end Name

end DnsWire

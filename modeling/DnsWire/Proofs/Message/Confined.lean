import DnsWire.Message.Basic
import DnsWire.Proofs.Decoder.Confined
import DnsWire.Proofs.Name.Step

/-!
# No part of a message is read beyond its window

Names, questions and records are steady readers: with fewer octets they run out of octets or give
the same answer. Record data alone is confined, since strings and data of unknown types end where
their window does; the size in front of it turns it into a steady reader again.

A pointer does not spoil this. It leads in front of the run of labels that it ends, so every
position of a walk is below the bound whenever the position where it began is.
-/

namespace DnsWire

open Decoder

/-! ## Names -/

theorem steady_labelHead : Steady LabelHead.decode := by
  refine steady_octet.bind fun first => ?_
  split
  · exact Steady.pure _
  split
  · exact Steady.pure _
  split
  · exact steady_fail nofun
  · exact steady_octet.bind fun second => Steady.pure _

namespace Walk

/-- A walk ends behind the position where it stands. -/
theorem stays_of_run {w : Window} {s : Walk} {labels : List Label} {next : Nat}
    (h : s.run w = .ok (labels, next)) : s.position < next ∧ next ≤ w.stop := by
  refine run_induction (motive := fun s _ next => s.position < next ∧ next ≤ w.stop) ?_ ?_ ?_ h
  · intro s next step
    obtain ⟨room, -, rfl⟩ := step_eq_done.1 step
    exact ⟨Nat.lt_succ_self _, room⟩
  · intro s t l labels next step _ ih
    obtain ⟨-, -, -, -, rfl⟩ := step_eq_label.1 step
    exact ⟨Nat.lt_of_le_of_lt (Nat.le_add_right _ _) ih.1, ih.2⟩
  · intro s t labels next behind step _ _
    obtain ⟨target, read, -, -, -⟩ := step_eq_jump.1 step
    obtain ⟨room, _, _, -, -, -, -, rfl⟩ := LabelHead.decode_eq_pointer.1 read
    exact ⟨by omega, room⟩

theorem step_ne_tooShort (w : Window) (s : Walk) : s.step w ≠ .error .tooShort := by
  intro h
  unfold step at h
  split at h
  · next e read =>
    cases h
    exact steady_labelHead.errs w s.position read
  · cases h
  · split at h
    · split at h <;> cases h
    · cases h
  · split at h <;> cases h

theorem run_ne_tooShort (w : Window) (s : Walk) : s.run w ≠ .error .tooShort := by
  fun_induction run w s with
  | case1 s e step =>
      intro h
      cases h
      exact step_ne_tooShort w s step
  | case2 s next step =>
      intro h
      cases h
  | case3 s l behind step ih => exact fun h => ih (except_map_eq_error.1 h)
  | case4 s next there step ih => exact fun h => ih (except_map_eq_error.1 h)

theorem cut_of_step {w v : Window} (begins : w.Begins v) (s : Walk) :
    s.step w = .error .truncated ∨ s.step w = s.step v := by
  unfold step
  rcases steady_labelHead.cut begins s.position with short | eq
  · rw [short]
    exact Or.inl rfl
  rw [eq]
  rcases LabelHead.decode v s.position with e | ⟨head, next⟩
  · exact Or.inr rfl
  cases head with
  | root => exact Or.inr rfl
  | pointer target => exact Or.inr rfl
  | label size =>
      dsimp only
      -- Room is asked for before the length of the name, so a name that is too long under one
      -- bound is never one that is too long under another for lack of octets.
      by_cases room : next + size.val + 1 ≤ w.stop
      · refine Or.inr ?_
        rw [dif_pos room, dif_pos (Nat.le_trans room begins.stop_le), begins.slice_eq]
      · exact Or.inl (dif_neg room)

/-- A step that does not fail at the nearer bound is the same at the farther one. -/
theorem step_of_begins {w v : Window} (begins : w.Begins v) {s : Walk} {r : Step}
    (h : s.step w = .ok r) : s.step v = .ok r := by
  rcases cut_of_step begins s with short | eq
  · rw [h] at short
    cases short
  · exact eq.symm.trans h

theorem cut_of_run {w v : Window} (begins : w.Begins v) (s : Walk) :
    s.run w = .error .truncated ∨ s.run w = s.run v := by
  fun_induction run w s with
  | case1 s e step =>
      rcases cut_of_step begins s with short | eq
      · rw [step] at short
        cases short
        exact Or.inl rfl
      · exact Or.inr (run_of_error (eq.symm.trans step)).symm
  | case2 s next step => exact Or.inr (run_of_done (step_of_begins begins step)).symm
  | case3 s l behind step ih =>
      rw [run_of_label (step_of_begins begins step)]
      exact except_map_cut ih
  | case4 s next there step ih =>
      rw [run_of_jump (step_of_begins begins step)]
      exact except_map_cut ih

end Walk

theorem steady_name : Steady Name.decode where
  stays := by
    intro w pos next n _ h
    have := Walk.stays_of_run (Name.decode_eq_ok.1 h)
    exact ⟨Nat.le_of_lt this.1, this.2⟩
  errs := fun w pos h => Walk.run_ne_tooShort w _ (Name.decode_eq_error.1 h)
  cut := by
    intro w v begins pos
    rcases Walk.cut_of_run begins (Walk.start pos) with short | eq
    · exact Or.inl (Name.decode_eq_error.2 short)
    · refine Or.inr ?_
      cases read : Name.decode v pos with
      | error e => exact Name.decode_eq_error.2 (eq.trans (Name.decode_eq_error.1 read))
      | ok r => exact Name.decode_eq_ok.2 (eq.trans (Name.decode_eq_ok.1 read))

theorem steady_nameText : Steady Name.decodeText :=
  steady_name.map Name.text

/-! ## Questions and records -/

theorem steady_question : Steady Question.decode :=
  steady_nameText.bind fun _ => steady_word16.bind fun _ => steady_word16.bind fun _ =>
    Steady.pure _

theorem steady_recordHeader : Steady RecordHeader.decode :=
  steady_nameText.bind fun _ => steady_word16.bind fun _ => steady_word16.bind fun _ =>
    steady_word32.bind fun _ => steady_word16.bind fun _ => Steady.pure _

theorem confined_characterStrings : Confined CharacterStrings.decode := by
  refine confined_rest.bind fun octets => ?_
  have short : Steady (fail .truncated : Decoder (List (List UInt8))) := steady_fail nofun
  cases CharacterStrings.split octets with
  | none => exact short.confined
  | some strings => exact (Steady.pure strings).confined

/-- Whatever the type, record data is looked for inside its window alone. -/
theorem confined_recordData (type : RecordType) : Confined (RecordData.reader type) := by
  have pure (data : RecordData) : Confined (Pure.pure data : Decoder RecordData) :=
    (Steady.pure data).confined
  unfold RecordData.reader
  split
  · exact (steady_vector 4).confined.bind fun _ => pure _
  split
  · exact (steady_vector 16).confined.bind fun _ => pure _
  split
  · exact steady_nameText.confined.bind fun _ => pure _
  split
  · exact (steady_word16.bind fun _ => steady_nameText.bind fun _ => Steady.pure _).confined
  split
  · exact confined_characterStrings.bind fun _ => pure _
  · exact confined_rest.bind fun _ => pure _

theorem steady_recordData (type : RecordType) (size : Nat) :
    Steady (RecordData.decode type size) :=
  (confined_recordData type).filling size

theorem steady_record : Steady Record.decode :=
  steady_recordHeader.bind fun h => (steady_recordData h.type h.dataSize.toNat).bind fun _ =>
    Steady.pure _

/-! ## The header section -/

theorem steady_headerSection : Steady HeaderSection.decode := by
  have header : Steady Header.decode := (steady_vector 4).bind fun _ => Steady.pure _
  have counts : Steady Counts.decode := (steady_vector 8).bind fun _ => Steady.pure _
  exact header.bind fun _ => counts.bind fun _ => Steady.pure _

end DnsWire

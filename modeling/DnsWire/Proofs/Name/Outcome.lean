import Mathlib.Algebra.GroupWithZero.Nat
import DnsWire.Proofs.Name.HostName

/-!
# Which host names are written

A host name is as good as its parts, the pieces between its dots: each has to make a label, and
together they have to fit into a name. There is one outcome for each way of missing this
(`Name.encode_outcomes`), and parts come before their sum: a name that is too long is reported as
such only if every part makes a label.

Among the parts, the leftmost one that makes no label decides. That is how any sequence of
conversions fails (`except_mapM_eq_error`); what is left to say is how one part does
(`Label.ofText_eq_error`).
-/

namespace DnsWire

namespace Label

/-- A part of a host name makes a label: it has between 1 and 63 octets in UTF-8. -/
def Admits (part : List Char) : Prop :=
  1 ≤ (Utf8.encode part).length ∧ (Utf8.encode part).length ≤ 63

instance (part : List Char) : Decidable (Admits part) :=
  inferInstanceAs (Decidable (_ ∧ _))

theorem exists_ofText_iff {part : List Char} : (∃ l, ofText part = .ok l) ↔ Admits part := by
  simp only [ofText_eq_ok]
  refine ⟨fun h => ?_, fun h => ⟨⟨_, h.1, h.2⟩, rfl⟩⟩
  obtain ⟨l, octets⟩ := h
  rw [Admits, octets]
  exact ⟨l.size_pos, l.size_le⟩

theorem ofText_eq_error {part : List Char} {e : EncodeError} :
    ofText part = .error e ↔
      part = [] ∧ e = .emptyLabel ∨ 63 < (Utf8.encode part).length ∧ e = .labelTooLong := by
  rw [← Utf8.encode_eq_nil, ← List.length_eq_zero_iff]
  unfold ofText
  dsimp only
  split
  · next some =>
    have some := Nat.ne_of_gt some
    split
    · next fits =>
      have short : ¬63 < (Utf8.encode part).length := Nat.not_lt.2 fits
      simp only [some, short, false_and, or_false, reduceCtorEq]
    · next long =>
      have long : 63 < (Utf8.encode part).length := Nat.not_le.1 long
      simp only [some, long, false_and, true_and, false_or, Except.error.injEq, eq_comm]
  · next none =>
    have none := Nat.eq_zero_of_not_pos none
    simp only [none, Nat.not_lt_zero, false_and, true_and, or_false, Except.error.injEq, eq_comm]

/-- The leftmost part that makes no label decides the error. -/
theorem mapM_ofText_eq_error {parts : List (List Char)} {e : EncodeError} :
    parts.mapM ofText = .error e ↔
      ∃ front part behind, parts = front ++ part :: behind ∧
        (part = [] ∧ e = .emptyLabel ∨ 63 < (Utf8.encode part).length ∧ e = .labelTooLong) ∧
        ∀ p ∈ front, Admits p := by
  simp only [except_mapM_eq_error, exists_ofText_iff, ofText_eq_error]

theorem exists_mapM_ofText_iff {parts : List (List Char)} :
    (∃ labels, parts.mapM ofText = .ok labels) ↔ ∀ part ∈ parts, Admits part := by
  refine ⟨fun h => ?_, fun all => ?_⟩
  · obtain ⟨labels, read⟩ := h
    intro part mem
    have octets : Utf8.encode part ∈ labels.map octets := by
      rw [← mapM_ofText_eq_ok.1 read]
      exact List.mem_map_of_mem mem
    obtain ⟨l, -, same⟩ := List.mem_map.1 octets
    exact exists_ofText_iff.1 ⟨l, ofText_eq_ok.2 same.symm⟩
  · -- A part that stops the conversion would be one that makes no label.
    cases read : parts.mapM ofText with
    | ok labels => exact ⟨labels, rfl⟩
    | error e =>
        obtain ⟨front, part, behind, rfl, fails, -⟩ := mapM_ofText_eq_error.1 read
        have admitted := all part (List.mem_append_right _ List.mem_cons_self)
        rcases fails with ⟨rfl, -⟩ | ⟨long, -⟩
        · exact absurd admitted.1 (by decide)
        · exact absurd admitted.2 (Nat.not_le.2 long)

end Label

namespace Name

/-- The number of octets that the parts of a host name take, each behind its size, and the zero
octet behind them. -/
def hostSize (host : String) : Nat :=
  ((parts host.toList).map fun part => (Utf8.encode part).length + 1).sum + 1

theorem length_spelledWire_parts (host : String) :
    (spelledWire ((parts host.toList).map Utf8.encode)).length = hostSize host := by
  simp only [spelledWire, List.flatMap_map, List.length_append, List.length_flatMap,
    List.length_cons, List.length_nil, hostSize]

/-- Labels take as much as the parts that they are made from. -/
theorem wireSizes_of_mapM {host : String} {labels : List Label}
    (read : (parts host.toList).mapM Label.ofText = .ok labels) :
    Label.wireSizes labels + 1 = hostSize host := by
  rw [← length_spelledWire_parts, Label.mapM_ofText_eq_ok.1 read, spelledWire_octets,
    List.length_append, Label.length_flatMap_wire]
  rfl

theorem wire_of_ofHostName {host : String} {n : Name} (spelled : ofHostName host = .ok n) :
    n.wire = spelledWire ((parts host.toList).map Utf8.encode) := by
  rw [ofHostName_iff.1 spelled, spelledWire_octets]
  rfl

theorem encode_eq_ok {host : String} {octets : List UInt8} :
    encode host = .ok octets ↔
      (∀ part ∈ parts host.toList, Label.Admits part) ∧ hostSize host ≤ 255 ∧
        octets = spelledWire ((parts host.toList).map Utf8.encode) := by
  unfold encode
  rw [except_map_eq_ok, ← Label.exists_mapM_ofText_iff]
  refine ⟨fun h => ?_, fun h => ?_⟩
  · obtain ⟨n, spelled, rfl⟩ := h
    have read := ofHostName_eq_ok.1 spelled
    refine ⟨⟨_, read⟩, ?_, wire_of_ofHostName spelled⟩
    rw [← wireSizes_of_mapM read]
    exact n.fits
  · obtain ⟨⟨labels, read⟩, fits, rfl⟩ := h
    rw [← wireSizes_of_mapM read] at fits
    have spelled : ofHostName host = .ok ⟨labels, fits⟩ := ofHostName_eq_ok.2 read
    exact ⟨_, spelled, wire_of_ofHostName spelled⟩

theorem encode_eq_error {host : String} {e : EncodeError} :
    encode host = .error e ↔
      (parts host.toList).mapM Label.ofText = .error e ∨
        (∀ part ∈ parts host.toList, Label.Admits part) ∧ 255 < hostSize host ∧
          e = .longName := by
  unfold encode ofHostName
  rw [except_map_eq_error, except_bind_eq_error, ← Label.exists_mapM_ofText_iff]
  -- Parts that make no label are the same case on both sides; left are labels that do not fit.
  refine or_congr_right ⟨fun h => ?_, fun h => ?_⟩
  · obtain ⟨labels, read, h⟩ := h
    split at h
    · cases h
    · next long =>
      cases h
      rw [wireSizes_of_mapM read] at long
      exact ⟨⟨labels, read⟩, Nat.not_le.1 long, rfl⟩
  · obtain ⟨⟨labels, read⟩, long, rfl⟩ := h
    rw [← wireSizes_of_mapM read] at long
    exact ⟨labels, read, dif_neg (Nat.not_le.2 long)⟩

theorem encode_eq_emptyLabel {host : String} :
    encode host = .error .emptyLabel ↔
      ∃ front behind, parts host.toList = front ++ [] :: behind ∧
        ∀ part ∈ front, Label.Admits part := by
  rw [encode_eq_error, Label.mapM_ofText_eq_error]
  refine ⟨fun h => ?_, fun h => ?_⟩
  · rcases h with ⟨front, part, behind, split, ⟨rfl, -⟩ | ⟨-, other⟩, all⟩ | ⟨-, -, other⟩
    · exact ⟨front, behind, split, all⟩
    · cases other
    · cases other
  · obtain ⟨front, behind, split, all⟩ := h
    exact Or.inl ⟨front, [], behind, split, Or.inl ⟨rfl, rfl⟩, all⟩

theorem encode_eq_labelTooLong {host : String} :
    encode host = .error .labelTooLong ↔
      ∃ front part behind, parts host.toList = front ++ part :: behind ∧
        63 < (Utf8.encode part).length ∧ ∀ part ∈ front, Label.Admits part := by
  rw [encode_eq_error, Label.mapM_ofText_eq_error]
  refine ⟨fun h => ?_, fun h => ?_⟩
  · rcases h with ⟨front, part, behind, split, ⟨-, other⟩ | ⟨long, -⟩, all⟩ | ⟨-, -, other⟩
    · cases other
    · exact ⟨front, part, behind, split, long, all⟩
    · cases other
  · obtain ⟨front, part, behind, split, long, all⟩ := h
    exact Or.inl ⟨front, part, behind, split, Or.inr ⟨long, rfl⟩, all⟩

theorem encode_eq_longName {host : String} :
    encode host = .error .longName ↔
      (∀ part ∈ parts host.toList, Label.Admits part) ∧ 255 < hostSize host := by
  rw [encode_eq_error, Label.mapM_ofText_eq_error]
  refine ⟨fun h => ?_, fun h => Or.inr ⟨h.1, h.2, rfl⟩⟩
  rcases h with ⟨front, part, behind, -, ⟨-, other⟩ | ⟨-, other⟩, -⟩ | ⟨all, long, -⟩
  · cases other
  · cases other
  · exact ⟨all, long⟩

/-- What is written tells host names apart, their final dots excepted. -/
theorem encode_inj {host other : String} {octets octets' : List UInt8}
    (written : encode host = .ok octets) (written' : encode other = .ok octets') :
    octets = octets' ↔ withoutFinalDot host.toList = withoutFinalDot other.toList := by
  obtain ⟨n, spelled, rfl⟩ := except_map_eq_ok.1 written
  obtain ⟨n', spelled', rfl⟩ := except_map_eq_ok.1 written'
  rw [wire_inj, ← octets_inj, ← ofHostName_iff.1 spelled, ← ofHostName_iff.1 spelled',
    List.map_inj_right fun _ _ same => Utf8.encode_injective same, parts_inj]

/-- **The outcomes of writing a host name.** A host name without its final dot is its parts, joined
by dots that none of them holds. It is written if every part makes a label and all of them fit into
a name, and then as its parts, each behind its size, and a zero octet. Otherwise the leftmost part
that makes no label decides the error, and if there is none, the name is too long. Host names that
are written are written alike exactly if they are equal without their final dots. -/
theorem encode_outcomes (host : String) :
    (['.'].intercalate (parts host.toList) = withoutFinalDot host.toList ∧
      (∀ part ∈ parts host.toList, '.' ∉ part) ∧
      (parts host.toList = [] ↔ withoutFinalDot host.toList = [])) ∧
    (∀ octets, encode host = .ok octets ↔
      (∀ part ∈ parts host.toList, Label.Admits part) ∧ hostSize host ≤ 255 ∧
        octets = spelledWire ((parts host.toList).map Utf8.encode)) ∧
    (encode host = .error .emptyLabel ↔
      ∃ front behind, parts host.toList = front ++ [] :: behind ∧
        ∀ part ∈ front, Label.Admits part) ∧
    (encode host = .error .labelTooLong ↔
      ∃ front part behind, parts host.toList = front ++ part :: behind ∧
        63 < (Utf8.encode part).length ∧ ∀ part ∈ front, Label.Admits part) ∧
    (encode host = .error .longName ↔
      (∀ part ∈ parts host.toList, Label.Admits part) ∧ 255 < hostSize host) ∧
    ∀ (other : String) (octets octets' : List UInt8),
      encode host = .ok octets → encode other = .ok octets' →
        (octets = octets' ↔ withoutFinalDot host.toList = withoutFinalDot other.toList) := by
  refine ⟨⟨intercalate_parts _, fun _ => dot_not_mem_of_mem_parts, ?_⟩, fun _ => encode_eq_ok,
    encode_eq_emptyLabel, encode_eq_labelTooLong, encode_eq_longName, fun _ _ _ => encode_inj⟩
  rw [← List.isEmpty_iff, ← List.isEmpty_iff, isEmpty_parts]

/-- A host name of three labels that are as long as can be and one of `last` letters. -/
def fourLabels (last : Nat) : String :=
  let full := List.replicate 63 'x'
  String.ofList (['.'].intercalate [full, full, full, List.replicate last 'x'])

theorem parts_fourLabels :
    ∀ last ∈ [61, 62], parts (fourLabels last).toList =
      [.replicate 63 'x', .replicate 63 'x', .replicate 63 'x', .replicate last 'x'] := by
  simp only [fourLabels, String.toList_ofList]
  decide +kernel

/-- An accented letter takes two octets. Only one final dot is no part of the name. Of two faults,
the one on the left is reported. Names of 255 octets are written, and no longer ones. Without its
final dot a name is the same, and with other letters it is not. -/
theorem encode_outcomes_samples :
    encode "é.a." = .ok [2, 195, 169, 1, 97, 0] ∧
      encode "a.." = .error .emptyLabel ∧ encode ".." = .error .emptyLabel ∧
      encode "a..é" = .error .emptyLabel ∧
      encode (String.ofList (List.replicate 64 'x' ++ ['.', '.'])) = .error .labelTooLong ∧
      (∃ octets, encode (fourLabels 61) = .ok octets ∧ octets.length = 255) ∧
      encode (fourLabels 62) = .error .longName ∧
      (∃ octets other, encode "a." = .ok octets ∧ encode "a" = .ok octets ∧
        encode "A" = .ok other ∧ octets ≠ other) := by
  refine ⟨?_, ?_, ?_, ?_, ?_, ?_, ?_, ?_⟩
  · exact ((encode_outcomes "é.a.").2.1 _).2 ⟨by decide, by decide, rfl⟩
  · exact (encode_outcomes "a..").2.2.1.2 ⟨[['a']], [], rfl, by decide⟩
  · exact (encode_outcomes "..").2.2.1.2 ⟨[], [[]], rfl, nofun⟩
  · exact (encode_outcomes "a..é").2.2.1.2 ⟨[['a']], [['é']], rfl, by decide⟩
  · refine (encode_outcomes _).2.2.2.1.2 ⟨[], List.replicate 64 'x', [[]], ?_, by decide, nofun⟩
    rw [String.toList_ofList]
    decide
  · have spelled := parts_fourLabels 61 (by decide)
    refine ⟨_, ((encode_outcomes (fourLabels 61)).2.1 _).2 ⟨?_, ?_, rfl⟩, ?_⟩
    · rw [spelled]
      decide +kernel
    · rw [hostSize, spelled]
      decide +kernel
    · rw [spelled]
      decide +kernel
  · have spelled := parts_fourLabels 62 (by decide)
    refine (encode_outcomes (fourLabels 62)).2.2.2.2.1.2 ⟨?_, ?_⟩
    · rw [spelled]
      decide +kernel
    · rw [hostSize, spelled]
      decide +kernel
  · have written : encode "a" = .ok [1, 97, 0] := rfl
    have dotted : encode "a." = .ok [1, 97, 0] := rfl
    have other : encode "A" = .ok [1, 65, 0] := rfl
    refine ⟨_, _, dotted, written, other, ?_⟩
    rw [Ne, (encode_outcomes "a.").2.2.2.2.2 "A" _ _ dotted other]
    decide

end Name

end DnsWire

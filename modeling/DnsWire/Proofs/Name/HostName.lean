import DnsWire.Proofs.Name.Spelled

/-!
# Names that are host names

The text of a name that was read is a host name of its own, and writing it may lead back to the
labels or to others. It leads back exactly if every label is plain, that is UTF-8 without a dot
(`Name.encode_text_iff`): a dot inside a label would divide it, and what is not UTF-8 has been
replaced. On names with plain labels the text is therefore as good as the labels
(`Name.text_inj`).

Both directions rest on one description of what a host name spells, the octets of its parts
(`Name.ofHostName_iff`). No part holds a dot, which gives the one direction; joining plain labels
and splitting the text again are inverse, which gives the other.
-/

namespace DnsWire

/-- The octets are those of a label that a host name can spell: UTF-8, and no dot. -/
def IsPlain (label : List UInt8) : Prop :=
  Utf8.IsValid label ∧ 0x2E ∉ label

instance (label : List UInt8) : Decidable (IsPlain label) :=
  inferInstanceAs (Decidable (_ ∧ _))

/-- The separator is in no piece of what is split at it. -/
theorem not_mem_of_mem_splitOn {α : Type} [DecidableEq α] {separator : α} {whole piece : List α}
    (h : piece ∈ whole.splitOn separator) : separator ∉ piece := by
  induction whole generalizing piece with
  | nil =>
      rw [List.splitOn_nil, List.mem_singleton] at h
      rw [h]
      exact List.not_mem_nil
  | cons a rest ih =>
      rw [List.splitOn_cons_eq_if_modifyHead] at h
      split at h
      · rcases List.mem_cons.1 h with rfl | h
        · exact List.not_mem_nil
        · exact ih h
      · next other =>
        obtain ⟨first, others, pieces⟩ := List.exists_cons_of_ne_nil (List.splitOn_ne_nil separator rest)
        rw [pieces] at h ih
        rcases List.mem_cons.1 h with rfl | h
        · intro inside
          rcases List.mem_cons.1 inside with rfl | inside
          · simp at other
          · exact ih List.mem_cons_self inside
        · exact ih (List.mem_cons_of_mem _ h)

namespace Name

/-! ## What a host name spells -/

theorem ofHostName_iff {host : String} {n : Name} :
    ofHostName host = .ok n ↔
      (parts host.toList).map Utf8.encode = n.labels.map Label.octets :=
  ofHostName_eq_ok.trans Label.mapM_ofText_eq_ok

theorem dot_not_mem_of_mem_parts {host part : List Char} (h : part ∈ parts host) : '.' ∉ part := by
  unfold parts at h
  dsimp only at h
  split at h
  · cases h
  · exact not_mem_of_mem_splitOn h

/-- A host name spells plain labels. -/
theorem isPlain_of_ofHostName {host : String} {n : Name} (h : ofHostName host = .ok n) :
    ∀ l ∈ n.labels, IsPlain l.octets := by
  intro l mem
  have octets : l.octets ∈ (parts host.toList).map Utf8.encode := by
    rw [ofHostName_iff.1 h]
    exact List.mem_map_of_mem mem
  obtain ⟨part, inside, eq⟩ := List.mem_map.1 octets
  refine ⟨⟨part, eq⟩, ?_⟩
  rw [← eq, Utf8.mem_encode (by decide)]
  exact dot_not_mem_of_mem_parts inside

/-! ## Names from their texts -/

theorem encode_text_of_isPlain {l : Label} (h : IsPlain l.octets) : Utf8.encode l.text = l.octets :=
  Utf8.isValid_iff.1 h.1

theorem text_ne_nil_of_isPlain {l : Label} (h : IsPlain l.octets) : l.text ≠ [] := by
  intro empty
  have octets := encode_text_of_isPlain h
  rw [empty] at octets
  have pos := l.size_pos
  rw [← octets] at pos
  cases pos

theorem dot_not_mem_text {l : Label} (h : IsPlain l.octets) : '.' ∉ l.text := by
  have octets := h.2
  rw [← encode_text_of_isPlain h, Utf8.mem_encode (by decide)] at octets
  exact octets

/-- The parts of the text of a name are the texts of its labels, if these are plain. -/
theorem parts_textOf {labels : List Label} (plain : ∀ l ∈ labels, IsPlain l.octets) :
    parts (textOf labels) = labels.map Label.text := by
  unfold textOf
  by_cases root : labels = []
  · rw [root]
    decide
  have nonempty : labels.map Label.text ≠ [] := by simpa using root
  have split : (['.'].intercalate (labels.map Label.text)).splitOn '.' = labels.map Label.text := by
    refine List.splitOn_intercalate '.' ?_ nonempty
    intro text mem
    obtain ⟨l, inside, rfl⟩ := List.mem_map.1 mem
    exact dot_not_mem_text (plain l inside)
  have texts : [] ∉ labels.map Label.text := by
    intro mem
    obtain ⟨l, inside, empty⟩ := List.mem_map.1 mem
    exact text_ne_nil_of_isPlain (plain l inside) empty
  rw [if_neg (by simpa using root)]
  generalize ['.'].intercalate (labels.map Label.text) = host at split
  -- A dot at the end would leave an empty part behind it.
  have last : host.getLast? ≠ some '.' := by
    intro dot
    obtain ⟨front, rfl⟩ := List.getLast?_eq_some_iff.1 dot
    rw [List.splitOn_append_cons_self, List.splitOn_nil] at split
    exact texts (split ▸ List.mem_append_right _ List.mem_cons_self)
  have first : host.isEmpty = false := by
    refine List.isEmpty_eq_false_iff.2 fun empty => ?_
    rw [empty, List.splitOn_nil] at split
    exact texts (split ▸ List.mem_cons_self)
  unfold parts withoutFinalDot
  dsimp only
  rw [if_neg last, first, if_neg (by decide), split]

/-- A name with plain labels is spelled by its text. -/
theorem ofHostName_text {n : Name} (plain : ∀ l ∈ n.labels, IsPlain l.octets) :
    ofHostName n.text = .ok n := by
  rw [ofHostName_iff, text, String.toList_ofList, parts_textOf plain, List.map_map]
  exact List.map_congr_left fun l mem => encode_text_of_isPlain (plain l mem)

/-- The texts of names with plain labels tell the names apart. -/
theorem text_inj {m n : Name} (plain : ∀ l ∈ m.labels, IsPlain l.octets)
    (plain' : ∀ l ∈ n.labels, IsPlain l.octets) : m.text = n.text ↔ m = n := by
  constructor
  · intro same
    have spelled := ofHostName_text plain
    rw [same, ofHostName_text plain'] at spelled
    exact (Except.ok.inj spelled).symm
  · exact congrArg text

/-- Names are told apart by their wire formats, which are read in one way only. -/
theorem wire_inj {m n : Name} : m.wire = n.wire ↔ m = n := by
  constructor
  · intro same
    have left := decode_of_shows (Window.shows_whole m.wire)
    have right := decode_of_shows (Window.shows_whole n.wire)
    rw [same, right] at left
    exact (Prod.mk.inj (Except.ok.inj left)).1.symm
  · exact congrArg wire

theorem octets_inj {m n : Name} :
    m.labels.map Label.octets = n.labels.map Label.octets ↔ m = n := by
  rw [List.map_inj_right fun _ _ => Label.ext_octets]
  constructor
  · intro same
    cases m
    cases same
    rfl
  · exact congrArg labels

/-- The text of a name is written as the name exactly if its labels are plain. -/
theorem encode_text_iff {n : Name} :
    encode n.text = .ok n.wire ↔ ∀ l ∈ n.labels, IsPlain l.octets := by
  unfold encode
  rw [except_map_eq_ok]
  constructor
  · intro h
    obtain ⟨m, spelled, same⟩ := h
    cases wire_inj.1 same
    exact isPlain_of_ofHostName spelled
  · exact fun plain => ⟨n, ofHostName_text plain, rfl⟩

/-! ## Names that were read -/

/-- **Writing what was read.** Let labels be passed where a name is read. Its text is written as
these labels, each behind its size and with a zero octet at the end, exactly if every one of them
is UTF-8 and holds no dot. Of two names with such labels, wherever they are read, the texts are
equal exactly if the labels are. -/
theorem encode_decodeAt_iff {octets : Array UInt8} {start stop next pointers behind : Nat}
    {text : String} {labels : List (List UInt8)}
    (read : decodeAt octets start stop = .ok (text, next))
    (spells : Spells octets (min stop octets.size) start start labels pointers behind) :
    (encode text = .ok (spelledWire labels) ↔
      ∀ label ∈ labels, Utf8.IsValid label ∧ 0x2E ∉ label) ∧
    ∀ {octets' : Array UInt8} {start' stop' next' pointers' behind' : Nat} {text' : String}
      {labels' : List (List UInt8)},
      decodeAt octets' start' stop' = .ok (text', next') →
      Spells octets' (min stop' octets'.size) start' start' labels' pointers' behind' →
      (∀ label ∈ labels, Utf8.IsValid label ∧ 0x2E ∉ label) →
      (∀ label ∈ labels', Utf8.IsValid label ∧ 0x2E ∉ label) →
      (text = text' ↔ labels = labels') := by
  obtain ⟨n, rfl, rfl⟩ := exists_name_of_spells read spells
  refine ⟨?_, ?_⟩
  · rw [spelledWire_octets, List.forall_mem_map]
    exact encode_text_iff
  · intro octets' start' stop' next' pointers' behind' text' labels' read' spells' plain plain'
    obtain ⟨m, rfl, rfl⟩ := exists_name_of_spells read' spells'
    rw [List.forall_mem_map] at plain plain'
    rw [text_inj plain plain', octets_inj]

/-- A name of two labels, one of them behind a pointer, is written as it was read. One label with
a dot in it has the same text, and is not. -/
theorem encode_decodeAt_samples :
    encode "b.a" = .ok [1, 98, 1, 97, 0] ∧ encode "b.a" ≠ .ok [3, 98, 46, 97, 0] ∧
      ("b.a" = "a" ↔ [[(98 : UInt8)], [97]] = [[97]]) := by
  let pointed : Window := Window.upTo #[1, 97, 0, 1, 98, 0xC0, 0] 7
  let dotted : Window := Window.upTo #[3, 98, 46, 97, 0] 5
  have a : Spells pointed.octets pointed.stop 0 0 [[97]] 0 3 :=
    .label rfl (by decide) (by decide) (by decide) rfl (.root (by decide) rfl)
  have two : Spells pointed.octets pointed.stop 3 3 [[98], [97]] 1 7 :=
    .label rfl (by decide) (by decide) (by decide) rfl
      (.pointer (by decide) rfl (by decide) rfl (by decide) (by decide) a)
  have one : Spells dotted.octets dotted.stop 0 0 [[98, 46, 97]] 0 5 :=
    .label rfl (by decide) (by decide) (by decide) rfl (.root (by decide) rfl)
  have readA : decodeAt pointed.octets 0 7 = .ok ("a", 3) := by
    rw [decodeAt_of_room (by decide)]
    exact (decodeText_of_spells a (by decide)).trans rfl
  have readTwo : decodeAt pointed.octets 3 7 = .ok ("b.a", 7) := by
    rw [decodeAt_of_room (by decide)]
    exact (decodeText_of_spells two (by decide)).trans rfl
  have readOne : decodeAt dotted.octets 0 5 = .ok ("b.a", 5) := by
    rw [decodeAt_of_room (by decide)]
    exact (decodeText_of_spells one (by decide)).trans rfl
  obtain ⟨back, tell⟩ := encode_decodeAt_iff readTwo two
  refine ⟨back.2 (by decide), ?_, tell readA a (by decide) (by decide)⟩
  intro same
  exact absurd ((encode_decodeAt_iff readOne one).1.1 same) (by decide)

end Name

end DnsWire

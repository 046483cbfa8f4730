import Mathlib.Data.Set.List
import DnsWire.Proofs.Message.Scan
import DnsWire.Proofs.Name.HostName
import DnsWire.Proofs.Record.Extent
import DnsWire.Proofs.Text.LineFeeds

/-!
# The lines of a message

The text of a message is made of lines, and how many there are follows from its status, the numbers
of its entries and whether octets are left over (`Message.lineCount`). Whether a reader of the text
finds these lines and no others is up to the names: line feeds in the labels of owners, questions,
aliases and mail hosts are line feeds of the text, and no other part of a message has any
(`Message.lines_of_decode`).

The line feeds of a text of lines are those at the ends of its lines and those inside them
(`lineFeeds_joinLines`), and the lines are found again when there are none inside
(`splitOn_joinLines`). Those inside are summed up section by section from the texts of the entries
(`Message.sum_lineFeeds_lines`).
-/

namespace DnsWire

open Decoder

/-! ## Texts of lines -/

theorem lineFeeds_joinLines (lines : List String) :
    lineFeeds (String.join (lines.map (· ++ "\n"))) =
      lines.length + (lines.map lineFeeds).sum := by
  rw [lineFeeds, String.toList_join]
  induction lines with
  | nil => rfl
  | cons line lines ih =>
      rw [List.map_cons, List.flatMap_cons, List.count_append, ih, List.map_cons, List.sum_cons,
        List.length_cons, String.toList_append, List.count_append]
      show lineFeeds line + 1 + _ = _
      omega

theorem splitOn_of_not_mem {text : List Char} (h : '\n' ∉ text) : text.splitOn '\n' = [text] := by
  have single : ∀ part ∈ [text], '\n' ∉ part := fun part mem => List.mem_singleton.1 mem ▸ h
  have split := List.splitOn_intercalate '\n' single (List.cons_ne_nil _ _)
  rwa [List.intercalate_singleton] at split

/-- Each line with its end is split off, and nothing is left behind the last one. -/
theorem splitOn_flatMap_lines {lines : List (List Char)} (h : ∀ line ∈ lines, '\n' ∉ line) :
    (lines.flatMap (· ++ ['\n'])).splitOn '\n' = lines ++ [[]] := by
  induction lines with
  | nil => rfl
  | cons line lines ih =>
      rw [List.flatMap_cons, List.append_assoc, List.singleton_append,
        List.splitOn_append_cons_self, splitOn_of_not_mem (h line List.mem_cons_self),
        ih fun line mem => h line (List.mem_cons_of_mem _ mem)]
      rfl

/-- Lines are found again when no line feed is inside of one, and only then. -/
theorem splitOn_joinLines {lines : List String} :
    (String.join (lines.map (· ++ "\n"))).toList.splitOn '\n' = lines.map String.toList ++ [[]] ↔
      ∀ line ∈ lines, lineFeeds line = 0 := by
  refine ⟨fun h line mem => ?_, fun h => ?_⟩
  · have piece : line.toList ∈ lines.map String.toList ++ [[]] :=
      List.mem_append_left _ (List.mem_map_of_mem mem)
    rw [← h] at piece
    exact lineFeeds_eq_zero.2 (not_mem_of_mem_splitOn piece)
  · have text : (String.join (lines.map (· ++ "\n"))).toList =
        (lines.map String.toList).flatMap (· ++ ['\n']) := by
      rw [String.toList_join, List.flatMap_map, List.flatMap_map]
      exact congrArg (List.flatMap · lines) (funext fun line => String.toList_append)
    rw [text]
    refine splitOn_flatMap_lines fun _ mem => ?_
    obtain ⟨line, inside, rfl⟩ := List.mem_map.1 mem
    exact lineFeeds_eq_zero.1 (h line inside)

namespace Message

/-! ## The names in a message -/

/-- The names of an entry, as texts. -/
def Entry.names : Entry → List String
  | .question q => [q.name]
  | .record r => r.names

/-- The names that the text of a message shows. -/
def shownNames (m : Message) : List String :=
  if m.isError then [] else m.entries.flatMap Entry.names

theorem exists_name_of_decodeText {w : Window} {pos next : Nat} {text : String}
    (h : Name.decodeText w pos = .ok (text, next)) : ∃ n : Name, n.text = text := by
  obtain ⟨n, -, eq⟩ := map_eq_ok.1 h
  exact ⟨n, eq⟩

theorem exists_name_of_stands {w : Window} {pos next : Nat} {data : RecordData}
    (h : data.Stands w pos next) : ∀ s ∈ data.names, ∃ n : Name, n.text = s := by
  cases data with
  | cname target =>
      intro s mem
      rw [List.mem_singleton.1 mem]
      exact exists_name_of_decodeText (Name.decodeText_eq_ok.2 h)
  | mx preference exchange =>
      intro s mem
      rw [List.mem_singleton.1 mem]
      exact exists_name_of_decodeText (Name.decodeText_eq_ok.2 h.2)
  | _ => nofun

/-- The names of an entry that was read are texts of names. -/
theorem exists_name_of_occupies {w : Window} {pos next : Nat} {e : Entry}
    (h : e.Occupies w pos next) : ∀ s ∈ e.names, ∃ n : Name, n.text = s := by
  cases e with
  | question q =>
      intro s mem
      obtain ⟨-, _, name, -⟩ := h
      rw [List.mem_singleton.1 mem]
      exact exists_name_of_decodeText name
  | record r =>
      intro s mem
      obtain ⟨read, _, _, owner, -⟩ := h
      rcases List.mem_cons.1 mem with rfl | inside
      · exact exists_name_of_decodeText owner
      · obtain ⟨_, _, -, data, -⟩ := Record.decode_eq_ok.1 read
        obtain ⟨_, -, -, stands⟩ := RecordData.decode_eq_ok.1 data
        exact exists_name_of_stands stands s inside

/-- The names that a message shows were read as names. -/
theorem exists_names_of_decode {octets : Array UInt8} {m : Message} (h : decode octets = .ok m) :
    ∃ names : List Name, m.shownNames = names.map Name.text := by
  have each : ∀ s ∈ m.shownNames, ∃ n : Name, n.text = s := by
    obtain ⟨-, ⟨-, eq⟩ | ⟨-, _, read, -⟩⟩ := decode_eq_ok.1 h
    · rw [shownNames, if_pos (isError_of_serverError (by rw [eq]))]
      exact nofun
    · obtain ⟨_, _, _, -, -, -, -, -, status, -⟩ := decodeSectionEntries_eq_ok.1 read
      have passed : ¬ m.isError = true := Bool.eq_false_iff.1 (isError_eq_false.2 status)
      intro s mem
      rw [shownNames, if_neg passed, List.mem_flatMap] at mem
      obtain ⟨e, entry, mem⟩ := mem
      have tiles := tiles_of_decodeSectionEntries read
      exact tiles.forall_mem (fun _ _ _ => exists_name_of_occupies) e entry s mem
  have range : m.shownNames ∈ Set.range (List.map Name.text) := by
    rw [Set.range_list_map]
    exact each
  obtain ⟨names, eq⟩ := range
  exact ⟨names, eq.symm⟩

/-! ## Counting lines -/

/-- The number of lines of a section: an empty one, the heading and the entries, if there are any. -/
def sectionSize (entries : Nat) : Nat :=
  if entries = 0 then 0 else entries + 2

/-- The number of lines of a message, from its status, the numbers of its entries and whether
octets are left over. -/
def lineCount (m : Message) : Nat :=
  2 +
    if m.isError then 1
    else
      sectionSize m.questions.length + sectionSize m.answer.length +
        sectionSize m.authority.length + sectionSize m.additional.length +
        if m.hasTrailing then 2 else 0

theorem length_sectionLines (heading : String) (entries : List String) :
    (sectionLines heading entries).length = sectionSize entries.length := by
  unfold sectionLines sectionSize
  cases entries with
  | nil => rfl
  | cons entry entries => rfl

theorem length_lines (m : Message) : m.lines.length = m.lineCount := by
  unfold lines lineCount
  rw [List.length_append]
  show 2 + _ = _
  congr 1
  split
  · rfl
  · unfold bodyLines
    simp only [List.length_append, List.flatMap_cons, List.flatMap_nil, length_sectionLines,
      List.length_map, sectionOf, List.length_nil, Nat.add_zero, Nat.add_assoc]
    congr 4
    split <;> rfl

/-- A heading has no line feeds of its own. -/
theorem sum_sectionLines {heading : String} (plain : lineFeeds heading = 0)
    (entries : List String) :
    ((sectionLines heading entries).map lineFeeds).sum = (entries.map lineFeeds).sum := by
  have front : (["", ";; " ++ heading ++ " SECTION:"].map lineFeeds).sum = 0 := by
    simp [plain, show lineFeeds "" = 0 by rfl, show lineFeeds ";; " = 0 by rfl,
      show lineFeeds " SECTION:" = 0 by rfl]
  unfold sectionLines
  cases entries with
  | nil => rfl
  | cons entry entries =>
      rw [List.isEmpty_cons, if_neg Bool.false_ne_true, List.map_append, List.sum_append_nat,
        front, Nat.zero_add]

theorem sum_headerLines (m : Message) : (m.headerLines.map lineFeeds).sum = 0 := by
  unfold headerLines
  simp only [List.map_cons, List.map_nil, List.sum_cons, List.sum_nil, lineFeeds_append,
    lineFeeds_toString, Opcode.lineFeeds_text, ResponseCode.lineFeeds_text, Flags.lineFeeds_text]
  rfl

theorem lineFeeds_questionLine (q : Question) : lineFeeds (";" ++ q.text) = lineFeeds q.name := by
  rw [lineFeeds_append, q.lineFeeds_text]
  exact Nat.zero_add _

/-- The names of records have the line feeds of their texts. -/
theorem sum_recordTexts (records : List Record) :
    ((records.map Record.text).map lineFeeds).sum =
      ((records.flatMap Record.names).map lineFeeds).sum := by
  induction records with
  | nil => rfl
  | cons r records ih =>
      rw [List.map_cons, List.map_cons, List.sum_cons, ih, r.lineFeeds_text, List.flatMap_cons,
        List.map_append, List.sum_append_nat]

theorem sum_trailingLines (m : Message) :
    ((if m.hasTrailing then
      ["", ";; " ++ toString m.trailing ++ " octets of unread data left over"]
    else []).map lineFeeds).sum = 0 := by
  split
  · simp only [List.map_cons, List.map_nil, List.sum_cons, List.sum_nil, lineFeeds_append,
      lineFeeds_toString]
    rfl
  · rfl

theorem entries_flatMap_names (m : Message) :
    m.entries.flatMap Entry.names =
      m.questions.map Question.name ++ m.answer.flatMap Record.names ++
        m.authority.flatMap Record.names ++ m.additional.flatMap Record.names := by
  unfold entries
  rw [List.flatMap_append, List.flatMap_append, List.flatMap_append, List.flatMap_map,
    List.flatMap_map, List.flatMap_map, List.flatMap_map, List.map_eq_flatMap]
  rfl

/-- The line feeds inside of lines are those of the names that are shown. -/
theorem sum_lineFeeds_lines (m : Message) :
    (m.lines.map lineFeeds).sum = (m.shownNames.map lineFeeds).sum := by
  unfold lines shownNames
  rw [List.map_append, List.sum_append_nat, sum_headerLines, Nat.zero_add]
  split
  · simp [show lineFeeds ";; status: " = 0 by rfl]
  · have questions : ((m.questions.map fun q => ";" ++ q.text).map lineFeeds).sum =
        ((m.questions.map Question.name).map lineFeeds).sum := by
      rw [List.map_map, List.map_map]
      exact congrArg List.sum (List.map_congr_left fun q _ => lineFeeds_questionLine q)
    have heading : lineFeeds "QUESTION" = 0 := by rfl
    unfold bodyLines
    simp only [entries_flatMap_names, List.map_append, List.sum_append_nat, List.flatMap_cons,
      List.flatMap_nil, List.append_nil, sum_sectionLines heading, questions,
      sum_sectionLines (Section.lineFeeds_text _), sectionOf, sum_recordTexts,
      sum_trailingLines, Nat.add_zero, Nat.add_assoc]

/-- The line feeds of the text of a message: one for each of its lines, and those in names. -/
theorem lineFeeds_text (m : Message) :
    lineFeeds m.text = m.lineCount + (m.shownNames.map lineFeeds).sum := by
  rw [text, lineFeeds_joinLines, length_lines, sum_lineFeeds_lines]

theorem forall_lineFeeds_eq_zero {texts : List String} :
    (∀ text ∈ texts, lineFeeds text = 0) ↔ (texts.map lineFeeds).sum = 0 := by
  rw [List.sum_eq_zero_iff_forall_eq_nat, List.forall_mem_map]

theorem sum_lineFeedOctets {names : List Name} :
    (names.map Name.lineFeedOctets).sum = 0 ↔ ∀ n ∈ names, ∀ l ∈ n.labels, 10 ∉ l.octets := by
  simp only [List.sum_eq_zero_iff_forall_eq_nat, List.forall_mem_map, Name.lineFeedOctets,
    List.count_eq_zero]

/-! ## The lines of a message that was read -/

theorem filter_map_section (s t : Section) (records : List Record) :
    ((records.map (t, ·)).filter fun r => r.1 = s) =
      if t = s then records.map (t, ·) else [] := by
  split
  · next same => exact List.filter_eq_self.2 (List.forall_mem_map.2 fun _ _ => decide_eq_true same)
  · next other =>
    exact List.filter_eq_nil_iff.2 (List.forall_mem_map.2 fun _ _ => by simpa using other)

/-- The records of a section are those that are listed with it. -/
theorem map_filter_records (m : Message) (s : Section) :
    ((m.records.filter fun r => r.1 = s).map fun r => r.2.text) =
      (m.sectionOf s).map Record.text := by
  unfold records
  simp only [List.filter_append, filter_map_section]
  cases s <;> simp [sectionOf]

/-- **The lines of a message.** Two lines for the header and one for an error, or the sections that
are not empty with their entries in the order of `records`, and two lines for octets left over.
The text has one line feed for each of these lines and one for each octet 10 in a label of a name
that it shows; so the text falls into these lines if and only if no such label holds that octet. -/
theorem lines_of_decode {octets : Array UInt8} {m : Message} (h : decode octets = .ok m) :
    (m.lines = m.headerLines ++
      if m.isError then [";; status: " ++ m.status.text]
      else
        sectionLines "QUESTION" (m.questions.map fun q => ";" ++ q.text) ++
          [Section.answer, .authority, .additional].flatMap (fun s =>
            sectionLines s.text ((m.records.filter fun r => r.1 = s).map fun r => r.2.text)) ++
          if 0 < m.trailing then
            ["", ";; " ++ toString m.trailing ++ " octets of unread data left over"]
          else []) ∧
    m.headerLines.length = 2 ∧ m.lines.length = m.lineCount ∧
    ∃ names : List Name, m.shownNames = names.map Name.text ∧
      lineFeeds m.text = m.lineCount + (names.map Name.lineFeedOctets).sum ∧
      (m.text.toList.splitOn '\n' = m.lines.map String.toList ++ [[]] ↔
        ∀ n ∈ names, ∀ l ∈ n.labels, 10 ∉ l.octets) := by
  obtain ⟨names, shown⟩ := exists_names_of_decode h
  have inside : (m.shownNames.map lineFeeds).sum = (names.map Name.lineFeedOctets).sum := by
    rw [shown, List.map_map]
    exact congrArg List.sum (List.map_congr_left fun n _ => n.lineFeeds_text)
  refine ⟨?_, rfl, length_lines m, names, shown, ?_, ?_⟩
  · simp only [map_filter_records]
    simp only [lines, bodyLines, hasTrailing, decide_eq_true_eq]
  · rw [lineFeeds_text, inside]
  · show (String.join (m.lines.map (· ++ "\n"))).toList.splitOn '\n' = _ ↔ _
    rw [splitOn_joinLines, forall_lineFeeds_eq_zero, sum_lineFeeds_lines, inside]
    exact sum_lineFeedOctets

/-- The sample has ten lines: the header, a question, a record and the octet left over. -/
theorem lines_of_decode_sample :
    ∃ m, decode sample = .ok m ∧ lineFeeds m.text = 10 ∧
      m.text.toList.splitOn '\n' = m.lines.map String.toList ++ [[]] := by
  have read : (decode sample).toOption.map (fun m => (m.lineCount, m.shownNames)) =
      some (10, ["a", "a"]) := by
    decide +kernel
  obtain ⟨m, decoded, parts⟩ := except_toOption_map_eq_some.1 read
  obtain ⟨ten, shown⟩ := Prod.mk.inj parts
  obtain ⟨-, -, -, names, named, count, split⟩ := lines_of_decode decoded
  have none : (names.map Name.lineFeedOctets).sum = 0 := by
    rw [← List.map_congr_left fun n _ => n.lineFeeds_text]
    show (names.map (lineFeeds ∘ Name.text)).sum = 0
    rw [← List.map_map, ← named, shown]
    rfl
  refine ⟨m, decoded, ?_, split.2 (sum_lineFeedOctets.1 none)⟩
  rw [count, ten, none]

/-- A response whose only question is for a name of one label, with a line feed in the label. -/
def lineFeedSample : Array UInt8 :=
  #[0, 1, 0x81, 0x80, 0, 1, 0, 0, 0, 0, 0, 0, 3, 97, 10, 98, 0, 0, 1, 0, 1]

/-- The sender of a message adds a line to its text: there are five lines to show, and six line
feeds. -/
theorem decode_lineFeedSample :
    ∃ m, decode lineFeedSample = .ok m ∧ m.status = .noError ∧ m.questions.length = 1 ∧
      m.answer.length = 0 ∧ m.authority.length = 0 ∧ m.additional.length = 0 ∧ m.trailing = 0 ∧
      m.lineCount = 5 ∧ lineFeeds m.text = 6 := by
  have read : (decode lineFeedSample).toOption.map (fun m => (m.isError, [m.questions.length,
      m.answer.length, m.authority.length, m.additional.length, m.trailing], m.lineCount,
        m.shownNames)) = some (false, [1, 0, 0, 0, 0], 5, ["a\nb"]) := by
    decide +kernel
  obtain ⟨m, decoded, parts⟩ := except_toOption_map_eq_some.1 read
  simp only [Prod.mk.injEq, List.cons.injEq, and_true] at parts
  obtain ⟨passed, ⟨questions, answer, authority, additional, trailing⟩, five, shown⟩ := parts
  refine ⟨m, decoded, isError_eq_false.1 passed, questions, answer, authority, additional,
    trailing, five, ?_⟩
  rw [lineFeeds_text, five, shown]
  rfl

end Message

end DnsWire

import DnsWire.Proofs.Message.Wire
import DnsWire.Proofs.Name.Spelled
import DnsWire.Proofs.Record.Strings

/-!
# The extent of record data

A record gives the number of octets of its data, and the data is neither shorter nor longer.

`RecordData.Stands` says which octets make up given data, one case per form, and a reader finds
the data exactly where it stands (`reader_eq_ok`). So what is left to say about a record is where
the bound is: `RecordData.decode` moves it to the end of the data, while the octets in front, into
which the pointers of a name lead, stay in sight. From this come the lengths that each type allows
(`RecordData.Fits`) and the two ways in which data misses its end (`decode_confined`).

Strings have no end of their own. They are cut short by the bound or reach it, so they never end
early, and are no `Steady` reader like the other forms (`steady_reader`, `reader_txt_cases`).
-/

namespace DnsWire

open Decoder

namespace RecordData

/-- The data stands in the window from `pos` on, and its octets end at `next`. -/
def Stands (w : Window) (pos next : Nat) : RecordData → Prop
  | .a address => w.Shows pos address.octets.toList ∧ next = pos + 4
  | .aaaa address => w.Shows pos address.octets.toList ∧ next = pos + 16
  | .cname target => Name.Stands w pos next target
  | .mx preference exchange =>
      w.Shows pos (octets16 preference) ∧ Name.Stands w (pos + 2) next exchange
  | .txt strings =>
      (∃ written : List Written.CharacterString,
        written.map Written.CharacterString.octets = strings ∧
          written.flatMap Written.CharacterString.wire = (w.octets.extract pos w.stop).toList) ∧
        next = w.stop
  | .unknown type octets =>
      type ∉ Written.knownTypes ∧ octets = (w.octets.extract pos w.stop).toList ∧ next = w.stop

/-- What the octets from `pos` up to the end of the window have to be for each type of data. -/
def Fits (w : Window) (pos : Nat) (type : RecordType) : Prop :=
  type = .a ∧ w.stop = pos + 4 ∨
  type = .aaaa ∧ w.stop = pos + 16 ∨
  type = .cname ∧ (∃ target, Name.Stands w pos w.stop target) ∨
  type = .mx ∧ pos + 2 ≤ w.stop ∧ (∃ exchange, Name.Stands w (pos + 2) w.stop exchange) ∨
  type = .txt ∧
    (∃ strings : List Written.CharacterString,
      strings.flatMap Written.CharacterString.wire = (w.octets.extract pos w.stop).toList) ∨
  type ∉ Written.knownTypes

variable {w : Window} {pos next size : Nat} {type : RecordType} {data : RecordData}

/-! ## Where data stands -/

/-- What a reader finds is of its type and stands there. -/
theorem stands_of_reader (le : pos ≤ w.stop) (h : reader type w pos = .ok (data, next)) :
    data.type = type ∧ data.Stands w pos next := by
  unfold reader at h
  split at h
  · next is =>
    obtain ⟨octets, _, read, last⟩ := bind_eq_ok.1 h
    cases last
    exact ⟨is.symm, vector_eq_ok_iff_shows.1 read⟩
  split at h
  · next is =>
    obtain ⟨octets, _, read, last⟩ := bind_eq_ok.1 h
    cases last
    exact ⟨is.symm, vector_eq_ok_iff_shows.1 read⟩
  split at h
  · next is =>
    obtain ⟨target, _, read, last⟩ := bind_eq_ok.1 h
    cases last
    exact ⟨is.symm, Name.decodeText_eq_ok.1 read⟩
  split at h
  · next is =>
    obtain ⟨preference, _, number, h⟩ := bind_eq_ok.1 h
    obtain ⟨exchange, _, read, last⟩ := bind_eq_ok.1 h
    cases last
    obtain ⟨shows, rfl⟩ := word16_eq_ok_iff_shows.1 number
    exact ⟨is.symm, shows, Name.decodeText_eq_ok.1 read⟩
  split at h
  · next is =>
    obtain ⟨strings, _, read, last⟩ := bind_eq_ok.1 h
    cases last
    rw [CharacterStrings.decode_apply le] at read
    split at read
    · next _ found =>
      cases read
      exact ⟨is.symm, Written.split_eq_some_iff.1 found, rfl⟩
    · cases read
  · next a aaaa cname mx txt =>
    obtain ⟨octets, _, all, last⟩ := bind_eq_ok.1 h
    cases last
    cases (rest_apply le).symm.trans all
    refine ⟨rfl, ?_, rfl, rfl⟩
    simp only [Written.knownTypes, List.mem_cons, List.not_mem_nil, or_false, not_or]
    exact ⟨a, aaaa, cname, mx, txt⟩

theorem reader_of_stands (le : pos ≤ w.stop) (h : data.Stands w pos next) :
    reader data.type w pos = .ok (data, next) := by
  cases data with
  | a address => exact bind_eq_ok.2 ⟨_, _, vector_eq_ok_iff_shows.2 h, rfl⟩
  | aaaa address => exact bind_eq_ok.2 ⟨_, _, vector_eq_ok_iff_shows.2 h, rfl⟩
  | cname target => exact bind_eq_ok.2 ⟨_, _, Name.decodeText_eq_ok.2 h, rfl⟩
  | mx preference exchange =>
      obtain ⟨number, name⟩ := h
      exact bind_eq_ok.2 ⟨_, _, word16_eq_ok_iff_shows.2 ⟨number, rfl⟩,
        bind_eq_ok.2 ⟨_, _, Name.decodeText_eq_ok.2 name, rfl⟩⟩
  | txt strings =>
      obtain ⟨written, rfl⟩ := h
      refine bind_eq_ok.2 ⟨strings, _, ?_, rfl⟩
      rw [CharacterStrings.decode_apply le, Written.split_eq_some_iff.2 written]
  | unknown type octets =>
      obtain ⟨unknown, rfl, rfl⟩ := h
      rw [RecordData.type, Written.reader_of_unknown unknown]
      exact bind_eq_ok.2 ⟨_, _, rest_apply le, rfl⟩

theorem reader_eq_ok (le : pos ≤ w.stop) :
    reader type w pos = .ok (data, next) ↔ data.type = type ∧ data.Stands w pos next := by
  refine ⟨stands_of_reader le, fun h => ?_⟩
  obtain ⟨rfl, stands⟩ := h
  exact reader_of_stands le stands

/-- Data is read where it stands and ends with the octets that it is given. -/
theorem decode_eq_ok :
    decode type size w pos = .ok (data, next) ↔
      ∃ le : pos + size ≤ w.stop, next = pos + size ∧ data.type = type ∧
        data.Stands (w.narrow (pos + size) le) pos next := by
  refine ⟨fun h => ?_, fun h => ?_⟩
  · obtain ⟨rfl, le⟩ := next_of_decode h
    obtain ⟨_, read, -⟩ := filling_eq_ok.1 h
    obtain ⟨kind, stands⟩ := stands_of_reader (Nat.le_add_right pos size) read
    exact ⟨le, rfl, kind, stands⟩
  · obtain ⟨le, rfl, rfl, stands⟩ := h
    exact filling_eq_ok.2 ⟨le, reader_of_stands (Nat.le_add_right _ _) stands, Nat.le_refl _⟩

/-! ## What each type asks for -/

theorem fits_of_stands (h : data.Stands w pos w.stop) : Fits w pos data.type := by
  cases data with
  | a address => exact .inl ⟨rfl, h.2⟩
  | aaaa address => exact .inr (.inl ⟨rfl, h.2⟩)
  | cname target => exact .inr (.inr (.inl ⟨rfl, target, h⟩))
  | mx preference exchange =>
      obtain ⟨number, name⟩ := h
      exact .inr (.inr (.inr (.inl ⟨rfl, number.room, exchange, name⟩)))
  | txt strings =>
      obtain ⟨⟨written, -, octets⟩, -⟩ := h
      exact .inr (.inr (.inr (.inr (.inl ⟨rfl, written, octets⟩))))
  | unknown type octets => exact .inr (.inr (.inr (.inr (.inr h.1))))

/-- Octets that are what a type asks for make up data of the type. -/
theorem exists_stands_iff :
    (∃ data : RecordData, data.type = type ∧ data.Stands w pos w.stop) ↔ Fits w pos type := by
  refine ⟨fun h => ?_, fun h => ?_⟩
  · obtain ⟨data, rfl, stands⟩ := h
    exact fits_of_stands stands
  · rcases h with ⟨rfl, full⟩ | ⟨rfl, full⟩ | ⟨rfl, target, name⟩ | ⟨rfl, two, exchange, name⟩ |
      ⟨rfl, written, octets⟩ | unknown
    · obtain ⟨octets, shows⟩ := exists_shows_vector (Nat.le_of_eq full.symm)
      exact ⟨.a ⟨octets⟩, rfl, shows, full⟩
    · obtain ⟨octets, shows⟩ := exists_shows_vector (Nat.le_of_eq full.symm)
      exact ⟨.aaaa ⟨octets⟩, rfl, shows, full⟩
    · exact ⟨.cname target, rfl, name⟩
    · obtain ⟨preference, number⟩ := exists_shows_octets16 two
      exact ⟨.mx preference exchange, rfl, number, name⟩
    · exact ⟨.txt _, rfl, ⟨written, rfl, octets⟩, rfl⟩
    · exact ⟨.unknown type _, rfl, unknown, rfl, rfl⟩

/-! ## Data that misses its end -/

/-- Data with an end of its own is the same under every bound behind that end. -/
theorem steady_reader (known : type ∈ Written.knownTypes) (ends : type ≠ .txt) :
    Steady (reader type) := by
  unfold reader
  split
  · exact (steady_vector 4).bind fun _ => Steady.pure _
  split
  · exact (steady_vector 16).bind fun _ => Steady.pure _
  split
  · exact steady_nameText.bind fun _ => Steady.pure _
  split
  · exact steady_word16.bind fun _ => steady_nameText.bind fun _ => Steady.pure _
  · next a aaaa cname mx =>
    simp only [Written.knownTypes, List.mem_cons, List.not_mem_nil, or_false] at known
    rcases known with is | is | is | is | is
    · exact absurd is a
    · exact absurd is aaaa
    · exact absurd is cname
    · exact absurd is mx
    · exact absurd is ends

/-- Strings reach the end of the window, or the last one is cut short. -/
theorem reader_txt_cases (le : pos ≤ w.stop) :
    (∃ strings, reader .txt w pos = .ok (.txt strings, w.stop)) ∨
      reader .txt w pos = .error .truncated := by
  have read := CharacterStrings.decode_apply le
  cases found : CharacterStrings.split (w.octets.extract pos w.stop).toList with
  | none =>
      rw [found] at read
      exact Or.inr (bind_eq_error.2 (Or.inl read))
  | some strings =>
      rw [found] at read
      exact Or.inl ⟨strings, bind_eq_ok.2 ⟨_, _, read, rfl⟩⟩

/-- **Record data fills its octets.** Too few octets are an error. Otherwise the outcome hangs on
the octets up to the end of the data alone, and data is read if and only if these octets are what
its type asks for; the value is then the one that stands there. Data of a known type that stands
there and ends early leaves octets over. Data that stands in some longer message and ends beyond
is cut short, and so are strings whenever they are refused. -/
theorem decode_confined (type : RecordType) (size : Nat) (w : Window) (pos : Nat) :
    (w.stop < pos + size → decode type size w pos = .error .truncated) ∧
    ∀ le : pos + size ≤ w.stop,
      (∀ v : Window, pos + size ≤ v.stop →
        (∀ i, i < pos + size → v.octets[i]? = w.octets[i]?) →
          decode type size v pos = decode type size w pos) ∧
      ((∃ data next, decode type size w pos = .ok (data, next)) ↔
        Fits (w.narrow (pos + size) le) pos type) ∧
      (∀ (data : RecordData) next, decode type size w pos = .ok (data, next) ↔
        next = pos + size ∧ data.type = type ∧
          data.Stands (w.narrow (pos + size) le) pos next) ∧
      (∀ (data : RecordData) next, data.type = type → type ∈ Written.knownTypes →
        data.Stands (w.narrow (pos + size) le) pos next → next < pos + size →
          decode type size w pos = .error (.form .trailingData)) ∧
      (∀ (v : Window) (data : RecordData) next, w.Begins v → data.type = type →
        type ∈ Written.knownTypes → type ≠ .txt → data.Stands v pos next → pos + size < next →
          decode type size w pos = .error .truncated) ∧
      (∀ e, type = .txt → decode type size w pos = .error e → e = .truncated) := by
  refine ⟨filling_of_short, fun le => ?_⟩
  have start : pos ≤ (w.narrow (pos + size) le).stop := Nat.le_add_right pos size
  have read : ∀ (data : RecordData) next, decode type size w pos = .ok (data, next) ↔
      next = pos + size ∧ data.type = type ∧ data.Stands (w.narrow (pos + size) le) pos next :=
    fun data next => decode_eq_ok.trans ⟨fun h => h.2, fun h => ⟨le, h⟩⟩
  refine ⟨?_, ?_, read, ?_, ?_, ?_⟩
  · intro v room agree
    have begins : (w.narrow (pos + size) le).Begins v := ⟨room, fun i lt => (agree i lt).symm⟩
    unfold decode
    rw [← (confined_recordData type).filling_eq begins (Nat.le_refl _),
      ← (confined_recordData type).filling_eq (w.begins_narrow le) (Nat.le_refl _)]
  · rw [← exists_stands_iff]
    refine ⟨fun h => ?_, fun h => ?_⟩
    · obtain ⟨data, next, h⟩ := h
      obtain ⟨rfl, kind, stands⟩ := (read data next).1 h
      exact ⟨data, kind, stands⟩
    · obtain ⟨data, kind, stands⟩ := h
      exact ⟨data, _, (read data _).2 ⟨rfl, kind, stands⟩⟩
  · intro data next kind _ stands early
    exact filling_of_early le ((reader_eq_ok start).2 ⟨kind, stands⟩) early
  · intro v data next begins kind known ends stands beyond
    -- The data as it would be read without the end that the record gives.
    have begins := (w.begins_narrow le).trans begins
    have whole := (reader_eq_ok (Nat.le_trans start begins.stop_le)).2 ⟨kind, stands⟩
    exact filling_of_error le
      ((steady_reader known ends).truncated_of_begins begins start whole beyond)
  · intro e text fails
    subst text
    rcases reader_txt_cases start with ⟨strings, within⟩ | short
    · cases (filling_eq_ok.2 ⟨le, within, Nat.le_refl _⟩).symm.trans fails
    · cases (filling_of_error le short).symm.trans fails
      rfl

/-- A message with the name `com` at its start and mail data behind it, with a pointer to that name
and one more octet at the end. -/
def mailSample : Array UInt8 :=
  #[3, 99, 111, 109, 0, 0, 10, 4, 109, 97, 105, 108, 0xC0, 0, 7]

/-- The data has nine octets, and no other number of octets is right. -/
theorem decode_mailSample :
    decode .mx 9 (.whole mailSample) 5 = .ok (.mx 10 "mail.com", 14) ∧
      decode .mx 8 (.whole mailSample) 5 = .error .truncated ∧
      decode .mx 10 (.whole mailSample) 5 = .error (.form .trailingData) ∧
      decode .mx 11 (.whole mailSample) 5 = .error .truncated := by
  have spells : ∀ bound, 14 ≤ bound →
      Name.Spells mailSample bound 7 7 [[109, 97, 105, 108], [99, 111, 109]] 1 14 := by
    intro bound le
    have com : Name.Spells mailSample bound 0 0 [[99, 111, 109]] 0 5 :=
      .label rfl (by decide) (by decide) (Nat.lt_of_lt_of_le (by decide) le) rfl
        (.root (Nat.le_trans (by decide) le) rfl)
    exact .label rfl (by decide) (by decide) (Nat.lt_of_lt_of_le (by decide) le) rfl
      (.pointer (Nat.le_trans (by decide) le) rfl (by decide) rfl rfl (by decide) com)
  have stands : ∀ w : Window, w.octets = mailSample → 14 ≤ w.stop →
      Stands w 5 14 (.mx 10 "mail.com") := by
    intro w octets le
    refine ⟨?_, _, _, octets ▸ spells w.stop le, by decide, by decide, by rfl⟩
    rw [Window.shows_iff, octets]
    exact ⟨Nat.le_trans (by decide) le, by decide⟩
  have begins := Window.Begins.refl (.whole mailSample)
  have filled := (decode_confined .mx 9 (.whole mailSample) 5).2 (by decide)
  have early := (decode_confined .mx 10 (.whole mailSample) 5).2 (by decide)
  have beyond := (decode_confined .mx 8 (.whole mailSample) 5).2 (by decide)
  refine ⟨?_, ?_, ?_, ?_⟩
  · exact (filled.2.2.1 _ _).2 ⟨rfl, rfl, stands _ rfl (Nat.le_refl _)⟩
  · exact beyond.2.2.2.2.1 (.whole mailSample) (.mx 10 "mail.com") 14 begins rfl (by decide)
      (by decide) (stands _ rfl (by decide)) (by decide)
  · exact early.2.2.2.1 (.mx 10 "mail.com") 14 rfl (by decide) (stands _ rfl (by decide))
      (by decide)
  · exact (decode_confined .mx 11 (.whole mailSample) 5).1 (by decide)

end RecordData

end DnsWire

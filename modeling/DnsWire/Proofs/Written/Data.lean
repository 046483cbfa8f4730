import DnsWire.Proofs.Decoder.Shows
import DnsWire.Proofs.Name.Wire
import DnsWire.Record.Data

/-!
# Record data as it is written

The data of records in the form of RFC 1035, with names as sequences of labels and no pointers
(`Written.Data.wire`), and what a reader is to make of it (`Written.Data.read`). The types rule
out what cannot be written: a character string has at most 255 octets, and data of a type with a
form of its own has that form.

Data is read back where it stands, provided that the window ends with it
(`Written.Data.reader_of_shows`). The strings of a text and data of other types have no end of
their own, so without the bound they would take what follows.
-/

namespace DnsWire

open Decoder

namespace Written

/-- A character string. Its size has to fit into the octet in front. -/
structure CharacterString where
  octets : List UInt8
  size_le : octets.length ≤ 255

/-- A string behind its size. -/
def CharacterString.wire (s : CharacterString) : List UInt8 :=
  UInt8.ofNat s.octets.length :: s.octets

/-- The types whose data has a form of its own. -/
def knownTypes : List RecordType :=
  [.a, .aaaa, .cname, .mx, .txt]

/-- The data of a record. -/
inductive Data where
  | a (address : Ipv4)
  | aaaa (address : Ipv6)
  | cname (target : Name)
  | mx (preference : UInt16) (exchange : Name)
  | txt (strings : List CharacterString)
  /-- Octets of any other type, to which no form is known. -/
  | other (type : RecordType) (octets : List UInt8) (unknown : type ∉ knownTypes)

namespace Data

/-- The type of the data. -/
def type : Data → RecordType
  | a _ => .a
  | aaaa _ => .aaaa
  | cname _ => .cname
  | mx _ _ => .mx
  | txt _ => .txt
  | other type _ _ => type

/-- Data in wire format, without compression. -/
def wire : Data → List UInt8
  | a address => address.octets.toList
  | aaaa address => address.octets.toList
  | cname target => target.wire
  | mx preference exchange => octets16 preference ++ exchange.wire
  | txt strings => strings.flatMap CharacterString.wire
  | other _ octets _ => octets

/-- What the data is read as: names become texts. -/
def read : Data → RecordData
  | a address => .a address
  | aaaa address => .aaaa address
  | cname target => .cname target.text
  | mx preference exchange => .mx preference exchange.text
  | txt strings => .txt (strings.map CharacterString.octets)
  | other type octets _ => .unknown type octets

end Data

/-! ## Reading back -/

/-- Strings that are written one behind the other are the strings in these octets. -/
theorem split_flatMap_wire (strings : List CharacterString) :
    CharacterStrings.split (strings.flatMap CharacterString.wire) =
      some (strings.map CharacterString.octets) := by
  induction strings with
  | nil => exact CharacterStrings.split_nil
  | cons s strings ih =>
      have size : (UInt8.ofNat s.octets.length).toNat = s.octets.length := by
        have := s.size_le
        rw [UInt8.toNat_ofNat']
        omega
      rw [List.flatMap_cons, CharacterString.wire, List.cons_append, CharacterStrings.split_cons,
        size, List.take_left, if_pos rfl, List.drop_left, ih]
      rfl

/-- Whatever octets are split were written as strings one behind the other. -/
theorem exists_written_of_split {octets : List UInt8} {strings : List (List UInt8)}
    (h : CharacterStrings.split octets = some strings) :
    ∃ written : List CharacterString,
      written.map CharacterString.octets = strings ∧
        written.flatMap CharacterString.wire = octets := by
  induction size : octets.length using Nat.strongRecOn generalizing octets strings with
  | ind n ih =>
      cases octets with
      | nil =>
          rw [CharacterStrings.split_nil] at h
          cases h
          exact ⟨[], rfl, rfl⟩
      | cons first rest =>
          have shorter : (rest.drop first.toNat).length < n := by
            rw [← size, List.length_cons, List.length_drop]
            omega
          rw [CharacterStrings.split_cons] at h
          split at h
          · next complete =>
              obtain ⟨others, tail, rfl⟩ := Option.map_eq_some_iff.1 h
              obtain ⟨written, rfl, behind⟩ := ih _ shorter tail rfl
              have le : (rest.take first.toNat).length ≤ 255 := by
                have := first.toNat_lt
                omega
              refine ⟨⟨rest.take first.toNat, le⟩ :: written, rfl, ?_⟩
              rw [List.flatMap_cons, behind, CharacterString.wire, complete, UInt8.ofNat_toNat,
                List.cons_append, List.take_append_drop]
          · cases h

/-- Octets are split into strings exactly where they are these strings, each behind its size. -/
theorem split_eq_some_iff {octets : List UInt8} {strings : List (List UInt8)} :
    CharacterStrings.split octets = some strings ↔
      ∃ written : List CharacterString,
        written.map CharacterString.octets = strings ∧
          written.flatMap CharacterString.wire = octets := by
  refine ⟨exists_written_of_split, fun h => ?_⟩
  obtain ⟨written, rfl, rfl⟩ := h
  exact split_flatMap_wire written

variable {w : Window} {pos : Nat}

theorem reader_of_unknown {type : RecordType} (unknown : type ∉ knownTypes) :
    RecordData.reader type = RecordData.decodeUnknown type := by
  simp only [knownTypes, List.mem_cons, List.not_mem_nil, or_false, not_or] at unknown
  obtain ⟨a, aaaa, cname, mx, txt⟩ := unknown
  unfold RecordData.reader
  rw [if_neg a, if_neg aaaa, if_neg cname, if_neg mx, if_neg txt]

/-- Data is read back where it stands, if the window ends with it. -/
theorem Data.reader_of_shows {d : Data} (shows : w.Shows pos d.wire)
    (full : w.stop = pos + d.wire.length) :
    RecordData.reader d.type w pos = .ok (d.read, pos + d.wire.length) := by
  cases d with
  | a address =>
      rw [wire, Vector.length_toList]
      exact bind_eq_ok.2 ⟨_, _, vector_of_shows shows, rfl⟩
  | aaaa address =>
      rw [wire, Vector.length_toList]
      exact bind_eq_ok.2 ⟨_, _, vector_of_shows shows, rfl⟩
  | cname target =>
      exact bind_eq_ok.2 ⟨_, _, Name.decodeText_of_shows shows, rfl⟩
  | mx preference exchange =>
      obtain ⟨number, name⟩ := Window.shows_append.1 shows
      rw [wire, List.length_append, ← Nat.add_assoc]
      exact bind_eq_ok.2 ⟨_, _, word16_eq_ok_iff_shows.2 ⟨number, rfl⟩,
        bind_eq_ok.2 ⟨_, _, Name.decodeText_of_shows name, rfl⟩⟩
  | txt strings =>
      refine bind_eq_ok.2 ⟨strings.map CharacterString.octets, _, ?_, rfl⟩
      refine bind_eq_ok.2 ⟨_, _, rest_of_shows shows full, ?_⟩
      rw [wire, split_flatMap_wire]
      rfl
  | other type octets unknown =>
      rw [Data.type, reader_of_unknown unknown]
      exact bind_eq_ok.2 ⟨_, _, rest_of_shows shows full, rfl⟩

end Written

end DnsWire

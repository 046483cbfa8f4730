import DnsWire.Header
import DnsWire.Proofs.Decoder.Shows

/-!
# The header section and its octets

Reading a header section and writing it are inverse to each other: a section is read from a
position exactly where its wire format stands (`HeaderSection.decode_eq_ok`). Whether a message
reports an error is seen from one bit of its third octet and four bits of its fourth.
-/

namespace DnsWire

open Decoder

variable {w : Window} {pos next : Nat}

theorem Header.decode_eq_ok {h : Header} :
    Header.decode w pos = .ok (h, next) ↔ w.Shows pos h.wire ∧ next = pos + 4 := by
  unfold Header.decode
  simp only [bind_eq_ok, vector_eq_ok_iff_shows, pure_apply, Except.ok.injEq, Prod.mk.injEq]
  constructor
  · intro h
    obtain ⟨octets, _, ⟨shows, rfl⟩, rfl, rfl⟩ := h
    exact ⟨shows, rfl⟩
  · intro h
    obtain ⟨shows, rfl⟩ := h
    exact ⟨h.octets, _, ⟨shows, rfl⟩, rfl, rfl⟩

theorem Counts.decode_eq_ok {c : Counts} :
    Counts.decode w pos = .ok (c, next) ↔ w.Shows pos c.wire ∧ next = pos + 8 := by
  unfold Counts.decode
  simp only [bind_eq_ok, vector_eq_ok_iff_shows, pure_apply, Except.ok.injEq, Prod.mk.injEq]
  constructor
  · intro h
    obtain ⟨octets, _, ⟨shows, rfl⟩, rfl, rfl⟩ := h
    exact ⟨shows, rfl⟩
  · intro h
    obtain ⟨shows, rfl⟩ := h
    exact ⟨c.octets, _, ⟨shows, rfl⟩, rfl, rfl⟩

/-- A header section is read exactly where its wire format stands. -/
theorem HeaderSection.decode_eq_ok {s : HeaderSection} :
    HeaderSection.decode w pos = .ok (s, next) ↔
      w.Shows pos s.wire ∧ next = pos + HeaderSection.size := by
  rw [wire, Window.shows_append]
  unfold HeaderSection.decode
  simp only [bind_eq_ok, Header.decode_eq_ok, Counts.decode_eq_ok, pure_apply, Except.ok.injEq,
    Prod.mk.injEq, Header.length_wire]
  constructor
  · intro h
    obtain ⟨_, _, ⟨at_header, rfl⟩, _, _, ⟨at_counts, rfl⟩, rfl, rfl⟩ := h
    exact ⟨⟨at_header, at_counts⟩, rfl⟩
  · intro h
    obtain ⟨⟨at_header, at_counts⟩, rfl⟩ := h
    exact ⟨_, _, ⟨at_header, rfl⟩, _, _, ⟨at_counts, rfl⟩, rfl, rfl⟩

/-- There is a header section only in a message that is as long. -/
theorem HeaderSection.size_le_of_shows {octets : Array UInt8} {s : HeaderSection}
    (h : (Window.whole octets).Shows 0 s.wire) : size ≤ octets.size := by
  have room := h.room
  rwa [length_wire, Nat.zero_add] at room

/-! ## The bits that report an error -/

/-- A message is a response when the most significant bit of its third octet is set. -/
theorem Header.qr_iff (h : Header) : h.flags.qr = true ↔ 128 ≤ (h.octet 2).toNat := by
  have bit (x : BitVec 8) :
      (UInt8.ofBitVec x &&& (1 : UInt8) <<< (7 : UInt8) != 0) = true ↔ 128 ≤ x.toNat := by
    revert x
    decide +kernel
  exact bit (h.octet 2).toBitVec

theorem Header.toNat_responseCode (h : Header) :
    h.responseCode.code.toNat = (h.octet 3).toNat % 16 := by
  have bits (x : BitVec 8) :
      (ResponseCode.ofOctet (UInt8.ofBitVec x &&& 0x0F)).code.toNat = x.toNat % 16 := by
    revert x
    decide +kernel
  exact bits (h.octet 3).toBitVec

theorem ResponseCode.bne_noError {r : ResponseCode} :
    (r != .noError) = true ↔ r.code.toNat ≠ 0 := by
  have codes : (r != .noError) = (r.code != 0) := rfl
  rw [codes, bne_iff_ne, Ne, ← UInt8.toNat_inj]
  rfl

/-- The code of a message is zero when the four low bits of its fourth octet are. -/
theorem Header.responseCode_bne_iff (h : Header) :
    (h.responseCode != .noError) = true ↔ (h.octet 3).toNat % 16 ≠ 0 := by
  rw [ResponseCode.bne_noError, toNat_responseCode]

end DnsWire

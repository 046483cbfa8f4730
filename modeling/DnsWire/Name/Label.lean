import DnsWire.Decoder
import DnsWire.Text.Utf8

/-!
# Labels

A name is a sequence of labels. On the wire each of them follows an octet that gives its size,
and the same octet can instead end the name or begin a pointer to the rest of it.

* `Label` — one label: between 1 and 63 octets, any octets.
* `LabelHead` — what the octet in front says: the end of the name, a label of some size, or a
  pointer with the offset at which to go on.
-/

namespace DnsWire

/-- The greatest number of octets in a label. -/
def Label.maxSize : Nat := 63

/-- One label of a name. -/
structure Label where
  /-- The octets, without the one that gives their number. -/
  octets : List UInt8
  /-- The empty label ends a name and is no part of it. -/
  size_pos : 0 < octets.length
  /-- The two high bits of the octet in front are zero. -/
  size_le : octets.length ≤ Label.maxSize
  deriving DecidableEq, Repr

namespace Label

/-- The number of octets of the label. -/
def size (l : Label) : Nat :=
  l.octets.length

/-- The number of octets of the label in wire format. -/
def wireSize (l : Label) : Nat :=
  l.size + 1

/-- The label in wire format: its size and its octets. -/
def wire (l : Label) : List UInt8 :=
  UInt8.ofNat l.size :: l.octets

@[simp] theorem length_wire (l : Label) : l.wire.length = l.wireSize := rfl

/-- The label with these octets. -/
def ofVector {size : Nat} (octets : Vector UInt8 size) (pos : 0 < size) (le : size ≤ maxSize) :
    Label :=
  ⟨octets.toList, by simpa using pos, by simpa using le⟩

@[simp] theorem size_ofVector {size : Nat} (octets : Vector UInt8 size) (pos : 0 < size)
    (le : size ≤ maxSize) : (ofVector octets pos le).size = size := by
  simp [ofVector, Label.size]

/-- The label as text. -/
def text (l : Label) : List Char :=
  Utf8.decode l.octets

/-- The label that spells one part of a host name. -/
def ofText (part : List Char) : Except EncodeError Label :=
  let octets := Utf8.encode part
  if pos : 0 < octets.length then
    if le : octets.length ≤ maxSize then .ok ⟨octets, pos, le⟩ else .error .labelTooLong
  else .error .emptyLabel

end Label

/-- What the first octet of a label says. -/
inductive LabelHead where
  /-- The empty label, which ends the name. -/
  | root
  /-- A label with as many octets as `size` says, which follow. -/
  | label (size : { n : Nat // 0 < n ∧ n ≤ Label.maxSize })
  /-- A pointer to the rest of the name at another place of the message. -/
  | pointer (target : Nat)
  deriving DecidableEq

namespace LabelHead

/-- Reads what stands in front of a label. Both octets of a pointer are taken; the octets of the
label itself are left. -/
def decode : Decoder LabelHead := do
  let first ← Decoder.octet
  if first = 0 then return .root
  else if h : 0 < first.toNat ∧ first.toNat ≤ Label.maxSize then return .label ⟨first.toNat, h⟩
  else if first < 0xC0 then Decoder.fail (.form .invalidLabelType)
  else
    let second ← Decoder.octet
    return .pointer (256 * (first.toNat % 64) + second.toNat)

end LabelHead

end DnsWire

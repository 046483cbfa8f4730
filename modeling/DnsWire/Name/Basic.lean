import DnsWire.Name.Label

/-!
# Domain names

A `Name` is a sequence of labels that fits into 255 octets of wire format, the empty label that
ends it included.

* `Name.wire` — the labels one behind the other, and a zero octet.
* `Name.text` — the labels joined by dots; the name without labels is written as one dot.
* `Name.ofHostName` — the name that a host name spells, with or without a dot at its end.

The text says less than the name: a label may hold a dot or octets that are not UTF-8.
-/

namespace DnsWire

/-- The number of octets that labels take in wire format, without the one that ends the name. -/
def Label.wireSizes : List Label → Nat
  | [] => 0
  | l :: labels => l.wireSize + wireSizes labels

@[simp] theorem Label.wireSizes_nil : Label.wireSizes [] = 0 := rfl

@[simp] theorem Label.wireSizes_cons (l : Label) (labels : List Label) :
    Label.wireSizes (l :: labels) = l.wireSize + Label.wireSizes labels := rfl

theorem Label.length_flatMap_wire (labels : List Label) :
    (labels.flatMap Label.wire).length = Label.wireSizes labels := by
  induction labels with
  | nil => rfl
  | cons l labels ih => rw [List.flatMap_cons, List.length_append, ih, length_wire, wireSizes_cons]

/-- The greatest number of octets of a name in wire format. -/
def Name.maxWireSize : Nat := 255

/-- A domain name. -/
structure Name where
  /-- The labels from the most specific to the least specific one. -/
  labels : List Label
  /-- Labels and root take at most 255 octets. -/
  fits : Label.wireSizes labels + 1 ≤ Name.maxWireSize
  deriving DecidableEq, Repr

namespace Name

/-- The number of octets of the name in wire format. -/
def wireSize (n : Name) : Nat :=
  Label.wireSizes n.labels + 1

/-- The name in wire format, without compression. -/
def wire (n : Name) : List UInt8 :=
  n.labels.flatMap Label.wire ++ [0]

@[simp] theorem length_wire (n : Name) : n.wire.length = n.wireSize := by
  rw [wire, List.length_append, Label.length_flatMap_wire]
  rfl

/-- The text of a sequence of labels. -/
def textOf (labels : List Label) : List Char :=
  if labels.isEmpty then ['.'] else ['.'].intercalate (labels.map Label.text)

/-- The name as text, without a dot at its end unless it is the root. -/
def text (n : Name) : String :=
  String.ofList (textOf n.labels)

/-- A host name without the one dot that may stand at its end. -/
def withoutFinalDot (host : List Char) : List Char :=
  if host.getLast? = some '.' then host.dropLast else host

/-- The parts of a host name between its dots; none if there is nothing but one dot. -/
def parts (host : List Char) : List (List Char) :=
  let spelled := withoutFinalDot host
  if spelled.isEmpty then [] else spelled.splitOn '.'

/-- The name that a host name spells. The leftmost part that is no label decides the error. -/
def ofHostName (host : String) : Except EncodeError Name := do
  let labels ← (parts host.toList).mapM Label.ofText
  if fits : Label.wireSizes labels + 1 ≤ maxWireSize then .ok ⟨labels, fits⟩
  else .error .longName

/-- A host name in wire format. -/
def encode (host : String) : Except EncodeError (List UInt8) :=
  (ofHostName host).map wire

end Name

end DnsWire

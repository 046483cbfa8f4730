import DnsWire.Decoder
import DnsWire.Text.Ascii
import DnsWire.Text.Decimal
import DnsWire.Text.Utf8

/-!
# Character strings

The data of a text record is a sequence of character strings, each behind an octet that gives its
size.

* `CharacterStrings.split` — the strings in a run of octets, if nothing is cut short.
* `CharacterStrings.joined` — the strings as one text, for a quick look.
* `CharacterStrings.quoted` — the strings as a master file holds them: each in quotes, with a
  backslash in front of a quote or a backslash, and a backslash and three digits in place of
  every octet that is not printable ASCII.
-/

namespace DnsWire.CharacterStrings

/-! ## Wire format -/

/-- The strings in a run of octets, behind those already found, which come last one first. -/
def splitOnto (found : List (List UInt8)) : List UInt8 → Option (List (List UInt8))
  | [] => some found.reverse
  | size :: rest =>
    let string := rest.take size.toNat
    if string.length = size.toNat then splitOnto (string :: found) (rest.drop size.toNat)
    else none
termination_by octets => octets.length
decreasing_by
  simp only [List.length_drop, List.length_cons]
  omega

/-- The strings in a run of octets; nothing if the last one is cut short. -/
def split (octets : List UInt8) : Option (List (List UInt8)) :=
  splitOnto [] octets

theorem splitOnto_cons (found : List (List UInt8)) (size : UInt8) (rest : List UInt8) :
    splitOnto found (size :: rest) =
      if (rest.take size.toNat).length = size.toNat then
        splitOnto (rest.take size.toNat :: found) (rest.drop size.toNat)
      else none := by
  rw [splitOnto]

theorem splitOnto_eq (found : List (List UInt8)) (octets : List UInt8) :
    splitOnto found octets = (split octets).map (found.reverse ++ ·) := by
  induction size : octets.length using Nat.strongRecOn generalizing found octets with
  | ind n ih =>
    match octets with
    | [] => simp [split, splitOnto]
    | first :: rest =>
      have shorter : (rest.drop first.toNat).length < n := by
        simp only [List.length_cons] at size
        simp only [List.length_drop]
        omega
      simp only [split, splitOnto_cons]
      split
      · rw [ih _ shorter _ _ rfl, ih _ shorter _ _ rfl]
        simp [Function.comp_def]
      · rfl

/-- No octets hold no strings. -/
@[simp] theorem split_nil : split [] = some [] := by
  simp [split, splitOnto]

/-- The first string stands in front of those in the octets behind it. -/
theorem split_cons (size : UInt8) (rest : List UInt8) :
    split (size :: rest) =
      if (rest.take size.toNat).length = size.toNat then
        (split (rest.drop size.toNat)).map (rest.take size.toNat :: ·)
      else none := by
  rw [split, splitOnto_cons]
  split
  · rw [splitOnto_eq]
    rfl
  · rfl

/-- Reads strings up to the end of the window. -/
def decode : Decoder (List (List UInt8)) := do
  let octets ← Decoder.rest
  match split octets with
  | some strings => return strings
  | none => Decoder.fail .truncated

/-! ## Text -/

/-- The text so far with one more string behind it. A space goes in between once there is text. -/
def join (text : String) (string : List UInt8) : String :=
  (if text.isEmpty then text else text.push ' ') ++ String.ofList (Utf8.decode string)

/-- The strings as one text, for a quick look. -/
def joined (strings : List (List UInt8)) : String :=
  strings.foldl join ""

/-- An octet inside quotes. -/
def quotedOctet (octet : UInt8) : List Char :=
  if octet = 0x22 ∨ octet = 0x5C then ['\\', Char.ofUInt8 octet]
  else if Ascii.isPrintable octet then [Char.ofUInt8 octet]
  else '\\' :: Decimal.padded 3 octet.toNat

/-- A string in quotes. -/
def quotedString (string : List UInt8) : List Char :=
  '"' :: string.flatMap quotedOctet ++ ['"']

/-- The strings in quotes, with a space between neighbours. -/
def quoted (strings : List (List UInt8)) : List Char :=
  [' '].intercalate (strings.map quotedString)

end DnsWire.CharacterStrings

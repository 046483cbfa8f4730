import DnsWire.Octets
import DnsWire.Text.Decimal

/-!
# Internet addresses

Addresses are octets in the order of the wire.

* `Ipv4.text` — the four numbers joined by dots.
* `Ipv6.text` — eight groups of hexadecimal digits, in lower case and without zeros in front, with
  two colons for the longest run of zero groups, the first one if there are several; one zero
  group is written out. Only the addresses that stand for an IPv4 address end in its dotted form.
-/

namespace DnsWire

/-- An IPv4 address. -/
structure Ipv4 where
  /-- The four octets in the order of the wire. -/
  octets : Vector UInt8 4
  deriving DecidableEq, Ord, Repr

/-- The four numbers joined by dots. -/
def Ipv4.text (a : Ipv4) : String :=
  ".".intercalate (a.octets.toList.map fun octet => toString octet.toNat)

/-- An IPv6 address. -/
structure Ipv6 where
  /-- The sixteen octets in the order of the wire. -/
  octets : Vector UInt8 16
  deriving DecidableEq, Ord, Repr

namespace Ipv6

/-- The eight groups of an address. -/
def groups (a : Ipv6) : Vector UInt16 8 :=
  Vector.ofFn fun i => word16 a.octets[2 * i.val] a.octets[2 * i.val + 1]

/-- The address with these eight groups. -/
def ofGroups (groups : Vector UInt16 8) : Ipv6 :=
  ⟨⟨(groups.toList.flatMap octets16).toArray, by simp [List.length_flatMap, List.map_const']⟩⟩

/-- The number of zero groups at the front. -/
def leadingZeros (groups : List UInt16) : Nat :=
  (groups.takeWhile (· == 0)).length

/-- Where the first of the longest runs of zero groups begins, and its length. -/
def longestZeros (groups : List UInt16) : Nat × Nat :=
  (List.range groups.length).foldl (fun best start =>
    let length := leadingZeros (groups.drop start)
    if best.2 < length then (start, length) else best) (0, 0)

/-- The hexadecimal digits of groups, joined by colons. -/
def groupsText (groups : List UInt16) : String :=
  ":".intercalate (groups.map fun group => String.ofList (Nat.toDigits 16 group.toNat))

/-- The IPv4 address that the address stands for: ten zero octets and two octets FF go before
it. -/
def mapped? (a : Ipv6) : Option Ipv4 :=
  if a.groups.toList.take 6 = [0, 0, 0, 0, 0, 0xFFFF] then
    some ⟨#v[a.octets[12], a.octets[13], a.octets[14], a.octets[15]]⟩
  else none

/-- The shortest text of an address. -/
def text (a : Ipv6) : String :=
  match a.mapped? with
  | some v4 => "::ffff:" ++ v4.text
  | none =>
    let groups := a.groups.toList
    let (start, length) := longestZeros groups
    if 1 < length then
      groupsText (groups.take start) ++ "::" ++ groupsText (groups.drop (start + length))
    else groupsText groups

end Ipv6

end DnsWire

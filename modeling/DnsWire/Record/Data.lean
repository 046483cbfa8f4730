import DnsWire.Address.Ip
import DnsWire.Code.RecordType
import DnsWire.Name.Walk
import DnsWire.Record.CharacterStrings
import DnsWire.Record.Generic

/-!
# Record data

What a record says about its name. Five types have a form of their own; the data of every other
type is kept as octets, so that no type makes a message unreadable.

Names are kept as text, and their pointers lead anywhere into the message, but data itself takes
up exactly the octets that the record gives for it.
-/

namespace DnsWire

/-- The data of a record. -/
inductive RecordData where
  /-- An IPv4 address. -/
  | a (address : Ipv4)
  /-- An IPv6 address. -/
  | aaaa (address : Ipv6)
  /-- The name that the owner is an alias for. -/
  | cname (target : String)
  /-- A host that accepts mail, and its rank among others; the lowest number comes first. -/
  | mx (preference : UInt16) (exchange : String)
  /-- Strings of text. -/
  | txt (strings : List (List UInt8))
  /-- The octets of data of another type. -/
  | unknown (type : RecordType) (octets : List UInt8)
  deriving DecidableEq

namespace RecordData

/-- The type of the data. -/
def type : RecordData → RecordType
  | .a _ => .a
  | .aaaa _ => .aaaa
  | .cname _ => .cname
  | .mx _ _ => .mx
  | .txt _ => .txt
  | .unknown type _ => type

/-- Whether the data has a form of its own. -/
def isSupported : RecordData → Bool
  | .unknown _ _ => false
  | _ => true

/-- Data as text. -/
def text : RecordData → String
  | .a address => address.text
  | .aaaa address => address.text
  | .cname target => target
  | .mx preference exchange => toString preference.toNat ++ " " ++ exchange
  | .txt strings => String.ofList (CharacterStrings.quoted strings)
  | .unknown _ octets => String.ofList (Generic.chars octets)

/-! ## Reading -/

/-- Reads an IPv4 address. -/
def decodeA : Decoder RecordData := do
  let octets ← Decoder.vector 4
  return .a ⟨octets⟩

/-- Reads an IPv6 address. -/
def decodeAaaa : Decoder RecordData := do
  let octets ← Decoder.vector 16
  return .aaaa ⟨octets⟩

/-- Reads the name behind an alias. -/
def decodeCname : Decoder RecordData := do
  let target ← Name.decodeText
  return .cname target

/-- Reads a mail host and its rank. -/
def decodeMx : Decoder RecordData := do
  let preference ← Decoder.word16
  let exchange ← Name.decodeText
  return .mx preference exchange

/-- Reads strings of text up to the end of the window. -/
def decodeTxt : Decoder RecordData := do
  let strings ← CharacterStrings.decode
  return .txt strings

/-- Keeps all octets up to the end of the window. -/
def decodeUnknown (type : RecordType) : Decoder RecordData := do
  let octets ← Decoder.rest
  return .unknown type octets

/-- The reader for data of a type. -/
def reader (type : RecordType) : Decoder RecordData :=
  if type = .a then decodeA
  else if type = .aaaa then decodeAaaa
  else if type = .cname then decodeCname
  else if type = .mx then decodeMx
  else if type = .txt then decodeTxt
  else decodeUnknown type

/-- Reads data of a type that takes up exactly `size` octets. -/
def decode (type : RecordType) (size : Nat) : Decoder RecordData :=
  Decoder.filling size (reader type)

end RecordData

end DnsWire

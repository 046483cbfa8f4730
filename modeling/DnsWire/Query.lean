import DnsWire.Message.Basic

/-!
# Queries

A query is a message with one question of class internet that asks the server to do the whole
work. `QueryType` holds the types of records that a query can be made for, and `Query.encode`
writes the query.
-/

namespace DnsWire

/-- The types of records that a query can be made for. -/
inductive QueryType where
  /-- IPv4 addresses. -/
  | a
  /-- IPv6 addresses. -/
  | aaaa
  /-- Hosts that accept mail. -/
  | mx
  /-- Strings of text. -/
  | txt
  /-- Records of every type. -/
  | any
  deriving DecidableEq, Repr

namespace QueryType

/-- All query types. -/
def all : List QueryType :=
  [.a, .aaaa, .mx, .txt, .any]

/-- The record type that the question asks for. -/
def recordType : QueryType → RecordType
  | .a => .a
  | .aaaa => .aaaa
  | .mx => .mx
  | .txt => .txt
  | .any => .any

/-- The word for a query type. -/
def token : QueryType → String
  | .a => "a"
  | .aaaa => "aaaa"
  | .mx => "mx"
  | .txt => "txt"
  | .any => "any"

/-- The query type with this word, in any case of letters. -/
def ofToken? (text : String) : Option QueryType :=
  all.find? fun t => Ascii.sameText text t.token

/-- The line of text for a word that is no query type. -/
def unknownMessage : String :=
  "expected one of a, aaaa, mx, txt, any"

end QueryType

namespace Query

/-- The header section of every query, but for its identifier: one question, and the server is
asked to do the whole work. -/
def head (id : UInt16) : HeaderSection :=
  HeaderSection.writeAll {} [.id id, .opcode .query, .flag .rd true, .questions 1]

/-- A query in wire format: its question written onto its header section. -/
def encode (id : UInt16) (host : String) (type : QueryType) : Except EncodeError (List UInt8) :=
  match Question.append (head id).wire { name := host, type := type.recordType } with
  | (none, octets) => .ok octets
  | (some e, _) => .error e

end Query

end DnsWire

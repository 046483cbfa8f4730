import DnsWire.Decoder
import DnsWire.Code.Opcode
import DnsWire.Code.ResponseCode

/-!
# The header section

A message begins with twelve octets: an identifier, a word of flags and codes, and the numbers of
entries in the four sections that follow.

* `Flags` — the seven flags, each under its two letters.
* `Header` — identifier, flags, opcode and response code, kept as the four octets that they are on
  the wire. Every field is read from its octets and written into them.
* `Counts` — the four numbers, kept as eight octets.
* `HeaderSection` — both of them, with `wire` and `decode`.
* `HeaderSection.Write` — the changes that can be made to a header section.

The word of flags and codes is laid out, from the most significant bit on, as QR, opcode (4), AA,
TC, RD; RA, reserved, AD, CD, response code (4).
-/

namespace DnsWire

/-! ## Flags -/

/-- The names of the flags, in the order of their bits. -/
inductive Flag where
  /-- The message is a response. -/
  | qr
  /-- The server has authority for the name. -/
  | aa
  /-- The message was cut short. -/
  | tc
  /-- The server is asked to do the whole work of finding an answer. -/
  | rd
  /-- The server is willing to do that. -/
  | ra
  /-- The data has been verified. -/
  | ad
  /-- The client does without verification. -/
  | cd
  deriving DecidableEq, Repr

/-- All flags, in the order of their bits. -/
def Flag.all : List Flag :=
  [.qr, .aa, .tc, .rd, .ra, .ad, .cd]

/-- The two letters of a flag. -/
def Flag.token : Flag → String
  | .qr => "qr"
  | .aa => "aa"
  | .tc => "tc"
  | .rd => "rd"
  | .ra => "ra"
  | .ad => "ad"
  | .cd => "cd"

/-- The octet of a header that a flag stands in. -/
def Flag.octet : Flag → Fin 4
  | .qr | .aa | .tc | .rd => 2
  | .ra | .ad | .cd => 3

/-- The bit of its octet that a flag is; bit 7 is the most significant one. -/
def Flag.bit : Flag → UInt8
  | .qr => 7
  | .aa => 2
  | .tc => 1
  | .rd => 0
  | .ra => 7
  | .ad => 5
  | .cd => 4

/-- The values of the flags. -/
structure Flags where
  /-- The message is a response. -/
  qr : Bool := false
  /-- The server has authority for the name. -/
  aa : Bool := false
  /-- The message was cut short. -/
  tc : Bool := false
  /-- The server is asked to do the whole work. -/
  rd : Bool := false
  /-- The server is willing to do that. -/
  ra : Bool := false
  /-- The data has been verified. -/
  ad : Bool := false
  /-- The client does without verification. -/
  cd : Bool := false
  deriving DecidableEq, Repr

namespace Flags

/-- The value of a flag. -/
def get (f : Flags) : Flag → Bool
  | .qr => f.qr
  | .aa => f.aa
  | .tc => f.tc
  | .rd => f.rd
  | .ra => f.ra
  | .ad => f.ad
  | .cd => f.cd

/-- The flags with one of them changed. -/
def set (f : Flags) (name : Flag) (value : Bool) : Flags :=
  match name with
  | .qr => { f with qr := value }
  | .aa => { f with aa := value }
  | .tc => { f with tc := value }
  | .rd => { f with rd := value }
  | .ra => { f with ra := value }
  | .ad => { f with ad := value }
  | .cd => { f with cd := value }

/-- The flags that a list names. -/
def ofList (names : List Flag) : Flags :=
  names.foldl (fun f name => f.set name true) {}

/-- The letters of the flags that are set, in the order of their bits. -/
def text (f : Flags) : String :=
  " ".intercalate ((Flag.all.filter f.get).map Flag.token)

end Flags

/-! ## Header and counts -/

/-- Identifier, flags and codes of a message. -/
structure Header where
  /-- The four octets on the wire. -/
  octets : Vector UInt8 4 := .replicate 4 0
  deriving DecidableEq, Repr

namespace Header

/-- The header with this identifier and these two octets behind it. -/
def ofOctets (id : UInt16) (high low : UInt8) : Header :=
  ⟨setWord #v[0, 0, high, low] 0 id⟩

/-- One of the octets. -/
def octet (h : Header) (i : Fin 4) : UInt8 :=
  h.octets[i]

/-- The header with another octet. -/
def setOctet (h : Header) (i : Fin 4) (value : UInt8) : Header :=
  ⟨h.octets.set i value⟩

/-- Whether a bit of an octet is set. -/
def getBit (h : Header) (i : Fin 4) (bit : UInt8) : Bool :=
  h.octet i &&& (1 : UInt8) <<< bit != 0

/-- The header with a bit of an octet set or cleared. -/
def setBit (h : Header) (i : Fin 4) (bit : UInt8) (value : Bool) : Header :=
  if value then h.setOctet i (h.octet i ||| (1 : UInt8) <<< bit)
  else h.setOctet i (h.octet i &&& ~~~((1 : UInt8) <<< bit))

/-- The identifier, by which a response is matched with its request. -/
def id (h : Header) : UInt16 :=
  wordOf h.octets 0

/-- The header with another identifier. -/
def setId (h : Header) (value : UInt16) : Header :=
  ⟨setWord h.octets 0 value⟩

/-- The value of one flag. -/
def flag (h : Header) (name : Flag) : Bool :=
  h.getBit name.octet name.bit

/-- The header with one flag changed. -/
def setFlag (h : Header) (name : Flag) (value : Bool) : Header :=
  h.setBit name.octet name.bit value

/-- The seven flags. -/
def flags (h : Header) : Flags where
  qr := h.flag .qr
  aa := h.flag .aa
  tc := h.flag .tc
  rd := h.flag .rd
  ra := h.flag .ra
  ad := h.flag .ad
  cd := h.flag .cd

/-- The header with all flags changed, one after the other. -/
def setFlags (h : Header) (value : Flags) : Header :=
  Flag.all.foldl (fun h name => h.setFlag name (value.get name)) h

/-- The reserved bit. -/
def reserved (h : Header) : Bool :=
  h.getBit 3 6

/-- The kind of request. -/
def opcode (h : Header) : Opcode :=
  ⟨(h.octet 2 >>> (3 : UInt8)) &&& 0x0F⟩

/-- The header with another opcode, of which it keeps the low four bits. -/
def setOpcode (h : Header) (value : Opcode) : Header :=
  h.setOctet 2 ((h.octet 2 &&& 0x87) ||| (value.code &&& 0x0F) <<< (3 : UInt8))

/-- How the request went. -/
def responseCode (h : Header) : ResponseCode :=
  .ofOctet (h.octet 3 &&& 0x0F)

/-- The header with another response code, of which it keeps the low four bits. -/
def setResponseCode (h : Header) (value : ResponseCode) : Header :=
  h.setOctet 3 ((h.octet 3 &&& 0xF0) ||| (value.code &&& 0x0F))

theorem octet_setOctet (h : Header) (i j : Fin 4) (value : UInt8) :
    (h.setOctet i value).octet j = if i = j then value else h.octet j := by
  unfold octet setOctet
  rw [Fin.getElem_fin, Vector.getElem_set]
  simp only [Fin.val_inj]
  rfl

@[simp] theorem id_setId (h : Header) (value : UInt16) : (h.setId value).id = value :=
  wordOf_setWord ..

@[simp] theorem flag_setId (h : Header) (value : UInt16) (name : Flag) :
    (h.setId value).flag name = h.flag name := by
  have beyond : 2 ≤ name.octet.val := by cases name <;> decide
  unfold flag getBit octet setId setWord
  rw [Fin.getElem_fin, Vector.getElem_set_ne _ _ (by omega), Vector.getElem_set_ne _ _ (by omega)]
  rfl

@[simp] theorem flags_setId (h : Header) (value : UInt16) : (h.setId value).flags = h.flags := by
  simp only [flags, flag_setId]

/-- The header in wire format. -/
def wire (h : Header) : List UInt8 :=
  h.octets.toList

@[simp] theorem length_wire (h : Header) : h.wire.length = 4 :=
  h.octets.length_toList

theorem wire_eq (h : Header) :
    h.wire = [h.octet 0, h.octet 1, h.octet 2, h.octet 3] := by
  obtain ⟨⟨⟨octets⟩, size⟩⟩ := h
  match octets, size with
  | [_, _, _, _], _ => rfl

/-- Reads a header. -/
def decode : Decoder Header := do
  let octets ← Decoder.vector 4
  return ⟨octets⟩

end Header

/-- The numbers of entries in the sections of a message. -/
structure Counts where
  /-- The eight octets on the wire. -/
  octets : Vector UInt8 8 := .replicate 8 0
  deriving DecidableEq, Repr

namespace Counts

/-- The number of questions. -/
def questions (c : Counts) : UInt16 :=
  wordOf c.octets 0

/-- The counts with another number of questions. -/
def setQuestions (c : Counts) (value : UInt16) : Counts :=
  ⟨setWord c.octets 0 value⟩

/-- The number of records that answer the questions. -/
def answer (c : Counts) : UInt16 :=
  wordOf c.octets 2

/-- The counts with another number of records that answer the questions. -/
def setAnswer (c : Counts) (value : UInt16) : Counts :=
  ⟨setWord c.octets 2 value⟩

/-- The number of records that name servers with authority. -/
def authority (c : Counts) : UInt16 :=
  wordOf c.octets 4

/-- The counts with another number of records that name servers with authority. -/
def setAuthority (c : Counts) (value : UInt16) : Counts :=
  ⟨setWord c.octets 4 value⟩

/-- The number of records of use besides. -/
def additional (c : Counts) : UInt16 :=
  wordOf c.octets 6

/-- The counts with another number of records of use besides. -/
def setAdditional (c : Counts) (value : UInt16) : Counts :=
  ⟨setWord c.octets 6 value⟩

/-- The counts with these four numbers. -/
def of (questions answer authority additional : UInt16) : Counts :=
  ((Counts.setQuestions {} questions).setAnswer answer).setAuthority authority
    |>.setAdditional additional

/-- The number of records in all three sections. -/
def records (c : Counts) : Nat :=
  c.answer.toNat + c.authority.toNat + c.additional.toNat

/-- The counts in wire format. -/
def wire (c : Counts) : List UInt8 :=
  c.octets.toList

@[simp] theorem length_wire (c : Counts) : c.wire.length = 8 :=
  c.octets.length_toList

/-- Reads the counts. -/
def decode : Decoder Counts := do
  let octets ← Decoder.vector 8
  return ⟨octets⟩

section

variable (questions answer authority additional : UInt16)

theorem wire_of : (of questions answer authority additional).wire =
    octets16 questions ++ octets16 answer ++ octets16 authority ++ octets16 additional := rfl

/-- Every count is what it was made from. -/
theorem words_of :
    (of questions answer authority additional).questions = questions ∧
      (of questions answer authority additional).answer = answer ∧
      (of questions answer authority additional).authority = authority ∧
      (of questions answer authority additional).additional = additional :=
  ⟨word16_octets16 _, word16_octets16 _, word16_octets16 _, word16_octets16 _⟩

end

/-- The four numbers are all there is to the counts. -/
theorem of_words (c : Counts) : of c.questions c.answer c.authority c.additional = c := by
  obtain ⟨⟨⟨octets⟩, size⟩⟩ := c
  match octets, size with
  | [a, b, c, d, e, f, g, h], _ =>
    have words : (of (word16 a b) (word16 c d) (word16 e f) (word16 g h)).wire =
        [a, b, c, d, e, f, g, h] := by
      rw [wire_of]
      simp only [octets16_word16, List.cons_append, List.nil_append]
    exact congrArg Counts.mk (Vector.toList_inj.1 words)

end Counts

/-! ## The section -/

/-- The header section of a message. -/
structure HeaderSection where
  /-- Identifier, flags and codes. -/
  header : Header := {}
  /-- The numbers of entries in the sections. -/
  counts : Counts := {}
  deriving DecidableEq, Repr

namespace HeaderSection

/-- The number of octets of a header section. -/
def size : Nat := 12

/-- The section in wire format. -/
def wire (s : HeaderSection) : List UInt8 :=
  s.header.wire ++ s.counts.wire

@[simp] theorem length_wire (s : HeaderSection) : s.wire.length = size := by
  rw [wire, List.length_append, Header.length_wire, Counts.length_wire, size]

/-- Reads a header section. -/
def decode : Decoder HeaderSection := do
  let header ← Header.decode
  let counts ← Counts.decode
  return ⟨header, counts⟩

/-- A change to one field of a header section. -/
inductive Write where
  /-- Changes the identifier. -/
  | id (value : UInt16)
  /-- Changes the kind of request. -/
  | opcode (value : Opcode)
  /-- Changes how the request went. -/
  | responseCode (value : ResponseCode)
  /-- Changes one flag. -/
  | flag (name : Flag) (value : Bool)
  /-- Changes all flags at once. -/
  | flags (value : Flags)
  /-- Changes the number of questions. -/
  | questions (value : UInt16)
  /-- Changes the number of records that answer the questions. -/
  | answer (value : UInt16)
  /-- Changes the number of records that name servers with authority. -/
  | authority (value : UInt16)
  /-- Changes the number of records of use besides. -/
  | additional (value : UInt16)

/-- The section after a change. -/
def write (s : HeaderSection) : Write → HeaderSection
  | .id value => { s with header := s.header.setId value }
  | .opcode value => { s with header := s.header.setOpcode value }
  | .responseCode value => { s with header := s.header.setResponseCode value }
  | .flag name value => { s with header := s.header.setFlag name value }
  | .flags value => { s with header := s.header.setFlags value }
  | .questions value => { s with counts := s.counts.setQuestions value }
  | .answer value => { s with counts := s.counts.setAnswer value }
  | .authority value => { s with counts := s.counts.setAuthority value }
  | .additional value => { s with counts := s.counts.setAdditional value }

/-- The section after changes, one behind the other. -/
def writeAll (s : HeaderSection) (writes : List Write) : HeaderSection :=
  writes.foldl write s

end HeaderSection

end DnsWire

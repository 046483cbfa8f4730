import DnsWire.Message.Basic

/-!
# Messages as text

A message line by line, in the layout of the `dig` tool: two lines for the header, and then either
the error or the sections that are not empty, each behind an empty line and a heading.
-/

namespace DnsWire.Message

/-- The two lines of the header. The counts are those that the message states. -/
def headerLines (m : Message) : List String :=
  let header := m.head.header
  let counts := m.head.counts
  [";; ->>HEADER<<- opcode: " ++ header.opcode.text ++ ", rcode: " ++ header.responseCode.text ++
      ", id: " ++ toString header.id.toNat,
    ";; flags: " ++ header.flags.text ++ "; QUERY: " ++ toString counts.questions.toNat ++
      ", ANSWER: " ++ toString counts.answer.toNat ++
      ", AUTHORITY: " ++ toString counts.authority.toNat ++
      ", ADDITIONAL: " ++ toString counts.additional.toNat]

/-- An empty line, the heading and one line for each entry; nothing if there are no entries. -/
def sectionLines (heading : String) (entries : List String) : List String :=
  if entries.isEmpty then [] else ["", ";; " ++ heading ++ " SECTION:"] ++ entries

/-- The lines of all sections. -/
def bodyLines (m : Message) : List String :=
  sectionLines "QUESTION" (m.questions.map fun q => ";" ++ q.text) ++
    [Section.answer, .authority, .additional].flatMap
      (fun s => sectionLines s.text ((m.sectionOf s).map Record.text)) ++
    if m.hasTrailing then
      ["", ";; " ++ toString m.trailing ++ " octets of unread data left over"]
    else []

/-- All lines of a message. -/
def lines (m : Message) : List String :=
  m.headerLines ++ if m.isError then [";; status: " ++ m.status.text] else m.bodyLines

/-- A message as text, each line with a line feed at its end. -/
def text (m : Message) : String :=
  String.join (m.lines.map (· ++ "\n"))

end DnsWire.Message

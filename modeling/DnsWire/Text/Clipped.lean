/-!
# Text cut to a length

What is left of a text where there is room for a number of characters only.
-/

namespace DnsWire

/-- The characters of a text for which there is room. -/
structure Clipped where
  /-- The characters from the start on. -/
  text : String
  /-- Whether they are the whole text. -/
  whole : Bool

namespace Clipped

/-- A text cut to at most `limit` characters. -/
def ofText (limit : Nat) (text : String) : Clipped :=
  ⟨String.ofList (text.toList.take limit), text.length ≤ limit⟩

end Clipped

end DnsWire

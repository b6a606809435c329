import FlowArchive.Text.Blank
import FlowArchive.Text.Decimal

/-!
# Available memory

The system states its memory in lines of a name, a colon, a number and a unit of kilobytes. What is available
is stated under one name, or under another by older systems.
-/

namespace FlowArchive.Memory

/-- Drops the unit at the end of a text, however often it is given. -/
def dropUnit (s : List Char) : List Char :=
  let rec loop : List Char → List Char
    | 'B' :: 'k' :: rest => loop rest
    | rest => rest
  (loop s.reverse).reverse

/-- The bytes that a line states under a name. -/
def ofLine? (name : String) (line : List Char) : Option UInt64 :=
  (Text.dropPrefix? (name.toList ++ [':']) line).bind fun rest =>
    (Decimal.readUInt64? (Text.trimChars (dropUnit (Text.trimChars rest)))).map fun kilobytes =>
      kilobytes * 1024

/-- The bytes that the first line of a name states. -/
def field? (text : List Char) (name : String) : Option UInt64 := (Text.linesOf text).findSome? (ofLine? name)

/-- The available bytes by the text of the system. -/
def available? (text : String) : Option UInt64 :=
  (field? text.toList "MemAvailable").or (field? text.toList "MemFree")

end FlowArchive.Memory

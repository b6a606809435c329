import FlowArchive.Text.Hexadecimal
import FlowArchive.Text.Unprintable

/-!
# Quoted text

Messages show a text between double quotes. Quotes, backslashes and the usual line characters are written as
two characters, and what leaves no mark of its own by its number in braces, so that the message is one line
and shows what the text holds.
-/

namespace FlowArchive.Text

/-- The spelling of one character inside quotes. -/
def quoteChar (c : Char) : List Char :=
  match c with
  | '\x00' => ['\\', '0']
  | '\t' => ['\\', 't']
  | '\r' => ['\\', 'r']
  | '\n' => ['\\', 'n']
  | '"' => ['\\', '"']
  | '\\' => ['\\', '\\']
  | _ => if isUnprintable c then ['\\', 'u', '\x7b'] ++ hexDigits c.toNat ++ ['\x7d'] else [c]

/-- A text between double quotes. -/
def quoted (s : String) : String :=
  String.ofList (['"'] ++ s.toList.flatMap quoteChar ++ ['"'])

end FlowArchive.Text

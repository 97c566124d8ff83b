import MoveBytecode.Text.Hex
import MoveBytecode.Text.Printable

/-!
# Quoted text

Two ways to put a text between quotes. `quote` is for names in messages: single quotes, unless the
text holds a single quote and no double one, and what has no visible form is escaped by its number.
`quoteJson` is the string form of JSON with everything beyond ASCII escaped by its UTF-16 units.
-/

namespace MoveBytecode.Text

/-- The quote that stands around a name in a message. -/
def quoteMark (text : List Char) : Char :=
  if text.contains '\'' && !text.contains '"' then '"' else '\''

/-- One character of a quoted name: the quote in use and the backslash stand behind a backslash,
three controls have letters, and what has no visible form is written by its number. -/
def escapeIn (mark : Char) (c : Char) : List Char :=
  let n := c.toNat
  if c = mark ∨ c = '\\' then ['\\', c]
  else if c = '\t' then ['\\', 't']
  else if c = '\n' then ['\\', 'n']
  else if c = '\r' then ['\\', 'r']
  else if n < 0x20 ∨ n = 0x7F then ['\\', 'x'] ++ hexLowerFixed 2 n
  else if n < 0x7F ∨ isVisible c then [c]
  else if n < 0x100 then ['\\', 'x'] ++ hexLowerFixed 2 n
  else if n < 0x10000 then ['\\', 'u'] ++ hexLowerFixed 4 n
  else ['\\', 'U'] ++ hexLowerFixed 8 n

/-- A name as it stands in messages. -/
def quote (text : String) : String :=
  let mark := quoteMark text.toList
  String.ofList (mark :: text.toList.flatMap (escapeIn mark) ++ [mark])

/-- The UTF-16 units of a character. -/
def units16 (c : Char) : List Nat :=
  let n := c.toNat
  if n < 0x10000 then [n]
  else [0xD800 + (n - 0x10000) / 0x400, 0xDC00 + (n - 0x10000) % 0x400]

/-- One character of a JSON string. -/
def escapeJson (c : Char) : List Char :=
  if c = '"' ∨ c = '\\' then ['\\', c]
  else if c = '\n' then ['\\', 'n']
  else if c = '\r' then ['\\', 'r']
  else if c = '\t' then ['\\', 't']
  else if c.toNat = 0x08 then ['\\', 'b']
  else if c.toNat = 0x0C then ['\\', 'f']
  else if 0x20 ≤ c.toNat ∧ c.toNat < 0x7F then [c]
  else (units16 c).flatMap (fun unit => ['\\', 'u'] ++ hexLowerFixed 4 unit)

/-- A text as a JSON string in ASCII. -/
def quoteJson (text : String) : String :=
  String.ofList ('"' :: text.toList.flatMap escapeJson ++ ['"'])

end MoveBytecode.Text

import FlatClosure.Text.Hex
import FlatClosure.Text.Visible

/-!
# Quoted text

`quoted` writes a text between double quotes so that it stands on one line and every character
of it can be read off: visible characters stand for themselves, the usual control characters
have short escapes, and all others are written `\u` with their code point in braces.
-/

namespace FlatClosure

/-- A character as it is written between the quotes. -/
def escapeQuoted (c : Char) : String :=
  if c = '\x00' then "\\0"
  else if c = '\t' then "\\t"
  else if c = '\r' then "\\r"
  else if c = '\n' then "\\n"
  else if c = '\\' then "\\\\"
  else if c = '"' then "\\\""
  else if isVisible c then c.toString
  else "\\u\x7b" ++ hexDigits c.toNat ++ "\x7d"

/-- A text between double quotes, escaped. -/
def quoted (s : String) : String :=
  "\"" ++ String.join (s.toList.map escapeQuoted) ++ "\""

end FlatClosure

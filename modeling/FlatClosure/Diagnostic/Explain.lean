import FlatClosure.Diagnostic.Code
import FlatClosure.Json.Basic

/-!
# Explanations of diagnostic codes

What there is to say about a code, for readers and as a record.
-/

namespace FlatClosure

namespace Code

/-- The code and its title, with a rule below. -/
def heading (c : Code) : String :=
  let rule := String.ofList (List.replicate (c.word.utf8ByteSize + c.title.utf8ByteSize + 2) '=')
  "\n" ++ c.word ++ ": " ++ c.title ++ "\n" ++ rule ++ "\n"

/-- An example, indented, or nothing. -/
def sampleText (c : Code) : String :=
  match c.sample? with
  | none => ""
  | some s => "Example:\n" ++ String.join ((s.splitOn "\n").map fun l => "  " ++ l ++ "\n") ++ "\n"

/-- The related codes, or nothing. -/
def relatedText (c : Code) : String :=
  if c.related.isEmpty then ""
  else "Related: " ++ ", ".intercalate (c.related.map word) ++ "\n"

/-- The explanation of a code. -/
def explainText (c : Code) : String :=
  c.heading ++ "\n" ++ c.explanation ++ "\n\n" ++ c.sampleText ++ c.relatedText

/-- The explanation of a code as a record. -/
def explainJson (c : Code) : Json :=
  .obj
    [("code", .str c.word), ("description", .str c.explanation),
      ("example", c.sample?.elim .null .str),
      ("related", .arr (c.related.map fun r => .str r.word)),
      ("title", .str c.title)]

end Code

end FlatClosure

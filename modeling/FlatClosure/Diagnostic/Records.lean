import FlatClosure.Diagnostic.Basic
import FlatClosure.Json.Printer
import FlatClosure.Source.Cache

/-!
# Diagnostics as JSON records

One object for each diagnostic, on a line of its own, with its fields in alphabetical order.
-/

namespace FlatClosure

/-- A resolved position. -/
def Location.toJson (l : Location) : Json :=
  .obj [("column", .int l.column.toNat), ("file", .str l.file), ("line", .int l.line.toNat)]

/-- The position of a span, null when it is not known. -/
def placeJson (cache : SourceCache) (s : Span) : Json :=
  ((cache.location? s).map Location.toJson).getD .null

/-- A note. -/
def Note.toJson (cache : SourceCache) (n : Note) : Json :=
  .obj [("location", placeJson cache n.span), ("message", .str n.message)]

/-- A diagnostic. -/
def Diagnostic.toJson (cache : SourceCache) (d : Diagnostic) : Json :=
  .obj
    [("code", .str d.code.word),
      ("help", (d.help.map Json.str).getD .null),
      ("location", placeJson cache d.span),
      ("message", .str d.message),
      ("notes", .arr (d.notes.map (Note.toJson cache))),
      ("severity", .str d.severity.word),
      ("span",
        if d.span.isDummy then .null
        else .obj [("end", .int d.span.stop.toNat), ("start", .int d.span.start.toNat)])]

/-- Diagnostics, one on each line. -/
def recordText (cache : SourceCache) (ds : List Diagnostic) : String :=
  String.join (ds.map fun d => (d.toJson cache).compact ++ "\n")

/-- The numbers of errors and warnings. -/
def recordSummary (ds : List Diagnostic) : String :=
  (Json.obj
    [("errors", .int (errorCount ds)), ("type", .str "summary"),
      ("warnings", .int (warningCount ds))]).compact ++ "\n"

end FlatClosure

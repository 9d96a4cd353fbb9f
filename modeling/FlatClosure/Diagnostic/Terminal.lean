import FlatClosure.Diagnostic.Basic
import FlatClosure.Source.Cache

/-!
# Diagnostics on a terminal

A diagnostic is shown with its position, the source line it starts in, and a row of carets under
the part of the line that it covers.  `Paint` holds the escape sequences for the colours, which
are all empty when colours are off.
-/

namespace FlatClosure

/-- The texts that switch colours. -/
structure Paint where
  error : String
  warning : String
  /-- Position marks and side remarks. -/
  mark : String
  bold : String
  /-- Back to plain text. -/
  reset : String

namespace Paint

/-- No colours. -/
def plain : Paint := ⟨"", "", "", "", ""⟩

/-- The colours of a terminal. -/
def colored : Paint := ⟨"\x1b[31m", "\x1b[33m", "\x1b[36m", "\x1b[1m", "\x1b[0m"⟩

/-- The colour of a severity. -/
def severity (p : Paint) : Severity → String
  | .error => p.error
  | .warning => p.warning

end Paint

/-- The same character several times. -/
def repeated (n : Nat) (c : Char) : String := String.ofList (List.replicate n c)

/-- The number of carets under a line: as many as the span has bytes, but not beyond the end of
the line, and at least one. -/
def caretCount (spanLength lineBytes indent : Nat) : Nat :=
  max (min spanLength (lineBytes - indent)) 1

/-- The source line of a span and the carets under it. -/
def snippet (p : Paint) (severity : Severity) (file : SourceFile) (span : Span) : List String :=
  let (line, column) := file.lineColumn span.start
  match file.lineText? line with
  | none => []
  | some text =>
    let number := toString line
    let side := repeated number.length ' '
    let indent := (column - 1).toNat
    let carets := caretCount span.length text.utf8ByteSize indent
    [side ++ " " ++ p.mark ++ "|" ++ p.reset,
      p.mark ++ number ++ " |" ++ p.reset ++ " " ++ text,
      side ++ " " ++ p.mark ++ "|" ++ p.reset ++ " " ++ repeated indent ' ' ++
        p.severity severity ++ repeated carets '^' ++ p.reset]

/-- The position of a diagnostic and the source line, if its file is known. -/
def placeLines (p : Paint) (cache : SourceCache) (d : Diagnostic) : List String :=
  match cache.location? d.span with
  | none => []
  | some place =>
    ("  " ++ p.mark ++ "-->" ++ p.reset ++ " " ++ place.render) ::
      match cache.file? d.span.file.toNat with
      | none => []
      | some file => snippet p d.severity file d.span

/-- A note on its line. -/
def noteLine (p : Paint) (cache : SourceCache) (n : Note) : String :=
  "  " ++ p.mark ++ "note" ++ p.reset ++ ": " ++ n.message ++
    match cache.location? n.span with
    | some place => " (" ++ place.render ++ ")"
    | none => ""

/-- The first line of a diagnostic. -/
def headline (p : Paint) (d : Diagnostic) : String :=
  p.bold ++ p.severity d.severity ++ d.severity.word ++ "[" ++ d.code.word ++ "]" ++ p.reset ++
    ": " ++ d.message

/-- The notes and the advice of a diagnostic; the last line is empty. -/
def remarkLines (p : Paint) (cache : SourceCache) (d : Diagnostic) : List String :=
  d.notes.map (noteLine p cache) ++
    (match d.help with
      | some help => ["  " ++ p.mark ++ "= help:" ++ p.reset ++ " " ++ help]
      | none => []) ++
    [""]

/-- The lines of a diagnostic. -/
def diagnosticLines (p : Paint) (cache : SourceCache) (d : Diagnostic) : List String :=
  headline p d :: placeLines p cache d ++ remarkLines p cache d

/-- Lines with their ends. -/
def joinLines (ls : List String) : String := String.join (ls.map (· ++ "\n"))

/-- Diagnostics as they are shown on a terminal. -/
def terminalText (p : Paint) (cache : SourceCache) (ds : List Diagnostic) : String :=
  joinLines (ds.flatMap (diagnosticLines p cache))

/-- The number of errors in words; nothing when there are none. -/
def terminalSummary (p : Paint) (ds : List Diagnostic) : String :=
  let n := errorCount ds
  if n = 0 then ""
  else
    p.error ++ toString n ++ " error" ++ (if n = 1 then "" else "s") ++ " emitted" ++ p.reset ++
      "\n"

end FlatClosure

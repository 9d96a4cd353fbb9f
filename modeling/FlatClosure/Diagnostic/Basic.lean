import FlatClosure.Diagnostic.Code
import FlatClosure.Syntax.Span

/-!
# Diagnostics

A diagnostic is a message about a place in a source file, with notes about other places and a piece
of advice.
-/

namespace FlatClosure

/-- A remark about another place. -/
structure Note where
  span : Span
  message : String

/-- A message about a place in a source file. -/
structure Diagnostic where
  code : Code
  severity : Severity
  message : String
  /-- What can be done about it. -/
  help : Option String := none
  span : Span := .dummy
  notes : List Note := []

/-- The diagnostic is an error. -/
def Diagnostic.isError (d : Diagnostic) : Bool := d.severity == .error

/-- The number of errors. -/
def errorCount (ds : List Diagnostic) : Nat := ds.countP (·.isError)

/-- The number of warnings. -/
def warningCount (ds : List Diagnostic) : Nat := ds.countP fun d => !d.isError

/-- The worst severity of all. -/
def worst? (ds : List Diagnostic) : Option Severity :=
  if ds.isEmpty then none
  else if ds.any (·.isError) then some .error
  else some .warning

end FlatClosure

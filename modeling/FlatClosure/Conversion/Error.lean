import FlatClosure.Diagnostic.Basic
import FlatClosure.Syntax.Span

/-!
# Why a program is not converted

A `ConversionError` says what stands in the way of closure conversion and where.  Its wording, its
code and its diagnostic are functions of it.
-/

namespace FlatClosure

/-- What stands in the way of closure conversion. -/
inductive ConversionError where
  /-- A closure reads a name that is bound nowhere. -/
  | unresolved (name closure : String) (span : Span)
  /-- A closure is declared inside a closure. -/
  | nestedClosure (name outer : String) (outerSpan span : Span)
  /-- There is a lambda expression in a function. -/
  | lambda (function : String) (span : Span)
  /-- A closure writes a variable that it captures. -/
  | capturedWrite (name closure : String) (span : Span)
  /-- A closure is declared inside a method. -/
  | closureInMethod (name cls method : String) (span : Span)
  /-- A closure holds a construction that should have become a call. -/
  | unloweredConstruct (cls closure : String) (span : Span)
  /-- A function is declared by a top-level statement. -/
  | topLevelClosure (name : String) (span : Span)
deriving DecidableEq

namespace ConversionError

/-- Where it is. -/
def span : ConversionError → Span
  | .unresolved _ _ s | .nestedClosure _ _ _ s | .lambda _ s | .capturedWrite _ _ s
  | .closureInMethod _ _ _ s | .unloweredConstruct _ _ s | .topLevelClosure _ s => s

/-- The code of the problem. -/
def code : ConversionError → Code
  | .unresolved .. => .unresolvedIdentifier
  | .nestedClosure .. => .nestedClosure
  | .lambda .. => .lambdaExpression
  | .capturedWrite .. => .capturedWrite
  | .closureInMethod .. => .closureInMethod
  | .unloweredConstruct .. | .topLevelClosure .. => .internalError

/-- The error in words. -/
def message : ConversionError → String
  | .unresolved x f _ => "unknown variable `" ++ x ++ "` in closure `" ++ f ++ "`"
  | .nestedClosure g f _ _ =>
    "not supported: closure `" ++ g ++ "` declared inside closure `" ++ f ++ "`"
  | .lambda f _ => "not supported: lambda expression in `" ++ f ++ "`"
  | .capturedWrite x f _ =>
    "not supported: assignment to `" ++ x ++ "`, which closure `" ++ f ++
      "` captures from its enclosing function"
  | .closureInMethod f c m _ =>
    "not supported: closure `" ++ f ++ "` declared inside method `" ++ c ++ "." ++ m ++ "`"
  | .unloweredConstruct c f _ =>
    "internal error: unlowered constructor of `" ++ c ++ "` in closure `" ++ f ++ "`"
  | .topLevelClosure f _ =>
    "internal error: function `" ++ f ++ "` declared among top-level statements"

/-- What can be done about it. -/
def help? : ConversionError → Option String
  | .unresolved x _ _ =>
    some ("declare `" ++ x ++ "` in the enclosing function or as a global variable")
  | .nestedClosure .. => some "declare the function directly inside a top-level function"
  | .unloweredConstruct .. | .topLevelClosure .. =>
    some "this is a compiler bug; please report it"
  | _ => none

/-- Other places that matter. -/
def notes : ConversionError → List Note
  | .nestedClosure _ f s _ => [⟨s, "enclosing closure `" ++ f ++ "` declared here"⟩]
  | _ => []

/-- The diagnostic of the error. -/
def toDiagnostic (e : ConversionError) : Diagnostic where
  code := e.code
  severity := .error
  message := e.message
  help := e.help?
  span := e.span
  notes := e.notes

end ConversionError

end FlatClosure

import FlatClosure.Conversion.Captures
import FlatClosure.Syntax.Fold

/-!
# Reading captured variables from the receiver

`substituteCaptures` replaces every read of a captured variable in the body of a closure by a read
of the field of that name of the receiver.  Reads in the scope of a comprehension variable of the
same name stay.  A write to a captured variable cannot be expressed and is an error, positioned
at the value that is written if its position is known, else at the closure.  The traversal meets
the name that is written without that value, so each statement leaves the position for it.
-/

namespace FlatClosure

/-- The closure whose body is changed. -/
structure ClosureSite where
  /-- The name of the closure. -/
  closure : String
  /-- Where it is declared. -/
  span : Span
  captures : Captures
  /-- The name of the receiver. -/
  receiver : String

/-- The state of a substitution. -/
structure Substitution where
  /-- The comprehension variables in scope, innermost first. -/
  scope : List String := []
  /-- Where a write to a captured variable is reported. -/
  position : Span

/-- A step of the substitution. -/
abbrev SubstituteM := ExceptT ConversionError (StateM Substitution)

/-- The expression whose value, or whose items, a statement gives to the names that it writes. -/
def Stmt.value? : Stmt → Option Expr
  | .assign _ v | .unpack _ v => some v
  | .forEach _ it _ _ => some it
  | _ => none

/-- The position of what is written, if it is known. -/
def Stmt.valueSpan? (s : Stmt) : Option Span := (s.value?.map Expr.span).filter fun p => !p.isDummy

namespace ClosureSite

/-- The name is captured, and not bound by a comprehension around it. -/
def isCaptured (r : ClosureSite) (x : String) (scope : List String) : Bool :=
  r.captures.contains x && !scope.contains x

/-- The traversal of a body. -/
def folder (r : ClosureSite) : Folder SubstituteM where
  stmt s := do
    modify fun st => { st with position := s.valueSpan?.getD r.span }
    match s with
    | .closure g => throw (.nestedClosure g.name r.closure r.span g.span)
    | _ => return none
  expr
    | .id x s => do
      if r.isCaptured x (← get).scope then return some (.field (.id r.receiver s) x)
      else return none
    | .lambda _ _ _ s => throw (.lambda r.closure s)
    | .construct c s => throw (.unloweredConstruct c r.closure s)
    | _ => return none
  write x := do
    let st ← get
    if r.isCaptured x st.scope then throw (.capturedWrite x r.closure st.position)
    else return x
  enter x := modify fun st => { st with scope := x :: st.scope }
  exit _ := modify fun st => { st with scope := st.scope.tail }

end ClosureSite

/-- The body of a closure with its captured variables read from the receiver. -/
def substituteCaptures (site : ClosureSite) (body : List Stmt) :
    Except ConversionError (List Stmt) :=
  ((Stmt.foldList site.folder body).run { position := site.span }).1

end FlatClosure

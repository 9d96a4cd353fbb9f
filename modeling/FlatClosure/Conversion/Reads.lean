import FlatClosure.Bindings
import FlatClosure.Conversion.Error
import FlatClosure.Syntax.Events

/-!
# What a closure reads

`collectReads` gathers, along the walk over the body of a closure, the names that it reads from
outside its comprehensions, and the names that it declares global or nonlocal.  A body with a
closure, a lambda expression or a construction in it has no reads: the first of them is an error.
-/

namespace FlatClosure

/-- Add a name at the end, unless it is there. -/
def addName (xs : List String) (x : String) : List String :=
  if x ∈ xs then xs else xs ++ [x]

/-- The names that matter in the body of a closure, each list in the order of first occurrence. -/
structure Reads where
  /-- The names read, with the position of the first read. -/
  names : Bindings Span := .empty
  /-- The names declared global. -/
  globals : List String := []
  /-- The names declared nonlocal. -/
  nonlocals : List String := []
  /-- The variables of comprehensions. -/
  bound : List String := []

namespace Reads

/-- The name is read. -/
def contains (r : Reads) (x : String) : Bool := r.names.contains x

/-- The name is read, or is the variable of a comprehension. -/
def mentions (r : Reads) (x : String) : Bool := r.contains x || r.bound.contains x

/-- Note a read; only the first position is kept. -/
def read (r : Reads) (x : String) (s : Span) : Reads :=
  if r.contains x then r else { r with names := r.names.insert x s }

end Reads

/-- Take one event of the walk into account.  Beside the reads so far, the state holds the
comprehension variables in scope, innermost first. -/
def readStep (owner : FunDef) :
    Reads × List String → Event → Except ConversionError (Reads × List String)
  | (r, scope), .stmt (.global x) => .ok ({ r with globals := addName r.globals x }, scope)
  | (r, scope), .stmt (.nonlocal x) => .ok ({ r with nonlocals := addName r.nonlocals x }, scope)
  | _, .stmt (.closure g) => .error (.nestedClosure g.name owner.name owner.span g.span)
  | (r, scope), .expr (.id x s) => .ok (if x ∈ scope then r else r.read x s, scope)
  | _, .expr (.lambda _ _ _ s) => .error (.lambda owner.name s)
  | _, .expr (.construct c s) => .error (.unloweredConstruct c owner.name s)
  | (r, scope), .enter x => .ok ({ r with bound := addName r.bound x }, x :: scope)
  | (r, scope), .exit _ => .ok (r, scope.tail)
  | state, _ => .ok state

/-- The reads of the body of a function. -/
def collectReads (f : FunDef) : Except ConversionError Reads := do
  let (r, _) ← f.events.foldlM (readStep f) ({}, [])
  return r

end FlatClosure

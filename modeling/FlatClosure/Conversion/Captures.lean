import FlatClosure.Conversion.Reads

/-!
# What a closure captures

`classify` decides for each name that a closure reads where it comes from: from the closure itself,
from the enclosing function, or from the program.  The names of the second kind are captured, with
their declared types; a name of none of these kinds is an error.
-/

namespace FlatClosure

/-- The captured variables with their declared types, in the order of first read. -/
abbrev Captures := Bindings Ty

/-- The variables of the function around a closure. -/
structure Enclosing where
  params : List Param
  inits : List VarInit

/-- The declared type of an enclosing variable; parameters come first. -/
def Enclosing.type? (e : Enclosing) (x : String) : Option Ty :=
  ((e.params.find? (·.name == x)).map (·.ty)).or ((e.inits.find? (·.name == x)).map (·.ty))

/-- The names that can be seen everywhere: global variables, functions and classes. -/
def Program.globalNames (p : Program) : List String :=
  p.inits.map (·.name) ++ p.funs.map (·.name) ++ p.classes.map (·.name)

/-- Sort one read of a closure. -/
def classifyRead (closure : FunDef) (reads : Reads) (enclosing : Enclosing)
    (globals : List String) (captures : Captures) (read : String × Span) :
    Except ConversionError Captures :=
  let (x, span) := read
  if x ∈ closure.binders then .ok captures
  else
    match (if x ∈ reads.globals then none else enclosing.type? x) with
    | some ty => .ok (captures.insert x ty)
    | none =>
      if x ∈ globals then .ok captures
      else .error (.unresolved x closure.name span)

/-- The captures of a closure.  A name declared nonlocal stands for a write to a variable of the
enclosing function, so it is an error. -/
def classify (closure : FunDef) (reads : Reads) (enclosing : Enclosing) (globals : List String) :
    Except ConversionError Captures :=
  match reads.nonlocals with
  | x :: _ =>
    if (enclosing.type? x).isNone then .error (.unresolved x closure.name closure.span)
    else .error (.capturedWrite x closure.name closure.span)
  | [] =>
    reads.names.entries.foldlM (classifyRead closure reads enclosing globals) .empty

end FlatClosure

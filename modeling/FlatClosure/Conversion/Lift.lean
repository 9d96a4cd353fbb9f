import FlatClosure.Conversion.Captures
import FlatClosure.Conversion.Conventions

/-!
# The class of a closure

`lift` builds the class that takes the place of a closure, and the statements that make an object of
it where the closure was declared: one field for each captured variable, a method with the body of
the closure, and a constructor that does nothing.
-/

namespace FlatClosure

/-- What becomes of a closure. -/
structure Lifted where
  cls : ClassDef
  /-- The statements in place of the declaration. -/
  creation : List Stmt
  /-- The variable of the enclosing function that holds the object. -/
  slot : VarInit
  /-- The number of parameters, without the receiver. -/
  arity : Nat

/-- Make an object of the class, and copy the captured variables into its fields. -/
def creationStmts (name cls : String) (captures : Captures) (span : Span) : List Stmt :=
  .assign name (.call (.id cls span) []) ::
    captures.names.map fun x => .setField (.id name span) x (.id x span)

/-- The fields of the captured variables. -/
def captureFields (captures : Captures) : List VarInit :=
  captures.entries.map fun (x, ty) => ⟨x, ty, .defaultFor ty⟩

/-- The method with the body of the closure. -/
def callMethod (closure : FunDef) (cls receiver : String) (names : Conventions) : FunDef :=
  { closure with
    name := names.callMethod
    params := ⟨receiver, .cls cls⟩ :: closure.params }

/-- The constructor, which does nothing. -/
def emptyConstructor (cls receiver : String) (names : Conventions) : FunDef where
  name := names.constructor
  params := [⟨receiver, .cls cls⟩]
  ret := .none
  inits := []
  body := []
  span := .dummy

/-- The class `cls` of a closure whose body reads its captures from `receiver` already. -/
def lift (closure : FunDef) (cls : String) (captures : Captures) (receiver : String)
    (names : Conventions) : Lifted where
  cls :=
    { name := cls
      fields := captureFields captures
      methods := [callMethod closure cls receiver names, emptyConstructor cls receiver names] }
  creation := creationStmts closure.name cls captures closure.span
  slot := ⟨closure.name, .cls cls, .none⟩
  arity := closure.arity

end FlatClosure

/-!
# Declared types

The types that parameters, variables and fields are declared with.  Nothing here checks types;
a type decides the default value of a slot and is carried along.
-/

namespace FlatClosure

/-- A declared type. -/
inductive Ty where
  | int
  | bool
  | str
  /-- The type of `None`. -/
  | none
  /-- The root of the class hierarchy. -/
  | object
  /-- Instances of a class. -/
  | cls (name : String)
  | list (elem : Ty)
  | callable (params : List Ty) (ret : Ty)
deriving Inhabited

namespace Ty

/-- The type holds numbers. -/
def isNumeric : Ty → Bool
  | .int => true
  | _ => false

/-- The type holds plain values, not references. -/
def isPrimitive : Ty → Bool
  | .int | .bool | .none => true
  | _ => false

/-- `None` is a value of the type. -/
def isNullable : Ty → Bool
  | .int | .bool => false
  | _ => true

/-- The class of a class type. -/
def className? : Ty → Option String
  | .cls name => some name
  | _ => Option.none

/-- The number of parameters of a callable type. -/
def arity? : Ty → Option Nat
  | .callable params _ => some params.length
  | _ => Option.none

mutual

/-- The type as it is written in a declaration. -/
def render : Ty → String
  | .int => "int"
  | .bool => "bool"
  | .str => "str"
  | .none => "None"
  | .object => "object"
  | .cls name => name
  | .list elem => "[" ++ elem.render ++ "]"
  | .callable params ret => "Callable[[" ++ renderList params ++ "], " ++ ret.render ++ "]"

/-- Types with commas between them. -/
def renderList : List Ty → String
  | [] => ""
  | [t] => t.render
  | t :: ts => t.render ++ ", " ++ renderList ts

end

end Ty

end FlatClosure

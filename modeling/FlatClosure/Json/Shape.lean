/-!
# Shapes of JSON text

A shape says which parts of a text a reader looks at.  The other parts only have to be well formed:
there a string need not be text, a number may be out of range, and nesting has no limit.
-/

namespace FlatClosure

namespace Json

/-- Which parts of a value are looked at. -/
inductive Shape where
  /-- All of it. -/
  | whole
  /-- Nothing. -/
  | skipped
  /-- A list: what the shape of the items says. -/
  | list (item : Shape)
  /-- A record: what the shapes of its fields say, and of an object no other field. -/
  | record (fields : List (String × Shape))

namespace Shape

/-- Nothing is looked at. -/
def isSkipped : Shape → Bool
  | .skipped => true
  | _ => false

/-- The shape of a field of an object. -/
def field : Shape → String → Shape
  | .whole, _ => .whole
  | .record fields, name => (fields.lookup name).getD .skipped
  | _, _ => .skipped

/-- The shape of the first item of an array. -/
def item : Shape → Shape
  | .whole => .whole
  | .list s => s
  | .record ((_, s) :: _) => s
  | _ => .skipped

/-- The shape of an array after its first item: a record goes on with its next field. -/
def rest : Shape → Shape
  | .record fields => .record fields.tail
  | s => s

end Shape

end Json

end FlatClosure

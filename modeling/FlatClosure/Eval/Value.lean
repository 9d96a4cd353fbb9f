import FlatClosure.Bindings
import FlatClosure.Syntax.Tree

/-!
# Values and the heap

Lists and objects are shared: a value holds only the place of a list or object in the `Heap`, and
all values with the same place see its changes.  Tuples are values themselves.

Comparing and writing out a value follows the lists it refers to.  Without a list that contains
itself, no path through the heap meets more lists than there are; `Heap.listsEqual` and
`Heap.listText` look that deep and no deeper, so they end on every heap.
-/

namespace FlatClosure

/-- A value of a running program. -/
inductive Value where
  | int (n : Int64)
  | bool (b : Bool)
  | none
  | str (s : String)
  /-- An object, by its place in the heap. -/
  | object (ref : Nat)
  /-- A list, by its place in the heap. -/
  | list (ref : Nat)
  | tuple (items : List Value)
  /-- A function of the program. -/
  | function (name : String)
deriving Inhabited

/-- The value of a literal. -/
def Literal.toValue : Literal → Value
  | .num n => .int n
  | .bool b => .bool b
  | .str s => .str s
  | .none => .none

/-- An object: its class and its fields. -/
structure Instance where
  cls : String
  fields : Bindings Value
deriving Inhabited

/-- The lists and objects of a running program. -/
structure Heap where
  lists : Array (Array Value) := #[]
  objects : Array Instance := #[]
deriving Inhabited

namespace Heap

/-- The items of a list. -/
def items (h : Heap) (ref : Nat) : List Value := (h.lists[ref]?.getD #[]).toList

/-- The number of items of a list. -/
def length (h : Heap) (ref : Nat) : Nat := (h.lists[ref]?.getD #[]).size

/-- The item of a list at a place. -/
def item? (h : Heap) (ref i : Nat) : Option Value := (h.lists[ref]?.getD #[])[i]?

/-- The object at a place. -/
def object (h : Heap) (ref : Nat) : Instance := h.objects[ref]?.getD default

/-- Add a list behind the others. -/
def pushList (h : Heap) (items : List Value) : Heap :=
  { h with lists := h.lists.push items.toArray }

/-- Add an object behind the others. -/
def pushObject (h : Heap) (o : Instance) : Heap := { h with objects := h.objects.push o }

/-- Add an item to a list. -/
def append (h : Heap) (ref : Nat) (v : Value) : Heap :=
  { h with lists := h.lists.modify ref (·.push v) }

/-- Replace an item of a list. -/
def setItem (h : Heap) (ref i : Nat) (v : Value) : Heap :=
  { h with lists := h.lists.modify ref (·.setIfInBounds i v) }

/-- Change a field of an object. -/
def setField (h : Heap) (ref : Nat) (field : String) (v : Value) : Heap :=
  let o := h.object ref
  { h with objects := h.objects.setIfInBounds ref { o with fields := o.fields.insert field v } }

end Heap

namespace Value

/-! ### Truth and type -/

/-- The value counts as true in a condition. -/
def truthy (h : Heap) : Value → Bool
  | .int n => n != 0
  | .bool b => b
  | .none => false
  | .str s => s != ""
  | .list ref => h.length ref != 0
  | .tuple items => !items.isEmpty
  | .object _ | .function _ => true

/-- The name of the type of a value; for an object, its class. -/
def typeName (h : Heap) : Value → String
  | .int _ => "int"
  | .bool _ => "bool"
  | .none => "None"
  | .str _ => "str"
  | .object ref => (h.object ref).cls
  | .list _ => "list"
  | .tuple _ => "tuple"
  | .function _ => "function"

/-! ### Equality -/

mutual

/-- Equality of values, given the equality of lists.  Values of different types differ, and
objects are equal only to themselves. -/
def equalsWith (lists : Nat → Nat → Bool) : Value → Value → Bool
  | .int a, .int b => a == b
  | .bool a, .bool b => a == b
  | .none, .none => true
  | .str a, .str b => a == b
  | .list a, .list b => lists a b
  | .tuple as, .tuple bs => equalsAll lists as bs
  | .function a, .function b => a == b
  | .object a, .object b => a == b
  | _, _ => false

/-- Equality item by item. -/
def equalsAll (lists : Nat → Nat → Bool) : List Value → List Value → Bool
  | [], [] => true
  | a :: as, b :: bs => equalsWith lists a b && equalsAll lists as bs
  | _, _ => false

end

/-- Sameness: objects and lists by place, and `None`. -/
def same : Value → Value → Bool
  | .none, .none => true
  | .object a, .object b => a == b
  | .list a, .list b => a == b
  | _, _ => false

/-! ### Text -/

mutual

/-- A value as it is printed, given the text of lists.  A string is quoted when it is `nested` in
a list or tuple. -/
def renderWith (h : Heap) (list : Nat → String) (nested : Bool) : Value → String
  | .int n => toString n.toInt
  | .bool true => "True"
  | .bool false => "False"
  | .none => "None"
  | .str s => if nested then "'" ++ s ++ "'" else s
  | .object ref => "<" ++ (h.object ref).cls ++ " object>"
  | .list ref => list ref
  | .tuple items =>
    "(" ++ renderItems h list items ++ (if items.length = 1 then "," else "") ++ ")"
  | .function name => "<function " ++ name ++ ">"

/-- Items with commas between them. -/
def renderItems (h : Heap) (list : Nat → String) : List Value → String
  | [] => ""
  | [v] => renderWith h list true v
  | v :: vs => renderWith h list true v ++ ", " ++ renderItems h list vs

end

end Value

namespace Heap

/-- Equality of lists: the same list, or equal items, looking `n` lists deep.  Lists further down
are not told apart. -/
def listsEqual (h : Heap) : Nat → Nat → Nat → Bool
  | 0, _, _ => true
  | n + 1, a, b => a == b || Value.equalsAll (h.listsEqual n) (h.items a) (h.items b)

/-- The text of a list, looking `n` lists deep. -/
def listText (h : Heap) : Nat → Nat → String
  | 0, _ => "[...]"
  | n + 1, ref => "[" ++ Value.renderItems h (h.listText n) (h.items ref) ++ "]"

end Heap

namespace Value

/-- Equality of values. -/
def equals (h : Heap) (a b : Value) : Bool := equalsWith (h.listsEqual h.lists.size) a b

/-- A value as it is printed. -/
def render (h : Heap) (v : Value) : String := renderWith h (h.listText h.lists.size) false v

/-- The first one of each group of equal values, after those kept already. -/
def dedupFrom (h : Heap) (kept : List Value) : List Value → List Value
  | [] => kept
  | v :: vs => if kept.any (equals h · v) then dedupFrom h kept vs else dedupFrom h (kept ++ [v]) vs

/-- The first one of each group of equal values. -/
def dedup (h : Heap) (vs : List Value) : List Value := dedupFrom h [] vs

end Value

end FlatClosure

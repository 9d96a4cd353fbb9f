/-!
# JSON values

A JSON value keeps the fields of an object in the order in which they were written, repeated
fields included, because a reader of records has to see a field that is given twice.  Numbers
are split by how they are written: whole numbers, which have a value here, and all others, which
only keep their text.

`Json.record?` reads a record: an object by the names of its fields, or an array by their order.
`Json.tagged?` splits off the tag of a node, and `Json.choice?` reads one of several words.
-/

namespace FlatClosure

/-- A JSON value. -/
inductive Json where
  | null
  | bool (value : Bool)
  /-- A whole number, written without fraction and exponent. -/
  | int (value : Int)
  /-- A number with a fraction or an exponent, or a negative zero, as it was written. -/
  | real (literal : String)
  | str (value : String)
  | arr (items : List Json)
  | obj (fields : List (String × Json))
deriving Inhabited

namespace Json

/-! ### Nesting -/

mutual

/-- The number of levels of arrays and objects. -/
def depth : Json → Nat
  | .arr items => 1 + depthItems items
  | .obj fields => 1 + depthFields fields
  | _ => 0

/-- The number of levels inside an array. -/
def depthItems : List Json → Nat
  | [] => 0
  | j :: js => max j.depth (depthItems js)

/-- The number of levels inside an object. -/
def depthFields : List (String × Json) → Nat
  | [] => 0
  | (_, j) :: fs => max j.depth (depthFields fs)

end

/-! ### Scalars -/

/-- The text of a string. -/
def str? : Json → Option String
  | .str s => some s
  | _ => none

/-- The value of a truth value. -/
def bool? : Json → Option Bool
  | .bool b => some b
  | _ => none

/-- A whole number that fits a signed word of 64 bits. -/
def int64? : Json → Option Int64
  | .int n => if Int64.minValue.toInt ≤ n ∧ n ≤ Int64.maxValue.toInt then some (Int64.ofInt n)
    else none
  | _ => none

/-- A whole number that fits an unsigned word of 32 bits. -/
def uint32? : Json → Option UInt32
  | .int n => if 0 ≤ n ∧ n < UInt32.size then some (UInt32.ofNat n.toNat) else none
  | _ => none

/-- A whole number that fits an unsigned word of 64 bits, as a natural number. -/
def nat64? : Json → Option Nat
  | .int n => if 0 ≤ n ∧ n < UInt64.size then some n.toNat else none
  | _ => none

/-- The items of an array. -/
def arr? : Json → Option (List Json)
  | .arr items => some items
  | _ => none

/-- The items of an array, each read by `f`. -/
def listOf? {α : Type} (f : Json → Option α) : Json → Option (List α)
  | .arr items => items.mapM f
  | _ => none

/-! ### Records -/

/-- The value of the first field of a name. -/
def field? (name : String) : Json → Option Json
  | .obj fields => fields.lookup name
  | _ => none

/-- The fields of a record with the given field names, in the order of the names.  In an object
other fields are skipped, and a field given twice is an error; an array gives the fields by
position, the last ones may be missing. -/
def record? (names : List String) : Json → Option (List (Option Json))
  | .obj fields =>
    if names.any fun n => 1 < fields.countP (·.1 == n) then none
    else some (names.map fun n => fields.lookup n)
  | .arr items =>
    if items.length ≤ names.length then
      some (items.map some ++ List.replicate (names.length - items.length) none)
    else none
  | _ => none

/-- The same, except that an array has to give all fields. -/
def fullRecord? (names : List String) : Json → Option (List (Option Json))
  | .arr items => if items.length = names.length then some (items.map some) else none
  | j => j.record? names

/-- A tag: its name or, if `byNumber`, its place in the list of all tags. -/
def tag? (tags : List String) (byNumber : Bool) : Json → Option String
  | .str tag => some tag
  | .int n => if byNumber && 0 ≤ n then tags[n.toNat]? else none
  | _ => none

/-- The tag of a node and the rest of it: the field `tag` of an object, or the first item of an
array. -/
def tagged? (tags : List String) (byNumber : Bool) : Json → Option (String × Json)
  | .obj fields =>
    match fields.filter (·.1 == "tag") with
    | [(_, t)] => (tag? tags byNumber t).map (·, .obj (fields.filter (·.1 != "tag")))
    | _ => none
  | .arr (t :: items) => (tag? tags byNumber t).map (·, .arr items)
  | _ => none

/-- One of several words: a string, or an object with a single field, which has the word as its
name and says no more.  It does so by null or, if `orEmpty`, by an object without fields. -/
def choice? (orEmpty : Bool) : Json → Option String
  | .str word => some word
  | .obj [(word, .null)] => some word
  | .obj [(word, .obj [])] => if orEmpty then some word else none
  | _ => none

/-- A field that must be there. -/
def required {α : Type} (f : Json → Option α) : Option Json → Option α
  | none => none
  | some j => f j

/-- A field that takes the value `d` when it is absent. -/
def defaulted {α : Type} (d : α) (f : Json → Option α) : Option Json → Option α
  | none => some d
  | some j => f j

/-- A field that may be absent or null. -/
def optional {α : Type} (f : Json → Option α) : Option Json → Option (Option α)
  | none => some none
  | some .null => some none
  | some j => (f j).map some

/-- A node without parts: an object with any other fields, or an array that ends after the
tag. -/
def bare {α : Type} (node : α) : Json → Option α
  | .obj _ => some node
  | .arr [] => some node
  | _ => none

/-! ### Order of fields -/

mutual

/-- The value with the fields of every object in alphabetical order. -/
def sortFields : Json → Json
  | .arr items => .arr (sortFieldsItems items)
  | .obj fields => .obj ((sortFieldsFields fields).mergeSort fun a b => decide (a.1 ≤ b.1))
  | j => j

/-- Sort the fields inside the items of an array. -/
def sortFieldsItems : List Json → List Json
  | [] => []
  | j :: js => j.sortFields :: sortFieldsItems js

/-- Sort the fields inside the values of fields. -/
def sortFieldsFields : List (String × Json) → List (String × Json)
  | [] => []
  | (k, j) :: fs => (k, j.sortFields) :: sortFieldsFields fs

end

end Json

end FlatClosure

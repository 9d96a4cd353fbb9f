import FlatClosure.Eval.Arithmetic
import FlatClosure.Eval.Machine

/-!
# Operations on values

What the operators, the built-in functions, field access and indexing do.  None of them calls back
into the program.
-/

namespace FlatClosure

/-- A value of the wrong type. -/
def typeError {α : Type} (expected : String) (actual : Value) (operation : String) : EvalM α := do
  fail (.typeError expected (actual.typeName (← get).heap) operation)

/-- The items that a loop over a value goes through, as they are now. -/
def itemsOf (v : Value) (operation : String) : EvalM (List Value) := do
  match v with
  | .list ref => return (← get).heap.items ref
  | .tuple items => return items
  | .str s => return s.toList.map fun c => .str c.toString
  | v => typeError "iterable" v operation

/-! ### Operators -/

/-- The value of an operator on one operand. -/
def applyUnary (op : UnaryOp) (v : Value) : EvalM Value := do
  match op, v with
  | .not, v => return .bool (!v.truthy (← get).heap)
  | .neg, .int n =>
    let r ← ofExcept (checked "-" (-n.toInt))
    return .int r
  | .neg, v => typeError "int" v "-"

/-- The order of two values of an ordered type. -/
def ordering {α : Type} [LT α] [DecidableEq α] [DecidableLT α] (a b : α) :
    Ordering :=
  if a < b then .lt else if a = b then .eq else .gt

/-- Operands that do not go together. -/
def mismatch {α : Type} (op : BinaryOp) (a b : Value) : EvalM α := do
  let h := (← get).heap
  fail (.typeError "operands of matching types" (a.typeName h ++ " and " ++ b.typeName h) op.sign)

/-- The value of an operator on two integers. -/
def applyInts (op : BinaryOp) (a b : Int64) : EvalM Value := do
  match op with
  | .add =>
    let r ← ofExcept (checked "+" (a.toInt + b.toInt))
    return .int r
  | .sub =>
    let r ← ofExcept (checked "-" (a.toInt - b.toInt))
    return .int r
  | .mul =>
    let r ← ofExcept (checked "*" (a.toInt * b.toInt))
    return .int r
  | .floorDiv =>
    let r ← ofExcept (floorDiv a b)
    return .int r
  | .mod =>
    let r ← ofExcept (floorMod a b)
    return .int r
  | .lt | .le | .gt | .ge => return .bool (comparison op (ordering a.toInt b.toInt))
  | _ => mismatch op (.int a) (.int b)

/-- The value of an operator on two operands, both of them evaluated. -/
def applyBinary (op : BinaryOp) (a b : Value) : EvalM Value := do
  match op, a, b with
  | .eq, a, b => return .bool (a.equals (← get).heap b)
  | .ne, a, b => return .bool (!a.equals (← get).heap b)
  | .is, a, b => return .bool (a.same b)
  | op, .int a, .int b => applyInts op a b
  | .add, .str a, .str b => return .str (a ++ b)
  | .add, .list a, .list b =>
    let h := (← get).heap
    newList (h.items a ++ h.items b)
  | .lt, .str a, .str b | .le, .str a, .str b | .gt, .str a, .str b | .ge, .str a, .str b =>
    return .bool (comparison op (ordering a b))
  | op, a, b => mismatch op a b

/-! ### Built-in functions -/

/-- The number of items, or of characters of a string. -/
def lengthOf (v : Value) : EvalM Nat := do
  match v with
  | .str s => return s.length
  | .list ref => return (← get).heap.length ref
  | .tuple items => return items.length
  | v => typeError "str or list" v "len"

/-- The value of a built-in function of one argument. -/
def applyBuiltin1 (name : String) (v : Value) : EvalM Value := do
  match name with
  | "print" =>
    modify fun s => s.print (v.render s.heap)
    return .none
  | "len" =>
    let n ← lengthOf v
    return .int (Int64.ofNat n)
  | "abs" =>
    match v with
    | .int n =>
      let r ← ofExcept (checked "abs" n.toInt.natAbs)
      return .int r
    | v => typeError "int" v "abs"
  | _ => fail (.unsupported ("builtin `" ++ name ++ "`"))

/-- The value of a built-in function of two arguments, which have to be integers. -/
def applyBuiltin2 (name : String) (a b : Value) : EvalM Value := do
  match a, b with
  | .int a, .int b =>
    match name with
    | "max" => return .int (if a < b then b else a)
    | "min" => return .int (if b < a then b else a)
    | "pow" =>
      let r ← ofExcept (power a b)
      return .int r
    | _ => fail (.unsupported ("builtin `" ++ name ++ "`"))
  | .int _, b => typeError "int" b name
  | a, _ => typeError "int" a name

/-! ### Fields and items -/

/-- The value of a field. -/
def getField (v : Value) (field : String) : EvalM Value := do
  match v with
  | .object ref =>
    let o := (← get).heap.object ref
    match o.fields.get? field with
    | some w => return w
    | none => fail (.noSuchField o.cls field)
  | v => typeError "object" v ("." ++ field)

/-- Change a field that the object has. -/
def storeField (v : Value) (field : String) (w : Value) : EvalM Unit := do
  match v with
  | .object ref =>
    let o := (← get).heap.object ref
    if o.fields.contains field then
      modify fun s => { s with heap := s.heap.setField ref field w }
    else fail (.noSuchField o.cls field)
  | v => typeError "object" v ("." ++ field)

/-- The place that an index names among `length` items. -/
def checkedIndex (index : Value) (length : Nat) : EvalM Nat := do
  match index with
  | .int i =>
    if 0 ≤ i.toInt ∧ i.toInt < length then return i.toInt.toNat
    else fail (.indexOutOfBounds i.toInt length)
  | v => typeError "int" v "[]"

/-- The item of a list, tuple or string at an index. -/
def getIndex (v index : Value) : EvalM Value := do
  match v with
  | .list ref =>
    let h := (← get).heap
    let i ← checkedIndex index (h.length ref)
    return (h.item? ref i).getD .none
  | .tuple items =>
    let i ← checkedIndex index items.length
    return items.getD i .none
  | .str s =>
    let i ← checkedIndex index s.length
    return .str (String.ofList ((s.toList.drop i).take 1))
  | v => typeError "list or str" v "[]"

/-- Change the item of a list at an index. -/
def storeItem (v index w : Value) : EvalM Unit := do
  match v with
  | .list ref =>
    let i ← checkedIndex index ((← get).heap.length ref)
    modify fun s => { s with heap := s.heap.setItem ref i w }
  | v => typeError "list" v "[]="

end FlatClosure

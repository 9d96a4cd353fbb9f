import FlatClosure.Conversion.Conventions
import FlatClosure.Eval.Operations

/-!
# Evaluation

`Expr.eval` and `Stmt.exec` follow the tree, so they need no fuel of their own.  What can go on for
ever is handed to them: `Calls.enter` runs the body of a function, and `Calls.fuel` bounds the
rounds of a while loop.  `callFunction` ties the knot: a call with fuel `n + 1` runs its body with
calls of fuel `n`.  Running out of fuel is a result of its own (`Stop.outOfFuel`), never a fault of
the program; the limit on the depth of calls is one (`EvalError.recursionLimit`) and has nothing to
do with fuel.

The parts of an expression are evaluated from left to right.  A comprehension evaluates its
condition before its element.
-/

namespace FlatClosure

/-- What stays the same while a program runs. -/
structure Context where
  program : Program
  /-- The names of the methods that calling and making an object run. -/
  names : Conventions := {}
  /-- The number of calls that may be open at a time. -/
  maxDepth : Nat := 200

/-- How the calls of a program are run. -/
structure Calls where
  ctx : Context
  /-- The number of rounds that a while loop may make. -/
  fuel : Nat
  /-- Run a function on arguments. -/
  enter : FunDef → List Value → EvalM Value

/-- How a block was left. -/
inductive Flow where
  /-- At its end. -/
  | normal
  | ret (v : Value)
  | breakLoop
  | continueLoop

/-! ### Calls -/

/-- Call a method of an object. -/
def invoke (k : Calls) (ref : Nat) (method : String) (args : List Value) : EvalM Value := do
  let cls := ((← get).heap.object ref).cls
  match (k.ctx.program.class? cls).bind (·.method? method) with
  | some f => k.enter f (.object ref :: args)
  | none => fail (.noSuchMethod cls method)

/-- Make an object with the first values of its fields and run its constructor.  A class without a
constructor takes no arguments. -/
def instantiate (k : Calls) (c : ClassDef) (args : List Value) : EvalM Value := do
  let ref ← newObject ⟨c.name, .ofList (c.fields.map fun v => (v.name, v.value.toValue))⟩
  if (c.method? k.ctx.names.constructor).isSome then
    let _ ← invoke k ref k.ctx.names.constructor args
    return .object ref
  else if args.isEmpty then return .object ref
  else fail (.arityMismatch c.name 0 args.length)

/-- Call a function of the program by its name. -/
def callNamed (k : Calls) (name : String) (args : List Value) : EvalM Value := do
  modify (Machine.initGlobals k.ctx.program)
  match k.ctx.program.function? name with
  | some f => k.enter f args
  | none => fail (.undefinedVariable name)

/-- Call a value: a function, or an object by its call method. -/
def callValue (k : Calls) (callee : Value) (args : List Value) : EvalM Value := do
  match callee with
  | .function name => callNamed k name args
  | .object ref => invoke k ref k.ctx.names.callMethod args
  | v => fail (.notCallable (v.typeName (← get).heap))

/-- Call a method of a value.  Lists have one method, which adds an item. -/
def callMethodOf (k : Calls) (v : Value) (method : String) (args : List Value) : EvalM Value := do
  match v, args with
  | .object ref, args => invoke k ref method args
  | .list ref, [item] =>
    if method = "append" then
      modify fun s => { s with heap := s.heap.append ref item }
      return .none
    else fail (.noSuchMethod "list" method)
  | v, _ => fail (.noSuchMethod (v.typeName (← get).heap) method)

/-- The class that a callee names: a plain name that is no variable, but a class. -/
def calleeClass? (k : Calls) (s : Machine) (callee : Expr) : Option ClassDef :=
  match callee.id? with
  | some x => if s.isVariable x then none else k.ctx.program.class? x
  | none => none

/-! ### Expressions -/

/-- The value of a name. -/
def readName (k : Calls) (x : String) : EvalM Value := do
  match (← get).lookup? k.ctx.program x with
  | some v => return v
  | none => fail (.undefinedVariable x)

/-- Give `x` one item after the other, and gather the values that `step` yields. -/
def gather (x : String) (step : EvalM (Option Value)) : List Value → EvalM (List Value)
  | [] => return []
  | v :: vs => do
    modify (·.shadow x v)
    let r ← step
    let rs ← gather x step vs
    return r.toList ++ rs

/-- Like `gather`, but the variable that `x` hides comes back at the end, whatever happens. -/
def gatherShadowing (x : String) (step : EvalM (Option Value)) (items : List Value) :
    EvalM (List Value) := fun s =>
  if items.isEmpty then (.ok [], s)
  else
    let old := s.hidden? x
    let (r, t) := (gather x step items).run s
    (r, t.restore x old)

mutual

/-- The value of an expression. -/
def Expr.eval (k : Calls) : Expr → EvalM Value
  | .literal v => return v.toValue
  | .id x _ => readName k x
  | .unary op e => do
    let v ← e.eval k
    applyUnary op v
  | .binary .and l r => do
    let a ← l.eval k
    if a.truthy (← get).heap then r.eval k else return a
  | .binary .or l r => do
    let a ← l.eval k
    if a.truthy (← get).heap then return a else r.eval k
  | .binary op l r => do
    let a ← l.eval k
    let b ← r.eval k
    applyBinary op a b
  | .builtin1 name e => do
    let v ← e.eval k
    applyBuiltin1 name v
  | .builtin2 name l r => do
    let a ← l.eval k
    let b ← r.eval k
    applyBuiltin2 name a b
  | .call f args => do
    match calleeClass? k (← get) f with
    | some c =>
      let vs ← Expr.evalList k args
      instantiate k c vs
    | none =>
      let callee ← f.eval k
      let vs ← Expr.evalList k args
      callValue k callee vs
  | .field o x => do
    let v ← o.eval k
    getField v x
  | .index o i => do
    let v ← o.eval k
    let j ← i.eval k
    getIndex v j
  | .methodCall o m args => do
    let v ← o.eval k
    let vs ← Expr.evalList k args
    callMethodOf k v m vs
  | .list es => do
    let vs ← Expr.evalList k es
    newList vs
  | .set es => do
    let vs ← Expr.evalList k es
    newList (Value.dedup (← get).heap vs)
  | .tuple es => do
    let vs ← Expr.evalList k es
    return .tuple vs
  | .comprehension kind e x it c => do
    let items ← itemsOf (← it.eval k) "comprehension"
    let vs ← gatherShadowing x (do
      if ← Expr.holds k c then
        let v ← e.eval k
        return some v
      else return none) items
    match kind with
    | .list => newList vs
    | .set => newList (Value.dedup (← get).heap vs)
  | .ifElse c t e => do
    let v ← c.eval k
    if v.truthy (← get).heap then t.eval k else e.eval k
  | .construct name _ => do
    match k.ctx.program.class? name with
    | some c => instantiate k c []
    | none => fail (.undefinedVariable name)
  | .lambda .. => fail (.unsupported "lambda")

/-- The values of expressions, from left to right. -/
def Expr.evalList (k : Calls) : List Expr → EvalM (List Value)
  | [] => return []
  | e :: es => do
    let v ← e.eval k
    let vs ← Expr.evalList k es
    return v :: vs

/-- The condition of a comprehension holds; a missing one always does. -/
def Expr.holds (k : Calls) : Option Expr → EvalM Bool
  | none => return true
  | some c => do
    let v ← c.eval k
    return v.truthy (← get).heap

end

/-! ### Assignments -/

/-- Assign a value to a target. -/
def Target.assign (k : Calls) (v : Value) : Target → EvalM Unit
  | .id x => modify (·.store x v)
  | .field o x => do
    let obj ← o.eval k
    storeField obj x v
  | .index o i => do
    let obj ← o.eval k
    let j ← i.eval k
    storeItem obj j v
  | .ignore => return ()

/-- Hand items to targets in order.  The first starred target, while it is open, takes a list of
the items that the targets behind it do not need; every other target takes one. -/
def assignSlots (k : Calls) (starOpen : Bool) : List Slot → List Value → EvalM Unit
  | [], _ => return ()
  | slot :: slots, items => do
    if starOpen && slot.starred then
      let n := items.length - slots.length
      let v ← newList (items.take n)
      slot.target.assign k v
      assignSlots k false slots (items.drop n)
    else
      slot.target.assign k (items.headD .none)
      assignSlots k starOpen slots items.tail

/-- Take a value apart.  The number of items has to fit before anything is assigned. -/
def destructure (k : Calls) (slots : List Slot) (v : Value) : EvalM Unit := do
  let items ← itemsOf v "unpack"
  let hasStar := slots.any (·.starred)
  let fixed := slots.length - (if hasStar then 1 else 0)
  if items.length < fixed ∨ (!hasStar ∧ items.length ≠ fixed) then
    fail (.unpack fixed items.length)
  else assignSlots k true slots items

/-! ### Statements -/

/-- Repeat `body` while `cond` holds, at most as many times as there is fuel. -/
def loopWhile (cond : EvalM Bool) (body : EvalM Flow) : Nat → EvalM Flow
  | 0 => throw .outOfFuel
  | n + 1 => do
    if ← cond then
      match ← body with
      | .breakLoop => return .normal
      | .ret v => return .ret v
      | _ => loopWhile cond body n
    else return .normal

/-- Run `body` for one item after the other.  A loop that was left early says how. -/
def loopEach (x : String) (body : EvalM Flow) : List Value → EvalM Flow
  | [] => return .normal
  | v :: vs => do
    modify (·.store x v)
    match ← body with
    | .breakLoop => return .breakLoop
    | .ret w => return .ret w
    | _ => loopEach x body vs

mutual

/-- Run a statement. -/
def Stmt.exec (k : Calls) : Stmt → EvalM Flow
  | .assign x e => do
    let v ← e.eval k
    modify (·.store x v)
    return .normal
  | .unpack slots e => do
    let v ← e.eval k
    destructure k slots v
    return .normal
  | .ret none => return .ret .none
  | .ret (some e) => do
    let v ← e.eval k
    return .ret v
  | .expr e => do
    let _ ← e.eval k
    return .normal
  | .setField o x e => do
    let obj ← o.eval k
    let v ← e.eval k
    storeField obj x v
    return .normal
  | .setIndex o i e => do
    let obj ← o.eval k
    let j ← i.eval k
    let v ← e.eval k
    storeItem obj j v
    return .normal
  | .ifElse c thn els => do
    let v ← c.eval k
    if v.truthy (← get).heap then Stmt.execList k thn else Stmt.execList k els
  | .whileLoop c body =>
    loopWhile (Expr.holds k (some c)) (Stmt.execList k body) k.fuel
  | .forEach x it body els => do
    let items ← itemsOf (← it.eval k) "for"
    match ← loopEach x (Stmt.execList k body) items with
    | .breakLoop => return .normal
    | .ret v => return .ret v
    | _ => Stmt.execOption k els
  | .pass => return .normal
  | .nonlocal _ => fail (.unsupported "nonlocal")
  | .global x => do
    modify (·.declareGlobal x)
    return .normal
  | .breakLoop => return .breakLoop
  | .continueLoop => return .continueLoop
  | .closure f => fail (.unconvertedClosure f.name)

/-- Run a block up to its end or the statement that leaves it. -/
def Stmt.execList (k : Calls) : List Stmt → EvalM Flow
  | [] => return .normal
  | s :: ss => do
    match ← s.exec k with
    | .normal => Stmt.execList k ss
    | flow => return flow

/-- Run a block that may be missing. -/
def Stmt.execOption (k : Calls) : Option (List Stmt) → EvalM Flow
  | none => return .normal
  | some ss => Stmt.execList k ss

end

/-! ### Functions -/

/-- The value of a body that was left in a certain way. -/
def flowValue : Flow → EvalM Value
  | .normal => return .none
  | .ret v => return v
  | .breakLoop => fail (.outsideLoop "break")
  | .continueLoop => fail (.outsideLoop "continue")

/-- The variables of a call when it starts: the parameters, then the locals. -/
def FunDef.frame (f : FunDef) (args : List Value) : Frame where
  vars := .ofList
    ((f.params.map (·.name)).zip args ++ f.inits.map fun v => (v.name, v.value.toValue))

/-- Run a step in a call of its own, which is closed again whatever happens. -/
def withFrame {α : Type} (f : Frame) (act : EvalM α) : EvalM α := fun s =>
  let (r, t) := act.run { s with frames := f :: s.frames }
  (r, { t with frames := t.frames.tail })

/-- Run a function with the given fuel. -/
def callFunction (ctx : Context) : Nat → FunDef → List Value → EvalM Value
  | fuel, f, args => do
    if args.length ≠ f.arity then fail (.arityMismatch f.name f.arity args.length)
    else if ctx.maxDepth ≤ (← get).frames.length then fail (.recursionLimit ctx.maxDepth)
    else
      match fuel with
      | 0 => throw .outOfFuel
      | n + 1 =>
        let flow ← withFrame (f.frame args) (Stmt.execList ⟨ctx, n, callFunction ctx n⟩ f.body)
        flowValue flow

/-! ### Running programs -/

namespace Context

/-- How calls are run with the given fuel. -/
def calls (ctx : Context) (fuel : Nat) : Calls := ⟨ctx, fuel, callFunction ctx fuel⟩

/-- Evaluate an expression.  The global variables get their first values only when a function is
called. -/
def eval (ctx : Context) (fuel : Nat) (e : Expr) : EvalM Value := e.eval (ctx.calls fuel)

/-- Call a function of the program. -/
def call (ctx : Context) (fuel : Nat) (name : String) (args : List Value) : EvalM Value :=
  callNamed (ctx.calls fuel) name args

/-- Call a value. -/
def callValue (ctx : Context) (fuel : Nat) (callee : Value) (args : List Value) : EvalM Value :=
  FlatClosure.callValue (ctx.calls fuel) callee args

/-- Run the top-level statements. -/
def runMain (ctx : Context) (fuel : Nat) : EvalM Unit := do
  modify (Machine.initGlobals ctx.program)
  let flow ← Stmt.execList (ctx.calls fuel) ctx.program.stmts
  let _ ← flowValue flow

/-- Run the program from the start: the answer is the text that it prints. -/
def run (ctx : Context) (fuel : Nat) : Except Stop String :=
  match (ctx.runMain fuel).run {} with
  | (.ok _, s) => .ok s.output
  | (.error e, _) => .error e

end Context

end FlatClosure

import FlatClosure.Eval.Interp
import FlatClosure.Proofs.Generated

/-!
# The meaning of functions inside functions

The evaluator has no rule for a function that is declared inside another one.  This file extends it
by one, without converting anything.

* The functions that a function declares are variables of its calls, which are `None` at first.
* A declaration makes a new object of the class that belongs to it and records in its fields the
  values that the captured variables have at that moment; a closure that captures its own name
  records itself.
* Calling such an object runs the function as it was written, in a call that has the arguments, the
  locals and the recorded values for variables.
* Reading and changing the fields of such an object are errors, and so are calls of its methods,
  since the program has no class of its name.

Apart from that, expressions and statements mean what they mean to the evaluator:
`Nested.run_eq_run` says that a program without closures runs as it does there.
-/

namespace FlatClosure.Nested

/-- A function that is called, with the declarations of the functions inside it, and with what was
recorded when it was declared itself. -/
structure Code where
  func : FunDef
  declared : List Declaration := []
  recorded : List (String × Value) := []

/-- The variables of a call when it starts. -/
def Code.frame (c : Code) (args : List Value) : Frame where
  vars := .ofList
    ((c.func.params.map (·.name)).zip args ++
      c.func.inits.map (fun v => (v.name, v.value.toValue)) ++
      c.declared.map (fun d => (d.func.name, .none)) ++ c.recorded)

/-- How the calls of a program are run. -/
structure Calls where
  ctx : Context
  /-- The number of rounds that a while loop may make. -/
  fuel : Nat
  /-- Run a function on arguments. -/
  enter : Code → List Value → EvalM Value

/-! ### Calls -/

/-- How functions and methods without functions inside them are run. -/
def Calls.flat (k : Calls) : FlatClosure.Calls :=
  ⟨k.ctx, k.fuel, fun f args => k.enter ⟨f, [], []⟩ args⟩

/-- The declaration that a class belongs to. -/
def Calls.closure? (k : Calls) (cls : String) : Option Declaration :=
  (k.ctx.program.declarations k.ctx.names).find? (·.cls k.ctx.names == cls)

/-- Call a function of the program by its name. -/
def callNamed (k : Calls) (name : String) (args : List Value) : EvalM Value := do
  modify (Machine.initGlobals k.ctx.program)
  match (k.ctx.program.plan k.ctx.names).find? (·.1.name == name) with
  | some (f, ds) => k.enter ⟨f, ds, []⟩ args
  | none => fail (.undefinedVariable name)

/-- Call a value: a function of the program, a closure, or an object by its call method. -/
def callValue (k : Calls) (callee : Value) (args : List Value) : EvalM Value := do
  match callee with
  | .function name => callNamed k name args
  | .object ref =>
    let o := (← get).heap.object ref
    match k.closure? o.cls with
    | some d => k.enter ⟨d.func, [], o.fields.entries⟩ args
    | none => invoke k.flat ref k.ctx.names.callMethod args
  | v => fail (.notCallable (v.typeName (← get).heap))

/-- The fields of a closure cannot be used. -/
def checkFields (k : Calls) (v : Value) (field : String) : EvalM Unit := do
  match v with
  | .object ref =>
    let o := (← get).heap.object ref
    if (k.closure? o.cls).isSome then fail (.noSuchField o.cls field) else return ()
  | _ => return ()

/-- The value of a field. -/
def getField (k : Calls) (v : Value) (field : String) : EvalM Value := do
  checkFields k v field
  FlatClosure.getField v field

/-- Change a field. -/
def storeField (k : Calls) (v : Value) (field : String) (w : Value) : EvalM Unit := do
  checkFields k v field
  FlatClosure.storeField v field w

/-! ### Declarations -/

/-- The values of captured variables; the closure is given, as it has no value yet. -/
def recordValues (k : Calls) (closure : String) (self : Value) :
    List String → EvalM (List (String × Value))
  | [] => return []
  | x :: xs => do
    let v ← if x = closure then pure self else readName k.flat x
    let vs ← recordValues k closure self xs
    return (x, v) :: vs

/-- Declare a closure. -/
def declare (k : Calls) (d : Declaration) : EvalM Flow := do
  let self := Value.object (← get).heap.objects.size
  let recorded ← recordValues k d.func.name self d.captures.names
  let ref ← newObject ⟨d.cls k.ctx.names, .ofList recorded⟩
  modify (·.store d.func.name (.object ref))
  return .normal

/-! ### Expressions -/

mutual

/-- The value of an expression. -/
def eval (k : Calls) : Expr → EvalM Value
  | .literal v => return v.toValue
  | .id x _ => readName k.flat x
  | .unary op e => do
    let v ← eval k e
    applyUnary op v
  | .binary .and l r => do
    let a ← eval k l
    if a.truthy (← get).heap then eval k r else return a
  | .binary .or l r => do
    let a ← eval k l
    if a.truthy (← get).heap then return a else eval k r
  | .binary op l r => do
    let a ← eval k l
    let b ← eval k r
    applyBinary op a b
  | .builtin1 name e => do
    let v ← eval k e
    applyBuiltin1 name v
  | .builtin2 name l r => do
    let a ← eval k l
    let b ← eval k r
    applyBuiltin2 name a b
  | .call f args => do
    match calleeClass? k.flat (← get) f with
    | some c =>
      let vs ← evalList k args
      instantiate k.flat c vs
    | none =>
      let callee ← eval k f
      let vs ← evalList k args
      callValue k callee vs
  | .field o x => do
    let v ← eval k o
    getField k v x
  | .index o i => do
    let v ← eval k o
    let j ← eval k i
    getIndex v j
  | .methodCall o m args => do
    let v ← eval k o
    let vs ← evalList k args
    callMethodOf k.flat v m vs
  | .list es => do
    let vs ← evalList k es
    newList vs
  | .set es => do
    let vs ← evalList k es
    newList (Value.dedup (← get).heap vs)
  | .tuple es => do
    let vs ← evalList k es
    return .tuple vs
  | .comprehension kind e x it c => do
    let items ← itemsOf (← eval k it) "comprehension"
    let vs ← gatherShadowing x (do
      if ← holds k c then
        let v ← eval k e
        return some v
      else return none) items
    match kind with
    | .list => newList vs
    | .set => newList (Value.dedup (← get).heap vs)
  | .ifElse c t e => do
    let v ← eval k c
    if v.truthy (← get).heap then eval k t else eval k e
  | .construct name _ => do
    match k.ctx.program.class? name with
    | some c => instantiate k.flat c []
    | none => fail (.undefinedVariable name)
  | .lambda .. => fail (.unsupported "lambda")

/-- The values of expressions, from left to right. -/
def evalList (k : Calls) : List Expr → EvalM (List Value)
  | [] => return []
  | e :: es => do
    let v ← eval k e
    let vs ← evalList k es
    return v :: vs

/-- The condition of a comprehension holds; a missing one always does. -/
def holds (k : Calls) : Option Expr → EvalM Bool
  | none => return true
  | some c => do
    let v ← eval k c
    return v.truthy (← get).heap

end

/-! ### Assignments -/

/-- Assign a value to a target. -/
def assign (k : Calls) (v : Value) : Target → EvalM Unit
  | .id x => modify (·.store x v)
  | .field o x => do
    let obj ← eval k o
    storeField k obj x v
  | .index o i => do
    let obj ← eval k o
    let j ← eval k i
    storeItem obj j v
  | .ignore => return ()

/-- Hand items to targets in order. -/
def assignSlots (k : Calls) (starOpen : Bool) : List Slot → List Value → EvalM Unit
  | [], _ => return ()
  | slot :: slots, items => do
    if starOpen && slot.starred then
      let n := items.length - slots.length
      let v ← newList (items.take n)
      assign k v slot.target
      assignSlots k false slots (items.drop n)
    else
      assign k (items.headD .none) slot.target
      assignSlots k starOpen slots items.tail

/-- Take a value apart. -/
def destructure (k : Calls) (slots : List Slot) (v : Value) : EvalM Unit := do
  let items ← itemsOf v "unpack"
  let hasStar := slots.any (·.starred)
  let fixed := slots.length - (if hasStar then 1 else 0)
  if items.length < fixed ∨ (!hasStar ∧ items.length ≠ fixed) then
    fail (.unpack fixed items.length)
  else assignSlots k true slots items

/-! ### Statements -/

mutual

/-- Run a statement, given the declarations of the functions in it. -/
def exec (k : Calls) : Stmt → List Declaration → EvalM Flow
  | .assign x e, _ => do
    let v ← eval k e
    modify (·.store x v)
    return .normal
  | .unpack slots e, _ => do
    let v ← eval k e
    destructure k slots v
    return .normal
  | .ret none, _ => return .ret .none
  | .ret (some e), _ => do
    let v ← eval k e
    return .ret v
  | .expr e, _ => do
    let _ ← eval k e
    return .normal
  | .setField o x e, _ => do
    let obj ← eval k o
    let v ← eval k e
    storeField k obj x v
    return .normal
  | .setIndex o i e, _ => do
    let obj ← eval k o
    let j ← eval k i
    let v ← eval k e
    storeItem obj j v
    return .normal
  | .ifElse c thn els, ds => do
    let v ← eval k c
    if v.truthy (← get).heap then execList k thn ds
    else execList k els (ds.drop (Stmt.collectList closures thn).length)
  | .whileLoop c body, ds =>
    loopWhile (holds k (some c)) (execList k body ds) k.fuel
  | .forEach x it body els, ds => do
    let items ← itemsOf (← eval k it) "for"
    match ← loopEach x (execList k body ds) items with
    | .breakLoop => return .normal
    | .ret v => return .ret v
    | _ => execOption k els (ds.drop (Stmt.collectList closures body).length)
  | .pass, _ => return .normal
  | .nonlocal _, _ => fail (.unsupported "nonlocal")
  | .global x, _ => do
    modify (·.declareGlobal x)
    return .normal
  | .breakLoop, _ => return .breakLoop
  | .continueLoop, _ => return .continueLoop
  | .closure _, d :: _ => declare k d
  | .closure f, [] => fail (.unconvertedClosure f.name)

/-- Run a block up to its end or the statement that leaves it. -/
def execList (k : Calls) : List Stmt → List Declaration → EvalM Flow
  | [], _ => return .normal
  | s :: ss, ds => do
    match ← exec k s ds with
    | .normal => execList k ss (ds.drop (s.collect closures).length)
    | flow => return flow

/-- Run a block that may be missing. -/
def execOption (k : Calls) : Option (List Stmt) → List Declaration → EvalM Flow
  | none, _ => return .normal
  | some ss, ds => execList k ss ds

end

/-! ### Programs -/

/-- Run a function with the given fuel. -/
def callCode (ctx : Context) : Nat → Code → List Value → EvalM Value
  | fuel, c, args => do
    if args.length ≠ c.func.arity then fail (.arityMismatch c.func.name c.func.arity args.length)
    else if ctx.maxDepth ≤ (← get).frames.length then fail (.recursionLimit ctx.maxDepth)
    else
      match fuel with
      | 0 => throw .outOfFuel
      | n + 1 =>
        let flow ← withFrame (c.frame args)
          (execList ⟨ctx, n, callCode ctx n⟩ c.func.body c.declared)
        flowValue flow

/-- How calls are run with the given fuel. -/
def calls (ctx : Context) (fuel : Nat) : Calls := ⟨ctx, fuel, callCode ctx fuel⟩

/-- Run the top-level statements. -/
def runMain (ctx : Context) (fuel : Nat) : EvalM Unit := do
  modify (Machine.initGlobals ctx.program)
  let flow ← execList (calls ctx fuel) ctx.program.stmts []
  let _ ← flowValue flow

/-- Run the program from the start: the answer is the text that it prints. -/
def run (ctx : Context) (fuel : Nat) : Except Stop String :=
  match (runMain ctx fuel).run {} with
  | (.ok _, s) => .ok s.output
  | (.error e, _) => .error e

/-! ### Programs without closures -/

section Flat

/-- The program has no closures. -/
def Calls.NoClosures (k : Calls) : Prop := k.ctx.program.declarations k.ctx.names = []

variable {k : Calls}

theorem closure?_eq_none (h : k.NoClosures) (cls : String) : k.closure? cls = none := by
  rw [Calls.closure?, show k.ctx.program.declarations k.ctx.names = [] from h]
  rfl

theorem callNamed_flat (h : k.NoClosures) (name : String) (args : List Value) :
    callNamed k name args = FlatClosure.callNamed k.flat name args := by
  rw [callNamed, FlatClosure.callNamed]
  refine congrArg (modify (Machine.initGlobals k.ctx.program) >>= ·) (funext fun _ => ?_)
  rw [show k.flat.ctx.program = k.ctx.program from rfl, function?_eq_find?_plan k.ctx.names]
  cases hfind : (k.ctx.program.plan k.ctx.names).find? (·.1.name == name) with
  | none => rfl
  | some fd =>
    have none : fd.2 = [] := List.flatMap_eq_nil_iff.1 h fd (List.mem_of_find?_eq_some hfind)
    simp only [Option.map_some, none]
    rfl

theorem checkFields_flat (h : k.NoClosures) (v : Value) (field : String) :
    checkFields k v field = pure () := by
  cases v with
  | object ref =>
    simp only [checkFields, closure?_eq_none h]
    rfl
  | _ => rfl

theorem getField_flat (h : k.NoClosures) (v : Value) (field : String) :
    getField k v field = FlatClosure.getField v field := by
  rw [getField, checkFields_flat h]
  rfl

theorem storeField_flat (h : k.NoClosures) (v : Value) (field : String) (w : Value) :
    storeField k v field w = FlatClosure.storeField v field w := by
  rw [storeField, checkFields_flat h]
  rfl

theorem callValue_flat (h : k.NoClosures) (callee : Value) (args : List Value) :
    callValue k callee args = FlatClosure.callValue k.flat callee args := by
  cases callee with
  | function name => exact callNamed_flat h name args
  | object ref =>
    simp only [callValue, closure?_eq_none h]
    rfl
  | _ => rfl

mutual

theorem eval_flat (h : k.NoClosures) (e : Expr) : eval k e = e.eval k.flat := by
  cases e with
  | literal | id | construct | lambda => rfl
  | unary _ a | builtin1 _ a => simp only [eval, Expr.eval, eval_flat h a]
  | binary op l r => cases op <;> simp only [eval, Expr.eval, eval_flat h l, eval_flat h r]
  | builtin2 _ l r | index l r => simp only [eval, Expr.eval, eval_flat h l, eval_flat h r]
  | call f args =>
    rw [eval, Expr.eval]
    refine bind_congr fun s => ?_
    cases calleeClass? k.flat s f with
    | some c => simp only [evalList_flat h args]
    | none => simp only [eval_flat h f, evalList_flat h args, callValue_flat h]
  | methodCall o _ args => simp only [eval, Expr.eval, eval_flat h o, evalList_flat h args]
  | field o _ => simp only [eval, Expr.eval, eval_flat h o, getField_flat h]
  | list es | set es | tuple es => simp only [eval, Expr.eval, evalList_flat h es]
  | comprehension kind e _ it c =>
    cases kind <;> simp only [eval, Expr.eval, eval_flat h e, eval_flat h it, holds_flat h c]
  | ifElse c t e => simp only [eval, Expr.eval, eval_flat h c, eval_flat h t, eval_flat h e]

theorem evalList_flat (h : k.NoClosures) (es : List Expr) :
    evalList k es = Expr.evalList k.flat es := by
  cases es with
  | nil => rfl
  | cons e es => simp only [evalList, Expr.evalList, eval_flat h e, evalList_flat h es]

theorem holds_flat (h : k.NoClosures) (c : Option Expr) : holds k c = Expr.holds k.flat c := by
  cases c with
  | none => rfl
  | some c => simp only [holds, Expr.holds, eval_flat h c]

end

theorem assign_flat (h : k.NoClosures) (v : Value) (t : Target) :
    assign k v t = t.assign k.flat v := by
  cases t with
  | id | ignore => rfl
  | field o x => simp only [assign, Target.assign, eval_flat h, storeField_flat h]
  | index o i => simp only [assign, Target.assign, eval_flat h]

theorem assignSlots_flat (h : k.NoClosures) (starOpen : Bool) (slots : List Slot)
    (items : List Value) :
    assignSlots k starOpen slots items = FlatClosure.assignSlots k.flat starOpen slots items := by
  induction slots generalizing starOpen items with
  | nil => rfl
  | cons s ss ih => simp only [assignSlots, FlatClosure.assignSlots, assign_flat h, ih]

theorem destructure_flat (h : k.NoClosures) (slots : List Slot) (v : Value) :
    destructure k slots v = FlatClosure.destructure k.flat slots v := by
  simp only [destructure, FlatClosure.destructure, assignSlots_flat h]

mutual

theorem exec_flat (h : k.NoClosures) (s : Stmt) : exec k s [] = s.exec k.flat := by
  cases s with
  | assign _ e | expr e => simp only [exec, Stmt.exec, eval_flat h e]
  | unpack _ e => simp only [exec, Stmt.exec, eval_flat h e, destructure_flat h]
  | ret v =>
    cases v with
    | none => rfl
    | some e => simp only [exec, Stmt.exec, eval_flat h e]
  | setField o _ e => simp only [exec, Stmt.exec, eval_flat h o, eval_flat h e, storeField_flat h]
  | setIndex o i e => simp only [exec, Stmt.exec, eval_flat h o, eval_flat h i, eval_flat h e]
  | ifElse c thn els =>
    simp only [exec, Stmt.exec, eval_flat h c, List.drop_nil, execList_flat h thn,
      execList_flat h els]
  | whileLoop c body =>
    simp only [exec, Stmt.exec, holds_flat h, execList_flat h body]
    rfl
  | forEach _ it body els =>
    rw [exec, Stmt.exec, eval_flat h it, execList_flat h body]
    refine bind_congr fun v => bind_congr fun items => bind_congr fun flow => ?_
    cases flow with
    | breakLoop | ret => rfl
    | normal | continueLoop => simp only [List.drop_nil, execOption_flat h els]
  | pass | nonlocal | global | breakLoop | continueLoop | closure => rfl

theorem execList_flat (h : k.NoClosures) (ss : List Stmt) :
    execList k ss [] = Stmt.execList k.flat ss := by
  cases ss with
  | nil => rfl
  | cons s ss =>
    rw [execList, Stmt.execList, exec_flat h s]
    refine bind_congr fun flow => ?_
    cases flow with
    | normal => simp only [List.drop_nil, execList_flat h ss]
    | _ => rfl

theorem execOption_flat (h : k.NoClosures) (els : Option (List Stmt)) :
    execOption k els [] = Stmt.execOption k.flat els := by
  cases els with
  | none => rfl
  | some ss => exact execList_flat h ss

end

end Flat

theorem frame_flat (f : FunDef) (args : List Value) :
    Code.frame ⟨f, [], []⟩ args = f.frame args := by
  simp only [Code.frame, FunDef.frame, List.map_nil, List.append_nil]

theorem callCode_flat {ctx : Context} (h : ctx.program.declarations ctx.names = []) (fuel : Nat) :
    (fun f args => callCode ctx fuel ⟨f, [], []⟩ args) = callFunction ctx fuel := by
  induction fuel with
  | zero => rfl
  | succ n ih =>
    funext f args
    have body : execList ⟨ctx, n, callCode ctx n⟩ f.body [] =
        Stmt.execList ⟨ctx, n, callFunction ctx n⟩ f.body := by
      rw [← ih]
      exact execList_flat (k := ⟨ctx, n, callCode ctx n⟩) h f.body
    simp only [callCode, callFunction, frame_flat, body]

/-- **A program without closures runs as it does under the evaluator.** -/
theorem run_eq_run {ctx : Context} (h : ctx.program.declarations ctx.names = []) (fuel : Nat) :
    run ctx fuel = ctx.run fuel := by
  have main : execList (calls ctx fuel) ctx.program.stmts [] =
      Stmt.execList (ctx.calls fuel) ctx.program.stmts := by
    rw [Context.calls, ← callCode_flat h]
    exact execList_flat (k := calls ctx fuel) h ctx.program.stmts
  have same : runMain ctx fuel = ctx.runMain fuel := by
    simp only [runMain, Context.runMain, main]
  rcases hr : (ctx.runMain fuel).run {} with ⟨_ | _, _⟩ <;> simp only [run, Context.run, same, hr]

end FlatClosure.Nested

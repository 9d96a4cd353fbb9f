import FlatClosure.Eval.Interp
import FlatClosure.Proofs.Rebuild

/-!
# Programs without positions

A tree is erased by making all its positions dummy.  The evaluator does not look at positions, so
an erased program runs in the same way.

* `Program.erased` : the program without its positions.
* `Expr.eval_erased`, `Stmt.exec_erased` : code does the same without its positions.
* `callFunction_erased`, `Context.run_erased` : **so do calls and whole programs.**
-/

namespace FlatClosure

mutual

/-- The expression without positions. -/
def Expr.erased : Expr → Expr
  | .literal v => .literal v
  | .id x _ => .id x .dummy
  | .unary op e => .unary op e.erased
  | .binary op l r => .binary op l.erased r.erased
  | .builtin1 f a => .builtin1 f a.erased
  | .builtin2 f l r => .builtin2 f l.erased r.erased
  | .call f args => .call f.erased (Expr.erasedList args)
  | .field o x => .field o.erased x
  | .index o i => .index o.erased i.erased
  | .methodCall o m args => .methodCall o.erased m (Expr.erasedList args)
  | .list es => .list (Expr.erasedList es)
  | .set es => .set (Expr.erasedList es)
  | .comprehension k e x it c =>
    .comprehension k e.erased x it.erased (Expr.erasedOption c)
  | .ifElse c t e => .ifElse c.erased t.erased e.erased
  | .tuple es => .tuple (Expr.erasedList es)
  | .construct x _ => .construct x .dummy
  | .lambda ps ty b _ => .lambda ps ty b.erased .dummy

/-- Expressions without positions. -/
def Expr.erasedList : List Expr → List Expr
  | [] => []
  | e :: es => e.erased :: Expr.erasedList es

/-- An expression that may be missing, without positions. -/
def Expr.erasedOption : Option Expr → Option Expr
  | none => none
  | some e => some e.erased

end

mutual

/-- The statement without positions. -/
def Stmt.erased : Stmt → Stmt
  | .assign x v => .assign x v.erased
  | .unpack slots v => .unpack (Slot.mapExprs Expr.erased slots) v.erased
  | .ret v => .ret (Expr.erasedOption v)
  | .expr e => .expr e.erased
  | .setField o f v => .setField o.erased f v.erased
  | .setIndex o i v => .setIndex o.erased i.erased v.erased
  | .ifElse c thn els => .ifElse c.erased (Stmt.erasedList thn) (Stmt.erasedList els)
  | .whileLoop c body => .whileLoop c.erased (Stmt.erasedList body)
  | .forEach x it body els =>
    .forEach x it.erased (Stmt.erasedList body) (Stmt.erasedOption els)
  | .pass => .pass
  | .nonlocal x => .nonlocal x
  | .global x => .global x
  | .breakLoop => .breakLoop
  | .continueLoop => .continueLoop
  | .closure f => .closure f.erased

/-- A block without positions. -/
def Stmt.erasedList : List Stmt → List Stmt
  | [] => []
  | s :: ss => s.erased :: Stmt.erasedList ss

/-- A block that may be missing, without positions. -/
def Stmt.erasedOption : Option (List Stmt) → Option (List Stmt)
  | none => none
  | some ss => some (Stmt.erasedList ss)

/-- The function without positions. -/
def FunDef.erased : FunDef → FunDef
  | ⟨name, params, ret, inits, body, _⟩ => ⟨name, params, ret, inits, Stmt.erasedList body, .dummy⟩

end

/-- The class without positions. -/
def ClassDef.erased (c : ClassDef) : ClassDef := { c with methods := c.methods.map FunDef.erased }

/-- The program without positions. -/
def Program.erased (p : Program) : Program where
  funs := p.funs.map FunDef.erased
  classes := p.classes.map ClassDef.erased
  inits := p.inits
  stmts := Stmt.erasedList p.stmts

/-! ### Parts -/

theorem FunDef.erased_eq (f : FunDef) :
    f.erased = { f with body := Stmt.erasedList f.body, span := .dummy } := by
  cases f
  rfl

section FunDef

variable (f : FunDef)

@[simp] theorem FunDef.name_erased : f.erased.name = f.name := by rw [f.erased_eq]

@[simp] theorem FunDef.params_erased : f.erased.params = f.params := by rw [f.erased_eq]

@[simp] theorem FunDef.inits_erased : f.erased.inits = f.inits := by rw [f.erased_eq]

@[simp] theorem FunDef.body_erased : f.erased.body = Stmt.erasedList f.body := by rw [f.erased_eq]

@[simp] theorem FunDef.span_erased : f.erased.span = .dummy := by rw [f.erased_eq]

@[simp] theorem FunDef.arity_erased : f.erased.arity = f.arity := by simp [FunDef.arity]

@[simp] theorem FunDef.binders_erased : f.erased.binders = f.binders := by simp [FunDef.binders]

@[simp] theorem FunDef.frame_erased (args : List Value) : f.erased.frame args = f.frame args := by
  simp [FunDef.frame]

end FunDef

theorem Expr.erasedList_eq_map (es : List Expr) : Expr.erasedList es = es.map Expr.erased := by
  induction es with
  | nil => rfl
  | cons e es ih => rw [Expr.erasedList, ih, List.map_cons]

theorem Stmt.erasedList_eq_map (ss : List Stmt) : Stmt.erasedList ss = ss.map Stmt.erased := by
  induction ss with
  | nil => rfl
  | cons s ss ih => rw [Stmt.erasedList, ih, List.map_cons]

theorem Expr.id?_erased (e : Expr) : e.erased.id? = e.id? := by cases e <;> rfl

/-! ### Look-up -/

theorem find?_map_name {α : Type} {φ : α → α} {name : α → String} (h : ∀ a, name (φ a) = name a)
    (x : String) (as : List α) :
    (as.map φ).find? (name · == x) = (as.find? (name · == x)).map φ := by
  rw [List.find?_map]
  congr 2
  funext a
  exact congrArg (· == x) (h a)

theorem Program.function?_erased (p : Program) (x : String) :
    p.erased.function? x = (p.function? x).map FunDef.erased :=
  find?_map_name FunDef.name_erased x p.funs

theorem Program.class?_erased (p : Program) (x : String) :
    p.erased.class? x = (p.class? x).map ClassDef.erased := by
  have name (c : ClassDef) : c.erased.name = c.name := rfl
  exact find?_map_name name x p.classes

theorem ClassDef.method?_erased (c : ClassDef) (x : String) :
    c.erased.method? x = (c.method? x).map FunDef.erased :=
  find?_map_name FunDef.name_erased x c.methods

theorem Machine.lookup?_erased (p : Program) (s : Machine) (x : String) :
    s.lookup? p.erased x = s.lookup? p x := by
  unfold Machine.lookup?
  rw [p.function?_erased, Option.isSome_map]

/-! ### Calls -/

/-- The second calls are those of the program without positions. -/
structure Erases (k k' : Calls) : Prop where
  program : k'.ctx.program = k.ctx.program.erased
  names : k'.ctx.names = k.ctx.names
  fuel : k'.fuel = k.fuel
  enter : ∀ f args, k'.enter f.erased args = k.enter f args

variable {k k' : Calls}

section Calls

variable (h : Erases k k')

include h

theorem invoke_erased (ref : Nat) (method : String) (args : List Value) :
    invoke k' ref method args = invoke k ref method args := by
  unfold invoke
  refine bind_congr fun s => ?_
  dsimp only
  rw [h.program, Program.class?_erased]
  cases k.ctx.program.class? (s.heap.object ref).cls with
  | none => rfl
  | some c =>
    simp only [Option.map_some, Option.bind_some, ClassDef.method?_erased]
    cases c.method? method with
    | none => rfl
    | some f => exact h.enter f _

theorem instantiate_erased (c : ClassDef) (args : List Value) :
    instantiate k' c.erased args = instantiate k c args := by
  have name : c.erased.name = c.name := rfl
  have fields : c.erased.fields = c.fields := rfl
  unfold instantiate
  rw [name, fields, h.names, ClassDef.method?_erased, Option.isSome_map]
  simp only [invoke_erased h]

theorem callNamed_erased (name : String) (args : List Value) :
    callNamed k' name args = callNamed k name args := by
  have init : Machine.initGlobals k.ctx.program.erased = Machine.initGlobals k.ctx.program := rfl
  unfold callNamed
  rw [h.program, init, Program.function?_erased]
  cases k.ctx.program.function? name with
  | none => rfl
  | some f => exact congrArg _ (funext fun _ => h.enter f args)

theorem callValue_erased (callee : Value) (args : List Value) :
    callValue k' callee args = callValue k callee args := by
  cases callee with
  | function name => exact callNamed_erased h name args
  | object ref =>
    refine (invoke_erased h ref _ args).trans ?_
    rw [h.names]
    rfl
  | _ => rfl

theorem callMethodOf_erased (v : Value) (method : String) (args : List Value) :
    callMethodOf k' v method args = callMethodOf k v method args := by
  unfold callMethodOf
  split
  · exact invoke_erased h _ _ _
  · rfl
  · rfl

theorem calleeClass?_erased (s : Machine) (f : Expr) :
    calleeClass? k' s f.erased = (calleeClass? k s f).map ClassDef.erased := by
  unfold calleeClass?
  rw [f.id?_erased]
  cases f.id? with
  | none => rfl
  | some x =>
    dsimp only
    split
    · rfl
    · rw [h.program, Program.class?_erased]

end Calls

/-! ### Code -/

mutual

theorem Expr.eval_erased (h : Erases k k') (e : Expr) : e.erased.eval k' = e.eval k := by
  cases e with
  | literal | lambda => rfl
  | id x s => simp only [Expr.erased, Expr.eval, readName, h.program, Machine.lookup?_erased]
  | unary _ a | builtin1 _ a | field a _ => simp only [Expr.erased, Expr.eval, a.eval_erased h]
  | binary op l r =>
    cases op <;> simp only [Expr.erased, Expr.eval, l.eval_erased h, r.eval_erased h]
  | builtin2 _ l r | index l r =>
    simp only [Expr.erased, Expr.eval, l.eval_erased h, r.eval_erased h]
  | call f args =>
    rw [Expr.erased, Expr.eval, Expr.eval]
    refine bind_congr fun s => ?_
    rw [calleeClass?_erased h]
    cases calleeClass? k s f with
    | none =>
      simp only [Option.map_none, f.eval_erased h, Expr.evalList_erased h args, callValue_erased h]
    | some c => simp only [Option.map_some, Expr.evalList_erased h args, instantiate_erased h]
  | methodCall o m args =>
    simp only [Expr.erased, Expr.eval, o.eval_erased h, Expr.evalList_erased h args,
      callMethodOf_erased h]
  | list es | set es | tuple es => simp only [Expr.erased, Expr.eval, Expr.evalList_erased h es]
  | comprehension kind e x it c =>
    simp only [Expr.erased, Expr.eval, it.eval_erased h, e.eval_erased h, Expr.holds_erased h c]
  | ifElse c t e =>
    simp only [Expr.erased, Expr.eval, c.eval_erased h, t.eval_erased h, e.eval_erased h]
  | construct x s =>
    rw [Expr.erased, Expr.eval, Expr.eval, h.program, Program.class?_erased]
    cases k.ctx.program.class? x with
    | none => rfl
    | some c => exact instantiate_erased h c []

theorem Expr.evalList_erased (h : Erases k k') (es : List Expr) :
    Expr.evalList k' (Expr.erasedList es) = Expr.evalList k es := by
  cases es with
  | nil => rfl
  | cons e es =>
    simp only [Expr.erasedList, Expr.evalList, e.eval_erased h, Expr.evalList_erased h es]

theorem Expr.holds_erased (h : Erases k k') (c : Option Expr) :
    Expr.holds k' (Expr.erasedOption c) = Expr.holds k c := by
  cases c with
  | none => rfl
  | some c => simp only [Expr.erasedOption, Expr.holds, c.eval_erased h]

end

section Assignments

variable (h : Erases k k')

include h

theorem Target.assign_erased (v : Value) (t : Target) :
    (t.mapExpr Expr.erased).assign k' v = t.assign k v := by
  cases t with
  | id | ignore => rfl
  | field o x => simp only [Target.mapExpr, Target.assign, o.eval_erased h]
  | index o i => simp only [Target.mapExpr, Target.assign, o.eval_erased h, i.eval_erased h]

theorem assignSlots_erased (starOpen : Bool) (slots : List Slot) (items : List Value) :
    assignSlots k' starOpen (Slot.mapExprs Expr.erased slots) items =
      assignSlots k starOpen slots items := by
  induction slots generalizing starOpen items with
  | nil => rfl
  | cons slot slots ih =>
    simp only [Slot.mapExprs, assignSlots, slot.target.assign_erased h, ih, Slot.length_mapExprs]

theorem destructure_erased (slots : List Slot) (v : Value) :
    destructure k' (Slot.mapExprs Expr.erased slots) v = destructure k slots v := by
  simp only [destructure, Slot.any_starred_mapExprs, Slot.length_mapExprs, assignSlots_erased h]

end Assignments

mutual

theorem Stmt.exec_erased (h : Erases k k') (s : Stmt) : s.erased.exec k' = s.exec k := by
  cases s with
  | assign x e | expr e => simp only [Stmt.erased, Stmt.exec, e.eval_erased h]
  | unpack slots e =>
    simp only [Stmt.erased, Stmt.exec, e.eval_erased h, destructure_erased h]
  | ret v =>
    cases v with
    | none => rfl
    | some e => simp only [Stmt.erased, Expr.erasedOption, Stmt.exec, e.eval_erased h]
  | setField o x e => simp only [Stmt.erased, Stmt.exec, o.eval_erased h, e.eval_erased h]
  | setIndex o i e =>
    simp only [Stmt.erased, Stmt.exec, o.eval_erased h, i.eval_erased h, e.eval_erased h]
  | ifElse c thn els =>
    simp only [Stmt.erased, Stmt.exec, c.eval_erased h, Stmt.execList_erased h thn,
      Stmt.execList_erased h els]
  | whileLoop c body =>
    have test : Expr.holds k' (some c.erased) = Expr.holds k (some c) :=
      Expr.holds_erased h (some c)
    simp only [Stmt.erased, Stmt.exec, test, Stmt.execList_erased h body, h.fuel]
  | forEach x it body els =>
    simp only [Stmt.erased, Stmt.exec, it.eval_erased h, Stmt.execList_erased h body,
      Stmt.execOption_erased h els]
  | pass | nonlocal | global | breakLoop | continueLoop => rfl
  | closure f => simp only [Stmt.erased, Stmt.exec, f.name_erased]

theorem Stmt.execList_erased (h : Erases k k') (ss : List Stmt) :
    Stmt.execList k' (Stmt.erasedList ss) = Stmt.execList k ss := by
  cases ss with
  | nil => rfl
  | cons s ss =>
    simp only [Stmt.erasedList, Stmt.execList, s.exec_erased h, Stmt.execList_erased h ss]

theorem Stmt.execOption_erased (h : Erases k k') (els : Option (List Stmt)) :
    Stmt.execOption k' (Stmt.erasedOption els) = Stmt.execOption k els := by
  cases els with
  | none => rfl
  | some ss => exact Stmt.execList_erased h ss

end

/-! ### Programs -/

/-- The context of the program without positions. -/
def Context.erased (ctx : Context) : Context := { ctx with program := ctx.program.erased }

/-- A function does the same without positions. -/
theorem callFunction_erased (ctx : Context) (fuel : Nat) (f : FunDef) (args : List Value) :
    callFunction ctx.erased fuel f.erased args = callFunction ctx fuel f args := by
  have depth : ctx.erased.maxDepth = ctx.maxDepth := rfl
  -- a body has one unit of fuel less for the calls that it makes
  induction fuel generalizing f args with
  | zero => unfold callFunction; simp only [f.arity_erased, f.name_erased, depth]
  | succ n ih =>
    have calls : Erases (ctx.calls n) (ctx.erased.calls n) := ⟨rfl, rfl, rfl, ih⟩
    have body : Stmt.execList (ctx.erased.calls n) f.erased.body =
        Stmt.execList (ctx.calls n) f.body := by
      rw [f.body_erased]
      exact Stmt.execList_erased calls f.body
    unfold callFunction
    simp only [f.arity_erased, f.name_erased, f.frame_erased, depth]
    change (if _ then _ else (get >>= fun _ => if _ then _ else
      withFrame _ (Stmt.execList (ctx.erased.calls n) f.erased.body) >>= _)) = _
    rw [body]
    rfl

theorem Context.calls_erased (ctx : Context) (fuel : Nat) :
    Erases (ctx.calls fuel) (ctx.erased.calls fuel) :=
  ⟨rfl, rfl, rfl, callFunction_erased ctx fuel⟩

/-- **Positions do not influence a run.** -/
theorem Context.run_erased (ctx : Context) (fuel : Nat) : ctx.erased.run fuel = ctx.run fuel := by
  have main : ctx.erased.runMain fuel = ctx.runMain fuel := by
    unfold Context.runMain
    rw [show ctx.erased.program.stmts = Stmt.erasedList ctx.program.stmts from rfl,
      Stmt.execList_erased (ctx.calls_erased fuel)]
    rfl
  unfold Context.run
  rw [main]

end FlatClosure

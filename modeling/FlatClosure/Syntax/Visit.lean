import FlatClosure.Syntax.Events

/-!
# Walking through a tree

A `Visitor` says what to do at the nodes of a tree; `Expr.visit` and `Stmt.visit` walk through the
tree with it.  The walk tells the visitor where the scope of a variable begins and where it ends
(`Scoping`); it does so for every traversal in the same way (`Scoping.within`).

`walk` is the walk of a visitor that records what it meets, and that can be made to give up.
-/

namespace FlatClosure

/-! ### Scopes -/

/-- What a traversal does where the scope of a variable begins and ends. -/
structure Scoping (m : Type → Type) where
  enter : String → m Unit
  exit : String → m Unit

/-- What comes last is done also after a failure, which then stays one. -/
instance exceptFinally {ε : Type} : MonadFinally (Except ε) where
  tryFinally' act last :=
    match act with
    | .ok a => do
      let b ← last (some a)
      return (a, b)
    | .error e => do
      let _ ← last none
      throw e

variable {m : Type → Type} [Monad m] [MonadFinally m]

/-- Traverse a part of a tree in which variables are bound.  They are entered in order and left in
the opposite order, and they are left whatever comes of the traversal inside. -/
def Scoping.within (S : Scoping m) {α : Type} (xs : List String) (act : m α) : m α := do
  forM xs S.enter
  try act finally forM xs.reverse S.exit

/-! ### Walks -/

/-- What a walk does at the nodes of a tree. -/
structure Visitor (m : Type → Type) extends Scoping m where
  stmt : Stmt → m Unit
  expr : Expr → m Unit
  /-- A name is written. -/
  write : String → m Unit

mutual

/-- Walk through an expression. -/
def Expr.visit (V : Visitor m) : Expr → m Unit
  | .literal v => V.expr (.literal v)
  | .id x s => V.expr (.id x s)
  | .unary op e => do
    V.expr (.unary op e)
    e.visit V
  | .binary op l r => do
    V.expr (.binary op l r)
    l.visit V
    r.visit V
  | .builtin1 f a => do
    V.expr (.builtin1 f a)
    a.visit V
  | .builtin2 f l r => do
    V.expr (.builtin2 f l r)
    l.visit V
    r.visit V
  | .call f args => do
    V.expr (.call f args)
    f.visit V
    Expr.visitList V args
  | .field o x => do
    V.expr (.field o x)
    o.visit V
  | .index o i => do
    V.expr (.index o i)
    o.visit V
    i.visit V
  | .methodCall o f args => do
    V.expr (.methodCall o f args)
    o.visit V
    Expr.visitList V args
  | .list es => do
    V.expr (.list es)
    Expr.visitList V es
  | .set es => do
    V.expr (.set es)
    Expr.visitList V es
  | .comprehension k e x it c => do
    V.expr (.comprehension k e x it c)
    it.visit V
    V.within [x] do
      e.visit V
      Expr.visitOption V c
  | .ifElse c t e => do
    V.expr (.ifElse c t e)
    c.visit V
    t.visit V
    e.visit V
  | .tuple es => do
    V.expr (.tuple es)
    Expr.visitList V es
  | .construct x s => V.expr (.construct x s)
  | .lambda ps ty b s => do
    V.expr (.lambda ps ty b s)
    V.within (ps.map (·.name)) (b.visit V)

/-- Walk through expressions in order. -/
def Expr.visitList (V : Visitor m) : List Expr → m Unit
  | [] => pure ()
  | e :: es => do
    e.visit V
    Expr.visitList V es

/-- Walk through an expression that may be missing. -/
def Expr.visitOption (V : Visitor m) : Option Expr → m Unit
  | none => pure ()
  | some e => e.visit V

end

/-- Walk through a target. -/
def Target.visit (V : Visitor m) : Target → m Unit
  | .id x => V.write x
  | .field o _ => o.visit V
  | .index o i => do
    o.visit V
    i.visit V
  | .ignore => pure ()

/-- Walk through the targets of a destructuring assignment in order. -/
def Slot.visitList (V : Visitor m) : List Slot → m Unit
  | [] => pure ()
  | s :: ss => do
    s.target.visit V
    Slot.visitList V ss

mutual

/-- Walk through a statement. -/
def Stmt.visit (V : Visitor m) : Stmt → m Unit
  | .assign x v => do
    V.stmt (.assign x v)
    v.visit V
    V.write x
  | .unpack slots v => do
    V.stmt (.unpack slots v)
    v.visit V
    Slot.visitList V slots
  | .ret v => do
    V.stmt (.ret v)
    Expr.visitOption V v
  | .expr e => do
    V.stmt (.expr e)
    e.visit V
  | .setField o f v => do
    V.stmt (.setField o f v)
    o.visit V
    v.visit V
  | .setIndex o i v => do
    V.stmt (.setIndex o i v)
    o.visit V
    i.visit V
    v.visit V
  | .ifElse c thn els => do
    V.stmt (.ifElse c thn els)
    c.visit V
    Stmt.visitList V thn
    Stmt.visitList V els
  | .whileLoop c body => do
    V.stmt (.whileLoop c body)
    c.visit V
    Stmt.visitList V body
  | .forEach x it body els => do
    V.stmt (.forEach x it body els)
    it.visit V
    V.write x
    Stmt.visitList V body
    Stmt.visitOption V els
  | .pass => V.stmt .pass
  | .nonlocal x => V.stmt (.nonlocal x)
  | .global x => V.stmt (.global x)
  | .breakLoop => V.stmt .breakLoop
  | .continueLoop => V.stmt .continueLoop
  | .closure f => do
    V.stmt (.closure f)
    f.visit V

/-- Walk through a block. -/
def Stmt.visitList (V : Visitor m) : List Stmt → m Unit
  | [] => pure ()
  | s :: ss => do
    s.visit V
    Stmt.visitList V ss

/-- Walk through a block that may be missing. -/
def Stmt.visitOption (V : Visitor m) : Option (List Stmt) → m Unit
  | none => pure ()
  | some ss => Stmt.visitList V ss

/-- Walk through the body of a function. -/
def FunDef.visit (V : Visitor m) : FunDef → m Unit
  | ⟨_, _, _, _, body, _⟩ => Stmt.visitList V body

end

/-! ### Recording a walk -/

/-- What has been recorded of a walk. -/
structure Recording where
  /-- What was met, the latest first. -/
  seen : List Event := []
  /-- The number of statements, expressions and writes met. -/
  count : Nat := 0

/-- A step of a recorded walk, which may be given up. -/
abbrev RecordingM := ExceptT Unit (StateM Recording)

/-- Record a statement, an expression or a write, and give up if its number is `stop`. -/
def record (stop : Option Nat) (e : Event) : RecordingM Unit := do
  let s ← get
  set ({ seen := e :: s.seen, count := s.count + 1 } : Recording)
  if stop = some s.count then throw ()

/-- The visitor that records what it meets. -/
def recorder (stop : Option Nat) : Visitor RecordingM where
  stmt s := record stop (.stmt s)
  expr e := record stop (.expr e)
  write x := record stop (.bind x)
  enter x := modify fun s => { s with seen := .enter x :: s.seen }
  exit x := modify fun s => { s with seen := .exit x :: s.seen }

/-- What is met on a walk through a block, which is given up at number `stop` if there is one, and
whether the walk came to its end. -/
def walk (stop : Option Nat) (body : List Stmt) : List Event × Bool :=
  let (r, s) := (Stmt.visitList (recorder stop) body).run {}
  (s.seen.reverse, r.isOk)

end FlatClosure

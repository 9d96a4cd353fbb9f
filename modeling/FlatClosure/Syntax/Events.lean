import FlatClosure.Syntax.Tree

/-!
# The walk over a tree

`Expr.events` and `Stmt.events` list what a reader meets who walks through a tree from the start to
the end: every statement and expression before its parts, every name that is written, and the
points where the scope of a comprehension or lambda variable begins and ends.  An assignment is
met value first, a comprehension iterable first, then, in the scope of its variable, element and
condition.

Analyses of a tree are folds over its events.
-/

namespace FlatClosure

/-- Something met on a walk. -/
inductive Event where
  | stmt (s : Stmt)
  | expr (e : Expr)
  /-- A name is written: assigned, or the variable of a loop. -/
  | bind (name : String)
  /-- The scope of a variable begins. -/
  | enter (name : String)
  /-- The scope of a variable ends. -/
  | exit (name : String)

mutual

/-- The walk over an expression. -/
def Expr.events : Expr → List Event
  | .literal v => [.expr (.literal v)]
  | .id x s => [.expr (.id x s)]
  | .unary op e => .expr (.unary op e) :: e.events
  | .binary op l r => .expr (.binary op l r) :: l.events ++ r.events
  | .builtin1 f a => .expr (.builtin1 f a) :: a.events
  | .builtin2 f l r => .expr (.builtin2 f l r) :: l.events ++ r.events
  | .call f args => .expr (.call f args) :: f.events ++ Expr.eventsList args
  | .field o x => .expr (.field o x) :: o.events
  | .index o i => .expr (.index o i) :: o.events ++ i.events
  | .methodCall o m args => .expr (.methodCall o m args) :: o.events ++ Expr.eventsList args
  | .list es => .expr (.list es) :: Expr.eventsList es
  | .set es => .expr (.set es) :: Expr.eventsList es
  | .comprehension k e x it c =>
    .expr (.comprehension k e x it c) :: it.events ++
      .enter x :: e.events ++ Expr.eventsOption c ++ [.exit x]
  | .ifElse c t e => .expr (.ifElse c t e) :: c.events ++ t.events ++ e.events
  | .tuple es => .expr (.tuple es) :: Expr.eventsList es
  | .construct x s => [.expr (.construct x s)]
  | .lambda ps ty b s =>
    .expr (.lambda ps ty b s) :: ps.map (.enter ·.name) ++ b.events ++
      ps.reverse.map (.exit ·.name)

/-- The walk over expressions in order. -/
def Expr.eventsList : List Expr → List Event
  | [] => []
  | e :: es => e.events ++ Expr.eventsList es

/-- The walk over an expression that may be missing. -/
def Expr.eventsOption : Option Expr → List Event
  | none => []
  | some e => e.events

end

/-- The walk over a target. -/
def Target.events : Target → List Event
  | .id x => [.bind x]
  | .field o _ => o.events
  | .index o i => o.events ++ i.events
  | .ignore => []

mutual

/-- The walk over a statement. -/
def Stmt.events : Stmt → List Event
  | .assign x v => .stmt (.assign x v) :: v.events ++ [.bind x]
  | .unpack slots v =>
    .stmt (.unpack slots v) :: v.events ++ slots.flatMap (fun s => s.target.events)
  | .ret v => .stmt (.ret v) :: Expr.eventsOption v
  | .expr e => .stmt (.expr e) :: e.events
  | .setField o f v => .stmt (.setField o f v) :: o.events ++ v.events
  | .setIndex o i v => .stmt (.setIndex o i v) :: o.events ++ i.events ++ v.events
  | .ifElse c thn els =>
    .stmt (.ifElse c thn els) :: c.events ++ Stmt.eventsList thn ++ Stmt.eventsList els
  | .whileLoop c body => .stmt (.whileLoop c body) :: c.events ++ Stmt.eventsList body
  | .forEach x it body els =>
    .stmt (.forEach x it body els) :: it.events ++ .bind x :: Stmt.eventsList body ++
      Stmt.eventsOption els
  | .pass => [.stmt .pass]
  | .nonlocal x => [.stmt (.nonlocal x)]
  | .global x => [.stmt (.global x)]
  | .breakLoop => [.stmt .breakLoop]
  | .continueLoop => [.stmt .continueLoop]
  | .closure f => .stmt (.closure f) :: f.events

/-- The walk over a block. -/
def Stmt.eventsList : List Stmt → List Event
  | [] => []
  | s :: ss => s.events ++ Stmt.eventsList ss

/-- The walk over a block that may be missing. -/
def Stmt.eventsOption : Option (List Stmt) → List Event
  | none => []
  | some ss => Stmt.eventsList ss

/-- The walk over the body of a function. -/
def FunDef.events : FunDef → List Event
  | ⟨_, _, _, _, body, _⟩ => Stmt.eventsList body

end

/-! ### Names of node kinds -/

/-- The kind of an expression. -/
def Expr.kind : Expr → String
  | .literal _ => "literal"
  | .id .. => "id"
  | .unary .. => "uniop"
  | .binary .. => "binop"
  | .builtin1 .. => "builtin1"
  | .builtin2 .. => "builtin2"
  | .call .. => "call"
  | .field .. => "lookup"
  | .index .. => "index"
  | .methodCall .. => "method-call"
  | .list _ => "list"
  | .set _ => "set"
  | .comprehension .. => "comprehension"
  | .ifElse .. => "if-expr"
  | .tuple _ => "tuple"
  | .construct .. => "construct"
  | .lambda .. => "lambda"

/-- The kind of a statement. -/
def Stmt.kind : Stmt → String
  | .assign .. => "assign"
  | .unpack .. => "assign-destructure"
  | .ret _ => "return"
  | .expr _ => "expr"
  | .setField .. => "field-assign"
  | .setIndex .. => "index-assign"
  | .ifElse .. => "if"
  | .whileLoop .. => "while"
  | .forEach .. => "for"
  | .pass => "pass"
  | .nonlocal _ => "nonlocal"
  | .global _ => "global"
  | .breakLoop => "break"
  | .continueLoop => "continue"
  | .closure _ => "closure"

/-- An event in words. -/
def Event.render : Event → String
  | .stmt s => "stmt " ++ s.kind
  | .expr (.id x _) => "id " ++ x
  | .expr e => "expr " ++ e.kind
  | .bind x => "bind " ++ x
  | .enter x => "enter " ++ x
  | .exit x => "exit " ++ x

end FlatClosure

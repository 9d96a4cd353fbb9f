import FlatClosure.Syntax.Visit

/-!
# Rebuilding a tree

A `Folder` says what to do at the nodes of a tree; `Expr.fold` and `Stmt.fold` rebuild the tree with
it, in the order of the walk.  Expressions and statements can be replaced outright, a statement
also by several ones or none; whatever is not replaced is rebuilt from its parts.  Scopes begin and
end for a folder where they do for a visitor.
-/

namespace FlatClosure

/-- What a rebuilding traversal does at the nodes of a tree. -/
structure Folder (m : Type → Type) extends Scoping m where
  /-- The statements that replace a statement, or nothing to rebuild it. -/
  stmt : Stmt → m (Option (List Stmt))
  /-- The expression that replaces an expression, or nothing to rebuild it. -/
  expr : Expr → m (Option Expr)
  /-- The name to write instead of a name. -/
  write : String → m String

/-- The replacement, or else the rebuilt node. -/
def replaceOr {m : Type → Type} [Monad m] {α : Type} (replacement : m (Option α))
    (rebuilt : m α) : m α := do
  match ← replacement with
  | some a => pure a
  | none => rebuilt

variable {m : Type → Type} [Monad m] [MonadFinally m]

mutual

/-- Rebuild an expression. -/
def Expr.fold (F : Folder m) : Expr → m Expr
  | .literal v => replaceOr (F.expr (.literal v)) (pure (.literal v))
  | .id x s => replaceOr (F.expr (.id x s)) (pure (.id x s))
  | .unary op e => replaceOr (F.expr (.unary op e)) do
    let e ← e.fold F
    return .unary op e
  | .binary op l r => replaceOr (F.expr (.binary op l r)) do
    let l ← l.fold F
    let r ← r.fold F
    return .binary op l r
  | .builtin1 f a => replaceOr (F.expr (.builtin1 f a)) do
    let a ← a.fold F
    return .builtin1 f a
  | .builtin2 f l r => replaceOr (F.expr (.builtin2 f l r)) do
    let l ← l.fold F
    let r ← r.fold F
    return .builtin2 f l r
  | .call f args => replaceOr (F.expr (.call f args)) do
    let f ← f.fold F
    let args ← Expr.foldList F args
    return .call f args
  | .field o x => replaceOr (F.expr (.field o x)) do
    let o ← o.fold F
    return .field o x
  | .index o i => replaceOr (F.expr (.index o i)) do
    let o ← o.fold F
    let i ← i.fold F
    return .index o i
  | .methodCall o f args => replaceOr (F.expr (.methodCall o f args)) do
    let o ← o.fold F
    let args ← Expr.foldList F args
    return .methodCall o f args
  | .list es => replaceOr (F.expr (.list es)) do
    let es ← Expr.foldList F es
    return .list es
  | .set es => replaceOr (F.expr (.set es)) do
    let es ← Expr.foldList F es
    return .set es
  | .comprehension k e x it c => replaceOr (F.expr (.comprehension k e x it c)) do
    let it ← it.fold F
    let (e, c) ← F.within [x] do
      let e ← e.fold F
      let c ← Expr.foldOption F c
      return (e, c)
    return .comprehension k e x it c
  | .ifElse c t e => replaceOr (F.expr (.ifElse c t e)) do
    let c ← c.fold F
    let t ← t.fold F
    let e ← e.fold F
    return .ifElse c t e
  | .tuple es => replaceOr (F.expr (.tuple es)) do
    let es ← Expr.foldList F es
    return .tuple es
  | .construct x s => replaceOr (F.expr (.construct x s)) (pure (.construct x s))
  | .lambda ps ty b s => replaceOr (F.expr (.lambda ps ty b s)) do
    let b ← F.within (ps.map (·.name)) (b.fold F)
    return .lambda ps ty b s

/-- Rebuild expressions in order. -/
def Expr.foldList (F : Folder m) : List Expr → m (List Expr)
  | [] => pure []
  | e :: es => do
    let e ← e.fold F
    let es ← Expr.foldList F es
    return e :: es

/-- Rebuild an expression that may be missing. -/
def Expr.foldOption (F : Folder m) : Option Expr → m (Option Expr)
  | none => pure none
  | some e => do
    let e ← e.fold F
    return some e

end

/-- Rebuild a target. -/
def Target.fold (F : Folder m) : Target → m Target
  | .id x => do
    let x ← F.write x
    return .id x
  | .field o x => do
    let o ← o.fold F
    return .field o x
  | .index o i => do
    let o ← o.fold F
    let i ← i.fold F
    return .index o i
  | .ignore => pure .ignore

/-- Rebuild the targets of a destructuring assignment in order. -/
def Slot.foldList (F : Folder m) : List Slot → m (List Slot)
  | [] => pure []
  | s :: ss => do
    let target ← s.target.fold F
    let ss ← Slot.foldList F ss
    return ⟨target, s.starred⟩ :: ss

mutual

/-- Rebuild a statement. -/
def Stmt.fold (F : Folder m) : Stmt → m (List Stmt)
  | .assign x v => replaceOr (F.stmt (.assign x v)) do
    let v ← v.fold F
    let x ← F.write x
    return [.assign x v]
  | .unpack slots v => replaceOr (F.stmt (.unpack slots v)) do
    let v ← v.fold F
    let slots ← Slot.foldList F slots
    return [.unpack slots v]
  | .ret v => replaceOr (F.stmt (.ret v)) do
    let v ← Expr.foldOption F v
    return [.ret v]
  | .expr e => replaceOr (F.stmt (.expr e)) do
    let e ← e.fold F
    return [.expr e]
  | .setField o f v => replaceOr (F.stmt (.setField o f v)) do
    let o ← o.fold F
    let v ← v.fold F
    return [.setField o f v]
  | .setIndex o i v => replaceOr (F.stmt (.setIndex o i v)) do
    let o ← o.fold F
    let i ← i.fold F
    let v ← v.fold F
    return [.setIndex o i v]
  | .ifElse c thn els => replaceOr (F.stmt (.ifElse c thn els)) do
    let c ← c.fold F
    let thn ← Stmt.foldList F thn
    let els ← Stmt.foldList F els
    return [.ifElse c thn els]
  | .whileLoop c body => replaceOr (F.stmt (.whileLoop c body)) do
    let c ← c.fold F
    let body ← Stmt.foldList F body
    return [.whileLoop c body]
  | .forEach x it body els => replaceOr (F.stmt (.forEach x it body els)) do
    let it ← it.fold F
    let x ← F.write x
    let body ← Stmt.foldList F body
    let els ← Stmt.foldOption F els
    return [.forEach x it body els]
  | .pass => replaceOr (F.stmt .pass) (pure [.pass])
  | .nonlocal x => replaceOr (F.stmt (.nonlocal x)) (pure [.nonlocal x])
  | .global x => replaceOr (F.stmt (.global x)) (pure [.global x])
  | .breakLoop => replaceOr (F.stmt .breakLoop) (pure [.breakLoop])
  | .continueLoop => replaceOr (F.stmt .continueLoop) (pure [.continueLoop])
  | .closure f => replaceOr (F.stmt (.closure f)) do
    let f ← f.fold F
    return [.closure f]

/-- Rebuild a block. -/
def Stmt.foldList (F : Folder m) : List Stmt → m (List Stmt)
  | [] => pure []
  | s :: ss => do
    let s ← s.fold F
    let ss ← Stmt.foldList F ss
    return s ++ ss

/-- Rebuild a block that may be missing. -/
def Stmt.foldOption (F : Folder m) : Option (List Stmt) → m (Option (List Stmt))
  | none => pure none
  | some ss => do
    let ss ← Stmt.foldList F ss
    return some ss

/-- Rebuild the body of a function. -/
def FunDef.fold (F : Folder m) : FunDef → m FunDef
  | ⟨name, params, ret, inits, body, span⟩ => do
    let body ← Stmt.foldList F body
    return ⟨name, params, ret, inits, body, span⟩

end

end FlatClosure

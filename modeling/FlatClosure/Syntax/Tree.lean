import FlatClosure.Syntax.Span
import FlatClosure.Syntax.Type

/-!
# Program trees

A program is a typed tree of functions, classes, global variables and top-level statements.
Expressions (`Expr`) come first; statements (`Stmt`) and functions (`FunDef`) are mutually
recursive because a function may be declared by a statement of another one.  Removing those
declarations is what closure conversion is about.

Where a name is declared more than once, the first declaration counts.
-/

namespace FlatClosure

/-! ### Literals and operators -/

/-- A literal constant. -/
inductive Literal where
  | num (value : Int64)
  | bool (value : Bool)
  | str (value : String)
  | none
deriving DecidableEq, Inhabited

/-- The value of a fresh slot of a type: zero for numbers, false for truth values, else `None`. -/
def Literal.defaultFor (ty : Ty) : Literal :=
  match ty with
  | .int => .num 0
  | .bool => .bool false
  | _ => .none

/-- Operators on one operand. -/
inductive UnaryOp where
  | neg
  | not
deriving DecidableEq, Inhabited

/-- Operators on two operands. -/
inductive BinaryOp where
  | add
  | sub
  | mul
  | floorDiv
  | mod
  | eq
  | ne
  | le
  | ge
  | lt
  | gt
  /-- Sameness of objects. -/
  | is
  | and
  | or
deriving DecidableEq, Inhabited

/-- What a comprehension builds. -/
inductive Collection where
  | list
  | set
deriving DecidableEq, Inhabited

/-! ### Expressions -/

/-- A parameter with its declared type. -/
structure Param where
  name : String
  ty : Ty
deriving Inhabited

/-- A variable or field with its declared type and its first value. -/
structure VarInit where
  name : String
  ty : Ty
  value : Literal
deriving Inhabited

/-- An expression. -/
inductive Expr where
  | literal (value : Literal)
  /-- A name that is read. -/
  | id (name : String) (span : Span)
  | unary (op : UnaryOp) (expr : Expr)
  | binary (op : BinaryOp) (left right : Expr)
  /-- A built-in function of one argument. -/
  | builtin1 (name : String) (arg : Expr)
  /-- A built-in function of two arguments. -/
  | builtin2 (name : String) (left right : Expr)
  /-- A call of a function, a class or a callable value. -/
  | call (callee : Expr) (args : List Expr)
  /-- A field of an object. -/
  | field (obj : Expr) (name : String)
  /-- An item of a list, tuple or string. -/
  | index (obj index : Expr)
  | methodCall (obj : Expr) (method : String) (args : List Expr)
  | list (elems : List Expr)
  | set (elems : List Expr)
  /-- `[elem for var in iterable if cond]`; `var` is bound in `elem` and `cond`. -/
  | comprehension (kind : Collection) (elem : Expr) (var : String) (iterable : Expr)
      (cond : Option Expr)
  | ifElse (cond thn els : Expr)
  | tuple (elems : List Expr)
  /-- A new object of a class. -/
  | construct (name : String) (span : Span)
  | lambda (params : List Param) (ret : Ty) (body : Expr) (span : Span)
deriving Inhabited

/-- Where one item of a destructuring assignment goes. -/
inductive Target where
  | id (name : String)
  | field (obj : Expr) (name : String)
  | index (obj index : Expr)
  /-- The item is dropped. -/
  | ignore
deriving Inhabited

/-- A target, and whether it takes the items that the other targets leave over. -/
structure Slot where
  target : Target
  starred : Bool
deriving Inhabited

/-! ### Statements and functions -/

mutual

/-- A statement. -/
inductive Stmt where
  | assign (name : String) (value : Expr)
  /-- A destructuring assignment. -/
  | unpack (slots : List Slot) (value : Expr)
  | ret (value : Option Expr)
  | expr (expr : Expr)
  | setField (obj : Expr) (field : String) (value : Expr)
  | setIndex (obj index value : Expr)
  | ifElse (cond : Expr) (thn els : List Stmt)
  | whileLoop (cond : Expr) (body : List Stmt)
  /-- `els` runs when the loop was not left by a break. -/
  | forEach (var : String) (iterable : Expr) (body : List Stmt) (els : Option (List Stmt))
  | pass
  | nonlocal (name : String)
  | global (name : String)
  | breakLoop
  | continueLoop
  /-- The declaration of a function inside a function. -/
  | closure (func : FunDef)

/-- A function, a method, or a function declared inside a function. -/
structure FunDef where
  name : String
  params : List Param
  ret : Ty
  /-- Local variables. -/
  inits : List VarInit
  body : List Stmt
  span : Span

end

/-- A class with its fields and methods. -/
structure ClassDef where
  name : String
  fields : List VarInit
  methods : List FunDef

/-- A whole program. -/
structure Program where
  funs : List FunDef := []
  classes : List ClassDef := []
  /-- Global variables. -/
  inits : List VarInit := []
  /-- Top-level statements. -/
  stmts : List Stmt := []

instance : Inhabited Stmt := ⟨.pass⟩

/-! ### Look-up -/

/-- The function of a name. -/
def Program.function? (p : Program) (name : String) : Option FunDef :=
  p.funs.find? (·.name == name)

/-- The class of a name. -/
def Program.class? (p : Program) (name : String) : Option ClassDef :=
  p.classes.find? (·.name == name)

/-- The global variable of a name. -/
def Program.global? (p : Program) (name : String) : Option VarInit :=
  p.inits.find? (·.name == name)

/-- The method of a name. -/
def ClassDef.method? (c : ClassDef) (name : String) : Option FunDef :=
  c.methods.find? (·.name == name)

/-- The field of a name. -/
def ClassDef.field? (c : ClassDef) (name : String) : Option VarInit :=
  c.fields.find? (·.name == name)

/-- The number of parameters, the receiver of a method included. -/
def FunDef.arity (f : FunDef) : Nat := f.params.length

/-- The names that a function binds itself: parameters, then locals. -/
def FunDef.binders (f : FunDef) : List String := f.params.map (·.name) ++ f.inits.map (·.name)

/-! ### Positions -/

/-- The name of an expression that is a plain name. -/
def Expr.id? : Expr → Option String
  | .id name _ => some name
  | _ => none

mutual

/-- The position of an expression: the first one known, in the order of the walk, among its
names, new objects and lambda expressions; dummy if none is known. -/
def Expr.span : Expr → Span
  | .literal _ => .dummy
  | .id _ s => s.orElse .dummy
  | .unary _ e => e.span
  | .binary _ l r => l.span.orElse r.span
  | .builtin1 _ a => a.span
  | .builtin2 _ l r => l.span.orElse r.span
  | .call f args => f.span.orElse (Expr.spanList args)
  | .field o _ => o.span
  | .index o i => o.span.orElse i.span
  | .methodCall o _ args => o.span.orElse (Expr.spanList args)
  | .list es => Expr.spanList es
  | .set es => Expr.spanList es
  | .comprehension _ e _ it c => it.span.orElse (e.span.orElse (Expr.spanOption c))
  | .ifElse c t e => c.span.orElse (t.span.orElse e.span)
  | .tuple es => Expr.spanList es
  | .construct _ s => s.orElse .dummy
  | .lambda _ _ b s => s.orElse b.span

/-- The first known position in a list of expressions. -/
def Expr.spanList : List Expr → Span
  | [] => .dummy
  | e :: es => e.span.orElse (Expr.spanList es)

/-- The position of an expression that may be missing. -/
def Expr.spanOption : Option Expr → Span
  | none => .dummy
  | some e => e.span

end

end FlatClosure

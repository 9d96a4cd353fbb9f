import FlatClosure.Syntax.Tree

/-!
# Trees written by hand

Short constructors for trees without positions.
-/

namespace FlatClosure

namespace Build

/-- A name. -/
def id (x : String) : Expr := .id x .dummy

/-- A number. -/
def int (n : Int64) : Expr := .literal (.num n)

/-- A truth value. -/
def bool (b : Bool) : Expr := .literal (.bool b)

/-- A string. -/
def str (s : String) : Expr := .literal (.str s)

/-- `None`. -/
def none : Expr := .literal .none

/-- A list comprehension. -/
def comprehension (elem : Expr) (x : String) (iterable : Expr) (cond : Option Expr) : Expr :=
  .comprehension .list elem x iterable cond

/-- A lambda expression. -/
def lambda (params : List Param) (ret : Ty) (body : Expr) : Expr := .lambda params ret body .dummy

/-- Return a value. -/
def ret (e : Expr) : Stmt := .ret (some e)

/-- Print a value. -/
def print (e : Expr) : Stmt := .expr (.builtin1 "print" e)

/-- A loop over items, without an else part. -/
def forEach (x : String) (iterable : Expr) (body : List Stmt) : Stmt :=
  .forEach x iterable body Option.none

/-- A variable with the default value of its type. -/
def var (x : String) (ty : Ty) : VarInit := ⟨x, ty, .defaultFor ty⟩

/-- A number variable. -/
def intVar (x : String) (n : Int64) : VarInit := ⟨x, .int, .num n⟩

/-- A function. -/
def func (name : String) (params : List Param) (ret : Ty) (inits : List VarInit)
    (body : List Stmt) : FunDef :=
  ⟨name, params, ret, inits, body, .dummy⟩

end Build

end FlatClosure

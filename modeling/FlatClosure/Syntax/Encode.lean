import FlatClosure.Syntax.Tree
import FlatClosure.Json.Basic

/-!
# The JSON form of program trees

A node with several variants is an object whose field `tag` names the variant; the parts of the
node stand beside it.  Every field is written, also those that a reader may do without: positions,
empty lists, and `null` for a part that is missing.
-/

namespace FlatClosure

/-- A node: its tag, then its parts. -/
def Json.node (tag : String) (parts : List (String × Json)) : Json :=
  .obj (("tag", .str tag) :: parts)

/-- A span. -/
def Span.toJson (s : Span) : Json :=
  .obj [("file_id", .int s.file.toNat), ("start", .int s.start.toNat), ("end", .int s.stop.toNat)]

mutual

/-- A type. -/
def Ty.toJson : Ty → Json
  | .int => .node "int" []
  | .bool => .node "bool" []
  | .str => .node "str" []
  | .none => .node "none" []
  | .object => .node "object" []
  | .cls name => .node "class" [("name", .str name)]
  | .list elem => .node "list" [("elem", elem.toJson)]
  | .callable params ret =>
    .node "callable" [("params", .arr (Ty.toJsonList params)), ("ret", ret.toJson)]

/-- Types one after the other. -/
def Ty.toJsonList : List Ty → List Json
  | [] => []
  | t :: ts => t.toJson :: Ty.toJsonList ts

end

/-- A literal. -/
def Literal.toJson : Literal → Json
  | .num n => .node "num" [("value", .int n.toInt)]
  | .bool b => .node "bool" [("value", .bool b)]
  | .str s => .node "str" [("value", .str s)]
  | .none => .node "none" []

/-- The word for an operator on one operand. -/
def UnaryOp.word : UnaryOp → String
  | .neg => "neg"
  | .not => "not"

/-- The word for an operator on two operands. -/
def BinaryOp.word : BinaryOp → String
  | .add => "plus"
  | .sub => "minus"
  | .mul => "mul"
  | .floorDiv => "i-div"
  | .mod => "mod"
  | .eq => "eq"
  | .ne => "neq"
  | .le => "lte"
  | .ge => "gte"
  | .lt => "lt"
  | .gt => "gt"
  | .is => "is"
  | .and => "and"
  | .or => "or"

/-- The word for a kind of collection. -/
def Collection.word : Collection → String
  | .list => "list"
  | .set => "set"

/-- A parameter. -/
def Param.toJson (p : Param) : Json := .obj [("name", .str p.name), ("ty", p.ty.toJson)]

/-- A variable. -/
def VarInit.toJson (v : VarInit) : Json :=
  .obj [("name", .str v.name), ("ty", v.ty.toJson), ("value", v.value.toJson)]

mutual

/-- An expression. -/
def Expr.toJson : Expr → Json
  | .literal v => .node "literal" [("value", v.toJson)]
  | .id name s => .node "id" [("name", .str name), ("span", s.toJson)]
  | .unary op e => .node "uniop" [("op", .str op.word), ("expr", e.toJson)]
  | .binary op l r =>
    .node "binop" [("op", .str op.word), ("left", l.toJson), ("right", r.toJson)]
  | .builtin1 name a => .node "builtin1" [("name", .str name), ("arg", a.toJson)]
  | .builtin2 name l r =>
    .node "builtin2" [("name", .str name), ("left", l.toJson), ("right", r.toJson)]
  | .call f args => .node "call" [("callee", f.toJson), ("args", .arr (Expr.toJsonList args))]
  | .field o name => .node "lookup" [("obj", o.toJson), ("field", .str name)]
  | .index o i => .node "index" [("obj", o.toJson), ("index", i.toJson)]
  | .methodCall o m args =>
    .node "method-call"
      [("obj", o.toJson), ("method", .str m), ("args", .arr (Expr.toJsonList args))]
  | .list es => .node "list" [("elems", .arr (Expr.toJsonList es))]
  | .set es => .node "set" [("elems", .arr (Expr.toJsonList es))]
  | .comprehension kind e x it c =>
    .node "comprehension"
      [("kind", .str kind.word), ("elem", e.toJson), ("var", .str x), ("iterable", it.toJson),
        ("cond", Expr.toJsonOption c)]
  | .ifElse c t e => .node "if-expr" [("cond", c.toJson), ("thn", t.toJson), ("els", e.toJson)]
  | .tuple es => .node "tuple" [("elems", .arr (Expr.toJsonList es))]
  | .construct name s => .node "construct" [("name", .str name), ("span", s.toJson)]
  | .lambda params ret b s =>
    .node "lambda"
      [("params", .arr (params.map Param.toJson)), ("ret", ret.toJson), ("body", b.toJson),
        ("span", s.toJson)]

/-- Expressions one after the other. -/
def Expr.toJsonList : List Expr → List Json
  | [] => []
  | e :: es => e.toJson :: Expr.toJsonList es

/-- An expression that may be missing. -/
def Expr.toJsonOption : Option Expr → Json
  | none => .null
  | some e => e.toJson

end

/-- A target of a destructuring assignment. -/
def Target.toJson : Target → Json
  | .id name => .node "id" [("name", .str name)]
  | .field o name => .node "field" [("obj", o.toJson), ("field", .str name)]
  | .index o i => .node "index" [("obj", o.toJson), ("index", i.toJson)]
  | .ignore => .node "ignore" []

/-- A target with its star. -/
def Slot.toJson (s : Slot) : Json :=
  .obj [("target", s.target.toJson), ("starred", .bool s.starred)]

mutual

/-- A statement. -/
def Stmt.toJson : Stmt → Json
  | .assign x v => .node "assign" [("name", .str x), ("value", v.toJson)]
  | .unpack slots v =>
    .node "assign-destructure" [("targets", .arr (slots.map Slot.toJson)), ("value", v.toJson)]
  | .ret v => .node "return" [("value", Expr.toJsonOption v)]
  | .expr e => .node "expr" [("expr", e.toJson)]
  | .setField o f v =>
    .node "field-assign" [("obj", o.toJson), ("field", .str f), ("value", v.toJson)]
  | .setIndex o i v =>
    .node "index-assign" [("obj", o.toJson), ("index", i.toJson), ("value", v.toJson)]
  | .ifElse c thn els =>
    .node "if"
      [("cond", c.toJson), ("thn", .arr (Stmt.toJsonList thn)), ("els", .arr (Stmt.toJsonList els))]
  | .whileLoop c body => .node "while" [("cond", c.toJson), ("body", .arr (Stmt.toJsonList body))]
  | .forEach x it body els =>
    .node "for"
      [("var", .str x), ("iterable", it.toJson), ("body", .arr (Stmt.toJsonList body)),
        ("els", Stmt.toJsonOption els)]
  | .pass => .node "pass" []
  | .nonlocal x => .node "nonlocal" [("name", .str x)]
  | .global x => .node "global" [("name", .str x)]
  | .breakLoop => .node "break" []
  | .continueLoop => .node "continue" []
  | .closure f => .node "closure" [("func", f.toJson)]

/-- Statements one after the other. -/
def Stmt.toJsonList : List Stmt → List Json
  | [] => []
  | s :: ss => s.toJson :: Stmt.toJsonList ss

/-- A block that may be missing. -/
def Stmt.toJsonOption : Option (List Stmt) → Json
  | none => .null
  | some ss => .arr (Stmt.toJsonList ss)

/-- A function. -/
def FunDef.toJson : FunDef → Json
  | ⟨name, params, ret, inits, body, span⟩ =>
    .obj
      [("name", .str name), ("params", .arr (params.map Param.toJson)), ("ret", ret.toJson),
        ("inits", .arr (inits.map VarInit.toJson)), ("body", .arr (Stmt.toJsonList body)),
        ("span", span.toJson)]

end

/-- A class. -/
def ClassDef.toJson (c : ClassDef) : Json :=
  .obj
    [("name", .str c.name), ("fields", .arr (c.fields.map VarInit.toJson)),
      ("methods", .arr (c.methods.map FunDef.toJson))]

/-- A program. -/
def Program.toJson (p : Program) : Json :=
  .obj
    [("funs", .arr (p.funs.map FunDef.toJson)), ("classes", .arr (p.classes.map ClassDef.toJson)),
      ("inits", .arr (p.inits.map VarInit.toJson)), ("stmts", .arr (p.stmts.map Stmt.toJson))]

end FlatClosure

import FlatClosure.Syntax.Tree
import FlatClosure.Json.Basic
import FlatClosure.Json.Shape

/-!
# Program trees from their JSON form

The readers take every form that the writers produce, and more: fields in any order, unknown
fields, and records written as arrays.  Positions, the lists of a program, the locals of a
function and the star of a target may be left out; the value of a return, the else part of a loop
and the condition of a comprehension may be left out or null; only an array that is a return has
to have its value.

Types, literals, targets, statements and expressions are *tagged* nodes.  The readers have to know
whether a node stands inside a tagged node, which is what the argument `inner` says: such a node
may give its tag by number, counted in the order of `Ty.tags` and the like.

A node's parts are nested more deeply in the JSON text than the node itself.  The readers of
recursive nodes (`Ty.decode`, `Expr.decode`, `Stmt.decode`, `FunDef.decode`) are therefore given a
bound on that nesting, and `Ty.ofJson?` and the like pass the nesting of the value at hand, which
is always enough.

`Program.shape` says what of a program's text is looked at: not the fields of a record that are
unknown, unless the record stands inside a tagged node.
-/

namespace FlatClosure

open Json (required defaulted optional bare)

/-- A span. -/
def Span.ofJson? (j : Json) : Option Span := do
  let [file, start, stop] ← j.record? ["file_id", "start", "end"] | none
  return ⟨← required Json.uint32? file, ← required Json.uint32? start, ← required Json.uint32? stop⟩

/-- The position of a node, dummy when left out. -/
def Span.part (j : Option Json) : Option Span := defaulted .dummy Span.ofJson? j

/-- The tags of types. -/
def Ty.tags : List String := ["int", "bool", "str", "none", "object", "class", "list", "callable"]

/-- A type nested to less than the given number of levels. -/
def Ty.decode : Nat → Bool → Json → Option Ty
  | 0, _, _ => .none
  | n + 1, inner, j => do
    let (tag, body) ← j.tagged? tags inner
    match tag with
    | "int" => bare .int body
    | "bool" => bare .bool body
    | "str" => bare .str body
    | "none" => bare .none body
    | "object" => bare .object body
    | "class" =>
      let [name] ← body.record? ["name"] | .none
      return .cls (← required Json.str? name)
    | "list" =>
      let [elem] ← body.record? ["elem"] | .none
      return .list (← required (Ty.decode n true) elem)
    | "callable" =>
      let [params, ret] ← body.record? ["params", "ret"] | .none
      return .callable (← required (Json.listOf? (Ty.decode n true)) params)
        (← required (Ty.decode n true) ret)
    | _ => .none

/-- A type inside a tagged node, or not. -/
def Ty.part (inner : Bool) (j : Json) : Option Ty := Ty.decode j.depth inner j

/-- A type. -/
def Ty.ofJson? (j : Json) : Option Ty := Ty.part false j

/-- The tags of literals. -/
def Literal.tags : List String := ["num", "bool", "str", "none"]

/-- A literal inside a tagged node, or not. -/
def Literal.part (inner : Bool) (j : Json) : Option Literal := do
  let (tag, body) ← j.tagged? tags inner
  match tag with
  | "num" =>
    let [value] ← body.record? ["value"] | .none
    return .num (← required Json.int64? value)
  | "bool" =>
    let [value] ← body.record? ["value"] | .none
    return .bool (← required Json.bool? value)
  | "str" =>
    let [value] ← body.record? ["value"] | .none
    return .str (← required Json.str? value)
  | "none" => bare .none body
  | _ => .none

/-- A literal. -/
def Literal.ofJson? (j : Json) : Option Literal := Literal.part false j

/-- An operator on one operand. -/
def UnaryOp.ofWord? : String → Option UnaryOp
  | "neg" => some .neg
  | "not" => some .not
  | _ => none

/-- An operator on two operands. -/
def BinaryOp.ofWord? : String → Option BinaryOp
  | "plus" => some .add
  | "minus" => some .sub
  | "mul" => some .mul
  | "i-div" => some .floorDiv
  | "mod" => some .mod
  | "eq" => some .eq
  | "neq" => some .ne
  | "lte" => some .le
  | "gte" => some .ge
  | "lt" => some .lt
  | "gt" => some .gt
  | "is" => some .is
  | "and" => some .and
  | "or" => some .or
  | _ => none

/-- A kind of collection. -/
def Collection.ofWord? : String → Option Collection
  | "list" => some .list
  | "set" => some .set
  | _ => none

/-- An operator on one operand, inside a tagged node or not. -/
def UnaryOp.part (inner : Bool) (j : Json) : Option UnaryOp :=
  (j.choice? inner).bind UnaryOp.ofWord?

/-- An operator on two operands, inside a tagged node or not. -/
def BinaryOp.part (inner : Bool) (j : Json) : Option BinaryOp :=
  (j.choice? inner).bind BinaryOp.ofWord?

/-- An operator on one operand. -/
def UnaryOp.ofJson? (j : Json) : Option UnaryOp := UnaryOp.part false j

/-- An operator on two operands. -/
def BinaryOp.ofJson? (j : Json) : Option BinaryOp := BinaryOp.part false j

/-- A kind of collection.  It always stands inside a tagged node. -/
def Collection.ofJson? (j : Json) : Option Collection := (j.choice? true).bind Collection.ofWord?

/-- A parameter inside a tagged node, or not. -/
def Param.part (inner : Bool) (j : Json) : Option Param := do
  let [name, ty] ← j.record? ["name", "ty"] | none
  return ⟨← required Json.str? name, ← required (Ty.part inner) ty⟩

/-- A parameter. -/
def Param.ofJson? (j : Json) : Option Param := Param.part false j

/-- A variable inside a tagged node, or not. -/
def VarInit.part (inner : Bool) (j : Json) : Option VarInit := do
  let [name, ty, value] ← j.record? ["name", "ty", "value"] | none
  return ⟨← required Json.str? name, ← required (Ty.part inner) ty,
    ← required (Literal.part inner) value⟩

/-- A variable. -/
def VarInit.ofJson? (j : Json) : Option VarInit := VarInit.part false j

/-- The tags of expressions. -/
def Expr.tags : List String :=
  ["literal", "id", "uniop", "binop", "builtin1", "builtin2", "call", "lookup", "index",
    "method-call", "list", "set", "comprehension", "if-expr", "tuple", "construct", "lambda"]

/-- An expression nested to less than the given number of levels. -/
def Expr.decode : Nat → Bool → Json → Option Expr
  | 0, _, _ => none
  | n + 1, inner, j => do
    let expr := required (Expr.decode n true)
    let exprs := required (Json.listOf? (Expr.decode n true))
    let str := required Json.str?
    let (tag, body) ← j.tagged? tags inner
    match tag with
    | "literal" =>
      let [value] ← body.record? ["value"] | none
      return .literal (← required (Literal.part true) value)
    | "id" =>
      let [name, span] ← body.record? ["name", "span"] | none
      return .id (← str name) (← Span.part span)
    | "uniop" =>
      let [op, e] ← body.record? ["op", "expr"] | none
      return .unary (← required (UnaryOp.part true) op) (← expr e)
    | "binop" =>
      let [op, left, right] ← body.record? ["op", "left", "right"] | none
      return .binary (← required (BinaryOp.part true) op) (← expr left) (← expr right)
    | "builtin1" =>
      let [name, arg] ← body.record? ["name", "arg"] | none
      return .builtin1 (← str name) (← expr arg)
    | "builtin2" =>
      let [name, left, right] ← body.record? ["name", "left", "right"] | none
      return .builtin2 (← str name) (← expr left) (← expr right)
    | "call" =>
      let [callee, args] ← body.record? ["callee", "args"] | none
      return .call (← expr callee) (← exprs args)
    | "lookup" =>
      let [obj, name] ← body.record? ["obj", "field"] | none
      return .field (← expr obj) (← str name)
    | "index" =>
      let [obj, i] ← body.record? ["obj", "index"] | none
      return .index (← expr obj) (← expr i)
    | "method-call" =>
      let [obj, method, args] ← body.record? ["obj", "method", "args"] | none
      return .methodCall (← expr obj) (← str method) (← exprs args)
    | "list" =>
      let [elems] ← body.record? ["elems"] | none
      return .list (← exprs elems)
    | "set" =>
      let [elems] ← body.record? ["elems"] | none
      return .set (← exprs elems)
    | "comprehension" =>
      let [kind, elem, var, iterable, cond] ←
        body.record? ["kind", "elem", "var", "iterable", "cond"] | none
      return .comprehension (← required Collection.ofJson? kind) (← expr elem) (← str var)
        (← expr iterable) (← optional (Expr.decode n true) cond)
    | "if-expr" =>
      let [cond, thn, els] ← body.record? ["cond", "thn", "els"] | none
      return .ifElse (← expr cond) (← expr thn) (← expr els)
    | "tuple" =>
      let [elems] ← body.record? ["elems"] | none
      return .tuple (← exprs elems)
    | "construct" =>
      let [name, span] ← body.record? ["name", "span"] | none
      return .construct (← str name) (← Span.part span)
    | "lambda" =>
      let [params, ret, e, span] ← body.record? ["params", "ret", "body", "span"] | none
      return .lambda (← required (Json.listOf? (Param.part true)) params)
        (← required (Ty.part true) ret) (← expr e) (← Span.part span)
    | _ => none

/-- An expression inside a tagged node, or not. -/
def Expr.part (inner : Bool) (j : Json) : Option Expr := Expr.decode j.depth inner j

/-- An expression. -/
def Expr.ofJson? (j : Json) : Option Expr := Expr.part false j

/-- The tags of targets. -/
def Target.tags : List String := ["id", "field", "index", "ignore"]

/-- A target of a destructuring assignment, inside a tagged node or not. -/
def Target.part (inner : Bool) (j : Json) : Option Target := do
  let expr := required (Expr.part true)
  let (tag, body) ← j.tagged? tags inner
  match tag with
  | "id" =>
    let [name] ← body.record? ["name"] | none
    return .id (← required Json.str? name)
  | "field" =>
    let [obj, name] ← body.record? ["obj", "field"] | none
    return .field (← expr obj) (← required Json.str? name)
  | "index" =>
    let [obj, i] ← body.record? ["obj", "index"] | none
    return .index (← expr obj) (← expr i)
  | "ignore" => bare .ignore body
  | _ => none

/-- A target of a destructuring assignment. -/
def Target.ofJson? (j : Json) : Option Target := Target.part false j

/-- A target with its star.  It always stands inside a tagged node. -/
def Slot.ofJson? (j : Json) : Option Slot := do
  let [target, starred] ← j.record? ["target", "starred"] | none
  return ⟨← required (Target.part true) target, ← defaulted false Json.bool? starred⟩

/-- The tags of statements. -/
def Stmt.tags : List String :=
  ["assign", "assign-destructure", "return", "expr", "field-assign", "index-assign", "if", "while",
    "for", "pass", "nonlocal", "global", "break", "continue", "closure"]

mutual

/-- A statement nested to less than the given number of levels. -/
def Stmt.decode : Nat → Bool → Json → Option Stmt
  | 0, _, _ => none
  | n + 1, inner, j => do
    let expr := required (Expr.part true)
    let block := required (Json.listOf? (Stmt.decode n true))
    let str := required Json.str?
    let (tag, body) ← j.tagged? Stmt.tags inner
    match tag with
    | "assign" =>
      let [name, value] ← body.record? ["name", "value"] | none
      return .assign (← str name) (← expr value)
    | "assign-destructure" =>
      let [targets, value] ← body.record? ["targets", "value"] | none
      return .unpack (← required (Json.listOf? Slot.ofJson?) targets) (← expr value)
    | "return" =>
      let [value] ← body.fullRecord? ["value"] | none
      return .ret (← optional (Expr.part true) value)
    | "expr" =>
      let [e] ← body.record? ["expr"] | none
      return .expr (← expr e)
    | "field-assign" =>
      let [obj, field, value] ← body.record? ["obj", "field", "value"] | none
      return .setField (← expr obj) (← str field) (← expr value)
    | "index-assign" =>
      let [obj, index, value] ← body.record? ["obj", "index", "value"] | none
      return .setIndex (← expr obj) (← expr index) (← expr value)
    | "if" =>
      let [cond, thn, els] ← body.record? ["cond", "thn", "els"] | none
      return .ifElse (← expr cond) (← block thn) (← block els)
    | "while" =>
      let [cond, stmts] ← body.record? ["cond", "body"] | none
      return .whileLoop (← expr cond) (← block stmts)
    | "for" =>
      let [var, iterable, stmts, els] ← body.record? ["var", "iterable", "body", "els"] | none
      return .forEach (← str var) (← expr iterable) (← block stmts)
        (← optional (Json.listOf? (Stmt.decode n true)) els)
    | "pass" => bare .pass body
    | "nonlocal" =>
      let [name] ← body.record? ["name"] | none
      return .nonlocal (← str name)
    | "global" =>
      let [name] ← body.record? ["name"] | none
      return .global (← str name)
    | "break" => bare .breakLoop body
    | "continue" => bare .continueLoop body
    | "closure" =>
      let [func] ← body.record? ["func"] | none
      return .closure (← required (FunDef.decode n true) func)
    | _ => none

/-- A function nested to less than the given number of levels. -/
def FunDef.decode : Nat → Bool → Json → Option FunDef
  | 0, _, _ => none
  | n + 1, inner, j => do
    let [name, params, ret, inits, body, span] ←
      j.record? ["name", "params", "ret", "inits", "body", "span"] | none
    return ⟨← required Json.str? name, ← required (Json.listOf? (Param.part inner)) params,
      ← required (Ty.part inner) ret, ← defaulted [] (Json.listOf? (VarInit.part inner)) inits,
      ← required (Json.listOf? (Stmt.decode n inner)) body, ← Span.part span⟩

end

/-- A statement. -/
def Stmt.ofJson? (j : Json) : Option Stmt := Stmt.decode j.depth false j

/-- A function. -/
def FunDef.ofJson? (j : Json) : Option FunDef := FunDef.decode j.depth false j

/-- A class. -/
def ClassDef.ofJson? (j : Json) : Option ClassDef := do
  let [name, fields, methods] ← j.record? ["name", "fields", "methods"] | none
  return ⟨← required Json.str? name, ← required (Json.listOf? VarInit.ofJson?) fields,
    ← required (Json.listOf? FunDef.ofJson?) methods⟩

/-- A program. -/
def Program.ofJson? (j : Json) : Option Program := do
  let [funs, classes, inits, stmts] ← j.record? ["funs", "classes", "inits", "stmts"] | none
  return {
    funs := ← defaulted [] (Json.listOf? FunDef.ofJson?) funs
    classes := ← defaulted [] (Json.listOf? ClassDef.ofJson?) classes
    inits := ← defaulted [] (Json.listOf? VarInit.ofJson?) inits
    stmts := ← defaulted [] (Json.listOf? Stmt.ofJson?) stmts }

/-! ### Shapes -/

/-- What of a span is looked at. -/
def Span.shape : Json.Shape := .record [("file_id", .whole), ("start", .whole), ("end", .whole)]

/-- What of a parameter is looked at. -/
def Param.shape : Json.Shape := .record [("name", .whole), ("ty", .whole)]

/-- What of a variable is looked at. -/
def VarInit.shape : Json.Shape := .record [("name", .whole), ("ty", .whole), ("value", .whole)]

/-- What of a function is looked at. -/
def FunDef.shape : Json.Shape :=
  .record [("name", .whole), ("params", .list Param.shape), ("ret", .whole),
    ("inits", .list VarInit.shape), ("body", .whole), ("span", Span.shape)]

/-- What of a class is looked at. -/
def ClassDef.shape : Json.Shape :=
  .record [("name", .whole), ("fields", .list VarInit.shape), ("methods", .list FunDef.shape)]

/-- What of a program is looked at. -/
def Program.shape : Json.Shape :=
  .record [("funs", .list FunDef.shape), ("classes", .list ClassDef.shape),
    ("inits", .list VarInit.shape), ("stmts", .whole)]

end FlatClosure

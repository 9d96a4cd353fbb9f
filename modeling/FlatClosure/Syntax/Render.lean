import FlatClosure.Syntax.Tree
import FlatClosure.Text.Quoted

/-!
# Rendering program trees

A program is rendered as indented lines.  `Stmt.layout`, `FunDef.layout`, `ClassDef.layout` and
`Program.layout` give the lines with their nesting level, and `Line.render` writes one of them,
four blanks for each level.  Expressions never take more than one line.  A block without
statements is written as `pass`, so every header is followed by a deeper line.
-/

namespace FlatClosure

/-! ### Operators and literals -/

/-- A literal as it is written in a program. -/
def Literal.render : Literal → String
  | .num n => toString n.toInt
  | .bool true => "True"
  | .bool false => "False"
  | .str s => quoted s
  | .none => "None"

/-- The sign of an operator on one operand. -/
def UnaryOp.sign : UnaryOp → String
  | .neg => "-"
  | .not => "not "

/-- The sign of an operator on two operands. -/
def BinaryOp.sign : BinaryOp → String
  | .add => "+"
  | .sub => "-"
  | .mul => "*"
  | .floorDiv => "//"
  | .mod => "%"
  | .eq => "=="
  | .ne => "!="
  | .le => "<="
  | .ge => ">="
  | .lt => "<"
  | .gt => ">"
  | .is => "is"
  | .and => "and"
  | .or => "or"

/-- The brackets around a collection. -/
def Collection.brackets : Collection → String × String
  | .list => ("[", "]")
  | .set => ("\x7b", "\x7d")

/-! ### Expressions -/

mutual

/-- An expression on one line. -/
def Expr.render : Expr → String
  | .literal v => v.render
  | .id name _ => name
  | .unary op e => "(" ++ op.sign ++ e.render ++ ")"
  | .binary op l r => "(" ++ l.render ++ " " ++ op.sign ++ " " ++ r.render ++ ")"
  | .builtin1 name a => name ++ "(" ++ a.render ++ ")"
  | .builtin2 name l r => name ++ "(" ++ l.render ++ ", " ++ r.render ++ ")"
  | .call f args => f.render ++ "(" ++ Expr.renderList args ++ ")"
  | .field o name => o.render ++ "." ++ name
  | .index o i => o.render ++ "[" ++ i.render ++ "]"
  | .methodCall o m args => o.render ++ "." ++ m ++ "(" ++ Expr.renderList args ++ ")"
  | .list es => "[" ++ Expr.renderList es ++ "]"
  | .set es => "\x7b" ++ Expr.renderList es ++ "\x7d"
  | .tuple es =>
    "(" ++ Expr.renderList es ++ (if es.length = 1 then "," else "") ++ ")"
  | .comprehension kind e x it c =>
    kind.brackets.1 ++ e.render ++ " for " ++ x ++ " in " ++ it.render ++ Expr.renderFilter c ++
      kind.brackets.2
  | .ifElse c t e => "(" ++ t.render ++ " if " ++ c.render ++ " else " ++ e.render ++ ")"
  | .construct name _ => "new " ++ name ++ "()"
  | .lambda params _ b _ =>
    "(lambda" ++ (if params.isEmpty then "" else " ") ++
      ", ".intercalate (params.map (·.name)) ++ ": " ++ b.render ++ ")"

/-- Expressions with commas between them. -/
def Expr.renderList : List Expr → String
  | [] => ""
  | [e] => e.render
  | e :: es => e.render ++ ", " ++ Expr.renderList es

/-- The condition of a comprehension. -/
def Expr.renderFilter : Option Expr → String
  | none => ""
  | some c => " if " ++ c.render

end

/-- A target of a destructuring assignment. -/
def Target.render : Target → String
  | .id name => name
  | .field o name => o.render ++ "." ++ name
  | .index o i => o.render ++ "[" ++ i.render ++ "]"
  | .ignore => "_"

/-- A target with its star. -/
def Slot.render (s : Slot) : String := (if s.starred then "*" else "") ++ s.target.render

/-! ### Lines -/

/-- A line of a rendered program. -/
structure Line where
  /-- The nesting level. -/
  level : Nat
  /-- The text behind the indentation. -/
  text : String

/-- The line with its indentation and its end. -/
def Line.render (l : Line) : String :=
  String.ofList (List.replicate (4 * l.level) ' ') ++ l.text ++ "\n"

/-- Lines one below the other. -/
def renderLines (ls : List Line) : String := String.join (ls.map Line.render)

/-- The declaration of a variable or field. -/
def VarInit.render (v : VarInit) : String :=
  v.name ++ ": " ++ v.ty.render ++ " = " ++ v.value.render

/-- A parameter in the header of a function. -/
def Param.render (p : Param) : String := p.name ++ ": " ++ p.ty.render

/-- The header of a function. -/
def funHeader (name : String) (params : List Param) (ret : Ty) : String :=
  "def " ++ name ++ "(" ++ ", ".intercalate (params.map Param.render) ++ ") -> " ++ ret.render ++
    ":"

mutual

/-- The lines of a statement at a nesting level. -/
def Stmt.layout (n : Nat) : Stmt → List Line
  | .assign x v => [⟨n, x ++ " = " ++ v.render⟩]
  | .unpack slots v =>
    [⟨n, ", ".intercalate (slots.map Slot.render) ++ " = " ++ v.render⟩]
  | .ret (some v) => [⟨n, "return " ++ v.render⟩]
  | .ret none => [⟨n, "return"⟩]
  | .expr e => [⟨n, e.render⟩]
  | .setField o f v => [⟨n, o.render ++ "." ++ f ++ " = " ++ v.render⟩]
  | .setIndex o i v => [⟨n, o.render ++ "[" ++ i.render ++ "] = " ++ v.render⟩]
  | .ifElse c thn els =>
    ⟨n, "if " ++ c.render ++ ":"⟩ :: Stmt.layoutBlock (n + 1) thn ++
      if els.isEmpty then [] else ⟨n, "else:"⟩ :: Stmt.layoutBlock (n + 1) els
  | .whileLoop c body => ⟨n, "while " ++ c.render ++ ":"⟩ :: Stmt.layoutBlock (n + 1) body
  | .forEach x it body els =>
    ⟨n, "for " ++ x ++ " in " ++ it.render ++ ":"⟩ :: Stmt.layoutBlock (n + 1) body ++
      Stmt.layoutElse n els
  | .pass => [⟨n, "pass"⟩]
  | .nonlocal x => [⟨n, "nonlocal " ++ x⟩]
  | .global x => [⟨n, "global " ++ x⟩]
  | .breakLoop => [⟨n, "break"⟩]
  | .continueLoop => [⟨n, "continue"⟩]
  | .closure f => f.layout n

/-- The lines of statements, without a placeholder for none. -/
def Stmt.layoutList (n : Nat) : List Stmt → List Line
  | [] => []
  | s :: ss => s.layout n ++ Stmt.layoutList n ss

/-- The lines of a block; an empty one is written as `pass`. -/
def Stmt.layoutBlock (n : Nat) : List Stmt → List Line
  | [] => [⟨n, "pass"⟩]
  | s :: ss => s.layout n ++ Stmt.layoutList n ss

/-- The lines of the else part of a loop. -/
def Stmt.layoutElse (n : Nat) : Option (List Stmt) → List Line
  | none => []
  | some ss => ⟨n, "else:"⟩ :: Stmt.layoutBlock (n + 1) ss

/-- The lines of a function at a nesting level. -/
def FunDef.layout (n : Nat) : FunDef → List Line
  | ⟨name, params, ret, inits, body, _⟩ =>
    ⟨n, funHeader name params ret⟩ :: inits.map (fun v => ⟨n + 1, v.render⟩) ++
      if inits.isEmpty then Stmt.layoutBlock (n + 1) body else Stmt.layoutList (n + 1) body

end

/-- The lines of a class. -/
def ClassDef.layout (c : ClassDef) : List Line :=
  ⟨0, "class " ++ c.name ++ "(object):"⟩ ::
    if c.fields.isEmpty && c.methods.isEmpty then [⟨1, "pass"⟩]
    else c.fields.map (fun v => ⟨1, v.render⟩) ++ c.methods.flatMap (FunDef.layout 1)

/-- The lines of a program: global variables, classes, functions, statements. -/
def Program.layout (p : Program) : List Line :=
  p.inits.map (fun v => ⟨0, v.render⟩) ++ p.classes.flatMap ClassDef.layout ++
    p.funs.flatMap (FunDef.layout 0) ++ p.stmts.flatMap (Stmt.layout 0)

/-- A statement, without blanks or line ends behind it. -/
def Stmt.render (s : Stmt) : String := trimBlankEnd (renderLines (s.layout 0))

/-- A function with its lines. -/
def FunDef.render (f : FunDef) : String := renderLines (f.layout 0)

/-- A class with its lines. -/
def ClassDef.render (c : ClassDef) : String := renderLines c.layout

/-- A program with its lines. -/
def Program.render (p : Program) : String := renderLines p.layout

end FlatClosure

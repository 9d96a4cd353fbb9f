import FlatClosure.Conversion.Error
import FlatClosure.Syntax.Events

/-!
# What stands in a tree

A `Collector` says what every node of a tree contributes to a list; `Expr.collect` and
`Stmt.collect` put the contributions of a whole tree together, in the order of the walk.  The
functions that a statement declares are not entered: what is collected from the body of a function
is what stands in the function itself.

The lists used to talk about names are

* `freeReads` : the names that are read, except where a comprehension around binds them;
* `written` : the names that are assigned, or are the variable of a loop;
* `declaredGlobal`, `declaredNonlocal` : the names of such declarations;
* `boundVars` : the variables of comprehensions;

and those used to talk about shape are `closures`, `lambdas` and `constructs`.
-/

namespace FlatClosure

/-- What the nodes of a tree contribute to a list. -/
structure Collector (α : Type) where
  expr : Expr → List α := fun _ => []
  stmt : Stmt → List α := fun _ => []
  /-- A name is written; the expression is the one whose value, or items, it takes. -/
  write : Expr → String → List α := fun _ _ => []
  /-- What the scope of a variable contributes, given what stands in it. -/
  scope : String → List α → List α := fun _ xs => xs

variable {α : Type}

mutual

/-- What an expression contributes. -/
def Expr.collect (C : Collector α) : Expr → List α
  | .literal v => C.expr (.literal v)
  | .id x s => C.expr (.id x s)
  | .unary op e => C.expr (.unary op e) ++ e.collect C
  | .binary op l r => C.expr (.binary op l r) ++ l.collect C ++ r.collect C
  | .builtin1 f a => C.expr (.builtin1 f a) ++ a.collect C
  | .builtin2 f l r => C.expr (.builtin2 f l r) ++ l.collect C ++ r.collect C
  | .call f args => C.expr (.call f args) ++ f.collect C ++ Expr.collectList C args
  | .field o x => C.expr (.field o x) ++ o.collect C
  | .index o i => C.expr (.index o i) ++ o.collect C ++ i.collect C
  | .methodCall o m args => C.expr (.methodCall o m args) ++ o.collect C ++ Expr.collectList C args
  | .list es => C.expr (.list es) ++ Expr.collectList C es
  | .set es => C.expr (.set es) ++ Expr.collectList C es
  | .comprehension k e x it c =>
    C.expr (.comprehension k e x it c) ++ it.collect C ++
      C.scope x (e.collect C ++ Expr.collectOption C c)
  | .ifElse c t e => C.expr (.ifElse c t e) ++ c.collect C ++ t.collect C ++ e.collect C
  | .tuple es => C.expr (.tuple es) ++ Expr.collectList C es
  | .construct x s => C.expr (.construct x s)
  | .lambda ps ty b s =>
    C.expr (.lambda ps ty b s) ++ ps.foldr (fun p xs => C.scope p.name xs) (b.collect C)

/-- What expressions contribute. -/
def Expr.collectList (C : Collector α) : List Expr → List α
  | [] => []
  | e :: es => e.collect C ++ Expr.collectList C es

/-- What an expression that may be missing contributes. -/
def Expr.collectOption (C : Collector α) : Option Expr → List α
  | none => []
  | some e => e.collect C

end

/-- What a target for an item of `value` contributes. -/
def Target.collect (C : Collector α) (value : Expr) : Target → List α
  | .id x => C.write value x
  | .field o _ => o.collect C
  | .index o i => o.collect C ++ i.collect C
  | .ignore => []

/-- What the targets of a destructuring assignment contribute. -/
def Slot.collectList (C : Collector α) (value : Expr) : List Slot → List α
  | [] => []
  | s :: ss => s.target.collect C value ++ Slot.collectList C value ss

mutual

/-- What a statement contributes. -/
def Stmt.collect (C : Collector α) : Stmt → List α
  | .assign x v => C.stmt (.assign x v) ++ v.collect C ++ C.write v x
  | .unpack slots v => C.stmt (.unpack slots v) ++ v.collect C ++ Slot.collectList C v slots
  | .ret v => C.stmt (.ret v) ++ Expr.collectOption C v
  | .expr e => C.stmt (.expr e) ++ e.collect C
  | .setField o f v => C.stmt (.setField o f v) ++ o.collect C ++ v.collect C
  | .setIndex o i v => C.stmt (.setIndex o i v) ++ o.collect C ++ i.collect C ++ v.collect C
  | .ifElse c thn els =>
    C.stmt (.ifElse c thn els) ++ c.collect C ++ Stmt.collectList C thn ++ Stmt.collectList C els
  | .whileLoop c body => C.stmt (.whileLoop c body) ++ c.collect C ++ Stmt.collectList C body
  | .forEach x it body els =>
    C.stmt (.forEach x it body els) ++ it.collect C ++ C.write it x ++ Stmt.collectList C body ++
      Stmt.collectOption C els
  | .pass => C.stmt .pass
  | .nonlocal x => C.stmt (.nonlocal x)
  | .global x => C.stmt (.global x)
  | .breakLoop => C.stmt .breakLoop
  | .continueLoop => C.stmt .continueLoop
  | .closure f => C.stmt (.closure f)

/-- What a block contributes. -/
def Stmt.collectList (C : Collector α) : List Stmt → List α
  | [] => []
  | s :: ss => s.collect C ++ Stmt.collectList C ss

/-- What a block that may be missing contributes. -/
def Stmt.collectOption (C : Collector α) : Option (List Stmt) → List α
  | none => []
  | some ss => Stmt.collectList C ss

end

/-- What the body of a function contributes. -/
def FunDef.collect (C : Collector α) (f : FunDef) : List α := Stmt.collectList C f.body

/-! ### Names -/

/-- The names read from outside the comprehensions, with their positions. -/
def freeReads : Collector (String × Span) where
  expr
    | .id x s => [(x, s)]
    | _ => []
  scope x rs := rs.filter fun r => r.1 ≠ x

/-- The names written. -/
def written : Collector String where
  write _ x := [x]

/-- The names declared global. -/
def declaredGlobal : Collector String where
  stmt
    | .global x => [x]
    | _ => []

/-- The names declared nonlocal. -/
def declaredNonlocal : Collector String where
  stmt
    | .nonlocal x => [x]
    | _ => []

/-- The variables of comprehensions and lambda expressions. -/
def boundVars : Collector String where
  scope x xs := x :: xs

/-- The names that the body of a function reads from outside its comprehensions. -/
def FunDef.freeNames (f : FunDef) : List String := (f.collect freeReads).map Prod.fst

/-! ### Shape -/

/-- The functions declared by statements. -/
def closures : Collector FunDef where
  stmt
    | .closure f => [f]
    | _ => []

/-- The lambda expressions, by their positions. -/
def lambdas : Collector Span where
  expr
    | .lambda _ _ _ s => [s]
    | _ => []

/-- The constructions, by their classes. -/
def constructs : Collector String where
  expr
    | .construct c _ => [c]
    | _ => []

/-- The functions that a function declares, in order. -/
def FunDef.closures (f : FunDef) : List FunDef := f.collect FlatClosure.closures

/-! ### Facts about every tree -/

/-- What collectors take from a part of a tree. -/
abbrev Part := {α : Type} → Collector α → List α

/-- A property of the parts of an expression that passes to the parts made of them. -/
structure ExprLaw (P : Part → Prop) : Prop where
  nil : P fun _ => []
  append : ∀ {a b : Part}, P a → P b → P fun C => a C ++ b C
  expr : ∀ e, P fun C => C.expr e
  scope : ∀ (x : String) {a : Part}, P a → P fun C => C.scope x (a C)

/-- A property of the parts of a statement that passes to the parts made of them. -/
structure TreeLaw (P : Part → Prop) : Prop extends ExprLaw P where
  stmt : ∀ s, P fun C => C.stmt s
  write : ∀ value x, P fun C => C.write value x

/-- A property of whole expressions that passes to the parts of statements made of them. -/
structure BlockLaw (P : Part → Prop) : Prop where
  nil : P fun _ => []
  append : ∀ {a b : Part}, P a → P b → P fun C => a C ++ b C
  whole : ∀ e : Expr, P fun C => e.collect C
  stmt : ∀ s, P fun C => C.stmt s
  write : ∀ value x, P fun C => C.write value x

section Laws

variable {P : Part → Prop}

theorem ExprLaw.scopes (h : ExprLaw P) (ps : List Param) {a : Part} (ha : P a) :
    P fun C => ps.foldr (fun p xs => C.scope p.name xs) (a C) := by
  induction ps with
  | nil => exact ha
  | cons p ps ih => exact h.scope p.name ih

mutual

theorem ExprLaw.holds (h : ExprLaw P) (e : Expr) : P fun C => e.collect C := by
  cases e with
  | literal | id | construct => exact h.expr _
  | unary _ a | builtin1 _ a | field a _ => exact h.append (h.expr _) (h.holds a)
  | binary _ l r | builtin2 _ l r | index l r =>
    exact h.append (h.append (h.expr _) (h.holds l)) (h.holds r)
  | call f args | methodCall f _ args =>
    exact h.append (h.append (h.expr _) (h.holds f)) (h.holdsList args)
  | list es | set es | tuple es => exact h.append (h.expr _) (h.holdsList es)
  | comprehension _ e x it c =>
    exact h.append (h.append (h.expr _) (h.holds it))
      (h.scope x (h.append (h.holds e) (h.holdsOption c)))
  | ifElse c t e =>
    exact h.append (h.append (h.append (h.expr _) (h.holds c)) (h.holds t)) (h.holds e)
  | lambda ps _ b _ => exact h.append (h.expr _) (h.scopes ps (h.holds b))

theorem ExprLaw.holdsList (h : ExprLaw P) (es : List Expr) :
    P fun C => Expr.collectList C es := by
  cases es with
  | nil => exact h.nil
  | cons e es => exact h.append (h.holds e) (h.holdsList es)

theorem ExprLaw.holdsOption (h : ExprLaw P) (c : Option Expr) :
    P fun C => Expr.collectOption C c := by
  cases c with
  | none => exact h.nil
  | some e => exact h.holds e

end

namespace BlockLaw

theorem holdsOption (h : BlockLaw P) (c : Option Expr) : P fun C => Expr.collectOption C c := by
  cases c with
  | none => exact h.nil
  | some e => exact h.whole e

theorem target (h : BlockLaw P) (value : Expr) (t : Target) : P fun C => t.collect C value := by
  cases t with
  | id x => exact h.write value x
  | field o _ => exact h.whole o
  | index o i => exact h.append (h.whole o) (h.whole i)
  | ignore => exact h.nil

theorem slots (h : BlockLaw P) (value : Expr) (slots : List Slot) :
    P fun C => Slot.collectList C value slots := by
  induction slots with
  | nil => exact h.nil
  | cons s ss ih => exact h.append (h.target value s.target) ih

mutual

theorem holdsStmt (h : BlockLaw P) (s : Stmt) : P fun C => s.collect C := by
  cases s with
  | assign x v => exact h.append (h.append (h.stmt _) (h.whole v)) (h.write v x)
  | unpack slots v => exact h.append (h.append (h.stmt _) (h.whole v)) (h.slots v slots)
  | ret v => exact h.append (h.stmt _) (h.holdsOption v)
  | expr e => exact h.append (h.stmt _) (h.whole e)
  | setField o _ v => exact h.append (h.append (h.stmt _) (h.whole o)) (h.whole v)
  | setIndex o i v =>
    exact h.append (h.append (h.append (h.stmt _) (h.whole o)) (h.whole i)) (h.whole v)
  | ifElse c thn els =>
    exact h.append (h.append (h.append (h.stmt _) (h.whole c)) (h.holdsBlock thn))
      (h.holdsBlock els)
  | whileLoop c body => exact h.append (h.append (h.stmt _) (h.whole c)) (h.holdsBlock body)
  | forEach x it body els =>
    exact h.append (h.append (h.append (h.append (h.stmt _) (h.whole it)) (h.write it x))
      (h.holdsBlock body)) (h.holdsElse els)
  | pass | nonlocal | global | breakLoop | continueLoop | closure => exact h.stmt _

theorem holdsBlock (h : BlockLaw P) (ss : List Stmt) : P fun C => Stmt.collectList C ss := by
  cases ss with
  | nil => exact h.nil
  | cons s ss => exact h.append (h.holdsStmt s) (h.holdsBlock ss)

theorem holdsElse (h : BlockLaw P) (els : Option (List Stmt)) :
    P fun C => Stmt.collectOption C els := by
  cases els with
  | none => exact h.nil
  | some ss => exact h.holdsBlock ss

end

end BlockLaw

namespace TreeLaw

theorem blockLaw (h : TreeLaw P) : BlockLaw P where
  nil := h.nil
  append := h.append
  whole := h.holds
  stmt := h.stmt
  write := h.write

theorem holdsStmt (h : TreeLaw P) (s : Stmt) : P fun C => s.collect C := h.blockLaw.holdsStmt s

theorem holdsBlock (h : TreeLaw P) (ss : List Stmt) : P fun C => Stmt.collectList C ss :=
  h.blockLaw.holdsBlock ss

end TreeLaw

end Laws

/-! ### Facts about every walk -/

/-- A property of stretches of a walk, and of what collectors take from the same part of the tree,
that passes to longer stretches.  A walk enters the body of a closure, a collector does not. -/
structure WalkLaw (P : List Event → Part → Prop) : Prop where
  nil : P [] fun _ => []
  append : ∀ {es es' : List Event} {a b : Part}, P es a → P es' b →
    P (es ++ es') fun C => a C ++ b C
  expr : ∀ e, P [.expr e] fun C => C.expr e
  stmt : ∀ s, P [.stmt s] fun C => C.stmt s
  write : ∀ value x, P [.bind x] fun C => C.write value x
  scope : ∀ (x : String) {es : List Event} {a : Part}, P es a →
    P (.enter x :: (es ++ [.exit x])) fun C => C.scope x (a C)
  closure : ∀ f es, P (.stmt (.closure f) :: es) fun C => C.stmt (.closure f)

namespace WalkLaw

variable {P : List Event → Part → Prop}

theorem scopes (h : WalkLaw P) (ps : List Param) {es : List Event} {a : Part} (ha : P es a) :
    P (ps.map (.enter ·.name) ++ es ++ ps.reverse.map (.exit ·.name)) fun C =>
      ps.foldr (fun p xs => C.scope p.name xs) (a C) := by
  induction ps with
  | nil => simpa using ha
  | cons p ps ih => simpa using h.scope p.name ih

mutual

theorem walks (h : WalkLaw P) (e : Expr) : P e.events fun C => e.collect C := by
  cases e with
  | literal | id | construct => exact h.expr _
  | unary _ a | builtin1 _ a | field a _ => exact h.append (h.expr _) (h.walks a)
  | binary _ l r | builtin2 _ l r | index l r =>
    exact h.append (h.append (h.expr _) (h.walks l)) (h.walks r)
  | call f args | methodCall f _ args =>
    exact h.append (h.append (h.expr _) (h.walks f)) (h.walksList args)
  | list es | set es | tuple es => exact h.append (h.expr _) (h.walksList es)
  | comprehension k e x it c =>
    simpa [Expr.events, Expr.collect] using
      h.append (h.append (h.expr (.comprehension k e x it c)) (h.walks it))
        (h.scope x (h.append (h.walks e) (h.walksOption c)))
  | ifElse c t e =>
    exact h.append (h.append (h.append (h.expr _) (h.walks c)) (h.walks t)) (h.walks e)
  | lambda ps ty b s =>
    simpa [Expr.events, Expr.collect] using
      h.append (h.expr (.lambda ps ty b s)) (h.scopes ps (h.walks b))

theorem walksList (h : WalkLaw P) (es : List Expr) :
    P (Expr.eventsList es) fun C => Expr.collectList C es := by
  cases es with
  | nil => exact h.nil
  | cons e es => exact h.append (h.walks e) (h.walksList es)

theorem walksOption (h : WalkLaw P) (c : Option Expr) :
    P (Expr.eventsOption c) fun C => Expr.collectOption C c := by
  cases c with
  | none => exact h.nil
  | some e => exact h.walks e

end

theorem walksTarget (h : WalkLaw P) (value : Expr) (t : Target) :
    P t.events fun C => t.collect C value := by
  cases t with
  | id x => exact h.write value x
  | field o _ => exact h.walks o
  | index o i => exact h.append (h.walks o) (h.walks i)
  | ignore => exact h.nil

theorem walksSlots (h : WalkLaw P) (value : Expr) (slots : List Slot) :
    P (slots.flatMap fun s => s.target.events) fun C => Slot.collectList C value slots := by
  induction slots with
  | nil => exact h.nil
  | cons s ss ih => exact h.append (h.walksTarget value s.target) ih

mutual

theorem walksStmt (h : WalkLaw P) (s : Stmt) : P s.events fun C => s.collect C := by
  cases s with
  | assign x v => exact h.append (h.append (h.stmt _) (h.walks v)) (h.write v x)
  | unpack slots v => exact h.append (h.append (h.stmt _) (h.walks v)) (h.walksSlots v slots)
  | ret v => exact h.append (h.stmt _) (h.walksOption v)
  | expr e => exact h.append (h.stmt _) (h.walks e)
  | setField o _ v => exact h.append (h.append (h.stmt _) (h.walks o)) (h.walks v)
  | setIndex o i v =>
    exact h.append (h.append (h.append (h.stmt _) (h.walks o)) (h.walks i)) (h.walks v)
  | ifElse c thn els =>
    exact h.append (h.append (h.append (h.stmt _) (h.walks c)) (h.walksBlock thn))
      (h.walksBlock els)
  | whileLoop c body => exact h.append (h.append (h.stmt _) (h.walks c)) (h.walksBlock body)
  | forEach x it body els =>
    simpa [Stmt.events, Stmt.collect] using
      h.append (h.append (h.append (h.append (h.stmt (.forEach x it body els)) (h.walks it))
        (h.write it x)) (h.walksBlock body)) (h.walksElse els)
  | pass | nonlocal | global | breakLoop | continueLoop => exact h.stmt _
  | closure f => exact h.closure f f.events

theorem walksBlock (h : WalkLaw P) (ss : List Stmt) :
    P (Stmt.eventsList ss) fun C => Stmt.collectList C ss := by
  cases ss with
  | nil => exact h.nil
  | cons s ss => exact h.append (h.walksStmt s) (h.walksBlock ss)

theorem walksElse (h : WalkLaw P) (els : Option (List Stmt)) :
    P (Stmt.eventsOption els) fun C => Stmt.collectOption C els := by
  cases els with
  | none => exact h.nil
  | some ss => exact h.walksBlock ss

end

end WalkLaw

/-! ### Collectors of statements -/

/-- The collector takes nothing from expressions. -/
structure Collector.OnlyStmts (C : Collector α) : Prop where
  expr : ∀ e, C.expr e = []
  scope : ∀ x, C.scope x [] = []

theorem Collector.OnlyStmts.law {C : Collector α} (h : C.OnlyStmts) :
    ExprLaw fun part => part C = [] where
  nil := rfl
  append := by
    intro a b ha hb
    simp only [ha, hb, List.append_nil]
  expr := h.expr
  scope := by
    intro x a ha
    simp only [ha, h.scope]

theorem Collector.OnlyStmts.collect {C : Collector α} (h : C.OnlyStmts) (e : Expr) :
    e.collect C = [] :=
  h.law.holds e

theorem closures_onlyStmts : closures.OnlyStmts := ⟨fun _ => rfl, fun _ => rfl⟩

section Closures

variable (c it : Expr) (x : String) (thn els body : List Stmt) (els' : Option (List Stmt))

@[simp] theorem Stmt.closures_ifElse :
    (Stmt.ifElse c thn els).collect closures =
      Stmt.collectList closures thn ++ Stmt.collectList closures els := by
  rw [Stmt.collect, closures_onlyStmts.collect]
  rfl

@[simp] theorem Stmt.closures_whileLoop :
    (Stmt.whileLoop c body).collect closures = Stmt.collectList closures body := by
  rw [Stmt.collect, closures_onlyStmts.collect]
  rfl

@[simp] theorem Stmt.closures_forEach :
    (Stmt.forEach x it body els').collect closures =
      Stmt.collectList closures body ++ Stmt.collectOption closures els' := by
  rw [Stmt.collect, closures_onlyStmts.collect]
  rfl

end Closures

end FlatClosure

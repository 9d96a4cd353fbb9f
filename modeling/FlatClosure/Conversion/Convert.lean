import FlatClosure.Conversion.Fresh
import FlatClosure.Conversion.Lift
import FlatClosure.Conversion.Substitute

/-!
# Closure conversion

`convert` removes the functions declared inside functions from a program.  Where one is declared, an
object of a new class is made that holds the variables the function reads from its surroundings;
calling the object runs the function.  Functions are converted in order, and the closures of a
function in the order of the walk, so the numbers in the names of the new classes are determined.

A program is converted as a whole or not at all: the answer is the new program or an error.

A `ConversionRun` is a converter that works in place and is used again and again.  What it has
generated stands in its own lists, closure by closure, so it clears them before it starts on a
program and again when it fails.
-/

namespace FlatClosure

/-! ### State -/

/-- What has been converted so far. -/
structure Lifting where
  /-- The next number for a class name. -/
  counter : Nat := 0
  /-- The closures lifted so far, in order. -/
  lifted : List Lifted := []
  /-- The variables of the function being converted. -/
  inits : List VarInit := []

/-- A conversion step. -/
abbrev ConvertM := StateT Lifting (Except ConversionError)

/-- Put a variable in the place of the one with its name, or add it at the end. -/
def setInit (slot : VarInit) : List VarInit → List VarInit
  | [] => [slot]
  | v :: vs => if v.name = slot.name then slot :: vs else v :: setInit slot vs

/-! ### Closures -/

/-- Lift a closure of a function with the given parameters: the answer is the statements in its
place. -/
def liftClosure (names : Conventions) (globals : List String) (params : List Param)
    (closure : FunDef) : ConvertM (List Stmt) := do
  let state ← get
  let reads ← collectReads closure
  let captures ← classify closure reads ⟨params, state.inits⟩ globals
  let receiver := freshReceiver names.receiver closure reads
  let n := firstFree (className names.classPrefix closure.name) globals state.counter
  let body ← substituteCaptures ⟨closure.name, closure.span, captures, receiver⟩ closure.body
  let lifted := lift { closure with body } (className names.classPrefix closure.name n) captures
    receiver names
  set
    { counter := n + 1
      lifted := state.lifted ++ [lifted]
      inits := setInit lifted.slot state.inits : Lifting }
  return lifted.creation

/-- The traversal of a function in which `lift` says what stands in the place of a closure. -/
def liftingFolder {m : Type → Type} [Monad m] [MonadExceptOf ConversionError m] (function : String)
    (lift : FunDef → m (List Stmt)) : Folder m where
  stmt
    | .closure f => do
      let stmts ← lift f
      return some stmts
    | _ => return none
  expr
    | .lambda _ _ _ s => throw (.lambda function s)
    | _ => return none
  write x := return x
  enter _ := return
  exit _ := return

/-- The traversal that lifts the closures of a function. -/
def convertFolder (names : Conventions) (globals : List String) (function : String)
    (params : List Param) : Folder ConvertM :=
  liftingFolder function (liftClosure names globals params)

/-- Lift the closures of a function. -/
def convertFun (names : Conventions) (globals : List String) (f : FunDef) : ConvertM FunDef := do
  modify fun state => { state with inits := f.inits }
  let body ← Stmt.foldList (convertFolder names globals f.name f.params) f.body
  return { f with body, inits := (← get).inits }

/-! ### Programs -/

/-- The function that an event declares. -/
def Event.closure? : Event → Option FunDef
  | .stmt (.closure f) => some f
  | _ => none

/-- The first function that is declared in a block. -/
def firstClosure? (body : List Stmt) : Option FunDef :=
  (Stmt.eventsList body).findSome? Event.closure?

/-- The error of the first closure in a method. -/
def methodError? (classes : List ClassDef) : Option ConversionError :=
  classes.findSome? fun c =>
    c.methods.findSome? fun m =>
      (firstClosure? m.body).map fun f => .closureInMethod f.name c.name m.name f.span

/-- The error of the first closure among the top-level statements. -/
def topLevelError? (stmts : List Stmt) : Option ConversionError :=
  (firstClosure? stmts).map fun f => .topLevelClosure f.name f.span

/-- What a conversion has generated. -/
structure Artifacts where
  /-- The names of the new classes, in order. -/
  classNames : List String := []
  /-- The numbers of parameters that closures take, ascending and without repetition. -/
  arities : List Nat := []
deriving DecidableEq

/-- Insert a number into an ascending list without repetition. -/
def insertSorted (n : Nat) : List Nat → List Nat
  | [] => [n]
  | k :: ks => if n < k then n :: k :: ks else if n = k then k :: ks else k :: insertSorted n ks

/-- What the lifting of closures has generated. -/
def Artifacts.ofLifted (ls : List Lifted) : Artifacts where
  classNames := ls.map (·.cls.name)
  arities := ls.foldl (fun ns l => insertSorted l.arity ns) []

/-- The artifacts as a JSON object. -/
def Artifacts.toJson (a : Artifacts) : Json :=
  .obj
    [("class_names", .arr (a.classNames.map .str)),
      ("arities", .arr (a.arities.map fun (n : Nat) => .int n))]

/-- The program without closures, and what was generated for it. -/
def convert (names : Conventions) (p : Program) : Except ConversionError (Program × Artifacts) :=
  match (methodError? p.classes).or (topLevelError? p.stmts) with
  | some e => .error e
  | none => do
    let (funs, state) ← (p.funs.mapM (convertFun names p.globalNames)).run {}
    return ({ p with funs, classes := p.classes ++ state.lifted.map (·.cls) },
      .ofLifted state.lifted)

/-! ### Runs -/

/-- A converter that is used for one program after the other. -/
structure ConversionRun where
  /-- The next number for a class name. -/
  counter : Nat := 0
  /-- The names of the classes generated since the last reset, in order. -/
  classNames : List String := []
  /-- The numbers of parameters that their closures take, ascending and without repetition. -/
  arities : List Nat := []

namespace ConversionRun

/-- Forget what has been generated. -/
def reset (run : ConversionRun) : ConversionRun :=
  { run with counter := 0, classNames := [], arities := [] }

/-- What has been generated. -/
def artifacts (run : ConversionRun) : Artifacts := ⟨run.classNames, run.arities⟩

/-- A class name for a closure.  Its number is used up, and so are those of the names that are
taken. -/
def freshClassName (run : ConversionRun) (start closure : String) (globals : List String) :
    String × ConversionRun :=
  let n := firstFree (className start closure) globals run.counter
  (className start closure n, { run with counter := n + 1 })

/-- Note a class that has been generated. -/
def record (run : ConversionRun) (cls : String) (arity : Nat) : ConversionRun :=
  { run with
    classNames := run.classNames ++ [cls]
    arities := insertSorted arity run.arities }

end ConversionRun

/-- What a converter has in hand while it goes through the functions of a program. -/
structure Progress where
  run : ConversionRun
  /-- The classes of the closures lifted so far, in order. -/
  classes : List ClassDef := []
  /-- The variables of the function being converted. -/
  inits : List VarInit := []

/-- A step of a converter.  Where it fails, what it has changed by then stays changed. -/
abbrev RunM := ExceptT ConversionError (StateM Progress)

namespace ConversionRun

/-- Lift a closure of a function with the given parameters.  The number of its class is used up
before the body is looked at, where the captures may turn out to be written. -/
def liftClosure (names : Conventions) (globals : List String) (params : List Param)
    (closure : FunDef) : RunM (List Stmt) := do
  let reads ← collectReads closure
  let captures ← classify closure reads ⟨params, (← get).inits⟩ globals
  let receiver := freshReceiver names.receiver closure reads
  let cls ← modifyGet fun st =>
    let (cls, run) := st.run.freshClassName names.classPrefix closure.name globals
    (cls, { st with run })
  let body ← substituteCaptures ⟨closure.name, closure.span, captures, receiver⟩ closure.body
  let lifted := lift { closure with body } cls captures receiver names
  modify fun st =>
    { run := st.run.record lifted.cls.name lifted.arity
      classes := st.classes ++ [lifted.cls]
      inits := setInit lifted.slot st.inits }
  return lifted.creation

/-- Lift the closures of a function. -/
def convertFun (names : Conventions) (globals : List String) (f : FunDef) : RunM FunDef := do
  modify fun st => { st with inits := f.inits }
  let body ← Stmt.foldList (liftingFolder f.name (liftClosure names globals f.params)) f.body
  return { f with body, inits := (← get).inits }

/-- The converted functions of a program, and the classes of their closures. -/
def convertAll (names : Conventions) (p : Program) : RunM (List FunDef × List ClassDef) :=
  match (methodError? p.classes).or (topLevelError? p.stmts) with
  | some e => throw e
  | none => do
    let funs ← p.funs.mapM (convertFun names p.globalNames)
    return (funs, (← get).classes)

/-- Convert a program in place.  The program is changed when all of its functions have been
converted, and a run that has failed forgets what it has generated. -/
def convertInPlace (run : ConversionRun) (names : Conventions) (p : Program) :
    Except ConversionError Unit × ConversionRun × Program :=
  match (convertAll names p).run ⟨run.reset, [], []⟩ with
  | (.ok (funs, classes), st) =>
    (.ok (), st.run, { p with funs, classes := p.classes ++ classes })
  | (.error e, st) => (.error e, st.run.reset, p)

/-- Convert a program: the answer is the program that is left in its place. -/
def convert (run : ConversionRun) (names : Conventions) (p : Program) :
    Except ConversionError Program × ConversionRun :=
  let (r, run, q) := run.convertInPlace names p
  (r.map fun _ => q, run)

end ConversionRun

end FlatClosure

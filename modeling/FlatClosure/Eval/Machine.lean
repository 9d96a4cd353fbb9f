import FlatClosure.Eval.Error
import FlatClosure.Eval.Value

/-!
# The state of a running program

A `Machine` holds the heap, the global variables, the variables of the calls that are open (the
innermost first), and the text printed so far.  An evaluation step (`EvalM`) changes it and may
stop; what it had changed by then stays changed.

A name is looked for among the variables of the innermost call, then among the global variables,
then among the functions of the program.  A call that declares a name global does not see its own
variable of that name.
-/

namespace FlatClosure

/-- The variables of one call. -/
structure Frame where
  vars : Bindings Value := .empty
  /-- The names that the call has declared global. -/
  globals : List String := []
deriving Inhabited

namespace Frame

/-- The name is declared global. -/
def isGlobal (f : Frame) (x : String) : Bool := f.globals.contains x

/-- The value of a variable of the call. -/
def get? (f : Frame) (x : String) : Option Value :=
  if f.isGlobal x then none else f.vars.get? x

/-- The call has a variable of that name. -/
def hasLocal (f : Frame) (x : String) : Bool := !f.isGlobal x && f.vars.contains x

/-- Change a variable. -/
def set (f : Frame) (x : String) (v : Value) : Frame := { f with vars := f.vars.insert x v }

/-- Give a variable its former value back, or remove it if it had none. -/
def restore (f : Frame) (x : String) : Option Value → Frame
  | some v => f.set x v
  | none => { f with vars := f.vars.erase x }

/-- Declare a name global. -/
def declareGlobal (f : Frame) (x : String) : Frame :=
  if f.isGlobal x then f else { f with globals := f.globals ++ [x] }

end Frame

/-- The state of a running program. -/
structure Machine where
  heap : Heap := {}
  globals : Bindings Value := .empty
  /-- The open calls, innermost first. -/
  frames : List Frame := []
  /-- The text printed so far. -/
  output : String := ""
  /-- The global variables have got their first values. -/
  ready : Bool := false
deriving Inhabited

namespace Machine

/-- The name is a variable of the innermost call or a global variable. -/
def isVariable (s : Machine) (x : String) : Bool :=
  s.frames.head?.any (·.hasLocal x) || s.globals.contains x

/-- The value that a name has. -/
def lookup? (p : Program) (s : Machine) (x : String) : Option Value :=
  match s.frames.head?.bind (·.get? x) with
  | some v => some v
  | none =>
    match s.globals.get? x with
    | some v => some v
    | none => if (p.function? x).isSome then some (.function x) else none

/-- Assign to a name.  Inside a call this makes or changes a variable of the call, except for names
declared global and for global variables that the call has no variable for. -/
def store (s : Machine) (x : String) (v : Value) : Machine :=
  match s.frames with
  | f :: fs =>
    if !f.isGlobal x && (f.hasLocal x || !s.globals.contains x) then
      { s with frames := f.set x v :: fs }
    else { s with globals := s.globals.insert x v }
  | [] => { s with globals := s.globals.insert x v }

/-- The variable that a comprehension variable hides. -/
def hidden? (s : Machine) (x : String) : Option Value :=
  match s.frames with
  | f :: _ => f.vars.get? x
  | [] => s.globals.get? x

/-- Give a comprehension variable a value. -/
def shadow (s : Machine) (x : String) (v : Value) : Machine :=
  match s.frames with
  | f :: fs => { s with frames := f.set x v :: fs }
  | [] => { s with globals := s.globals.insert x v }

/-- Undo the values of a comprehension variable. -/
def restore (s : Machine) (x : String) (old : Option Value) : Machine :=
  match s.frames with
  | f :: fs => { s with frames := f.restore x old :: fs }
  | [] =>
    match old with
    | some v => { s with globals := s.globals.insert x v }
    | none => { s with globals := s.globals.erase x }

/-- Declare a name global in the innermost call, if there is one. -/
def declareGlobal (s : Machine) (x : String) : Machine :=
  match s.frames with
  | f :: fs => { s with frames := f.declareGlobal x :: fs }
  | [] => s

/-- Print a line. -/
def print (s : Machine) (line : String) : Machine := { s with output := s.output ++ line ++ "\n" }

/-- Give the global variables their first values, unless they have them. -/
def initGlobals (p : Program) (s : Machine) : Machine :=
  if s.ready then s
  else
    { s with
      ready := true
      globals := s.globals.insertAll (p.inits.map fun v => (v.name, v.value.toValue)) }

end Machine

/-- An evaluation step. -/
abbrev EvalM := ExceptT Stop (StateM Machine)

/-- Stop with a fault of the program. -/
def fail {α : Type} (e : EvalError) : EvalM α := throw (.error e)

/-- The result of a computation without effects. -/
def ofExcept {α : Type} : Except EvalError α → EvalM α
  | .ok a => pure a
  | .error e => fail e

/-- Make a list. -/
def newList (items : List Value) : EvalM Value :=
  modifyGet fun s => (.list s.heap.lists.size, { s with heap := s.heap.pushList items })

/-- Make an object; the answer is its place. -/
def newObject (o : Instance) : EvalM Nat :=
  modifyGet fun s => (s.heap.objects.size, { s with heap := s.heap.pushObject o })

end FlatClosure

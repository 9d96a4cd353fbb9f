/-!
# Why evaluation stops

An `EvalError` is a fault of the program that runs.  `Stop` keeps the one other reason to stop apart
from these: the evaluator was given too little fuel to finish.
-/

namespace FlatClosure

/-- A fault of a running program. -/
inductive EvalError where
  | undefinedVariable (name : String)
  | typeError (expected actual operation : String)
  | arityMismatch (function : String) (expected actual : Nat)
  | divisionByZero
  | overflow (operation : String)
  | indexOutOfBounds (index : Int) (length : Nat)
  | noSuchField (cls field : String)
  | noSuchMethod (cls method : String)
  | notCallable (type : String)
  | unpack (expected actual : Nat)
  /-- A function declared inside a function is still there. -/
  | unconvertedClosure (name : String)
  | recursionLimit (depth : Nat)
  | outsideLoop (word : String)
  | unsupported (what : String)
deriving DecidableEq

/-- The fault in words. -/
def EvalError.message : EvalError → String
  | .undefinedVariable x => "name `" ++ x ++ "` is not defined"
  | .typeError expected actual operation =>
    operation ++ ": expected " ++ expected ++ ", got " ++ actual
  | .arityMismatch f expected actual =>
    "`" ++ f ++ "` takes " ++ toString expected ++ " argument(s) but " ++ toString actual ++
      " were given"
  | .divisionByZero => "division by zero"
  | .overflow operation => "integer overflow in `" ++ operation ++ "`"
  | .indexOutOfBounds i n =>
    "index " ++ toString i ++ " out of range for length " ++ toString n
  | .noSuchField c f => "`" ++ c ++ "` object has no attribute `" ++ f ++ "`"
  | .noSuchMethod c m => "`" ++ c ++ "` object has no method `" ++ m ++ "`"
  | .notCallable t => "`" ++ t ++ "` value is not callable"
  | .unpack expected actual =>
    "cannot unpack " ++ toString actual ++ " value(s) into " ++ toString expected ++ " target(s)"
  | .unconvertedClosure f => "function `" ++ f ++ "` was not closure-converted"
  | .recursionLimit n => "maximum call depth of " ++ toString n ++ " exceeded"
  | .outsideLoop word => "`" ++ word ++ "` outside a loop"
  | .unsupported what => what ++ " is not supported by the evaluator"

/-- Why evaluation stopped without an answer. -/
inductive Stop where
  /-- The program is at fault. -/
  | error (e : EvalError)
  /-- The evaluator ran out of fuel; nothing is known about the program. -/
  | outOfFuel
deriving DecidableEq

end FlatClosure

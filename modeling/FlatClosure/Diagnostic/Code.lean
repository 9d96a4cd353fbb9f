/-!
# Diagnostic codes

Every kind of problem has a code, a title and an explanation.
-/

namespace FlatClosure

/-- How bad a problem is. -/
inductive Severity where
  | warning
  | error
deriving DecidableEq, Inhabited

/-- The word for a severity. -/
def Severity.word : Severity → String
  | .warning => "warning"
  | .error => "error"

/-- A severity from its word. -/
def Severity.ofWord? : String → Option Severity
  | "warning" => some .warning
  | "error" => some .error
  | _ => none

/-- A kind of problem. -/
inductive Code where
  /-- A name read inside a closure is bound nowhere. -/
  | unresolvedIdentifier
  /-- A closure declared inside another closure. -/
  | nestedClosure
  | lambdaExpression
  /-- An assignment to a variable of the enclosing function. -/
  | capturedWrite
  /-- A closure declared inside a method. -/
  | closureInMethod
  /-- A tree that an earlier stage should have ruled out. -/
  | internalError
deriving DecidableEq, Inhabited

namespace Code

/-- All codes. -/
def all : List Code :=
  [.unresolvedIdentifier, .nestedClosure, .lambdaExpression, .capturedWrite, .closureInMethod,
    .internalError]

/-- The code as it is written. -/
def word : Code → String
  | .unresolvedIdentifier => "R001"
  | .nestedClosure => "U001"
  | .lambdaExpression => "U002"
  | .capturedWrite => "U003"
  | .closureInMethod => "U004"
  | .internalError => "I001"

/-- The code that a text writes; upper and lower case of ASCII letters are the same. -/
def ofWord? (s : String) : Option Code :=
  all.find? fun c => c.word.toList.map Char.toLower == s.toList.map Char.toLower

/-- The title of a kind of problem. -/
def title : Code → String
  | .unresolvedIdentifier => "Unresolved Identifier"
  | .nestedClosure => "Nested Closure"
  | .lambdaExpression => "Lambda Expression"
  | .capturedWrite => "Write to Captured Variable"
  | .closureInMethod => "Closure in Method"
  | .internalError => "Internal Compiler Error"

/-- How bad a kind of problem is, unless a diagnostic says otherwise. -/
def severity (_ : Code) : Severity := .error

/-- What a kind of problem means and what to do about it. -/
def explanation : Code → String
  | .unresolvedIdentifier =>
    "A closure reads a name that is not one of its own parameters or locals, " ++
      "not a parameter or local of the function that declares it, and not a " ++
      "global variable, function or class. Declare the variable in the " ++
      "enclosing function or at the top level."
  | .nestedClosure =>
    "Closures may only be declared directly inside a top-level function. " ++
      "A function declared inside a closure cannot be converted; move it to " ++
      "the enclosing function and pass what it needs explicitly."
  | .lambdaExpression =>
    "Lambda expressions are not supported. They are rejected in every " ++
      "top-level function, including functions that declare no closure, and " ++
      "in every closure body. Use a nested `def` instead."
  | .capturedWrite =>
    "Closures capture variables by value when they are created, so a " ++
      "closure cannot assign to a variable of its enclosing function. Keep " ++
      "the state in an object and mutate one of its fields instead."
  | .closureInMethod =>
    "Functions declared inside class methods are not supported. Declare the " ++
      "helper as a top-level function or as another method."
  | .internalError =>
    "The compiler reached a state that an earlier stage should have ruled " ++
      "out. This is a bug in the compiler, not in the program."

/-- A program that shows the problem. -/
def sample? : Code → Option String
  | .unresolvedIdentifier =>
    some "def f() -> int:\n    def g() -> int:\n        return missing\n    return g()"
  | .nestedClosure =>
    some ("def f() -> int:\n    def g() -> int:\n        def h() -> int:\n" ++
      "            return 1\n        return h()\n    return g()")
  | .lambdaExpression => some "f = lambda x: x + 1"
  | .capturedWrite =>
    some ("def counter() -> int:\n    n: int = 0\n    def bump() -> int:\n" ++
      "        n = n + 1\n        return n\n    return bump()")
  | .closureInMethod =>
    some ("class A(object):\n    def m(self: A) -> int:\n        def helper() -> int:\n" ++
      "            return 1\n        return helper()")
  | .internalError => none

/-- The codes of related problems. -/
def related : Code → List Code
  | .nestedClosure => [.closureInMethod]
  | .closureInMethod => [.nestedClosure]
  | _ => []

end Code

end FlatClosure

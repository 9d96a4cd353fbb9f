import FlatClosure.Conversion.Reads

/-!
# Fresh names

A fresh name is the first of a sequence of candidates that is not taken.  Among one more candidates
than there are taken names one is free, so the search need not look further.
-/

namespace FlatClosure

/-- The first number from `n` on whose candidate is free, looking at `tries` of them. -/
def searchFree (candidate : Nat → String) (taken : List String) : Nat → Nat → Nat
  | 0, n => n
  | tries + 1, n =>
    if candidate n ∈ taken then searchFree candidate taken tries (n + 1) else n

/-- The first number from `n` on whose candidate is free. -/
def firstFree (candidate : Nat → String) (taken : List String) (n : Nat) : Nat :=
  searchFree candidate taken taken.length n

/-- The class name with a number. -/
def className (start closure : String) (n : Nat) : String :=
  start ++ "_" ++ toString n ++ "_" ++ closure

/-- The base name with underscores behind it. -/
def underscored (base : String) (n : Nat) : String :=
  base ++ String.ofList (List.replicate n '_')

/-- The name of the receiver: the base name with as few underscores as keep it apart from what the
closure binds or mentions. -/
def freshReceiver (base : String) (closure : FunDef) (reads : Reads) : String :=
  let taken := reads.names.names ++ reads.bound ++ closure.binders
  underscored base (firstFree (underscored base) taken 0)

end FlatClosure

import FlatClosure.Syntax.Fold

/-!
# Numbered names

`numbered` marks every name that a block reads or writes with its number in the order of the walk
and with the variables whose scopes are open there.  It is the plainest rebuilding traversal and
shows the order and the scopes that every other one sees.  The traversal can be made to fail at a
given mark; the scopes open at that point are closed all the same.
-/

namespace FlatClosure

/-- The state of a numbering. -/
structure Numbering where
  /-- The number of marks so far. -/
  count : Nat := 0
  /-- The variables whose scopes are open, innermost first. -/
  opened : List String := []

/-- A numbering step; it fails with the mark at which it was told to stop. -/
abbrev NumberingM := ExceptT String (StateM Numbering)

/-- The open variables between brackets, outermost first. -/
def openText (opened : List String) : String := "[" ++ ",".intercalate opened.reverse ++ "]"

/-- Mark a name with the next number, or fail if that number is `stop`. -/
def markName (stop : Option Nat) (x : String) : NumberingM String := do
  let s ← get
  if stop = some s.count then throw (x ++ openText s.opened)
  else
    set { s with count := s.count + 1 }
    return x ++ "#" ++ toString s.count ++ openText s.opened

/-- A variable is put in front of the open ones where its scope begins, and taken away where it
ends. -/
def openedScopes : Scoping NumberingM where
  enter x := modify fun s => { s with opened := x :: s.opened }
  exit _ := modify fun s => { s with opened := s.opened.tail }

/-- The traversal that marks the names read and written. -/
def numberingFolder (stop : Option Nat) : Folder NumberingM where
  stmt _ := return none
  expr
    | .id x s => do
      let x ← markName stop x
      return some (.id x s)
    | _ => return none
  write := markName stop
  toScoping := openedScopes

/-- The block with its names marked, or the mark at which the traversal stopped; and the state at
the end. -/
def numbered (stop : Option Nat) (body : List Stmt) : Except String (List Stmt) × Numbering :=
  (Stmt.foldList (numberingFolder stop) body).run {}

end FlatClosure

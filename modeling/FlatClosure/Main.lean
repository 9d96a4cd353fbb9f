import FlatClosure.Command.Execute

/-!
# The command line program
-/

namespace FlatClosure

/-- Access to the files of the system. -/
def systemFiles : Files IO where
  present path := do
    try
      let _ ← IO.FS.Handle.mk path .read
      return true
    catch _ => return false
  read? path := do
    try return some (← IO.FS.readFile path)
    catch _ => return none
  write path text := do
    try
      IO.FS.writeFile path text
      return true
    catch _ => return false

/-- The fuel of evaluations: more than can be used up. -/
def ampleFuel : Nat := Nat.pow 10 18

end FlatClosure

/-- Do what the arguments ask for. -/
def main (args : List String) : IO UInt32 := do
  let o ← FlatClosure.commandLine FlatClosure.systemFiles FlatClosure.ampleFuel args
  (← IO.getStdout).putStr o.out
  (← IO.getStderr).putStr o.err
  return UInt32.ofNat o.exit

import FlatClosure.Source.File
import FlatClosure.Source.Path
import FlatClosure.Syntax.Span

/-!
# Registered source files

A `SourceCache` numbers the source files in the order in which they are first registered.  A path
that is registered again keeps its number and its first text.
-/

namespace FlatClosure

/-- The registered files; a file's number is its place. -/
structure SourceCache where
  files : List SourceFile := []
deriving Inhabited

/-- A resolved position: path, line and column. -/
structure Location where
  file : String
  line : UInt32
  column : UInt32

/-- The position as `path:line:column`. -/
def Location.render (l : Location) : String :=
  l.file ++ ":" ++ toString l.line ++ ":" ++ toString l.column

namespace SourceCache

/-- Register a file; the answer is its number. -/
def add (c : SourceCache) (path source : String) : SourceCache × Nat :=
  match c.files.findIdx? fun f => samePath f.path path with
  | some i => (c, i)
  | none => (⟨c.files ++ [⟨path, source⟩]⟩, c.files.length)

/-- The file of a number. -/
def file? (c : SourceCache) (i : Nat) : Option SourceFile := c.files[i]?

/-- The position at which a span starts, unless it is dummy or its file is unknown. -/
def location? (c : SourceCache) (s : Span) : Option Location :=
  if s.isDummy then none
  else
    (c.file? s.file.toNat).map fun f =>
      let (line, column) := f.lineColumn s.start
      ⟨f.path, line, column⟩

end SourceCache

end FlatClosure

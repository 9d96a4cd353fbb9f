import FlatClosure.Source.Path

/-!
# Files that a command reads and writes

A command sees files through `Files`, three operations in some monad.  `FileTree` holds files as a
value, and `FileTree.access` gives the operations on it.  Paths that do not start at the topmost
directory start at the working directory, which is empty but for the files given.  Of what lies
outside it only some devices are known.
-/

namespace FlatClosure

/-- Access to files. -/
structure Files (m : Type → Type) where
  /-- There is a file or a directory. -/
  present : String → m Bool
  /-- The text of a file, unless it cannot be read. -/
  read? : String → m (Option String)
  /-- Write a text to a file; the answer says whether that was possible. -/
  write : String → String → m Bool

/-- A file that is not kept anywhere. -/
inductive Device where
  /-- Empty, whatever is written to it. -/
  | null
  /-- The standard output. -/
  | out
  /-- The standard error output. -/
  | err
deriving DecidableEq

/-- Files by name, with their texts, and what was written to the output streams.  A name has one
part for each level below the topmost directory. -/
structure FileTree where
  files : List (List String × String) := []
  out : String := ""
  err : String := ""

namespace FileTree

/-- The parts of a name. -/
def parts (path : String) : List String := (splitSlashes path.toList).map String.ofList

/-- The name of the directory in which files can be made. -/
def openDirectory : List String := ["tmp"]

/-- The name of the working directory.  Its last part is none that a path can have: the directory
is only known as the one where paths start. -/
def workingName : List String := openDirectory ++ ["/"]

/-- The name of the directory of devices. -/
def deviceDirectory : List String := ["dev"]

/-- The device of a name.  Nothing comes in on the standard input. -/
def device? (name : List String) : Option Device :=
  [("null", .null), ("stdin", .null), ("stdout", .out), ("stderr", .err)].findSome?
    fun (part, device) => if name = deviceDirectory ++ [part] then some device else none

/-- Files in the working directory. -/
def ofList (files : List (String × String)) : FileTree where
  files := files.map fun (name, text) => (workingName ++ parts name, text)

/-- The files in the working directory, each with its name. -/
def toList (t : FileTree) : List (String × String) :=
  (t.files.filter fun (name, _) => workingName.isPrefixOf name).map fun (name, text) =>
    ("/".intercalate (name.drop workingName.length), text)

/-- There is a directory of that name. -/
def isDirectory (t : FileTree) (name : List String) : Bool :=
  name.isPrefixOf workingName || name == deviceDirectory ||
    t.files.any fun (n, _) => name.isPrefixOf n && n.length != name.length

/-- Go from a directory to what a part of a path names.  A part has at most 255 bytes, and above
the topmost directory is that directory itself. -/
def enter (t : FileTree) (name : List String) (part : String) : Option (List String) :=
  if !t.isDirectory name || 255 < part.utf8ByteSize then none
  else if part == "" || part == "." then some name
  else if part == ".." then some name.dropLast
  else some (name ++ [part])

/-- The name that a path of less than 4096 bytes stands for, which need not be that of a file. -/
def resolve (t : FileTree) (path : String) : Option (List String) :=
  if 4096 ≤ path.utf8ByteSize then none
  else (parts path).foldlM t.enter (if isAbsolute path then [] else workingName)

/-- The text of a file.  There is no end to reading an output stream. -/
def read? (t : FileTree) (path : String) : Option String :=
  (t.resolve path).bind fun name =>
    match device? name with
    | some .null => some ""
    | some _ => none
    | none => t.files.lookup name

/-- The file or directory exists. -/
def present (t : FileTree) (path : String) : Bool :=
  (t.resolve path).any fun name =>
    t.isDirectory name || (device? name).isSome || (t.files.lookup name).isSome

/-- The files with a text written under a name. -/
def setFile (name : List String) (text : String) :
    List (List String × String) → List (List String × String)
  | [] => [(name, text)]
  | (n, t) :: fs => if n = name then (n, text) :: fs else (n, t) :: setFile name text fs

/-- The tree with a text written to a file, unless that is not possible. -/
def write? (t : FileTree) (path text : String) : Option FileTree :=
  (t.resolve path).bind fun name =>
    match device? name with
    | some .null => some t
    | some .out => some { t with out := t.out ++ text }
    | some .err => some { t with err := t.err ++ text }
    | none =>
      if t.isDirectory name || !openDirectory.isPrefixOf name then none
      else some { t with files := setFile name text t.files }

/-- The files of the working directory that are new or have another text than before. -/
def changedSince (t before : FileTree) : List (String × String) :=
  { t with files := t.files.filter fun (n, s) => before.files.lookup n != some s }.toList

/-- Access to a tree that is kept as a state. -/
def access : Files (StateM FileTree) where
  present path := return (← get).present path
  read? path := return (← get).read? path
  write path text := do
    match (← get).write? path text with
    | some t =>
      set t
      return true
    | none => return false

end FileTree

end FlatClosure

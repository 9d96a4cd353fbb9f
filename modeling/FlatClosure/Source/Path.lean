/-!
# Paths

Two paths name the same file when they have the same components: repeated slashes, a slash at the
end, and a dot that is not the first component make no difference, while `..` does.
-/

namespace FlatClosure

/-- The characters between the slashes of a path. -/
def splitSlashes : List Char → List (List Char)
  | [] => [[]]
  | c :: cs =>
    if c = '/' then [] :: splitSlashes cs
    else
      match splitSlashes cs with
      | [] => [[c]]
      | p :: ps => (c :: p) :: ps

/-- The path starts at the root. -/
def isAbsolute (path : String) : Bool := path.toList.head? == some '/'

/-- The components of a path. -/
def pathComponents (path : String) : List String :=
  let parts := (splitSlashes path.toList).map String.ofList
  match parts with
  | [] => []
  | first :: rest =>
    let kept := rest.filter fun p => p != "" && p != "."
    if isAbsolute path then "/" :: kept
    else if first == "" then kept
    else first :: kept

/-- The paths name the same file. -/
def samePath (a b : String) : Bool := pathComponents a == pathComponents b

end FlatClosure

/-!
# Source files and positions in them

Offsets and columns count bytes of the UTF-8 text; lines and columns start at one, and all of them
are words of 32 bits.  A line ends with a newline character, which belongs to the line it ends.

* `SourceFile.lineStarts` is the table of the offsets at which the lines start.
* `SourceFile.lineColumn` looks an offset up in it; an offset behind the end counts as the end.
* `SourceFile.lineText?` gives the text of a line without its newline and without the carriage
  returns in front of it.
-/

namespace FlatClosure

/-- A source file: where it came from and its text. -/
structure SourceFile where
  path : String
  source : String
deriving Inhabited

/-! ### Tables in ascending order -/

/-- Look for a word between two places of an ascending table: the place where it stands, or else
the place where it would have to be inserted. -/
def search (xs : Array UInt32) (x : UInt32) (lo hi : Nat) (lo_le : lo ≤ hi) (hi_le : hi ≤ xs.size) :
    Except (Fin (xs.size + 1)) (Fin xs.size) :=
  if h : lo < hi then
    let mid := lo + (hi - lo) / 2
    have mid_lt : mid < hi := by omega
    if xs[mid] = x then .ok ⟨mid, by omega⟩
    else if xs[mid] < x then search xs x (mid + 1) hi (by omega) hi_le
    else search xs x lo mid (by omega) (by omega)
  else .error ⟨lo, by omega⟩
termination_by hi - lo

/-! ### Stretches of a text -/

/-- A text cut before a byte, which has to be the first one of a character or the end. -/
def cutAt? : Nat → List Char → Option (List Char × List Char)
  | 0, cs => some ([], cs)
  | _ + 1, [] => none
  | n + 1, c :: cs =>
    if c.utf8Size ≤ n + 1 then
      (cutAt? (n + 1 - c.utf8Size) cs).map fun (before, after) => (c :: before, after)
    else none

/-- The text from one byte up to another. -/
def stretch? (cs : List Char) (start stop : Nat) : Option (List Char) := do
  guard (start ≤ stop)
  let (_, rest) ← cutAt? start cs
  let (text, _) ← cutAt? (stop - start) rest
  return text

/-- The text without the copies of a character at its end. -/
def trimEndOf (c : Char) (cs : List Char) : List Char := (cs.reverse.dropWhile (· == c)).reverse

/-! ### Lines -/

/-- The offsets behind the newlines of a text that starts at offset `n`. -/
def lineStartsFrom (n : Nat) : List Char → List Nat
  | [] => []
  | c :: cs =>
    if c = '\n' then (n + 1) :: lineStartsFrom (n + 1) cs
    else lineStartsFrom (n + c.utf8Size) cs

namespace SourceFile

/-- The offsets at which the lines start. -/
def lineStarts (f : SourceFile) : Array UInt32 :=
  ((0 :: lineStartsFrom 0 f.source.toList).map UInt32.ofNat).toArray

theorem size_lineStarts_pos (f : SourceFile) : 0 < f.lineStarts.size := by simp [lineStarts]

/-- The place in the table of the line that an offset is in. -/
def lineIndex (f : SourceFile) (offset : UInt32) : Fin f.lineStarts.size :=
  match search f.lineStarts offset 0 f.lineStarts.size (Nat.zero_le _) (Nat.le_refl _) with
  | .ok i => i
  | .error i => ⟨i - 1, by have := f.size_lineStarts_pos; omega⟩

/-- The offset, or the end of the file if it is behind that. -/
def clamp (f : SourceFile) (offset : UInt32) : UInt32 :=
  min offset (UInt32.ofNat f.source.utf8ByteSize)

/-- Line and column of an offset. -/
def lineColumn (f : SourceFile) (offset : UInt32) : UInt32 × UInt32 :=
  let o := f.clamp offset
  let i := f.lineIndex o
  (UInt32.ofNat (i + 1), max (o - f.lineStarts[i] + 1) 1)

/-- The text of a line, without its end. -/
def lineText? (f : SourceFile) (line : UInt32) : Option String :=
  match line.toNat with
  | 0 => none
  | i + 1 => do
    let start ← f.lineStarts[i]?
    let stop := (f.lineStarts[i + 1]?.map UInt32.toNat).getD f.source.utf8ByteSize
    let text ← stretch? f.source.toList start.toNat stop
    return String.ofList (trimEndOf '\r' (trimEndOf '\n' text))

end SourceFile

end FlatClosure

/-!
# Edit scripts

An edit script turns one list into another by keeping, removing and adding elements.  `changes`
finds a shortest one.  There may be several, and it takes the following one.

* What both lists begin with and end with is kept.  The rest is divided where a search from the
  front and a search from the back meet (`meeting?`), and both parts are treated in the same way
  (`divide`).
* Then each addition is moved back as far as it goes and forth as far as it goes, and on its way
  it takes up the additions that it comes upon (`moveAdditions`).  An addition can move past an
  element that is kept when it ends, or begins, with the same element.
* Between two elements that are kept, removals come before additions (`arrange`).

A search goes in rounds.  After round `d` it knows for each diagonal how far along it `d` removals
and additions can get, where the diagonal of two positions is their difference.  A row of `d + 1`
positions in the first list, for the diagonals `d`, `d - 2`, …, `-d`, says so.
-/

namespace FlatClosure

/-- A step of an edit script.  Additions that are moved together are one step. -/
inductive Edit (α : Type) where
  | keep (a : α)
  | remove (a : α)
  | add (as : List α)

/-- What happens to an element. -/
inductive Change (α : Type) where
  | kept (a : α)
  | removed (a : α)
  | added (a : α)

namespace Edit

variable {α : Type} [DecidableEq α]

/-! ### Searches -/

/-- The number of elements that agree, from position `i` of `xs` and position `j` of `ys` on. -/
def agreeing (xs ys : Array α) (i j : Nat) : Nat :=
  if hi : i < xs.size then
    if hj : j < ys.size then
      if xs[i] = ys[j] then agreeing xs ys (i + 1) (j + 1) + 1 else 0
    else 0
  else 0
termination_by xs.size - i

/-- Where the diagonals between two others are entered, after a diagonal that leads to `a`: from
the neighbour that leads farther.  Coming from below removes an element. -/
def startsAfter : Nat → List Nat → List Nat
  | a, [] => [a]
  | a, b :: bs => (if b < a then a else b + 1) :: startsAfter b bs

/-- Where the diagonals of the next round are entered. -/
def nextStarts : List Nat → List Nat
  | [] => [0]
  | a :: as => (a + 1) :: startsAfter a as

/-- A part of a diagonal along which all elements agree, by positions in the first list. -/
structure Track where
  diagonal : Int
  start : Nat
  stop : Nat

/-- The position in the second list that belongs to one in the first. -/
def Track.across (t : Track) (i : Nat) : Nat := (i - t.diagonal).toNat

/-- The tracks of a round that is entered at the positions given. -/
def tracks (xs ys : Array α) (starts : List Nat) : List Track :=
  let first : Int := (starts.length - 1 : Nat)
  starts.zipIdx.map fun (i, index) =>
    let diagonal := first - 2 * (index : Int)
    ⟨diagonal, i, i + agreeing xs ys i (i - diagonal).toNat⟩

/-- How far a row leads on a diagonal. -/
def reach? (row : Array Nat) (diagonal : Int) : Option Nat :=
  let index := ((row.size - 1 : Nat) - diagonal) / 2
  if 0 ≤ index then row[index.toNat]? else none

/-- Where the search from the front of two lists and the search from their back meet.  The lists
are given in both directions, and of each search the row of the last round.  Only one of the
searches can come upon the other, which one depends on the lengths of the lists. -/
def meeting? (xs ys rxs rys : Array α) : Nat → List Nat → List Nat → Option (Nat × Nat)
  | 0, _, _ => none
  | rounds + 1, front, back =>
    let shift : Int := xs.size - ys.size
    let meets (row : Array Nat) (t : Track) : Bool :=
      (reach? row (shift - t.diagonal)).any fun i => xs.size ≤ t.stop + i
    let forth := tracks xs ys (nextStarts front)
    match if shift % 2 = 0 then none else forth.find? (meets back.toArray) with
    | some t => some (t.start, t.across t.start)
    | none =>
      let front := forth.map (·.stop)
      let home := tracks rxs rys (nextStarts back)
      match if shift % 2 = 0 then home.find? (meets front.toArray) else none with
      | some t => some (xs.size - t.stop, ys.size - t.across t.stop)
      | none => meeting? xs ys rxs rys rounds front (home.map (·.stop))

/-- Where to divide two lists. -/
def division? (xs ys : List α) : Option (Nat × Nat) :=
  meeting? xs.toArray ys.toArray xs.reverse.toArray ys.reverse.toArray
    ((xs.length + ys.length + 1) / 2 + 1) [] []

/-! ### Division -/

/-- What two lists begin with, and the rests. -/
def splitFront : List α → List α → List α × List α × List α
  | x :: xs, y :: ys =>
    if x = y then
      let (front, rests) := splitFront xs ys
      (x :: front, rests)
    else ([], x :: xs, y :: ys)
  | xs, ys => ([], xs, ys)

/-- What two lists end with, and the rests before it. -/
def splitBack (xs ys : List α) : List α × List α × List α :=
  let (back, xs, ys) := splitFront xs.reverse ys.reverse
  (back.reverse, xs.reverse, ys.reverse)

/-- Remove all of a list and add all of another. -/
def replace (xs ys : List α) : List (Edit α) := xs.map .remove ++ [.add ys]

/-- A script for two lists, divided to at most the given depth. -/
def divide : Nat → List α → List α → List (Edit α)
  | 0, xs, ys => replace xs ys
  | n + 1, xs, ys =>
    let (front, xs, ys) := splitFront xs ys
    let (back, xs, ys) := splitBack xs ys
    let middle :=
      match xs, ys with
      | [], [] => []
      | xs, [] => xs.map .remove
      | [], ys => [.add ys]
      | xs, ys =>
        match division? xs ys with
        | some (i, j) => divide n (xs.take i) (ys.take j) ++ divide n (xs.drop i) (ys.drop j)
        | none => replace xs ys
    front.map .keep ++ middle ++ back.map .keep

/-! ### Moving additions -/

/-- Move an addition back.  The steps before it come in reverse, and the steps after it in
order. -/
def moveBack : List (Edit α) → List α → List (Edit α) → List (Edit α) × List α × List (Edit α)
  | .keep a :: before, as, after =>
    if as.getLast? = some a then moveBack before (a :: as.dropLast) (.keep a :: after)
    else (.keep a :: before, as, after)
  | .remove a :: before, as, after => moveBack before as (.remove a :: after)
  | .add bs :: before, as, after => moveBack before (bs ++ as) after
  | [], as, after => ([], as, after)

/-- Move an addition forth. -/
def moveForth (before : List (Edit α)) (as : List α) :
    List (Edit α) → List (Edit α) × List α × List (Edit α)
  | .keep a :: after =>
    if as.head? = some a then moveForth (.keep a :: before) (as.tail ++ [a]) after
    else (before, as, .keep a :: after)
  | .remove a :: after => moveForth (.remove a :: before) as after
  | .add bs :: after => moveForth before (as ++ bs) after
  | [] => (before, as, [])

/-- Move each addition, the first one first, with fuel.  The steps that are done come in
reverse. -/
def moveAdditions : Nat → List (Edit α) → List (Edit α) → List (Edit α)
  | _, done, [] => done.reverse
  | 0, done, steps => done.reverse ++ steps
  | n + 1, done, .add as :: steps =>
    let (before, as, after) := moveBack done as steps
    let (before, as, after) := moveForth before as after
    moveAdditions n (.add as :: before) after
  | n + 1, done, step :: steps => moveAdditions n (step :: done) steps

/-! ### Scripts -/

/-- The changes of a script, given the additions that are to come after the removals at its
start. -/
def arrange (added : List α) : List (Edit α) → List (Change α)
  | .keep a :: steps => added.map .added ++ .kept a :: arrange [] steps
  | .remove a :: steps => .removed a :: arrange added steps
  | .add as :: steps => arrange (added ++ as) steps
  | [] => added.map .added

/-- The changes from a list to another.  A move takes up an addition for every time that it goes
over the same elements again, which bounds the moves. -/
def changes (xs ys : List α) : List (Change α) :=
  let size := xs.length + ys.length + 1
  arrange [] (moveAdditions (size * size) [] (divide size xs ys))

end Edit

end FlatClosure

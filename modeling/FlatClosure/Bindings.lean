/-!
# Bindings of names

`Bindings α` maps names to values and remembers the order in which the names were first bound.
Binding a name again keeps its place and replaces its value, so the last value wins.

The view is `get?`; `get?_insert_self` and `get?_insert_of_ne` say what a binding does to it, and
`erase_insert` and `insert_insert_get` say how a binding is undone.
-/

namespace FlatClosure

/-- Names bound to values, in the order of first binding. -/
structure Bindings (α : Type) where
  /-- The bound names with their values. -/
  entries : List (String × α) := []

namespace Bindings

variable {α : Type}

/-- No names at all. -/
def empty : Bindings α := ⟨[]⟩

instance : Inhabited (Bindings α) := ⟨empty⟩

/-- The value of a name. -/
def get? (b : Bindings α) (x : String) : Option α := b.entries.lookup x

/-- The name is bound. -/
def contains (b : Bindings α) (x : String) : Bool := (b.get? x).isSome

/-- The bound names, in order. -/
def names (b : Bindings α) : List String := b.entries.map Prod.fst

/-- Replace the value of `x` where it stands, or add `x` at the end. -/
def insertEntry (x : String) (v : α) : List (String × α) → List (String × α)
  | [] => [(x, v)]
  | (y, w) :: es => if x = y then (x, v) :: es else (y, w) :: insertEntry x v es

/-- Take the entries of `x` out. -/
def eraseEntry (x : String) : List (String × α) → List (String × α)
  | [] => []
  | (y, w) :: es => if x = y then eraseEntry x es else (y, w) :: eraseEntry x es

/-- Bind `x` to `v`: in its place if it is bound, else as the last name. -/
def insert (b : Bindings α) (x : String) (v : α) : Bindings α := ⟨insertEntry x v b.entries⟩

/-- Remove the binding of `x`. -/
def erase (b : Bindings α) (x : String) : Bindings α := ⟨eraseEntry x b.entries⟩

/-- Bind pairs one after the other. -/
def insertAll (b : Bindings α) (ps : List (String × α)) : Bindings α :=
  ps.foldl (fun b p => b.insert p.1 p.2) b

/-- The bindings of a list of pairs: first places, last values. -/
def ofList (ps : List (String × α)) : Bindings α := empty.insertAll ps

theorem lookup_insertEntry_self (x : String) (v : α) (es : List (String × α)) :
    (insertEntry x v es).lookup x = some v := by
  induction es with
  | nil => simp [insertEntry]
  | cons e es ih =>
    obtain ⟨y, w⟩ := e
    by_cases h : x = y
    · simp [insertEntry, h]
    · have : (x == y) = false := by simpa using h
      simp [insertEntry, h, List.lookup_cons, this, ih]

theorem lookup_insertEntry_of_ne {x z : String} (h : z ≠ x) (v : α) (es : List (String × α)) :
    (insertEntry x v es).lookup z = es.lookup z := by
  have hz : (z == x) = false := by simpa using h
  induction es with
  | nil => simp [insertEntry, List.lookup_cons, hz]
  | cons e es ih =>
    obtain ⟨y, w⟩ := e
    by_cases hx : x = y
    · subst hx
      simp [insertEntry, List.lookup_cons, hz]
    · simp [insertEntry, hx, List.lookup_cons, ih]

@[simp] theorem get?_insert_self (b : Bindings α) (x : String) (v : α) :
    (b.insert x v).get? x = some v := lookup_insertEntry_self x v b.entries

theorem get?_insert_of_ne (b : Bindings α) {x z : String} (h : z ≠ x) (v : α) :
    (b.insert x v).get? z = b.get? z := lookup_insertEntry_of_ne h v b.entries

theorem eraseEntry_insertEntry {x : String} {es : List (String × α)} (h : es.lookup x = none)
    (v : α) : eraseEntry x (insertEntry x v es) = es := by
  induction es with
  | nil => simp [insertEntry, eraseEntry]
  | cons e es ih =>
    obtain ⟨y, w⟩ := e
    by_cases hx : x = y
    · simp [hx] at h
    · have hb : (x == y) = false := by simpa using hx
      rw [List.lookup_cons, hb] at h
      simp [insertEntry, eraseEntry, hx, ih h]

theorem insertEntry_insertEntry {x : String} {es : List (String × α)} {u : α}
    (h : es.lookup x = some u) (v : α) : insertEntry x u (insertEntry x v es) = es := by
  induction es with
  | nil => simp at h
  | cons e es ih =>
    obtain ⟨y, w⟩ := e
    by_cases hx : x = y
    · subst hx
      have : w = u := by simpa [List.lookup_cons] using h
      simp [insertEntry, this]
    · have hb : (x == y) = false := by simpa using hx
      rw [List.lookup_cons, hb] at h
      simp [insertEntry, hx, ih h]

/-- Erasing a new name undoes its binding. -/
theorem erase_insert {b : Bindings α} {x : String} (h : b.get? x = none) (v : α) :
    (b.insert x v).erase x = b := by
  obtain ⟨es⟩ := b
  exact congrArg Bindings.mk (eraseEntry_insertEntry h v)

/-- Binding a name to its old value again undoes a binding in between. -/
theorem insert_insert_get {b : Bindings α} {x : String} {u : α} (h : b.get? x = some u) (v : α) :
    (b.insert x v).insert x u = b := by
  obtain ⟨es⟩ := b
  exact congrArg Bindings.mk (insertEntry_insertEntry h v)

end Bindings

end FlatClosure

import FlatClosure.Proofs.Isolation

/-!
# Reading and assigning variables

A variable is in one of two places: it belongs to the innermost call, or it is global.  `Holds` says
which variable a name means: that of the innermost call, unless the call has declared the name
global or has no such variable; then the global one.  Reading a name, asking whether it is a
variable, and assigning to it each look at the two places in a way of their own.

* `Machine.holds_store_self`, `Machine.holds_store_of_ne` : what names mean after an assignment.
* `variables_coherent` : **the three agree.**  What was assigned is read back, all other names keep
  their meaning, and a name is a variable exactly when reading it gives the value of one.
-/

namespace FlatClosure

/-! ### What a name means -/

/-- The two places that variables are in. -/
inductive Place
  | call
  | global

namespace Machine

/-- The variable that a name means: its place and its value. -/
inductive Holds (s : Machine) (x : String) : Place → Value → Prop
  | call {f : Frame} {fs : List Frame} {v : Value} (frames : s.frames = f :: fs)
      (own : x ∉ f.globals) (value : f.vars.get? x = some v) : Holds s x .call v
  | global {v : Value}
      (unhidden : ∀ f fs, s.frames = f :: fs → x ∈ f.globals ∨ f.vars.get? x = none)
      (value : s.globals.get? x = some v) : Holds s x .global v

variable {s : Machine} {x y : String} {v : Value}

theorem own?_eq_none_iff :
    s.own? x = none ↔ ∀ f fs, s.frames = f :: fs → x ∈ f.globals ∨ f.vars.get? x = none := by
  rw [own?]
  cases s.frames with
  | nil => simp
  | cons f fs =>
    rw [List.head?_cons, Option.bind_some, Frame.get?_eq_none_iff]
    constructor
    · intro h g gs same
      cases same
      exact h
    · intro h
      exact h f fs rfl

theorem holds_call_iff : s.Holds x .call v ↔ s.own? x = some v := by
  constructor
  · intro h
    cases h with
    | call frames own value =>
      rw [own?, frames, List.head?_cons, Option.bind_some, Frame.get?_eq_some_iff]
      exact ⟨own, value⟩
  · intro h
    cases hs : s.frames with
    | nil => simp [own?, hs] at h
    | cons f fs =>
      rw [own?, hs, List.head?_cons, Option.bind_some, Frame.get?_eq_some_iff] at h
      exact .call hs h.1 h.2

theorem holds_global_iff :
    s.Holds x .global v ↔ s.own? x = none ∧ s.globals.get? x = some v := by
  rw [own?_eq_none_iff]
  constructor
  · intro h
    cases h with
    | global unhidden value => exact ⟨unhidden, value⟩
  · rintro ⟨unhidden, value⟩
    exact .global unhidden value

/-- The two places together. -/
theorem exists_holds_iff :
    (∃ place, s.Holds x place v) ↔ (s.own? x).or (s.globals.get? x) = some v := by
  constructor
  · rintro ⟨place, h⟩
    cases place with
    | call => rw [holds_call_iff.1 h, Option.some_or]
    | global => rw [(holds_global_iff.1 h).1, Option.none_or, (holds_global_iff.1 h).2]
  · intro h
    cases own : s.own? x with
    | some w =>
      rw [own, Option.some_or] at h
      exact ⟨.call, holds_call_iff.2 (own.trans h)⟩
    | none =>
      rw [own, Option.none_or] at h
      exact ⟨.global, holds_global_iff.2 ⟨own, h⟩⟩

theorem isVariable_iff : s.isVariable x = true ↔ ∃ place v, s.Holds x place v := by
  rw [isVariable_eq, Option.isSome_iff_exists, exists_comm]
  exact exists_congr fun v => exists_holds_iff.symm

theorem Holds.lookup? {place : Place} (h : s.Holds x place v) (p : Program) :
    s.lookup? p x = some v := by
  rw [lookup?_eq, exists_holds_iff.1 ⟨place, h⟩, Option.some_or]

/-! ### Assignments -/

/-- What was assigned is the value of the variable that the name means, and if the name was a
variable before, it is in the place where it was. -/
theorem holds_store_self (s : Machine) (x : String) (v : Value) :
    ∃ place, (s.store x v).Holds x place v ∧ ∀ old w, s.Holds x old w → old = place := by
  obtain ⟨f, fs, hs, own, stored, onlyOwn⟩ | ⟨unseen, stored⟩ := s.store_cases x v
  · refine ⟨.call, ?_, fun old w h => ?_⟩
    · rw [stored, holds_call_iff, own?_set hs own, if_pos rfl]
    · cases old with
      | call => rfl
      | global =>
        obtain ⟨unseen, value⟩ := holds_global_iff.1 h
        cases value.symm.trans (onlyOwn unseen)
  · refine ⟨.global, ?_, fun old w h => ?_⟩
    · rw [stored, holds_global_iff]
      exact ⟨unseen, Bindings.get?_insert_self _ _ _⟩
    · cases old with
      | global => rfl
      | call => cases unseen.symm.trans (holds_call_iff.1 h)

/-- All other names mean what they meant, place and value. -/
theorem holds_store_of_ne (s : Machine) (h : y ≠ x) (v : Value) (place : Place) (w : Value) :
    (s.store x v).Holds y place w ↔ s.Holds y place w := by
  have same := s.store_of_ne h v
  cases place with
  | call => rw [holds_call_iff, holds_call_iff, same.1]
  | global => rw [holds_global_iff, holds_global_iff, same.1, same.2]

end Machine

/-! ### Agreement -/

/-- What a name is read as if it is no variable: a function of the program, or an error. -/
def unboundName (p : Program) (x : String) : Except Stop Value :=
  if (p.function? x).isSome then .ok (.function x) else .error (.error (.undefinedVariable x))

theorem run_readName_of_isVariable {k : Calls} {s : Machine} {x : String}
    (h : s.isVariable x = false) : (readName k x).run s = (unboundName k.ctx.program x, s) := by
  rw [readName_run, lookup?_of_isVariable h, unboundName]
  split <;> rfl

/-- **Reading, assigning and asking agree on variables.**  A name that is assigned to is a variable
with that value, in the place where it was one before if it was.  All other names are read as before
and mean the same variables, and the calls below the innermost one stay as they are.  A name is a
variable exactly when reading it gives the value of the variable that it means; otherwise it means
none, and is read as a function or not at all. -/
theorem variables_coherent (k : Calls) (s : Machine) (x : String) (v : Value) :
    (readName k x).run (s.store x v) = (.ok v, s.store x v) ∧
      (s.store x v).isVariable x = true ∧
      (∃ place, (s.store x v).Holds x place v ∧ ∀ old w, s.Holds x old w → old = place) ∧
      (∀ y, y ≠ x →
        ((readName k y).run (s.store x v)).1 = ((readName k y).run s).1 ∧
        ∀ place w, (s.store x v).Holds y place w ↔ s.Holds y place w) ∧
      ((s.store x v).frames.tail = s.frames.tail ∧
        (s.store x v).frames.length = s.frames.length) ∧
      ∀ y,
        (s.isVariable y = true ↔
          ∃ place w, s.Holds y place w ∧ (readName k y).run s = (.ok w, s)) ∧
        (s.isVariable y = false ↔
          (∀ place w, ¬ s.Holds y place w) ∧
            (readName k y).run s = (unboundName k.ctx.program y, s)) := by
  obtain ⟨place, holds, kept⟩ := s.holds_store_self x v
  refine ⟨readName_run_eq_ok.2 ⟨holds.lookup? _, rfl⟩, Machine.isVariable_iff.2 ⟨place, v, holds⟩,
    ⟨place, holds, kept⟩, fun y hy => ⟨?_, s.holds_store_of_ne hy v⟩,
    (OnTop.store x v).frames s, fun y => ⟨?_, ?_⟩⟩
  · rw [readName_run, readName_run, lookup?_store_of_ne _ s hy]
  · rw [Machine.isVariable_iff]
    constructor
    · rintro ⟨place, w, h⟩
      exact ⟨place, w, h, readName_run_eq_ok.2 ⟨h.lookup? _, rfl⟩⟩
    · rintro ⟨place, w, h, -⟩
      exact ⟨place, w, h⟩
  · rw [← Bool.not_eq_true, Machine.isVariable_iff]
    constructor
    · intro unheld
      refine ⟨fun place w h => unheld ⟨place, w, h⟩, run_readName_of_isVariable ?_⟩
      rwa [← Bool.not_eq_true, Machine.isVariable_iff]
    · rintro ⟨unheld, -⟩ ⟨place, w, h⟩
      exact unheld place w h

end FlatClosure

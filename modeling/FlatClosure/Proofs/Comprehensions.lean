import FlatClosure.Proofs.Effects

/-!
# Comprehension variables

A comprehension puts its variable among the variables of the innermost call, or among the global
variables if no call is open, and takes it away at the end.  Reading a name does not look at the
variables of a call that has declared the name global.  So a comprehension variable denotes the
current item if and only if the innermost call has not declared its name global.

* `lookup?_shadow` : what the name of a comprehension variable denotes.
* `run_gatherShadowing_of_step` : a comprehension whose step changes nothing goes through the items
  in order and leaves everything as it was.
* `comprehension_over_variable` : **what `[x for x in e]` and `[x for x in e if x]` give.**
* `declared_variable_unbound` : in a call that has declared `x` global, the items are lost.
-/

namespace FlatClosure

/-! ### The variable -/

/-- The innermost call has declared the name global. -/
def Machine.hasDeclared (s : Machine) (x : String) : Bool := s.frames.head?.any (·.isGlobal x)

section Variable

variable {s : Machine} {x : String} {v : Value}

theorem heap_shadow : (s.shadow x v).heap = s.heap := by
  unfold Machine.shadow
  split <;> rfl

/-- A comprehension variable denotes its item, unless the call has declared its name global. -/
theorem lookup?_shadow (p : Program) :
    (s.shadow x v).lookup? p x = if s.hasDeclared x then s.lookup? p x else some v := by
  cases hs : s.frames with
  | nil =>
    have undeclared : s.hasDeclared x = false := by simp [Machine.hasDeclared, hs]
    simp [Machine.shadow, Machine.lookup?, hs, undeclared, Bindings.get?_insert_self]
  | cons f fs =>
    have declared : s.hasDeclared x = f.isGlobal x := by simp [Machine.hasDeclared, hs]
    have own : (f.set x v).get? x = if f.isGlobal x then none else some v := by
      show (if f.isGlobal x then none else (f.vars.insert x v).get? x) = _
      rw [Bindings.get?_insert_self]
    rw [declared]
    by_cases hf : f.isGlobal x = true
    · have hidden : f.get? x = none := if_pos hf
      simp [Machine.shadow, Machine.lookup?, hs, own, hf, hidden]
    · simp [Machine.shadow, Machine.lookup?, hs, own, hf]

/-- Taking the variable away gives the state back as it was. -/
theorem restore_shadow : (s.shadow x v).restore x (s.hidden? x) = s := by
  obtain ⟨heap, globals, frames, output, ready⟩ := s
  cases frames with
  | nil =>
    cases hx : globals.get? x with
    | none =>
      simp only [Machine.shadow, Machine.restore, Machine.hidden?, hx, Bindings.erase_insert hx]
    | some u =>
      simp only [Machine.shadow, Machine.restore, Machine.hidden?, hx,
        Bindings.insert_insert_get hx]
  | cons f fs => simp only [Machine.shadow, Machine.restore, Machine.hidden?, Frame.restore_set]

end Variable

/-! ### Going through the items -/

section Items

variable {s : Machine} {x : String} {step : EvalM (Option Value)}

/-- If the step changes nothing, then only the variable has changed at the end. -/
theorem run_gather_of_step {r : Value → Option Value} (v : Value) (vs : List Value)
    (h : ∀ w ∈ v :: vs, step.run (s.shadow x w) = (.ok (r w), s.shadow x w)) :
    ∃ w, (gather x step (v :: vs)).run s = (.ok ((v :: vs).filterMap r), s.shadow x w) := by
  have first := h v (by simp)
  induction vs generalizing v s with
  | nil =>
    refine ⟨v, ?_⟩
    rw [gather, run_modify_bind, run_bind_of_ok first]
    cases hr : r v <;> simp [hr] <;> rfl
  | cons v' vs ih =>
    have again : ∀ w ∈ v' :: vs, step.run ((s.shadow x v).shadow x w) =
        (.ok (r w), (s.shadow x v).shadow x w) := by
      intro w hw
      rw [shadow_shadow]
      exact h w (List.mem_cons_of_mem _ hw)
    obtain ⟨w, rest⟩ := ih v' again (again v' (by simp))
    rw [shadow_shadow] at rest
    refine ⟨w, ?_⟩
    rw [gather, run_modify_bind, run_bind_of_ok first, run_bind_of_ok rest]
    cases hr : r v <;> simp [List.filterMap_cons, hr] <;> rfl

theorem run_gatherShadowing_of_step {r : Value → Option Value} (items : List Value)
    (h : ∀ w ∈ items, step.run (s.shadow x w) = (.ok (r w), s.shadow x w)) :
    (gatherShadowing x step items).run s = (.ok (items.filterMap r), s) := by
  cases items with
  | nil => rfl
  | cons v vs =>
    obtain ⟨w, run⟩ := run_gather_of_step v vs h
    rw [run_gatherShadowing, run, restore_shadow]

/-- A step that fails for the first item ends the comprehension, and the variable is gone. -/
theorem run_gatherShadowing_of_fail {e : Stop} (v : Value) (vs : List Value)
    (h : step.run (s.shadow x v) = (.error e, s.shadow x v)) :
    (gatherShadowing x step (v :: vs)).run s = (.error e, s) := by
  have run : (gather x step (v :: vs)).run s = (.error e, s.shadow x v) := by
    rw [gather, run_modify_bind, run_bind, h]
  rw [run_gatherShadowing, run, restore_shadow]

/-- The items of a value that can be iterated over. -/
inductive Iterates (h : Heap) : Value → List Value → Prop
  | list (ref : Nat) : Iterates h (.list ref) (h.items ref)
  | tuple (items : List Value) : Iterates h (.tuple items) items
  | str (text : String) : Iterates h (.str text) (text.toList.map fun c => .str c.toString)

theorem Iterates.run_itemsOf {v : Value} {items : List Value} (h : Iterates s.heap v items)
    (operation : String) : (itemsOf v operation).run s = (.ok items, s) := by
  cases h <;> rfl

end Items

/-! ### Lists of items -/

/-- The outcome is a new list with these items, and nothing else of the state has changed. -/
structure MakesList (t : Machine) (items : List Value) (out : Except Stop Value × Machine) :
    Prop where
  value : out.1 = .ok (.list t.heap.lists.size)
  items_eq : out.2.heap.items t.heap.lists.size = items
  kept : ∀ ref < t.heap.lists.size, out.2.heap.items ref = t.heap.items ref
  rest : out.2 = { t with heap := { t.heap with lists := out.2.heap.lists } }

theorem makesList_newList (t : Machine) (items : List Value) :
    MakesList t items ((newList items).run t) where
  value := rfl
  items_eq := by
    show (t.heap.pushList items).items t.heap.lists.size = items
    simp [Heap.items, Heap.pushList]
  kept ref h := by
    show (t.heap.pushList items).items ref = t.heap.items ref
    simp [Heap.items, Heap.pushList, Array.getElem?_push, Nat.ne_of_lt h]
  rest := rfl

section Comprehension

variable {k : Calls} {s t : Machine} {e elem : Expr} {c : Option Expr} {v : Value}
  {items : List Value} {x : String}

/-- A comprehension whose step changes nothing. -/
theorem makesList_comprehension {r : Value → Option Value} (he : (e.eval k).run s = (.ok v, t))
    (hi : Iterates t.heap v items)
    (h : ∀ w ∈ items, (comprehend k c elem).run (t.shadow x w) = (.ok (r w), t.shadow x w)) :
    MakesList t (items.filterMap r) (((Expr.comprehension .list elem x e c).eval k).run s) := by
  have run : ((Expr.comprehension .list elem x e c).eval k).run s =
      (newList (items.filterMap r)).run t := by
    rw [Expr.eval, run_bind_of_ok he, run_bind_of_ok (hi.run_itemsOf _)]
    exact run_bind_of_ok (run_gatherShadowing_of_step items h)
  rw [run]
  exact makesList_newList t _

/-- A comprehension whose step fails for the first item. -/
theorem run_comprehension_of_fail {stop : Stop} (he : (e.eval k).run s = (.ok v, t))
    (hi : Iterates t.heap v items) (hne : items ≠ [])
    (h : ∀ w, (comprehend k c elem).run (t.shadow x w) = (.error stop, t.shadow x w)) :
    ((Expr.comprehension .list elem x e c).eval k).run s = (.error stop, t) := by
  obtain ⟨w, ws, rfl⟩ := List.exists_cons_of_ne_nil hne
  rw [Expr.eval, run_bind_of_ok he, run_bind_of_ok (hi.run_itemsOf _), run_bind]
  have stops := run_gatherShadowing_of_fail w ws (h w)
  unfold comprehend at stops
  rw [stops]

end Comprehension

/-! ### The variable as the element -/

section Element

variable {k : Calls} {s : Machine} {x : String}

theorem run_comprehend_variable {v : Value} (h : s.lookup? k.ctx.program x = some v)
    (sp : Span) : (comprehend k none (.id x sp)).run s = (.ok (some v), s) := by
  have read : ((Expr.id x sp).eval k).run s = (.ok v, s) := readName_run_eq_ok.2 ⟨h, rfl⟩
  show ((Expr.id x sp).eval k >>= fun v => pure (some v)).run s = _
  rw [run_bind_of_ok read]
  rfl

theorem run_comprehend_guarded {v : Value} (h : s.lookup? k.ctx.program x = some v)
    (sp sp' : Span) :
    (comprehend k (some (.id x sp')) (.id x sp)).run s =
      (.ok (if v.truthy s.heap then some v else none), s) := by
  have read (sp : Span) : ((Expr.id x sp).eval k).run s = (.ok v, s) :=
    readName_run_eq_ok.2 ⟨h, rfl⟩
  have test : (Expr.holds k (some (.id x sp'))).run s = (.ok (v.truthy s.heap), s) := by
    rw [Expr.holds, run_bind_of_ok (read sp')]
    rfl
  rw [comprehend, run_bind_of_ok test]
  by_cases hv : v.truthy s.heap = true
  · rw [if_pos hv, if_pos hv, run_bind_of_ok (read sp)]
    rfl
  · rw [if_neg hv, if_neg hv]
    rfl

theorem run_comprehend_undefined (h : s.lookup? k.ctx.program x = none) (sp sp' : Span) :
    (comprehend k none (.id x sp)).run s = (.error (.error (.undefinedVariable x)), s) ∧
      (comprehend k (some (.id x sp')) (.id x sp)).run s =
        (.error (.error (.undefinedVariable x)), s) := by
  have read (sp : Span) :
      ((Expr.id x sp).eval k).run s = (.error (.error (.undefinedVariable x)), s) := by
    rw [Expr.eval, readName_run, h]
    rfl
  constructor
  · show ((Expr.id x sp).eval k >>= fun v => pure (some v)).run s = _
    rw [run_bind, read]
  · have test : (Expr.holds k (some (.id x sp'))).run s =
        (.error (.error (.undefinedVariable x)), s) := by
      rw [Expr.holds, run_bind, read]
    rw [comprehend, run_bind, test]

end Element

/-- Keeping the truthy ones among the values that the items give. -/
theorem filterMap_truthy (h : Heap) (f : Value → Value) (items : List Value) :
    items.filterMap (fun w => if (f w).truthy h then some (f w) else none) =
      (items.map f).filter (·.truthy h) := by
  induction items with
  | nil => rfl
  | cons w ws ih => by_cases hw : (f w).truthy h = true <;> simp [hw, ih]

/-- Both comprehensions, if the variable denotes `f w` while it stands for the item `w`. -/
theorem makesList_of_lookup? {k : Calls} {s t : Machine} {e : Expr} {v : Value}
    {items : List Value} {x : String} {f : Value → Value} (he : (e.eval k).run s = (.ok v, t))
    (hi : Iterates t.heap v items)
    (hf : ∀ w ∈ items, (t.shadow x w).lookup? k.ctx.program x = some (f w)) (sp sp' : Span) :
    MakesList t (items.map f) (((Expr.comprehension .list (.id x sp) x e none).eval k).run s) ∧
      MakesList t ((items.map f).filter (·.truthy t.heap))
        (((Expr.comprehension .list (.id x sp) x e (some (.id x sp'))).eval k).run s) := by
  constructor
  · rw [← List.filterMap_eq_map]
    exact makesList_comprehension he hi fun w hw => run_comprehend_variable (hf w hw) sp
  · rw [← filterMap_truthy]
    refine makesList_comprehension he hi fun w hw => ?_
    rw [run_comprehend_guarded (hf w hw), heap_shadow]

theorem hasDeclared_eval {ctx : Context} {fuel : Nat} {s t : Machine} {e : Expr} {v : Value}
    (he : (ctx.eval fuel e).run s = (.ok v, t)) (x : String) :
    t.hasDeclared x = s.hasDeclared x := by
  have calm : Along Calm (ctx.eval fuel e) :=
    (calm_evalLaw ctx.program fun _ => True).eval (ctx.calls_calm fuel) e fun _ _ => trivial
  have frames := (calm s).1
  rw [he] at frames
  rw [Machine.hasDeclared, Machine.hasDeclared, frames]

/-- **The variable of a comprehension.**  Let `e` evaluate to a value with the given items.  Then
`[x for x in e]` makes a new list with exactly these items, and `[x for x in e if x]` one with those
that are truthy, unless the innermost call has declared `x` global.  If it has, then `x` denotes the
same for every item, namely what it denotes without the comprehension; if that is nothing, then both
fail as soon as there is an item. -/
theorem comprehension_over_variable {ctx : Context} {fuel : Nat} {s t : Machine} {e : Expr}
    {v : Value} {items : List Value} (he : (ctx.eval fuel e).run s = (.ok v, t))
    (hi : Iterates t.heap v items) (x : String) (sp sp' : Span) :
    (s.hasDeclared x = false →
      MakesList t items
          ((ctx.eval fuel (.comprehension .list (.id x sp) x e none)).run s) ∧
        MakesList t (items.filter (·.truthy t.heap))
          ((ctx.eval fuel (.comprehension .list (.id x sp) x e (some (.id x sp')))).run s)) ∧
    (s.hasDeclared x = true →
      (∀ g, (items ≠ [] → t.lookup? ctx.program x = some g) →
        MakesList t (items.map fun _ => g)
            ((ctx.eval fuel (.comprehension .list (.id x sp) x e none)).run s) ∧
          MakesList t ((items.map fun _ => g).filter (·.truthy t.heap))
            ((ctx.eval fuel (.comprehension .list (.id x sp) x e (some (.id x sp')))).run s)) ∧
      (items ≠ [] → t.lookup? ctx.program x = none →
        (ctx.eval fuel (.comprehension .list (.id x sp) x e none)).run s =
            (.error (.error (.undefinedVariable x)), t) ∧
          (ctx.eval fuel (.comprehension .list (.id x sp) x e (some (.id x sp')))).run s =
            (.error (.error (.undefinedVariable x)), t))) := by
  have denotes (w : Value) : (t.shadow x w).lookup? (ctx.calls fuel).ctx.program x =
      if s.hasDeclared x then t.lookup? ctx.program x else some w := by
    rw [lookup?_shadow, hasDeclared_eval he]
    rfl
  constructor
  · intro hx
    have item (w : Value) (_ : w ∈ items) :
        (t.shadow x w).lookup? (ctx.calls fuel).ctx.program x = some (id w) := by
      rw [denotes, hx]
      rfl
    have both := makesList_of_lookup? he hi item sp sp'
    rwa [List.map_id] at both
  · intro hx
    refine ⟨fun g hg => ?_, fun hne hnone => ?_⟩
    · refine makesList_of_lookup? he hi (fun w hw => ?_) sp sp'
      rw [denotes, if_pos hx]
      exact hg (List.ne_nil_of_mem hw)
    · have undefined (w : Value) :
          (t.shadow x w).lookup? (ctx.calls fuel).ctx.program x = none := by
        rw [denotes, if_pos hx, hnone]
      exact ⟨run_comprehension_of_fail he hi hne fun w =>
          (run_comprehend_undefined (undefined w) sp sp').1,
        run_comprehension_of_fail he hi hne fun w =>
          (run_comprehend_undefined (undefined w) sp sp').2⟩

/-- The list `[1, 0]`. -/
def oneZero : Expr := .list [.literal (.num 1), .literal (.num 0)]

/-- The list `[x for x in [1, 0]]`. -/
def copyOneZero : Expr := .comprehension .list (.id "x" .dummy) "x" oneZero none

/-- A function that declares `x` global and copies a list with a comprehension over `x`, `x = 7; def
f(): global x; return [x for x in [1, 0]]`. -/
def declaresX : Program where
  inits := [⟨"x", .int, .num 7⟩]
  funs :=
    [{ name := "f", params := [], ret := .list .int, inits := []
       body := [.global "x", .ret (some copyOneZero)]
       span := .dummy }]
  stmts := [.expr (.builtin1 "print" (.call (.id "f" .dummy) []))]

/-- An open call that has a variable `x` of its own and has declared the given names global. -/
def openCall (declared : List String) : Machine where
  globals := .ofList [("x", .int 7)]
  frames := [{ vars := .ofList [("x", .int 3)], globals := declared }]

theorem comprehension_over_variable_oneZero :
    let out (declared : List String) (c : Option Expr) := (Context.eval ⟨declaresX, {}, 3⟩ 1
      (.comprehension .list (.id "x" .dummy) "x" oneZero c)).run (openCall declared)
    (out [] none).2.heap.items 1 = [.int 1, .int 0] ∧
      (out [] (some (.id "x" .dummy))).2.heap.items 1 = [.int 1] ∧
      (out ["x"] none).2.heap.items 1 = [.int 7, .int 7] := by
  have items (h : Heap) (hh : h.items 0 = [.int 1, .int 0]) :
      Iterates h (.list 0) [.int 1, .int 0] := hh ▸ .list 0
  have makes (declared : List String) :
      (Context.eval ⟨declaresX, {}, 3⟩ 1 oneZero).run (openCall declared) = (.ok (.list 0), _) :=
    rfl
  obtain ⟨all, truthy⟩ :=
    (comprehension_over_variable (makes []) (items _ rfl) "x" .dummy .dummy).1 (by decide)
  obtain ⟨same, -⟩ := ((comprehension_over_variable (makes ["x"]) (items _ rfl) "x" .dummy
    .dummy).2 (by decide)).1 (.int 7) fun _ => rfl
  exact ⟨all.items_eq, truthy.items_eq.trans rfl, same.items_eq⟩

theorem declared_variable_unbound :
    ∃ s t : Machine, (Context.eval ⟨declaresX, {}, 3⟩ 1 oneZero).run s = (.ok (.list 0), t) ∧
      Iterates t.heap (.list 0) [.int 1, .int 0] ∧
      ¬ MakesList t [.int 1, .int 0] ((Context.eval ⟨declaresX, {}, 3⟩ 1 copyOneZero).run s) ∧
      (Context.run ⟨declaresX, {}, 3⟩ 4).toOption = some "[7, 7]\n" := by
  refine ⟨openCall ["x"], _, rfl, .list 0, fun h => ?_, by decide +kernel⟩
  have sevens : [Value.int 7, .int 7] = [.int 1, .int 0] := h.items_eq
  simp at sevens

end FlatClosure

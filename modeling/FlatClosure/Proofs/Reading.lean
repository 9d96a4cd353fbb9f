import FlatClosure.Conversion.Reads
import FlatClosure.Proofs.Collect

/-!
# What the reads of a closure are

`collectReads` runs through the events of a body with a scope at hand.  Here its answer is given in
terms of the lists of `FlatClosure.Proofs.Collect`: it fails with the first closure, lambda
expression or construction of the body if there is one (`obstacles`), and else gathers the free
reads, the declarations and the comprehension variables (`collectReads_eq`).

`Scans` says what a stretch of events does to the state of `readStep`, for every state to start
with; stretches are put together with `Scans.append` and `Scans.scope`.
-/

namespace FlatClosure

/-! ### The first error -/

/-- The answer, unless there are errors; then the first of them. -/
def okUnless {ε α : Type} (errors : List ε) (a : α) : Except ε α :=
  match errors with
  | [] => .ok a
  | e :: _ => .error e

section OkUnless

variable {ε α β : Type}

@[simp] theorem okUnless_nil (a : α) : okUnless ([] : List ε) a = .ok a := rfl

@[simp] theorem okUnless_cons (e : ε) (es : List ε) (a : α) :
    okUnless (e :: es) a = .error e := rfl

theorem okUnless_bind {es fs : List ε} {a : α} {b : β} {f : α → Except ε β}
    (h : f a = okUnless fs b) : (okUnless es a >>= f) = okUnless (es ++ fs) b := by
  cases es with
  | nil => exact h
  | cons e es => rfl

theorem okUnless_bind_ok {es : List ε} {a : α} {b : β} {f : α → Except ε β} (h : f a = .ok b) :
    (okUnless es a >>= f) = okUnless es b := by
  have both : (okUnless es a >>= f) = okUnless (es ++ []) b := okUnless_bind h
  rwa [List.append_nil] at both

theorem okUnless_eq_ok {es : List ε} {a b : α} : okUnless es a = .ok b ↔ es = [] ∧ a = b := by
  cases es <;> simp

theorem okUnless_eq_error {es : List ε} {a : α} {e : ε} :
    okUnless es a = .error e ↔ es.head? = some e := by
  cases es <;> simp

end OkUnless

/-! ### Adding to the reads -/

/-- Note the first position of a name. -/
def noteRead (b : Bindings Span) (p : String × Span) : Bindings Span :=
  if b.contains p.1 then b else b.insert p.1 p.2

namespace Reads

/-- The reads with more of each kind noted. -/
def add (r : Reads) (names : List (String × Span)) (globals nonlocals bound : List String) :
    Reads where
  names := names.foldl noteRead r.names
  globals := globals.foldl addName r.globals
  nonlocals := nonlocals.foldl addName r.nonlocals
  bound := bound.foldl addName r.bound

theorem add_add (r : Reads) (ns ns' : List (String × Span)) (gs gs' ls ls' bs bs' : List String) :
    (r.add ns gs ls bs).add ns' gs' ls' bs' =
      r.add (ns ++ ns') (gs ++ gs') (ls ++ ls') (bs ++ bs') := by
  simp [add]

theorem read_eq_add (r : Reads) (x : String) (s : Span) :
    r.read x s = r.add [(x, s)] [] [] [] := by
  by_cases h : r.names.contains x <;> simp [read, add, noteRead, contains, h]

end Reads

theorem mem_foldl_addName {x : String} (ys xs : List String) :
    x ∈ ys.foldl addName xs ↔ x ∈ xs ∨ x ∈ ys := by
  induction ys generalizing xs with
  | nil => simp
  | cons y ys ih =>
    rw [List.foldl_cons, ih]
    unfold addName
    split
    · rename_i hy
      constructor
      · rintro (h | h)
        · exact .inl h
        · exact .inr (List.mem_cons_of_mem y h)
      · rintro (h | h)
        · exact .inl h
        · rcases List.mem_cons.1 h with rfl | h
          · exact .inl hy
          · exact .inr h
    · simp [or_assoc]

theorem nodup_foldl_addName (ys : List String) {xs : List String} (h : xs.Nodup) :
    (ys.foldl addName xs).Nodup := by
  induction ys generalizing xs with
  | nil => exact h
  | cons y ys ih =>
    refine ih ?_
    unfold addName
    split
    · exact h
    · rename_i hy
      rw [List.nodup_append]
      exact ⟨h, by simp, fun a ha b hb e => hy (List.mem_singleton.1 hb ▸ e ▸ ha)⟩

/-- The first name added to nothing comes first. -/
theorem head?_foldl_addName (ys xs : List String) :
    (ys.foldl addName xs).head? = xs.head?.or ys.head? := by
  induction ys generalizing xs with
  | nil => simp
  | cons y ys ih =>
    rw [List.foldl_cons, ih]
    unfold addName
    split
    · cases xs with
      | nil => contradiction
      | cons x xs => rfl
    · cases xs <;> rfl

/-! ### The walk of the reader -/

/-- What stands in the way of reading a closure. -/
def obstacles (owner : FunDef) : Collector ConversionError where
  expr
    | .lambda _ _ _ s => [.lambda owner.name s]
    | .construct c s => [.unloweredConstruct c owner.name s]
    | _ => []
  stmt
    | .closure g => [.nestedClosure g.name owner.name owner.span g.span]
    | _ => []

/-- The reads that are not of variables in scope. -/
def outside (scope : List String) (rs : List (String × Span)) : List (String × Span) :=
  rs.filter fun r => r.1 ∉ scope

theorem outside_append (scope : List String) (rs rs' : List (String × Span)) :
    outside scope (rs ++ rs') = outside scope rs ++ outside scope rs' :=
  List.filter_append ..

theorem outside_empty (rs : List (String × Span)) : outside [] rs = rs := by simp [outside]

theorem outside_cons (x : String) (scope : List String) (rs : List (String × Span)) :
    outside (x :: scope) rs = outside scope (freeReads.scope x rs) := by
  simp only [outside, freeReads, List.filter_filter]
  congr 1
  funext r
  by_cases h : r.1 = x <;> simp [h]

variable {owner : FunDef} {scope : List String}

/-- Walking through events from which a collector `C` would take `part C`: the walk stops at the
first obstacle, or else adds the names of every kind to the reads and ends in the scope where it
began. -/
def Scans (owner : FunDef) (scope : List String) (es : List Event) (part : Part) : Prop :=
  ∀ r : Reads, es.foldlM (readStep owner) (r, scope) =
    okUnless (part (obstacles owner))
      (r.add (outside scope (part freeReads)) (part declaredGlobal) (part declaredNonlocal)
        (part boundVars), scope)

namespace Scans

theorem nil : Scans owner scope [] fun _ => [] := fun _ => rfl

theorem append {es es' : List Event} {part part' : Part} (h : Scans owner scope es part)
    (h' : Scans owner scope es' part') :
    Scans owner scope (es ++ es') fun C => part C ++ part' C := by
  intro r
  rw [List.foldlM_append, h r]
  refine okUnless_bind ?_
  rw [h' _, Reads.add_add, outside_append]

theorem expr (e : Expr) : Scans owner scope [.expr e] fun C => C.expr e := by
  intro r
  cases e with
  | id x s =>
    by_cases h : x ∈ scope
    · simp [readStep, obstacles, freeReads, outside, h]
      rfl
    · simp [readStep, obstacles, freeReads, outside, h, Reads.read_eq_add]
      rfl
  | _ => rfl

theorem stmt (s : Stmt) : Scans owner scope [.stmt s] fun C => C.stmt s := by
  intro r
  cases s <;> rfl

theorem write (value : Expr) (x : String) : Scans owner scope [.bind x] fun C => C.write value x :=
  fun _ => rfl

/-- The scope of a comprehension variable. -/
theorem enclose {x : String} {es : List Event} {part : Part}
    (h : Scans owner (x :: scope) es part) :
    Scans owner scope (.enter x :: (es ++ [.exit x])) fun C => C.scope x (part C) := by
  intro r
  have start : readStep owner (r, scope) (.enter x) = .ok (r.add [] [] [] [x], x :: scope) := rfl
  rw [List.foldlM_cons, start]
  change List.foldlM (readStep owner) (r.add [] [] [] [x], x :: scope) (es ++ [.exit x]) = _
  rw [List.foldlM_append, h _]
  refine okUnless_bind_ok ?_
  rw [Reads.add_add, outside_cons]
  rfl

end Scans

theorem scans_law (owner : FunDef) :
    WalkLaw fun es part => ∀ scope, Scans owner scope es part where
  nil _ := .nil
  append h h' scope := (h scope).append (h' scope)
  expr e _ := .expr e
  stmt s _ := .stmt s
  write value x _ := .write value x
  scope x _ _ h scope := (h (x :: scope)).enclose
  closure _ _ _ := fun _ => rfl

/-! ### The answer -/

/-- All that the body of a function reads, declares and binds. -/
def FunDef.reads (f : FunDef) : Reads :=
  ({} : Reads).add (f.collect freeReads) (f.collect declaredGlobal) (f.collect declaredNonlocal)
    (f.collect boundVars)

theorem FunDef.events_eq (f : FunDef) : f.events = Stmt.eventsList f.body := by
  cases f
  rfl

/-- **The reads of a closure.**  Reading fails with the first closure, lambda expression or
construction of the body, and else answers with what the body reads, declares and binds. -/
theorem collectReads_eq (f : FunDef) :
    collectReads f = okUnless (f.collect (obstacles f)) f.reads := by
  have walk : Scans f [] (Stmt.eventsList f.body) fun C => f.collect C :=
    (scans_law f).walksBlock f.body []
  rw [collectReads, f.events_eq, walk {}, outside_empty]
  exact okUnless_bind_ok rfl

end FlatClosure

import FlatClosure.Proofs.Effects
import Mathlib.Logic.Relation

/-!
# The points of a run

While a program runs, the evaluator starts on one piece of code after the other.  A `Point` is a
piece of code together with the state in which the evaluator starts on it, and `Starts` says which
points a point leads to within the same call: what stands before a piece of code has been run by
then, so the state is the one that the evaluator itself has come to.  A run comes to the points that
it has `Reached`: the top-level statements, what they start, and the bodies of the functions that
are called.

* `Starts.grows` : on the way to a later point of the same call, the innermost call has only been
  added to.
* `Starts.mem_freeNames` : **a name that a later point reads free is read free by the earlier one,
  or is a variable of a comprehension that has a value by then.**
* `grows_of_path`, `frame_of_path` : **what becomes of the variables of a call.**
* `Reached.globals` : at every point of a run the global variables have values.
-/

namespace FlatClosure

/-- The operands of an expression that are always evaluated, from left to right, and first. -/
def Expr.operands : Expr → List Expr
  | .unary _ e | .builtin1 _ e | .field e _ => [e]
  | .binary .and l _ | .binary .or l _ => [l]
  | .binary _ l r | .builtin2 _ l r | .index l r => [l, r]
  | .methodCall o _ args => o :: args
  | .list es | .set es | .tuple es => es
  | .comprehension _ _ _ it _ => [it]
  | .ifElse c _ _ => [c]
  | .literal _ | .id .. | .call .. | .construct .. | .lambda .. => []

/-- The expressions of a target, which are evaluated from left to right. -/
def Target.operands : Target → List Expr
  | .field o _ => [o]
  | .index o i => [o, i]
  | .id _ | .ignore => []

/-- The expressions of a statement that are always evaluated, from left to right, and first. -/
def Stmt.operands : Stmt → List Expr
  | .assign _ e | .unpack _ e | .expr e | .ret (some e) => [e]
  | .setField o _ e => [o, e]
  | .setIndex o i e => [o, i, e]
  | .ifElse c _ _ => [c]
  | .forEach _ it _ _ => [it]
  | _ => []

/-- The number of targets that take one item each, if a starred one takes the rest. -/
def fixedSlots (slots : List Slot) : Nat := slots.length - (if slots.any (·.starred) then 1 else 0)

/-- What the evaluator starts on. -/
inductive Job where
  | expr (e : Expr)
  | exprs (es : List Expr)
  /-- The items that a comprehension has still to go through. -/
  | each (x : String) (cond : Option Expr) (elem : Expr) (items : List Value)
  /-- An item of `value` is assigned to a target. -/
  | target (value : Expr) (t : Target) (v : Value)
  /-- The items of `value` that are still to be assigned. -/
  | slots (value : Expr) (starOpen : Bool) (slots : List Slot) (items : List Value)
  | stmt (s : Stmt)
  | block (ss : List Stmt)
  /-- The rounds that a while loop may still make. -/
  | rounds (cond : Expr) (body : List Stmt) (n : Nat)
  /-- The items of `value` that a for loop has still to go through. -/
  | loop (x : String) (value : Expr) (body : List Stmt) (items : List Value)
  | instantiate (c : ClassDef) (args : List Value)
  | invoke (ref : Nat) (method : String) (args : List Value)
  | callNamed (name : String) (args : List Value)
  | callValue (callee : Value) (args : List Value)
  | callMethod (v : Value) (method : String) (args : List Value)
  /-- A function is entered. -/
  | call (f : FunDef) (args : List Value)

/-- A piece of code, and the state in which the evaluator starts on it. -/
structure Point where
  state : Machine
  job : Job

/-- The evaluator, at the first point, comes to start on the second one next. -/
inductive Starts (k : Calls) : Point → Point → Prop
  -- expressions
  | first {s e es} : Starts k ⟨s, .exprs (e :: es)⟩ ⟨s, .expr e⟩
  | rest {s t e es v} : (e.eval k).run s = (.ok v, t) →
      Starts k ⟨s, .exprs (e :: es)⟩ ⟨t, .exprs es⟩
  | operands {s e} : Starts k ⟨s, .expr e⟩ ⟨s, .exprs e.operands⟩
  | conjunct {s t l r v} : (l.eval k).run s = (.ok v, t) → v.truthy t.heap = true →
      Starts k ⟨s, .expr (.binary .and l r)⟩ ⟨t, .expr r⟩
  | disjunct {s t l r v} : (l.eval k).run s = (.ok v, t) → v.truthy t.heap = false →
      Starts k ⟨s, .expr (.binary .or l r)⟩ ⟨t, .expr r⟩
  | choice {s t c thn els v} : (c.eval k).run s = (.ok v, t) →
      Starts k ⟨s, .expr (.ifElse c thn els)⟩ ⟨t, .expr (if v.truthy t.heap then thn else els)⟩
  -- a comprehension gives its variable one item after the other
  | items {s t u kind e x it c v vs} : (it.eval k).run s = (.ok v, t) →
      (itemsOf v "comprehension").run t = (.ok vs, u) →
      Starts k ⟨s, .expr (.comprehension kind e x it c)⟩ ⟨u, .each x c e vs⟩
  | condition {s x c e v vs} : Starts k ⟨s, .each x c e (v :: vs)⟩ ⟨s.shadow x v, .exprs c.toList⟩
  | element {s t x c e v vs} : (Expr.holds k c).run (s.shadow x v) = (.ok true, t) →
      Starts k ⟨s, .each x c e (v :: vs)⟩ ⟨t, .expr e⟩
  | nextItem {s t x c e v vs r} : (comprehend k c e).run (s.shadow x v) = (.ok r, t) →
      Starts k ⟨s, .each x c e (v :: vs)⟩ ⟨t, .each x c e vs⟩
  -- calls; a callee that names a class is not evaluated
  | fields {s f args c} : calleeClass? k s f = some c →
      Starts k ⟨s, .expr (.call f args)⟩ ⟨s, .exprs args⟩
  | make {s t f args c vs} : calleeClass? k s f = some c →
      (Expr.evalList k args).run s = (.ok vs, t) →
      Starts k ⟨s, .expr (.call f args)⟩ ⟨t, .instantiate c vs⟩
  | callee {s f args} : calleeClass? k s f = none →
      Starts k ⟨s, .expr (.call f args)⟩ ⟨s, .exprs (f :: args)⟩
  | callValue {s t f args v vs} : calleeClass? k s f = none →
      (Expr.evalList k (f :: args)).run s = (.ok (v :: vs), t) →
      Starts k ⟨s, .expr (.call f args)⟩ ⟨t, .callValue v vs⟩
  | callMethod {s t o m args v vs} : (Expr.evalList k (o :: args)).run s = (.ok (v :: vs), t) →
      Starts k ⟨s, .expr (.methodCall o m args)⟩ ⟨t, .callMethod v m vs⟩
  | construct {s name span c} : k.ctx.program.class? name = some c →
      Starts k ⟨s, .expr (.construct name span)⟩ ⟨s, .instantiate c []⟩
  | runConstructor {s t c args ref} : (c.method? k.ctx.names.constructor).isSome →
      (newObject ⟨c.name, .ofList (c.fields.map fun v => (v.name, v.value.toValue))⟩).run s =
        (.ok ref, t) →
      Starts k ⟨s, .instantiate c args⟩ ⟨t, .invoke ref k.ctx.names.constructor args⟩
  | callFunction {s name args} :
      Starts k ⟨s, .callValue (.function name) args⟩ ⟨s, .callNamed name args⟩
  | callObject {s ref args} :
      Starts k ⟨s, .callValue (.object ref) args⟩ ⟨s, .invoke ref k.ctx.names.callMethod args⟩
  | invoke {s ref m args} : Starts k ⟨s, .callMethod (.object ref) m args⟩ ⟨s, .invoke ref m args⟩
  | enterMethod {s ref m args f} :
      (k.ctx.program.class? (s.heap.object ref).cls).bind (·.method? m) = some f →
      Starts k ⟨s, .invoke ref m args⟩ ⟨s, .call f (.object ref :: args)⟩
  | enterFunction {s name args f} : k.ctx.program.function? name = some f →
      Starts k ⟨s, .callNamed name args⟩ ⟨s.initGlobals k.ctx.program, .call f args⟩
  -- assignments
  | place {s value t v} : Starts k ⟨s, .target value t v⟩ ⟨s, .exprs t.operands⟩
  | star {s t value slot slots items v} : slot.starred = true →
      (newList (items.take (items.length - slots.length))).run s = (.ok v, t) →
      Starts k ⟨s, .slots value true (slot :: slots) items⟩ ⟨t, .target value slot.target v⟩
  | afterStar {s t u value slot slots items v} : slot.starred = true →
      (newList (items.take (items.length - slots.length))).run s = (.ok v, t) →
      (slot.target.assign k v).run t = (.ok (), u) →
      Starts k ⟨s, .slots value true (slot :: slots) items⟩
        ⟨u, .slots value false slots (items.drop (items.length - slots.length))⟩
  | slot {s value starOpen slot slots items} : (starOpen && slot.starred) = false →
      Starts k ⟨s, .slots value starOpen (slot :: slots) items⟩
        ⟨s, .target value slot.target (items.headD .none)⟩
  | afterSlot {s t value starOpen slot slots items} : (starOpen && slot.starred) = false →
      (slot.target.assign k (items.headD .none)).run s = (.ok (), t) →
      Starts k ⟨s, .slots value starOpen (slot :: slots) items⟩
        ⟨t, .slots value starOpen slots items.tail⟩
  -- statements
  | parts {s st} : Starts k ⟨s, .stmt st⟩ ⟨s, .exprs st.operands⟩
  | unpack {s t u slots e v items} : (e.eval k).run s = (.ok v, t) →
      (itemsOf v "unpack").run t = (.ok items, u) → fixedSlots slots ≤ items.length →
      (slots.any (·.starred) = false → items.length = fixedSlots slots) →
      Starts k ⟨s, .stmt (.unpack slots e)⟩ ⟨u, .slots e true slots items⟩
  | branch {s t c thn els v} : (c.eval k).run s = (.ok v, t) →
      Starts k ⟨s, .stmt (.ifElse c thn els)⟩ ⟨t, .block (if v.truthy t.heap then thn else els)⟩
  | whileLoop {s c body} :
      Starts k ⟨s, .stmt (.whileLoop c body)⟩ ⟨s, .rounds c body k.fuel⟩
  | test {s c body n} : Starts k ⟨s, .rounds c body (n + 1)⟩ ⟨s, .expr c⟩
  | round {s t c body n} : (Expr.holds k (some c)).run s = (.ok true, t) →
      Starts k ⟨s, .rounds c body (n + 1)⟩ ⟨t, .block body⟩
  | nextRound {s t u c body n flow} : (Expr.holds k (some c)).run s = (.ok true, t) →
      (Stmt.execList k body).run t = (.ok flow, u) → flow = .normal ∨ flow = .continueLoop →
      Starts k ⟨s, .rounds c body (n + 1)⟩ ⟨u, .rounds c body n⟩
  | forEach {s t u x it body els v items} : (it.eval k).run s = (.ok v, t) →
      (itemsOf v "for").run t = (.ok items, u) →
      Starts k ⟨s, .stmt (.forEach x it body els)⟩ ⟨u, .loop x it body items⟩
  | forElse {s t u w x it body ss v items flow} : (it.eval k).run s = (.ok v, t) →
      (itemsOf v "for").run t = (.ok items, u) →
      (loopEach x (Stmt.execList k body) items).run u = (.ok flow, w) →
      flow = .normal ∨ flow = .continueLoop →
      Starts k ⟨s, .stmt (.forEach x it body (some ss))⟩ ⟨w, .block ss⟩
  | pass {s x it body v vs} :
      Starts k ⟨s, .loop x it body (v :: vs)⟩ ⟨s.store x v, .block body⟩
  | nextPass {s t x it body v vs flow} :
      (Stmt.execList k body).run (s.store x v) = (.ok flow, t) →
      flow = .normal ∨ flow = .continueLoop →
      Starts k ⟨s, .loop x it body (v :: vs)⟩ ⟨t, .loop x it body vs⟩
  | head {s st ss} : Starts k ⟨s, .block (st :: ss)⟩ ⟨s, .stmt st⟩
  | tail {s t st ss} : (st.exec k).run s = (.ok .normal, t) →
      Starts k ⟨s, .block (st :: ss)⟩ ⟨t, .block ss⟩

/-- The state in which the body of a function starts. -/
def FunDef.opened (f : FunDef) (args : List Value) (s : Machine) : Machine :=
  s.withFrames (f.frame args :: s.frames)

/-- The run of the program comes to the point, where calls have the fuel `n`. -/
inductive Reached (ctx : Context) (fuel : Nat) : Nat → Point → Prop
  | main : Reached ctx fuel fuel ⟨Machine.initGlobals ctx.program {}, .block ctx.program.stmts⟩
  | step {n a b} : Reached ctx fuel n a → Starts (ctx.calls n) a b → Reached ctx fuel n b
  | body {n s f args} : Reached ctx fuel (n + 1) ⟨s, .call f args⟩ → args.length = f.arity →
      s.frames.length < ctx.maxDepth → Reached ctx fuel n ⟨f.opened args s, .block f.body⟩

/-- While the body of `f`, called in a run of the program, is executed, the evaluator comes to the
point: in the body itself, and not in a function that it calls. -/
def BodyReaches (ctx : Context) (fuel : Nat) (f : FunDef) (n : Nat) (a : Point) : Prop :=
  ∃ s args, Reached ctx fuel (n + 1) ⟨s, .call f args⟩ ∧ args.length = f.arity ∧
    s.frames.length < ctx.maxDepth ∧
    Relation.ReflTransGen (Starts (ctx.calls n)) ⟨f.opened args s, .block f.body⟩ a

theorem BodyReaches.reached {ctx : Context} {fuel n : Nat} {f : FunDef} {a : Point}
    (h : BodyReaches ctx fuel f n a) : Reached ctx fuel n a := by
  obtain ⟨s, args, call, arity, depth, path⟩ := h
  induction path with
  | refl => exact call.body arity depth
  | tail _ next ih => exact ih.step next

/-! ### Names -/

section Names

variable {α : Type} {k : Calls} {a b : Point}

/-- What stands in a piece of code. -/
def Job.collect (C : Collector α) : Job → List α
  | .expr e => e.collect C
  | .exprs es => Expr.collectList C es
  | .each x c e _ => C.scope x (e.collect C ++ Expr.collectOption C c)
  | .target value t _ => t.collect C value
  | .slots value _ ss _ => Slot.collectList C value ss
  | .stmt s => s.collect C
  | .block ss => Stmt.collectList C ss
  | .rounds c body _ => c.collect C ++ Stmt.collectList C body
  | .loop x value body _ => C.write value x ++ Stmt.collectList C body
  | .instantiate .. | .invoke .. | .callNamed .. | .callValue .. | .callMethod .. | .call .. => []

/-- The names that a piece of code reads from outside its comprehensions. -/
def Job.freeNames (j : Job) : List String := (j.collect freeReads).map Prod.fst

theorem Expr.mem_collect_operands (C : Collector α) (e : Expr) {y : α}
    (hy : y ∈ Expr.collectList C e.operands) : y ∈ e.collect C := by
  cases e with
  | binary op l r =>
    cases op <;> simp only [Expr.operands, Expr.collectList, Expr.collect, List.mem_append] at hy ⊢
      <;> grind
  | _ => simp only [Expr.operands, Expr.collectList, Expr.collect, List.mem_append] at hy ⊢; grind

theorem Stmt.mem_collect_operands (C : Collector α) (s : Stmt) {y : α}
    (hy : y ∈ Expr.collectList C s.operands) : y ∈ s.collect C := by
  cases s with
  | ret v =>
    cases v <;> simp_all [Stmt.operands, Expr.collectList, Stmt.collect, Expr.collectOption]
  | _ =>
    simp only [Stmt.operands, Expr.collectList, Stmt.collect, List.mem_append] at hy ⊢
    grind

theorem Target.mem_collect_operands (C : Collector α) (value : Expr) (t : Target) {y : α}
    (hy : y ∈ Expr.collectList C t.operands) : y ∈ t.collect C value := by
  cases t <;> simp_all [Target.operands, Target.collect, Expr.collectList]

theorem bound_shadowed (x : String) (v : Value) (F : List Frame) :
    ∀ g ∈ (shadowed x v F).head?, x ∈ g.vars.names := by
  intro g hg
  cases F with
  | nil => cases hg
  | cons f fs =>
    cases hg
    exact Bindings.mem_names_insert.2 (.inl rfl)

/-- What stands in the code that is started stands in the code that starts it, or else in the scope
of a comprehension variable that has a value by then. -/
theorem Starts.mem_collect (hk : k.Have (Along Calm)) (h : Starts k a b) (C : Collector α) {y : α}
    (hy : y ∈ b.job.collect C) :
    y ∈ a.job.collect C ∨ ∃ x inner, a.job.collect C = C.scope x inner ∧ y ∈ inner ∧
      x ∈ a.job.collect boundVars ∧ ∀ g ∈ b.state.frames.head?, x ∈ g.vars.names := by
  have law := calm_evalLaw k.ctx.program fun _ => True
  cases h with
  | operands => exact .inl (Expr.mem_collect_operands C _ hy)
  | parts => exact .inl (Stmt.mem_collect_operands C _ hy)
  | place => exact .inl (Target.mem_collect_operands C _ _ hy)
  | @condition s x c e v vs =>
    refine .inr ⟨x, _, rfl, ?_, List.mem_cons_self, frames_shadow ▸ bound_shadowed x v s.frames⟩
    cases c <;> simp_all [Job.collect, Expr.collectList, Expr.collectOption]
  | @element s t x c e v vs hc =>
    refine .inr ⟨x, _, rfl, List.mem_append_left _ hy, List.mem_cons_self, ?_⟩
    rw [((law.holds hk c fun _ _ => trivial).of_run hc).1, frames_shadow]
    exact bound_shadowed x v s.frames
  | _ =>
    left
    simp only [Job.collect, Expr.collect, Expr.collectList, Stmt.collect, Stmt.collectList,
      Stmt.collectOption, Slot.collectList, List.mem_append] at hy ⊢
    grind

section Calls

variable (hk : k.Have (Along Calm)) (h : Starts k a b)

include hk h

theorem Starts.mem_declaredGlobal {x : String} (hx : x ∈ b.job.collect declaredGlobal) :
    x ∈ a.job.collect declaredGlobal := by
  rcases h.mem_collect hk declaredGlobal hx with hx | ⟨y, inner, scope, hx, -⟩
  · exact hx
  · rw [scope]
    exact hx

theorem Starts.mem_written {x : String} (hx : x ∈ b.job.collect written) :
    x ∈ a.job.collect written := by
  rcases h.mem_collect hk written hx with hx | ⟨y, inner, scope, hx, -⟩
  · exact hx
  · rw [scope]
    exact hx

theorem Starts.mem_boundVars {x : String} (hx : x ∈ b.job.collect boundVars) :
    x ∈ a.job.collect boundVars := by
  rcases h.mem_collect hk boundVars hx with hx | ⟨y, inner, scope, hx, -⟩
  · exact hx
  · rw [scope]
    exact List.mem_cons_of_mem _ hx

/-- A name that is read free at the second point is read free at the first, or is bound in between
by a comprehension. -/
theorem Starts.mem_freeNames {x : String} (hx : x ∈ b.job.freeNames) :
    x ∈ a.job.freeNames ∨
      (x ∈ a.job.collect boundVars ∧ ∀ g ∈ b.state.frames.head?, x ∈ g.vars.names) := by
  obtain ⟨r, hr, rfl⟩ := List.mem_map.1 hx
  rcases h.mem_collect hk freeReads hr with hr | ⟨y, inner, scope, hr, bound, value⟩
  · exact .inl (List.mem_map_of_mem hr)
  · by_cases hy : r.1 = y
    · exact .inr (hy ▸ ⟨bound, value⟩)
    · refine .inl (List.mem_map_of_mem ?_)
      rw [scope]
      exact List.mem_filter.2 ⟨hr, decide_eq_true hy⟩

end Calls

end Names

/-! ### States -/

/-- A property of trees holds of the pieces of code that the evaluator starts on. -/
theorem TreeLaw.holdsJob {P : Part → Prop} (h : TreeLaw P) (j : Job) : P fun C => j.collect C := by
  cases j with
  | expr e => exact h.holds e
  | exprs es => exact h.holdsList es
  | each x c e _ => exact h.scope x (h.append (h.holds e) (h.holdsOption c))
  | target value t _ => exact h.blockLaw.target value t
  | slots value _ ss _ => exact h.blockLaw.slots value ss
  | stmt s => exact h.holdsStmt s
  | block ss => exact h.holdsBlock ss
  | rounds c body _ => exact h.append (h.holds c) (h.holdsBlock body)
  | loop x value body _ => exact h.append (h.write value x) (h.holdsBlock body)
  | _ => exact h.nil

/-- A relation that holds along statements relates a point to the next one.  Inside a comprehension
the variable has got a value in addition. -/
theorem Starts.along {k : Calls} {ok : Effect → Prop} {R R' : Machine → Machine → Prop}
    (law : ExecLaw k.ctx.program ok (Along R) (Along R'))
    (trans : ∀ ⦃s t u⦄, R' s t → R' t u → R' s u) (hk : k.Have (Along R)) {a b : Point}
    (h : Starts k a b) (hok : ∀ m ∈ a.job.collect effects, ok m)
    (shadow : ∀ x c e vs, a.job = .each x c e vs → ∀ s v, R' s (s.shadow x v))
    (new : ∀ c args, a.job = .instantiate c args → Along R' (newObject c.fresh)) :
    R' a.state b.state := by
  have refl (s : Machine) : R' s s := law.block.pure () s
  have quiet {α : Type} {x : EvalM α} (hx : Quiet x) {s t : Machine} {r : Except Stop α}
      (h : x.run s = (r, t)) : R' s t := (law.block.quiet hx).of_run h
  have eval {s t : Machine} {e : Expr} {r : Except Stop Value} (h : (e.eval k).run s = (r, t))
      (he : ∀ m ∈ e.collect effects, ok m) : R' s t := (law.evalExpr hk e he).of_run h
  have evalList {s t : Machine} {es : List Expr} {r : Except Stop (List Value)}
      (h : (Expr.evalList k es).run s = (r, t)) (hes : ∀ m ∈ Expr.collectList effects es, ok m) :
      R' s t := (law.le (law.eval.evalList hk es hes)).of_run h
  have holds {s t : Machine} {c : Option Expr} {r : Except Stop Bool}
      (h : (Expr.holds k c).run s = (r, t)) (hc : ∀ m ∈ Expr.collectOption effects c, ok m) :
      R' s t := (law.le (law.eval.holds hk c hc)).of_run h
  cases h with
  | first | operands | fields | callee | construct | callFunction | callObject | invoke
  | enterMethod | place | slot | parts | whileLoop | test | head => exact refl _
  | rest h => exact eval h (List.forall_mem_append.1 hok).1
  | conjunct h | disjunct h =>
    simp only [Job.collect, Expr.collect, List.forall_mem_append] at hok
    exact eval h hok.1.2
  | choice h =>
    simp only [Job.collect, Expr.collect, List.forall_mem_append] at hok
    exact eval h hok.1.1.2
  | branch h =>
    simp only [Job.collect, Stmt.collect, List.forall_mem_append] at hok
    exact eval h hok.1.1.2
  | items h hi =>
    simp only [Job.collect, Expr.collect, List.forall_mem_append] at hok
    exact trans (eval h hok.1.2) (quiet (.itemsOf _ _) hi)
  | condition => exact shadow _ _ _ _ rfl _ _
  | element hc =>
    obtain ⟨-, hin⟩ := List.forall_mem_cons.1 hok
    exact trans (shadow _ _ _ _ rfl _ _) (holds hc (List.forall_mem_append.1 hin).2)
  | @nextItem _ _ _ c e _ _ _ h =>
    obtain ⟨-, hin⟩ := List.forall_mem_cons.1 hok
    obtain ⟨he, hc⟩ := List.forall_mem_append.1 hin
    have item := law.eval.comprehend (law.eval.holds hk c hc) (law.eval.eval hk e he)
    exact trans (shadow _ _ _ _ rfl _ _) ((law.le item).of_run h)
  | make _ h => exact evalList h (List.forall_mem_append.1 hok).2
  | callValue _ h | callMethod h =>
    simp only [Job.collect, Expr.collect, List.forall_mem_append] at hok
    exact evalList h (List.forall_mem_append.2 ⟨hok.1.2, hok.2⟩)
  | runConstructor _ h => exact (new _ _ rfl).of_run h
  | enterFunction _ => exact law.le law.eval.init _
  | star _ h => exact quiet (.newList _) h
  | afterStar _ h h' =>
    exact trans (quiet (.newList _) h)
      ((law.assign hk _ _ (List.forall_mem_append.1 hok).1).of_run h')
  | afterSlot _ h => exact (law.assign hk _ _ (List.forall_mem_append.1 hok).1).of_run h
  | unpack h h' =>
    simp only [Job.collect, Stmt.collect, List.forall_mem_append] at hok
    exact trans (eval h hok.1.2) (quiet (.itemsOf _ _) h')
  | round h => exact holds h (List.forall_mem_append.1 hok).1
  | nextRound h h' =>
    obtain ⟨hc, hbody⟩ := List.forall_mem_append.1 hok
    exact trans (holds h hc) ((law.execList hk _ hbody).of_run h')
  | forEach h h' =>
    simp only [Job.collect, Stmt.collect, List.forall_mem_append] at hok
    exact trans (eval h hok.1.1.1.2) (quiet (.itemsOf _ _) h')
  | forElse h h' h'' =>
    simp only [Job.collect, Stmt.collect, List.forall_mem_append] at hok
    obtain ⟨⟨⟨⟨-, hit⟩, hx⟩, hbody⟩, -⟩ := hok
    have loop := law.block.loopEach (law.store _ (hx _ (List.mem_singleton_self _)))
      (law.execList hk _ hbody)
    exact trans (eval h hit) (trans (quiet (.itemsOf _ _) h') ((loop _).of_run h''))
  | pass =>
    exact law.store _ (hok _ (List.mem_append_left _ (List.mem_singleton_self _))) _ _
  | nextPass h =>
    obtain ⟨hx, hbody⟩ := List.forall_mem_append.1 hok
    exact trans (law.store _ (hx _ (List.mem_singleton_self _)) _ _)
      ((law.execList hk _ hbody).of_run h)
  | tail h => exact (law.exec hk _ (List.forall_mem_append.1 hok).1).of_run h

/-- On the way to a later point of the same call, the innermost call is only added to, and only the
variables of `W` change, which are those that are written and those of comprehensions. -/
theorem Starts.grows {k : Calls} {a b : Point} (hk : k.Have (Along Calm)) (h : Starts k a b)
    {W D : List String} (hW : ∀ x ∈ a.job.collect written, x ∈ W)
    (hD : ∀ x ∈ a.job.collect declaredGlobal, x ∈ D)
    (hB : ∀ x c e vs, a.job = .each x c e vs → x ∈ W) : Grows W D a.state b.state := by
  refine h.along (grows_execLaw k.ctx.program W D) (@Grows.trans W D) hk (fun m hm => ?_)
    (fun x c e vs hj s v => grows_shadow (hB x c e vs hj) s v)
    fun _ _ _ _ => ⟨.refl W D _, fun _ h => h⟩
  have := effects_law.holdsJob a.job m hm
  cases m with
  | write x => exact hW x this
  | global x => exact hD x this
  | read x | bind x | closure f => trivial

theorem Starts.exists_grows {k : Calls} {a b : Point} (hk : k.Have (Along Calm))
    (h : Starts k a b) {D : List String} (hD : ∀ x ∈ a.job.collect declaredGlobal, x ∈ D) :
    ∃ W, Grows W D a.state b.state := by
  refine ⟨a.job.collect written ++ a.job.collect boundVars, h.grows hk
    (fun x hx => List.mem_append_left _ hx) hD fun x c e vs hj => List.mem_append_right _ ?_⟩
  rw [hj]
  exact List.mem_cons_self

/-- The evaluator starts on statements, not on part of an expression. -/
def Job.isStmt : Job → Bool
  | .stmt _ | .block _ | .rounds .. | .loop .. => true
  | _ => false

/-- No expression leads to a statement of the same call. -/
theorem Starts.isStmt {k : Calls} {a b : Point} (h : Starts k a b) (hb : b.job.isStmt = true) :
    a.job.isStmt = true := by
  cases h with
  | branch | whileLoop | round | nextRound | forEach | forElse | pass | nextPass | head | tail =>
    rfl
  | _ => cases hb

/-- Only functions and methods of the program are entered. -/
theorem Starts.callable {k : Calls} {a b : Point} (h : Starts k a b) {f : FunDef}
    {args : List Value} (hj : b.job = .call f args) : Callable k.ctx.program f := by
  cases h with
  | enterMethod found =>
    cases hj
    exact callable_of_method? found
  | enterFunction found =>
    cases hj
    exact callable_of_function? found
  | _ => cases hj

theorem isStmt_of_path {k : Calls} {a b : Point} (path : Relation.ReflTransGen (Starts k) a b)
    (hb : b.job.isStmt = true) : a.job.isStmt = true := by
  induction path using Relation.ReflTransGen.head_induction_on with
  | refl => exact hb
  | head next _ ih => exact next.isStmt ih

/-- From one point of a call to any later one, the innermost call is only added to.  Where a
statement starts, comprehension variables have no values any more. -/
theorem grows_of_path {k : Calls} {a b : Point} (hk : k.Have (Along Calm))
    (path : Relation.ReflTransGen (Starts k) a b) {W D : List String}
    (hW : ∀ x ∈ a.job.collect written, x ∈ W) (hD : ∀ x ∈ a.job.collect declaredGlobal, x ∈ D)
    (hB : b.job.isStmt = true ∨ ∀ x ∈ a.job.collect boundVars, x ∈ W) :
    Grows W D a.state b.state := by
  -- from the front, because it is the code of the first point that says what can happen later
  induction path using Relation.ReflTransGen.head_induction_on with
  | refl => exact .refl W D _
  | @head a c next path ih =>
    have first : Grows W D a.state c.state := by
      refine next.grows hk hW hD fun x cond e vs hj => ?_
      rcases hB with hb | hB
      · -- inside a comprehension no statement is ahead
        have := next.isStmt (isStmt_of_path path hb)
        rw [hj] at this
        cases this
      · exact hB x (by rw [hj]; exact List.mem_cons_self)
    exact first.trans (ih (fun x hx => hW x (next.mem_written hk hx))
      (fun x hx => hD x (next.mem_declaredGlobal hk hx))
      (hB.imp_right fun hB x hx => hB x (next.mem_boundVars hk hx)))

/-- The call of a function starts with variables for its parameters and locals only. -/
theorem FunDef.mem_binders_of_frame {f : FunDef} {args : List Value} {x : String}
    (h : x ∈ (f.frame args).vars.names) : x ∈ f.binders := by
  rcases Bindings.mem_names_insertAll.1 h with h | h
  · cases h
  · rw [List.map_append, List.mem_append, List.map_map] at h
    refine List.mem_append.2 (h.imp_left fun h => ?_)
    obtain ⟨p, hp, rfl⟩ := List.mem_map.1 h
    exact (List.of_mem_zip hp).1

/-- The call of a function starts with a variable for each parameter and local. -/
theorem FunDef.mem_names_frame {f : FunDef} {args : List Value} (h : args.length = f.arity)
    {x : String} (hx : x ∈ f.binders) : x ∈ (f.frame args).vars.names := by
  have params : ((f.params.map (·.name)).zip args).map Prod.fst = f.params.map (·.name) := by
    refine List.map_fst_zip (Nat.le_of_eq ?_)
    rw [List.length_map, h, FunDef.arity]
  refine Bindings.mem_names_insertAll.2 (.inr ?_)
  rw [List.map_append, params, List.map_map]
  exact hx

/-- **The body of a function.**  At every point, the call has the variables that it started with,
with the same values unless they are written, and only names that the body declares are global in
it. -/
theorem frame_of_path {k : Calls} (hk : k.Have (Along Calm)) {f : FunDef} {args : List Value}
    {s : Machine} {a : Point}
    (path : Relation.ReflTransGen (Starts k) ⟨f.opened args s, .block f.body⟩ a)
    {W D : List String} (hW : ∀ x ∈ f.collect written, x ∈ W)
    (hD : ∀ x ∈ f.collect declaredGlobal, x ∈ D)
    (hB : a.job.isStmt = true ∨ ∀ x ∈ f.collect boundVars, x ∈ W) :
    ∃ g fs, a.state.frames = g :: fs ∧ (∀ x ∈ (f.frame args).vars.names, x ∈ g.vars.names) ∧
      (∀ x, x ∉ W → g.vars.get? x = (f.frame args).vars.get? x) ∧ ∀ x ∈ g.globals, x ∈ D := by
  obtain ⟨frames, -⟩ := grows_of_path hk path hW hD hB
  have opened : (f.opened args s).frames = f.frame args :: s.frames := rfl
  rw [opened] at frames
  rcases ha : a.state.frames with _ | ⟨g, fs⟩ <;> rw [ha] at frames
  · exact frames.elim
  · obtain ⟨-, names, values, globals⟩ := frames
    refine ⟨g, fs, rfl, names, values, fun x hx => ?_⟩
    rcases globals x hx with hx | hx
    · cases hx
    · exact hx

/-- **The global variables are there.**  At every point of a run, all global variables of the
program have values. -/
theorem Reached.globals {ctx : Context} {fuel n : Nat} {a : Point} (h : Reached ctx fuel n a)
    {x : String} (hx : x ∈ ctx.program.inits.map (·.name)) : x ∈ a.state.globals.names := by
  induction h with
  | main =>
    refine Bindings.mem_names_insertAll.2 (.inr ?_)
    rwa [List.map_map]
  | @step n a b _ next ih =>
    obtain ⟨W, grows⟩ := next.exists_grows (ctx.calls_calm n) fun _ h => h
    exact grows.2 x ih
  | body _ _ _ ih => exact ih

end FlatClosure

import FlatClosure.Proofs.Collect
import FlatClosure.Proofs.Machine

/-!
# Laws of evaluation

A property of steps that passes from steps to what is made of them holds of the whole evaluator.
The laws say which steps have to be looked at: `StepLaw` for steps one after the other, `EvalLaw`
for expressions, `ExecLaw` for statements, of which less may be known than of expressions, and
`CallLaw` for calls.  Code may be restricted in its `effects`.  Each law carries over by one
induction.

* `EvalLaw.eval` : along an expression.
* `ExecLaw.exec`, `ExecLaw.execList` : along statements.
* `CallLaw.callFunction` : **along every call of a function of the program.**
-/

namespace FlatClosure

variable {α β : Type}

/-! ### Effects -/

/-- What code does to names, and the declaration of a function. -/
inductive Effect where
  | read (x : String)
  /-- A comprehension gives values to its variable. -/
  | bind (x : String)
  | write (x : String)
  /-- The name is declared global. -/
  | global (x : String)
  | closure (f : FunDef)

/-- The effects of code. -/
def effects : Collector Effect where
  expr
    | .id x _ => [.read x]
    | _ => []
  stmt
    | .global x => [.global x]
    | .closure f => [.closure f]
    | _ => []
  write _ x := [.write x]
  scope x ms := .bind x :: ms

/-- The effect has to do with the name. -/
def Effect.Concerns (z : String) : Effect → Prop
  | .read y | .bind y | .write y | .global y => y = z
  | .closure _ => False

instance (z : String) : DecidablePred (Effect.Concerns z)
  | .read y | .bind y | .write y | .global y => inferInstanceAs (Decidable (y = z))
  | .closure _ => inferInstanceAs (Decidable False)

/-- An expression that is just a name reads it. -/
theorem read_mem_effects {e : Expr} {x : String} (h : e.id? = some x) :
    .read x ∈ e.collect effects := by
  cases e with
  | id y span =>
    cases h
    exact List.mem_cons_self
  | _ => cases h

/-- A name that is read is read free or is a comprehension variable. -/
theorem effects_law : TreeLaw fun part => ∀ m ∈ part effects,
    match m with
    | .read x => x ∈ (part freeReads).map Prod.fst ∨ x ∈ part boundVars
    | .bind x => x ∈ part boundVars
    | .write x => x ∈ part written
    | .global x => x ∈ part declaredGlobal
    | .closure f => f ∈ part closures where
  nil := by simp
  append := by
    intro a b ha hb m hm
    rcases List.mem_append.1 hm with hm | hm
    · have := ha m hm
      cases m with
      | read x => simp only [List.map_append, List.mem_append]; exact this.imp .inl .inl
      | _ => exact List.mem_append_left _ this
    · have := hb m hm
      cases m with
      | read x => simp only [List.map_append, List.mem_append]; exact this.imp .inr .inr
      | _ => exact List.mem_append_right _ this
  expr e := by cases e <;> simp [effects, freeReads]
  scope x a ha := by
    intro m hm
    rcases List.mem_cons.1 hm with rfl | hm
    · exact List.mem_cons_self
    · have := ha m hm
      cases m with
      | read y =>
        by_cases hy : y = x
        · exact .inr (hy ▸ List.mem_cons_self)
        · rcases this with h | h
          · obtain ⟨r, hr, rfl⟩ := List.mem_map.1 h
            exact .inl (List.mem_map_of_mem (List.mem_filter.2 ⟨hr, by simpa using hy⟩))
          · exact .inr (List.mem_cons_of_mem _ h)
      | bind y => exact List.mem_cons_of_mem _ this
      | write y | global y | closure f => exact this
  stmt s := by cases s <;> simp [effects, declaredGlobal, closures]
  write v x := by simp [effects, written]

/-! ### Laws -/

/-- Calls run only the functions of the program and its methods. -/
def Callable (p : Program) (f : FunDef) : Prop := f ∈ p.funs ∨ ∃ c ∈ p.classes, f ∈ c.methods

theorem callable_of_function? {p : Program} {x : String} {f : FunDef}
    (h : p.function? x = some f) : Callable p f := .inl (List.mem_of_find?_eq_some h)

theorem callable_of_method? {p : Program} {x method : String} {f : FunDef}
    (h : (p.class? x).bind (·.method? method) = some f) : Callable p f := by
  obtain ⟨c, hc, hf⟩ := Option.bind_eq_some_iff.1 h
  exact .inr ⟨c, List.mem_of_find?_eq_some hc, List.mem_of_find?_eq_some hf⟩

/-- The calls that code can make have the property. -/
def Calls.Have (k : Calls) (P : ∀ {α : Type}, EvalM α → Prop) : Prop :=
  ∀ f, Callable k.ctx.program f → ∀ args, P (k.enter f args)

/-- One item of a comprehension. -/
def comprehend (k : Calls) (cond : Option Expr) (elem : Expr) : EvalM (Option Value) := do
  if ← Expr.holds k cond then
    let v ← elem.eval k
    return some v
  else return none

/-- The names of `N` stand for the same in both states. -/
structure SameReads (p : Program) (N : String → Prop) (s s' : Machine) : Prop where
  lookup? : ∀ x, N x → s'.lookup? p x = s.lookup? p x
  isVariable : ∀ x, N x → s'.isVariable x = s.isVariable x

theorem SameTop.reads {s s' : Machine} (h : SameTop s s') (p : Program) (N : String → Prop) :
    SameReads p N s s' :=
  ⟨fun x _ => h.lookup? p x, fun x _ => h.isVariable x⟩

theorem SameReads.calleeClass? {k : Calls} {N : String → Prop} {s s' : Machine}
    (h : SameReads k.ctx.program N s s') {f : Expr} (hf : ∀ x, f.id? = some x → N x) :
    calleeClass? k s' f = calleeClass? k s f := by
  unfold FlatClosure.calleeClass?
  split
  · rename_i x hx
    rw [h.isVariable x (hf x hx)]
  · rfl

/-- The property passes to steps one after the other, and operations on values have it.  What comes
after a look at the state is the same for states that are the `same`: if nothing else is said, it
does not depend on the open calls below the innermost one. -/
structure StepLaw (P : ∀ {α : Type}, EvalM α → Prop)
    (same : Machine → Machine → Prop := SameTop) : Prop where
  heap : ∀ ⦃s s'⦄, same s s' → s'.heap = s.heap := by exact fun _ _ h => SameTop.heap h
  quiet : ∀ {α : Type} {x : EvalM α}, Quiet x → P x
  bind : ∀ {α β : Type} {x : EvalM α} {f : α → EvalM β}, P x → (∀ a, P (f a)) → P (x >>= f)
  look : ∀ {α : Type} {f : Machine → EvalM α}, (∀ ⦃s s'⦄, same s s' → f s' = f s) →
    (∀ s, P (f s)) → P (get >>= f)

/-- An object of a class when it is made. -/
def ClassDef.fresh (c : ClassDef) : Instance :=
  ⟨c.name, .ofList (c.fields.map fun v => (v.name, v.value.toValue))⟩

/-- What has to be known of a property for it to hold of expressions that have only the given
effects. -/
structure EvalLaw (p : Program) (ok : Effect → Prop) (P : ∀ {α : Type}, EvalM α → Prop)
    (same : Machine → Machine → Prop := SameTop) : Prop extends StepLaw P same where
  reads : ∀ ⦃s s'⦄, same s s' → SameReads p (fun x => ok (.read x)) s s' := by
    exact fun _ _ h => SameTop.reads h _ _
  object : ∀ {x : String} {c : ClassDef}, p.class? x = some c → P (newObject c.fresh)
  init : P (modify (Machine.initGlobals p) : EvalM Unit)
  gather : ∀ x, ok (.bind x) → ∀ {step : EvalM (Option Value)}, P step →
    ∀ items, P (gatherShadowing x step items)

/-- What has to be known of `P'` for it to hold of statements that have only the given effects, if
`P` holds of expressions. -/
structure ExecLaw (p : Program) (ok : Effect → Prop) (P P' : ∀ {α : Type}, EvalM α → Prop)
    (same : Machine → Machine → Prop := SameTop) : Prop where
  eval : EvalLaw p ok P same
  block : StepLaw P' same
  le : ∀ {α : Type} {x : EvalM α}, P x → P' x
  store : ∀ x, ok (.write x) → ∀ v, P' (modify (·.store x v) : EvalM Unit)
  declare : ∀ x, ok (.global x) → P' (modify (·.declareGlobal x) : EvalM Unit)
  field : ∀ v x w, P' (storeField v x w)
  closure : ∀ f, ok (.closure f) → P' (fail (.unconvertedClosure f.name) : EvalM Flow)

/-- What has to be known of `P` for it to hold of calls, if in the body of `f`, which has only the
effects `ok f`, `Q f` holds of expressions and `Q' f` of statements. -/
structure CallLaw (p : Program) (P : ∀ {α : Type}, EvalM α → Prop) (ok : FunDef → Effect → Prop)
    (Q Q' : FunDef → ∀ {α : Type}, EvalM α → Prop)
    (same : Machine → Machine → Prop := SameTop)
    (sameIn : FunDef → Machine → Machine → Prop := fun _ => SameTop) : Prop where
  step : StepLaw P same
  depth : ∀ ⦃s s'⦄, same s s' → s'.frames.length = s.frames.length := by
    exact fun _ _ h => SameTop.depth h
  exec : ∀ f, ExecLaw p (ok f) (Q f) (Q' f) (sameIn f)
  effects : ∀ f, Callable p f → ∀ m ∈ f.collect effects, ok f m
  le : ∀ f {α : Type} {x : EvalM α}, P x → Q f x
  frame : ∀ f args, args.length = f.arity → ∀ {α : Type} {act : EvalM α}, Q' f act →
    P (withFrame (f.frame args) act)

namespace StepLaw

variable {P : ∀ {α : Type}, EvalM α → Prop} {same : Machine → Machine → Prop}
  (law : StepLaw P same)

include law

theorem pure (a : α) : P (pure a : EvalM α) := law.quiet (.pure a)

theorem fail (e : EvalError) (h : (Stop.error e).isUnconverted = false) :
    P (fail e : EvalM α) := law.quiet (.fail e h)

theorem branch {v : Value} {x y : EvalM α} (hx : P x) (hy : P y) :
    P (get >>= fun s => if v.truthy s.heap then x else y) := by
  refine law.look (fun _ _ h => by simp only [law.heap h]) fun s => ?_
  split
  · exact hx
  · exact hy

theorem loopWhile {cond : EvalM Bool} {body : EvalM Flow} (hc : P cond) (hb : P body) (n : Nat) :
    P (loopWhile cond body n) := by
  induction n with
  | zero => exact law.quiet (.throw _ rfl)
  | succ n ih =>
    refine law.bind hc fun b => ?_
    cases b with
    | false => exact law.pure _
    | true =>
      refine law.bind hb fun flow => ?_
      cases flow with
      | breakLoop | ret => exact law.pure _
      | normal | continueLoop => exact ih

theorem loopEach {x : String} {body : EvalM Flow}
    (hx : ∀ v, P (modify (·.store x v) : EvalM Unit)) (hb : P body) (items : List Value) :
    P (loopEach x body items) := by
  induction items with
  | nil => exact law.pure _
  | cons v vs ih =>
    refine law.bind (hx v) fun _ => law.bind hb fun flow => ?_
    cases flow with
    | breakLoop | ret => exact law.pure _
    | normal | continueLoop => exact ih

theorem gather {x : String} (hx : ∀ v, P (modify (·.shadow x v) : EvalM Unit))
    {step : EvalM (Option Value)} (hs : P step) (items : List Value) :
    P (gather x step items) := by
  induction items with
  | nil => exact law.pure _
  | cons v vs ih =>
    exact law.bind (hx v) fun _ => law.bind hs fun _ => law.bind ih fun _ => law.pure _

theorem comprehend {k : Calls} {c : Option Expr} {e : Expr} (hc : P (Expr.holds k c))
    (he : P (e.eval k)) : P (comprehend k c e) := by
  refine law.bind hc fun b => ?_
  cases b with
  | true => exact law.bind he fun _ => law.pure _
  | false => exact law.pure _

end StepLaw

/-! ### Expressions -/

namespace EvalLaw

variable {k : Calls} {ok : Effect → Prop} {P : ∀ {α : Type}, EvalM α → Prop}
  {same : Machine → Machine → Prop}

section Calls

variable (law : EvalLaw k.ctx.program ok P same) (hk : k.Have P)

include law hk

theorem invoke (ref : Nat) (method : String) (args : List Value) :
    P (invoke k ref method args) := by
  refine law.look (fun _ _ h => by simp only [law.heap h]) fun s => ?_
  dsimp only
  split
  · rename_i f hf
    exact hk f (callable_of_method? hf) _
  · exact law.fail _ rfl

theorem instantiate {c : ClassDef} (new : P (newObject c.fresh)) (args : List Value) :
    P (instantiate k c args) := by
  refine law.bind new fun ref => ?_
  split
  · exact law.bind (law.invoke hk _ _ _) fun _ => law.pure _
  · split
    · exact law.pure _
    · exact law.fail _ rfl

theorem callNamed (name : String) (args : List Value) : P (callNamed k name args) := by
  refine law.bind law.init fun _ => ?_
  split
  · rename_i f hf
    exact hk f (callable_of_function? hf) _
  · exact law.fail _ rfl

theorem callValue (callee : Value) (args : List Value) : P (callValue k callee args) := by
  cases callee with
  | function name => exact law.callNamed hk name args
  | object ref => exact law.invoke hk ref _ args
  | _ => exact law.look (fun _ _ h => by simp only [law.heap h]) fun _ => law.fail _ rfl

theorem callMethodOf (v : Value) (method : String) (args : List Value) :
    P (callMethodOf k v method args) := by
  unfold FlatClosure.callMethodOf
  split
  · exact law.invoke hk _ _ _
  · split
    · exact law.quiet (.append _ _)
    · exact law.fail _ rfl
  · exact law.look (fun _ _ h => by simp only [law.heap h]) fun _ => law.fail _ rfl

end Calls

mutual

/-- The law holds along the evaluation of an expression if it holds along calls. -/
theorem eval (law : EvalLaw k.ctx.program ok P same) (hk : k.Have P) (e : Expr)
    (hok : ∀ m ∈ e.collect effects, ok m) : P (e.eval k) := by
  cases e with
  | literal v => exact law.pure _
  | id x s =>
    have hx : ok (.read x) := hok _ List.mem_cons_self
    refine law.look (fun _ _ h => by simp only [(law.reads h).lookup? x hx]) fun s => ?_
    split
    · exact law.pure _
    · exact law.fail _ rfl
  | unary op a =>
    obtain ⟨-, ha⟩ := List.forall_mem_append.1 hok
    exact law.bind (law.eval hk a ha) fun _ => law.quiet (.applyUnary _ _)
  | binary op l r =>
    simp only [Expr.collect, List.forall_mem_append] at hok
    obtain ⟨⟨-, hl⟩, hr⟩ := hok
    have both : P (l.eval k >>= fun a => r.eval k >>= fun b => applyBinary op a b) :=
      law.bind (law.eval hk l hl) fun _ => law.bind (law.eval hk r hr) fun _ =>
        law.quiet (.applyBinary _ _ _)
    -- only `and` and `or` may leave the right operand alone
    cases op with
    | and =>
      exact law.bind (law.eval hk l hl) fun _ => law.branch (law.eval hk r hr) (law.pure _)
    | or => exact law.bind (law.eval hk l hl) fun _ => law.branch (law.pure _) (law.eval hk r hr)
    | _ => exact both
  | builtin1 name a =>
    obtain ⟨-, ha⟩ := List.forall_mem_append.1 hok
    exact law.bind (law.eval hk a ha) fun _ => law.quiet (.applyBuiltin1 _ _)
  | builtin2 name l r =>
    simp only [Expr.collect, List.forall_mem_append] at hok
    obtain ⟨⟨-, hl⟩, hr⟩ := hok
    exact law.bind (law.eval hk l hl) fun _ => law.bind (law.eval hk r hr) fun _ =>
      law.quiet (.applyBuiltin2 _ _ _)
  | call f args =>
    simp only [Expr.collect, List.forall_mem_append] at hok
    obtain ⟨⟨-, hf⟩, hargs⟩ := hok
    -- a callee that is a plain name is read, whether it names a class or not
    have callee (x : String) (hx : f.id? = some x) : ok (.read x) := hf _ (read_mem_effects hx)
    refine law.look (fun _ _ h => by simp only [(law.reads h).calleeClass? callee]) fun s => ?_
    split
    · -- a callee that names a class is not evaluated
      rename_i c hc
      obtain ⟨x, -, -, hc⟩ := calleeClass?_eq_some.1 hc
      exact law.bind (law.evalList hk args hargs) fun vs => law.instantiate hk (law.object hc) vs
    · exact law.bind (law.eval hk f hf) fun v => law.bind (law.evalList hk args hargs) fun vs =>
        law.callValue hk v vs
  | field o x =>
    obtain ⟨-, ho⟩ := List.forall_mem_append.1 hok
    exact law.bind (law.eval hk o ho) fun _ => law.quiet (.getField _ _)
  | index o i =>
    simp only [Expr.collect, List.forall_mem_append] at hok
    obtain ⟨⟨-, ho⟩, hi⟩ := hok
    exact law.bind (law.eval hk o ho) fun _ => law.bind (law.eval hk i hi) fun _ =>
      law.quiet (.getIndex _ _)
  | methodCall o m args =>
    simp only [Expr.collect, List.forall_mem_append] at hok
    obtain ⟨⟨-, ho⟩, hargs⟩ := hok
    exact law.bind (law.eval hk o ho) fun v => law.bind (law.evalList hk args hargs) fun vs =>
      law.callMethodOf hk v m vs
  | list es =>
    obtain ⟨-, hes⟩ := List.forall_mem_append.1 hok
    exact law.bind (law.evalList hk es hes) fun _ => law.quiet (.newList _)
  | set es =>
    obtain ⟨-, hes⟩ := List.forall_mem_append.1 hok
    exact law.bind (law.evalList hk es hes) fun _ =>
      law.look (fun _ _ h => by simp only [law.heap h]) fun _ => law.quiet (.newList _)
  | tuple es =>
    obtain ⟨-, hes⟩ := List.forall_mem_append.1 hok
    exact law.bind (law.evalList hk es hes) fun _ => law.pure _
  | comprehension kind e x it c =>
    simp only [Expr.collect, List.forall_mem_append] at hok
    obtain ⟨⟨-, hit⟩, hscope⟩ := hok
    obtain ⟨hx, hin⟩ := List.forall_mem_cons.1 hscope
    -- the element and the condition are in the scope of the variable, the iterable is not
    obtain ⟨he, hc⟩ := List.forall_mem_append.1 hin
    have item : P (FlatClosure.comprehend k c e) :=
      law.comprehend (law.holds hk c hc) (law.eval hk e he)
    refine law.bind (law.eval hk it hit) fun _ => law.bind (law.quiet (.itemsOf _ _)) fun items =>
      law.bind (law.gather x hx item items) fun vs => ?_
    cases kind with
    | list => exact law.quiet (.newList _)
    | set => exact law.look (fun _ _ h => by simp only [law.heap h]) fun _ => law.quiet (.newList _)
  | ifElse c t e =>
    simp only [Expr.collect, List.forall_mem_append] at hok
    obtain ⟨⟨⟨-, hc⟩, ht⟩, he⟩ := hok
    exact law.bind (law.eval hk c hc) fun _ => law.branch (law.eval hk t ht) (law.eval hk e he)
  | construct name s =>
    unfold Expr.eval
    split
    · rename_i c hc
      exact law.instantiate hk (law.object hc) []
    · exact law.fail _ rfl
  | lambda => exact law.fail _ rfl

theorem evalList (law : EvalLaw k.ctx.program ok P same) (hk : k.Have P) (es : List Expr)
    (hok : ∀ m ∈ Expr.collectList effects es, ok m) : P (Expr.evalList k es) := by
  cases es with
  | nil => exact law.pure _
  | cons e es =>
    obtain ⟨he, hes⟩ := List.forall_mem_append.1 hok
    exact law.bind (law.eval hk e he) fun _ => law.bind (law.evalList hk es hes) fun _ => law.pure _

theorem holds (law : EvalLaw k.ctx.program ok P same) (hk : k.Have P) (c : Option Expr)
    (hok : ∀ m ∈ Expr.collectOption effects c, ok m) : P (Expr.holds k c) := by
  cases c with
  | none => exact law.pure _
  | some c =>
    exact law.bind (law.eval hk c hok) fun _ =>
      law.look (fun _ _ h => by simp only [law.heap h]) fun _ => law.pure _

end

end EvalLaw

/-! ### Statements -/

namespace ExecLaw

variable {k : Calls} {ok : Effect → Prop} {P P' : ∀ {α : Type}, EvalM α → Prop}
  {same : Machine → Machine → Prop}

section Assignments

variable (law : ExecLaw k.ctx.program ok P P' same) (hk : k.Have P)

include law hk

theorem evalExpr (e : Expr) (hok : ∀ m ∈ e.collect effects, ok m) : P' (e.eval k) :=
  law.le (law.eval.eval hk e hok)

theorem assign {value : Expr} (v : Value) (t : Target)
    (hok : ∀ m ∈ t.collect effects value, ok m) : P' (t.assign k v) := by
  cases t with
  | id x => exact law.store x (hok _ (List.mem_singleton_self _)) v
  | field o x => exact law.block.bind (law.evalExpr hk o hok) fun _ => law.field _ _ _
  | index o i =>
    obtain ⟨ho, hi⟩ := List.forall_mem_append.1 hok
    exact law.block.bind (law.evalExpr hk o ho) fun _ =>
      law.block.bind (law.evalExpr hk i hi) fun _ => law.block.quiet (.storeItem _ _ _)
  | ignore => exact law.block.pure _

theorem assignSlots {value : Expr} (starOpen : Bool) (slots : List Slot) (items : List Value)
    (hok : ∀ m ∈ Slot.collectList effects value slots, ok m) :
    P' (assignSlots k starOpen slots items) := by
  induction slots generalizing starOpen items with
  | nil => exact law.block.pure _
  | cons slot slots ih =>
    obtain ⟨ht, hrest⟩ := List.forall_mem_append.1 hok
    unfold FlatClosure.assignSlots
    split
    · exact law.block.bind (law.block.quiet (.newList _)) fun v =>
        law.block.bind (law.assign hk v slot.target ht) fun _ => ih _ _ hrest
    · exact law.block.bind (law.assign hk _ slot.target ht) fun _ => ih _ _ hrest

theorem destructure {value : Expr} (slots : List Slot) (v : Value)
    (hok : ∀ m ∈ Slot.collectList effects value slots, ok m) : P' (destructure k slots v) := by
  refine law.block.bind (law.block.quiet (.itemsOf v _)) fun items => ?_
  dsimp only
  generalize slots.length - _ = fixed
  split
  · exact law.block.fail _ rfl
  · exact law.assignSlots hk true slots items hok

end Assignments

mutual

/-- The law holds along a statement if it holds along calls. -/
theorem exec (law : ExecLaw k.ctx.program ok P P' same) (hk : k.Have P) (s : Stmt)
    (hok : ∀ m ∈ s.collect effects, ok m) : P' (s.exec k) := by
  have e (e : Expr) (h : ∀ m ∈ e.collect effects, ok m) := law.evalExpr hk e h
  have step := law.block
  cases s with
  | assign x v =>
    simp only [Stmt.collect, List.forall_mem_append] at hok
    obtain ⟨⟨-, hv⟩, hx⟩ := hok
    exact step.bind (e v hv) fun w =>
      step.bind (law.store x (hx _ (List.mem_singleton_self _)) w) fun _ => step.pure _
  | unpack slots v =>
    simp only [Stmt.collect, List.forall_mem_append] at hok
    obtain ⟨⟨-, hv⟩, hslots⟩ := hok
    exact step.bind (e v hv) fun w => step.bind (law.destructure hk slots w hslots) fun _ =>
      step.pure _
  | ret v =>
    cases v with
    | none => exact step.pure _
    | some v => exact step.bind (e v hok) fun _ => step.pure _
  | expr v => exact step.bind (e v hok) fun _ => step.pure _
  | setField o x v =>
    simp only [Stmt.collect, List.forall_mem_append] at hok
    obtain ⟨⟨-, ho⟩, hv⟩ := hok
    exact step.bind (e o ho) fun _ => step.bind (e v hv) fun _ =>
      step.bind (law.field _ _ _) fun _ => step.pure _
  | setIndex o i v =>
    simp only [Stmt.collect, List.forall_mem_append] at hok
    obtain ⟨⟨⟨-, ho⟩, hi⟩, hv⟩ := hok
    exact step.bind (e o ho) fun _ => step.bind (e i hi) fun _ => step.bind (e v hv) fun _ =>
      step.bind (step.quiet (.storeItem _ _ _)) fun _ => step.pure _
  | ifElse c thn els =>
    simp only [Stmt.collect, List.forall_mem_append] at hok
    obtain ⟨⟨⟨-, hc⟩, hthn⟩, hels⟩ := hok
    exact step.bind (e c hc) fun _ =>
      step.branch (law.execList hk thn hthn) (law.execList hk els hels)
  | whileLoop c body =>
    simp only [Stmt.collect, List.forall_mem_append] at hok
    obtain ⟨⟨-, hc⟩, hbody⟩ := hok
    exact step.loopWhile (law.le (law.eval.holds hk (some c) hc)) (law.execList hk body hbody) _
  | forEach x it body els =>
    simp only [Stmt.collect, List.forall_mem_append] at hok
    obtain ⟨⟨⟨⟨-, hit⟩, hx⟩, hbody⟩, hels⟩ := hok
    have store := law.store x (hx _ (List.mem_singleton_self _))
    refine step.bind (e it hit) fun v => step.bind (step.quiet (.itemsOf v _)) fun vs =>
      step.bind (step.loopEach store (law.execList hk body hbody) vs) fun flow => ?_
    cases flow with
    | breakLoop | ret => exact step.pure _
    | normal | continueLoop => exact law.execOption hk els hels
  | pass | breakLoop | continueLoop => exact step.pure _
  | nonlocal => exact step.fail _ rfl
  | global x =>
    exact step.bind (law.declare x (hok _ (List.mem_singleton_self _))) fun _ => step.pure _
  | closure f => exact law.closure f (hok _ (List.mem_singleton_self _))

theorem execList (law : ExecLaw k.ctx.program ok P P' same) (hk : k.Have P) (ss : List Stmt)
    (hok : ∀ m ∈ Stmt.collectList effects ss, ok m) : P' (Stmt.execList k ss) := by
  cases ss with
  | nil => exact law.block.pure _
  | cons s ss =>
    obtain ⟨hs, hss⟩ := List.forall_mem_append.1 hok
    refine law.block.bind (law.exec hk s hs) fun flow => ?_
    cases flow with
    | normal => exact law.execList hk ss hss
    | _ => exact law.block.pure _

theorem execOption (law : ExecLaw k.ctx.program ok P P' same) (hk : k.Have P)
    (els : Option (List Stmt)) (hok : ∀ m ∈ Stmt.collectOption effects els, ok m) :
    P' (Stmt.execOption k els) := by
  cases els with
  | none => exact law.block.pure _
  | some ss => exact law.execList hk ss hok

end

end ExecLaw

/-! ### Calls -/

/-- The law holds along every call that code can make. -/
theorem CallLaw.callFunction {ctx : Context} {P : ∀ {α : Type}, EvalM α → Prop}
    {ok : FunDef → Effect → Prop} {Q Q' : FunDef → ∀ {α : Type}, EvalM α → Prop}
    {same : Machine → Machine → Prop} {sameIn : FunDef → Machine → Machine → Prop}
    (law : CallLaw ctx.program P ok Q Q' same sameIn) (fuel : Nat) : (ctx.calls fuel).Have P := by
  -- a body has one unit of fuel less for the calls that it makes
  induction fuel with
  | zero =>
    intro f hf args
    change P (FlatClosure.callFunction ctx 0 f args)
    unfold FlatClosure.callFunction
    split
    · exact law.step.fail _ rfl
    · refine law.step.look (fun _ _ h => by simp only [law.depth h]) fun s => ?_
      split
      · exact law.step.fail _ rfl
      · exact law.step.quiet (.throw _ rfl)
  | succ n ih =>
    intro f hf args
    change P (FlatClosure.callFunction ctx (n + 1) f args)
    unfold FlatClosure.callFunction
    split
    · exact law.step.fail _ rfl
    · rename_i arity
      refine law.step.look (fun _ _ h => by simp only [law.depth h]) fun s => ?_
      split
      · exact law.step.fail _ rfl
      · have calls : (ctx.calls n).Have (Q f) := fun g hg args => law.le f (ih g hg args)
        refine law.step.bind (law.frame f args (Decidable.not_not.1 arity) ?_) fun _ =>
          law.step.quiet (.flowValue _)
        exact (law.exec f).execList calls f.body (law.effects f hf)

end FlatClosure

import FlatClosure.Proofs.Creation
import FlatClosure.Proofs.Depth
import FlatClosure.Proofs.Lifting
import Mathlib.Logic.Basic

/-!
# The methods of the class of a closure

The class of a closure has two methods: one with the body of the closure, which runs when the object
is called, and an empty one, which runs when the object is made.  The evaluator looks for both by
their names and takes the first method of the name.  `Conventions.check` accepts all identifiers,
also one name for both methods; the constructor is then never found.

* `run_callValue_lift` : calling the object runs the body of the closure.
* `run_instantiate_lift` : making the object runs nothing, if the methods have different names.
* `lifted_methods` : **what is found by the two names, and what follows for making the object and
  for calling it.**
* `same_name_runs_body` : one name for both methods is accepted, and the body runs when the object
  is made.
-/

namespace FlatClosure

section Methods

variable {ctx : Context} {closure : FunDef} {cls receiver : String} {captures : Captures}

/-- The state in which an object for a closure was just made. -/
def Machine.made (s : Machine) (cls : String) (captures : Captures) : Machine :=
  { s with heap := s.heap.pushObject ⟨cls, blankFields captures⟩ }

@[simp] theorem Machine.frames_made (s : Machine) (cls : String) (captures : Captures) :
    (s.made cls captures).frames = s.frames := rfl

/-- Making the object of a closure enters the method that has the name of the constructor. -/
theorem run_instantiate_lift_enter {m : FunDef}
    (hcls : ctx.program.class? cls = some (lift closure cls captures receiver ctx.names).cls)
    (hm : (lift closure cls captures receiver ctx.names).cls.method? ctx.names.constructor = some m)
    (n : Nat) (s : Machine) (args : List Value) :
    (instantiate (ctx.calls n) (lift closure cls captures receiver ctx.names).cls args).run s =
      (callFunction ctx n m (.object s.heap.objects.size :: args) >>= fun _ =>
        pure (.object s.heap.objects.size)).run (s.made cls captures) :=
  instantiate_lift_of_method (k := ctx.calls n) hcls hm args

/-- Calling the object of a closure enters the call method. -/
theorem run_callValue_lift_enter
    (hcls : ctx.program.class? cls = some (lift closure cls captures receiver ctx.names).cls)
    {s : Machine} {ref : Nat} (hobj : (s.heap.object ref).cls = cls) (n : Nat)
    (args : List Value) :
    (callValue (ctx.calls n) (.object ref) args).run s =
      (callFunction ctx n (callMethod closure cls receiver ctx.names) (.object ref :: args)).run
        s := by
  refine run_invoke (k := ctx.calls n) ?_
  change (ctx.program.class? (s.heap.object ref).cls).bind (·.method? ctx.names.callMethod) = _
  rw [hobj, hcls, Option.bind_some, method?_lift_callMethod]

/-- Calling the object of a closure runs the body of the closure, unless the arguments do not fit or
there are too many open calls. -/
theorem run_callValue_lift
    (hcls : ctx.program.class? cls = some (lift closure cls captures receiver ctx.names).cls)
    {s : Machine} {ref : Nat} (hobj : (s.heap.object ref).cls = cls) (n : Nat)
    (args : List Value) :
    (callValue (ctx.calls (n + 1)) (.object ref) args).run s =
      if args.length ≠ closure.arity then
        (.error (.error
          (.arityMismatch ctx.names.callMethod (closure.arity + 1) (args.length + 1))), s)
      else if ctx.maxDepth ≤ s.frames.length then
        (.error (.error (.recursionLimit ctx.maxDepth)), s)
      else (withFrame ((callMethod closure cls receiver ctx.names).frame (.object ref :: args))
        (Stmt.execList (ctx.calls n) closure.body) >>= flowValue).run s := by
  have fits : (Value.object ref :: args).length ≠
      (callMethod closure cls receiver ctx.names).arity ↔ args.length ≠ closure.arity :=
    not_congr Nat.succ_inj
  rw [run_callValue_lift_enter hcls hobj, run_callFunction]
  exact if_congr fits rfl rfl

/-- The constructor takes the object and nothing else, and it does nothing. -/
theorem run_emptyConstructor (names : Conventions) (n : Nat) (v : Value) (args : List Value)
    (s : Machine) :
    (callFunction ctx (n + 1) (emptyConstructor cls receiver names) (v :: args)).run s =
      if args ≠ [] then
        (.error (.error (.arityMismatch names.constructor 1 (args.length + 1))), s)
      else if ctx.maxDepth ≤ s.frames.length then
        (.error (.error (.recursionLimit ctx.maxDepth)), s)
      else (.ok .none, s) := by
  have fits : (v :: args).length ≠ (emptyConstructor cls receiver names).arity ↔ args ≠ [] := by
    simp [emptyConstructor, FunDef.arity]
  rw [run_callFunction]
  exact if_congr fits rfl (if_congr .rfl rfl rfl)

/-- Making an object of the class of a closure, if its methods have different names: the closure
does not matter. -/
theorem run_instantiate_lift (distinct : ctx.names.callMethod ≠ ctx.names.constructor)
    (hcls : ctx.program.class? cls = some (lift closure cls captures receiver ctx.names).cls)
    (n : Nat) (s : Machine) (args : List Value) :
    (instantiate (ctx.calls (n + 1)) (lift closure cls captures receiver ctx.names).cls args).run
        s =
      if args ≠ [] then
        (.error (.error (.arityMismatch ctx.names.constructor 1 (args.length + 1))),
          s.made cls captures)
      else if ctx.maxDepth ≤ s.frames.length then
        (.error (.error (.recursionLimit ctx.maxDepth)), s.made cls captures)
      else (.ok (.object s.heap.objects.size), s.made cls captures) := by
  have method : (lift closure cls captures receiver ctx.names).cls.method?
      ctx.names.constructor = some (emptyConstructor cls receiver ctx.names) := by
    rw [method?_lift_constructor, if_neg distinct]
  rw [run_instantiate_lift_enter hcls method, run_bind, run_emptyConstructor, Machine.frames_made]
  by_cases given : args ≠ []
  · rw [if_pos given, if_pos given]
  · rw [if_neg given, if_neg given]
    by_cases full : ctx.maxDepth ≤ s.frames.length
    · rw [if_pos full, if_pos full]
    · rw [if_neg full, if_neg full]
      rfl

/-- Making an object of the class of a closure, if its methods have the same name, calls the object
as well. -/
theorem run_instantiate_lift_same (same : ctx.names.callMethod = ctx.names.constructor)
    (hcls : ctx.program.class? cls = some (lift closure cls captures receiver ctx.names).cls)
    (n : Nat) (s : Machine) (args : List Value) :
    (instantiate (ctx.calls n) (lift closure cls captures receiver ctx.names).cls args).run s =
      (callValue (ctx.calls n) (.object s.heap.objects.size) args >>= fun _ =>
        pure (.object s.heap.objects.size)).run (s.made cls captures) := by
  have method : (lift closure cls captures receiver ctx.names).cls.method?
      ctx.names.constructor = some (callMethod closure cls receiver ctx.names) := by
    rw [method?_lift_constructor, if_pos same]
  have cls_made : ((s.made cls captures).heap.object s.heap.objects.size).cls = cls :=
    congrArg Instance.cls (s.heap.object_pushObject_self _)
  rw [run_instantiate_lift_enter hcls method, run_bind, run_bind,
    run_callValue_lift_enter hcls cls_made]

end Methods

/-- The methods of the class `c` of a closure, and what the evaluator does with them. -/
structure HasMethods (names : Conventions) (closure : FunDef) (cls receiver : String)
    (captures : Captures) (c : ClassDef) : Prop where
  /-- The call method has the parameters of the closure after the receiver, and its body. -/
  call : ∃ f, c.method? names.callMethod = some f ∧
    f.params = ⟨receiver, .cls cls⟩ :: closure.params ∧ f.inits = closure.inits ∧
      f.body = closure.body
  /-- The empty constructor is found by its name, if that is a name of its own. -/
  empty : names.callMethod ≠ names.constructor →
    c.method? names.constructor = some (emptyConstructor cls receiver names)
  /-- If it is not, the call method hides the constructor. -/
  hidden : names.callMethod = names.constructor →
    c.method? names.constructor = some (callMethod closure cls receiver names)
  /-- Making the object only makes it, but it takes a call. -/
  makes : names.callMethod ≠ names.constructor →
    ∀ (p : Program) (d n : Nat) (s : Machine) (args : List Value), p.class? cls = some c →
      (instantiate (Context.calls ⟨p, names, d⟩ (n + 1)) c args).run s =
        if args ≠ [] then
          (.error (.error (.arityMismatch names.constructor 1 (args.length + 1))),
            s.made cls captures)
        else if d ≤ s.frames.length then
          (.error (.error (.recursionLimit d)), s.made cls captures)
        else (.ok (.object s.heap.objects.size), s.made cls captures)
  /-- If the constructor is hidden, making the object calls it as well. -/
  makesAndCalls : names.callMethod = names.constructor →
    ∀ (p : Program) (d n : Nat) (s : Machine) (args : List Value), p.class? cls = some c →
      (instantiate (Context.calls ⟨p, names, d⟩ n) c args).run s =
        (callValue (Context.calls ⟨p, names, d⟩ n) (.object s.heap.objects.size) args >>= fun _ =>
          pure (.object s.heap.objects.size)).run (s.made cls captures)
  /-- Calling an object of the class runs the body of the closure. -/
  calls : ∀ (p : Program) (d n : Nat) (s : Machine) (ref : Nat) (args : List Value),
    p.class? cls = some c → (s.heap.object ref).cls = cls →
      (callValue (Context.calls ⟨p, names, d⟩ (n + 1)) (.object ref) args).run s =
        if args.length ≠ closure.arity then
          (.error (.error
            (.arityMismatch names.callMethod (closure.arity + 1) (args.length + 1))), s)
        else if d ≤ s.frames.length then (.error (.error (.recursionLimit d)), s)
        else (withFrame ((callMethod closure cls receiver names).frame (.object ref :: args))
          (Stmt.execList (Context.calls ⟨p, names, d⟩ n) closure.body) >>= flowValue).run s

/-- **The methods of the class of a closure.**  If the conventions have different names for the two
methods, each is found by its name, making an object of the class does not run the closure, and
calling the object does.  If they have one name for both, the constructor is never found, and making
the object runs the closure. -/
theorem lifted_methods (names : Conventions) (closure : FunDef) (cls receiver : String)
    (captures : Captures) :
    HasMethods names closure cls receiver captures
      (lift closure cls captures receiver names).cls where
  call := ⟨_, method?_lift_callMethod names, rfl, rfl, rfl⟩
  empty distinct := by rw [method?_lift_constructor, if_neg distinct]
  hidden same := by rw [method?_lift_constructor, if_pos same]
  makes distinct _ _ n s args hcls := run_instantiate_lift distinct hcls n s args
  makesAndCalls same _ _ n s args hcls := run_instantiate_lift_same same hcls n s args
  calls _ _ n _ _ args hcls hobj := run_callValue_lift hcls hobj n args

/-- A closure that prints `1`. -/
def printer (params : List Param) : FunDef where
  name := "g"
  params := params
  ret := .int
  inits := []
  body := [.expr (.builtin1 "print" (.literal (.num 1))), .ret (some (.literal (.num 1)))]
  span := .dummy

/-- A program that calls `f`, which declares the closure and does not call it. -/
def declaring (params : List Param) : Program where
  funs :=
    [{ name := "f"
       params := []
       ret := .none
       inits := []
       body := [.closure (printer params)]
       span := .dummy }]
  stmts := [.expr (.call (.id "f" .dummy) [])]

/-- With different names, making an object for the closure prints nothing, and calling it does. -/
theorem lifted_methods_printer :
    (instantiate (Context.calls ⟨(declaring []).converted {}, {}, 200⟩ 1)
      (lift (printer []) "Clo_0_g" .empty "self" {}).cls []).run {} =
        (.ok (.object 0), Machine.made {} "Clo_0_g" .empty) ∧
    ((callValue (Context.calls ⟨(declaring []).converted {}, {}, 200⟩ 1) (.object 0) []).run
      (Machine.made {} "Clo_0_g" .empty)).2.output = "1\n" := by
  have methods := lifted_methods {} (printer []) "Clo_0_g" "self" .empty
  refine ⟨methods.makes (by decide) _ 200 0 {} [] rfl, ?_⟩
  rw [methods.calls _ 200 0 _ 0 [] rfl rfl]
  rfl

/-- One name for both methods. -/
def sameName : Conventions := { callMethod := "m", constructor := "m" }

/-- **One name for both methods.**  It is accepted, but then the closure runs where it is declared,
and a closure that has parameters cannot be declared at all. -/
theorem same_name_runs_body :
    sameName.check = .ok sameName ∧
    (∃ q artifacts c, convert sameName (declaring []) = .ok (q, artifacts) ∧
      q.class? "Clo_0_g" = some c ∧
      (c.method? sameName.constructor).map (·.body) = some (printer []).body ∧
      ((Context.mk q sameName 200).run 4).toOption = some "1\n") ∧
    ∃ q artifacts, convert sameName (declaring [⟨"y", .int⟩]) = .ok (q, artifacts) ∧
      (Context.mk q sameName 200).run 4 = .error (.error (.arityMismatch "m" 2 1)) := by
  refine ⟨rfl, ⟨(declaring []).converted sameName, _, _, (convert_eq_ok _).2 ⟨?_, rfl, rfl⟩, rfl,
    rfl, ?_⟩, (declaring [⟨"y", .int⟩]).converted sameName, _,
    (convert_eq_ok _).2 ⟨?_, rfl, rfl⟩, rfl⟩
  all_goals decide +kernel

end FlatClosure

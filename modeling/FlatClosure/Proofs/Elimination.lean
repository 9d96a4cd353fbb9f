import FlatClosure.Proofs.Acceptance
import FlatClosure.Proofs.Generated
import FlatClosure.Proofs.Laws
import FlatClosure.Proofs.Placement
import FlatClosure.Proofs.Rebuilt
import FlatClosure.Proofs.Shape

/-!
# No closures are left

Closure conversion answers with a program in which no function is declared by a statement, so the
evaluator never comes across such a statement.

* `Program.converted_eliminated` : what is not left in the converted program.
* `answers_flat` : whatever is asked of a program without closures, no answer is that there is a
  closure.
* `closures_eliminated` : **conversion eliminates closures, and knows where each of them stands.**
-/

namespace FlatClosure

variable {α : Type}

/-! ### The converted program -/

/-- `q` has no closures, and its functions, and its classes that `p` does not have, are without
lambda expressions and more. -/
structure Eliminated (p q : Program) : Prop where
  functions : ∀ f ∈ q.funs, f.closures = [] ∧ f.collect lambdas = []
  methods : ∀ c ∈ q.classes, ∀ m ∈ c.methods, m.closures = []
  topLevel : Stmt.collectList closures q.stmts = []
  lifted : ∀ c ∈ q.classes.drop p.classes.length, ∀ m ∈ c.methods,
    m.collect lambdas = [] ∧ m.collect constructs = [] ∧ m.collect declaredNonlocal = []

section Converted

variable {names : Conventions} {p : Program}

theorem FunDef.closures_converted (f : FunDef) (ds : List Declaration) :
    (f.converted names ds).closures = [] := by
  refine List.eq_nil_iff_forall_not_mem.2 fun c hc => ?_
  rcases FunDef.mem_collect_converted closures_steady hc with hc | ⟨d, -, hc⟩
  · rw [FunDef.collect, closures_exceptClosures] at hc
    cases hc
  · cases hc

theorem FunDef.lambdas_converted {f : FunDef} (h : f.collect lambdas = [])
    (ds : List Declaration) : (f.converted names ds).collect lambdas = [] := by
  refine List.eq_nil_iff_forall_not_mem.2 fun c hc => ?_
  rcases FunDef.mem_collect_converted lambdas_steady hc with hc | ⟨d, -, hc⟩
  · rw [Collector.exceptClosures_eq_self fun _ => rfl, h] at hc
    cases hc
  · cases hc

theorem Declaration.collect_lifted {d : Declaration} (flat : d.func.closures = [])
    {C : Collector α} (hC : C.Steady) (h : d.func.collect C = []) {m : FunDef}
    (hm : m ∈ (d.lifted names).cls.methods) : m.collect C = [] := by
  refine List.eq_nil_iff_forall_not_mem.2 fun y hy => ?_
  have inClosure := Declaration.mem_collect_lifted flat hC hm hy
  rw [h] at inClosure
  cases inClosure

theorem Program.converted_eliminated (h : p.conversionErrors names = []) :
    Eliminated p (p.converted names) := by
  have fits := conversionErrors_eq_nil.1 h
  refine ⟨fun f hf => ?_, fun c hc m hm => ?_, fits.topLevel, fun c hc m hm => ?_⟩
  · obtain ⟨fd, hfd, rfl⟩ := List.mem_map.1 hf
    exact ⟨fd.1.closures_converted fd.2,
      FunDef.lambdas_converted (fits.lambdas fd.1 (mem_plan hfd).1) fd.2⟩
  · rcases List.mem_append.1 hc with hc | hc
    · exact fits.methods c hc m hm
    · -- the method has the body of a closure, in which no closure was declared
      obtain ⟨d, hd, rfl⟩ := List.mem_map.1 hc
      have flat := (liftable_of_mem h hd).closures
      exact Declaration.collect_lifted flat closures_steady flat hm
  · rw [Program.converted, List.drop_left] at hc
    obtain ⟨d, hd, rfl⟩ := List.mem_map.1 hc
    have liftable := liftable_of_mem h hd
    exact ⟨Declaration.collect_lifted liftable.closures lambdas_steady liftable.lambdas hm,
      Declaration.collect_lifted liftable.closures constructs_steady liftable.constructs hm,
      Declaration.collect_lifted liftable.closures declaredNonlocal_steady liftable.nonlocals hm⟩

end Converted

/-! ### Evaluation without closures -/

/-- The step never stops because of a closure. -/
def Flat (x : EvalM α) : Prop := ∀ s e, (x.run s).1 = .error e → e.isUnconverted = false

theorem Flat.of_ok {x : EvalM α} (h : ∀ s, ∃ a t, x.run s = (.ok a, t)) : Flat x := by
  intro s e he
  obtain ⟨a, t, run⟩ := h s
  rw [run] at he
  cases he

theorem flat_stepLaw : StepLaw Flat where
  quiet h := h.converted
  bind {_ _ x f} hx hf s e h := by
    rw [run_bind] at h
    rcases hr : x.run s with ⟨e' | a, t⟩ <;> rw [hr] at h
    · exact hx s e (by rw [hr]; cases h; rfl)
    · exact hf a t e h
  look _ h s e he := h s s e he

theorem flat_gather {x : String} {step : EvalM (Option Value)} (h : Flat step)
    (items : List Value) : Flat (gather x step items) :=
  flat_stepLaw.gather (fun _ => .of_ok fun _ => ⟨_, _, rfl⟩) h items

theorem flat_storeField (v : Value) (x : String) (w : Value) : Flat (storeField v x w) := by
  unfold storeField
  split
  · refine flat_stepLaw.look (fun _ _ h => by simp only [h.heap]) fun s => ?_
    dsimp only
    split
    · exact .of_ok fun _ => ⟨_, _, rfl⟩
    · exact flat_stepLaw.fail _ rfl
  · exact flat_stepLaw.quiet (.typeError _ _ _)

/-- Code is flat if it declares no functions. -/
def Effect.NoClosure (m : Effect) : Prop := ∀ f, m ≠ .closure f

theorem flat_execLaw (p : Program) : ExecLaw p Effect.NoClosure Flat Flat where
  eval :=
    { flat_stepLaw with
      object := fun _ => .of_ok fun _ => ⟨_, _, rfl⟩
      init := .of_ok fun _ => ⟨_, _, rfl⟩
      gather := fun x _ step h items s e he => by
        cases items with
        | nil => cases he
        | cons v vs => exact flat_gather h (v :: vs) s e he }
  block := flat_stepLaw
  le h := h
  store _ _ _ := .of_ok fun _ => ⟨_, _, rfl⟩
  declare _ _ := .of_ok fun _ => ⟨_, _, rfl⟩
  field := flat_storeField
  closure f h := absurd rfl (h f)

theorem noClosure_of_closures {ss : List Stmt} (h : Stmt.collectList closures ss = []) :
    ∀ m ∈ Stmt.collectList effects ss, m.NoClosure := by
  rintro _ hm f rfl
  have declared : f ∈ Stmt.collectList closures ss := effects_law.holdsBlock ss _ hm
  rw [h] at declared
  cases declared

theorem Expr.noClosure (e : Expr) : ∀ m ∈ e.collect effects, m.NoClosure := by
  rintro _ hm f rfl
  have declared : f ∈ e.collect closures := effects_law.toExprLaw.holds e _ hm
  rw [closures_onlyStmts.collect e] at declared
  cases declared

/-- Calls are flat if no function and no method has a closure. -/
theorem flat_callLaw {p : Program} (h : ∀ f, Callable p f → f.closures = []) :
    CallLaw p Flat (fun _ => Effect.NoClosure) (fun _ => Flat) (fun _ => Flat) where
  step := flat_stepLaw
  exec _ := flat_execLaw p
  effects f hf := noClosure_of_closures (h f hf)
  le _ _ _ h := h
  frame _ _ _ _ _ h _ e he := h _ e he

/-! ### Requests -/

/-- What can be asked of an evaluator. -/
inductive Request where
  | run
  | eval (e : Expr)
  | call (name : String) (args : List Value)
  | callValue (callee : Value) (args : List Value)

/-- Do what is asked. -/
def Request.perform (ctx : Context) (fuel : Nat) : Request → EvalM Value
  | .run => do
    ctx.runMain fuel
    return .none
  | .eval e => ctx.eval fuel e
  | .call name args => ctx.call fuel name args
  | .callValue callee args => ctx.callValue fuel callee args

/-- The answers to requests one after the other.  Each starts from what the last one left, whether
it succeeded or not. -/
def answers (ctx : Context) (fuel : Nat) : List Request → Machine → List (Except Stop Value)
  | [], _ => []
  | r :: rs, s =>
    let (a, t) := (r.perform ctx fuel).run s
    a :: answers ctx fuel rs t

theorem answers_nil (ctx : Context) (fuel : Nat) (s : Machine) : answers ctx fuel [] s = [] := rfl

theorem answers_cons (ctx : Context) (fuel : Nat) (r : Request) (rs : List Request) (s : Machine) :
    answers ctx fuel (r :: rs) s =
      ((r.perform ctx fuel).run s).1 :: answers ctx fuel rs ((r.perform ctx fuel).run s).2 := rfl

/-- The effects of the code that a request brings along. -/
def Request.effects (p : Program) : Request → List Effect
  | .run => Stmt.collectList FlatClosure.effects p.stmts
  | .eval e => e.collect FlatClosure.effects
  | .call .. | .callValue .. => []

/-- What holds of statements and of calls holds of requests. -/
theorem ExecLaw.perform {ctx : Context} {fuel : Nat} {ok : Effect → Prop}
    {P P' : ∀ {α : Type}, EvalM α → Prop} (law : ExecLaw ctx.program ok P P')
    (hk : (ctx.calls fuel).Have P) (r : Request) (hok : ∀ m ∈ r.effects ctx.program, ok m) :
    P' (r.perform ctx fuel) := by
  cases r with
  | run =>
    have main : P' (ctx.runMain fuel) :=
      law.block.bind (law.le law.eval.init) fun _ =>
        law.block.bind (law.execList hk _ hok) fun flow =>
          law.block.bind (law.block.quiet (.flowValue flow)) fun _ => law.block.pure _
    exact law.block.bind main fun _ => law.block.pure _
  | eval e => exact law.evalExpr hk e hok
  | call name args => exact law.le (law.eval.callNamed hk name args)
  | callValue callee args => exact law.le (law.eval.callValue hk callee args)

theorem Request.flat_perform {ctx : Context} (calls : ∀ f, Callable ctx.program f → f.closures = [])
    (top : Stmt.collectList closures ctx.program.stmts = []) (fuel : Nat) (r : Request) :
    Flat (r.perform ctx fuel) := by
  refine (flat_execLaw ctx.program).perform ((flat_callLaw calls).callFunction fuel) r ?_
  cases r with
  | run => exact noClosure_of_closures top
  | eval e => exact e.noClosure
  | call | callValue =>
    intro m hm
    cases hm

/-- Whatever is asked of a program without closures, no answer is that there is a closure. -/
theorem answers_flat {ctx : Context} (calls : ∀ f, Callable ctx.program f → f.closures = [])
    (top : Stmt.collectList closures ctx.program.stmts = []) {fuel : Nat} {rs : List Request}
    {s : Machine} {a : Except Stop Value} (ha : a ∈ answers ctx fuel rs s) (f : String) :
    a ≠ .error (.error (.unconvertedClosure f)) := by
  induction rs generalizing s with
  | nil => cases ha
  | cons r rs ih =>
    rcases List.mem_cons.1 ha with rfl | ha
    · -- the answer itself would be the failure that a flat step never has
      intro h
      cases r.flat_perform calls top fuel s _ h
    · exact ih ha

/-! ### Conversion -/

/-- **Closures are eliminated.**  Where conversion succeeds, no closure is left, and nothing that is
asked of the result is answered by there being one.  Whether it succeeds or not, it never meets a
closure that stands outside of a block. -/
theorem closures_eliminated (names : Conventions) (p : Program) :
    (∀ q artifacts, convert names p = .ok (q, artifacts) →
      Eliminated p q ∧
        ∀ names' maxDepth fuel rs s, ∀ a ∈ answers ⟨q, names', maxDepth⟩ fuel rs s,
          ∀ f, a ≠ .error (.error (.unconvertedClosure f))) ∧
      convertByBlocks names p = (convert names p).mapError .error ∧
        ∀ e, convert names p = .error e → ∀ f, e.message ≠ (Refusal.misplaced f).message := by
  refine ⟨fun q artifacts h => ?_, convertByBlocks_eq names p, fun e _ => message_ne_misplaced e⟩
  obtain ⟨errors, rfl, -⟩ := (convert_eq_ok names).1 h
  have eliminated := Program.converted_eliminated errors
  refine ⟨eliminated, fun names' maxDepth fuel rs s a ha => ?_⟩
  refine answers_flat (fun f hf => ?_) eliminated.topLevel ha
  rcases hf with hf | ⟨c, hc, hm⟩
  · exact (eliminated.functions f hf).1
  · exact eliminated.methods c hc f hm

theorem closures_eliminated_adder :
    Context.run ⟨adderProgram, {}, 3⟩ 4 = .error (.error (.unconvertedClosure "add")) ∧
      (Context.run ⟨adderProgram.converted {}, {}, 3⟩ 4).toOption = some "7\n" ∧
      ∃ artifacts, convert {} adderProgram = .ok (adderProgram.converted {}, artifacts) ∧
        Eliminated adderProgram (adderProgram.converted {}) ∧
        ∀ maxDepth fuel rs s, ∀ a ∈ answers ⟨adderProgram.converted {}, {}, maxDepth⟩ fuel rs s,
          ∀ f, a ≠ .error (.error (.unconvertedClosure f)) := by
  have h : convert {} adderProgram = .ok (adderProgram.converted {}, _) := rfl
  have all := (closures_eliminated {} adderProgram).1 _ _ h
  exact ⟨rfl, by decide +kernel, _, h, all.1, all.2 {}⟩

end FlatClosure

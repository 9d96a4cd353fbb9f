import FlatClosure.Proofs.Coverage
import FlatClosure.Proofs.Isolation
import FlatClosure.Proofs.Limits

/-!
# The limit on the depth of calls

However many requests an evaluator has served, and wherever it is in the next one, no more calls are
open than the limit allows.  And the limit does nothing but end what goes deeper: requests that it
does not end have the same answers, and leave the same state, under every higher limit.

* `Visited` : the points that the evaluator comes to while it serves requests.
* `opens_iff` : a call opens exactly if its arguments fit and there is room for it.
* `Visited.depth` : **at every point the number of open calls is within the limit.**
* `answers_deepened` : what a higher limit changes.
* `depth_limited` : **both, and that no point has been left out.**
-/

namespace FlatClosure

/-! ### Points -/

/-- The call runs its body: whatever body it has, it runs it in a call of its own. -/
def Opens (ctx : Context) (n : Nat) (f : FunDef) (args : List Value) (s : Machine) : Prop :=
  ∀ body, (callFunction ctx (n + 1) { f with body } args).run s =
    (withFrame (f.frame args) (Stmt.execList (ctx.calls n) body) >>= flowValue).run s

/-- The point at which a request starts. -/
def Request.point (ctx : Context) (s : Machine) : Request → Point
  | .run => ⟨s.initGlobals ctx.program, .block ctx.program.stmts⟩
  | .eval e => ⟨s, .expr e⟩
  | .call name args => ⟨s, .callNamed name args⟩
  | .callValue callee args => ⟨s, .callValue callee args⟩

/-- While the requests are served, from the given state on, the evaluator comes to the point, where
calls have the fuel `n`. -/
inductive Visited (ctx : Context) (fuel : Nat) (rs : List Request) (s : Machine) :
    Nat → Point → Prop
  | request {served r waiting} : rs = served ++ r :: waiting →
      Visited ctx fuel rs s fuel (r.point ctx (stateAfter ctx fuel served s))
  | step {n a b} : Visited ctx fuel rs s n a → Starts (ctx.calls n) a b →
      Visited ctx fuel rs s n b
  | body {n t f args} : Visited ctx fuel rs s (n + 1) ⟨t, .call f args⟩ → Opens ctx n f args t →
      Visited ctx fuel rs s n ⟨f.opened args t, .block f.body⟩

section Depth

variable {ctx : Context} {n : Nat}

theorem run_callFunction (f : FunDef) (args : List Value) (s : Machine) :
    (callFunction ctx (n + 1) f args).run s =
      if args.length ≠ f.arity then
        (.error (.error (.arityMismatch f.name f.arity args.length)), s)
      else if ctx.maxDepth ≤ s.frames.length then
        (.error (.error (.recursionLimit ctx.maxDepth)), s)
      else (withFrame (f.frame args) (Stmt.execList (ctx.calls n) f.body) >>= flowValue).run s := by
  unfold callFunction
  split
  · rfl
  · rw [run_get_bind]
    split <;> rfl

/-- A call opens exactly if its arguments fit and there is room for it. -/
theorem opens_iff {f : FunDef} {args : List Value} {s : Machine} :
    Opens ctx n f args s ↔ args.length = f.arity ∧ s.frames.length < ctx.maxDepth := by
  constructor
  · intro h
    -- a call that opens runs an empty body to its end
    have ends : (callFunction ctx (n + 1) { f with body := [] } args).run s = (.ok .none, s) := h []
    rw [run_callFunction] at ends
    split at ends
    · cases ends
    · rename_i arity
      split at ends
      · cases ends
      · rename_i depth
        exact ⟨Decidable.not_not.1 arity, Nat.lt_of_not_le depth⟩
  · rintro ⟨arity, depth⟩ body
    have fits : ¬ args.length ≠ { f with body }.arity := Decidable.not_not.2 arity
    rw [run_callFunction, if_neg fits, if_neg (Nat.not_le_of_lt depth)]
    rfl

/-- On the way to a later point of the same call no call is opened or closed. -/
theorem Starts.depth {a b : Point} (h : Starts (ctx.calls n) a b) :
    b.state.frames.length = a.state.frames.length := by
  obtain ⟨W, grows, -⟩ := h.exists_grows (ctx.calls_calm n) fun _ hx => hx
  exact grows.length_eq

/-- What is done at a point opens calls only to close them again. -/
theorem Job.perform_local (ctx : Context) (n : Nat) (j : Job) :
    Local (j.perform (ctx.calls n)) :=
  (local_execLaw ctx.program).performJob (ctx.calls_local n) (fun _ _ h vs => gather_local h vs) j
    (fun _ _ _ => (newObject_sealed _).toLocal)
    fun f args _ => (callFunction_sealed ctx n f args).toLocal

theorem Visited.path {fuel : Nat} {rs : List Request} {s : Machine} {a b : Point}
    (h : Visited ctx fuel rs s n a) (path : Relation.ReflTransGen (Starts (ctx.calls n)) a b) :
    Visited ctx fuel rs s n b := by
  induction path with
  | refl => exact h
  | tail _ next ih => exact ih.step next

/-- **Within the limit.**  At every point that the evaluator comes to, no more calls are open than
the limit allows. -/
theorem Visited.depth {fuel : Nat} {rs : List Request} {s : Machine} {a : Point}
    (h : Visited ctx fuel rs s n a) (start : s.frames = []) :
    a.state.frames.length ≤ ctx.maxDepth := by
  induction h with
  | @request served r waiting _ =>
    have none : (stateAfter ctx fuel served s).frames.length = 0 := by
      rw [depth_stateAfter, start]
      rfl
    have same : (r.point ctx (stateAfter ctx fuel served s)).state.frames.length =
        (stateAfter ctx fuel served s).frames.length := by
      cases r with
      | run => exact congrArg List.length (calm_initGlobals ctx.program _).1
      | eval | call | callValue => rfl
    omega
  | step _ next ih => exact next.depth ▸ ih
  -- where a call is opened there was room for one more
  | @body n t f args _ opens ih => exact (opens_iff.1 opens).2

end Depth

/-! ### Higher limits -/

theorem Request.perform_upTo {excuse : Stop → Prop} {ctx ctx' : Context}
    (hctx : Deepens excuse ctx ctx') (fuel : Nat) (r : Request) :
    UpTo excuse (r.perform ctx fuel) (r.perform ctx' fuel) := by
  have raises : Raises excuse (ctx.calls fuel) (ctx'.calls fuel) :=
    ctx.calls_raises hctx (Nat.le_refl fuel) (.inl rfl)
  cases r with
  | run =>
    exact .bind (ctx.runMain_upTo hctx (Nat.le_refl fuel) (.inl rfl)) fun _ => .refl _
  | eval e => exact e.eval_upTo raises
  | call name args => exact callNamed_upTo raises name args
  | callValue callee args => exact callValue_upTo raises callee args

/-- Requests that the limit does not end are served in the same way under a higher limit. -/
theorem answers_deepened {ctx : Context} {fuel d : Nat} (hd : ctx.maxDepth ≤ d)
    {rs : List Request} {s : Machine}
    (h : ∀ a ∈ answers ctx fuel rs s, ∀ m, a ≠ .error (.error (.recursionLimit m))) :
    answers { ctx with maxDepth := d } fuel rs s = answers ctx fuel rs s ∧
      stateAfter { ctx with maxDepth := d } fuel rs s = stateAfter ctx fuel rs s := by
  have deepens : Deepens (· = .error (.recursionLimit ctx.maxDepth)) ctx
      { ctx with maxDepth := d } := ⟨rfl, rfl, hd, .inr rfl⟩
  induction rs generalizing s with
  | nil =>
    rw [answers_nil, answers_nil, stateAfter_nil, stateAfter_nil]
    exact ⟨rfl, rfl⟩
  | cons r rs ih =>
    rw [answers_cons, List.forall_mem_cons] at h
    rw [answers_cons, answers_cons, stateAfter_cons, stateAfter_cons]
    rcases r.perform_upTo deepens fuel s with ⟨e, he, rfl⟩ | same
    · exact absurd he (h.1 ctx.maxDepth)
    · rw [same]
      obtain ⟨rest, state⟩ := ih h.2
      exact ⟨congrArg (_ :: ·) rest, state⟩

/-- **The depth of calls is limited, and the limit does nothing else.**  Wherever the evaluator is
while it serves requests, at the start and at the end of what it does there, no more calls are open
than the limit allows.  No point has been left out: what is done at a point stays the same whatever
calls would do elsewhere.  And if no request fails at the limit, then under a higher limit all have
the same answers and leave the same state. -/
theorem depth_limited (ctx : Context) (fuel : Nat) (rs : List Request) {s : Machine}
    (start : s.frames = []) :
    (∀ n a, Visited ctx fuel rs s n a →
        a.state.frames.length ≤ ctx.maxDepth ∧
        ((a.job.perform (ctx.calls n)).run a.state).2.frames.length ≤ ctx.maxDepth ∧
        ∀ enter, (∀ t f args, Visited ctx fuel rs s n ⟨t, .call f args⟩ →
            (enter f args).run t = (callFunction ctx n f args).run t) →
          (a.job.perform ((ctx.calls n).via enter)).run a.state =
            (a.job.perform (ctx.calls n)).run a.state) ∧
      ∀ d, ctx.maxDepth ≤ d →
        (∀ a ∈ answers ctx fuel rs s, ∀ m, a ≠ .error (.error (.recursionLimit m))) →
        answers { ctx with maxDepth := d } fuel rs s = answers ctx fuel rs s ∧
          stateAfter { ctx with maxDepth := d } fuel rs s = stateAfter ctx fuel rs s := by
  refine ⟨fun n a visited => ⟨visited.depth start, ?_, fun enter same => ?_⟩,
    fun d hd h => answers_deepened hd h⟩
  · rw [(a.job.perform_local ctx n).depth]
    exact visited.depth start
  · exact perform_congr fun t f args path => same t f args (visited.path path)

theorem depth_limited_adder :
    (∃ n a, Visited ⟨adderProgram.converted {}, {}, 1⟩ 4 [.call "adder" [.int 5]] {} n a ∧
        a.state.frames.length = 1 ∧
        ((a.job.perform (Context.calls ⟨adderProgram.converted {}, {}, 1⟩ n)).run
          a.state).2.frames.length ≤ 1) ∧
      answers ⟨adderProgram.converted {}, {}, 1⟩ 4 [.call "adder" [.int 5]] {} =
        [.error (.error (.recursionLimit 1))] ∧
      answers ⟨adderProgram.converted {}, {}, 2⟩ 4 [.call "adder" [.int 5], .call "adder" []] {} =
        [.ok (.int 7), .error (.error (.arityMismatch "adder" 1 0))] ∧
      answers ⟨adderProgram.converted {}, {}, 9⟩ 4 [.call "adder" [.int 5], .call "adder" []] {} =
        [.ok (.int 7), .error (.error (.arityMismatch "adder" 1 0))] := by
  have called : Visited ⟨adderProgram.converted {}, {}, 1⟩ 4 [.call "adder" [.int 5]] {} 4
      ⟨_, .call _ [.int 5]⟩ :=
    .step (@Visited.request _ _ _ _ [] _ [] rfl) (.enterFunction rfl)
  have body := called.body (opens_iff.2 ⟨rfl, by decide⟩)
  have served : answers ⟨adderProgram.converted {}, {}, 2⟩ 4
      [.call "adder" [.int 5], .call "adder" []] {} =
        [.ok (.int 7), .error (.error (.arityMismatch "adder" 1 0))] := rfl
  refine ⟨⟨3, _, body, rfl, ((depth_limited _ 4 _ rfl).1 _ _ body).2.1⟩, rfl, served, ?_⟩
  have deeper := (depth_limited ⟨adderProgram.converted {}, {}, 2⟩ 4
    [.call "adder" [.int 5], .call "adder" []] (s := {}) rfl).2 9 (by decide)
  refine (deeper ?_).1.trans served
  rw [served]
  simp

end FlatClosure

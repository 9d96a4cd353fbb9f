import FlatClosure.Proofs.Effects
import FlatClosure.Proofs.Elimination

/-!
# Open calls are isolated from each other

Code sees and changes the variables of the innermost open call only.  Of the calls below it, which
are waiting for an answer, it sees how many there are, for their number is limited.

* `Local` : the step sees and changes the innermost call at most.
* `Sealed` : the step sees and changes no open call.
* `local_callLaw` : expressions, statements and calls are local.
* `callFunction_sealed` : **a call is sealed, whatever its body does.**
* `calls_isolated` : **all of this, and that no request leaves a call open.**
-/

namespace FlatClosure

variable {α β : Type}

/-! ### States with the same innermost call -/

namespace SameTop

variable {s s' : Machine}

theorem refl (s : Machine) : SameTop s s := ⟨rfl, rfl, rfl, rfl, rfl, rfl⟩

theorem eq_withFrames (h : SameTop s s') : s' = s.withFrames s'.frames := by
  obtain ⟨heap, globals, frames, output, ready⟩ := s'
  obtain ⟨rfl, rfl, rfl, rfl, -, -⟩ := h
  rfl

theorem withFrames (s : Machine) {fs fs' : List Frame} (top : fs'.head? = fs.head?)
    (depth : fs'.length = fs.length) : SameTop (s.withFrames fs) (s.withFrames fs') :=
  ⟨rfl, rfl, rfl, rfl, top, depth⟩

/-- Either the states are the same, or the innermost call is and equally many are below it. -/
theorem cases (h : SameTop s s') :
    s' = s ∨ ∃ (t : Machine) (f : Frame) (fs fs' : List Frame), fs'.length = fs.length ∧
      s = t.withFrames (f :: fs) ∧ s' = t.withFrames (f :: fs') := by
  have same := h.eq_withFrames
  obtain ⟨-, -, -, -, top, depth⟩ := h
  cases hs : s.frames with
  | nil =>
    rw [hs] at depth
    rw [List.length_eq_zero_iff.1 depth, ← hs] at same
    exact .inl same
  | cons f fs =>
    cases hs' : s'.frames with
    | nil => simp [hs, hs'] at depth
    | cons f' fs' =>
      rw [hs, hs'] at top depth
      rw [hs'] at same
      cases top
      exact .inr ⟨s, f, fs, fs', Nat.succ.inj depth, hs ▸ rfl, same⟩

theorem hidden? (h : SameTop s s') (x : String) : s'.hidden? x = s.hidden? x := by
  obtain rfl | ⟨t, f, fs, fs', -, rfl, rfl⟩ := h.cases <;> rfl

end SameTop

/-- The operation on states sees and changes the innermost call at most. -/
structure OnTop (g : Machine → Machine) : Prop where
  main : ∀ s, s.frames = [] → (g s).frames = []
  call : ∀ (s : Machine) (f : Frame), ∃ (t : Machine) (f' : Frame),
    ∀ fs, g (s.withFrames (f :: fs)) = t.withFrames (f' :: fs)

namespace OnTop

theorem sameTop {g : Machine → Machine} (hg : OnTop g) {s s' : Machine} (h : SameTop s s') :
    SameTop (g s) (g s') := by
  obtain rfl | ⟨t, f, fs, fs', depth, rfl, rfl⟩ := h.cases
  · exact .refl _
  · obtain ⟨u, f', after⟩ := hg.call t f
    rw [after, after]
    exact .withFrames u rfl (congrArg (· + 1) depth)

theorem frames {g : Machine → Machine} (hg : OnTop g) (s : Machine) :
    (g s).frames.tail = s.frames.tail ∧ (g s).frames.length = s.frames.length := by
  cases hs : s.frames with
  | nil =>
    rw [hg.main s hs]
    exact ⟨rfl, rfl⟩
  | cons f fs =>
    obtain ⟨t, f', after⟩ := hg.call s f
    have here : s.withFrames (f :: fs) = s := hs ▸ rfl
    rw [← here, after]
    exact ⟨rfl, rfl⟩

theorem store (x : String) (v : Value) : OnTop (·.store x v) where
  main s hs := by rw [Machine.store, hs]
  call s f := by
    by_cases h : (!f.isGlobal x && (f.hasLocal x || !s.globals.contains x)) = true
    · exact ⟨s, f.set x v, fun fs => if_pos h⟩
    · exact ⟨{ s with globals := s.globals.insert x v }, f, fun fs => if_neg h⟩

theorem shadow (x : String) (v : Value) : OnTop (·.shadow x v) where
  main s hs := by rw [Machine.shadow, hs]
  call s f := ⟨s, f.set x v, fun _ => rfl⟩

theorem restore (x : String) (old : Option Value) : OnTop (·.restore x old) where
  main s hs := by
    simp only [Machine.restore, hs]
    cases old <;> rfl
  call s f := ⟨s, f.restore x old, fun _ => rfl⟩

theorem declareGlobal (x : String) : OnTop (·.declareGlobal x) where
  main s hs := by
    rw [Machine.declareGlobal, hs]
    exact hs
  call s f := ⟨s, f.declareGlobal x, fun _ => rfl⟩

end OnTop

/-! ### Local steps -/

/-- The step sees and changes the innermost call at most. -/
structure Local (x : EvalM α) : Prop where
  sameTop : ∀ ⦃s s'⦄, SameTop s s' →
    (x.run s').1 = (x.run s).1 ∧ SameTop (x.run s).2 (x.run s').2
  tail : ∀ s, (x.run s).2.frames.tail = s.frames.tail
  depth : ∀ s, (x.run s).2.frames.length = s.frames.length

/-- The step sees and changes no open call. -/
def Sealed (x : EvalM α) : Prop :=
  ∀ (s : Machine) (fs : List Frame), fs.length = s.frames.length →
    x.run (s.withFrames fs) = ((x.run s).1, (x.run s).2.withFrames fs)

theorem Quiet.sealed {x : EvalM α} (h : Quiet x) : Sealed x := fun s fs _ => h.run_withFrames s fs

namespace Sealed

theorem frames {x : EvalM α} (h : Sealed x) (s : Machine) : (x.run s).2.frames = s.frames := by
  -- put the open calls of `s` in place of themselves
  have same := congrArg (·.2.frames) (h s s.frames rfl)
  exact same

theorem toLocal {x : EvalM α} (h : Sealed x) : Local x where
  sameTop s s' same := by
    have run := h s s'.frames same.depth
    rw [← same.eq_withFrames] at run
    rw [run]
    refine ⟨rfl, ?_⟩
    have kept : (x.run s).2.withFrames s.frames = (x.run s).2 := h.frames s ▸ rfl
    rw [← kept]
    exact .withFrames _ same.top same.depth
  tail s := by rw [h.frames]
  depth s := by rw [h.frames]

theorem bind {x : EvalM α} {f : α → EvalM β} (hx : Sealed x) (hf : ∀ a, Sealed (f a)) :
    Sealed (x >>= f) := by
  intro s fs depth
  have kept := hx.frames s
  rw [run_bind, run_bind, hx s fs depth]
  rcases hr : x.run s with ⟨e | a, t⟩
  · rfl
  · rw [hr] at kept
    exact hf a t fs (depth.trans (congrArg List.length kept).symm)

/-- A step that looks at the state, but of the open calls only at their number. -/
theorem look {f : Machine → EvalM α}
    (blind : ∀ (s : Machine) (fs : List Frame), fs.length = s.frames.length →
      f (s.withFrames fs) = f s)
    (hf : ∀ s, Sealed (f s)) : Sealed (get >>= f) := by
  intro s fs depth
  rw [run_get_bind, run_get_bind, blind s fs depth]
  exact hf s s fs depth

theorem initGlobals (p : Program) : Sealed (modify (Machine.initGlobals p) : EvalM Unit) := by
  intro s fs _
  have same : (s.withFrames fs).initGlobals p = (s.initGlobals p).withFrames fs := by
    unfold Machine.initGlobals
    cases h : s.ready <;> simp [Machine.withFrames, h]
  exact congrArg (Except.ok (), ·) same

end Sealed

namespace Local

/-- A step that always succeeds. -/
theorem modifyGet {g : Machine → α × Machine}
    (value : ∀ ⦃s s'⦄, SameTop s s' → (g s').1 = (g s).1) (state : OnTop fun s => (g s).2) :
    Local (modifyGet g : EvalM α) where
  sameTop _ _ same := ⟨congrArg Except.ok (value same), state.sameTop same⟩
  tail s := (state.frames s).1
  depth s := (state.frames s).2

theorem modify {g : Machine → Machine} (h : OnTop g) : Local (modify g : EvalM Unit) :=
  .modifyGet (fun _ _ _ => rfl) h

theorem bind {x : EvalM α} {f : α → EvalM β} (hx : Local x) (hf : ∀ a, Local (f a)) :
    Local (x >>= f) where
  sameTop s s' same := by
    obtain ⟨value, after⟩ := hx.sameTop same
    rw [run_bind, run_bind]
    rcases hr : x.run s with ⟨e | a, t⟩ <;> rcases hr' : x.run s' with ⟨e' | a', t'⟩ <;>
      rw [hr, hr'] at value after <;> cases value
    · exact ⟨rfl, after⟩
    · exact (hf a).sameTop after
  tail s := by
    have first := hx.tail s
    rw [run_bind]
    rcases hr : x.run s with ⟨e | a, t⟩ <;> rw [hr] at first
    · exact first
    · exact ((hf a).tail t).trans first
  depth s := by
    have first := hx.depth s
    rw [run_bind]
    rcases hr : x.run s with ⟨e | a, t⟩ <;> rw [hr] at first
    · exact first
    · exact ((hf a).depth t).trans first

end Local

theorem local_stepLaw : StepLaw Local where
  quiet h := h.sealed.toLocal
  bind := .bind
  look blind h :=
    { sameTop := fun s s' same => by
        rw [run_get_bind, run_get_bind, blind same]
        exact (h s).sameTop same
      tail := fun s => (h s).tail s
      depth := fun s => (h s).depth s }

theorem gather_local {x : String} {step : EvalM (Option Value)} (h : Local step)
    (items : List Value) : Local (gather x step items) :=
  local_stepLaw.gather (fun v => .modify (.shadow x v)) h items

/-- The comprehension variable is given back to the innermost call, whatever happens. -/
theorem gatherShadowing_local (x : String) {step : EvalM (Option Value)} (h : Local step)
    (items : List Value) : Local (gatherShadowing x step items) := by
  cases items with
  | nil => exact local_stepLaw.pure _
  | cons v vs =>
    have all := gather_local (x := x) h (v :: vs)
    refine ⟨fun s s' same => ?_, fun s => ?_, fun s => ?_⟩
    · obtain ⟨value, after⟩ := all.sameTop same
      refine ⟨value, ?_⟩
      -- what the variable hid was a variable of the innermost call, so it is the same in both
      change SameTop (Machine.restore _ x (s.hidden? x)) (Machine.restore _ x (s'.hidden? x))
      rw [same.hidden?]
      exact (OnTop.restore x _).sameTop after
    · exact ((OnTop.restore x _).frames _).1.trans (all.tail s)
    · exact ((OnTop.restore x _).frames _).2.trans (all.depth s)

theorem storeField_sealed (v : Value) (x : String) (w : Value) : Sealed (storeField v x w) := by
  unfold storeField
  split
  · refine .look (fun _ _ _ => rfl) fun s => ?_
    dsimp only
    split
    · exact fun _ _ _ => rfl
    · exact (Quiet.fail _ rfl).sealed
  · exact (Quiet.typeError _ _ _).sealed

theorem newObject_sealed (o : Instance) : Sealed (newObject o) := fun _ _ _ => rfl

theorem local_execLaw (p : Program) : ExecLaw p (fun _ => True) Local Local where
  eval :=
    { local_stepLaw with
      object := fun _ => (newObject_sealed _).toLocal
      init := (Sealed.initGlobals p).toLocal
      gather := fun x _ _ h items => gatherShadowing_local x h items }
  block := local_stepLaw
  le h := h
  store x _ v := .modify (.store x v)
  declare x _ := .modify (.declareGlobal x)
  field v x w := (storeField_sealed v x w).toLocal
  closure _ _ := ⟨fun _ _ same => ⟨rfl, same⟩, fun _ => rfl, fun _ => rfl⟩

/-! ### Calls -/

theorem run_withFrame (f : Frame) (act : EvalM α) (s : Machine) :
    (withFrame f act).run s =
      ((act.run (s.withFrames (f :: s.frames))).1,
        (act.run (s.withFrames (f :: s.frames))).2.withFrames
          (act.run (s.withFrames (f :: s.frames))).2.frames.tail) := rfl

/-- What is local inside a call is sealed from outside. -/
theorem withFrame_sealed (f : Frame) {act : EvalM α} (h : Local act) :
    Sealed (withFrame f act) := by
  intro s fs depth
  have same : SameTop (s.withFrames (f :: s.frames)) (s.withFrames (f :: fs)) :=
    .withFrames s rfl (congrArg (· + 1) depth)
  obtain ⟨value, after⟩ := h.sameTop same
  -- the frames that are left after the new one is closed are those that `h.tail` says were kept
  rw [run_withFrame, run_withFrame, Machine.withFrames_withFrames, Machine.frames_withFrames,
    h.tail (s.withFrames (f :: fs)), value, after.eq_withFrames]
  rfl

theorem local_callLaw (p : Program) :
    CallLaw p Local (fun _ _ => True) (fun _ => Local) (fun _ => Local) where
  step := local_stepLaw
  exec _ := local_execLaw p
  effects _ _ _ _ := trivial
  le _ _ _ h := h
  frame f args _ _ _ h := (withFrame_sealed (f.frame args) h).toLocal

theorem Context.calls_local (ctx : Context) (fuel : Nat) : (ctx.calls fuel).Have Local :=
  (local_callLaw ctx.program).callFunction fuel

section Calls

variable (ctx : Context) (fuel : Nat)

/-- **A call is sealed.**  It sees and changes no variable of the calls that were open before. -/
theorem callFunction_sealed (f : FunDef) (args : List Value) :
    Sealed (callFunction ctx fuel f args) := by
  unfold callFunction
  split
  · exact (Quiet.fail _ rfl).sealed
  · refine .look (fun s fs depth => by simp only [Machine.frames_withFrames, depth]) fun s => ?_
    split
    · exact (Quiet.fail _ rfl).sealed
    · split
      · exact (Quiet.throw _ rfl).sealed
      · rename_i n
        have body : Local (Stmt.execList (ctx.calls n) f.body) :=
          (local_execLaw ctx.program).execList (ctx.calls_local n) f.body fun _ _ => trivial
        exact .bind (withFrame_sealed _ body) fun flow => (Quiet.flowValue flow).sealed

theorem invoke_sealed (ref : Nat) (method : String) (args : List Value) :
    Sealed (invoke (ctx.calls fuel) ref method args) := by
  refine .look (fun _ _ _ => rfl) fun s => ?_
  dsimp only
  split
  · exact callFunction_sealed ctx fuel _ _
  · exact (Quiet.fail _ rfl).sealed

theorem instantiate_sealed (c : ClassDef) (args : List Value) :
    Sealed (instantiate (ctx.calls fuel) c args) := by
  refine .bind (newObject_sealed _) fun ref => ?_
  split
  · exact .bind (invoke_sealed ctx fuel ref _ args) fun _ => (Quiet.pure _).sealed
  · split
    · exact (Quiet.pure _).sealed
    · exact (Quiet.fail _ rfl).sealed

theorem callNamed_sealed (name : String) (args : List Value) :
    Sealed (callNamed (ctx.calls fuel) name args) := by
  refine .bind (.initGlobals _) fun _ => ?_
  split
  · exact callFunction_sealed ctx fuel _ _
  · exact (Quiet.fail _ rfl).sealed

theorem callValue_sealed (callee : Value) (args : List Value) :
    Sealed (callValue (ctx.calls fuel) callee args) := by
  cases callee with
  | function name => exact callNamed_sealed ctx fuel name args
  | object ref => exact invoke_sealed ctx fuel ref _ args
  | _ => exact .look (fun _ _ _ => rfl) fun _ => (Quiet.fail _ rfl).sealed

theorem callMethodOf_sealed (v : Value) (method : String) (args : List Value) :
    Sealed (callMethodOf (ctx.calls fuel) v method args) := by
  unfold callMethodOf
  split
  · exact invoke_sealed ctx fuel _ method _
  · split
    · exact (Quiet.append _ _).sealed
    · exact (Quiet.fail _ rfl).sealed
  · exact .look (fun _ _ _ => rfl) fun _ => (Quiet.fail _ rfl).sealed

end Calls

/-! ### Requests -/

/-- The state that requests leave.  Each starts from what the last one left, whether it succeeded or
not. -/
def stateAfter (ctx : Context) (fuel : Nat) (rs : List Request) (s : Machine) : Machine :=
  rs.foldl (fun s r => ((r.perform ctx fuel).run s).2) s

theorem stateAfter_nil (ctx : Context) (fuel : Nat) (s : Machine) :
    stateAfter ctx fuel [] s = s := rfl

theorem stateAfter_cons (ctx : Context) (fuel : Nat) (r : Request) (rs : List Request)
    (s : Machine) :
    stateAfter ctx fuel (r :: rs) s = stateAfter ctx fuel rs ((r.perform ctx fuel).run s).2 := rfl

theorem Request.perform_local (ctx : Context) (fuel : Nat) (r : Request) :
    Local (r.perform ctx fuel) :=
  (local_execLaw ctx.program).perform (ctx.calls_local fuel) r fun _ _ => trivial

theorem depth_stateAfter (ctx : Context) (fuel : Nat) (rs : List Request) (s : Machine) :
    (stateAfter ctx fuel rs s).frames.length = s.frames.length := by
  induction rs generalizing s with
  | nil => rfl
  | cons r rs ih => rw [stateAfter_cons, ih, (r.perform_local ctx fuel).depth]

/-- **Open calls are isolated.**  Evaluating an expression leaves all open calls as they were, with
their variables and declarations, and sees at most the innermost one; running a statement sees and
changes at most the innermost one.  A call of a function, of a method or of a value sees and changes
none of the calls that were open before.  So no request leaves a call open, whether it succeeds or
not. -/
theorem calls_isolated (ctx : Context) (fuel : Nat) :
    (∀ e, Local (ctx.eval fuel e) ∧ ∀ s, ((ctx.eval fuel e).run s).2.frames = s.frames) ∧
      (∀ st, Local (Stmt.exec (ctx.calls fuel) st)) ∧
      (∀ f args, Sealed (callFunction ctx fuel f args)) ∧
      (∀ ref method args, Sealed (invoke (ctx.calls fuel) ref method args)) ∧
      (∀ callee args, Sealed (ctx.callValue fuel callee args)) ∧
      ∀ rs s, s.frames = [] → (stateAfter ctx fuel rs s).frames = [] := by
  have calm (e : Expr) : Along Calm (ctx.eval fuel e) :=
    (calm_evalLaw ctx.program fun _ => True).eval (ctx.calls_calm fuel) e fun _ _ => trivial
  refine ⟨fun e => ⟨(Request.eval e).perform_local ctx fuel, fun s => (calm e s).1⟩, fun st => ?_,
    callFunction_sealed ctx fuel, invoke_sealed ctx fuel, callValue_sealed ctx fuel,
    fun rs s hs => ?_⟩
  · exact (local_execLaw ctx.program).exec (ctx.calls_local fuel) st fun _ _ => trivial
  · rw [← List.length_eq_zero_iff, depth_stateAfter, hs]
    rfl

/-- The expression `[1 // x for x in [1, 0]]`, which fails while `x` is hidden. -/
def inverses : Expr :=
  .comprehension .list (.binary .floorDiv (.literal (.num 1)) (.id "x" .dummy)) "x"
    (.list [.literal (.num 1), .literal (.num 0)]) none

theorem calls_isolated_inverses :
    ∃ s s' : Machine, SameTop s s' ∧ s.frames ≠ s'.frames ∧
      ((Context.eval ⟨adderProgram.converted {}, {}, 3⟩ 4 inverses).run s).1 =
        .error (.error .divisionByZero) ∧
      ((Context.eval ⟨adderProgram.converted {}, {}, 3⟩ 4 inverses).run s').1 =
        .error (.error .divisionByZero) ∧
      ((Context.eval ⟨adderProgram.converted {}, {}, 3⟩ 4 inverses).run s).2.frames = s.frames ∧
      (stateAfter ⟨adderProgram.converted {}, {}, 3⟩ 4
        [.eval inverses, .call "adder" [.int 5], .call "adder" [], .callValue (.int 3) []]
        {}).frames = [] := by
  obtain ⟨exprs, -, -, -, -, requests⟩ := calls_isolated ⟨adderProgram.converted {}, {}, 3⟩ 4
  let inner : Frame := { vars := .ofList [("x", .int 7)] }
  let s : Machine := { frames := [inner, {}] }
  let s' : Machine := { frames := [inner, inner] }
  have same : SameTop s s' := ⟨rfl, rfl, rfl, rfl, rfl, rfl⟩
  have fails : ((Context.eval ⟨adderProgram.converted {}, {}, 3⟩ 4 inverses).run s).1 =
      .error (.error .divisionByZero) := rfl
  refine ⟨s, s', same, fun h => ?_, fails, ((exprs inverses).1.sameTop same).1.trans fails,
    (exprs inverses).2 s, requests _ {} rfl⟩
  cases congrArg (fun fs => (fs.tail.map (·.hasLocal "x"))) h

end FlatClosure

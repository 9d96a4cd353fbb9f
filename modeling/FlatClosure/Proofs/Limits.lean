import FlatClosure.Proofs.Machine

/-!
# Higher limits

Fuel and the depth of calls are limits of a run.  A run that does not stop because of a limit does
the same when the limit is raised: no step looks at a limit for any other reason than to stop.

`UpTo excuse x y` says so of two steps, where `excuse` holds of the reasons to stop that do not
count; `Raises` says that calls are run with higher limits.  The theorem is `Context.runMain_upTo`,
and with fuel for the limit `Context.run_fuel_mono`: **an answer that a run gives does not depend on
the fuel.**
-/

namespace FlatClosure

variable {α β : Type} {excuse : Stop → Prop}

/-! ### Steps -/

/-- The second step does what the first one does, unless that stops for a reason that does not
count. -/
def UpTo (excuse : Stop → Prop) (x y : EvalM α) : Prop :=
  ∀ s, (∃ e, (x.run s).1 = .error e ∧ excuse e) ∨ y.run s = x.run s

namespace UpTo

theorem refl (x : EvalM α) : UpTo excuse x x := fun _ => .inr rfl

theorem throw {e : Stop} (h : excuse e) (y : EvalM α) : UpTo excuse (throw e) y :=
  fun _ => .inl ⟨e, rfl, h⟩

theorem bind {x y : EvalM α} {f g : α → EvalM β} (hx : UpTo excuse x y)
    (hf : ∀ a, UpTo excuse (f a) (g a)) : UpTo excuse (x >>= f) (y >>= g) := by
  intro s
  rw [run_bind, run_bind]
  rcases hx s with ⟨e, he, hexc⟩ | same
  · refine .inl ⟨e, ?_, hexc⟩
    rcases hr : x.run s with ⟨r, t⟩
    rw [hr] at he
    cases he
    rfl
  · rw [same]
    rcases x.run s with ⟨e | a, t⟩
    · exact .inr rfl
    · exact hf a t

theorem get_bind {f g : Machine → EvalM α} (h : ∀ s, UpTo excuse (f s) (g s)) :
    UpTo excuse (get >>= f) (get >>= g) :=
  fun s => h s s

theorem ite {c : Prop} [Decidable c] {x x' y y' : EvalM α} (h : UpTo excuse x y)
    (h' : UpTo excuse x' y') : UpTo excuse (if c then x else x') (if c then y else y') := by
  split
  · exact h
  · exact h'

/-- A step whose answer and state are finished off in the same way, whatever happens. -/
theorem finish {x y : EvalM α} (h : UpTo excuse x y) (enter : Machine → Machine)
    (leave : Machine → Machine → Machine) :
    UpTo excuse (fun s => ((x.run (enter s)).1, leave s (x.run (enter s)).2) : EvalM α)
      (fun s => ((y.run (enter s)).1, leave s (y.run (enter s)).2) : EvalM α) := by
  intro s
  rcases h (enter s) with ⟨e, he, hexc⟩ | same
  · exact .inl ⟨e, he, hexc⟩
  · refine .inr ?_
    change ((y.run (enter s)).1, leave s (y.run (enter s)).2) = _
    rw [same]
    rfl

theorem withFrame {x y : EvalM α} (h : UpTo excuse x y) (f : Frame) :
    UpTo excuse (withFrame f x) (withFrame f y) :=
  h.finish (fun s => { s with frames := f :: s.frames })
    fun _ t => { t with frames := t.frames.tail }

theorem gather {step step' : EvalM (Option Value)} (h : UpTo excuse step step') (x : String)
    (items : List Value) : UpTo excuse (gather x step items) (gather x step' items) := by
  induction items with
  | nil => exact .refl _
  | cons v items ih => exact .bind (.refl _) fun _ => .bind h fun _ => .bind ih fun _ => .refl _

theorem gatherShadowing {step step' : EvalM (Option Value)} (h : UpTo excuse step step')
    (x : String) (items : List Value) :
    UpTo excuse (gatherShadowing x step items) (gatherShadowing x step' items) := by
  cases items with
  | nil => exact .refl _
  | cons v items => exact (h.gather x (v :: items)).finish id fun s t => t.restore x (s.hidden? x)

theorem loopWhile {cond cond' : EvalM Bool} {body body' : EvalM Flow} (hc : UpTo excuse cond cond')
    (hb : UpTo excuse body body') {n m : Nat} (hn : n ≤ m) (hfuel : n = m ∨ excuse .outOfFuel) :
    UpTo excuse (loopWhile cond body n) (loopWhile cond' body' m) := by
  induction n generalizing m with
  | zero =>
    rcases hfuel with rfl | h
    · exact .refl _
    · exact .throw h _
  | succ n ih =>
    obtain ⟨m, rfl⟩ : ∃ k, m = k + 1 := ⟨m - 1, by omega⟩
    have next := ih (m := m) (by omega) (hfuel.imp (by omega) id)
    refine .bind hc fun _ => .ite (.bind hb fun flow => ?_) (.refl _)
    cases flow with
    | breakLoop | ret => exact .refl _
    | normal | continueLoop => exact next

theorem loopEach {body body' : EvalM Flow} (hb : UpTo excuse body body') (x : String)
    (items : List Value) : UpTo excuse (loopEach x body items) (loopEach x body' items) := by
  induction items with
  | nil => exact .refl _
  | cons v items ih =>
    refine .bind (.refl _) fun _ => .bind hb fun flow => ?_
    cases flow with
    | breakLoop | ret => exact .refl _
    | normal | continueLoop => exact ih

end UpTo

/-! ### Calls -/

/-- The second calls are run with higher limits. -/
structure Raises (excuse : Stop → Prop) (k k' : Calls) : Prop where
  program : k'.ctx.program = k.ctx.program
  names : k'.ctx.names = k.ctx.names
  fuel : k.fuel ≤ k'.fuel
  excused : k.fuel = k'.fuel ∨ excuse .outOfFuel
  enter : ∀ f args, UpTo excuse (k.enter f args) (k'.enter f args)

section Calls

variable {k k' : Calls} (hk : Raises excuse k k')

include hk

theorem invoke_upTo (ref : Nat) (method : String) (args : List Value) :
    UpTo excuse (invoke k ref method args) (invoke k' ref method args) := by
  unfold invoke
  rw [hk.program]
  refine .get_bind fun s => ?_
  dsimp only
  split
  · exact hk.enter _ _
  · exact .refl _

theorem instantiate_upTo (c : ClassDef) (args : List Value) :
    UpTo excuse (instantiate k c args) (instantiate k' c args) := by
  unfold instantiate
  rw [hk.names]
  refine .bind (.refl _) fun ref => .ite ?_ (.refl _)
  exact .bind (invoke_upTo hk _ _ _) fun _ => .refl _

theorem callNamed_upTo (name : String) (args : List Value) :
    UpTo excuse (callNamed k name args) (callNamed k' name args) := by
  unfold callNamed
  rw [hk.program]
  refine .bind (.refl _) fun _ => ?_
  split
  · exact hk.enter _ _
  · exact .refl _

theorem callValue_upTo (callee : Value) (args : List Value) :
    UpTo excuse (callValue k callee args) (callValue k' callee args) := by
  cases callee with
  | function name => exact callNamed_upTo hk name args
  | object ref =>
    unfold callValue
    rw [hk.names]
    exact invoke_upTo hk ref _ args
  | _ => exact .refl _

theorem callMethodOf_upTo (v : Value) (method : String) (args : List Value) :
    UpTo excuse (callMethodOf k v method args) (callMethodOf k' v method args) := by
  cases v with
  | object ref => exact invoke_upTo hk ref method args
  | list ref =>
    match args with
    | [] | [_] | _ :: _ :: _ => exact .refl _
  | _ => exact .refl _

theorem readName_upTo (x : String) : UpTo excuse (readName k x) (readName k' x) := by
  unfold readName
  rw [hk.program]
  exact .refl _

theorem calleeClass?_raises (s : Machine) (f : Expr) :
    calleeClass? k' s f = calleeClass? k s f := by
  rw [calleeClass?, calleeClass?, hk.program]

end Calls

/-! ### Expressions -/

mutual

theorem Expr.eval_upTo {k k' : Calls} (hk : Raises excuse k k') (e : Expr) :
    UpTo excuse (e.eval k) (e.eval k') := by
  cases e with
  | literal | lambda => exact .refl _
  | id x span => exact readName_upTo hk x
  | unary _ a | builtin1 _ a | field a _ => exact .bind (a.eval_upTo hk) fun _ => .refl _
  | binary op l r =>
    cases op with
    | and =>
      exact .bind (l.eval_upTo hk) fun _ => .get_bind fun _ => .ite (r.eval_upTo hk) (.refl _)
    | or =>
      exact .bind (l.eval_upTo hk) fun _ => .get_bind fun _ => .ite (.refl _) (r.eval_upTo hk)
    | _ => exact .bind (l.eval_upTo hk) fun _ => .bind (r.eval_upTo hk) fun _ => .refl _
  | builtin2 _ l r | index l r =>
    exact .bind (l.eval_upTo hk) fun _ => .bind (r.eval_upTo hk) fun _ => .refl _
  | call f args =>
    unfold Expr.eval
    refine .get_bind fun s => ?_
    rw [calleeClass?_raises hk]
    split
    · exact .bind (Expr.evalList_upTo hk args) fun _ => instantiate_upTo hk _ _
    · exact .bind (f.eval_upTo hk) fun _ => .bind (Expr.evalList_upTo hk args) fun _ =>
        callValue_upTo hk _ _
  | methodCall o m args =>
    exact .bind (o.eval_upTo hk) fun _ => .bind (Expr.evalList_upTo hk args) fun _ =>
      callMethodOf_upTo hk _ _ _
  | list es | set es | tuple es => exact .bind (Expr.evalList_upTo hk es) fun _ => .refl _
  | comprehension kind e x it c =>
    refine .bind (it.eval_upTo hk) fun _ => .bind (.refl _) fun _ =>
      .bind (.gatherShadowing ?_ x _) fun _ => .refl _
    exact .bind (Expr.holds_upTo hk c) fun _ =>
      .ite (.bind (e.eval_upTo hk) fun _ => .refl _) (.refl _)
  | ifElse c t e =>
    exact .bind (c.eval_upTo hk) fun _ => .get_bind fun _ => .ite (t.eval_upTo hk) (e.eval_upTo hk)
  | construct name span =>
    unfold Expr.eval
    rw [hk.program]
    split
    · exact instantiate_upTo hk _ _
    · exact .refl _

theorem Expr.evalList_upTo {k k' : Calls} (hk : Raises excuse k k') (es : List Expr) :
    UpTo excuse (Expr.evalList k es) (Expr.evalList k' es) := by
  cases es with
  | nil => exact .refl _
  | cons e es =>
    exact .bind (e.eval_upTo hk) fun _ => .bind (Expr.evalList_upTo hk es) fun _ => .refl _

theorem Expr.holds_upTo {k k' : Calls} (hk : Raises excuse k k') (c : Option Expr) :
    UpTo excuse (Expr.holds k c) (Expr.holds k' c) := by
  cases c with
  | none => exact .refl _
  | some e => exact .bind (e.eval_upTo hk) fun _ => .refl _

end

/-! ### Statements -/

section Statements

variable {k k' : Calls} (hk : Raises excuse k k')

include hk

theorem Target.assign_upTo (v : Value) (t : Target) :
    UpTo excuse (t.assign k v) (t.assign k' v) := by
  cases t with
  | id | ignore => exact .refl _
  | field o x => exact .bind (o.eval_upTo hk) fun _ => .refl _
  | index o i => exact .bind (o.eval_upTo hk) fun _ => .bind (i.eval_upTo hk) fun _ => .refl _

theorem assignSlots_upTo (starOpen : Bool) (slots : List Slot) (items : List Value) :
    UpTo excuse (assignSlots k starOpen slots items) (assignSlots k' starOpen slots items) := by
  induction slots generalizing starOpen items with
  | nil => exact .refl _
  | cons slot slots ih =>
    refine .ite (.bind (.refl _) fun v => ?_) ?_
    · exact .bind (slot.target.assign_upTo hk v) fun _ => ih _ _
    · exact .bind (slot.target.assign_upTo hk _) fun _ => ih _ _

theorem destructure_upTo (slots : List Slot) (v : Value) :
    UpTo excuse (destructure k slots v) (destructure k' slots v) :=
  .bind (.refl _) fun _ => .ite (.refl _) (assignSlots_upTo hk true slots _)

end Statements

mutual

theorem Stmt.exec_upTo {k k' : Calls} (hk : Raises excuse k k') (s : Stmt) :
    UpTo excuse (s.exec k) (s.exec k') := by
  cases s with
  | assign _ e | expr e => exact .bind (e.eval_upTo hk) fun _ => .refl _
  | unpack slots e =>
    exact .bind (e.eval_upTo hk) fun _ => .bind (destructure_upTo hk slots _) fun _ => .refl _
  | ret v =>
    cases v with
    | none => exact .refl _
    | some e => exact .bind (e.eval_upTo hk) fun _ => .refl _
  | setField o _ e =>
    exact .bind (o.eval_upTo hk) fun _ => .bind (e.eval_upTo hk) fun _ => .refl _
  | setIndex o i e =>
    exact .bind (o.eval_upTo hk) fun _ => .bind (i.eval_upTo hk) fun _ => .bind (e.eval_upTo hk)
      fun _ => .refl _
  | ifElse c thn els =>
    exact .bind (c.eval_upTo hk) fun _ => .get_bind fun _ =>
      .ite (Stmt.execList_upTo hk thn) (Stmt.execList_upTo hk els)
  | whileLoop c body =>
    exact .loopWhile (Expr.holds_upTo hk (some c)) (Stmt.execList_upTo hk body) hk.fuel hk.excused
  | forEach x it body els =>
    refine .bind (it.eval_upTo hk) fun _ => .bind (.refl _) fun items =>
      .bind (.loopEach (Stmt.execList_upTo hk body) x items) fun flow => ?_
    cases flow with
    | breakLoop | ret => exact .refl _
    | normal | continueLoop => exact Stmt.execOption_upTo hk els
  | pass | nonlocal | global | breakLoop | continueLoop | closure => exact .refl _

theorem Stmt.execList_upTo {k k' : Calls} (hk : Raises excuse k k') (ss : List Stmt) :
    UpTo excuse (Stmt.execList k ss) (Stmt.execList k' ss) := by
  cases ss with
  | nil => exact .refl _
  | cons s ss =>
    refine .bind (s.exec_upTo hk) fun flow => ?_
    cases flow with
    | normal => exact Stmt.execList_upTo hk ss
    | ret | breakLoop | continueLoop => exact .refl _

theorem Stmt.execOption_upTo {k k' : Calls} (hk : Raises excuse k k') (els : Option (List Stmt)) :
    UpTo excuse (Stmt.execOption k els) (Stmt.execOption k' els) := by
  cases els with
  | none => exact .refl _
  | some ss => exact Stmt.execList_upTo hk ss

end

/-! ### Programs -/

/-- The same program with a higher limit on the depth of calls. -/
structure Deepens (excuse : Stop → Prop) (ctx ctx' : Context) : Prop where
  program : ctx'.program = ctx.program
  names : ctx'.names = ctx.names
  depth : ctx.maxDepth ≤ ctx'.maxDepth
  excused : ctx.maxDepth = ctx'.maxDepth ∨ excuse (.error (.recursionLimit ctx.maxDepth))

variable {ctx ctx' : Context}

theorem Deepens.refl (ctx : Context) : Deepens excuse ctx ctx := ⟨rfl, rfl, Nat.le_refl _, .inl rfl⟩

/-- A step behind a check of the depth. -/
theorem UpTo.limit (hctx : Deepens excuse ctx ctx') (l : Nat) {x y : EvalM α}
    (h : UpTo excuse x y) :
    UpTo excuse (if ctx.maxDepth ≤ l then fail (.recursionLimit ctx.maxDepth) else x)
      (if ctx'.maxDepth ≤ l then fail (.recursionLimit ctx'.maxDepth) else y) := by
  by_cases hl : ctx.maxDepth ≤ l
  · rw [if_pos hl]
    rcases hctx.excused with same | h'
    · rw [← same, if_pos hl]
      exact .refl _
    · exact .throw h' _
  · have hl' : ¬ctx'.maxDepth ≤ l := fun h' => hl (Nat.le_trans hctx.depth h')
    rw [if_neg hl, if_neg hl']
    exact h

theorem callFunction_upTo (hctx : Deepens excuse ctx ctx') {n m : Nat} (h : n ≤ m)
    (hfuel : n = m ∨ excuse .outOfFuel) (f : FunDef) (args : List Value) :
    UpTo excuse (callFunction ctx n f args) (callFunction ctx' m f args) := by
  induction n generalizing m f args with
  | zero =>
    unfold callFunction
    refine .ite (.refl _) (.get_bind fun s => .limit hctx _ ?_)
    rcases hfuel with rfl | h'
    · exact .refl _
    · exact .throw h' _
  | succ n ih =>
    obtain ⟨m, rfl⟩ : ∃ k, m = k + 1 := ⟨m - 1, by omega⟩
    have hnm : n ≤ m := by omega
    have hfuel : n = m ∨ excuse .outOfFuel := hfuel.imp (by omega) id
    have raises : Raises excuse ⟨ctx, n, callFunction ctx n⟩ ⟨ctx', m, callFunction ctx' m⟩ :=
      ⟨hctx.program, hctx.names, hnm, hfuel, ih hnm hfuel⟩
    unfold callFunction
    refine .ite (.refl _) (.get_bind fun s => .limit hctx _ ?_)
    exact .bind (.withFrame (Stmt.execList_upTo raises f.body) _) fun _ => .refl _

/-- Calls with higher limits. -/
theorem Context.calls_raises (hctx : Deepens excuse ctx ctx') {n m : Nat} (h : n ≤ m)
    (hfuel : n = m ∨ excuse .outOfFuel) : Raises excuse (ctx.calls n) (ctx'.calls m) :=
  ⟨hctx.program, hctx.names, h, hfuel, callFunction_upTo hctx h hfuel⟩

/-- Running the top-level statements with higher limits. -/
theorem Context.runMain_upTo (hctx : Deepens excuse ctx ctx') {n m : Nat} (h : n ≤ m)
    (hfuel : n = m ∨ excuse .outOfFuel) : UpTo excuse (ctx.runMain n) (ctx'.runMain m) := by
  unfold Context.runMain
  rw [hctx.program]
  exact .bind (.refl _) fun _ => .bind (Stmt.execList_upTo (calls_raises hctx h hfuel) _) fun _ =>
    .refl _

/-- **More fuel does not change an answer.** -/
theorem Context.run_fuel_mono {n m : Nat} (h : n ≤ m) (hrun : ctx.run n ≠ .error .outOfFuel) :
    ctx.run m = ctx.run n := by
  have raised : UpTo (· = .outOfFuel) (ctx.runMain n) (ctx.runMain m) :=
    runMain_upTo (.refl ctx) h (.inr rfl)
  rw [Context.run] at hrun ⊢
  rcases raised {} with ⟨e, he, rfl⟩ | same
  · rcases hr : (ctx.runMain n).run {} with ⟨r, s⟩
    rw [hr] at he hrun
    cases he
    exact absurd rfl hrun
  · rw [Context.run, same]

/-- Two runs of a program that do not run out of fuel give the same answer. -/
theorem Context.run_fuel_unique {n m : Nat} (hn : ctx.run n ≠ .error .outOfFuel)
    (hm : ctx.run m ≠ .error .outOfFuel) : ctx.run m = ctx.run n := by
  rcases Nat.le_total n m with h | h
  · exact run_fuel_mono h hn
  · exact (run_fuel_mono h hm).symm

end FlatClosure

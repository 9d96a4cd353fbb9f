import FlatClosure.Proofs.Points

/-!
# Points are all there is

`Starts` says which points the evaluator comes to.  That no point is missing can be seen from
outside: what is done at a point stays the same if calls are exchanged for others that differ from
them only where the evaluator does not come to make a call.

* `Job.perform` : what is done at a point.
* `perform_congr` : **what is done at a point depends on calls only where the evaluator comes to
  make one.**
-/

namespace FlatClosure

open Relation (ReflTransGen)

variable {α β : Type}

/-! ### Jobs -/

/-- What comes out of a job. -/
def Job.Answer : Job → Type
  | .expr _ | .instantiate .. | .invoke .. | .callNamed .. | .callValue .. | .callMethod ..
  | .call .. => Value
  | .exprs _ | .each .. => List Value
  | .target .. | .slots .. => Unit
  | .stmt _ | .block _ | .rounds .. | .loop .. => Flow

/-- What the evaluator does. -/
def Job.perform (k : Calls) : (j : Job) → EvalM j.Answer
  | .expr e => e.eval k
  | .exprs es => Expr.evalList k es
  | .each x c e items => gather x (comprehend k c e) items
  | .target _ t v => t.assign k v
  | .slots _ starOpen ss items => assignSlots k starOpen ss items
  | .stmt s => s.exec k
  | .block ss => Stmt.execList k ss
  | .rounds c body n => loopWhile (Expr.holds k (some c)) (Stmt.execList k body) n
  | .loop x _ body items => loopEach x (Stmt.execList k body) items
  | .instantiate c args => FlatClosure.instantiate k c args
  | .invoke ref method args => FlatClosure.invoke k ref method args
  | .callNamed name args => FlatClosure.callNamed k name args
  | .callValue callee args => FlatClosure.callValue k callee args
  | .callMethod v method args => callMethodOf k v method args
  | .call f args => k.enter f args

/-- What holds along statements and calls holds of every job. -/
theorem ExecLaw.performJob {k : Calls} {P P' : ∀ {α : Type}, EvalM α → Prop}
    (law : ExecLaw k.ctx.program (fun _ => True) P P') (hk : k.Have P)
    (items : ∀ x {step : EvalM (Option Value)}, P step → ∀ vs, P (gather x step vs)) (j : Job)
    (new : ∀ c args, j = .instantiate c args → P (newObject c.fresh))
    (call : ∀ f args, j = .call f args → P (k.enter f args)) : P' (j.perform k) := by
  have eval (e : Expr) : P (e.eval k) := law.eval.eval hk e fun _ _ => trivial
  have holds (c : Option Expr) : P (Expr.holds k c) := law.eval.holds hk c fun _ _ => trivial
  have block (ss : List Stmt) : P' (Stmt.execList k ss) := law.execList hk ss fun _ _ => trivial
  cases j with
  | expr e => exact law.le (eval e)
  | exprs es => exact law.le (law.eval.evalList hk es fun _ _ => trivial)
  | each x c e vs => exact law.le (items x (law.eval.comprehend (holds c) (eval e)) vs)
  | target value t v =>
    have any : ∀ m ∈ t.collect effects value, True := fun _ _ => trivial
    exact law.assign hk v t any
  | slots value starOpen ss vs =>
    have any : ∀ m ∈ Slot.collectList effects value ss, True := fun _ _ => trivial
    exact law.assignSlots hk starOpen ss vs any
  | stmt st => exact law.exec hk st fun _ _ => trivial
  | block ss => exact block ss
  | rounds c body m => exact law.block.loopWhile (law.le (holds (some c))) (block body) m
  | loop x value body vs =>
    exact law.block.loopEach (fun v => law.store x trivial v) (block body) vs
  | instantiate c args => exact law.le (law.eval.instantiate hk (new c args rfl) args)
  | invoke ref method args => exact law.le (law.eval.invoke hk ref method args)
  | callNamed name args => exact law.le (law.eval.callNamed hk name args)
  | callValue callee args => exact law.le (law.eval.callValue hk callee args)
  | callMethod v method args => exact law.le (law.eval.callMethodOf hk v method args)
  | call f args => exact law.le (call f args rfl)

/-! ### Other calls -/

/-- The same program with other calls. -/
def Calls.via (k : Calls) (enter : FunDef → List Value → EvalM Value) : Calls := { k with enter }

/-- From the point on, the evaluator makes calls only where the others do the same. -/
def Matches (k : Calls) (enter : FunDef → List Value → EvalM Value) (a : Point) : Prop :=
  ∀ s f args, ReflTransGen (Starts k) a ⟨s, .call f args⟩ →
    (enter f args).run s = (k.enter f args).run s

theorem run_bind_congr {x x' : EvalM α} {f f' : α → EvalM β} {s : Machine}
    (hx : x'.run s = x.run s) (hf : ∀ a t, x.run s = (.ok a, t) → (f' a).run t = (f a).run t) :
    (x' >>= f').run s = (x >>= f).run s := by
  rw [run_bind, run_bind, hx]
  rcases hr : x.run s with ⟨e | a, t⟩
  · rfl
  · exact hf a t hr

theorem run_ite_congr {c : Prop} [Decidable c] {x x' y y' : EvalM α} {s : Machine}
    (hx : c → x'.run s = x.run s) (hy : ¬c → y'.run s = y.run s) :
    (if c then x' else y').run s = (if c then x else y).run s := by
  split
  · exact hx ‹_›
  · exact hy ‹_›

/-- What follows a loop, or a round of one. -/
theorem run_flow_congr {flow : Flow} {x x' : EvalM Flow} {s : Machine}
    (h : flow = .normal ∨ flow = .continueLoop → x'.run s = x.run s) :
    (match flow with
      | .breakLoop => (pure .normal : EvalM Flow)
      | .ret v => pure (.ret v)
      | _ => x').run s =
    (match flow with
      | .breakLoop => (pure .normal : EvalM Flow)
      | .ret v => pure (.ret v)
      | _ => x).run s := by
  cases flow with
  | breakLoop | ret => rfl
  | normal => exact h (.inl rfl)
  | continueLoop => exact h (.inr rfl)

/-! Loops do the same if their parts do the same where they are run.  `R` holds of what is still to
be done and the state. -/

section Loops

theorem gather_congr {x : String} {step step' : EvalM (Option Value)}
    {R : List Value → Machine → Prop}
    (item : ∀ {v vs s}, R (v :: vs) s → step'.run (s.shadow x v) = step.run (s.shadow x v))
    (next : ∀ {v vs s t r}, R (v :: vs) s → step.run (s.shadow x v) = (.ok r, t) → R vs t)
    {items : List Value} {s : Machine} (h : R items s) :
    (gather x step' items).run s = (gather x step items).run s := by
  induction items generalizing s with
  | nil => rfl
  | cons v vs ih =>
    rw [gather, gather, run_modify_bind, run_modify_bind]
    refine run_bind_congr (item h) fun r t hr => ?_
    exact run_bind_congr (ih (next h hr)) fun _ _ _ => rfl

theorem gatherShadowing_congr {x : String} {step step' : EvalM (Option Value)} {items : List Value}
    {s : Machine} (h : (gather x step' items).run s = (gather x step items).run s) :
    (gatherShadowing x step' items).run s = (gatherShadowing x step items).run s := by
  cases items with
  | nil => rfl
  | cons v vs =>
    change (((gather x step' (v :: vs)).run s).1,
      ((gather x step' (v :: vs)).run s).2.restore x (s.hidden? x)) = _
    rw [h]
    rfl

variable {body body' : EvalM Flow}

theorem loopWhile_congr {cond cond' : EvalM Bool} {R : Nat → Machine → Prop}
    (test : ∀ {n s}, R (n + 1) s → cond'.run s = cond.run s)
    (round : ∀ {n s t}, R (n + 1) s → cond.run s = (.ok true, t) → body'.run t = body.run t)
    (next : ∀ {n s t u flow}, R (n + 1) s → cond.run s = (.ok true, t) →
      body.run t = (.ok flow, u) → flow = .normal ∨ flow = .continueLoop → R n u)
    {n : Nat} {s : Machine} (h : R n s) :
    (loopWhile cond' body' n).run s = (loopWhile cond body n).run s := by
  induction n generalizing s with
  | zero => rfl
  | succ n ih =>
    rw [loopWhile, loopWhile]
    refine run_bind_congr (test h) fun b t holds => run_ite_congr (fun hb => ?_) fun _ => rfl
    rw [hb] at holds
    refine run_bind_congr (round h holds) fun flow u hflow => run_flow_congr fun again => ?_
    exact ih (next h holds hflow again)

theorem loopEach_congr {x : String} {R : List Value → Machine → Prop}
    (pass : ∀ {v vs s}, R (v :: vs) s → body'.run (s.store x v) = body.run (s.store x v))
    (next : ∀ {v vs s t flow}, R (v :: vs) s → body.run (s.store x v) = (.ok flow, t) →
      flow = .normal ∨ flow = .continueLoop → R vs t)
    {items : List Value} {s : Machine} (h : R items s) :
    (loopEach x body' items).run s = (loopEach x body items).run s := by
  induction items generalizing s with
  | nil => rfl
  | cons v vs ih =>
    rw [loopEach, loopEach, run_modify_bind, run_modify_bind]
    refine run_bind_congr (pass h) fun flow t hflow => ?_
    cases flow with
    | breakLoop | ret => rfl
    | normal => exact ih (next h hflow (.inl rfl))
    | continueLoop => exact ih (next h hflow (.inr rfl))

end Loops

theorem comprehend_congr {k k' : Calls} {c : Option Expr} {e : Expr} {s : Machine}
    (hc : (Expr.holds k' c).run s = (Expr.holds k c).run s)
    (he : ∀ {t}, (Expr.holds k c).run s = (.ok true, t) → (e.eval k').run t = (e.eval k).run t) :
    (comprehend k' c e).run s = (comprehend k c e).run s := by
  refine run_bind_congr hc fun b t holds => run_ite_congr (fun hb => ?_) fun _ => rfl
  rw [hb] at holds
  exact run_bind_congr (he holds) fun _ _ _ => rfl

theorem run_evalList_cons {k : Calls} {e : Expr} {es : List Expr} {s t u : Machine} {v : Value}
    {vs : List Value} (he : (e.eval k).run s = (.ok v, t))
    (hes : (Expr.evalList k es).run t = (.ok vs, u)) :
    (Expr.evalList k (e :: es)).run s = (.ok (v :: vs), u) :=
  run_bind_eq_ok.2 ⟨v, t, he, run_bind_eq_ok.2 ⟨vs, u, hes, rfl⟩⟩

section

variable {k : Calls} {enter : FunDef → List Value → EvalM Value} {s : Machine}

theorem Matches.next {a b : Point} (h : Matches k enter a) (next : Starts k a b) :
    Matches k enter b := fun s f args path => h s f args (.head next path)

/-! ### Calls -/

theorem invoke_matches {ref : Nat} {method : String} {args : List Value}
    (h : Matches k enter ⟨s, .invoke ref method args⟩) :
    (invoke (k.via enter) ref method args).run s = (invoke k ref method args).run s := by
  unfold invoke
  rw [run_get_bind, run_get_bind]
  dsimp only [Calls.via]
  split
  · rename_i f hf
    exact h.next (.enterMethod hf) s f _ .refl
  · rfl

theorem instantiate_matches {c : ClassDef} {args : List Value}
    (h : Matches k enter ⟨s, .instantiate c args⟩) :
    (instantiate (k.via enter) c args).run s = (instantiate k c args).run s := by
  refine run_bind_congr rfl fun ref t made => ?_
  have same : (k.via enter).ctx = k.ctx := rfl
  rw [same]
  split
  · rename_i hc
    -- the constructor runs where the object has been made
    exact run_bind_congr (invoke_matches (h.next (.runConstructor hc made))) fun _ _ _ => rfl
  · rfl

theorem callNamed_matches {name : String} {args : List Value}
    (h : Matches k enter ⟨s, .callNamed name args⟩) :
    (callNamed (k.via enter) name args).run s = (callNamed k name args).run s := by
  unfold callNamed
  rw [run_modify_bind, run_modify_bind]
  dsimp only [Calls.via]
  split
  · rename_i f hf
    exact h.next (.enterFunction hf) _ f args .refl
  · rfl

theorem callValue_matches {callee : Value} {args : List Value}
    (h : Matches k enter ⟨s, .callValue callee args⟩) :
    (callValue (k.via enter) callee args).run s = (callValue k callee args).run s := by
  cases callee with
  | function name => exact callNamed_matches (h.next .callFunction)
  | object ref => exact invoke_matches (h.next .callObject)
  | _ => rfl

theorem callMethodOf_matches {v : Value} {method : String} {args : List Value}
    (h : Matches k enter ⟨s, .callMethod v method args⟩) :
    (callMethodOf (k.via enter) v method args).run s = (callMethodOf k v method args).run s := by
  unfold callMethodOf
  split
  · exact invoke_matches (h.next .invoke)
  · rfl
  · rfl

/-! ### Expressions -/

/-- The items of a comprehension, if its condition and its element are known. -/
theorem gather_matches {x : String} {c : Option Expr} {e : Expr} {items : List Value}
    (hc : ∀ {s}, Matches k enter ⟨s, .exprs c.toList⟩ →
      (Expr.holds (k.via enter) c).run s = (Expr.holds k c).run s)
    (he : ∀ {s}, Matches k enter ⟨s, .expr e⟩ → (e.eval (k.via enter)).run s = (e.eval k).run s)
    (h : Matches k enter ⟨s, .each x c e items⟩) :
    (gather x (comprehend (k.via enter) c e) items).run s =
      (gather x (comprehend k c e) items).run s := by
  refine gather_congr (R := fun items s => Matches k enter ⟨s, .each x c e items⟩) (fun h => ?_)
    (fun h hr => h.next (.nextItem hr)) h
  exact comprehend_congr (hc (h.next .condition)) fun holds => he (h.next (.element holds))

mutual

theorem eval_matches (e : Expr) {s : Machine} (h : Matches k enter ⟨s, .expr e⟩) :
    (e.eval (k.via enter)).run s = (e.eval k).run s := by
  have operands := h.next .operands
  cases e with
  | literal | id | lambda => rfl
  | unary _ a | builtin1 _ a | field a _ =>
    exact run_bind_congr (eval_matches a (operands.next .first)) fun _ _ _ => rfl
  | binary op l r =>
    cases op with
    | and =>
      refine run_bind_congr (eval_matches l (operands.next .first)) fun v t hl => ?_
      exact run_ite_congr (fun hv => eval_matches r (h.next (.conjunct hl hv))) fun _ => rfl
    | or =>
      refine run_bind_congr (eval_matches l (operands.next .first)) fun v t hl => ?_
      exact run_ite_congr (fun _ => rfl) fun hv =>
        eval_matches r (h.next (.disjunct hl (Bool.eq_false_iff.2 hv)))
    | _ =>
      refine run_bind_congr (eval_matches l (operands.next .first)) fun v t hl => ?_
      have right := (operands.next (.rest hl)).next .first
      exact run_bind_congr (eval_matches r right) fun _ _ _ => rfl
  | builtin2 _ l r | index l r =>
    refine run_bind_congr (eval_matches l (operands.next .first)) fun v t hl => ?_
    have right := (operands.next (.rest hl)).next .first
    exact run_bind_congr (eval_matches r right) fun _ _ _ => rfl
  | call f args =>
    have same : calleeClass? (k.via enter) s f = calleeClass? k s f := rfl
    unfold Expr.eval
    rw [run_get_bind, run_get_bind, same]
    split
    · rename_i c hc
      refine run_bind_congr (evalList_matches args (h.next (.fields hc))) fun vs t hargs => ?_
      exact instantiate_matches (h.next (.make hc hargs))
    · rename_i hc
      have parts := h.next (.callee hc)
      refine run_bind_congr (eval_matches f (parts.next .first)) fun v t hf => ?_
      refine run_bind_congr (evalList_matches args (parts.next (.rest hf))) fun vs u hargs => ?_
      exact callValue_matches (h.next (.callValue hc (run_evalList_cons hf hargs)))
  | methodCall o m args =>
    refine run_bind_congr (eval_matches o (operands.next .first)) fun v t ho => ?_
    refine run_bind_congr (evalList_matches args (operands.next (.rest ho))) fun vs u hargs => ?_
    exact callMethodOf_matches (h.next (.callMethod (run_evalList_cons ho hargs)))
  | list es | set es | tuple es =>
    exact run_bind_congr (evalList_matches es operands) fun _ _ _ => rfl
  | comprehension kind e x it c =>
    refine run_bind_congr (eval_matches it (operands.next .first)) fun v t hit => ?_
    refine run_bind_congr rfl fun items u hitems => ?_
    refine run_bind_congr (gatherShadowing_congr ?_) fun _ _ _ => rfl
    exact gather_matches (holds_matches c) (eval_matches e) (h.next (.items hit hitems))
  | ifElse c t e =>
    refine run_bind_congr (eval_matches c (operands.next .first)) fun v u hc => ?_
    have chosen := h.next (.choice hc)
    rw [run_get_bind, run_get_bind]
    split
    · rename_i hv
      rw [if_pos hv] at chosen
      exact eval_matches t chosen
    · rename_i hv
      rw [if_neg hv] at chosen
      exact eval_matches e chosen
  | construct name span =>
    unfold Expr.eval
    dsimp only [Calls.via]
    split
    · rename_i c hc
      exact instantiate_matches (h.next (.construct hc))
    · rfl

theorem evalList_matches (es : List Expr) {s : Machine} (h : Matches k enter ⟨s, .exprs es⟩) :
    (Expr.evalList (k.via enter) es).run s = (Expr.evalList k es).run s := by
  cases es with
  | nil => rfl
  | cons e es =>
    refine run_bind_congr (eval_matches e (h.next .first)) fun v t he => ?_
    exact run_bind_congr (evalList_matches es (h.next (.rest he))) fun _ _ _ => rfl

theorem holds_matches (c : Option Expr) {s : Machine} (h : Matches k enter ⟨s, .exprs c.toList⟩) :
    (Expr.holds (k.via enter) c).run s = (Expr.holds k c).run s := by
  cases c with
  | none => rfl
  | some c => exact run_bind_congr (eval_matches c (h.next .first)) fun _ _ _ => rfl

end

/-! ### Statements -/

theorem assign_matches {value : Expr} {t : Target} {v : Value}
    (h : Matches k enter ⟨s, .target value t v⟩) :
    (t.assign (k.via enter) v).run s = (t.assign k v).run s := by
  have operands := h.next .place
  cases t with
  | id | ignore => rfl
  | field o x => exact run_bind_congr (eval_matches o (operands.next .first)) fun _ _ _ => rfl
  | index o i =>
    refine run_bind_congr (eval_matches o (operands.next .first)) fun v t ho => ?_
    exact run_bind_congr (eval_matches i ((operands.next (.rest ho)).next .first)) fun _ _ _ => rfl

theorem assignSlots_matches {value : Expr} {starOpen : Bool} {slots : List Slot}
    {items : List Value} (h : Matches k enter ⟨s, .slots value starOpen slots items⟩) :
    (assignSlots (k.via enter) starOpen slots items).run s =
      (assignSlots k starOpen slots items).run s := by
  induction slots generalizing starOpen items s with
  | nil => rfl
  | cons slot slots ih =>
    unfold assignSlots
    by_cases hs : (starOpen && slot.starred) = true
    · rw [if_pos hs, if_pos hs]
      obtain ⟨rfl, starred⟩ := Bool.and_eq_true_iff.1 hs
      refine run_bind_congr rfl fun v t hv => ?_
      refine run_bind_congr (assign_matches (h.next (.star starred hv))) fun _ u hu => ?_
      exact ih (h.next (.afterStar starred hv hu))
    · rw [if_neg hs, if_neg hs]
      have single := Bool.eq_false_iff.2 hs
      refine run_bind_congr (assign_matches (h.next (.slot single))) fun _ u hu => ?_
      exact ih (h.next (.afterSlot single hu))

/-- The items of a value are assigned only if their number fits. -/
theorem destructure_matches {slots : List Slot} {v : Value}
    (h : ∀ items t, (itemsOf v "unpack").run s = (.ok items, t) →
      fixedSlots slots ≤ items.length →
      (slots.any (·.starred) = false → items.length = fixedSlots slots) →
      (assignSlots (k.via enter) true slots items).run t = (assignSlots k true slots items).run t) :
    (destructure (k.via enter) slots v).run s = (destructure k slots v).run s := by
  refine run_bind_congr rfl fun items t hitems => ?_
  dsimp only
  -- the number of slots without a star is written out in `destructure`
  generalize hfixed : slots.length - _ = fixed
  have hfixed : fixedSlots slots = fixed := hfixed
  rw [hfixed] at h
  split
  · rfl
  · rename_i hfit
    obtain ⟨enough, notFewer⟩ := not_or.1 hfit
    refine h items t hitems (Nat.le_of_not_lt enough) fun plain => ?_
    refine Decidable.byContradiction fun other => notFewer ⟨?_, other⟩
    rw [plain]
    rfl

section Blocks

variable {body : List Stmt}
  (hb : ∀ {s}, Matches k enter ⟨s, .block body⟩ →
    (Stmt.execList (k.via enter) body).run s = (Stmt.execList k body).run s)

include hb

theorem loopWhile_matches {c : Expr} {n : Nat} (h : Matches k enter ⟨s, .rounds c body n⟩) :
    (loopWhile (Expr.holds (k.via enter) (some c)) (Stmt.execList (k.via enter) body) n).run s =
      (loopWhile (Expr.holds k (some c)) (Stmt.execList k body) n).run s :=
  loopWhile_congr (R := fun n s => Matches k enter ⟨s, .rounds c body n⟩)
    (fun h => run_bind_congr (eval_matches c (h.next .test)) fun _ _ _ => rfl)
    (fun h holds => hb (h.next (.round holds)))
    (fun h holds hflow again => h.next (.nextRound holds hflow again)) h

theorem loopEach_matches {x : String} {value : Expr} {items : List Value}
    (h : Matches k enter ⟨s, .loop x value body items⟩) :
    (loopEach x (Stmt.execList (k.via enter) body) items).run s =
      (loopEach x (Stmt.execList k body) items).run s :=
  loopEach_congr (R := fun items s => Matches k enter ⟨s, .loop x value body items⟩)
    (fun h => hb (h.next .pass)) (fun h hflow again => h.next (.nextPass hflow again)) h

end Blocks

mutual

theorem exec_matches (st : Stmt) {s : Machine} (h : Matches k enter ⟨s, .stmt st⟩) :
    (st.exec (k.via enter)).run s = (st.exec k).run s := by
  have parts := h.next .parts
  cases st with
  | assign _ e | expr e =>
    exact run_bind_congr (eval_matches e (parts.next .first)) fun _ _ _ => rfl
  | unpack slots e =>
    refine run_bind_congr (eval_matches e (parts.next .first)) fun v t he => ?_
    refine run_bind_congr (destructure_matches fun items u hitems fits fixed => ?_) fun _ _ _ => rfl
    exact assignSlots_matches (h.next (.unpack he hitems fits fixed))
  | ret v =>
    cases v with
    | none => rfl
    | some e => exact run_bind_congr (eval_matches e (parts.next .first)) fun _ _ _ => rfl
  | setField o _ e =>
    refine run_bind_congr (eval_matches o (parts.next .first)) fun v t ho => ?_
    exact run_bind_congr (eval_matches e ((parts.next (.rest ho)).next .first)) fun _ _ _ => rfl
  | setIndex o i e =>
    refine run_bind_congr (eval_matches o (parts.next .first)) fun v t ho => ?_
    have parts := parts.next (.rest ho)
    refine run_bind_congr (eval_matches i (parts.next .first)) fun w u hi => ?_
    exact run_bind_congr (eval_matches e ((parts.next (.rest hi)).next .first)) fun _ _ _ => rfl
  | ifElse c thn els =>
    refine run_bind_congr (eval_matches c (parts.next .first)) fun v t hc => ?_
    have chosen := h.next (.branch hc)
    rw [run_get_bind, run_get_bind]
    split
    · rename_i hv
      rw [if_pos hv] at chosen
      exact execList_matches thn chosen
    · rename_i hv
      rw [if_neg hv] at chosen
      exact execList_matches els chosen
  | whileLoop c body => exact loopWhile_matches (execList_matches body) (h.next .whileLoop)
  | forEach x it body els =>
    refine run_bind_congr (eval_matches it (parts.next .first)) fun v t hit => ?_
    refine run_bind_congr rfl fun items u hitems => ?_
    have loop := loopEach_matches (execList_matches body) (h.next (.forEach hit hitems))
    -- only a loop that came to its end goes on with its last block
    refine run_bind_congr loop fun flow w hflow => run_flow_congr fun again => ?_
    cases els with
    | none => rfl
    | some ss => exact execList_matches ss (h.next (.forElse hit hitems hflow again))
  | pass | nonlocal | global | breakLoop | continueLoop | closure => rfl

theorem execList_matches (ss : List Stmt) {s : Machine} (h : Matches k enter ⟨s, .block ss⟩) :
    (Stmt.execList (k.via enter) ss).run s = (Stmt.execList k ss).run s := by
  cases ss with
  | nil => rfl
  | cons st ss =>
    refine run_bind_congr (exec_matches st (h.next .head)) fun flow t hflow => ?_
    cases flow with
    | normal => exact execList_matches ss (h.next (.tail hflow))
    | _ => rfl

end

end

/-- **Points are all there is.**  What is done at a point stays the same if calls are exchanged for
others that do the same where the evaluator comes to make a call. -/
theorem perform_congr {k : Calls} {enter : FunDef → List Value → EvalM Value} {a : Point}
    (h : Matches k enter a) :
    (a.job.perform (k.via enter)).run a.state = (a.job.perform k).run a.state := by
  obtain ⟨s, j⟩ := a
  cases j with
  | expr e => exact eval_matches e h
  | exprs es => exact evalList_matches es h
  | each x c e items => exact gather_matches (holds_matches c) (eval_matches e) h
  | target value t v => exact assign_matches h
  | slots value starOpen slots items => exact assignSlots_matches h
  | stmt st => exact exec_matches st h
  | block ss => exact execList_matches ss h
  | rounds c body n => exact loopWhile_matches (execList_matches body) h
  | loop x value body items => exact loopEach_matches (execList_matches body) h
  | instantiate c args => exact instantiate_matches h
  | invoke ref method args => exact invoke_matches h
  | callNamed name args => exact callNamed_matches h
  | callValue callee args => exact callValue_matches h
  | callMethod v method args => exact callMethodOf_matches h
  | call f args => exact h s f args .refl

end FlatClosure

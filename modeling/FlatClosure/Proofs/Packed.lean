import FlatClosure.Proofs.ExecSimulation
import FlatClosure.Proofs.Receiver
import FlatClosure.Proofs.Restoring
import FlatClosure.Proofs.Unshared

/-!
# Captured variables packed in an object

A body that reads captured variables runs in a call that has them.  The body that
`substituteCaptures` makes of it runs in a call that has an object with these values in its fields
in their place.  If nothing else refers to the object, its fields keep their values, and the second
run is like the first one in everything but the variables that were packed.

* `Mirrors` : the step does the same in both runs, whether it succeeds or stops.
* `mirrors_eval` : **an expression does.**
* `mirrors_execList` : **a body does.**
* `rewritten_body_simulates` : both runs, from the states that they start in.
-/

namespace FlatClosure

open Nested (View VarsRel isCaptured_nil id?_redirect execList_append execList_singleton)

variable {α β : Type} {ref : Nat} {o : Instance}

/-! ### Steps in both runs -/

/-- From states that differ in the open calls only, which are related, the steps yield the same, and
they leave such states.  The object is out of reach in the first run, and what the step yields has
the property. -/
def Mirrors (ref : Nat) (o : Instance) (R : List Frame → List Frame → Prop) (Q : α → Prop)
    (x y : EvalM α) : Prop :=
  ∀ s G, R s.frames G → Unshared ref o s → ∀ r t, x.run s = (r, t) →
    ∃ G', R t.frames G' ∧ Unshared ref o t ∧ (∀ a, r = .ok a → Q a) ∧
      y.run (s.withFrames G) = (r, t.withFrames G')

/-- The open calls are these ones. -/
def Exactly (F G F' G' : List Frame) : Prop := F' = F ∧ G' = G

/-- The open calls are these ones with a value for the comprehension variable. -/
def WithItem (x : String) (F G F' G' : List Frame) : Prop :=
  ∃ v, F' = shadowed x v F ∧ G' = shadowed x v G

/-- The innermost calls have corresponding variables, and the others are the same ones. -/
def OnPacked (V : View) (fs F G : List Frame) : Prop :=
  ∃ f g, F = f :: fs ∧ G = g :: fs ∧ VarsRel V [] f g

namespace Mirrors

variable {R : List Frame → List Frame → Prop} {F G : List Frame} {Q : α → Prop} {P : β → Prop}

theorem of_exactly {x y : EvalM α}
    (h : ∀ F G, R F G → Mirrors ref o (Exactly F G) Q x y) : Mirrors ref o R Q x y := by
  intro s G hR hs r t run
  obtain ⟨G', ⟨frames, rfl⟩, after⟩ := h s.frames G hR s G ⟨rfl, rfl⟩ hs r t run
  exact ⟨G', frames ▸ hR, after⟩

theorem sealed {x : EvalM α} (hx : Sealed x) (gx : Guarded ref o Q x)
    (length : ∀ F G, R F G → G.length = F.length) : Mirrors ref o R Q x x := by
  intro s G hR hs r t h
  have frames := hx.frames s
  have run := hx s G (length _ _ hR)
  obtain ⟨unshared, yields⟩ := gx s hs
  rw [h] at frames run unshared yields
  exact ⟨G, frames ▸ hR, unshared, yields, run⟩

theorem quiet {x : EvalM α} (hx : Quiet x) (gx : Guarded ref o Q x) : Mirrors ref o R Q x x := by
  intro s G hR hs r t h
  have frames := hx.frames s
  have run := hx.run_withFrames s G
  obtain ⟨unshared, yields⟩ := gx s hs
  rw [h] at frames run unshared yields
  exact ⟨G, frames ▸ hR, unshared, yields, run⟩

theorem pure {a : α} (h : Q a) : Mirrors ref o R Q (pure a) (pure a) :=
  quiet (.pure a) (.pure h)

theorem throw (e : Stop) : Mirrors ref o R Q (throw e) (throw e) := by
  intro s G hR hs r t h
  cases h
  refine ⟨G, hR, hs, fun a ha => ?_, rfl⟩
  cases ha

theorem fail (e : EvalError) : Mirrors ref o R Q (fail e) (fail e) := throw _

theorem bind {x y : EvalM α} {f g : α → EvalM β} (hx : Mirrors ref o R Q x y)
    (hf : ∀ a, Q a → Mirrors ref o R P (f a) (g a)) : Mirrors ref o R P (x >>= f) (y >>= g) := by
  intro s G hR hs r t h
  rw [run_bind] at h
  rcases hr : x.run s with ⟨e | a, u⟩ <;>
    obtain ⟨G', hR', unshared, yields, run⟩ := hx s G hR hs _ u hr <;> rw [hr] at h
  · cases h
    refine ⟨G', hR', unshared, fun b hb => ?_, by rw [run_bind, run]⟩
    cases hb
  · obtain ⟨G₁, hR₁, unshared₁, yields₁, run₁⟩ := hf a (yields a rfl) u G' hR' unshared r t h
    exact ⟨G₁, hR₁, unshared₁, yields₁, (run_bind_of_ok run).trans run₁⟩

/-- A step that looks at the state first, but not at the open calls. -/
theorem look {f g : Machine → EvalM α} (blind : ∀ s fs, g (s.withFrames fs) = g s)
    (h : ∀ s, Mirrors ref o R Q (f s) (g s)) : Mirrors ref o R Q (get >>= f) (get >>= g) := by
  intro s G hR hs r t run
  rw [run_get_bind, blind]
  exact h s s G hR hs r t run

protected theorem modify {m : Machine → Machine} (h : ∀ s G, R s.frames G → Unshared ref o s →
      Unshared ref o (m s) ∧ ∃ G', R (m s).frames G' ∧ m (s.withFrames G) = (m s).withFrames G') :
    Mirrors ref o R (fun _ => True) (modify m : EvalM Unit) (modify m) := by
  intro s G hR hs r t run
  cases run
  obtain ⟨unshared, G', hR', same⟩ := h s G hR hs
  exact ⟨G', hR', unshared, fun _ _ => trivial, congrArg (Except.ok (), ·) same⟩

theorem ite {c : Prop} [Decidable c] {x x' y y' : EvalM α} (h : Mirrors ref o R Q x y)
    (h' : Mirrors ref o R Q x' y') :
    Mirrors ref o R Q (if c then x else x') (if c then y else y') := by
  split
  · exact h
  · exact h'

/-! #### Comprehensions -/

variable {x : String} {step step' : EvalM (Option Value)}

theorem shadow (hnil : F = [] ↔ G = []) {v : Value} (hv : Misses ref v) :
    Mirrors ref o (WithItem x F G) (fun _ => True) (modify (·.shadow x v) : EvalM Unit)
      (modify (·.shadow x v)) := by
  refine .modify ?_
  rintro s _ ⟨w, hF, rfl⟩ hs
  have empty : s.frames = [] ↔ shadowed x w G = [] := by
    rw [hF, shadowed_eq_nil, shadowed_eq_nil, hnil]
  refine ⟨hs.shadow hv, shadowed x v G, ⟨v, ?_, rfl⟩, ?_⟩
  · rw [frames_shadow, hF, shadowed_shadowed]
  · rw [shadow_withFrames empty, shadowed_shadowed]

theorem gather (hnil : F = [] ↔ G = [])
    (hstep : ∀ w, Mirrors ref o (Exactly (shadowed x w F) (shadowed x w G))
      (fun r => ∀ v ∈ r, Misses ref v) step step')
    {items : List Value} (hitems : ∀ v ∈ items, Misses ref v) :
    Mirrors ref o (WithItem x F G) (fun vs => ∀ v ∈ vs, Misses ref v) (gather x step items)
      (gather x step' items) := by
  induction items with
  | nil => exact pure (List.forall_mem_nil _)
  | cons v items ih =>
    obtain ⟨hv, hitems⟩ := List.forall_mem_cons.1 hitems
    have inside : Mirrors ref o (WithItem x F G) (fun r => ∀ v ∈ r, Misses ref v) step step' := by
      refine of_exactly ?_
      rintro _ _ ⟨w, rfl, rfl⟩
      exact hstep w
    refine bind (shadow hnil hv) fun _ _ => bind inside fun r hr => ?_
    refine bind (ih hitems) fun rs hrs => ?_
    exact pure (List.forall_mem_append.2 ⟨fun w hw => hr w (Option.mem_toList.1 hw), hrs⟩)

/-- The variable that a comprehension hides comes back in both runs. -/
theorem gatherShadowing (hnil : F = [] ↔ G = [])
    (hstep : ∀ w, Mirrors ref o (Exactly (shadowed x w F) (shadowed x w G))
      (fun r => ∀ v ∈ r, Misses ref v) step step')
    {items : List Value} (hitems : ∀ v ∈ items, Misses ref v) :
    Mirrors ref o (Exactly F G) (fun vs => ∀ v ∈ vs, Misses ref v) (gatherShadowing x step items)
      (gatherShadowing x step' items) := by
  cases items with
  | nil => exact pure (List.forall_mem_nil _)
  | cons v items =>
    rintro s G ⟨hF, rfl⟩ hs r t h
    -- the first item replaces whatever value the variable has
    have start (step : EvalM (Option Value)) (s : Machine) :
        (FlatClosure.gather x step (v :: items)).run s =
          (FlatClosure.gather x step (v :: items)).run (s.shadow x v) := by
      rw [FlatClosure.gather, run_modify_bind, run_modify_bind, shadow_shadow]
    have hv : Misses ref v := hitems v List.mem_cons_self
    have empty : s.frames = [] ↔ G = [] := by rw [hF, hnil]
    rcases hr : (FlatClosure.gather x step (v :: items)).run s with ⟨r', u⟩
    obtain ⟨_, ⟨w, hu, rfl⟩, unshared, yields, run⟩ := gather hnil hstep hitems (s.shadow x v)
      (shadowed x v G) ⟨v, by rw [frames_shadow, hF], rfl⟩ (hs.shadow hv) r' u (start step s ▸ hr)
    have run' : (FlatClosure.gather x step' (v :: items)).run (s.withFrames G) =
        (r', u.withFrames (shadowed x w G)) := by
      rw [start, shadow_withFrames empty, run]
    rw [run_gatherShadowing, hr] at h
    cases h
    refine ⟨G, ⟨restore_shadowed hF hu, rfl⟩, unshared.restore hs.hidden?, yields, ?_⟩
    rw [run_gatherShadowing, run', restore_withFrames hF hu hnil]

end Mirrors

/-! ### Expressions -/

/-- The receiver holds the object, in whose fields the captured variables are. -/
def ClosureSite.view (site : ClosureSite) (ref : Nat) (o : Instance) : View where
  site := site
  hidden := [site.receiver]
  held := [(ref, o)]
  receiver_hidden _ _ := List.mem_singleton_self _

section Expressions

variable {site : ClosureSite} {scope : List String} {f g : Frame} {fs : List Frame}

theorem ClosureSite.not_hidden {x : String} (hx : x ≠ site.receiver) :
    x ∉ (site.view ref o).hidden :=
  fun h => hx (List.mem_singleton.1 h)

theorem Exactly.length {F' G' : List Frame} (h : Exactly (f :: fs) (g :: fs) F' G') :
    G'.length = F'.length := by
  rw [h.1, h.2]
  rfl

theorem mirrors_read {k : Calls} (rel : VarsRel (site.view ref o) scope f g) {x : String}
    (hx : x ≠ site.receiver) (span : Span) :
    Mirrors ref o (Exactly (f :: fs) (g :: fs)) (Misses ref) (readName k x)
      (((Expr.id x span).redirect site scope).eval k) := by
  rintro s _ ⟨hF, rfl⟩ hs r t h
  rw [readName_run] at h
  cases h
  refine ⟨g :: fs, ⟨hF, rfl⟩, hs, fun v hv => ?_, ?_⟩
  · cases hl : s.lookup? k.ctx.program x <;> rw [hl] at hv <;> cases hv
    exact hs.lookup? hl
  · cases hc : site.isCaptured x scope with
    | false =>
      rw [Expr.redirect, hc, ← rel.lookup?_eq (ClosureSite.not_hidden hx) hc k.ctx.program hF]
      exact readName_run k x _
    | true =>
      rw [Expr.redirect, hc]
      have held : ∀ ro ∈ (site.view ref o).held, s.heap.objects[ro.1]? = some ro.2 := by
        intro ro hro
        rw [List.mem_singleton.1 hro]
        exact hs.object
      -- the only place where the object is looked at: its fields are still those of the start
      obtain ⟨v, hv, run⟩ := rel.read_captured hc hF held k.ctx.program k span
      rw [hv]
      exact run

/-- A callee names a class in both runs or in none. -/
theorem calleeClass?_redirect {k : Calls} (rel : VarsRel (site.view ref o) scope f g) {e : Expr}
    (he : ∀ x, e.id? = some x → x ≠ site.receiver) {s : Machine} (hs : s.frames = f :: fs) :
    calleeClass? k (s.withFrames (g :: fs)) (e.redirect site scope) = calleeClass? k s e := by
  refine Option.ext fun c => ?_
  rw [calleeClass?_eq_some, calleeClass?_eq_some]
  constructor
  · rintro ⟨x, hx, hvar, hcls⟩
    obtain ⟨hx, hc⟩ := id?_redirect.1 hx
    rw [rel.isVariable_eq (ClosureSite.not_hidden (he x hx)) hc hs] at hvar
    exact ⟨x, hx, hvar, hcls⟩
  · rintro ⟨x, hx, hvar, hcls⟩
    have hc := rel.isCaptured_of_isVariable hs hvar
    have same : (s.withFrames (g :: fs)).isVariable x = s.isVariable x :=
      rel.isVariable_eq (ClosureSite.not_hidden (he x hx)) hc hs
    exact ⟨x, id?_redirect.2 ⟨hx, hc⟩, same.trans hvar, hcls⟩

theorem mirrors_call {ctx : Context} {fuel : Nat} (rel : VarsRel (site.view ref o) scope f g)
    {e : Expr} {args args' : List Expr} (he : ∀ x, e.id? = some x → x ≠ site.receiver)
    (callee : Mirrors ref o (Exactly (f :: fs) (g :: fs)) (Misses ref) (e.eval (ctx.calls fuel))
      ((e.redirect site scope).eval (ctx.calls fuel)))
    (values : Mirrors ref o (Exactly (f :: fs) (g :: fs)) (fun vs => ∀ v ∈ vs, Misses ref v)
      (Expr.evalList (ctx.calls fuel) args) (Expr.evalList (ctx.calls fuel) args')) :
    Mirrors ref o (Exactly (f :: fs) (g :: fs)) (Misses ref)
      ((Expr.call e args).eval (ctx.calls fuel))
      ((Expr.call (e.redirect site scope) args').eval (ctx.calls fuel)) := by
  have guard : (ctx.calls fuel).Guard ref o := guarded_calls ctx fuel
  rintro s _ ⟨hF, rfl⟩ hs r t h
  rw [Expr.eval, run_get_bind] at h ⊢
  -- both runs make an object of the same class, or both evaluate the callee
  rw [calleeClass?_redirect rel he hF]
  cases hc : calleeClass? (ctx.calls fuel) s e with
  | some c =>
    rw [hc] at h
    refine Mirrors.bind values (fun vs hvs => ?_) s (g :: fs) ⟨hF, rfl⟩ hs r t h
    exact .sealed (instantiate_sealed ctx fuel c vs) (guarded_instantiate guard hvs c)
      fun _ _ h => h.length
  | none =>
    rw [hc] at h
    refine Mirrors.bind callee (fun v hv => .bind values fun vs hvs => ?_) s (g :: fs) ⟨hF, rfl⟩ hs
      r t h
    exact .sealed (callValue_sealed ctx fuel v vs) (guarded_callValue guard hvs hv)
      fun _ _ h => h.length

end Expressions

section Evaluation

variable {ctx : Context} {fuel : Nat} {site : ClosureSite}

/-- The receiver is not mentioned. -/
def Unmentioned (site : ClosureSite) (ms : List Effect) : Prop :=
  ∀ m ∈ ms, ¬ m.Concerns site.receiver

theorem unmentioned_append {ms ms' : List Effect} :
    Unmentioned site (ms ++ ms') ↔ Unmentioned site ms ∧ Unmentioned site ms' :=
  List.forall_mem_append

mutual

/-- **An expression does the same in both runs.** -/
theorem mirrors_eval {scope : List String} {f g : Frame} {fs : List Frame}
    (rel : VarsRel (site.view ref o) scope f g) (e : Expr)
    (free : Unmentioned site (e.collect effects)) :
    Mirrors ref o (Exactly (f :: fs) (g :: fs)) (Misses ref) (e.eval (ctx.calls fuel))
      ((e.redirect site scope).eval (ctx.calls fuel)) := by
  cases e with
  | literal v => exact .pure (misses_literal v)
  | id x span => exact mirrors_read rel (free _ List.mem_cons_self) span
  | unary op a =>
    exact .bind (mirrors_eval rel a free) fun v _ => .quiet (.applyUnary op v) (.applyUnary op v)
  | binary op l r =>
    obtain ⟨hl, hr⟩ := unmentioned_append.1 free
    have left : Mirrors ref o (Exactly (f :: fs) (g :: fs)) (Misses ref)
        (l.eval (ctx.calls fuel)) _ := mirrors_eval rel l hl
    have right : Mirrors ref o (Exactly (f :: fs) (g :: fs)) (Misses ref)
        (r.eval (ctx.calls fuel)) _ := mirrors_eval rel r hr
    cases op with
    | and => exact .bind left fun _ hv => .look (fun _ _ => rfl) fun _ => .ite right (.pure hv)
    | or => exact .bind left fun _ hv => .look (fun _ _ => rfl) fun _ => .ite (.pure hv) right
    | _ =>
      exact .bind left fun v _ => .bind right fun w _ =>
        .quiet (.applyBinary _ v w) (.applyBinary _ v w)
  | builtin1 name a =>
    exact .bind (mirrors_eval rel a free) fun v _ =>
      .quiet (.applyBuiltin1 name v) (.applyBuiltin1 name v)
  | builtin2 name l r =>
    obtain ⟨hl, hr⟩ := unmentioned_append.1 free
    exact .bind (mirrors_eval rel l hl) fun v _ => .bind (mirrors_eval rel r hr) fun w _ =>
      .quiet (.applyBuiltin2 name v w) (.applyBuiltin2 name v w)
  | call e args =>
    obtain ⟨he, hargs⟩ := unmentioned_append.1 free
    exact mirrors_call rel (fun x hx => he _ (read_mem_effects hx)) (mirrors_eval rel e he)
      (mirrors_evalList rel args hargs)
  | field a x =>
    exact .bind (mirrors_eval rel a free) fun v _ => .quiet (.getField v x) (.getField v x)
  | index a i =>
    obtain ⟨ha, hi⟩ := unmentioned_append.1 free
    exact .bind (mirrors_eval rel a ha) fun v hv => .bind (mirrors_eval rel i hi) fun w _ =>
      .quiet (.getIndex v w) (.getIndex hv w)
  | methodCall a m args =>
    obtain ⟨ha, hargs⟩ := unmentioned_append.1 free
    exact .bind (mirrors_eval rel a ha) fun v hv =>
      .bind (mirrors_evalList rel args hargs) fun vs hvs =>
        .sealed (callMethodOf_sealed ctx fuel v m vs)
          (guarded_callMethodOf (guarded_calls ctx fuel) hvs hv m) fun _ _ h => h.length
  | list es =>
    exact .bind (mirrors_evalList rel es free) fun vs hvs => .quiet (.newList vs) (.newList hvs)
  | set es =>
    exact .bind (mirrors_evalList rel es free) fun vs hvs => .quiet (.newSet vs) (.newSet hvs)
  | tuple es =>
    exact .bind (mirrors_evalList rel es free) fun _ hvs => .pure (misses_tuple.2 hvs)
  | comprehension kind elem x it c =>
    obtain ⟨hit, hin⟩ := unmentioned_append.1 free
    obtain ⟨hx, hin⟩ := List.forall_mem_cons.1 hin
    obtain ⟨helem, hc⟩ := unmentioned_append.1 hin
    refine .bind (mirrors_eval rel it hit) fun v hv =>
      .bind (.quiet (.itemsOf v _) (.itemsOf hv _)) fun items hitems => ?_
    refine .bind (.gatherShadowing (by simp) (fun w => ?_) hitems) fun vs hvs => ?_
    · -- while `x` has a value of its own, it is not read from the receiver
      have rel' := rel.shadow (ClosureSite.not_hidden hx) w
      refine .bind (mirrors_holds rel' c hc) fun b _ => .ite ?_ (.pure ?_)
      · refine .bind (mirrors_eval rel' elem helem) fun v hv => .pure ?_
        exact fun w hw => Option.some.inj hw ▸ hv
      · exact fun _ hw => nomatch hw
    · cases kind with
      | list => exact .quiet (.newList vs) (.newList hvs)
      | set => exact .quiet (.newSet vs) (.newSet hvs)
  | ifElse c t e =>
    obtain ⟨hct, he⟩ := unmentioned_append.1 free
    obtain ⟨hc, ht⟩ := unmentioned_append.1 hct
    exact .bind (mirrors_eval rel c hc) fun _ _ => .look (fun _ _ => rfl) fun _ =>
      .ite (mirrors_eval rel t ht) (mirrors_eval rel e he)
  | construct name span =>
    rw [Expr.redirect, Expr.eval]
    split
    · rename_i c _
      exact .sealed (instantiate_sealed ctx fuel c [])
        (guarded_instantiate (guarded_calls ctx fuel) (List.forall_mem_nil _) c)
        fun _ _ h => h.length
    · exact .fail _
  | lambda => exact .fail _

theorem mirrors_evalList {scope : List String} {f g : Frame} {fs : List Frame}
    (rel : VarsRel (site.view ref o) scope f g) (es : List Expr)
    (free : Unmentioned site (Expr.collectList effects es)) :
    Mirrors ref o (Exactly (f :: fs) (g :: fs)) (fun vs => ∀ v ∈ vs, Misses ref v)
      (Expr.evalList (ctx.calls fuel) es)
      (Expr.evalList (ctx.calls fuel) (Expr.redirectList site scope es)) := by
  cases es with
  | nil => exact .pure (List.forall_mem_nil _)
  | cons e es =>
    obtain ⟨he, hes⟩ := unmentioned_append.1 free
    exact .bind (mirrors_eval rel e he) fun _ hv =>
      .bind (mirrors_evalList rel es hes) fun _ hvs => .pure (List.forall_mem_cons.2 ⟨hv, hvs⟩)

theorem mirrors_holds {scope : List String} {f g : Frame} {fs : List Frame}
    (rel : VarsRel (site.view ref o) scope f g) (c : Option Expr)
    (free : Unmentioned site (Expr.collectOption effects c)) :
    Mirrors ref o (Exactly (f :: fs) (g :: fs)) (fun _ => True)
      (Expr.holds (ctx.calls fuel) c)
      (Expr.holds (ctx.calls fuel) (Expr.redirectOption site scope c)) := by
  cases c with
  | none => exact .pure trivial
  | some c =>
    exact .bind (mirrors_eval rel c free) fun _ _ => .look (fun _ _ => rfl) fun _ => .pure trivial

end

/-! ### Statements -/

/-- The receiver is not mentioned, and captured variables are neither written nor declared
global. -/
def Spared (site : ClosureSite) (ms : List Effect) : Prop :=
  Unmentioned site ms ∧ ∀ x, .write x ∈ ms ∨ .global x ∈ ms → site.captures.contains x = false

theorem spared_append {ms ms' : List Effect} :
    Spared site (ms ++ ms') ↔ Spared site ms ∧ Spared site ms' := by
  simp only [Spared, unmentioned_append, List.mem_append]
  grind

section Statements

variable {fs : List Frame}

theorem OnPacked.length {V : View} {F G : List Frame} (h : OnPacked V fs F G) :
    G.length = F.length := by
  obtain ⟨f, g, rfl, rfl, -⟩ := h
  rfl

theorem mirrors_value (e : Expr) (free : Spared site (e.collect effects)) :
    Mirrors ref o (OnPacked (site.view ref o) fs) (Misses ref) (e.eval (ctx.calls fuel))
      ((e.redirect site []).eval (ctx.calls fuel)) := by
  refine .of_exactly ?_
  rintro _ _ ⟨f, g, rfl, rfl, rel⟩
  exact mirrors_eval rel e free.1

theorem mirrors_store {x : String} (hx : Spared site [.write x]) {v : Value} (hv : Misses ref v) :
    Mirrors ref o (OnPacked (site.view ref o) fs) (fun _ => True)
      (modify (·.store x v) : EvalM Unit) (modify (·.store x v)) := by
  refine .modify ?_
  rintro s _ ⟨f, g, hF, rfl, rel⟩ hs
  have hid : x ∉ (site.view ref o).hidden :=
    ClosureSite.not_hidden (hx.1 _ (List.mem_singleton_self _))
  have hcap : site.captures.contains x = false := hx.2 x (.inl (List.mem_singleton_self _))
  refine ⟨hs.store hv, ?_⟩
  rcases rel.store_cases hid (isCaptured_nil.trans hcap) hF fs v with
    ⟨store, store'⟩ | ⟨-, store, store'⟩ <;> rw [store, store']
  · exact ⟨g.set x v :: fs, ⟨f.set x v, g.set x v, rfl, rfl, rel.set hid hcap v⟩, rfl⟩
  · exact ⟨g :: fs, ⟨f, g, hF, rfl, rel⟩, rfl⟩

theorem mirrors_declareGlobal {x : String} (hx : Spared site [.global x]) :
    Mirrors ref o (OnPacked (site.view ref o) fs) (fun _ => True)
      (modify (·.declareGlobal x) : EvalM Unit) (modify (·.declareGlobal x)) := by
  refine .modify ?_
  rintro s _ ⟨f, g, hF, rfl, rel⟩ hs
  have declare : s.declareGlobal x = s.withFrames (f.declareGlobal x :: fs) := by
    rw [Machine.declareGlobal, hF]
    rfl
  have rel' := rel.declareGlobal (ClosureSite.not_hidden (hx.1 _ (List.mem_singleton_self _)))
    (hx.2 x (.inr (List.mem_singleton_self _)))
  refine ⟨hs.declareGlobal, g.declareGlobal x :: fs, ?_⟩
  rw [declare]
  exact ⟨⟨f.declareGlobal x, g.declareGlobal x, rfl, rfl, rel'⟩, rfl⟩

theorem mirrors_assign {value : Expr} {v : Value} (hv : Misses ref v) (t : Target)
    (free : Spared site (t.collect effects value)) :
    Mirrors ref o (OnPacked (site.view ref o) fs) (fun _ => True) (t.assign (ctx.calls fuel) v)
      ((t.mapExpr (Expr.redirect site [])).assign (ctx.calls fuel) v) := by
  cases t with
  | id x => exact mirrors_store free hv
  | field a x =>
    exact .bind (mirrors_value a free) fun w hw =>
      .sealed (storeField_sealed w x v) (.storeField hw x hv) fun _ _ h => h.length
  | index a i =>
    obtain ⟨ha, hi⟩ := spared_append.1 free
    exact .bind (mirrors_value a ha) fun w _ => .bind (mirrors_value i hi) fun j _ =>
      .quiet (.storeItem w j v) (.storeItem w j hv)
  | ignore => exact .pure trivial

theorem mirrors_assignSlots {value : Expr} (starOpen : Bool) (slots : List Slot)
    {items : List Value} (hitems : ∀ v ∈ items, Misses ref v)
    (free : Spared site (Slot.collectList effects value slots)) :
    Mirrors ref o (OnPacked (site.view ref o) fs) (fun _ => True)
      (assignSlots (ctx.calls fuel) starOpen slots items)
      (assignSlots (ctx.calls fuel) starOpen (Slot.mapExprs (Expr.redirect site []) slots)
        items) := by
  induction slots generalizing starOpen items with
  | nil => exact .pure trivial
  | cons slot slots ih =>
    obtain ⟨hslot, hslots⟩ := spared_append.1 free
    rw [assignSlots, Slot.mapExprs, assignSlots, Slot.length_mapExprs]
    refine .ite ?_ ?_
    · refine .bind (.quiet (.newList _) (.newList fun v hv => hitems v (List.mem_of_mem_take hv)))
        fun v hv => ?_
      exact .bind (mirrors_assign hv slot.target hslot) fun _ _ =>
        ih _ (fun v hv => hitems v (List.mem_of_mem_drop hv)) hslots
    · exact .bind (mirrors_assign (misses_headD hitems) slot.target hslot) fun _ _ =>
        ih _ (fun v hv => hitems v (List.mem_of_mem_tail hv)) hslots

theorem mirrors_destructure {value : Expr} (slots : List Slot) {v : Value} (hv : Misses ref v)
    (free : Spared site (Slot.collectList effects value slots)) :
    Mirrors ref o (OnPacked (site.view ref o) fs) (fun _ => True)
      (destructure (ctx.calls fuel) slots v)
      (destructure (ctx.calls fuel) (Slot.mapExprs (Expr.redirect site []) slots) v) := by
  rw [destructure, destructure, Slot.length_mapExprs, Slot.any_starred_mapExprs]
  exact .bind (.quiet (.itemsOf v _) (.itemsOf hv _)) fun items hitems =>
    .ite (.fail _) (mirrors_assignSlots true slots hitems free)

theorem Mirrors.loopWhile {R : List Frame → List Frame → Prop} {cond cond' : EvalM Bool}
    {body body' : EvalM Flow} (hcond : Mirrors ref o R (fun _ => True) cond cond')
    (hbody : Mirrors ref o R (Flow.Misses ref) body body') (n : Nat) :
    Mirrors ref o R (Flow.Misses ref) (loopWhile cond body n) (loopWhile cond' body' n) := by
  induction n with
  | zero => exact .throw _
  | succ n ih =>
    refine .bind hcond fun _ _ => .ite (.bind hbody fun flow hflow => ?_) (.pure trivial)
    cases flow with
    | breakLoop => exact .pure trivial
    | ret v => exact .pure hflow
    | normal | continueLoop => exact ih

theorem mirrors_loopEach {x : String} (hx : Spared site [.write x]) {body body' : EvalM Flow}
    (hbody : Mirrors ref o (OnPacked (site.view ref o) fs) (Flow.Misses ref) body body')
    {items : List Value} (hitems : ∀ v ∈ items, Misses ref v) :
    Mirrors ref o (OnPacked (site.view ref o) fs) (Flow.Misses ref) (loopEach x body items)
      (loopEach x body' items) := by
  induction items with
  | nil => exact .pure trivial
  | cons v items ih =>
    obtain ⟨hv, hitems⟩ := List.forall_mem_cons.1 hitems
    refine .bind (mirrors_store hx hv) fun _ _ => .bind hbody fun flow hflow => ?_
    cases flow with
    | breakLoop => exact .pure trivial
    | ret v => exact .pure hflow
    | normal | continueLoop => exact ih hitems

end Statements

mutual

/-- **A statement does the same in both runs.** -/
theorem mirrors_exec {fs : List Frame} (s : Stmt) (flat : s.collect closures = [])
    (free : Spared site (s.collect effects)) :
    Mirrors ref o (OnPacked (site.view ref o) fs) (Flow.Misses ref) (s.exec (ctx.calls fuel))
      (Stmt.execList (ctx.calls fuel) (s.splice (Expr.redirect site []) [])) := by
  cases s with
  | assign x e =>
    obtain ⟨he, hx⟩ := spared_append.1 free
    rw [Stmt.splice, execList_singleton]
    exact .bind (mirrors_value e he) fun _ hv => .bind (mirrors_store hx hv) fun _ _ =>
      .pure trivial
  | unpack slots e =>
    obtain ⟨he, hslots⟩ := spared_append.1 free
    rw [Stmt.splice, execList_singleton]
    exact .bind (mirrors_value e he) fun _ hv =>
      .bind (mirrors_destructure slots hv hslots) fun _ _ => .pure trivial
  | ret e =>
    rw [Stmt.splice, execList_singleton]
    cases e with
    | none => exact .pure (show Misses ref .none from rfl)
    | some e => exact .bind (mirrors_value e free) fun _ hv => .pure hv
  | expr e =>
    rw [Stmt.splice, execList_singleton]
    exact .bind (mirrors_value e free) fun _ _ => .pure trivial
  | setField a x e =>
    obtain ⟨ha, he⟩ := spared_append.1 free
    rw [Stmt.splice, execList_singleton]
    exact .bind (mirrors_value a ha) fun v hv => .bind (mirrors_value e he) fun w hw =>
      .bind (.sealed (storeField_sealed v x w) (.storeField hv x hw) fun _ _ h => h.length)
        fun _ _ => .pure trivial
  | setIndex a i e =>
    obtain ⟨hai, he⟩ := spared_append.1 free
    obtain ⟨ha, hi⟩ := spared_append.1 hai
    rw [Stmt.splice, execList_singleton]
    exact .bind (mirrors_value a ha) fun v _ => .bind (mirrors_value i hi) fun j _ =>
      .bind (mirrors_value e he) fun w hw =>
        .bind (.quiet (.storeItem v j w) (.storeItem v j hw)) fun _ _ => .pure trivial
  | ifElse c thn els =>
    obtain ⟨hct, hels⟩ := spared_append.1 free
    obtain ⟨hc, hthn⟩ := spared_append.1 hct
    rw [Stmt.closures_ifElse, List.append_eq_nil_iff] at flat
    rw [Stmt.splice, execList_singleton, List.drop_nil]
    exact .bind (mirrors_value c hc) fun _ _ => .look (fun _ _ => rfl) fun _ =>
      .ite (mirrors_execList thn flat.1 hthn) (mirrors_execList els flat.2 hels)
  | whileLoop c body =>
    obtain ⟨hc, hbody⟩ := spared_append.1 free
    rw [Stmt.closures_whileLoop] at flat
    rw [Stmt.splice, execList_singleton]
    refine .loopWhile ?_ (mirrors_execList body flat hbody) _
    exact .bind (mirrors_value c hc) fun _ _ => .look (fun _ _ => rfl) fun _ => .pure trivial
  | forEach x it body els =>
    obtain ⟨hixb, hels⟩ := spared_append.1 free
    obtain ⟨hix, hbody⟩ := spared_append.1 hixb
    obtain ⟨hit, hx⟩ := spared_append.1 hix
    rw [Stmt.closures_forEach, List.append_eq_nil_iff] at flat
    rw [Stmt.splice, execList_singleton, List.drop_nil]
    refine .bind (mirrors_value it hit) fun v hv =>
      .bind (.quiet (.itemsOf v _) (.itemsOf hv _)) fun items hitems => ?_
    refine .bind (mirrors_loopEach hx (mirrors_execList body flat.1 hbody) hitems)
      fun flow hflow => ?_
    cases flow with
    | breakLoop => exact .pure trivial
    | ret v => exact .pure hflow
    | normal | continueLoop => exact mirrors_execOption els flat.2 hels
  | global x =>
    rw [Stmt.splice, execList_singleton]
    exact .bind (mirrors_declareGlobal free) fun _ _ => .pure trivial
  | pass | breakLoop | continueLoop =>
    rw [Stmt.splice, execList_singleton]
    exact .pure trivial
  | nonlocal x =>
    rw [Stmt.splice, execList_singleton]
    exact .fail _
  | closure f => cases flat

theorem mirrors_execList {fs : List Frame} (ss : List Stmt)
    (flat : Stmt.collectList closures ss = []) (free : Spared site (Stmt.collectList effects ss)) :
    Mirrors ref o (OnPacked (site.view ref o) fs) (Flow.Misses ref)
      (Stmt.execList (ctx.calls fuel) ss)
      (Stmt.execList (ctx.calls fuel) (Stmt.spliceList (Expr.redirect site []) ss [])) := by
  cases ss with
  | nil => exact .pure trivial
  | cons s ss =>
    obtain ⟨hs, hss⟩ := spared_append.1 free
    obtain ⟨flat, flats⟩ := List.append_eq_nil_iff.1 flat
    rw [Stmt.spliceList, execList_append, Stmt.execList, List.drop_nil]
    refine .bind (mirrors_exec s flat hs) fun flow hflow => ?_
    cases flow with
    | normal => exact mirrors_execList ss flats hss
    | ret | breakLoop | continueLoop => exact .pure hflow

theorem mirrors_execOption {fs : List Frame} (els : Option (List Stmt))
    (flat : Stmt.collectOption closures els = [])
    (free : Spared site (Stmt.collectOption effects els)) :
    Mirrors ref o (OnPacked (site.view ref o) fs) (Flow.Misses ref)
      (Stmt.execOption (ctx.calls fuel) els)
      (Stmt.execOption (ctx.calls fuel) (Stmt.spliceOption (Expr.redirect site []) els [])) := by
  cases els with
  | none => exact .pure trivial
  | some ss => exact mirrors_execList ss flat free

end

end Evaluation

/-! ### Bodies -/

/-- The calls have the same variables and declarations, except for those of the given names. -/
def Frame.AgreesOutside (xs : List String) (f g : Frame) : Prop :=
  g.globals = f.globals ∧ ∀ x, x ∉ xs → g.vars.get? x = f.vars.get? x

section Bodies

variable {site : ClosureSite} {f g : Frame}

theorem ClosureSite.varsRel (outside : f.AgreesOutside (site.receiver :: site.captures.names) g)
    (captured : ∀ x ∈ site.captures.names, ∃ v, f.get? x = some v ∧ o.fields.get? x = some v)
    (receiver : g.get? site.receiver = some (.object ref)) :
    VarsRel (site.view ref o) [] f g where
  globals := outside.1
  same x hx hc := by
    refine outside.2 x fun h => ?_
    rcases List.mem_cons.1 h with rfl | h
    · exact hx (List.mem_singleton_self _)
    · exact Bindings.contains_eq_false_iff.1 (isCaptured_nil.symm.trans hc) h
  captured x hc := by
    obtain ⟨v, hf, hv⟩ := captured x (Bindings.contains_iff.1 (isCaptured_nil.symm.trans hc))
    exact ⟨v, (ref, o), List.mem_singleton_self _, hf, receiver, hv⟩

theorem ClosureSite.agreesOutside (rel : VarsRel (site.view ref o) [] f g) :
    f.AgreesOutside (site.receiver :: site.captures.names) g := by
  refine ⟨rel.globals, fun x hx => ?_⟩
  obtain ⟨other, free⟩ := not_or.1 (mt List.mem_cons.2 hx)
  exact rel.same x (not_hidden other) (isCaptured_nil.trans (Bindings.contains_eq_false_iff.2 free))

/-- **A body that is rewritten to read its captures from an object runs like the body itself.**  The
body runs in a call that has the captured variables, the other body in one that has, as its
receiver, an object with their values in its fields.  If no value in reach refers to the object, and
the body neither mentions the receiver nor declares a captured variable global, both end in the same
way, with the same heap, global variables and output; the calls still agree in all variables but
those. -/
theorem rewritten_body_simulates {body body' : List Stmt}
    (rewritten : substituteCaptures site body = .ok body')
    (fresh : ∀ m ∈ Stmt.collectList effects body, ¬ m.Concerns site.receiver)
    (undeclared : ∀ x ∈ Stmt.collectList declaredGlobal body, x ∉ site.captures.names)
    {s : Machine} {fs : List Frame} (frames : s.frames = f :: fs) (unshared : Unshared ref o s)
    (captured : ∀ x ∈ site.captures.names, ∃ v, f.get? x = some v ∧ o.fields.get? x = some v)
    (receiver : g.get? site.receiver = some (.object ref))
    (outside : f.AgreesOutside (site.receiver :: site.captures.names) g)
    (ctx : Context) (fuel : Nat) :
    ∃ (result : Except Stop Flow) (t : Machine) (f' g' : Frame),
      (Stmt.execList (ctx.calls fuel) body).run s = (result, t.withFrames (f' :: fs)) ∧
      (Stmt.execList (ctx.calls fuel) body').run (s.withFrames (g :: fs)) =
        (result, t.withFrames (g' :: fs)) ∧
      f'.AgreesOutside (site.receiver :: site.captures.names) g' := by
  obtain ⟨⟨flat, -, -, unwritten⟩, rfl⟩ := substituteCaptures_eq_ok.1 rewritten
  have spared : Spared site (Stmt.collectList effects body) := by
    refine ⟨fresh, fun x hx => Bindings.contains_eq_false_iff.2 ?_⟩
    rcases hx with hx | hx
    · exact unwritten x (effects_law.holdsBlock body _ hx)
    · exact undeclared x (effects_law.holdsBlock body _ hx)
  have related : OnPacked (site.view ref o) fs s.frames (g :: fs) :=
    ⟨f, g, frames, rfl, ClosureSite.varsRel outside captured receiver⟩
  rcases run : (Stmt.execList (ctx.calls fuel) body).run s with ⟨result, t⟩
  obtain ⟨_, ⟨f', g', hF, rfl, rel⟩, -, -, run'⟩ :=
    mirrors_execList body flat spared s (g :: fs) related unshared result t run
  refine ⟨result, t, f', g', ?_, run', ClosureSite.agreesOutside rel⟩
  rw [← hF]
  rfl

end Bodies

/-- A body that counts in the scope of a comprehension over the captured `x`, and then adds `x` to
`total` for each of the captured `xs`. -/
def tallyBody : List Stmt :=
  [.assign "total" (.builtin1 "len"
      (.comprehension .list (.id "x" .dummy) "x" (.id "xs" .dummy) none)),
    .forEach "i" (.id "xs" .dummy)
      [.assign "total" (.binary .add (.id "total" .dummy) (.id "x" .dummy))] none,
    .ret (some (.id "total" .dummy))]

/-- A call that has the captured variables. -/
def tallyFrame : Frame := ⟨⟨[("x", .int 3), ("xs", .list 0)]⟩, []⟩

/-- A call that has the object instead. -/
def tallyPacked : Frame := ⟨⟨[("self", .object 0)]⟩, []⟩

/-- The object, which nothing refers to as long as the first of these calls is the innermost. -/
def tallyState : Machine where
  heap := { lists := #[#[.int 5, .int 7]], objects := #[⟨"Clo_0_g", tallyFrame.vars⟩] }
  frames := [tallyFrame]

theorem rewritten_body_simulates_tally :
    ∃ (body' : List Stmt) (t : Machine) (f' g' : Frame),
      substituteCaptures sumSite tallyBody = .ok body' ∧
      (Stmt.execList (Context.calls { program := {} } 4) tallyBody).run tallyState =
        (.ok (.ret (.int 8)), t.withFrames [f']) ∧
      (Stmt.execList (Context.calls { program := {} } 4) body').run
          (tallyState.withFrames [tallyPacked]) =
        (.ok (.ret (.int 8)), t.withFrames [g']) ∧
      g'.vars.get? "total" = f'.vars.get? "total" := by
  have rewritten : substituteCaptures sumSite tallyBody = .ok _ := rfl
  have unshared : Unshared 0 ⟨"Clo_0_g", tallyFrame.vars⟩ tallyState := by
    refine ⟨rfl, fun r => ?_, fun r => ?_, fun _ h => (List.not_mem_nil h).elim, ?_⟩
    · cases r with
      | zero => decide
      | succ r => exact fun _ h => (List.not_mem_nil h).elim
    · cases r with
      | zero => decide
      | succ r => exact fun _ h => (List.not_mem_nil h).elim
    · rintro _ ⟨⟩
      decide
  have captured : ∀ x ∈ sumSite.captures.names,
      ∃ v, tallyFrame.get? x = some v ∧ tallyFrame.vars.get? x = some v := by
    intro x hx
    obtain ⟨v, hv⟩ := Bindings.exists_get?_of_mem (b := tallyFrame.vars) hx
    exact ⟨v, hv, hv⟩
  have outside : tallyFrame.AgreesOutside ["self", "x", "xs"] tallyPacked := by
    refine ⟨rfl, fun x hx => ?_⟩
    obtain ⟨other, free⟩ := not_or.1 (mt List.mem_cons.2 hx)
    exact (Bindings.get?_eq_none_iff.2 (mt List.mem_singleton.1 other)).trans
      (Bindings.get?_eq_none_iff.2 free).symm
  obtain ⟨result, t, f', g', run, run', after⟩ := rewritten_body_simulates rewritten (by decide)
    (by decide) rfl unshared captured rfl outside { program := {} } 4
  obtain rfl : result = .ok (.ret (.int 8)) := (congrArg Prod.fst run).symm
  exact ⟨_, t, f', g', rewritten, run, run', after.2 "total" (by decide)⟩

end FlatClosure

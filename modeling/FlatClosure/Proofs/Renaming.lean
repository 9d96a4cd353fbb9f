import FlatClosure.Proofs.Comprehensions
import FlatClosure.Proofs.Ignoring

/-!
# Renaming comprehension variables

Inside a call, a comprehension puts its variable among the variables of the call, which nothing but
the comprehension sees.  So it does not matter how the variable is named.  At the top it puts the
variable among the global variables, where functions see it and change it.  There the name does not
matter if all functions ignore it.

An expression is compared with the renamed expression, in states that differ in the variables of
certain names.

* `Renames` : the renaming fits the values that the names have, also in the scope of another
  variable (`Renames.bind`).
* `Linked` : the states differ in these variables only.  They still do after a comprehension
  variable has got a value (`Linked.shadow`) and after it has been taken away (`Linked.restore`).
* `Paired` : two steps come to the same result in linked states.
* `eval_renamed` : **an expression evaluates to the same as the renamed expression.**
* `comprehension_variable_scoped` : **renaming the variable of a comprehension changes nothing.**
* `comprehension_variable_leaks` : at the top, where a function does not ignore it, it does.
-/

namespace FlatClosure

variable {α β : Type}

/-! ### Renaming -/

/-- The renaming inside the scope of `x`. -/
def inScope (ρ : String → String) (x : String) : String → String :=
  fun z => if z = x then x else ρ z

/-- The renaming of one name. -/
def replaceName (x y : String) : String → String := fun z => if z = x then y else z

mutual

/-- Rename the variables that occur free. -/
def Expr.rename (ρ : String → String) : Expr → Expr
  | .literal v => .literal v
  | .id x s => .id (ρ x) s
  | .unary op e => .unary op (e.rename ρ)
  | .binary op l r => .binary op (l.rename ρ) (r.rename ρ)
  | .builtin1 name e => .builtin1 name (e.rename ρ)
  | .builtin2 name l r => .builtin2 name (l.rename ρ) (r.rename ρ)
  | .call f args => .call (f.rename ρ) (Expr.renameList ρ args)
  | .field o x => .field (o.rename ρ) x
  | .index o i => .index (o.rename ρ) (i.rename ρ)
  | .methodCall o m args => .methodCall (o.rename ρ) m (Expr.renameList ρ args)
  | .list es => .list (Expr.renameList ρ es)
  | .set es => .set (Expr.renameList ρ es)
  | .comprehension kind e x it c =>
    .comprehension kind (e.rename (inScope ρ x)) x (it.rename ρ)
      (Expr.renameOption (inScope ρ x) c)
  | .ifElse c t e => .ifElse (c.rename ρ) (t.rename ρ) (e.rename ρ)
  | .tuple es => .tuple (Expr.renameList ρ es)
  | .construct name s => .construct name s
  | .lambda params ret body s =>
    .lambda params ret (body.rename ((params.map (·.name)).foldl inScope ρ)) s

/-- Rename the variables of each expression. -/
def Expr.renameList (ρ : String → String) : List Expr → List Expr
  | [] => []
  | e :: es => e.rename ρ :: Expr.renameList ρ es

/-- Rename the variables of the expression, if there is one. -/
def Expr.renameOption (ρ : String → String) : Option Expr → Option Expr
  | none => none
  | some e => some (e.rename ρ)

end

theorem inScope_id (x : String) : inScope id x = id := by
  funext z
  unfold inScope
  split
  · rename_i h
    exact h.symm
  · rfl

theorem foldl_inScope_id (xs : List String) : xs.foldl inScope id = id := by
  induction xs with
  | nil => rfl
  | cons x xs ih => rw [List.foldl_cons, inScope_id, ih]

mutual

theorem rename_id (e : Expr) : e.rename id = e := by
  cases e with
  | literal | id | construct => rfl
  | unary op e | builtin1 op e | field e => simp only [Expr.rename, rename_id e]
  | binary op l r | builtin2 op l r | index l r =>
    simp only [Expr.rename, rename_id l, rename_id r]
  | call f args => simp only [Expr.rename, rename_id f, renameList_id args]
  | methodCall o m args => simp only [Expr.rename, rename_id o, renameList_id args]
  | list es | set es | tuple es => simp only [Expr.rename, renameList_id es]
  | comprehension kind e x it c =>
    simp only [Expr.rename, inScope_id, rename_id e, rename_id it, renameOption_id c]
  | ifElse c t e => simp only [Expr.rename, rename_id c, rename_id t, rename_id e]
  | lambda params ret body s => simp only [Expr.rename, foldl_inScope_id, rename_id body]

theorem renameList_id (es : List Expr) : Expr.renameList id es = es := by
  cases es with
  | nil => rfl
  | cons e es => simp only [Expr.renameList, rename_id e, renameList_id es]

theorem renameOption_id (c : Option Expr) : Expr.renameOption id c = c := by
  cases c with
  | none => rfl
  | some e => simp only [Expr.renameOption, rename_id e]

end

/-! ### Values of the renamed names -/

/-- A value for one more name. -/
def upd (a : String → Option Value) (z : String) (v : Value) : String → Option Value :=
  fun n => if n = z then some v else a n

theorem upd_self (a : String → Option Value) (z : String) (v : Value) : upd a z v z = some v :=
  if_pos rfl

theorem upd_of_ne (a : String → Option Value) {z n : String} (h : n ≠ z) (v : Value) :
    upd a z v n = a n := if_neg h

theorem upd_upd (a : String → Option Value) (z : String) (v w : Value) :
    upd (upd a z v) z w = upd a z w := by
  funext n
  unfold upd
  split <;> rfl

variable {p : Program} {N : String → Prop} {a b : String → Option Value} {z z' : String}
  {ρ : String → String} {ok : Effect → Prop}

/-- A name has the same value before the renaming, where the names of `N` have the values `a`, as
its new name has after it, where they have the values `b`.  A name that has no value keeps its name,
and no new name is one that the code binds. -/
structure Renames (N : String → Prop) (a b : String → Option Value) (ok : Effect → Prop)
    (ρ : String → String) : Prop where
  other : ∀ n, ok (.read n) → ¬ N n → ρ n = n
  bound : ∀ n, ok (.read n) → N n → N (ρ n) ∧ b (ρ n) = a n ∧ (a n = none → ρ n = n)
  free : ∀ n y, ok (.read n) → ok (.bind y) → ρ n = y → n = y

namespace Renames

theorem refl (N : String → Prop) (a : String → Option Value) (ok : Effect → Prop) :
    Renames N a a ok id where
  other _ _ _ := rfl
  bound _ _ hn := ⟨hn, rfl, fun _ => rfl⟩
  free _ _ _ _ h := h

/-- In the scope of a variable. -/
theorem bind (h : Renames N a b ok ρ) (hz : ok (.bind z)) (v : Value) :
    Renames N (upd a z v) (upd b z v) ok (inScope ρ z) where
  other n hr hn := by
    unfold inScope
    split
    · rename_i e
      exact e.symm
    · exact h.other n hr hn
  bound n hr hn := by
    by_cases e : n = z
    · subst e
      have self : inScope ρ n n = n := if_pos rfl
      rw [self, upd_self, upd_self]
      exact ⟨hn, rfl, fun _ => rfl⟩
    · have same : inScope ρ z n = ρ n := if_neg e
      have ne : ρ n ≠ z := fun hρ => e (h.free n z hr hz hρ)
      rw [same, upd_of_ne a e, upd_of_ne b ne]
      exact h.bound n hr hn
  free n y hr hy hρ := by
    by_cases e : n = z
    · subst e
      exact (if_pos rfl).symm.trans hρ
    · exact h.free n y hr hy ((if_neg e).symm.trans hρ)

/-- Bindings give a name the same value as its new name. -/
theorem get? (h : Renames N a b ok ρ) {g g' : Bindings Value} (vars : Bindings.Apart N a b g g')
    {n : String} (hr : ok (.read n)) :
    g'.get? (ρ n) = g.get? n ∧ (g.get? n = none → ρ n = n) := by
  by_cases hn : N n
  · obtain ⟨hρ, value, unbound⟩ := h.bound n hr hn
    rw [vars.left n hn, vars.right _ hρ]
    exact ⟨value, unbound⟩
  · rw [h.other n hr hn]
    exact ⟨vars.same n hn, fun _ => rfl⟩

/-- The variables of a call do. -/
theorem frame (h : Renames N a b ok ρ) {vs vs' : Bindings Value}
    (vars : Bindings.Apart N a b vs vs') {declared : List String}
    (undeclared : ∀ n, N n → n ∉ declared) {n : String} (hr : ok (.read n)) :
    Frame.get? ⟨vs', declared⟩ (ρ n) = Frame.get? ⟨vs, declared⟩ n ∧
      Frame.hasLocal ⟨vs', declared⟩ (ρ n) = Frame.hasLocal ⟨vs, declared⟩ n ∧
      (Frame.hasLocal ⟨vs, declared⟩ n = false → ρ n = n) := by
  obtain ⟨value, unbound⟩ := h.get? vars hr
  have isGlobal : Frame.isGlobal ⟨vs', declared⟩ (ρ n) = Frame.isGlobal ⟨vs, declared⟩ n := by
    by_cases hn : N n
    · have outside (m : String) (hm : N m) : declared.contains m = false := by
        simpa using undeclared m hm
      exact (outside _ (h.bound n hr hn).1).trans (outside n hn).symm
    · rw [h.other n hr hn]
      rfl
  refine ⟨?_, ?_, fun notLocal => ?_⟩
  · rw [Frame.get?, Frame.get?, isGlobal, value]
  · rw [Frame.hasLocal, Frame.hasLocal, isGlobal, Bindings.contains, Bindings.contains, value]
  · by_cases hn : N n
    · -- the call has not declared the name global, so it has no variable of the name
      have notGlobal : declared.contains n = false := by simpa using undeclared n hn
      refine unbound ?_
      rw [Frame.hasLocal, Frame.isGlobal, notGlobal] at notLocal
      simpa [Bindings.contains] using notLocal
    · exact h.other n hr hn

end Renames

/-- Variables that the renaming may exchange, and what they hide. -/
structure Hides (N : String → Prop) (a b : String → Option Value) (z z' : String)
    (old old' : Option Value) : Prop where
  same : ¬ N z → z' = z ∧ old' = old
  apart : N z → N z' ∧ old = a z ∧ old' = b z'

namespace Bindings.Apart

variable {g g' : Bindings Value}

theorem hides (h : Bindings.Apart N a b g g') (hz : z' = z ∨ N z ∧ N z') :
    Hides N a b z z' (g.get? z) (g'.get? z') where
  same hn := by
    obtain rfl := hz.resolve_right fun both => hn both.1
    exact ⟨rfl, h.same z' hn⟩
  apart hn := by
    have hn' : N z' := hz.elim (fun e => e ▸ hn) fun both => both.2
    exact ⟨hn', h.left z hn, h.right z' hn'⟩

/-- The variables get the same value. -/
theorem bind (h : Bindings.Apart N a b g g') (hz : z' = z ∨ N z ∧ N z') (v : Value) :
    Bindings.Apart N (upd a z v) (upd b z' v) (g.insert z v) (g'.insert z' v) where
  same n hn := by
    rw [get?_insert, get?_insert, h.same n hn]
    rcases hz with rfl | ⟨hz, hz'⟩
    · rfl
    · rw [if_neg fun e : n = z => hn (e ▸ hz), if_neg fun e : n = z' => hn (e ▸ hz')]
  left n hn := by rw [get?_insert, h.left n hn, upd]
  right n hn := by rw [get?_insert, h.right n hn, upd]

/-- The variables get back what they hid. -/
theorem unbind {v : Value} (h : Bindings.Apart N (upd a z v) (upd b z' v) g g')
    {old old' : Option Value} (ho : Hides N a b z z' old old') :
    Bindings.Apart N a b (g.restore z old) (g'.restore z' old') := by
  by_cases hz : N z
  · obtain ⟨hz', rfl, rfl⟩ := ho.apart hz
    refine ⟨fun n hn => ?_, fun n hn => ?_, fun n hn => ?_⟩
    · rw [get?_restore, get?_restore, if_neg fun e : n = z => hn (e ▸ hz),
        if_neg fun e : n = z' => hn (e ▸ hz'), h.same n hn]
    · rw [get?_restore, h.left n hn, upd]
      split
      · rename_i e
        rw [e]
      · rfl
    · rw [get?_restore, h.right n hn, upd]
      split
      · rename_i e
        rw [e]
      · rfl
  · obtain ⟨rfl, rfl⟩ := ho.same hz
    refine ⟨fun n hn => ?_, fun n hn => ?_, fun n hn => ?_⟩
    · rw [get?_restore, get?_restore, h.same n hn]
    · have ne : n ≠ z' := fun e => hz (e ▸ hn)
      rw [get?_restore, if_neg ne, h.left n hn, upd_of_ne a ne]
    · have ne : n ≠ z' := fun e => hz (e ▸ hn)
      rw [get?_restore, if_neg ne, h.right n hn, upd_of_ne b ne]

end Bindings.Apart

/-! ### States -/

/-- The states differ in the variables of `N` of the innermost call, which has declared none of
these names global, or, if no call is open, in the global variables of `N`, which all functions
ignore. -/
inductive Linked (p : Program) (N : String → Prop) (a b : String → Option Value) :
    Machine → Machine → Prop
  | main (hp : ∀ z, N z → p.Ignores z) (t : Machine) (ready : Bool) {g g' : Bindings Value}
      (inits : ready = true ∨ ∀ n, N n → n ∉ p.inits.map (·.name))
      (vars : Bindings.Apart N a b g g') :
      Linked p N a b (t.withVars [] g ready) (t.withVars [] g' ready)
  | call (t : Machine) (fs : List Frame) (declared : List String) {vs vs' : Bindings Value}
      (undeclared : ∀ n, N n → n ∉ declared) (vars : Bindings.Apart N a b vs vs') :
      Linked p N a b (t.withFrames (⟨vs, declared⟩ :: fs)) (t.withFrames (⟨vs', declared⟩ :: fs))

namespace Linked

variable {l r : Machine}

theorem of_apart (hp : ∀ z, N z → p.Ignores z) (h : Apart p N a b l r) (closed : l.frames = []) :
    Linked p N a b l r := by
  cases h with
  | mk t fs ready inits vars =>
    obtain rfl : fs = [] := closed
    exact .main hp t ready inits vars

theorem heap (h : Linked p N a b l r) : r.heap = l.heap := by
  cases h <;> rfl

/-- What comprehension variables hide. -/
theorem hides (h : Linked p N a b l r) (hz : z' = z ∨ N z ∧ N z') :
    Hides N a b z z' (l.hidden? z) (r.hidden? z') := by
  cases h with
  | main hp t ready inits vars => exact vars.hides hz
  | call t fs declared undeclared vars => exact vars.hides hz

theorem shadow (h : Linked p N a b l r) (hz : z' = z ∨ N z ∧ N z') (v : Value) :
    Linked p N (upd a z v) (upd b z' v) (l.shadow z v) (r.shadow z' v) := by
  cases h with
  | main hp t ready inits vars => exact .main hp t ready inits (vars.bind hz v)
  | call t fs declared undeclared vars => exact .call t fs declared undeclared (vars.bind hz v)

theorem restore {v : Value} (h : Linked p N (upd a z v) (upd b z' v) l r)
    {old old' : Option Value} (ho : Hides N a b z z' old old') :
    Linked p N a b (l.restore z old) (r.restore z' old') := by
  cases h with
  | main hp t ready inits vars =>
    have after := Linked.main hp t ready inits (vars.unbind ho)
    cases old <;> cases old' <;> exact after
  | call t fs declared undeclared vars =>
    have after := Linked.call (p := p) t fs declared undeclared (vars.unbind ho)
    cases old <;> cases old' <;> exact after

/-- A name and its new name stand for the same.  Only a name that is a variable is renamed. -/
theorem names (h : Linked p N a b l r) (hρ : Renames N a b ok ρ) {n : String}
    (hn : ok (.read n)) :
    r.lookup? p (ρ n) = l.lookup? p n ∧ r.isVariable (ρ n) = l.isVariable n ∧
      (l.isVariable n = false → ρ n = n) := by
  cases h with
  | @main hp t ready g g' inits vars =>
    obtain ⟨value, unbound⟩ := hρ.get? vars hn
    have contains : g'.contains (ρ n) = g.contains n := congrArg Option.isSome value
    refine ⟨?_, contains, fun h =>
      unbound (Option.isNone_iff_eq_none.1 (Option.isSome_eq_false_iff.1 h))⟩
    cases hg : g.get? n with
    | none =>
      rw [unbound hg] at value ⊢
      simp only [Machine.lookup?, Machine.withVars, List.head?_nil, Option.bind_none, value, hg]
    | some v =>
      rw [hg] at value
      simp only [Machine.lookup?, Machine.withVars, List.head?_nil, Option.bind_none, value, hg]
  | @call t fs declared vs vs' undeclared vars =>
    obtain ⟨value, isLocal, notLocal⟩ := hρ.frame vars undeclared hn
    cases hl : Frame.hasLocal ⟨vs, declared⟩ n with
    | false =>
      rw [notLocal hl] at value isLocal ⊢
      simp only [Machine.lookup?, Machine.isVariable, Machine.withFrames, List.head?_cons,
        Option.bind_some, Option.any_some, value, isLocal]
      simp
    | true =>
      obtain ⟨v, hv⟩ := Frame.exists_get?_of_hasLocal hl
      rw [hv] at value
      rw [hl] at isLocal
      simp [Machine.lookup?, Machine.isVariable, Machine.withFrames, value, hv, isLocal, hl]

end Linked

/-! ### Steps in pairs -/

/-- From states that are related, the steps come to the same result and to states that are
related. -/
def Paired (R : Machine → Machine → Prop) (x y : EvalM α) : Prop :=
  ∀ ⦃l r⦄, R l r → (y.run r).1 = (x.run l).1 ∧ R (x.run l).2 (y.run r).2

namespace Paired

variable {R : Machine → Machine → Prop}

theorem pure (v : α) : Paired R (pure v) (pure v) := fun _ _ h => ⟨rfl, h⟩

theorem bind {x y : EvalM α} {f g : α → EvalM β} (h : Paired R x y)
    (hf : ∀ v, Paired R (f v) (g v)) : Paired R (x >>= f) (y >>= g) := by
  intro l r hR
  obtain ⟨value, after⟩ := h hR
  rw [run_bind, run_bind]
  rcases hx : x.run l with ⟨e | v, t⟩ <;> rcases hy : y.run r with ⟨e' | v', t'⟩ <;>
    rw [hx, hy] at value <;> rw [hx, hy] at after <;> cases value
  · exact ⟨rfl, after⟩
  · exact hf v after

/-- Steps that look at the state. -/
theorem look {f g : Machine → EvalM α} (h : ∀ l r, R l r → Paired R (f l) (g r)) :
    Paired R (get >>= f) (get >>= g) := fun l r hR => h l r hR hR

/-- A step that is sealed, and blind to the global variables that all functions ignore. -/
theorem of_sealed {x : EvalM α} (sealed : Sealed x)
    (blind : (∀ z, N z → p.Ignores z) → Blind p N (fun _ => False) x) :
    Paired (Linked p N a b) x x := by
  intro l r h
  cases h with
  | main hp t ready inits vars =>
    obtain ⟨value, after⟩ :=
      (blind hp).apart (.mk t [] ready inits vars) fun _ h => h.elim
    exact ⟨value, .of_apart hp after (sealed.frames _)⟩
  | @call t fs declared vs vs' undeclared vars =>
    have run := sealed (t.withFrames (⟨vs, declared⟩ :: fs)) (⟨vs', declared⟩ :: fs) rfl
    have frames := sealed.frames (t.withFrames (⟨vs, declared⟩ :: fs))
    rw [Machine.withFrames_withFrames] at run
    rw [run]
    refine ⟨rfl, ?_⟩
    generalize x.run (t.withFrames (⟨vs, declared⟩ :: fs)) = out at frames
    have kept : out.2 = out.2.withFrames (⟨vs, declared⟩ :: fs) := by
      rw [← show out.2.frames = ⟨vs, declared⟩ :: fs from frames]
      rfl
    rw [kept]
    exact .call out.2 fs declared undeclared vars

theorem quiet {x : EvalM α} (h : Quiet x) : Paired (Linked p N a b) x x :=
  of_sealed h.sealed fun _ => .of_withVars h.run_withVars

theorem branch {v : Value} {x y x' y' : EvalM α} (hx : Paired (Linked p N a b) x x')
    (hy : Paired (Linked p N a b) y y') :
    Paired (Linked p N a b) (get >>= fun s => if v.truthy s.heap then x else y)
      (get >>= fun s => if v.truthy s.heap then x' else y') := by
  refine look fun l r h => ?_
  rw [h.heap]
  split
  · exact hx
  · exact hy

theorem readName (k : Calls) (hρ : Renames N a b ok ρ) {n : String} (hn : ok (.read n)) :
    Paired (Linked k.ctx.program N a b) (readName k n) (readName k (ρ n)) := by
  intro l r h
  obtain ⟨value, -, renamed⟩ := h.names hρ hn
  rw [readName_run, readName_run, value]
  refine ⟨?_, h⟩
  cases hv : l.lookup? k.ctx.program n with
  | some v => rfl
  | none => rw [renamed (isVariable_of_lookup?_eq_none hv)]

/-- While the variables of a comprehension have some value. -/
theorem gather {z z' : String} (hz : z' = z ∨ N z ∧ N z') {x y : EvalM (Option Value)}
    (h : ∀ v, Paired (Linked p N (upd a z v) (upd b z' v)) x y) (items : List Value) :
    Paired (fun l r => ∃ v, Linked p N (upd a z v) (upd b z' v) l r) (gather z x items)
      (FlatClosure.gather z' y items) := by
  have step : Paired (fun l r => ∃ v, Linked p N (upd a z v) (upd b z' v) l r) x y := by
    rintro l r ⟨v, hl⟩
    exact ⟨(h v hl).1, v, (h v hl).2⟩
  induction items with
  | nil => exact pure _
  | cons v vs ih =>
    have shadow : Paired (fun l r => ∃ v, Linked p N (upd a z v) (upd b z' v) l r)
        (modify (·.shadow z v) : EvalM Unit) (modify (·.shadow z' v)) := by
      rintro l r ⟨w, hl⟩
      refine ⟨rfl, v, ?_⟩
      have after := hl.shadow hz v
      rwa [upd_upd, upd_upd] at after
    exact bind shadow fun _ => bind step fun _ => bind ih fun _ => pure _

/-- The first item of a comprehension takes the place of any other. -/
theorem run_gather_shadow (z : String) (x : EvalM (Option Value)) (v : Value) (vs : List Value)
    (s : Machine) :
    (FlatClosure.gather z x (v :: vs)).run (s.shadow z v) =
      (FlatClosure.gather z x (v :: vs)).run s := by
  rw [FlatClosure.gather, run_modify_bind, run_modify_bind, shadow_shadow]

/-- The items of a comprehension, and of one whose variable is another. -/
theorem gatherShadowing {z z' : String} (hz : z' = z ∨ N z ∧ N z') {x y : EvalM (Option Value)}
    (h : ∀ v, Paired (Linked p N (upd a z v) (upd b z' v)) x y) (items : List Value) :
    Paired (Linked p N a b) (gatherShadowing z x items)
      (FlatClosure.gatherShadowing z' y items) := by
  cases items with
  | nil => exact pure _
  | cons v vs =>
    intro l r hl
    obtain ⟨value, w, after⟩ := gather hz h (v :: vs) ⟨v, hl.shadow hz v⟩
    rw [run_gather_shadow, run_gather_shadow] at value after
    rw [run_gatherShadowing, run_gatherShadowing]
    exact ⟨value, after.restore (hl.hides hz)⟩

end Paired

/-! ### Expressions -/

section Expressions

variable (ctx : Context) (fuel : Nat)

theorem paired_of_calls {x : EvalM α} (sealed : Sealed x)
    (blind : (ctx.calls fuel).Have (Blind ctx.program N fun _ => False) →
      Blind ctx.program N (fun _ => False) x) : Paired (Linked ctx.program N a b) x x :=
  .of_sealed sealed fun hp => blind (ctx.calls_blind hp fuel _)

theorem paired_callValue (v : Value) (args : List Value) :
    Paired (Linked ctx.program N a b) (callValue (ctx.calls fuel) v args)
      (callValue (ctx.calls fuel) v args) :=
  paired_of_calls ctx fuel (callValue_sealed ctx fuel v args) fun hk =>
    EvalLaw.callValue (blind_execLaw ctx.program fun _ h => h.elim).eval hk v args

theorem paired_instantiate (c : ClassDef) (args : List Value) :
    Paired (Linked ctx.program N a b) (instantiate (ctx.calls fuel) c args)
      (instantiate (ctx.calls fuel) c args) :=
  paired_of_calls ctx fuel (instantiate_sealed ctx fuel c args) fun hk =>
    EvalLaw.instantiate (blind_execLaw ctx.program fun _ h => h.elim).eval hk
      (.of_withVars fun _ _ _ _ => rfl) args

theorem paired_callMethodOf (v : Value) (method : String) (args : List Value) :
    Paired (Linked ctx.program N a b) (callMethodOf (ctx.calls fuel) v method args)
      (callMethodOf (ctx.calls fuel) v method args) :=
  paired_of_calls ctx fuel (callMethodOf_sealed ctx fuel v method args) fun hk =>
    EvalLaw.callMethodOf (blind_execLaw ctx.program fun _ h => h.elim).eval hk v method args

/-- The callee names the same class. -/
theorem calleeClass?_rename {l r : Machine} (h : Linked ctx.program N a b l r)
    (hρ : Renames N a b ok ρ) {f : Expr} (hok : ∀ m ∈ f.collect effects, ok m) :
    calleeClass? (ctx.calls fuel) r (f.rename ρ) = calleeClass? (ctx.calls fuel) l f := by
  cases f with
  | id x s =>
    obtain ⟨-, isVariable, renamed⟩ := h.names hρ (hok _ List.mem_cons_self)
    change (if r.isVariable (ρ x) then none else ctx.program.class? (ρ x)) =
      if l.isVariable x then none else ctx.program.class? x
    rw [isVariable]
    split
    · rfl
    · rename_i notVariable
      rw [renamed (by simpa using notVariable)]
  | _ => rfl

variable {ctx fuel}

theorem paired_comprehend {c c' : Option Expr} {e e' : Expr} {R : Machine → Machine → Prop}
    (hc : Paired R (Expr.holds (ctx.calls fuel) c) (Expr.holds (ctx.calls fuel) c'))
    (he : Paired R (e.eval (ctx.calls fuel)) (e'.eval (ctx.calls fuel))) :
    Paired R (comprehend (ctx.calls fuel) c e) (comprehend (ctx.calls fuel) c' e') := by
  refine .bind hc fun holds => ?_
  cases holds with
  | true => exact .bind he fun _ => .pure _
  | false => exact .pure _

/-- A comprehension, and one whose variable is another. -/
theorem paired_comprehension {z z' : String} (hz : z' = z ∨ N z ∧ N z') {it it' e e' : Expr}
    {c c' : Option Expr} (kind : Collection)
    (hit : Paired (Linked ctx.program N a b) (it.eval (ctx.calls fuel))
      (it'.eval (ctx.calls fuel)))
    (item : ∀ v, Paired (Linked ctx.program N (upd a z v) (upd b z' v))
      (comprehend (ctx.calls fuel) c e) (comprehend (ctx.calls fuel) c' e')) :
    Paired (Linked ctx.program N a b)
      ((Expr.comprehension kind e z it c).eval (ctx.calls fuel))
      ((Expr.comprehension kind e' z' it' c').eval (ctx.calls fuel)) := by
  refine .bind hit fun _ => .bind (.quiet (.itemsOf _ _)) fun items =>
    .bind (.gatherShadowing hz item items) fun vs => ?_
  cases kind with
  | list => exact .quiet (.newList vs)
  | set => exact .quiet (.newSet vs)

mutual

/-- The renamed expression evaluates to the same. -/
theorem eval_renamed {a b : String → Option Value} {ρ : String → String}
    (hρ : Renames N a b ok ρ) (e : Expr) (hok : ∀ m ∈ e.collect effects, ok m) :
    Paired (Linked ctx.program N a b) (e.eval (ctx.calls fuel))
      ((e.rename ρ).eval (ctx.calls fuel)) := by
  cases e with
  | literal v => exact .pure _
  | id x s => exact .readName (ctx.calls fuel) hρ (hok _ List.mem_cons_self)
  | unary op e =>
    obtain ⟨-, he⟩ := List.forall_mem_append.1 hok
    exact .bind (eval_renamed hρ e he) fun _ => .quiet (.applyUnary _ _)
  | binary op l r =>
    simp only [Expr.collect, List.forall_mem_append] at hok
    obtain ⟨⟨-, hl⟩, hr⟩ := hok
    have left := eval_renamed hρ l hl
    have right := eval_renamed hρ r hr
    have both : Paired (Linked ctx.program N a b)
        (l.eval (ctx.calls fuel) >>= fun v => r.eval (ctx.calls fuel) >>= fun w =>
          applyBinary op v w)
        ((l.rename ρ).eval (ctx.calls fuel) >>= fun v => (r.rename ρ).eval (ctx.calls fuel) >>=
          fun w => applyBinary op v w) :=
      .bind left fun _ => .bind right fun _ => .quiet (.applyBinary _ _ _)
    -- only `and` and `or` may leave the right operand alone
    cases op with
    | and => exact .bind left fun _ => .branch right (.pure _)
    | or => exact .bind left fun _ => .branch (.pure _) right
    | _ => exact both
  | builtin1 name e =>
    obtain ⟨-, he⟩ := List.forall_mem_append.1 hok
    exact .bind (eval_renamed hρ e he) fun _ => .quiet (.applyBuiltin1 _ _)
  | builtin2 name l r =>
    simp only [Expr.collect, List.forall_mem_append] at hok
    obtain ⟨⟨-, hl⟩, hr⟩ := hok
    exact .bind (eval_renamed hρ l hl) fun _ => .bind (eval_renamed hρ r hr) fun _ =>
      .quiet (.applyBuiltin2 _ _ _)
  | call f args =>
    simp only [Expr.collect, List.forall_mem_append] at hok
    obtain ⟨⟨-, hf⟩, hargs⟩ := hok
    refine .look fun l r h => ?_
    rw [calleeClass?_rename ctx fuel h hρ hf]
    split
    · exact .bind (evalList_renamed hρ args hargs) fun vs => paired_instantiate ctx fuel _ vs
    · exact .bind (eval_renamed hρ f hf) fun v => .bind (evalList_renamed hρ args hargs) fun vs =>
        paired_callValue ctx fuel v vs
  | field o x =>
    obtain ⟨-, ho⟩ := List.forall_mem_append.1 hok
    exact .bind (eval_renamed hρ o ho) fun _ => .quiet (.getField _ _)
  | index o i =>
    simp only [Expr.collect, List.forall_mem_append] at hok
    obtain ⟨⟨-, ho⟩, hi⟩ := hok
    exact .bind (eval_renamed hρ o ho) fun _ => .bind (eval_renamed hρ i hi) fun _ =>
      .quiet (.getIndex _ _)
  | methodCall o m args =>
    simp only [Expr.collect, List.forall_mem_append] at hok
    obtain ⟨⟨-, ho⟩, hargs⟩ := hok
    exact .bind (eval_renamed hρ o ho) fun v => .bind (evalList_renamed hρ args hargs) fun vs =>
      paired_callMethodOf ctx fuel v m vs
  | list es =>
    obtain ⟨-, hes⟩ := List.forall_mem_append.1 hok
    exact .bind (evalList_renamed hρ es hes) fun _ => .quiet (.newList _)
  | set es =>
    obtain ⟨-, hes⟩ := List.forall_mem_append.1 hok
    exact .bind (evalList_renamed hρ es hes) fun _ => .quiet (.newSet _)
  | tuple es =>
    obtain ⟨-, hes⟩ := List.forall_mem_append.1 hok
    exact .bind (evalList_renamed hρ es hes) fun _ => .pure _
  | comprehension kind e x it c =>
    simp only [Expr.collect, List.forall_mem_append] at hok
    obtain ⟨⟨-, hit⟩, hscope⟩ := hok
    obtain ⟨hx, hin⟩ := List.forall_mem_cons.1 hscope
    obtain ⟨he, hc⟩ := List.forall_mem_append.1 hin
    -- the element and the condition are in the scope of the variable, the iterable is not
    have item (v : Value) := paired_comprehend (holds_renamed (hρ.bind hx v) c hc)
      (eval_renamed (hρ.bind hx v) e he)
    exact paired_comprehension (.inl rfl) kind (eval_renamed hρ it hit) item
  | ifElse c t e =>
    simp only [Expr.collect, List.forall_mem_append] at hok
    obtain ⟨⟨⟨-, hc⟩, ht⟩, he⟩ := hok
    exact .bind (eval_renamed hρ c hc) fun _ =>
      .branch (eval_renamed hρ t ht) (eval_renamed hρ e he)
  | construct name s =>
    unfold Expr.rename Expr.eval
    split
    · exact paired_instantiate ctx fuel _ []
    · exact .quiet (.fail _ rfl)
  | lambda => exact .quiet (.fail _ rfl)

theorem evalList_renamed {a b : String → Option Value} {ρ : String → String}
    (hρ : Renames N a b ok ρ) (es : List Expr)
    (hok : ∀ m ∈ Expr.collectList effects es, ok m) :
    Paired (Linked ctx.program N a b) (Expr.evalList (ctx.calls fuel) es)
      (Expr.evalList (ctx.calls fuel) (Expr.renameList ρ es)) := by
  cases es with
  | nil => exact .pure _
  | cons e es =>
    obtain ⟨he, hes⟩ := List.forall_mem_append.1 hok
    exact .bind (eval_renamed hρ e he) fun _ => .bind (evalList_renamed hρ es hes) fun _ => .pure _

theorem holds_renamed {a b : String → Option Value} {ρ : String → String}
    (hρ : Renames N a b ok ρ) (c : Option Expr)
    (hok : ∀ m ∈ Expr.collectOption effects c, ok m) :
    Paired (Linked ctx.program N a b) (Expr.holds (ctx.calls fuel) c)
      (Expr.holds (ctx.calls fuel) (Expr.renameOption ρ c)) := by
  cases c with
  | none => exact .pure _
  | some c =>
    exact .bind (eval_renamed hρ c hok) fun _ => .look fun l r h => by
      rw [h.heap]
      exact .pure _

end

end Expressions

/-! ### The variable of a comprehension -/

/-- The states are the same, up to the order of the global variables. -/
structure Machine.Agrees (s t : Machine) : Prop where
  heap : t.heap = s.heap
  output : t.output = s.output
  frames : t.frames = s.frames
  ready : t.ready = s.ready
  globals : ∀ x, t.globals.get? x = s.globals.get? x

/-- Calls neither see nor change a global variable of that name. -/
structure Untouched (p : Program) (s : Machine) (z : String) : Prop where
  ignored : p.Ignores z
  inits : s.ready = true ∨ z ∉ p.inits.map (·.name)

/-- A state is linked with itself. -/
theorem Linked.refl {s : Machine} (undeclared : ∀ z, N z → s.hasDeclared z = false)
    (untouched : s.frames = [] → ∀ z, N z → Untouched p s z) :
    Linked p N s.hidden? s.hidden? s s := by
  obtain ⟨heap, globals, frames, output, ready⟩ := s
  cases frames with
  | nil =>
    have inits : ready = true ∨ ∀ z, N z → z ∉ p.inits.map (·.name) := by
      cases ready with
      | true => exact .inl rfl
      | false => exact .inr fun z hz => (untouched rfl z hz).inits.resolve_left Bool.false_ne_true
    exact .main (fun z hz => (untouched rfl z hz).ignored) ⟨heap, globals, [], output, ready⟩ ready
      inits ⟨fun _ _ => rfl, fun _ _ => rfl, fun _ _ => rfl⟩
  | cons f fs =>
    have undeclared (z : String) (hz : N z) : z ∉ f.globals := by
      have h : f.globals.contains z = false := undeclared z hz
      simpa using h
    exact .call ⟨heap, globals, [], output, ready⟩ fs f.globals undeclared
      ⟨fun _ _ => rfl, fun _ _ => rfl, fun _ _ => rfl⟩

/-- What linked states have in common. -/
theorem Linked.agrees {l r : Machine} (h : Linked p N a a l r) (frames : r.frames = l.frames) :
    l.Agrees r := by
  cases h with
  | main hp t ready inits vars =>
    refine ⟨rfl, rfl, rfl, rfl, fun x => ?_⟩
    by_cases hx : N x
    · exact (vars.right x hx).trans (vars.left x hx).symm
    · exact vars.same x hx
  | call => exact ⟨rfl, rfl, frames, rfl, fun _ => rfl⟩

/-- The renaming of a comprehension variable to a name that its scope does not mention. -/
theorem Renames.variable (a : String → Option Value) (x y : String) (v : Value) :
    Renames (fun z => z = x ∨ z = y) (upd a x v) (upd a y v) (fun m => ¬ m.Concerns y)
      (replaceName x y) where
  other n _ hn := if_neg fun e => hn (.inl e)
  bound n hr hn := by
    obtain rfl : n = x := hn.resolve_right hr
    have new : replaceName n y n = y := if_pos rfl
    rw [new, upd_self, upd_self]
    exact ⟨.inr rfl, rfl, fun h => by cases h⟩
  free n z hr hz hρ := by
    by_cases e : n = x
    · exact (hz (hρ.symm.trans (if_pos e))).elim
    · exact (if_neg e).symm.trans hρ

/-- **Comprehension variables are lexically scoped** inside a call, and at the top if all functions
ignore the name.  Rename the variable of a comprehension, which the innermost call has not declared
global, to a name that its element and its condition do not mention.  Then the comprehension comes
to the same value or error, the same heap and output, and the same open calls and global
variables. -/
theorem comprehension_variable_scoped (ctx : Context) (fuel : Nat) (kind : Collection)
    (e it : Expr) (c : Option Expr) {x y : String} {s : Machine}
    (hx : s.hasDeclared x = false) (hy : s.hasDeclared y = false)
    (fresh : ∀ m ∈ e.collect effects ++ Expr.collectOption effects c, ¬ m.Concerns y)
    (h : s.frames ≠ [] ∨ Untouched ctx.program s x ∧ Untouched ctx.program s y) :
    let out := (ctx.eval fuel (.comprehension kind e x it c)).run s
    let out' := (ctx.eval fuel (.comprehension kind (e.rename (replaceName x y)) y it
      (Expr.renameOption (replaceName x y) c))).run s
    out'.1 = out.1 ∧ out.2.Agrees out'.2 := by
  obtain ⟨he, hc⟩ := List.forall_mem_append.1 fresh
  have start : Linked ctx.program (fun z => z = x ∨ z = y) s.hidden? s.hidden? s s := by
    refine .refl (fun z hz => ?_) fun closed z hz => ?_
    · rcases hz with rfl | rfl
      · exact hx
      · exact hy
    · obtain ⟨ux, uy⟩ := h.resolve_left (not_not_intro closed)
      rcases hz with rfl | rfl
      · exact ux
      · exact uy
  -- the iterable is outside the scope of the variable
  have iterable : Paired (Linked ctx.program (fun z => z = x ∨ z = y) s.hidden? s.hidden?)
      (it.eval (ctx.calls fuel)) ((it.rename id).eval (ctx.calls fuel)) :=
    eval_renamed (.refl _ _ fun _ => True) it fun _ _ => trivial
  rw [rename_id] at iterable
  obtain ⟨value, linked⟩ :=
    paired_comprehension (.inr ⟨.inl rfl, .inr rfl⟩) kind iterable
      (fun v => paired_comprehend (holds_renamed (.variable s.hidden? x y v) c hc)
        (eval_renamed (.variable s.hidden? x y v) e he)) start
  have frames (e : Expr) : ((ctx.eval fuel e).run s).2.frames = s.frames :=
    ((calm_evalLaw ctx.program fun _ => True).eval (ctx.calls_calm fuel) e
      (fun _ _ => trivial) s).1
  exact ⟨value, linked.agrees ((frames _).trans (frames _).symm)⟩

/-- The list `[1, 10]`. -/
def oneTen : Expr := .list [.literal (.num 1), .literal (.num 10)]

/-- The list `[bump() for v in [1, 10]]`. -/
def bumps (v : String) : Expr := .comprehension .list (.call (.id "bump" .dummy) []) v oneTen none

/-- The list `[twice(v) for v in [1, 10]]`. -/
def doubles (v : String) : Expr :=
  .comprehension .list (.call (.id "twice" .dummy) [.id v .dummy]) v oneTen none

/-- A function that counts in a global variable, `x = 7; def bump(): global x; x = x + 1; return x`,
and comprehensions over `x` at the top. -/
def bumping : Program where
  inits := [⟨"x", .int, .num 7⟩]
  funs :=
    [{ name := "bump", params := [], ret := .int, inits := []
       body :=
         [.global "x", .assign "x" (.binary .add (.id "x" .dummy) (.literal (.num 1))),
           .ret (some (.id "x" .dummy))]
       span := .dummy }]
  stmts := [.expr (.builtin1 "print" (bumps "x")), .expr (.builtin1 "print" (.id "x" .dummy))]

/-- A function with a variable of its own, `def twice(x): x = x + x; return x`. -/
def doubling : Program where
  inits := [⟨"x", .int, .num 7⟩]
  funs :=
    [{ name := "twice", params := [⟨"x", .int⟩], ret := .int, inits := []
       body :=
         [.assign "x" (.binary .add (.id "x" .dummy) (.id "x" .dummy)),
           .ret (some (.id "x" .dummy))]
       span := .dummy }]

/-- The state after `x = 7`, with some open calls. -/
def sevenAt (frames : List Frame) : Machine where
  globals := .ofList [("x", .int 7)]
  frames := frames
  ready := true

/-- No function of the program minds a comprehension over `x` or `y`. -/
theorem untouched_doubling {z : String} (hz : z = "x" ∨ z = "y") :
    Untouched doubling (sevenAt []) z where
  ignored := by
    rintro f (hf | ⟨c, hc, -⟩)
    · obtain rfl := List.mem_singleton.1 hf
      rcases hz with rfl | rfl
      · exact .inl (by simp [FunDef.binders, FunDef.collect, Stmt.collectList, Stmt.collect,
          Expr.collect, Expr.collectOption, effects])
      · exact .inr (by simp [FunDef.collect, Stmt.collectList, Stmt.collect, Expr.collect,
          Expr.collectOption, effects, Effect.Concerns])
    · cases hc
  inits := .inl rfl

theorem comprehension_variable_scoped_calls :
    let inCall (v : String) := (Context.eval ⟨bumping, {}, 3⟩ 2 (bumps v)).run (sevenAt [{}])
    let atTop (v : String) := (Context.eval ⟨doubling, {}, 3⟩ 2 (doubles v)).run (sevenAt [])
    ((inCall "y").1 = (inCall "x").1 ∧ (inCall "x").2.Agrees (inCall "y").2 ∧
      (inCall "x").2.heap.items 1 = [.int 8, .int 9] ∧
      (inCall "x").2.globals.get? "x" = some (.int 9)) ∧
    ((atTop "y").1 = (atTop "x").1 ∧ (atTop "x").2.Agrees (atTop "y").2 ∧
      (atTop "x").2.heap.items 1 = [.int 2, .int 20] ∧
      (atTop "x").2.globals.get? "x" = some (.int 7)) := by
  obtain ⟨value, agrees⟩ := comprehension_variable_scoped ⟨bumping, {}, 3⟩ 2 .list
    (.call (.id "bump" .dummy) []) oneTen none (x := "x") (y := "y") (s := sevenAt [{}]) rfl rfl
    (by simp [Expr.collect, Expr.collectList, Expr.collectOption, effects, Effect.Concerns])
    (.inl (by simp [sevenAt]))
  obtain ⟨value', agrees'⟩ := comprehension_variable_scoped ⟨doubling, {}, 3⟩ 2 .list
    (.call (.id "twice" .dummy) [.id "x" .dummy]) oneTen none (x := "x") (y := "y")
    (s := sevenAt []) rfl rfl
    (by simp [Expr.collect, Expr.collectList, Expr.collectOption, effects, Effect.Concerns])
    (.inr ⟨untouched_doubling (.inl rfl), untouched_doubling (.inr rfl)⟩)
  exact ⟨⟨value, agrees, rfl, rfl⟩, ⟨value', agrees', rfl, rfl⟩⟩

/-- **At the top a comprehension variable is not scoped.**  A function sees it in place of the
global variable, and what the function stores in the global variable is lost. -/
theorem comprehension_variable_leaks :
    let out (v : String) := (Context.eval ⟨bumping, {}, 3⟩ 2 (bumps v)).run (sevenAt [])
    (sevenAt []).hasDeclared "x" = false ∧
      ((out "x").1 = .ok (.list 1) ∧ (out "x").2.heap.items 1 = [.int 2, .int 11] ∧
        (out "x").2.globals.get? "x" = some (.int 7)) ∧
      ((out "y").1 = .ok (.list 1) ∧ (out "y").2.heap.items 1 = [.int 8, .int 9] ∧
        (out "y").2.globals.get? "x" = some (.int 9)) ∧
      (Context.run ⟨bumping, {}, 3⟩ 4).toOption = some "[2, 11]\n7\n" :=
  ⟨rfl, ⟨rfl, rfl, rfl⟩, ⟨rfl, rfl, rfl⟩, by decide +kernel⟩

end FlatClosure

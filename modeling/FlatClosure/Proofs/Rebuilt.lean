import FlatClosure.Proofs.Lifting

/-!
# What stands in rebuilt trees

Closure conversion rebuilds trees in two ways: in the body of a closure the captured variables are
read from the receiver, and in the body of a function blocks stand in the places of closures.

* `RedirectLaw.block` : what holds of the parts of the body of a closure, before and after, holds of
  the body.
* `Redirects.block` : **in the body of a closure nothing but the reads changes.**
* `Stmt.mem_collectList_spliceList` : what stands in the body of a function with its closures
  replaced stood there before, outside of closures, or stands in one of the blocks.
* `FunDef.mem_collect_converted` : the same of the functions of the converted program.
-/

namespace FlatClosure

variable {α : Type}

theorem Stmt.collectList_append (C : Collector α) (ss ss' : List Stmt) :
    Stmt.collectList C (ss ++ ss') = Stmt.collectList C ss ++ Stmt.collectList C ss' := by
  induction ss with
  | nil => rfl
  | cons s ss ih => simp only [List.cons_append, Stmt.collectList, ih, List.append_assoc]

/-! ### Steady collectors -/

/-- A lambda expression or a construction. -/
def Expr.isMaker : Expr → Bool
  | .lambda .. | .construct .. => true
  | _ => false

/-- A statement that declares a name or a function. -/
def Stmt.isDeclaration : Stmt → Bool
  | .nonlocal _ | .global _ | .closure _ => true
  | _ => false

/-- What is taken from a tree comes from declarations, writes, scopes, lambda expressions and
constructions, and does not depend on what is read. -/
structure Collector.Steady (C : Collector α) : Prop where
  expr : ∀ e, e.isMaker = false → C.expr e = [] := by intros; rfl
  lambda : ∀ ps ty b b' s, C.expr (.lambda ps ty b s) = C.expr (.lambda ps ty b' s) := by
    intros; rfl
  stmt : ∀ s, s.isDeclaration = false → C.stmt s = [] := by intros; rfl
  write : ∀ v v' x, C.write v x = C.write v' x := by intros; rfl

theorem boundVars_steady : boundVars.Steady where

theorem written_steady : written.Steady where

theorem declaredGlobal_steady : declaredGlobal.Steady where
  stmt s h := by
    cases s with
    | global x => cases h
    | _ => rfl

theorem declaredNonlocal_steady : declaredNonlocal.Steady where
  stmt s h := by
    cases s with
    | nonlocal x => cases h
    | _ => rfl

theorem closures_steady : closures.Steady where
  stmt s h := by
    cases s with
    | closure f => cases h
    | _ => rfl

theorem lambdas_steady : lambdas.Steady where
  expr e h := by
    cases e with
    | lambda ps ty b s => cases h
    | _ => rfl

theorem constructs_steady : constructs.Steady where
  expr e h := by
    cases e with
    | construct c s => cases h
    | _ => rfl

/-! ### Captures read from the receiver -/

/-- A relation between what stands in a part of a tree before and after captured variables are read
from the receiver that passes to the parts made of them, given the variables in scope. -/
structure RedirectLaw (site : ClosureSite) (P : List String → Part → Part → Prop) : Prop where
  nil : ∀ {scope}, P scope (fun _ => []) (fun _ => [])
  append : ∀ {scope} {a a' b b' : Part}, P scope a a' → P scope b b' →
    P scope (fun C => a C ++ b C) (fun C => a' C ++ b' C)
  id : ∀ {scope} x s, P scope (fun C => (Expr.id x s).collect C)
    (fun C => ((Expr.id x s).redirect site scope).collect C)
  node : ∀ {scope} {e e' : Expr}, e.isMaker = false → e'.isMaker = false → e.id? = none →
    e'.id? = none → P scope (fun C => C.expr e) (fun C => C.expr e')
  construct : ∀ {scope} c s, P scope (fun C => C.expr (.construct c s))
    (fun C => C.expr (.construct c s))
  lambda : ∀ {scope} ps ty b b' s, P scope (fun C => C.expr (.lambda ps ty b s))
    (fun C => C.expr (.lambda ps ty b' s))
  inScope : ∀ {scope} {x : String} {a a' : Part}, P (x :: scope) a a' →
    P scope (fun C => C.scope x (a C)) (fun C => C.scope x (a' C))
  stmt : ∀ {s s' : Stmt}, s.isDeclaration = false → s'.isDeclaration = false →
    P [] (fun C => C.stmt s) (fun C => C.stmt s')
  declaration : ∀ s, P [] (fun C => C.stmt s) (fun C => C.stmt s)
  write : ∀ e e' x, P [] (fun C => C.write e x) (fun C => C.write e' x)

namespace RedirectLaw

variable {site : ClosureSite} {scope : List String} {P : List String → Part → Part → Prop}
  {a : Part}

theorem scopes (h : RedirectLaw site P) (ps : List Param) {scope : List String} {a a' : Part}
    (ha : P ((ps.map (·.name)).reverse ++ scope) a a') :
    P scope (fun C => ps.foldr (fun p xs => C.scope p.name xs) (a C))
      (fun C => ps.foldr (fun p xs => C.scope p.name xs) (a' C)) := by
  induction ps generalizing scope with
  | nil => exact ha
  | cons p ps ih =>
    refine h.inScope (ih ?_)
    simpa using ha

theorem after (h : RedirectLaw site P) {e e' : Expr} {a a' : Part} (ha : P scope a a')
    (he : e.isMaker = false := by rfl) (he' : e'.isMaker = false := by rfl)
    (hid : e.id? = none := by rfl) (hid' : e'.id? = none := by rfl) :
    P scope (fun C => C.expr e ++ a C) (fun C => C.expr e' ++ a' C) :=
  h.append (h.node he he' hid hid') ha

mutual

theorem expr (h : RedirectLaw site P) (scope : List String) (e : Expr) :
    P scope (fun C => e.collect C) (fun C => (e.redirect site scope).collect C) := by
  cases e with
  | id x s => exact h.id x s
  | literal => exact h.node rfl rfl rfl rfl
  | construct c s => exact h.construct c s
  | unary _ a | builtin1 _ a | field a _ => exact h.after (h.expr scope a)
  | binary _ l r | builtin2 _ l r | index l r =>
    exact h.append (h.after (h.expr scope l)) (h.expr scope r)
  | call f args | methodCall f _ args =>
    exact h.append (h.after (h.expr scope f)) (h.exprs scope args)
  | list es | set es | tuple es => exact h.after (h.exprs scope es)
  | comprehension _ e x it c =>
    exact h.append (h.after (h.expr scope it))
      (h.inScope (h.append (h.expr _ e) (h.option _ c)))
  | ifElse c t e =>
    exact h.append (h.append (h.after (h.expr scope c)) (h.expr scope t)) (h.expr scope e)
  | lambda ps ty b s => exact h.append (h.lambda ps ty b _ s) (h.scopes ps (h.expr _ b))

theorem exprs (h : RedirectLaw site P) (scope : List String) (es : List Expr) :
    P scope (fun C => Expr.collectList C es)
      (fun C => Expr.collectList C (Expr.redirectList site scope es)) := by
  cases es with
  | nil => exact h.nil
  | cons e es => exact h.append (h.expr scope e) (h.exprs scope es)

theorem option (h : RedirectLaw site P) (scope : List String) (c : Option Expr) :
    P scope (fun C => Expr.collectOption C c)
      (fun C => Expr.collectOption C (Expr.redirectOption site scope c)) := by
  cases c with
  | none => exact h.nil
  | some e => exact h.expr scope e

end

theorem slots (h : RedirectLaw site P) (e e' : Expr) (ss : List Slot) :
    P [] (fun C => Slot.collectList C e ss)
      (fun C => Slot.collectList C e' (Slot.mapExprs (Expr.redirect site []) ss)) := by
  induction ss with
  | nil => exact h.nil
  | cons s ss ih =>
    refine h.append ?_ ih
    obtain ⟨t, starred⟩ := s
    cases t with
    | id x => exact h.write e e' x
    | field o _ => exact h.expr [] o
    | index o i => exact h.append (h.expr [] o) (h.expr [] i)
    | ignore => exact h.nil

theorem singleton {s : Stmt} (hs : P [] a fun C => s.collect C) :
    P [] a fun C => Stmt.collectList C [s] := by
  simpa only [Stmt.collectList, List.append_nil] using hs

mutual

theorem splice (h : RedirectLaw site P) (s : Stmt) (blocks : List (List Stmt))
    (flat : s.collect closures = []) :
    P [] (fun C => s.collect C)
      (fun C => Stmt.collectList C (s.splice (Expr.redirect site []) blocks)) := by
  have e (e : Expr) := h.expr [] e
  have stmt {s s' : Stmt} {a a' : Part} (hs : s.isDeclaration = false)
      (hs' : s'.isDeclaration = false) (ha : P [] a a') :
      P [] (fun C => C.stmt s ++ a C) (fun C => C.stmt s' ++ a' C) := h.append (h.stmt hs hs') ha
  cases s with
  | assign x v => exact singleton (h.append (stmt rfl rfl (e v)) (h.write _ _ x))
  | unpack ss v => exact singleton (h.append (stmt rfl rfl (e v)) (h.slots _ _ ss))
  | ret v =>
    cases v with
    | none => exact singleton (stmt rfl rfl h.nil)
    | some v => exact singleton (stmt rfl rfl (e v))
  | expr v => exact singleton (stmt rfl rfl (e v))
  | setField o _ v => exact singleton (h.append (stmt rfl rfl (e o)) (e v))
  | setIndex o i v => exact singleton (h.append (h.append (stmt rfl rfl (e o)) (e i)) (e v))
  | ifElse c thn els =>
    rw [Stmt.closures_ifElse, List.append_eq_nil_iff] at flat
    exact singleton (h.append (h.append (stmt rfl rfl (e c)) (h.block thn _ flat.1))
      (h.block els _ flat.2))
  | whileLoop c body =>
    rw [Stmt.closures_whileLoop] at flat
    exact singleton (h.append (stmt rfl rfl (e c)) (h.block body _ flat))
  | forEach x it body els =>
    rw [Stmt.closures_forEach, List.append_eq_nil_iff] at flat
    exact singleton (h.append (h.append (h.append (stmt rfl rfl (e it)) (h.write _ _ x))
      (h.block body _ flat.1)) (h.orElse els _ flat.2))
  | pass | nonlocal | global | breakLoop | continueLoop => exact singleton (h.declaration _)
  | closure f => cases flat

/-- The relation holds of a block without closures. -/
theorem block (h : RedirectLaw site P) (ss : List Stmt) (blocks : List (List Stmt))
    (flat : Stmt.collectList closures ss = []) :
    P [] (fun C => Stmt.collectList C ss)
      (fun C => Stmt.collectList C (Stmt.spliceList (Expr.redirect site []) ss blocks)) := by
  cases ss with
  | nil => exact h.nil
  | cons s ss =>
    rw [Stmt.collectList, List.append_eq_nil_iff] at flat
    simp only [Stmt.spliceList, Stmt.collectList_append]
    exact h.append (h.splice s blocks flat.1) (h.block ss _ flat.2)

theorem orElse (h : RedirectLaw site P) (els : Option (List Stmt)) (blocks : List (List Stmt))
    (flat : Stmt.collectOption closures els = []) :
    P [] (fun C => Stmt.collectOption C els)
      (fun C => Stmt.collectOption C (Stmt.spliceOption (Expr.redirect site []) els blocks)) := by
  cases els with
  | none => exact h.nil
  | some ss => exact h.block ss blocks flat

end

end RedirectLaw

theorem freeReads_expr {e : Expr} (h : e.id? = none) : freeReads.expr e = [] := by
  cases e with
  | id => cases h
  | _ => rfl

/-- What stands in a part of a tree before (`a`) and after (`a'`) captured variables are read from
the receiver: the same, except that no more is read free than the receiver and what is not
captured. -/
structure Redirects (site : ClosureSite) (scope : List String) (a a' : Part) : Prop where
  same : ∀ {α : Type} {C : Collector α}, C.Steady → a' C = a C
  free : ∀ x ∈ (a' freeReads).map Prod.fst, x = site.receiver ∨
    (x ∈ (a freeReads).map Prod.fst ∧ site.isCaptured x scope = false)

namespace Redirects

variable {site : ClosureSite} {scope : List String} {a a' b b' : Part}

theorem append (h : Redirects site scope a a') (h' : Redirects site scope b b') :
    Redirects site scope (fun C => a C ++ b C) (fun C => a' C ++ b' C) where
  same hC := congr (congrArg _ (h.same hC)) (h'.same hC)
  free x hx := by
    simp only [List.map_append, List.mem_append] at hx ⊢
    rcases hx with hx | hx
    · exact (h.free x hx).imp_right (.imp_left .inl)
    · exact (h'.free x hx).imp_right (.imp_left .inr)

theorem id (x : String) (s : Span) :
    Redirects site scope (fun C => (Expr.id x s).collect C)
      (fun C => ((Expr.id x s).redirect site scope).collect C) := by
  rw [Expr.redirect]
  split
  · refine ⟨fun hC => ?_, fun y hy => .inl (List.mem_singleton.1 hy)⟩
    simp only [Expr.collect, hC.expr (.field _ _) rfl, hC.expr (.id _ _) rfl, List.append_nil]
  · rename_i h
    refine ⟨fun _ => rfl, fun y hy => .inr ⟨hy, ?_⟩⟩
    rw [List.mem_singleton.1 hy]
    exact Bool.eq_false_iff.2 h

theorem inScope {x : String} (h : Redirects site (x :: scope) a a') :
    Redirects site scope (fun C => C.scope x (a C)) (fun C => C.scope x (a' C)) where
  same hC := congrArg _ (h.same hC)
  free y hy := by
    obtain ⟨r, hr, rfl⟩ := List.mem_map.1 hy
    obtain ⟨hr, hne⟩ := List.mem_filter.1 hr
    rcases h.free r.1 (List.mem_map_of_mem hr) with hx | ⟨hx, hc⟩
    · exact .inl hx
    · obtain ⟨r', hr', e⟩ := List.mem_map.1 hx
      refine .inr ⟨List.mem_map.2 ⟨r', List.mem_filter.2 ⟨hr', ?_⟩, e⟩, ?_⟩
      · rwa [e]
      · have hne : r.1 ≠ x := of_decide_eq_true hne
        simpa [ClosureSite.isCaptured, hne] using hc

theorem law (site : ClosureSite) : RedirectLaw site (Redirects site) where
  nil := ⟨fun _ => rfl, fun _ h => (List.not_mem_nil h).elim⟩
  append h h' := h.append h'
  id := id
  node h h' _ hid' := by
    refine ⟨fun hC => (hC.expr _ h').trans (hC.expr _ h).symm, fun x hx => ?_⟩
    rw [freeReads_expr hid'] at hx
    cases hx
  construct _ _ := ⟨fun _ => rfl, fun _ h => (List.not_mem_nil h).elim⟩
  lambda _ _ _ _ _ := ⟨fun hC => hC.lambda _ _ _ _ _, fun _ h => (List.not_mem_nil h).elim⟩
  inScope h := h.inScope
  stmt h h' :=
    ⟨fun hC => (hC.stmt _ h').trans (hC.stmt _ h).symm, fun _ h => (List.not_mem_nil h).elim⟩
  declaration _ := ⟨fun _ => rfl, fun _ h => (List.not_mem_nil h).elim⟩
  write _ _ _ := ⟨fun hC => hC.write _ _ _, fun _ h => (List.not_mem_nil h).elim⟩

/-- What stands in a block without closures whose captured variables are read from the receiver. -/
theorem block (site : ClosureSite) (ss : List Stmt) (blocks : List (List Stmt))
    (h : Stmt.collectList closures ss = []) :
    Redirects site [] (fun C => Stmt.collectList C ss)
      (fun C => Stmt.collectList C (Stmt.spliceList (Expr.redirect site []) ss blocks)) :=
  (law site).block ss blocks h

end Redirects

/-! ### Blocks in the places of closures -/

/-- The same, but nothing is taken from the declarations of functions. -/
def Collector.exceptClosures (C : Collector α) : Collector α :=
  { C with
    stmt := fun s => match s with
      | .closure _ => []
      | s => C.stmt s }

theorem Collector.exceptClosures_eq_self {C : Collector α} (h : ∀ f, C.stmt (.closure f) = []) :
    C.exceptClosures = C := by
  obtain ⟨expr, stmt, write, scope⟩ := C
  refine congrArg (fun stmt => Collector.mk expr stmt write scope) ?_
  funext s
  cases s with
  | closure f => exact (h f).symm
  | _ => rfl

theorem closures_exceptClosures (ss : List Stmt) :
    Stmt.collectList closures.exceptClosures ss = [] := by
  have law : TreeLaw fun part => part closures.exceptClosures = [] :=
    { nil := rfl
      append := fun ha hb => List.append_eq_nil_iff.2 ⟨ha, hb⟩
      expr := fun _ => rfl
      scope := fun _ _ h => h
      stmt := fun s => by cases s <;> rfl
      write := fun _ _ => rfl }
  exact law.holdsBlock ss

section Splicing

variable {C : Collector α} {y : α}

theorem exceptClosures_exprLaw (C : Collector α) :
    ExprLaw fun part => part C.exceptClosures = part C where
  nil := rfl
  append ha hb := congr (congrArg _ ha) hb
  expr _ := rfl
  scope _ _ h := congrArg _ h

theorem Slot.collectList_exceptClosures (C : Collector α) (value : Expr) (ss : List Slot) :
    Slot.collectList C.exceptClosures value ss = Slot.collectList C value ss := by
  have expr (e : Expr) : e.collect C.exceptClosures = e.collect C :=
    (exceptClosures_exprLaw C).holds e
  induction ss with
  | nil => rfl
  | cons s ss ih =>
    have target : s.target.collect C.exceptClosures value = s.target.collect C value := by
      cases s.target with
      | id x => rfl
      | field o x => exact expr o
      | index o i => rw [Target.collect, Target.collect, expr, expr]
      | ignore => rfl
    rw [Slot.collectList, Slot.collectList, target, ih]

mutual

theorem Stmt.mem_collectList_splice (hC : C.Steady) (s : Stmt) (blocks : List (List Stmt))
    (hy : y ∈ Stmt.collectList C (s.splice id blocks)) :
    y ∈ s.collect C.exceptClosures ∨ ∃ b ∈ blocks, y ∈ Stmt.collectList C b := by
  have expr (e : Expr) : e.collect C.exceptClosures = e.collect C :=
    (exceptClosures_exprLaw C).holds e
  have option (v : Option Expr) : Expr.collectOption C.exceptClosures v = Expr.collectOption C v :=
    (exceptClosures_exprLaw C).holdsOption v
  have dropped {n : Nat} (h : ∃ b ∈ blocks.drop n, y ∈ Stmt.collectList C b) :
      ∃ b ∈ blocks, y ∈ Stmt.collectList C b := by
    obtain ⟨b, hb, hy⟩ := h
    exact ⟨b, List.mem_of_mem_drop hb, hy⟩
  cases s with
  | ifElse c thn els =>
    simp only [Stmt.splice, Stmt.collectList, Stmt.collect, List.append_nil, List.mem_append, expr,
      hC.stmt (.ifElse _ _ _) rfl, id_eq, List.not_mem_nil, false_or] at hy ⊢
    rcases hy with (hy | hy) | hy
    · exact .inl (.inl (.inl (.inr hy)))
    · exact (Stmt.mem_collectList_spliceList hC thn blocks hy).imp_left fun h => .inl (.inr h)
    · exact (Stmt.mem_collectList_spliceList hC els _ hy).imp .inr dropped
  | whileLoop c body =>
    simp only [Stmt.splice, Stmt.collectList, Stmt.collect, List.append_nil, List.mem_append, expr,
      hC.stmt (.whileLoop _ _) rfl, id_eq, List.not_mem_nil, false_or] at hy ⊢
    rcases hy with hy | hy
    · exact .inl (.inl (.inr hy))
    · exact (Stmt.mem_collectList_spliceList hC body blocks hy).imp_left .inr
  | forEach x it body els =>
    simp only [Stmt.splice, Stmt.collectList, Stmt.collect, List.append_nil, List.mem_append, expr,
      hC.stmt (.forEach _ _ _ _) rfl, id_eq, List.not_mem_nil, false_or] at hy ⊢
    rcases hy with ((hy | hy) | hy) | hy
    · exact .inl (.inl (.inl (.inl (.inr hy))))
    · exact .inl (.inl (.inl (.inr hy)))
    · exact (Stmt.mem_collectList_spliceList hC body blocks hy).imp_left fun h => .inl (.inr h)
    · exact (Stmt.mem_collectList_spliceOption hC els _ hy).imp .inr dropped
  | closure f =>
    cases blocks with
    | nil => cases hy
    | cons b bs => exact .inr ⟨b, List.mem_cons_self, hy⟩
  | unpack slots v =>
    left
    simp only [Stmt.splice, Stmt.collectList, Stmt.collect, List.append_nil, expr, id_eq,
      Slot.mapExprs_id, Slot.collectList_exceptClosures] at hy ⊢
    exact hy
  | _ =>
    left
    simp only [Stmt.splice, Stmt.collectList, Stmt.collect, List.append_nil, expr, option,
      Option.map_id_fun, id_eq] at hy ⊢
    exact hy

/-- What stands in a block with its closures replaced stood there before, outside of closures, or
stands in one of the blocks that replace them. -/
theorem Stmt.mem_collectList_spliceList (hC : C.Steady) (ss : List Stmt)
    (blocks : List (List Stmt)) (hy : y ∈ Stmt.collectList C (Stmt.spliceList id ss blocks)) :
    y ∈ Stmt.collectList C.exceptClosures ss ∨ ∃ b ∈ blocks, y ∈ Stmt.collectList C b := by
  cases ss with
  | nil => cases hy
  | cons s ss =>
    rw [Stmt.spliceList, Stmt.collectList_append, List.mem_append] at hy
    rw [Stmt.collectList, List.mem_append]
    rcases hy with hy | hy
    · exact (Stmt.mem_collectList_splice hC s blocks hy).imp_left .inl
    · rcases Stmt.mem_collectList_spliceList hC ss _ hy with hy | ⟨b, hb, hy⟩
      · exact .inl (.inr hy)
      · exact .inr ⟨b, List.mem_of_mem_drop hb, hy⟩

theorem Stmt.mem_collectList_spliceOption (hC : C.Steady) (els : Option (List Stmt))
    (blocks : List (List Stmt))
    (hy : y ∈ Stmt.collectOption C (Stmt.spliceOption id els blocks)) :
    y ∈ Stmt.collectOption C.exceptClosures els ∨ ∃ b ∈ blocks, y ∈ Stmt.collectList C b := by
  cases els with
  | none => cases hy
  | some ss => exact Stmt.mem_collectList_spliceList hC ss blocks hy

end

end Splicing

/-! ### The functions and methods of the converted program -/

section Converted

variable {names : Conventions}

/-- The method with the body of a closure. -/
def Declaration.method (names : Conventions) (d : Declaration) : FunDef :=
  callMethod (d.redirected names) (d.cls names) (d.receiver names) names

theorem Declaration.redirects_method (d : Declaration) (h : d.func.closures = []) :
    Redirects (d.site names) [] (fun C => d.func.collect C) (fun C => (d.method names).collect C) :=
  Redirects.block (d.site names) d.func.body [] h

theorem Declaration.mem_binders_method {d : Declaration} {x : String} :
    x ∈ (d.method names).binders ↔ x = d.receiver names ∨ x ∈ d.func.binders :=
  List.mem_cons

/-- What stands in the methods of the class of a closure, reads apart, stands in the closure. -/
theorem Declaration.mem_collect_lifted {d : Declaration} (flat : d.func.closures = [])
    {C : Collector α} (hC : C.Steady) {m : FunDef} (hm : m ∈ (d.lifted names).cls.methods) {y : α}
    (hy : y ∈ m.collect C) : y ∈ d.func.collect C := by
  have methods : (d.lifted names).cls.methods =
      [d.method names, emptyConstructor (d.cls names) (d.receiver names) names] := rfl
  rw [methods, List.mem_cons, List.mem_singleton] at hm
  rcases hm with rfl | rfl
  · rwa [← (d.redirects_method flat).same hC]
  · cases hy

/-- Of the statements that make an object, only the assignment of its variable counts. -/
theorem Collector.Steady.collectList_creation {C : Collector α} (hC : C.Steady) (d : Declaration) :
    Stmt.collectList C (d.lifted names).creation =
      C.write (.call (.id (d.cls names) d.func.span) []) d.func.name := by
  have fields (x : String) (xs : List String) : Stmt.collectList C
      (xs.map fun y => .setField (.id x d.func.span) y (.id y d.func.span)) = [] := by
    induction xs with
    | nil => rfl
    | cons y ys ih =>
      simp [Stmt.collectList, Stmt.collect, Expr.collect, ih, hC.stmt (.setField _ _ _) rfl,
        hC.expr (.id _ _) rfl]
  change Stmt.collectList C (creationStmts d.func.name (d.cls names) d.captures d.func.span) = _
  simp only [creationStmts, Stmt.collectList, Stmt.collect, Expr.collect, Expr.collectList, fields,
    hC.stmt (.assign _ _) rfl, hC.expr (.call _ _) rfl, hC.expr (.id _ _) rfl, List.nil_append,
    List.append_nil]

/-- What stands in a converted function stood there before, outside of closures, or comes from the
assignment of the object of a closure. -/
theorem FunDef.mem_collect_converted {C : Collector α} (hC : C.Steady) {f : FunDef}
    {ds : List Declaration} {y : α} (hy : y ∈ (f.converted names ds).collect C) :
    y ∈ f.collect C.exceptClosures ∨
      ∃ d ∈ ds, y ∈ C.write (.call (.id (d.cls names) d.func.span) []) d.func.name := by
  refine (Stmt.mem_collectList_spliceList hC f.body _ hy).imp_right ?_
  rintro ⟨b, hb, hy⟩
  obtain ⟨d, hd, rfl⟩ := List.mem_map.1 hb
  exact ⟨d, hd, hC.collectList_creation d ▸ hy⟩

end Converted

end FlatClosure

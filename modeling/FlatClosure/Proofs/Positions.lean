import FlatClosure.Proofs.Erasure
import FlatClosure.Proofs.Shape

/-!
# Positions do not influence meaning

Closure conversion carries positions along, from names to errors and from closures to the code in
their place, but decides nothing by them: an erased program is converted to the erased result, with
the same artifacts, or fails with the erased error.

* `Collector.Erases` : what a collector takes from an erased tree is erased.
* `Expr.redirect_erased`, `Stmt.spliceList_erased` : rebuilding commutes with erasing.
* `Declaration.lifted_erased` : so does lifting a closure.
* `convert_erased` : **and so does closure conversion.**
* `positions_irrelevant` : **programs that differ in positions only are converted alike and run
  alike.**
-/

namespace FlatClosure

variable {α : Type}

/-- The error without positions. -/
def ConversionError.erased : ConversionError → ConversionError
  | .unresolved x f _ => .unresolved x f .dummy
  | .nestedClosure g f _ _ => .nestedClosure g f .dummy .dummy
  | .lambda f _ => .lambda f .dummy
  | .capturedWrite x f _ => .capturedWrite x f .dummy
  | .closureInMethod f c m _ => .closureInMethod f c m .dummy
  | .unloweredConstruct c f _ => .unloweredConstruct c f .dummy
  | .topLevelClosure f _ => .topLevelClosure f .dummy

/-! ### What stands in a tree -/

/-- From erased trees the second collector takes what the first takes from the trees themselves,
changed by `g`. -/
structure Collector.Erases (C C' : Collector α) (g : α → α) : Prop where
  expr : ∀ e, C'.expr e.erased = (C.expr e).map g
  stmt : ∀ s, C'.stmt s.erased = (C.stmt s).map g
  write : ∀ v x, C'.write v.erased x = (C.write v x).map g
  scope : ∀ x xs, C'.scope x (xs.map g) = (C.scope x xs).map g

namespace Collector.Erases

variable {C C' : Collector α} {g : α → α}

theorem scopes (h : C.Erases C' g) (ps : List Param) (xs : List α) :
    ps.foldr (fun p xs => C'.scope p.name xs) (xs.map g) =
      (ps.foldr (fun p xs => C.scope p.name xs) xs).map g := by
  induction ps with
  | nil => rfl
  | cons p ps ih => rw [List.foldr_cons, ih, h.scope, List.foldr_cons]

mutual

theorem collect (h : C.Erases C' g) (e : Expr) : e.erased.collect C' = (e.collect C).map g := by
  have node := h.expr e
  cases e with
  | literal | id | construct => exact node
  | unary _ a | builtin1 _ a | field a _ =>
    rw [Expr.collect, List.map_append, ← node, ← h.collect a]
    rfl
  | binary _ l r | builtin2 _ l r | index l r =>
    rw [Expr.collect, List.map_append, List.map_append, ← node, ← h.collect l, ← h.collect r]
    rfl
  | call f args | methodCall f _ args =>
    rw [Expr.collect, List.map_append, List.map_append, ← node, ← h.collect f,
      ← h.collectList args]
    rfl
  | list es | set es | tuple es =>
    rw [Expr.collect, List.map_append, ← node, ← h.collectList es]
    rfl
  | comprehension _ e x it c =>
    rw [Expr.collect, List.map_append, List.map_append, ← node, ← h.collect it, ← h.scope,
      List.map_append, ← h.collect e, ← h.collectOption c]
    rfl
  | ifElse c t e =>
    rw [Expr.collect, List.map_append, List.map_append, List.map_append, ← node, ← h.collect c,
      ← h.collect t, ← h.collect e]
    rfl
  | lambda ps _ b _ =>
    rw [Expr.collect, List.map_append, ← node, ← h.scopes, ← h.collect b]
    rfl

theorem collectList (h : C.Erases C' g) (es : List Expr) :
    Expr.collectList C' (Expr.erasedList es) = (Expr.collectList C es).map g := by
  cases es with
  | nil => rfl
  | cons e es =>
    rw [Expr.collectList, List.map_append, ← h.collect e, ← h.collectList es]
    rfl

theorem collectOption (h : C.Erases C' g) (c : Option Expr) :
    Expr.collectOption C' (Expr.erasedOption c) = (Expr.collectOption C c).map g := by
  cases c with
  | none => rfl
  | some e => exact h.collect e

end

theorem target (h : C.Erases C' g) (value : Expr) (t : Target) :
    (t.mapExpr Expr.erased).collect C' value.erased = (t.collect C value).map g := by
  cases t with
  | id x => exact h.write value x
  | field o _ => exact h.collect o
  | index o i =>
    rw [Target.collect, List.map_append, ← h.collect o, ← h.collect i]
    rfl
  | ignore => rfl

theorem slots (h : C.Erases C' g) (value : Expr) (slots : List Slot) :
    Slot.collectList C' value.erased (Slot.mapExprs Expr.erased slots) =
      (Slot.collectList C value slots).map g := by
  induction slots with
  | nil => rfl
  | cons s ss ih =>
    rw [Slot.collectList, List.map_append, ← h.target value s.target, ← ih]
    rfl

mutual

theorem stmts (h : C.Erases C' g) (s : Stmt) : s.erased.collect C' = (s.collect C).map g := by
  have node := h.stmt s
  cases s with
  | assign x v =>
    rw [Stmt.collect, List.map_append, List.map_append, ← node, ← h.collect v, ← h.write]
    rfl
  | unpack slots v =>
    rw [Stmt.collect, List.map_append, List.map_append, ← node, ← h.collect v, ← h.slots]
    rfl
  | ret v =>
    rw [Stmt.collect, List.map_append, ← node, ← h.collectOption v]
    rfl
  | expr e =>
    rw [Stmt.collect, List.map_append, ← node, ← h.collect e]
    rfl
  | setField o _ v =>
    rw [Stmt.collect, List.map_append, List.map_append, ← node, ← h.collect o, ← h.collect v]
    rfl
  | setIndex o i v =>
    rw [Stmt.collect, List.map_append, List.map_append, List.map_append, ← node, ← h.collect o,
      ← h.collect i, ← h.collect v]
    rfl
  | ifElse c thn els =>
    rw [Stmt.collect, List.map_append, List.map_append, List.map_append, ← node, ← h.collect c,
      ← h.block thn, ← h.block els]
    rfl
  | whileLoop c body =>
    rw [Stmt.collect, List.map_append, List.map_append, ← node, ← h.collect c, ← h.block body]
    rfl
  | forEach x it body els =>
    rw [Stmt.collect, List.map_append, List.map_append, List.map_append, List.map_append, ← node,
      ← h.collect it, ← h.write, ← h.block body, ← h.blockOption els]
    rfl
  | pass | nonlocal | global | breakLoop | continueLoop | closure => exact node

theorem block (h : C.Erases C' g) (ss : List Stmt) :
    Stmt.collectList C' (Stmt.erasedList ss) = (Stmt.collectList C ss).map g := by
  cases ss with
  | nil => rfl
  | cons s ss =>
    rw [Stmt.collectList, List.map_append, ← h.stmts s, ← h.block ss]
    rfl

theorem blockOption (h : C.Erases C' g) (els : Option (List Stmt)) :
    Stmt.collectOption C' (Stmt.erasedOption els) = (Stmt.collectOption C els).map g := by
  cases els with
  | none => rfl
  | some ss => exact h.block ss

end

theorem function (h : C.Erases C' g) (f : FunDef) : f.erased.collect C' = (f.collect C).map g := by
  rw [FunDef.collect, f.body_erased]
  exact h.block f.body

end Collector.Erases

/-! ### Names and closures -/

/-- A read without its position. -/
def erasedRead (r : String × Span) : String × Span := (r.1, .dummy)

/-- What is come across, without positions. -/
def Encounter.erased : Encounter → Encounter
  | .lambda _ => .lambda .dummy
  | .closure c => .closure c.erased

theorem freeReads_erases : freeReads.Erases freeReads erasedRead where
  expr e := by cases e <;> rfl
  stmt _ := rfl
  write _ _ := rfl
  scope x xs := by
    simp only [freeReads, List.filter_map]
    rfl

theorem declaredGlobal_erases : declaredGlobal.Erases declaredGlobal id where
  expr _ := rfl
  stmt s := by cases s <;> rfl
  write _ _ := rfl
  scope _ _ := rfl

theorem declaredNonlocal_erases : declaredNonlocal.Erases declaredNonlocal id where
  expr _ := rfl
  stmt s := by cases s <;> rfl
  write _ _ := rfl
  scope _ _ := rfl

theorem boundVars_erases : boundVars.Erases boundVars id where
  expr _ := rfl
  stmt _ := rfl
  write _ _ := rfl
  scope _ _ := rfl

theorem closures_erases : closures.Erases closures FunDef.erased where
  expr _ := rfl
  stmt s := by cases s <;> rfl
  write _ _ := rfl
  scope _ _ := rfl

theorem encounters_erases : encounters.Erases encounters Encounter.erased where
  expr e := by cases e <;> rfl
  stmt s := by cases s <;> rfl
  write _ _ := rfl
  scope _ _ := rfl

theorem obstacles_erases (owner : FunDef) :
    (obstacles owner).Erases (obstacles owner.erased) ConversionError.erased where
  expr e := by cases e <;> simp [obstacles, Expr.erased, ConversionError.erased]
  stmt s := by cases s <;> simp [obstacles, Stmt.erased, ConversionError.erased]
  write _ _ := rfl
  scope _ _ := rfl

theorem Stmt.length_closures_erased (ss : List Stmt) :
    (Stmt.collectList closures (Stmt.erasedList ss)).length =
      (Stmt.collectList closures ss).length := by
  rw [closures_erases.block, List.length_map]

theorem FunDef.closures_erased (f : FunDef) : f.erased.closures = f.closures.map FunDef.erased :=
  closures_erases.function f

mutual

theorem Expr.span_erased (e : Expr) : e.erased.span = .dummy := by
  cases e with
  | literal | id | construct => rfl
  | unary _ a | builtin1 _ a | field a _ => exact a.span_erased
  | binary _ l r | builtin2 _ l r | index l r =>
    rw [Expr.erased, Expr.span, l.span_erased, r.span_erased]
    rfl
  | call f args | methodCall f _ args =>
    rw [Expr.erased, Expr.span, f.span_erased, Expr.spanList_erased args]
    rfl
  | list es | set es | tuple es => exact Expr.spanList_erased es
  | comprehension _ e _ it c =>
    rw [Expr.erased, Expr.span, it.span_erased, e.span_erased, Expr.spanOption_erased c]
    rfl
  | ifElse c t e =>
    rw [Expr.erased, Expr.span, c.span_erased, t.span_erased, e.span_erased]
    rfl
  | lambda _ _ b _ =>
    rw [Expr.erased, Expr.span, b.span_erased]
    rfl

theorem Expr.spanList_erased (es : List Expr) : Expr.spanList (Expr.erasedList es) = .dummy := by
  cases es with
  | nil => rfl
  | cons e es =>
    rw [Expr.erasedList, Expr.spanList, e.span_erased, Expr.spanList_erased es]
    rfl

theorem Expr.spanOption_erased (c : Option Expr) :
    Expr.spanOption (Expr.erasedOption c) = .dummy := by
  cases c with
  | none => rfl
  | some e => exact e.span_erased

end

/-- The closure without its position. -/
def ClosureSite.erased (site : ClosureSite) : ClosureSite := { site with span := .dummy }

theorem rejections_erases (site : ClosureSite) :
    (rejections site).Erases (rejections site.erased) ConversionError.erased where
  expr e := by cases e <;> rfl
  stmt s := by
    cases s <;> simp [rejections, Stmt.erased, ConversionError.erased, ClosureSite.erased]
  write v x := by
    simp only [rejections, ClosureSite.erased, v.span_erased]
    split <;> rfl
  scope _ _ := rfl

/-! ### What a closure reads -/

/-- Bindings of names to positions, without the positions. -/
def erasedNames (b : Bindings Span) : Bindings Span := ⟨b.entries.map erasedRead⟩

theorem names_erasedNames (b : Bindings Span) : (erasedNames b).names = b.names := by
  rw [Bindings.names, erasedNames, List.map_map]
  rfl

theorem noteRead_erased (b : Bindings Span) (r : String × Span) :
    noteRead (erasedNames b) (erasedRead r) = erasedNames (noteRead b r) := by
  by_cases h : r.1 ∈ b.names
  · have hb : b.contains r.1 = true := Bindings.contains_iff.2 h
    have he : (erasedNames b).contains (erasedRead r).1 = true :=
      Bindings.contains_iff.2 ((names_erasedNames b).symm ▸ h)
    rw [noteRead, noteRead, if_pos hb, if_pos he]
  · have hb : ¬ b.contains r.1 = true := mt Bindings.contains_iff.1 h
    have hn : r.1 ∉ (erasedNames b).names := (names_erasedNames b).symm ▸ h
    have he : ¬ (erasedNames b).contains (erasedRead r).1 = true := mt Bindings.contains_iff.1 hn
    rw [noteRead, noteRead, if_neg hb, if_neg he]
    have entries : ((erasedNames b).insert r.1 .dummy).entries =
        (b.insert r.1 r.2).entries.map erasedRead := by
      rw [Bindings.entries_insert_of_not_mem hn, Bindings.entries_insert_of_not_mem h,
        List.map_append]
      rfl
    exact congrArg Bindings.mk entries

theorem foldl_noteRead_erased (rs : List (String × Span)) (b : Bindings Span) :
    (rs.map erasedRead).foldl noteRead (erasedNames b) = erasedNames (rs.foldl noteRead b) := by
  induction rs generalizing b with
  | nil => rfl
  | cons r rs ih => rw [List.map_cons, List.foldl_cons, noteRead_erased, ih, List.foldl_cons]

theorem FunDef.reads_erased (f : FunDef) :
    f.erased.reads = { f.reads with names := erasedNames f.reads.names } := by
  unfold FunDef.reads Reads.add
  rw [freeReads_erases.function, declaredGlobal_erases.function, declaredNonlocal_erases.function,
    boundVars_erases.function, List.map_id, List.map_id, List.map_id]
  exact congrArg (Reads.mk · _ _ _) (foldl_noteRead_erased _ .empty)

section Captures

variable (c : FunDef) (around : Enclosing)

theorem captureType?_erased (x : String) :
    captureType? c.erased around x = captureType? c around x := by
  rw [captureType?, c.binders_erased, c.reads_erased]
  rfl

theorem FunDef.captures_erased : c.erased.captures around = c.captures around := by
  rw [FunDef.captures, c.reads_erased]
  simp only [erasedNames, capturesAmong, List.filterMap_map, captureType?_erased]
  rfl

theorem unresolvedAmong_erased (globals : List String) (rs : List (String × Span)) :
    unresolvedAmong c.erased around globals (rs.map erasedRead) =
      (unresolvedAmong c around globals rs).map ConversionError.erased := by
  simp only [unresolvedAmong, List.filterMap_map, List.map_filterMap, captureType?_erased,
    c.binders_erased, c.name_erased]
  refine congrArg (rs.filterMap ·) (funext fun r => ?_)
  rw [apply_ite (Option.map ConversionError.erased)]
  rfl

theorem classifyErrors_erased (globals : List String) :
    classifyErrors c.erased around globals =
      (classifyErrors c around globals).map ConversionError.erased := by
  have nonlocals : c.erased.reads.nonlocals = c.reads.nonlocals := by rw [c.reads_erased]
  have names : c.erased.reads.names.entries = c.reads.names.entries.map erasedRead := by
    rw [c.reads_erased]
    rfl
  unfold classifyErrors
  rw [nonlocals, names, c.name_erased, c.span_erased]
  cases c.reads.nonlocals with
  | nil => exact unresolvedAmong_erased c around globals _
  | cons x xs =>
    dsimp only
    split <;> rfl

theorem freshReceiver_erased (base : String) :
    freshReceiver base c.erased c.erased.reads = freshReceiver base c c.reads := by
  rw [freshReceiver, c.reads_erased, c.binders_erased]
  simp only [names_erasedNames]
  rfl

end Captures

/-! ### Rebuilding -/

mutual

theorem Expr.redirect_erased (site : ClosureSite) (scope : List String) (e : Expr) :
    e.erased.redirect site.erased scope = (e.redirect site scope).erased := by
  cases e with
  | literal | construct => rfl
  | id x s =>
    have captured : site.erased.isCaptured x scope = site.isCaptured x scope := rfl
    rw [Expr.erased, Expr.redirect, Expr.redirect, captured]
    split <;> rfl
  | unary _ a | builtin1 _ a | field a _ =>
    rw [Expr.erased, Expr.redirect, Expr.redirect, Expr.erased, a.redirect_erased]
  | binary _ l r | builtin2 _ l r | index l r =>
    rw [Expr.erased, Expr.redirect, Expr.redirect, Expr.erased, l.redirect_erased,
      r.redirect_erased]
  | call f args | methodCall f _ args =>
    rw [Expr.erased, Expr.redirect, Expr.redirect, Expr.erased, f.redirect_erased,
      Expr.redirectList_erased site scope args]
  | list es | set es | tuple es =>
    rw [Expr.erased, Expr.redirect, Expr.redirect, Expr.erased,
      Expr.redirectList_erased site scope es]
  | comprehension _ e x it c =>
    rw [Expr.erased, Expr.redirect, Expr.redirect, Expr.erased, e.redirect_erased,
      it.redirect_erased, Expr.redirectOption_erased site _ c]
  | ifElse c t e =>
    rw [Expr.erased, Expr.redirect, Expr.redirect, Expr.erased, c.redirect_erased,
      t.redirect_erased, e.redirect_erased]
  | lambda ps ty b s =>
    rw [Expr.erased, Expr.redirect, Expr.redirect, Expr.erased, b.redirect_erased]

theorem Expr.redirectList_erased (site : ClosureSite) (scope : List String) (es : List Expr) :
    Expr.redirectList site.erased scope (Expr.erasedList es) =
      Expr.erasedList (Expr.redirectList site scope es) := by
  cases es with
  | nil => rfl
  | cons e es =>
    rw [Expr.erasedList, Expr.redirectList, Expr.redirectList, Expr.erasedList, e.redirect_erased,
      Expr.redirectList_erased site scope es]

theorem Expr.redirectOption_erased (site : ClosureSite) (scope : List String) (c : Option Expr) :
    Expr.redirectOption site.erased scope (Expr.erasedOption c) =
      Expr.erasedOption (Expr.redirectOption site scope c) := by
  cases c with
  | none => rfl
  | some e => exact congrArg some (e.redirect_erased site scope)

end

section Splice

variable {φ φ' : Expr → Expr}

theorem Stmt.erasedList_append (ss ts : List Stmt) :
    Stmt.erasedList (ss ++ ts) = Stmt.erasedList ss ++ Stmt.erasedList ts := by
  simp only [Stmt.erasedList_eq_map, List.map_append]

theorem Slot.mapExprs_erased (hφ : ∀ e, φ' e.erased = (φ e).erased) (slots : List Slot) :
    Slot.mapExprs φ' (Slot.mapExprs Expr.erased slots) =
      Slot.mapExprs Expr.erased (Slot.mapExprs φ slots) := by
  have target (t : Target) :
      (t.mapExpr Expr.erased).mapExpr φ' = (t.mapExpr φ).mapExpr Expr.erased := by
    cases t <;> simp [Target.mapExpr, hφ]
  simp [Slot.mapExprs_eq_map, target]

mutual

theorem Stmt.splice_erased (hφ : ∀ e, φ' e.erased = (φ e).erased) (s : Stmt)
    (blocks : List (List Stmt)) :
    s.erased.splice φ' (blocks.map Stmt.erasedList) = Stmt.erasedList (s.splice φ blocks) := by
  cases s with
  | assign x v => simp only [Stmt.erased, Stmt.splice, Stmt.erasedList, hφ]
  | unpack slots v =>
    simp only [Stmt.erased, Stmt.splice, Stmt.erasedList, hφ, Slot.mapExprs_erased hφ]
  | ret v =>
    cases v <;> simp only [Stmt.erased, Stmt.splice, Stmt.erasedList, Expr.erasedOption,
      Option.map_none, Option.map_some, hφ]
  | expr e => simp only [Stmt.erased, Stmt.splice, Stmt.erasedList, hφ]
  | setField o f v => simp only [Stmt.erased, Stmt.splice, Stmt.erasedList, hφ]
  | setIndex o i v => simp only [Stmt.erased, Stmt.splice, Stmt.erasedList, hφ]
  | ifElse c thn els =>
    simp only [Stmt.erased, Stmt.splice, Stmt.erasedList, hφ, Stmt.length_closures_erased,
      ← List.map_drop, Stmt.spliceList_erased hφ]
  | whileLoop c body =>
    simp only [Stmt.erased, Stmt.splice, Stmt.erasedList, hφ, Stmt.spliceList_erased hφ]
  | forEach x it body els =>
    simp only [Stmt.erased, Stmt.splice, Stmt.erasedList, hφ, Stmt.length_closures_erased,
      ← List.map_drop, Stmt.spliceList_erased hφ, Stmt.spliceOption_erased hφ]
  | pass | nonlocal | global | breakLoop | continueLoop => rfl
  | closure f => cases blocks <;> rfl

theorem Stmt.spliceList_erased (hφ : ∀ e, φ' e.erased = (φ e).erased) (ss : List Stmt)
    (blocks : List (List Stmt)) :
    Stmt.spliceList φ' (Stmt.erasedList ss) (blocks.map Stmt.erasedList) =
      Stmt.erasedList (Stmt.spliceList φ ss blocks) := by
  cases ss with
  | nil => rfl
  | cons s ss =>
    have length : (s.erased.collect closures).length = (s.collect closures).length := by
      rw [closures_erases.stmts, List.length_map]
    rw [Stmt.erasedList, Stmt.spliceList, Stmt.spliceList, s.splice_erased hφ, length,
      ← List.map_drop, Stmt.spliceList_erased hφ ss, Stmt.erasedList_append]

theorem Stmt.spliceOption_erased (hφ : ∀ e, φ' e.erased = (φ e).erased)
    (els : Option (List Stmt)) (blocks : List (List Stmt)) :
    Stmt.spliceOption φ' (Stmt.erasedOption els) (blocks.map Stmt.erasedList) =
      Stmt.erasedOption (Stmt.spliceOption φ els blocks) := by
  cases els with
  | none => rfl
  | some ss => exact congrArg some (Stmt.spliceList_erased hφ ss blocks)

end

end Splice

/-! ### Lifting -/

/-- What becomes of a closure, without positions. -/
def Lifted.erased (l : Lifted) : Lifted :=
  { l with cls := l.cls.erased, creation := Stmt.erasedList l.creation }

/-- The declaration without positions. -/
def Declaration.erased (d : Declaration) : Declaration := { d with func := d.func.erased }

section Lift

variable (names : Conventions) (d : Declaration)

theorem Declaration.captures_erased : d.erased.captures = d.captures :=
  d.func.captures_erased d.around

theorem Declaration.receiver_erased : d.erased.receiver names = d.receiver names :=
  freshReceiver_erased d.func names.receiver

theorem Declaration.site_erased : d.erased.site names = (d.site names).erased := by
  rw [site, d.captures_erased, d.receiver_erased]
  change ClosureSite.mk d.func.erased.name d.func.erased.span _ _ = _
  rw [d.func.name_erased, d.func.span_erased]
  rfl

theorem Declaration.redirected_erased :
    d.erased.redirected names = (d.redirected names).erased := by
  have body : Stmt.spliceList (Expr.redirect (d.site names).erased []) (Stmt.erasedList d.func.body)
      [] = Stmt.erasedList (Stmt.spliceList (Expr.redirect (d.site names) []) d.func.body []) :=
    Stmt.spliceList_erased (Expr.redirect_erased (d.site names) []) d.func.body []
  rw [redirected, redirected, d.site_erased, FunDef.erased_eq]
  change { d.func.erased with
    body := Stmt.spliceList (Expr.redirect (d.site names).erased []) d.func.erased.body [] } = _
  rw [d.func.body_erased, body, d.func.erased_eq]

theorem creationStmts_erased (name cls : String) (captures : Captures) (span : Span) :
    Stmt.erasedList (creationStmts name cls captures span) =
      creationStmts name cls captures .dummy := by
  rw [creationStmts, Stmt.erasedList_eq_map, List.map_cons, List.map_map]
  rfl

/-- The class and the creation of a closure have only the positions of the closure. -/
theorem lift_erased (c : FunDef) (cls : String) (captures : Captures) (receiver : String) :
    lift c.erased cls captures receiver names = (lift c cls captures receiver names).erased := by
  have method : callMethod c.erased cls receiver names =
      (callMethod c cls receiver names).erased := by
    rw [callMethod, c.erased_eq, FunDef.erased_eq]
    rfl
  have creation := creationStmts_erased c.name cls captures c.span
  rw [lift, method, c.name_erased, c.span_erased, c.arity_erased, ← creation]
  rfl

theorem Declaration.lifted_erased : d.erased.lifted names = (d.lifted names).erased := by
  have cls : d.erased.cls names = d.cls names := by
    rw [Declaration.cls, Declaration.cls]
    exact congrArg (className names.classPrefix · d.number) d.func.name_erased
  rw [lifted, lifted, d.redirected_erased, cls, d.captures_erased, d.receiver_erased, lift_erased]

theorem Declaration.errors_erased (globals : List String) :
    d.erased.errors names globals = (d.errors names globals).map ConversionError.erased := by
  rw [errors, errors, d.site_erased, List.map_append, List.map_append,
    ← (obstacles_erases d.func).function, ← classifyErrors_erased,
    ← (rejections_erases (d.site names)).function]
  rfl

end Lift

/-! ### Functions -/

/-- The function without positions. -/
def Host.erased (H : Host) : Host := { H with func := H.func.erased }

/-- The state of the conversion without positions. -/
def Lifting.erased (st : Lifting) : Lifting := { st with lifted := st.lifted.map Lifted.erased }

namespace Host

variable (H : Host) (st : Lifting)

theorem declaration_erased (c : FunDef) :
    H.erased.declaration st.erased c.erased = (H.declaration st c).erased := by
  rw [declaration, c.name_erased]
  change Declaration.mk _ ⟨H.func.erased.params, _⟩ _ = _
  rw [H.func.params_erased]
  rfl

theorem next_erased (c : FunDef) : H.erased.next st.erased c.erased = (H.next st c).erased := by
  have names : H.erased.names = H.names := rfl
  rw [next, H.declaration_erased, names, Declaration.lifted_erased]
  change Lifting.mk _ (st.lifted.map Lifted.erased ++ [_]) _ =
    Lifting.mk _ (List.map _ (_ ++ [_])) _
  rw [List.map_append]
  rfl

theorem declare_erased (cs : List FunDef) :
    H.erased.declare st.erased (cs.map FunDef.erased) =
      (H.declare st cs).map Declaration.erased := by
  induction cs generalizing st with
  | nil => rfl
  | cons c cs ih =>
    rw [List.map_cons, declare, H.declaration_erased, H.next_erased, ih, declare, List.map_cons]

theorem after_erased (cs : List FunDef) :
    H.erased.after st.erased (cs.map FunDef.erased) = (H.after st cs).erased := by
  induction cs generalizing st with
  | nil => rfl
  | cons c cs ih =>
    change H.erased.after (H.erased.next st.erased c.erased) (cs.map FunDef.erased) = _
    rw [H.next_erased, ih]
    rfl

theorem errors_erased (xs : List Encounter) :
    H.erased.errors st.erased (xs.map Encounter.erased) =
      (H.errors st xs).map ConversionError.erased := by
  have names : H.erased.names = H.names := rfl
  have globals : H.erased.globals = H.globals := rfl
  induction xs generalizing st with
  | nil => rfl
  | cons x xs ih =>
    cases x with
    | lambda s =>
      have name : H.erased.func.name = H.func.name := H.func.name_erased
      rw [List.map_cons, Encounter.erased, errors, ih, name]
      rfl
    | closure c =>
      rw [List.map_cons, Encounter.erased, errors, H.declaration_erased, H.next_erased, ih, names,
        globals, Declaration.errors_erased, errors, List.map_append]

theorem enter_erased : H.erased.enter st.erased = (H.enter st).erased := by
  change Lifting.mk _ _ H.func.erased.inits = _
  rw [H.func.inits_erased]
  rfl

theorem declarations_erased :
    H.erased.declarations st.erased = (H.declarations st).map Declaration.erased := by
  rw [declarations, H.enter_erased, declarations, ← H.declare_erased, ← H.func.closures_erased]
  rfl

theorem leave_erased : H.erased.leave st.erased = (H.leave st).erased := by
  rw [leave, H.enter_erased, leave, ← H.after_erased, ← H.func.closures_erased]
  rfl

end Host

theorem FunDef.converted_erased (names : Conventions) (f : FunDef) (ds : List Declaration) :
    f.erased.converted names (ds.map Declaration.erased) = (f.converted names ds).erased := by
  have blocks : (ds.map Declaration.erased).map (fun d => (d.lifted names).creation) =
      (ds.map fun d => (d.lifted names).creation).map Stmt.erasedList := by
    rw [List.map_map, List.map_map]
    exact List.map_congr_left fun d _ => congrArg Lifted.creation (d.lifted_erased names)
  have inits : (ds.map Declaration.erased).foldl
      (fun inits d => setInit (d.lifted names).slot inits) f.inits =
        ds.foldl (fun inits d => setInit (d.lifted names).slot inits) f.inits := by
    rw [List.foldl_map]
    simp only [Declaration.lifted_erased]
    rfl
  have same (e : Expr) : id e.erased = (id e).erased := rfl
  have body := Stmt.spliceList_erased same f.body (ds.map fun d => (d.lifted names).creation)
  rw [converted, blocks, f.body_erased, f.inits_erased, inits, body, converted, FunDef.erased_eq]
  rfl

/-! ### Programs -/

section Programs

variable (names : Conventions)

theorem plan_erased (globals : List String) (st : Lifting) (fs : List FunDef) :
    plan names globals st.erased (fs.map FunDef.erased) =
      (plan names globals st fs).map fun fd => (fd.1.erased, fd.2.map Declaration.erased) := by
  induction fs generalizing st with
  | nil => rfl
  | cons f fs ih =>
    have declarations := Host.declarations_erased ⟨names, globals, f⟩ st
    have leave := Host.leave_erased ⟨names, globals, f⟩ st
    simp only [Host.erased] at declarations leave
    rw [List.map_cons, plan, declarations, leave, ih, plan, List.map_cons]

theorem planErrors_erased (globals : List String) (st : Lifting) (fs : List FunDef) :
    planErrors names globals st.erased (fs.map FunDef.erased) =
      (planErrors names globals st fs).map ConversionError.erased := by
  induction fs generalizing st with
  | nil => rfl
  | cons f fs ih =>
    have enter := Host.enter_erased ⟨names, globals, f⟩ st
    have leave := Host.leave_erased ⟨names, globals, f⟩ st
    have errors := Host.errors_erased ⟨names, globals, f⟩ (Host.enter ⟨names, globals, f⟩ st)
      (f.collect encounters)
    simp only [Host.erased] at enter leave errors
    rw [List.map_cons, planErrors, enter, leave, encounters_erases.function, errors, ih, planErrors,
      List.map_append]

theorem methodErrors_erased (classes : List ClassDef) :
    methodErrors (classes.map ClassDef.erased) =
      (methodErrors classes).map ConversionError.erased := by
  simp only [methodErrors, List.flatMap_map, List.map_flatMap, ClassDef.erased,
    FunDef.closures_erased, List.map_map, FunDef.name_erased, FunDef.span_erased,
    Function.comp_def, ConversionError.erased]

theorem topLevelErrors_erased (stmts : List Stmt) :
    topLevelErrors (Stmt.erasedList stmts) =
      (topLevelErrors stmts).map ConversionError.erased := by
  simp only [topLevelErrors, closures_erases.block, List.map_map, FunDef.name_erased,
    FunDef.span_erased, Function.comp_def, ConversionError.erased]

variable (p : Program)

theorem Program.globalNames_erased : p.erased.globalNames = p.globalNames := by
  simp only [Program.globalNames, Program.erased, List.map_map, Function.comp_def,
    FunDef.name_erased, ClassDef.erased]

theorem Program.plan_erased :
    p.erased.plan names =
      (p.plan names).map fun fd => (fd.1.erased, fd.2.map Declaration.erased) := by
  rw [Program.plan, p.globalNames_erased]
  exact FlatClosure.plan_erased names p.globalNames {} p.funs

theorem Program.declarations_erased :
    p.erased.declarations names = (p.declarations names).map Declaration.erased := by
  rw [Program.declarations, p.plan_erased, List.flatMap_map, Program.declarations,
    List.map_flatMap]

theorem Program.converted_erased : p.erased.converted names = (p.converted names).erased := by
  have funs : (p.erased.plan names).map (fun fd => fd.1.converted names fd.2) =
      ((p.plan names).map fun fd => fd.1.converted names fd.2).map FunDef.erased := by
    rw [p.plan_erased, List.map_map, List.map_map]
    exact List.map_congr_left fun fd _ => fd.1.converted_erased names fd.2
  have classes : (p.erased.declarations names).map (fun d => (d.lifted names).cls) =
      ((p.declarations names).map fun d => (d.lifted names).cls).map ClassDef.erased := by
    rw [p.declarations_erased, List.map_map, List.map_map]
    exact List.map_congr_left fun d _ => congrArg Lifted.cls (d.lifted_erased names)
  rw [Program.converted, funs, classes]
  change Program.mk _ (p.classes.map ClassDef.erased ++ _) _ _ =
    Program.mk _ (List.map _ (_ ++ _)) _ _
  rw [List.map_append]
  rfl

theorem Program.conversionErrors_erased :
    p.erased.conversionErrors names =
      (p.conversionErrors names).map ConversionError.erased := by
  rw [Program.conversionErrors, p.globalNames_erased, Program.conversionErrors, List.map_append,
    List.map_append, ← methodErrors_erased, ← topLevelErrors_erased, ← planErrors_erased]
  rfl

theorem Artifacts.ofLifted_erased (ls : List Lifted) :
    Artifacts.ofLifted (ls.map Lifted.erased) = .ofLifted ls := by
  rw [Artifacts.ofLifted, List.map_map, List.foldl_map]
  rfl

end Programs

/-- The answer of a conversion without positions. -/
def erasedAnswer :
    Except ConversionError (Program × Artifacts) → Except ConversionError (Program × Artifacts)
  | .ok (q, artifacts) => .ok (q.erased, artifacts)
  | .error e => .error e.erased

/-- **Closure conversion commutes with erasing positions.** -/
theorem convert_erased (names : Conventions) (p : Program) :
    convert names p.erased = erasedAnswer (convert names p) := by
  have artifacts : (p.erased.declarations names).map (·.lifted names) =
      ((p.declarations names).map (·.lifted names)).map Lifted.erased := by
    rw [p.declarations_erased, List.map_map, List.map_map]
    exact List.map_congr_left fun d _ => d.lifted_erased names
  rw [convert_eq, convert_eq, p.conversionErrors_erased, p.converted_erased, artifacts,
    Artifacts.ofLifted_erased]
  cases p.conversionErrors names <;> rfl

theorem ConversionError.message_erased (e : ConversionError) : e.erased.message = e.message := by
  cases e <;> rfl

theorem ConversionError.code_erased (e : ConversionError) : e.erased.code = e.code := by
  cases e <;> rfl

/-- **Positions do not influence meaning.**  If two programs differ in positions only, then under
any conventions either both are converted, with the same artifacts, to programs that differ in
positions only, or both fail, with errors that differ in positions only and so have the same code
and wording.  The programs run alike, under any limits, and so do the converted ones. -/
theorem positions_irrelevant {p q : Program} (same : p.erased = q.erased) (names : Conventions) :
    ((∃ p' q' artifacts, convert names p = .ok (p', artifacts) ∧
          convert names q = .ok (q', artifacts) ∧ p'.erased = q'.erased ∧
          ∀ maxDepth fuel, Context.run ⟨p', names, maxDepth⟩ fuel =
            Context.run ⟨q', names, maxDepth⟩ fuel) ∨
        ∃ e f, convert names p = .error e ∧ convert names q = .error f ∧ e.erased = f.erased ∧
          e.code = f.code ∧ e.message = f.message) ∧
      ∀ maxDepth fuel, Context.run ⟨p, names, maxDepth⟩ fuel =
        Context.run ⟨q, names, maxDepth⟩ fuel := by
  have runs {p q : Program} (same : p.erased = q.erased) (maxDepth fuel : Nat) :
      Context.run ⟨p, names, maxDepth⟩ fuel = Context.run ⟨q, names, maxDepth⟩ fuel := by
    have run : Context.run ⟨p.erased, names, maxDepth⟩ fuel =
        Context.run ⟨p, names, maxDepth⟩ fuel := Context.run_erased ⟨p, names, maxDepth⟩ fuel
    rw [← run, same]
    exact Context.run_erased ⟨q, names, maxDepth⟩ fuel
  refine ⟨?_, runs same⟩
  have answers : erasedAnswer (convert names p) = erasedAnswer (convert names q) := by
    rw [← convert_erased, same, convert_erased]
  rcases hp : convert names p with e | ⟨p', a⟩ <;> rcases hq : convert names q with f | ⟨q', b⟩ <;>
    rw [hp, hq] at answers
  · have errors : e.erased = f.erased := Except.error.inj answers
    refine .inr ⟨e, f, rfl, rfl, errors, ?_, ?_⟩
    · rw [← e.code_erased, errors, f.code_erased]
    · rw [← e.message_erased, errors, f.message_erased]
  · cases answers
  · cases answers
  · obtain ⟨programs, rfl⟩ := Prod.mk.inj (Except.ok.inj answers)
    exact .inl ⟨p', q', a, rfl, rfl, programs, runs programs⟩

/-- `adderProgram` with a position for its function. -/
def placedAdder : Program :=
  { adderProgram with funs := adderProgram.funs.map fun f => { f with span := ⟨0, 4, 9⟩ } }

theorem positions_irrelevant_adder :
    (∃ p' q' artifacts, convert {} adderProgram = .ok (p', artifacts) ∧
        convert {} placedAdder = .ok (q', artifacts) ∧ p'.erased = q'.erased) ∧
      placedAdder.funs.map (·.span) ≠ adderProgram.funs.map (·.span) ∧
      ∀ fuel, Context.run ⟨adderProgram, {}, 200⟩ fuel =
        Context.run ⟨placedAdder, {}, 200⟩ fuel := by
  have same : adderProgram.erased = placedAdder.erased := rfl
  obtain ⟨converted, runs⟩ := positions_irrelevant same {}
  refine ⟨?_, by decide, runs 200⟩
  rcases converted with ⟨p', q', artifacts, hp, hq, erased, -⟩ | ⟨e, f, he, -⟩
  · exact ⟨p', q', artifacts, hp, hq, erased⟩
  · cases he

end FlatClosure

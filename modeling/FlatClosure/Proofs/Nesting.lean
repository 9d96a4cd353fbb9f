import FlatClosure.Proofs.Acceptance
import FlatClosure.Proofs.Generated
import FlatClosure.Proofs.Heights

/-!
# The nesting of converted programs

What is written for a tree is nested one level more than the tree needs, because positions are
written out.  A captured variable that is read from the receiver needs another level, but a closure
stands at least one level higher once it is a method.  So converted programs keep to the same
bound.

* `Expr.depth_redirect`, `Stmt.depth_splice` : one expression, one statement.
* `Stmt.height_of_mem_closures` : a closure is nested less than what it stands in.
* `FunDef.depth_converted`, `Declaration.depth_cls` : the functions and classes of a converted
  program.
* `Program.depth_converted` : **a program that can be written with `n` levels is converted to one
  that is written with at most one more.**
-/

namespace FlatClosure

open Json (depthItems depthFields)

/-! ### Expressions -/

theorem Span.depth_toJson (s : Span) : s.toJson.depth = 1 := rfl

mutual

/-- A captured variable needs two levels more than its name. -/
theorem Expr.depth_redirect {site : ClosureSite} {k : Nat} (hk : 1 ≤ k)
    (captured : ∀ x scope, site.isCaptured x scope = true → 2 ≤ k) (scope : List String)
    (e : Expr) : (e.redirect site scope).toJson.depth ≤ e.height + k := by
  cases e with
  | literal v =>
    simp only [Expr.redirect, Expr.toJson, Expr.height, Json.depth_node, depthFields,
      v.depth_toJson]
    omega
  | id x s =>
    rw [Expr.redirect]
    split
    case isTrue h =>
      have := captured x scope h
      simp only [Expr.toJson, Expr.height, Json.depth_node, depthFields, s.depth_toJson, Json.depth]
      omega
    case isFalse =>
      simp only [Expr.toJson, Expr.height, Json.depth_node, depthFields, s.depth_toJson, Json.depth]
      omega
  | construct x s =>
    simp only [Expr.redirect, Expr.toJson, Expr.height, Json.depth_node, depthFields,
      s.depth_toJson, Json.depth]
    omega
  | unary op e | builtin1 f e | field e x =>
    have he := e.depth_redirect hk captured scope
    simp only [Expr.redirect, Expr.toJson, Expr.height, Json.depth_node, depthFields, Json.depth]
    omega
  | binary op l r | builtin2 f l r | index l r =>
    have hl := l.depth_redirect hk captured scope
    have hr := r.depth_redirect hk captured scope
    simp only [Expr.redirect, Expr.toJson, Expr.height, Json.depth_node, depthFields, Json.depth]
    omega
  | call f args | methodCall f m args =>
    have hf := f.depth_redirect hk captured scope
    have hargs := Expr.depth_redirectList hk captured scope args
    simp only [Expr.redirect, Expr.toJson, Expr.height, Json.depth_node, depthFields, Json.depth]
    omega
  | list es | set es | tuple es =>
    have hes := Expr.depth_redirectList hk captured scope es
    simp only [Expr.redirect, Expr.toJson, Expr.height, Json.depth_node, depthFields,
      Json.depth_arr]
    omega
  | comprehension kind e x it c =>
    have he := e.depth_redirect hk captured (x :: scope)
    have hit := it.depth_redirect hk captured scope
    have hc := Expr.depth_redirectOption hk captured (x :: scope) c
    simp only [Expr.redirect, Expr.toJson, Expr.height, Json.depth_node, depthFields, Json.depth]
    omega
  | ifElse c t e =>
    have hc := c.depth_redirect hk captured scope
    have ht := t.depth_redirect hk captured scope
    have he := e.depth_redirect hk captured scope
    simp only [Expr.redirect, Expr.toJson, Expr.height, Json.depth_node, depthFields]
    omega
  | lambda ps ty b s =>
    have hb := b.depth_redirect hk captured ((ps.map (·.name)).reverse ++ scope)
    simp only [Expr.redirect, Expr.toJson, Expr.height, Json.depth_node, depthFields,
      s.depth_toJson, Json.depth]
    omega

theorem Expr.depth_redirectList {site : ClosureSite} {k : Nat} (hk : 1 ≤ k)
    (captured : ∀ x scope, site.isCaptured x scope = true → 2 ≤ k) (scope : List String)
    (es : List Expr) :
    depthItems (Expr.toJsonList (Expr.redirectList site scope es)) ≤ Expr.heightList es + k := by
  cases es with
  | nil => exact Nat.zero_le _
  | cons e es =>
    have he := e.depth_redirect hk captured scope
    have hes := Expr.depth_redirectList hk captured scope es
    simp only [Expr.redirectList, Expr.toJsonList, depthItems, Expr.heightList]
    omega

theorem Expr.depth_redirectOption {site : ClosureSite} {k : Nat} (hk : 1 ≤ k)
    (captured : ∀ x scope, site.isCaptured x scope = true → 2 ≤ k) (scope : List String)
    (c : Option Expr) :
    (Expr.toJsonOption (Expr.redirectOption site scope c)).depth ≤ Expr.heightOption c + k := by
  cases c with
  | none => exact Nat.zero_le _
  | some e => exact e.depth_redirect hk captured scope

end

/-- The position of a name is written and not needed. -/
theorem Expr.depth_toJson (e : Expr) : e.toJson.depth ≤ e.height + 1 := by
  let site : ClosureSite := ⟨"", .dummy, .empty, ""⟩
  have none (x : String) : site.captures.contains x = false := rfl
  have bound : (e.redirect site []).toJson.depth ≤ e.height + 1 :=
    e.depth_redirect (Nat.le_refl 1)
      (fun x scope h => by rw [ClosureSite.isCaptured, none] at h; cases h) []
  rwa [Expr.redirect_eq_self none] at bound

/-! ### Statements -/

theorem Target.depth_mapExpr {φ : Expr → Expr} {k : Nat}
    (hφ : ∀ e, (φ e).toJson.depth ≤ e.height + k) (t : Target) :
    (t.mapExpr φ).toJson.depth ≤ t.height + k := by
  cases t with
  | id x =>
    simp only [Target.mapExpr, Target.toJson, Target.height, Json.depth_node, depthFields,
      Json.depth]
    omega
  | field o x =>
    have ho := hφ o
    simp only [Target.mapExpr, Target.toJson, Target.height, Json.depth_node, depthFields,
      Json.depth]
    omega
  | index o i =>
    have ho := hφ o
    have hi := hφ i
    simp only [Target.mapExpr, Target.toJson, Target.height, Json.depth_node, depthFields]
    omega
  | ignore => exact Nat.le_add_right 1 k

theorem Slot.depth_mapExprs {φ : Expr → Expr} {k : Nat}
    (hφ : ∀ e, (φ e).toJson.depth ≤ e.height + k) (slots : List Slot) :
    depthItems ((Slot.mapExprs φ slots).map Slot.toJson) ≤ Slot.heightList slots + k := by
  induction slots with
  | nil => exact Nat.zero_le _
  | cons s ss ih =>
    have hs := s.target.depth_mapExpr hφ
    simp only [Slot.mapExprs, List.map_cons, depthItems, Slot.toJson, Json.depth, depthFields,
      Slot.heightList]
    omega

theorem Stmt.toJsonList_eq_map (ss : List Stmt) : Stmt.toJsonList ss = ss.map Stmt.toJson := by
  induction ss with
  | nil => rfl
  | cons s ss ih => rw [Stmt.toJsonList, ih, List.map_cons]

theorem Stmt.depthItems_toJsonList {ss : List Stmt} {n : Nat} :
    depthItems (Stmt.toJsonList ss) ≤ n ↔ ∀ s ∈ ss, s.toJson.depth ≤ n := by
  rw [Stmt.toJsonList_eq_map, Json.depthItems_map_le_iff]

theorem FunDef.two_le_height (f : FunDef) : 2 ≤ f.height := by
  obtain ⟨name, params, ret, inits, body, span⟩ := f
  simp only [FunDef.height]
  omega

section

variable {φ : Expr → Expr} {k : Nat}

mutual

/-- The statements in the place of a statement, if the blocks in the places of closures need no more
than the least closure. -/
theorem Stmt.depth_splice (hφ : ∀ e, (φ e).toJson.depth ≤ e.height + k) (s : Stmt)
    (blocks : List (List Stmt)) (hb : ∀ b ∈ blocks, ∀ t ∈ b, t.toJson.depth ≤ 3 + k) :
    ∀ t ∈ s.splice φ blocks, t.toJson.depth ≤ s.height + k := by
  have dropped (n : Nat) : ∀ b ∈ blocks.drop n, ∀ t ∈ b, t.toJson.depth ≤ 3 + k :=
    fun b h => hb b (List.mem_of_mem_drop h)
  cases s with
  | assign x v | expr v =>
    have hv := hφ v
    simp only [Stmt.splice, List.mem_singleton, forall_eq, Stmt.toJson, Json.depth_node,
      depthFields, Json.depth, Stmt.height]
    omega
  | unpack slots v =>
    have hv := hφ v
    have hslots := Slot.depth_mapExprs hφ slots
    simp only [Stmt.splice, List.mem_singleton, forall_eq, Stmt.toJson, Json.depth_node,
      depthFields, Json.depth, Stmt.height]
    omega
  | ret v =>
    have hv : (Expr.toJsonOption (v.map φ)).depth ≤ Expr.heightOption v + k := by
      cases v with
      | none => exact Nat.zero_le _
      | some e => exact hφ e
    simp only [Stmt.splice, List.mem_singleton, forall_eq, Stmt.toJson, Json.depth_node,
      depthFields, Stmt.height]
    omega
  | setField o f v =>
    have ho := hφ o
    have hv := hφ v
    simp only [Stmt.splice, List.mem_singleton, forall_eq, Stmt.toJson, Json.depth_node,
      depthFields, Json.depth, Stmt.height]
    omega
  | setIndex o i v =>
    have ho := hφ o
    have hi := hφ i
    have hv := hφ v
    simp only [Stmt.splice, List.mem_singleton, forall_eq, Stmt.toJson, Json.depth_node,
      depthFields, Stmt.height]
    omega
  | ifElse c thn els =>
    have hc := hφ c
    have hthn := Stmt.depth_spliceList hφ thn blocks hb
    have hels := Stmt.depth_spliceList hφ els _ (dropped (Stmt.collectList closures thn).length)
    simp only [Stmt.splice, List.mem_singleton, forall_eq, Stmt.toJson, Json.depth_node,
      depthFields, Json.depth, Stmt.height]
    omega
  | whileLoop c body =>
    have hc := hφ c
    have hbody := Stmt.depth_spliceList hφ body blocks hb
    simp only [Stmt.splice, List.mem_singleton, forall_eq, Stmt.toJson, Json.depth_node,
      depthFields, Json.depth, Stmt.height]
    omega
  | forEach x it body els =>
    have hit := hφ it
    have hbody := Stmt.depth_spliceList hφ body blocks hb
    have hels := Stmt.depth_spliceOption hφ els _ (dropped (Stmt.collectList closures body).length)
    simp only [Stmt.splice, List.mem_singleton, forall_eq, Stmt.toJson, Json.depth_node,
      depthFields, Json.depth, Stmt.height]
    omega
  | pass | nonlocal | global | breakLoop | continueLoop =>
    simp only [Stmt.splice, List.mem_singleton, forall_eq, Stmt.toJson, Json.depth_node,
      depthFields, Json.depth, Stmt.height]
    omega
  | closure f =>
    have hf := f.two_le_height
    intro t ht
    rw [Stmt.splice] at ht
    cases blocks with
    | nil => cases ht
    | cons b bs =>
      have := hb b List.mem_cons_self t ht
      simp only [Stmt.height]
      omega

theorem Stmt.depth_spliceList (hφ : ∀ e, (φ e).toJson.depth ≤ e.height + k) (ss : List Stmt)
    (blocks : List (List Stmt)) (hb : ∀ b ∈ blocks, ∀ t ∈ b, t.toJson.depth ≤ 3 + k) :
    depthItems (Stmt.toJsonList (Stmt.spliceList φ ss blocks)) ≤ Stmt.heightList ss + k := by
  cases ss with
  | nil => exact Nat.zero_le _
  | cons s ss =>
    have hs := s.depth_splice hφ blocks hb
    have hss := Stmt.depth_spliceList hφ ss (blocks.drop (s.collect closures).length)
      fun b h => hb b (List.mem_of_mem_drop h)
    rw [Stmt.depthItems_toJsonList] at hss ⊢
    intro t ht
    rw [Stmt.heightList]
    rcases List.mem_append.1 ht with ht | ht
    · have := hs t ht
      omega
    · have := hss t ht
      omega

theorem Stmt.depth_spliceOption (hφ : ∀ e, (φ e).toJson.depth ≤ e.height + k)
    (els : Option (List Stmt)) (blocks : List (List Stmt))
    (hb : ∀ b ∈ blocks, ∀ t ∈ b, t.toJson.depth ≤ 3 + k) :
    (Stmt.toJsonOption (Stmt.spliceOption φ els blocks)).depth ≤ Stmt.heightOption els + k := by
  cases els with
  | none => exact Nat.zero_le _
  | some ss =>
    have hss := Stmt.depth_spliceList hφ ss blocks hb
    simp only [Stmt.spliceOption, Stmt.toJsonOption, Stmt.heightOption, Json.depth_arr]
    omega

end

end

/-! ### Closures -/

theorem Slot.collectList_closures (v : Expr) (slots : List Slot) :
    Slot.collectList closures v slots = [] := by
  induction slots with
  | nil => rfl
  | cons s ss ih =>
    rw [Slot.collectList, ih, List.append_nil]
    cases s.target with
    | id | ignore => rfl
    | field o x => exact closures_onlyStmts.collect o
    | index o i => rw [Target.collect, closures_onlyStmts.collect, closures_onlyStmts.collect]; rfl

mutual

/-- A closure is nested less than the statement it stands in. -/
theorem Stmt.height_of_mem_closures {c : FunDef} (s : Stmt) (h : c ∈ s.collect closures) :
    1 + c.height ≤ s.height := by
  cases s with
  | ifElse e thn els =>
    rw [Stmt.closures_ifElse] at h
    simp only [Stmt.height]
    rcases List.mem_append.1 h with h | h
    · have := Stmt.height_of_mem_closuresList thn h
      omega
    · have := Stmt.height_of_mem_closuresList els h
      omega
  | whileLoop e body =>
    rw [Stmt.closures_whileLoop] at h
    have := Stmt.height_of_mem_closuresList body h
    simp only [Stmt.height]
    omega
  | forEach x it body els =>
    rw [Stmt.closures_forEach] at h
    simp only [Stmt.height]
    rcases List.mem_append.1 h with h | h
    · have := Stmt.height_of_mem_closuresList body h
      omega
    · have := Stmt.height_of_mem_closuresOption els h
      omega
  | closure f =>
    obtain rfl := List.mem_singleton.1 h
    exact Nat.le_refl _
  | assign x v | expr v =>
    rw [Stmt.collect, closures_onlyStmts.collect] at h
    cases h
  | unpack slots v =>
    rw [Stmt.collect, closures_onlyStmts.collect, Slot.collectList_closures] at h
    cases h
  | ret v =>
    have none : Expr.collectOption closures v = [] := closures_onlyStmts.law.holdsOption v
    rw [Stmt.collect, none] at h
    cases h
  | setField o f v =>
    rw [Stmt.collect, closures_onlyStmts.collect, closures_onlyStmts.collect] at h
    cases h
  | setIndex o i v =>
    rw [Stmt.collect, closures_onlyStmts.collect, closures_onlyStmts.collect,
      closures_onlyStmts.collect] at h
    cases h
  | pass | nonlocal | global | breakLoop | continueLoop => cases h

theorem Stmt.height_of_mem_closuresList {c : FunDef} (ss : List Stmt)
    (h : c ∈ Stmt.collectList closures ss) : 1 + c.height ≤ Stmt.heightList ss := by
  cases ss with
  | nil => cases h
  | cons s ss =>
    rw [Stmt.heightList]
    rcases List.mem_append.1 h with h | h
    · have := s.height_of_mem_closures h
      omega
    · have := Stmt.height_of_mem_closuresList ss h
      omega

theorem Stmt.height_of_mem_closuresOption {c : FunDef} (els : Option (List Stmt))
    (h : c ∈ Stmt.collectOption closures els) : 2 + c.height ≤ Stmt.heightOption els := by
  cases els with
  | none => cases h
  | some ss =>
    have := Stmt.height_of_mem_closuresList ss h
    simp only [Stmt.heightOption]
    omega

end

theorem FunDef.height_of_mem_closures {c f : FunDef} (h : c ∈ f.closures) :
    3 + c.height ≤ f.height := by
  obtain ⟨name, params, ret, inits, body, span⟩ := f
  have := Stmt.height_of_mem_closuresList body h
  simp only [FunDef.height]
  omega

/-! ### Functions -/

theorem FunDef.height_le_iff {f : FunDef} {n : Nat} :
    f.height ≤ n ↔ (2 ≤ n ∧ ∀ p ∈ f.params, 2 + p.toJson.depth ≤ n) ∧ 1 + f.ret.toJson.depth ≤ n ∧
      (2 ≤ n ∧ ∀ v ∈ f.inits, 2 + v.toJson.depth ≤ n) ∧ 2 + Stmt.heightList f.body ≤ n := by
  obtain ⟨name, params, ret, inits, body, span⟩ := f
  rw [← two_add_le_iff fun n => Json.depthItems_map_le_iff,
    ← two_add_le_iff fun n => Json.depthItems_map_le_iff]
  simp only [FunDef.height]
  omega

theorem FunDef.depth_toJson_le_iff {f : FunDef} {n : Nat} :
    f.toJson.depth ≤ n ↔ (2 ≤ n ∧ ∀ p ∈ f.params, 2 + p.toJson.depth ≤ n) ∧
      1 + f.ret.toJson.depth ≤ n ∧ (2 ≤ n ∧ ∀ v ∈ f.inits, 2 + v.toJson.depth ≤ n) ∧
      2 + depthItems (Stmt.toJsonList f.body) ≤ n := by
  obtain ⟨name, params, ret, inits, body, span⟩ := f
  rw [← two_add_le_iff fun n => Json.depthItems_map_le_iff,
    ← two_add_le_iff fun n => Json.depthItems_map_le_iff]
  simp only [FunDef.toJson, Json.depth_obj, depthFields, span.depth_toJson, Json.depth]
  omega

/-! ### Closures that are lifted -/

variable (names : Conventions)

theorem mem_setInit {slot v : VarInit} {vs : List VarInit} (h : v ∈ setInit slot vs) :
    v = slot ∨ v ∈ vs := by
  induction vs with
  | nil => exact .inl (List.mem_singleton.1 h)
  | cons w vs ih =>
    rw [setInit] at h
    split at h
    · exact (List.mem_cons.1 h).imp_right (List.mem_cons_of_mem w)
    · rcases List.mem_cons.1 h with rfl | h
      · exact .inr List.mem_cons_self
      · exact (ih h).imp_right (List.mem_cons_of_mem w)

theorem Declaration.depth_creation (d : Declaration) :
    ∀ t ∈ (d.lifted names).creation, t.toJson.depth ≤ 4 := by
  intro t ht
  rcases List.mem_cons.1 ht with rfl | ht
  · exact Nat.le_refl 4
  · obtain ⟨x, -, rfl⟩ := List.mem_map.1 ht
    exact Nat.le_succ 3

/-- The variables of a function keep to a bound when slots for closures are added. -/
theorem depth_foldl_setInit {n : Nat} (hn : 2 ≤ n) (ds : List Declaration) {inits : List VarInit}
    (h : ∀ v ∈ inits, v.toJson.depth ≤ n) :
    ∀ v ∈ ds.foldl (fun inits d => setInit (d.lifted names).slot inits) inits,
      v.toJson.depth ≤ n := by
  induction ds generalizing inits with
  | nil => exact h
  | cons d ds ih =>
    refine ih fun v hv => ?_
    rcases mem_setInit hv with rfl | hv
    · exact hn
    · exact h v hv

/-- A converted function needs no more than the function did. -/
theorem FunDef.depth_converted (f : FunDef) {ds : List Declaration}
    (h : ∀ d ∈ ds, d.func ∈ f.closures) : (f.converted names ds).toJson.depth ≤ f.height + 1 := by
  obtain ⟨params, ret, inits, body⟩ := FunDef.height_le_iff.1 (Nat.le_refl f.height)
  have block : depthItems (Stmt.toJsonList (f.converted names ds).body) ≤
      Stmt.heightList f.body + 1 := by
    refine Stmt.depth_spliceList Expr.depth_toJson f.body _ fun b hb => ?_
    obtain ⟨d, -, rfl⟩ := List.mem_map.1 hb
    exact d.depth_creation names
  rw [FunDef.depth_toJson_le_iff]
  refine ⟨⟨by omega, fun p hp => ?_⟩, ?_, ⟨by omega, fun v hv => ?_⟩, by omega⟩
  · have := params.2 p hp
    omega
  · exact Nat.le_succ_of_le ret
  · cases ds with
    | nil =>
      have := inits.2 v hv
      omega
    | cons d ds =>
      have closure := FunDef.height_of_mem_closures (h d List.mem_cons_self)
      have least := d.func.two_le_height
      have bound := depth_foldl_setInit names (n := f.height - 2) (by omega) (d :: ds)
        (fun v hv => by have := inits.2 v hv; omega) v hv
      omega

theorem FunDef.depth_toJson {f : FunDef} (h : f.closures = []) :
    f.toJson.depth ≤ f.height + 1 := by
  have same : f.converted {} [] = f := by
    rw [FunDef.converted, Stmt.spliceList_eq_self f.body _ h]
    cases f
    rfl
  have bound : (f.converted {} []).toJson.depth ≤ f.height + 1 := f.depth_converted {} (by simp)
  rwa [same] at bound

/-- The variables around a closure keep to a bound that those of the function keep to. -/
theorem Host.depth_around (H : Host) {n : Nat} (hn : 2 ≤ n) {st : Lifting} {cs : List FunDef}
    (h : ∀ v ∈ st.inits, v.toJson.depth ≤ n) :
    ∀ d ∈ H.declare st cs, d.around.params = H.func.params ∧
      ∀ v ∈ d.around.inits, v.toJson.depth ≤ n := by
  induction cs generalizing st with
  | nil => simp [Host.declare]
  | cons c cs ih =>
    refine List.forall_mem_cons.2 ⟨⟨rfl, h⟩, ih fun v hv => ?_⟩
    rcases mem_setInit hv with rfl | hv
    · exact hn
    · exact h v hv

theorem Param.depth_toJson (p : Param) : p.toJson.depth = 1 + p.ty.toJson.depth := by
  simp only [Param.toJson, Json.depth_obj, depthFields, Json.depth]
  omega

theorem VarInit.depth_toJson (v : VarInit) : v.toJson.depth = 1 + max v.ty.toJson.depth 1 := by
  simp only [VarInit.toJson, Json.depth_obj, depthFields, Json.depth, v.value.depth_toJson]
  omega

/-- A captured variable has the type of a variable around the closure. -/
theorem FunDef.depth_captures {c : FunDef} {around : Enclosing} {n : Nat}
    (params : ∀ p ∈ around.params, p.toJson.depth ≤ n)
    (inits : ∀ v ∈ around.inits, v.toJson.depth ≤ n) {x : String} {ty : Ty}
    (h : (x, ty) ∈ (c.captures around).entries) : 1 + ty.toJson.depth ≤ n := by
  obtain ⟨r, -, hr⟩ := List.mem_filterMap.1 h
  obtain ⟨ty', captured, entry⟩ := Option.map_eq_some_iff.1 hr
  obtain ⟨-, rfl⟩ := Prod.mk.inj entry
  rw [captureType?] at captured
  split at captured
  · cases captured
  · rw [Enclosing.type?, Option.or_eq_some_iff] at captured
    rcases captured with captured | ⟨-, captured⟩
    · obtain ⟨p, found, rfl⟩ := Option.map_eq_some_iff.1 captured
      have := params p (List.mem_of_find?_eq_some found)
      rwa [p.depth_toJson] at this
    · obtain ⟨v, found, rfl⟩ := Option.map_eq_some_iff.1 captured
      have := inits v (List.mem_of_find?_eq_some found)
      rw [v.depth_toJson] at this
      omega

theorem ClassDef.depth_toJson_le_iff {c : ClassDef} {n : Nat} :
    c.toJson.depth ≤ n ↔ (2 ≤ n ∧ ∀ v ∈ c.fields, 2 + v.toJson.depth ≤ n) ∧
      2 ≤ n ∧ ∀ m ∈ c.methods, 2 + m.toJson.depth ≤ n := by
  rw [← two_add_le_iff fun n => Json.depthItems_map_le_iff,
    ← two_add_le_iff fun n => Json.depthItems_map_le_iff]
  simp only [ClassDef.toJson, Json.depth_obj, depthFields, Json.depth]
  omega

/-- The method of a closure needs one level more than any function: that of the receiver. -/
theorem Declaration.depth_callMethod (d : Declaration) :
    (callMethod (d.redirected names) (d.cls names) (d.receiver names) names).toJson.depth ≤
      d.func.height + 2 := by
  obtain ⟨params, ret, inits, body⟩ := FunDef.height_le_iff.1 (Nat.le_refl d.func.height)
  have block : depthItems (Stmt.toJsonList (d.redirected names).body) ≤
      Stmt.heightList d.func.body + 2 :=
    Stmt.depth_spliceList (Expr.depth_redirect (by omega) (fun _ _ _ => Nat.le_refl 2) []) _ []
      (by simp)
  rw [FunDef.depth_toJson_le_iff]
  refine ⟨⟨by omega, List.forall_mem_cons.2 ⟨?_, fun p hp => ?_⟩⟩, ?_,
    ⟨by omega, fun v hv => ?_⟩, ?_⟩
  · have receiver : (Param.mk (d.receiver names) (.cls (d.cls names))).toJson.depth = 2 := rfl
    omega
  · have := params.2 p hp
    omega
  · exact Nat.le_succ_of_le (Nat.le_succ_of_le ret)
  · have := inits.2 v hv
    omega
  · change 2 + depthItems (Stmt.toJsonList (d.redirected names).body) ≤ _
    omega

/-- The class of a closure needs no more than the function did that it stood in. -/
theorem Declaration.depth_cls {d : Declaration} {f : FunDef} (hd : d.func ∈ f.closures)
    (params : d.around.params = f.params)
    (inits : ∀ v ∈ d.around.inits, v.toJson.depth ≤ f.height - 2) :
    (d.lifted names).cls.toJson.depth ≤ f.height + 1 := by
  have closure := FunDef.height_of_mem_closures hd
  have least := d.func.two_le_height
  have own := (FunDef.height_le_iff.1 (Nat.le_refl f.height)).1.2
  rw [ClassDef.depth_toJson_le_iff]
  refine ⟨⟨by omega, fun v hv => ?_⟩, by omega, List.forall_mem_cons.2 ⟨?_, fun m hm => ?_⟩⟩
  · obtain ⟨⟨x, ty⟩, hx, rfl⟩ := List.mem_map.1 hv
    have type : 1 + ty.toJson.depth ≤ f.height - 2 :=
      FunDef.depth_captures (fun p hp => by have := own p (params ▸ hp); omega) inits hx
    rw [VarInit.depth_toJson]
    dsimp only
    omega
  · have := d.depth_callMethod names
    omega
  · obtain rfl := List.mem_singleton.1 hm
    have empty : (emptyConstructor (d.cls names) (d.receiver names) names).toJson.depth = 4 := rfl
    omega

theorem Program.depth_toJson_le_iff {p : Program} {n : Nat} :
    p.toJson.depth ≤ n ↔ (2 ≤ n ∧ ∀ f ∈ p.funs, 2 + f.toJson.depth ≤ n) ∧
      (2 ≤ n ∧ ∀ c ∈ p.classes, 2 + c.toJson.depth ≤ n) ∧
      (2 ≤ n ∧ ∀ v ∈ p.inits, 2 + v.toJson.depth ≤ n) ∧
      2 ≤ n ∧ ∀ s ∈ p.stmts, 2 + s.toJson.depth ≤ n := by
  rw [← two_add_le_iff fun n => Json.depthItems_map_le_iff,
    ← two_add_le_iff fun n => Json.depthItems_map_le_iff,
    ← two_add_le_iff fun n => Json.depthItems_map_le_iff,
    ← two_add_le_iff fun n => Json.depthItems_map_le_iff]
  simp only [Program.toJson, Json.depth_obj, depthFields, Json.depth]
  omega

theorem ClassDef.depth_toJson {c : ClassDef} {n : Nat} (fits : c.Fits n)
    (h : ∀ m ∈ c.methods, m.closures = []) : c.toJson.depth ≤ n + 1 := by
  have levels := fits.levels
  rw [ClassDef.depth_toJson_le_iff]
  refine ⟨⟨by omega, fun v hv => Nat.le_succ_of_le (fits.fields v hv)⟩, by omega, fun m hm => ?_⟩
  have own := fits.methods m hm
  have written := FunDef.depth_toJson (h m hm)
  omega

/-- Statements without closures. -/
theorem Stmt.depth_toJson {ss : List Stmt} (h : Stmt.collectList closures ss = []) {s : Stmt}
    (hs : s ∈ ss) : s.toJson.depth ≤ Stmt.heightList ss + 1 := by
  have block : depthItems (Stmt.toJsonList (Stmt.spliceList id ss [])) ≤ Stmt.heightList ss + 1 :=
    Stmt.depth_spliceList Expr.depth_toJson ss [] (by simp)
  rw [Stmt.spliceList_eq_self ss _ h] at block
  exact Stmt.depthItems_toJsonList.1 block s hs

/-- **A program that can be written with `n` levels is converted to one that is written with at
most one more.** -/
theorem Program.depth_converted {p : Program} {n : Nat} (fits : p.Fits n)
    (h : p.conversionErrors names = []) : (p.converted names).toJson.depth ≤ n + 1 := by
  rw [Program.conversionErrors, List.append_eq_nil_iff, List.append_eq_nil_iff] at h
  obtain ⟨⟨methods, top⟩, -⟩ := h
  have levels := fits.levels
  have declared {fd : FunDef × List Declaration} (hfd : fd ∈ p.plan names) :
      fd.1 ∈ p.funs ∧ ∃ st, fd.2 = Host.declarations ⟨names, p.globalNames, fd.1⟩ st ∧
        ∀ d ∈ fd.2, d.func ∈ fd.1.closures := by
    obtain ⟨hf, st, hds⟩ := mem_plan hfd
    refine ⟨hf, st, hds, fun d hd => ?_⟩
    rw [hds] at hd
    obtain ⟨st', c, hc, rfl⟩ := Host.mem_declare hd
    exact hc
  rw [Program.depth_toJson_le_iff]
  refine ⟨⟨by omega, fun f hf => ?_⟩, ⟨by omega, fun c hc => ?_⟩, ⟨by omega, fun v hv => ?_⟩,
    by omega, fun s hs => ?_⟩
  · obtain ⟨fd, hfd, rfl⟩ := List.mem_map.1 hf
    obtain ⟨hf, st, -, closures⟩ := declared hfd
    have needs := fits.funs fd.1 hf
    have written := fd.1.depth_converted names closures
    omega
  · rcases List.mem_append.1 hc with hc | hc
    · obtain ⟨k, hk, own⟩ := fits.classes c hc
      have written := ClassDef.depth_toJson own ((methodErrors_eq_nil p.classes).1 methods c hc)
      omega
    · obtain ⟨d, hd, rfl⟩ := List.mem_map.1 hc
      obtain ⟨fd, hfd, hd⟩ := Program.mem_declarations.1 hd
      obtain ⟨hf, st, hds, closures⟩ := declared hfd
      have needs := fits.funs fd.1 hf
      have closure := FunDef.height_of_mem_closures (closures d hd)
      have least := d.func.two_le_height
      have own : ∀ v ∈ fd.1.inits, v.toJson.depth ≤ fd.1.height - 2 := fun v hv => by
        have := (FunDef.height_le_iff.1 (Nat.le_refl fd.1.height)).2.2.1.2 v hv
        omega
      have around := Host.depth_around ⟨names, p.globalNames, fd.1⟩ (by omega) own d (hds ▸ hd)
      have written := Declaration.depth_cls names (closures d hd) around.1 around.2
      omega
  · exact Nat.le_succ_of_le (fits.inits v hv)
  · have own := fits.stmts s hs
    have block : Stmt.heightList p.stmts ≤ n - 2 :=
      Stmt.heightList_le_iff.2 fun t ht => by have := fits.stmts t ht; omega
    have written := Stmt.depth_toJson (List.map_eq_nil_iff.1 top) hs
    omega

end FlatClosure

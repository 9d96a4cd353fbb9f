import FlatClosure.Proofs.Readers

/-!
# The nesting that a tree needs

A tree can be written in several ways: positions may be left out, and a record may be an array.  The
*height* of a tree is the least nesting of a JSON value that is read as the tree; what is left out
counts nothing.  Types, parameters and variables hold no positions, so there the height is the
nesting of what is written.

* `Expr.height_le_of_decode`, `Stmt.height_le_of_decode`, `FunDef.height_le_of_decode` : the height
  is at most the nesting of the value that was read.
* `Program.Fits` : the program can be written with that many levels.
* `Program.fits_of_ofJson?` : **a program fits into the levels that were looked at when it was
  read.**
-/

namespace FlatClosure

open Json (Shape seen seenItems seenFields required defaulted optional bare depthItems)

/-! ### Heights -/

mutual

/-- The least nesting of an expression. -/
def Expr.height : Expr → Nat
  | .literal _ => 2
  | .id .. | .construct .. => 1
  | .unary _ e | .builtin1 _ e | .field e _ => 1 + e.height
  | .binary _ l r | .builtin2 _ l r | .index l r => 1 + max l.height r.height
  | .call f args | .methodCall f _ args => 1 + max f.height (1 + Expr.heightList args)
  | .list es | .set es | .tuple es => 1 + (1 + Expr.heightList es)
  | .comprehension _ e _ it c => 1 + max e.height (max it.height (Expr.heightOption c))
  | .ifElse c t e => 1 + max c.height (max t.height e.height)
  | .lambda ps ty b _ =>
    1 + max (1 + depthItems (ps.map Param.toJson)) (max ty.toJson.depth b.height)

/-- The least nesting of expressions one after the other. -/
def Expr.heightList : List Expr → Nat
  | [] => 0
  | e :: es => max e.height (Expr.heightList es)

/-- The least nesting of an expression that may be missing. -/
def Expr.heightOption : Option Expr → Nat
  | none => 0
  | some e => e.height

end

/-- The least nesting of a target. -/
def Target.height : Target → Nat
  | .id _ | .ignore => 1
  | .field o _ => 1 + o.height
  | .index o i => 1 + max o.height i.height

/-- The least nesting of targets one after the other. -/
def Slot.heightList : List Slot → Nat
  | [] => 0
  | s :: ss => max (1 + s.target.height) (Slot.heightList ss)

mutual

/-- The least nesting of a statement. -/
def Stmt.height : Stmt → Nat
  | .assign _ e | .expr e => 1 + e.height
  | .unpack slots v => 1 + max (1 + Slot.heightList slots) v.height
  | .ret v => 1 + Expr.heightOption v
  | .setField o _ v => 1 + max o.height v.height
  | .setIndex o i v => 1 + max o.height (max i.height v.height)
  | .ifElse c thn els =>
    1 + max c.height (max (1 + Stmt.heightList thn) (1 + Stmt.heightList els))
  | .whileLoop c body => 1 + max c.height (1 + Stmt.heightList body)
  | .forEach _ it body els =>
    1 + max it.height (max (1 + Stmt.heightList body) (Stmt.heightOption els))
  | .pass | .nonlocal _ | .global _ | .breakLoop | .continueLoop => 1
  | .closure f => 1 + f.height

/-- The least nesting of statements one after the other. -/
def Stmt.heightList : List Stmt → Nat
  | [] => 0
  | s :: ss => max s.height (Stmt.heightList ss)

/-- The least nesting of a block that may be missing. -/
def Stmt.heightOption : Option (List Stmt) → Nat
  | none => 0
  | some ss => 1 + Stmt.heightList ss

/-- The least nesting of a function. -/
def FunDef.height : FunDef → Nat
  | ⟨_, params, ret, inits, body, _⟩ =>
    1 + max (1 + depthItems (params.map Param.toJson)) (max ret.toJson.depth
      (max (1 + depthItems (inits.map VarInit.toJson)) (1 + Stmt.heightList body)))

end

theorem Expr.heightList_le_iff {es : List Expr} {n : Nat} :
    Expr.heightList es ≤ n ↔ ∀ e ∈ es, e.height ≤ n := by
  induction es with
  | nil => simp [Expr.heightList]
  | cons e es ih => rw [Expr.heightList, Nat.max_le, ih, List.forall_mem_cons]

theorem Slot.heightList_le_iff {ss : List Slot} {n : Nat} :
    Slot.heightList ss ≤ n ↔ ∀ s ∈ ss, 1 + s.target.height ≤ n := by
  induction ss with
  | nil => simp [Slot.heightList]
  | cons s ss ih => rw [Slot.heightList, Nat.max_le, ih, List.forall_mem_cons]

theorem Stmt.heightList_le_iff {ss : List Stmt} {n : Nat} :
    Stmt.heightList ss ≤ n ↔ ∀ s ∈ ss, s.height ≤ n := by
  induction ss with
  | nil => simp [Stmt.heightList]
  | cons s ss ih => rw [Stmt.heightList, Nat.max_le, ih, List.forall_mem_cons]

/-! ### Types, literals and variables that were read -/

open Json (Within AllWithin)

theorem Ty.toJsonList_eq_map (ts : List Ty) : Ty.toJsonList ts = ts.map Ty.toJson := by
  induction ts with
  | nil => rfl
  | cons t ts ih => rw [Ty.toJsonList, ih, List.map_cons]

theorem Ty.height_le_of_decode (n : Nat) (inner : Bool) (j : Json) :
    Ensures (Ty.decode n inner j) fun t => t.toJson.depth ≤ seen .whole j := by
  rw [Json.seen_whole]
  induction n generalizing inner j with
  | zero => exact .none
  | succ n ih =>
    have ih (j : Json) : Ensures (Ty.decode n true j) fun t => t.toJson.depth ≤ seen .whole j := by
      rw [Json.seen_whole]
      exact ih true j
    rw [Ty.decode]
    refine (Json.tagged?_ensures _ _ j).bind fun r hr => ?_
    obtain ⟨tag, body⟩ := r
    obtain ⟨hbody, hj⟩ := hr
    have record := Json.record?_whole hbody
    dsimp only
    split
    case h_6 =>
      refine (record _).bind fun parts hp => ?_
      split
      · exact Ensures.any.bind fun x _ => .pure hj
      · exact .none
    case h_7 =>
      refine (record _).bind fun parts hp => ?_
      split
      · obtain ⟨helem, -⟩ := hp
        exact (helem.tree ih).bind fun t ht =>
          .pure (by simp only [Ty.toJson, Json.depth_node, Json.depthFields]; omega)
      · exact .none
    case h_8 =>
      refine (record _).bind fun parts hp => ?_
      split
      · obtain ⟨hparams, hret, -⟩ := hp
        refine (hparams.required fun x hx => Json.listOf?_trees rfl rfl ih hx).bind fun ts hts =>
          (hret.tree ih).bind fun t ht => .pure ?_
        have params := (two_add_le_iff fun n => Json.depthItems_map_le_iff).2 hts
        simp only [Ty.toJson, Json.depth_node, Json.depthFields, Json.depth_arr,
          Ty.toJsonList_eq_map]
        omega
      · exact .none
    case h_9 => exact .none
    all_goals
      refine Json.bare_ensures ?_ body
      exact hj

theorem Ty.height_le_of_part (inner : Bool) (j : Json) :
    Ensures (Ty.part inner j) fun t => t.toJson.depth ≤ seen .whole j :=
  Ty.height_le_of_decode j.depth inner j

theorem Literal.depth_toJson (v : Literal) : v.toJson.depth = 1 := by
  cases v <;> rfl

theorem Literal.height_le_of_part (inner : Bool) (j : Json) :
    Ensures (Literal.part inner j) fun v => v.toJson.depth ≤ seen .whole j := by
  refine (Json.tagged?_ensures _ _ j).bind fun r hr => Ensures.any.mono fun v _ => ?_
  rw [v.depth_toJson, Json.seen_whole]
  exact hr.2

/-- The shape looks at all of a value, or at what the shape `t` looks at. -/
def Json.Shape.Covers (s t : Shape) : Prop := s = .whole ∨ s = t

theorem Json.Shape.Covers.list {s t : Shape} (h : s.Covers (.list t)) :
    s.isSkipped = false ∧ s.rest = s ∧ s.item.Covers t := by
  rcases h with rfl | rfl
  · exact ⟨rfl, rfl, .inl rfl⟩
  · exact ⟨rfl, rfl, .inr rfl⟩

theorem Json.listOf?_covers {α : Type} {f : Json → Option α} {height : α → Nat} {d : Nat}
    {s t : Shape} (h : s.Covers (.list t))
    (hf : ∀ {s : Shape}, s.Covers t → ∀ j, Ensures (f j) fun a => height a ≤ seen s j) {j : Json}
    (hj : 1 + seen s j ≤ d) :
    Ensures (listOf? f j) fun as => 2 ≤ d ∧ ∀ a ∈ as, 2 + height a ≤ d :=
  listOf?_trees h.list.1 h.list.2.1 (hf h.list.2.2) hj

variable {s : Shape}

theorem Param.height_le_of_part (hs : s.Covers Param.shape) (inner : Bool) (j : Json) :
    Ensures (Param.part inner j) fun p => p.toJson.depth ≤ seen s j := by
  have record : s.Record ["name", "ty"] [.whole, .whole] := by
    rcases hs with rfl | rfl <;> exact ⟨rfl, ⟨rfl, rfl, trivial⟩, ⟨rfl, rfl, trivial⟩⟩
  refine (Json.record?_ensures record j).bind fun parts hp => ?_
  split
  · obtain ⟨-, hty, -⟩ := hp
    refine Ensures.any.bind fun x _ => (hty.tree (Ty.height_le_of_part inner)).bind fun t ht =>
      .pure ?_
    simp only [Param.toJson, Json.depth_obj, Json.depthFields, Json.depth]
    omega
  · exact .none

theorem VarInit.height_le_of_part (hs : s.Covers VarInit.shape) (inner : Bool) (j : Json) :
    Ensures (VarInit.part inner j) fun v => v.toJson.depth ≤ seen s j := by
  have record : s.Record ["name", "ty", "value"] [.whole, .whole, .whole] := by
    rcases hs with rfl | rfl <;>
      exact ⟨rfl, ⟨rfl, rfl, rfl, trivial⟩, ⟨rfl, rfl, rfl, trivial⟩⟩
  refine (Json.record?_ensures record j).bind fun parts hp => ?_
  split
  · obtain ⟨-, hty, hvalue, -⟩ := hp
    refine Ensures.any.bind fun x _ => (hty.tree (Ty.height_le_of_part inner)).bind fun t ht =>
      (hvalue.tree (Literal.height_le_of_part inner)).bind fun v hv => .pure ?_
    simp only [VarInit.toJson, Json.depth_obj, Json.depthFields, Json.depth]
    omega
  · exact .none

/-! ### Expressions that were read -/

theorem Expr.height_le_of_decode (n : Nat) (inner : Bool) (j : Json) :
    Ensures (Expr.decode n inner j) fun e => e.height ≤ seen .whole j := by
  rw [Json.seen_whole]
  induction n generalizing inner j with
  | zero => exact .none
  | succ n ih =>
    have ih (j : Json) : Ensures (Expr.decode n true j) fun e => e.height ≤ seen .whole j := by
      rw [Json.seen_whole]
      exact ih true j
    rw [Expr.decode]
    refine (Json.tagged?_ensures _ _ j).bind fun r hr => ?_
    obtain ⟨tag, body⟩ := r
    obtain ⟨hbody, hj⟩ := hr
    have record := Json.record?_whole hbody
    have expr {part : Option Json} (h : Within j.depth .whole part) := h.tree ih
    have exprs {part : Option Json} (h : Within j.depth .whole part) :
        Ensures (required (Json.listOf? (Expr.decode n true)) part) fun es =>
          2 + Expr.heightList es ≤ j.depth :=
      (h.required fun x hx => Json.listOf?_trees rfl rfl ih hx).mono fun es hes =>
        (two_add_le_iff fun n => Expr.heightList_le_iff).2 hes
    dsimp only
    split
    -- literal
    case h_1 =>
      refine (record _).bind fun parts hp => ?_
      split
      · obtain ⟨hv, -⟩ := hp
        refine (hv.tree (Literal.height_le_of_part true)).bind fun v hv => .pure ?_
        rw [v.depth_toJson] at hv
        exact hv
      · exact .none
    -- id, construct
    case h_2 | h_16 =>
      refine (record _).bind fun parts hp => ?_
      split
      · exact Ensures.any.bind fun x _ => Ensures.any.bind fun s _ => .pure hj
      · exact .none
    -- uniop, builtin1
    case h_3 | h_5 =>
      refine (record _).bind fun parts hp => ?_
      split
      · obtain ⟨-, he, -⟩ := hp
        exact Ensures.any.bind fun op _ => (expr he).bind fun e he => .pure he
      · exact .none
    -- binop, builtin2
    case h_4 | h_6 =>
      refine (record _).bind fun parts hp => ?_
      split
      · obtain ⟨-, hl, hr, -⟩ := hp
        exact Ensures.any.bind fun op _ => (expr hl).bind fun l hl => (expr hr).bind fun r hr =>
          .pure (by simp only [Expr.height]; omega)
      · exact .none
    -- call
    case h_7 =>
      refine (record _).bind fun parts hp => ?_
      split
      · obtain ⟨hf, hargs, -⟩ := hp
        exact (expr hf).bind fun f hf => (exprs hargs).bind fun args hargs =>
          .pure (by simp only [Expr.height]; omega)
      · exact .none
    -- lookup
    case h_8 =>
      refine (record _).bind fun parts hp => ?_
      split
      · obtain ⟨ho, -⟩ := hp
        exact (expr ho).bind fun o ho => Ensures.any.bind fun x _ => .pure ho
      · exact .none
    -- index
    case h_9 =>
      refine (record _).bind fun parts hp => ?_
      split
      · obtain ⟨ho, hi, -⟩ := hp
        exact (expr ho).bind fun o ho => (expr hi).bind fun i hi =>
          .pure (by simp only [Expr.height]; omega)
      · exact .none
    -- method-call
    case h_10 =>
      refine (record _).bind fun parts hp => ?_
      split
      · obtain ⟨ho, -, hargs, -⟩ := hp
        exact (expr ho).bind fun o ho => Ensures.any.bind fun m _ => (exprs hargs).bind
          fun args hargs => .pure (by simp only [Expr.height]; omega)
      · exact .none
    -- list, set, tuple
    case h_11 | h_12 | h_15 =>
      refine (record _).bind fun parts hp => ?_
      split
      · obtain ⟨hes, -⟩ := hp
        exact (exprs hes).bind fun es hes => .pure (by simp only [Expr.height]; omega)
      · exact .none
    -- comprehension
    case h_13 =>
      refine (record _).bind fun parts hp => ?_
      split
      · obtain ⟨-, he, -, hit, hc, -⟩ := hp
        have cond := hc.optionalTree Expr.heightOption rfl (fun _ => rfl) ih
        exact Ensures.any.bind fun kind _ => (expr he).bind fun e he => Ensures.any.bind fun x _ =>
          (expr hit).bind fun it hit => cond.bind fun c hc =>
            .pure (by simp only [Expr.height]; omega)
      · exact .none
    -- if-expr
    case h_14 =>
      refine (record _).bind fun parts hp => ?_
      split
      · obtain ⟨hc, ht, he, -⟩ := hp
        exact (expr hc).bind fun c hc => (expr ht).bind fun t ht => (expr he).bind fun e he =>
          .pure (by simp only [Expr.height]; omega)
      · exact .none
    -- lambda
    case h_17 =>
      refine (record _).bind fun parts hp => ?_
      split
      · obtain ⟨hps, hty, hb, -⟩ := hp
        refine (hps.required fun x hx => Json.listOf?_trees rfl rfl
          (Param.height_le_of_part (.inl rfl) true) hx).bind fun ps hps =>
          (hty.tree (Ty.height_le_of_part true)).bind fun ty hty => (expr hb).bind fun b hb =>
            Ensures.any.bind fun s _ => .pure ?_
        have params := (two_add_le_iff fun n => Json.depthItems_map_le_iff).2 hps
        simp only [Expr.height]
        omega
      · exact .none
    case h_18 => exact .none

theorem Expr.height_le_of_part (inner : Bool) (j : Json) :
    Ensures (Expr.part inner j) fun e => e.height ≤ seen .whole j :=
  Expr.height_le_of_decode j.depth inner j

theorem Target.height_le_of_part (inner : Bool) (j : Json) :
    Ensures (Target.part inner j) fun t => t.height ≤ seen .whole j := by
  rw [Json.seen_whole]
  refine (Json.tagged?_ensures _ _ j).bind fun r hr => ?_
  obtain ⟨tag, body⟩ := r
  obtain ⟨hbody, hj⟩ := hr
  have record := Json.record?_whole hbody
  have expr {part : Option Json} (h : Within j.depth .whole part) :=
    h.tree (Expr.height_le_of_part true)
  dsimp only
  split
  case h_1 =>
    refine (record _).bind fun parts hp => ?_
    split
    · exact Ensures.any.bind fun x _ => .pure hj
    · exact .none
  case h_2 =>
    refine (record _).bind fun parts hp => ?_
    split
    · obtain ⟨ho, -⟩ := hp
      exact (expr ho).bind fun o ho => Ensures.any.bind fun x _ => .pure ho
    · exact .none
  case h_3 =>
    refine (record _).bind fun parts hp => ?_
    split
    · obtain ⟨ho, hi, -⟩ := hp
      exact (expr ho).bind fun o ho => (expr hi).bind fun i hi =>
        .pure (by simp only [Target.height]; omega)
    · exact .none
  case h_4 =>
    refine Json.bare_ensures ?_ body
    exact hj
  case h_5 => exact .none

theorem Slot.height_le_of_ofJson? (j : Json) :
    Ensures (Slot.ofJson? j) fun s => 1 + s.target.height ≤ seen .whole j := by
  rw [Json.seen_whole]
  refine (Json.record?_whole (Nat.le_refl _) _).bind fun parts hp => ?_
  split
  · obtain ⟨ht, -⟩ := hp
    exact (ht.tree (Target.height_le_of_part true)).bind fun t ht =>
      Ensures.any.bind fun b _ => .pure ht
  · exact .none

/-! ### Statements and functions that were read -/

mutual

theorem Stmt.height_le_of_decode (n : Nat) (inner : Bool) (j : Json) :
    Ensures (Stmt.decode n inner j) fun s => s.height ≤ seen .whole j := by
  rw [Json.seen_whole]
  cases n with
  | zero => exact .none
  | succ n =>
    rw [Stmt.decode]
    refine (Json.tagged?_ensures _ _ j).bind fun r hr => ?_
    obtain ⟨tag, body⟩ := r
    obtain ⟨hbody, hj⟩ := hr
    have record := Json.record?_whole hbody
    have expr {part : Option Json} (h : Within j.depth .whole part) :=
      h.tree (Expr.height_le_of_part true)
    have listed {x : Json} {d : Nat} (hx : 1 + seen .whole x ≤ d) :
        Ensures (Json.listOf? (Stmt.decode n true) x) fun ss => 2 + Stmt.heightList ss ≤ d :=
      (Json.listOf?_trees rfl rfl (Stmt.height_le_of_decode n true) hx).mono fun ss hss =>
        (two_add_le_iff fun n => Stmt.heightList_le_iff).2 hss
    have block {part : Option Json} (h : Within j.depth .whole part) :
        Ensures (required (Json.listOf? (Stmt.decode n true)) part) fun ss =>
          2 + Stmt.heightList ss ≤ j.depth :=
      h.required fun x hx => listed hx
    dsimp only
    split
    -- assign
    case h_1 =>
      refine (record _).bind fun parts hp => ?_
      split
      · obtain ⟨-, he, -⟩ := hp
        exact Ensures.any.bind fun x _ => (expr he).bind fun e he => .pure he
      · exact .none
    -- assign-destructure
    case h_2 =>
      refine (record _).bind fun parts hp => ?_
      split
      · obtain ⟨hss, he, -⟩ := hp
        refine (hss.required fun x hx => Json.listOf?_trees rfl rfl Slot.height_le_of_ofJson?
          hx).bind fun ss hss => (expr he).bind fun e he => .pure ?_
        have slots := (two_add_le_iff fun n => Slot.heightList_le_iff).2 hss
        simp only [Stmt.height]
        omega
      · exact .none
    -- return
    case h_3 =>
      refine (Json.fullRecord?_whole hbody _).bind fun parts hp => ?_
      split
      · obtain ⟨hv, -⟩ := hp
        have value := hv.optionalTree Expr.heightOption rfl (fun _ => rfl)
          (Expr.height_le_of_part true)
        exact value.bind fun v hv => .pure (by simp only [Stmt.height]; omega)
      · exact .none
    -- expr
    case h_4 =>
      refine (record _).bind fun parts hp => ?_
      split
      · obtain ⟨he, -⟩ := hp
        exact (expr he).bind fun e he => .pure he
      · exact .none
    -- field-assign
    case h_5 =>
      refine (record _).bind fun parts hp => ?_
      split
      · obtain ⟨ho, -, hv, -⟩ := hp
        exact (expr ho).bind fun o ho => Ensures.any.bind fun f _ => (expr hv).bind fun v hv =>
          .pure (by simp only [Stmt.height]; omega)
      · exact .none
    -- index-assign
    case h_6 =>
      refine (record _).bind fun parts hp => ?_
      split
      · obtain ⟨ho, hi, hv, -⟩ := hp
        exact (expr ho).bind fun o ho => (expr hi).bind fun i hi => (expr hv).bind fun v hv =>
          .pure (by simp only [Stmt.height]; omega)
      · exact .none
    -- if
    case h_7 =>
      refine (record _).bind fun parts hp => ?_
      split
      · obtain ⟨hc, hthn, hels, -⟩ := hp
        exact (expr hc).bind fun c hc => (block hthn).bind fun thn hthn => (block hels).bind
          fun els hels => .pure (by simp only [Stmt.height]; omega)
      · exact .none
    -- while
    case h_8 =>
      refine (record _).bind fun parts hp => ?_
      split
      · obtain ⟨hc, hss, -⟩ := hp
        exact (expr hc).bind fun c hc => (block hss).bind fun ss hss =>
          .pure (by simp only [Stmt.height]; omega)
      · exact .none
    -- for
    case h_9 =>
      refine (record _).bind fun parts hp => ?_
      split
      · obtain ⟨-, hit, hss, hels, -⟩ := hp
        have els := hels.optional (P := fun els => Stmt.heightOption els ≤ j.depth - 1)
          (Nat.zero_le _) fun x hx => (listed hx).mono fun ss hss => by
            simp only [Stmt.heightOption]
            omega
        exact Ensures.any.bind fun x _ => (expr hit).bind fun it hit => (block hss).bind
          fun ss hss => els.bind fun els hels => .pure (by simp only [Stmt.height]; omega)
      · exact .none
    -- pass, break, continue
    case h_10 | h_13 | h_14 =>
      refine Json.bare_ensures ?_ body
      exact hj
    -- nonlocal, global
    case h_11 | h_12 =>
      refine (record _).bind fun parts hp => ?_
      split
      · exact Ensures.any.bind fun x _ => .pure hj
      · exact .none
    -- closure
    case h_15 =>
      refine (record _).bind fun parts hp => ?_
      split
      · obtain ⟨hf, -⟩ := hp
        exact (hf.tree (FunDef.height_le_of_decode n true (.inl rfl))).bind fun f hf => .pure hf
      · exact .none
    case h_16 => exact .none

theorem FunDef.height_le_of_decode (n : Nat) (inner : Bool) {s : Shape}
    (hs : s.Covers FunDef.shape) (j : Json) :
    Ensures (FunDef.decode n inner j) fun f => f.height ≤ seen s j := by
  cases n with
  | zero => exact .none
  | succ n =>
    -- of the parameters and of the variables all or a part is looked at
    have record : ∃ params inits span, params.Covers (.list Param.shape) ∧
        inits.Covers (.list VarInit.shape) ∧
        s.Record ["name", "params", "ret", "inits", "body", "span"]
          [.whole, params, .whole, inits, .whole, span] := by
      rcases hs with rfl | rfl
      · exact ⟨.whole, .whole, .whole, .inl rfl, .inl rfl, Json.Shape.record_whole _⟩
      · exact ⟨.list Param.shape, .list VarInit.shape, Span.shape, .inr rfl, .inr rfl, rfl,
          ⟨rfl, rfl, rfl, rfl, rfl, rfl, trivial⟩, ⟨rfl, rfl, rfl, rfl, rfl, rfl, trivial⟩⟩
    obtain ⟨sp, si, ss, hsp, hsi, record⟩ := record
    rw [FunDef.decode]
    refine (Json.record?_ensures record j).bind fun parts hp => ?_
    split
    · obtain ⟨-, hps, hret, hvs, hbody, -⟩ := hp
      refine Ensures.any.bind fun name _ => (hps.required fun x hx => Json.listOf?_covers hsp
        (fun h => Param.height_le_of_part h inner) hx).bind fun ps hps => ?_
      have params := (two_add_le_iff fun n => Json.depthItems_map_le_iff).2 hps
      refine (hret.tree (Ty.height_le_of_part inner)).bind fun ret hret =>
        (hvs.defaulted ⟨hps.1, by simp⟩ fun x hx => Json.listOf?_covers hsi
          (fun h => VarInit.height_le_of_part h inner) hx).bind fun vs hvs => ?_
      have inits := (two_add_le_iff fun n => Json.depthItems_map_le_iff).2 hvs
      refine (hbody.required fun x hx => Json.listOf?_trees rfl rfl
        (Stmt.height_le_of_decode n inner) hx).bind fun body hbody =>
          Ensures.any.bind fun span _ => .pure ?_
      have block := (two_add_le_iff fun n => Stmt.heightList_le_iff).2 hbody
      simp only [FunDef.height]
      omega
    · exact .none

end

theorem FunDef.height_le_of_ofJson? {s : Shape} (hs : s.Covers FunDef.shape) (j : Json) :
    Ensures (FunDef.ofJson? j) fun f => f.height ≤ seen s j :=
  FunDef.height_le_of_decode j.depth false hs j

/-! ### Programs that were read -/

/-- A class can be written with `n` levels. -/
structure ClassDef.Fits (n : Nat) (c : ClassDef) : Prop where
  levels : 2 ≤ n
  fields : ∀ v ∈ c.fields, 2 + v.toJson.depth ≤ n
  methods : ∀ m ∈ c.methods, 2 + m.height ≤ n

/-- A program can be written with `n` levels. -/
structure Program.Fits (n : Nat) (p : Program) : Prop where
  levels : 1 ≤ n
  funs : ∀ f ∈ p.funs, 2 + f.height ≤ n
  classes : ∀ c ∈ p.classes, ∃ k, 2 + k ≤ n ∧ c.Fits k
  inits : ∀ v ∈ p.inits, 2 + v.toJson.depth ≤ n
  stmts : ∀ s ∈ p.stmts, 2 + s.height ≤ n

theorem ClassDef.fits_of_ofJson? (j : Json) :
    Ensures (ClassDef.ofJson? j) fun c => c.Fits (seen ClassDef.shape j) := by
  have record : ClassDef.shape.Record ["name", "fields", "methods"]
      [.whole, .list VarInit.shape, .list FunDef.shape] :=
    ⟨rfl, ⟨rfl, rfl, rfl, trivial⟩, ⟨rfl, rfl, rfl, trivial⟩⟩
  refine (Json.record?_ensures record j).bind fun parts hp => ?_
  split
  · obtain ⟨-, hvs, hms, -⟩ := hp
    exact Ensures.any.bind fun name _ => (hvs.required fun x hx => Json.listOf?_covers (.inr rfl)
      (fun h => VarInit.height_le_of_part h false) hx).bind fun vs hvs =>
        (hms.required fun x hx => Json.listOf?_covers (.inr rfl) FunDef.height_le_of_ofJson?
          hx).bind fun ms hms => .pure ⟨hvs.1, hvs.2, hms.2⟩
  · exact .none

/-- **A program fits into the levels that were looked at when it was read.** -/
theorem Program.fits_of_ofJson? (j : Json) :
    Ensures (Program.ofJson? j) fun p => p.Fits (seen Program.shape j) := by
  have record : Program.shape.Record ["funs", "classes", "inits", "stmts"]
      [.list FunDef.shape, .list ClassDef.shape, .list VarInit.shape, .whole] :=
    ⟨rfl, ⟨rfl, rfl, rfl, rfl, trivial⟩, ⟨rfl, rfl, rfl, rfl, trivial⟩⟩
  generalize hd : seen Program.shape j = d
  have start : Ensures (j.record? ["funs", "classes", "inits", "stmts"]) fun parts => 1 ≤ d ∧
      AllWithin d [.list FunDef.shape, .list ClassDef.shape, .list VarInit.shape, .whole]
        parts := by
    subst hd
    exact (Json.one_le_of_record? rfl j).and (Json.record?_ensures record j)
  refine start.bind fun parts hp => ?_
  split
  · obtain ⟨levels, hfs, hcs, hvs, hss, -⟩ := hp
    have funs := hfs.defaulted (a := []) (P := fun fs => ∀ f ∈ fs, 2 + FunDef.height f ≤ d)
      (by simp) fun x hx =>
        (Json.listOf?_covers (.inr rfl) FunDef.height_le_of_ofJson? hx).mono fun _ h => h.2
    have classes := hcs.defaulted (a := [])
      (P := fun cs => ∀ c ∈ cs, ∃ k, 2 + k ≤ d ∧ ClassDef.Fits k c) (by simp) fun x hx => by
        refine (Json.listOf?_ensures (s := .list ClassDef.shape) rfl rfl x fun y hy =>
          (ClassDef.fits_of_ofJson? y).mono fun c hc => ⟨seen ClassDef.shape y, ?_, hc⟩).mono
            fun _ h => h.2
        change 1 + seen ClassDef.shape y ≤ _ at hy
        omega
    have inits := hvs.defaulted (a := [])
      (P := fun vs => ∀ v ∈ vs, 2 + (VarInit.toJson v).depth ≤ d) (by simp) fun x hx =>
        (Json.listOf?_covers (.inr rfl) (fun h => VarInit.height_le_of_part h false) hx).mono
          fun _ h => h.2
    have stmts := hss.defaulted (a := []) (P := fun ss => ∀ s ∈ ss, 2 + Stmt.height s ≤ d)
      (by simp) fun x hx => (Json.listOf?_trees rfl rfl
        (fun j => Stmt.height_le_of_decode j.depth false j) hx).mono fun _ h => h.2
    exact funs.bind fun fs hfs => classes.bind fun cs hcs => inits.bind fun vs hvs =>
      stmts.bind fun ss hss => .pure ⟨levels, hfs, hcs, hvs, hss⟩
  · exact .none

end FlatClosure

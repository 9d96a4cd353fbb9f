import FlatClosure.Proofs.Lifting

/-!
# Where closures stand

The traversal of closure conversion may replace any statement by several ones, so it never asks
where a closure stands.  Here the same conversion goes through a function in two levels: in a block,
the closures among the statements are lifted; a statement on its own is rebuilt, and a closure that
is met in this way is refused as misplaced.

* `convertByBlocks_eq` : **no closure is ever misplaced**, since the conversion by blocks does the
  same as `convert`, errors included.
* `message_ne_misplaced` : no error of the conversion reads like that of a misplaced closure.
-/

namespace FlatClosure

variable {α β : Type}

/-- Why the conversion by blocks fails. -/
inductive Refusal where
  | error (e : ConversionError)
  /-- A closure that is not a statement of a block. -/
  | misplaced (closure : String)

/-- The refusal in words. -/
def Refusal.message : Refusal → String
  | .error e => e.message
  | .misplaced f => "internal error: closure `" ++ f ++ "` outside a statement list"

/-- A step of the conversion by blocks. -/
abbrev BlockM := StateT Lifting (Except Refusal)

/-- A step of the conversion that does not depend on blocks. -/
def inBlocks (act : ConvertM α) : BlockM α := fun st => (act.run st).mapError .error

@[simp] theorem inBlocks_pure (a : α) : inBlocks (pure a) = pure a := rfl

theorem inBlocks_bind (act : ConvertM α) (next : α → ConvertM β) :
    inBlocks (act >>= next) = inBlocks act >>= fun a => inBlocks (next a) := by
  funext st
  change ((act >>= next).run st).mapError Refusal.error =
    (act.run st).mapError Refusal.error >>= fun as => ((next as.1).run as.2).mapError Refusal.error
  rw [StateT.run_bind]
  cases act.run st <;> rfl

/-! ### One function -/

section Function

variable (H : Host)

mutual

/-- Convert a statement on its own. -/
def Stmt.convertAlone : Stmt → BlockM Stmt
  | .assign x v => do
    let v ← inBlocks (v.fold H.folder)
    let x ← inBlocks (H.folder.write x)
    return .assign x v
  | .unpack slots v => do
    let v ← inBlocks (v.fold H.folder)
    let slots ← inBlocks (Slot.foldList H.folder slots)
    return .unpack slots v
  | .ret v => do
    let v ← inBlocks (Expr.foldOption H.folder v)
    return .ret v
  | .expr e => do
    let e ← inBlocks (e.fold H.folder)
    return .expr e
  | .setField o f v => do
    let o ← inBlocks (o.fold H.folder)
    let v ← inBlocks (v.fold H.folder)
    return .setField o f v
  | .setIndex o i v => do
    let o ← inBlocks (o.fold H.folder)
    let i ← inBlocks (i.fold H.folder)
    let v ← inBlocks (v.fold H.folder)
    return .setIndex o i v
  | .ifElse c thn els => do
    let c ← inBlocks (c.fold H.folder)
    let thn ← Stmt.convertBlock thn
    let els ← Stmt.convertBlock els
    return .ifElse c thn els
  | .whileLoop c body => do
    let c ← inBlocks (c.fold H.folder)
    let body ← Stmt.convertBlock body
    return .whileLoop c body
  | .forEach x it body els => do
    let it ← inBlocks (it.fold H.folder)
    let x ← inBlocks (H.folder.write x)
    let body ← Stmt.convertBlock body
    let els ← Stmt.convertElse els
    return .forEach x it body els
  | .closure f => throw (.misplaced f.name)
  | s => return s

/-- Convert a block, where closures are lifted. -/
def Stmt.convertBlock : List Stmt → BlockM (List Stmt)
  | [] => return []
  | .closure f :: ss => do
    let stmts ← inBlocks (liftClosure H.names H.globals H.func.params f)
    let ss ← Stmt.convertBlock ss
    return stmts ++ ss
  | s :: ss => do
    let s ← s.convertAlone
    let ss ← Stmt.convertBlock ss
    return s :: ss

/-- Convert a block that may be missing. -/
def Stmt.convertElse : Option (List Stmt) → BlockM (Option (List Stmt))
  | none => return none
  | some ss => do
    let ss ← Stmt.convertBlock ss
    return some ss

end

theorem replaceOr_none (act : ConvertM α) : replaceOr (pure none) act = act := rfl

theorem Stmt.fold_closure (f : FunDef) :
    (Stmt.closure f).fold H.folder = liftClosure H.names H.globals H.func.params f := by
  have lifts : H.folder.stmt (.closure f) =
      (do let stmts ← liftClosure H.names H.globals H.func.params f; return some stmts) := rfl
  rw [Stmt.fold, lifts, replaceOr, bind_assoc]
  simp only [pure_bind, bind_pure]

theorem Stmt.convertBlock_cons {s : Stmt} (hs : ∀ f, s ≠ .closure f) (ss : List Stmt) :
    Stmt.convertBlock H (s :: ss) =
      (do let s ← s.convertAlone H; let ss ← Stmt.convertBlock H ss; return s :: ss) := by
  cases s with
  | closure f => exact absurd rfl (hs f)
  | _ => rfl

mutual

theorem Stmt.convertAlone_eq (s : Stmt) (hs : ∀ f, s ≠ .closure f) :
    (do let s ← s.convertAlone H; return [s]) = inBlocks (s.fold H.folder) := by
  -- the traversal replaces closures only
  have kept : H.folder.stmt s = pure none := by
    cases s with
    | closure f => exact absurd rfl (hs f)
    | _ => rfl
  cases s with
  | closure f => exact absurd rfl (hs f)
  | ifElse c thn els =>
    rw [Stmt.fold, kept, replaceOr_none]
    simp only [Stmt.convertAlone, inBlocks_bind, inBlocks_pure, bind_assoc, pure_bind,
      Stmt.convertBlock_eq]
  | whileLoop c body =>
    rw [Stmt.fold, kept, replaceOr_none]
    simp only [Stmt.convertAlone, inBlocks_bind, inBlocks_pure, bind_assoc, pure_bind,
      Stmt.convertBlock_eq]
  | forEach x it body els =>
    rw [Stmt.fold, kept, replaceOr_none]
    simp only [Stmt.convertAlone, inBlocks_bind, inBlocks_pure, bind_assoc, pure_bind,
      Stmt.convertBlock_eq, Stmt.convertElse_eq]
  | _ =>
    rw [Stmt.fold, kept, replaceOr_none]
    simp only [Stmt.convertAlone, inBlocks_bind, inBlocks_pure, bind_assoc, pure_bind]

theorem Stmt.convertBlock_eq (ss : List Stmt) :
    Stmt.convertBlock H ss = inBlocks (Stmt.foldList H.folder ss) := by
  cases ss with
  | nil => rfl
  | cons s ss =>
    have rest := Stmt.convertBlock_eq ss
    by_cases hs : ∃ f, s = .closure f
    · obtain ⟨f, rfl⟩ := hs
      rw [Stmt.foldList, Stmt.fold_closure, Stmt.convertBlock, rest]
      simp only [inBlocks_bind, inBlocks_pure]
    · have hs : ∀ f, s ≠ .closure f := fun f e => hs ⟨f, e⟩
      rw [Stmt.foldList, inBlocks_bind, ← Stmt.convertAlone_eq s hs, Stmt.convertBlock_cons H hs,
        rest]
      simp only [inBlocks_bind, inBlocks_pure, bind_assoc, pure_bind, List.singleton_append]

theorem Stmt.convertElse_eq (els : Option (List Stmt)) :
    Stmt.convertElse H els = inBlocks (Stmt.foldOption H.folder els) := by
  cases els with
  | none => rfl
  | some ss => rw [Stmt.convertElse, Stmt.foldOption, inBlocks_bind, Stmt.convertBlock_eq]; rfl

end

end Function

/-! ### Programs -/

/-- Lift the closures of a function, block by block. -/
def convertFunByBlocks (names : Conventions) (globals : List String) (f : FunDef) :
    BlockM FunDef := do
  modify fun state => { state with inits := f.inits }
  let body ← Stmt.convertBlock ⟨names, globals, f⟩ f.body
  return { f with body, inits := (← get).inits }

/-- Closure conversion, block by block. -/
def convertByBlocks (names : Conventions) (p : Program) :
    Except Refusal (Program × Artifacts) :=
  match (methodError? p.classes).or (topLevelError? p.stmts) with
  | some e => .error (.error e)
  | none => do
    let (funs, state) ← (p.funs.mapM (convertFunByBlocks names p.globalNames)).run {}
    return ({ p with funs, classes := p.classes ++ state.lifted.map (·.cls) },
      .ofLifted state.lifted)

theorem convertFunByBlocks_eq (names : Conventions) (globals : List String) (f : FunDef) :
    convertFunByBlocks names globals f = inBlocks (convertFun names globals f) := by
  rw [convertFunByBlocks, convertFun, inBlocks_bind]
  simp only [inBlocks_bind, Stmt.convertBlock_eq]
  rfl

theorem mapM_convertFunByBlocks (names : Conventions) (globals : List String) (fs : List FunDef) :
    fs.mapM (convertFunByBlocks names globals) = inBlocks (fs.mapM (convertFun names globals)) := by
  induction fs with
  | nil => rfl
  | cons f fs ih =>
    simp only [List.mapM_cons, ih, convertFunByBlocks_eq, inBlocks_bind, inBlocks_pure]

/-- **No closure is misplaced.**  The conversion by blocks has the same answers as `convert`. -/
theorem convertByBlocks_eq (names : Conventions) (p : Program) :
    convertByBlocks names p = (convert names p).mapError .error := by
  rw [convertByBlocks, convert]
  cases (methodError? p.classes).or (topLevelError? p.stmts) with
  | some e => rfl
  | none =>
    rw [mapM_convertFunByBlocks]
    change ((p.funs.mapM (convertFun names p.globalNames)).run {}).mapError Refusal.error >>= _ = _
    cases (p.funs.mapM (convertFun names p.globalNames)).run {} <;> rfl

theorem append_ne_append_of_take {a b c d : String} (n : Nat) (ha : n ≤ a.toList.length)
    (hc : n ≤ c.toList.length) (h : a.toList.take n ≠ c.toList.take n) : a ++ b ≠ c ++ d := by
  intro e
  have e := congrArg (fun s => s.toList.take n) e
  simp only [String.toList_append, List.take_append_of_le_length ha,
    List.take_append_of_le_length hc] at e
  exact h e

/-- No error of the conversion reads like the refusal of a misplaced closure. -/
theorem message_ne_misplaced (e : ConversionError) (f : String) :
    e.message ≠ (Refusal.misplaced f).message := by
  -- Up to its first argument, every message differs from that of the refusal.
  delta ConversionError.message Refusal.message
  cases e <;> simp only [String.append_assoc] <;>
    exact append_ne_append_of_take 17 (by decide +kernel) (by decide +kernel) (by decide +kernel)

end FlatClosure

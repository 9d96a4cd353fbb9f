import FlatClosure.Syntax.Decode
import FlatClosure.Syntax.Encode

/-!
# Reading back what was written

The JSON form of a tree is read back as the tree.  A reader of a recursive node is given a bound on
the nesting of its JSON form; it reads back every tree whose form keeps to the bound, inside a
tagged node and outside one.

* `Ty.decode_toJson`, `Expr.decode_toJson`, `Stmt.decode_toJson`, `FunDef.decode_toJson` : trees
  within the bound.
* `Program.ofJson?_toJson` : **whole programs.**
-/

namespace FlatClosure

open Json (required defaulted optional)

variable {α β : Type}

/-! ### Nesting -/

namespace Json

@[simp] theorem depth_arr (js : List Json) : (arr js).depth = 1 + depthItems js := rfl

@[simp] theorem depth_obj (fs : List (String × Json)) : (obj fs).depth = 1 + depthFields fs := rfl

@[simp] theorem depth_node (tag : String) (parts : List (String × Json)) :
    (node tag parts).depth = 1 + depthFields parts := by
  change 1 + max 0 (depthFields parts) = _
  rw [Nat.zero_max]

theorem depthItems_le_iff {js : List Json} {n : Nat} :
    depthItems js ≤ n ↔ ∀ j ∈ js, j.depth ≤ n := by
  induction js with
  | nil => simp [depthItems]
  | cons j js ih => rw [depthItems, Nat.max_le, ih, List.forall_mem_cons]

theorem depthFields_le_iff {fs : List (String × Json)} {n : Nat} :
    depthFields fs ≤ n ↔ ∀ f ∈ fs, f.2.depth ≤ n := by
  induction fs with
  | nil => simp [depthFields]
  | cons f fs ih => rw [depthFields, Nat.max_le, ih, List.forall_mem_cons]

end Json

/-! ### Readers -/

/-- A reader whose first step reads `a` reads what the rest of it makes of `a`. -/
theorem andThen {x : Option α} {f : α → Option β} {a : α} {b : β} (hx : x = some a)
    (hf : f a = some b) : (x >>= f) = some b := by
  subst hx
  exact hf

theorem mapM_toJson {f : Json → Option α} {g : α → Json} {as : List α}
    (h : ∀ a ∈ as, f (g a) = some a) : (as.map g).mapM f = some as := by
  induction as with
  | nil => rfl
  | cons a as ih =>
    obtain ⟨ha, has⟩ := List.forall_mem_cons.1 h
    rw [List.map_cons, List.mapM_cons]
    exact andThen ha (andThen (ih has) rfl)

theorem required_some (f : Json → Option α) (j : Json) : required f (some j) = f j := rfl

theorem defaulted_some (d : α) (f : Json → Option α) (j : Json) : defaulted d f (some j) = f j :=
  rfl

theorem optional_of_ne_null {f : Json → Option α} {j : Json} (h : j ≠ .null) :
    optional f (some j) = (f j).map some := by
  cases j with
  | null => exact absurd rfl h
  | _ => rfl

/-! ### Scalars -/

theorem int64?_toInt (n : Int64) : Json.int64? (.int n.toInt) = some n := by
  have fits : Int64.minValue.toInt ≤ n.toInt ∧ n.toInt ≤ Int64.maxValue.toInt :=
    ⟨Int64.le_iff_toInt_le.1 (Int64.minValue_le n), Int64.le_iff_toInt_le.1 (Int64.le_maxValue n)⟩
  rw [Json.int64?, if_pos fits, Int64.ofInt_toInt]

theorem uint32?_toNat (n : UInt32) : Json.uint32? (.int n.toNat) = some n := by
  have fits : 0 ≤ (n.toNat : Int) ∧ (n.toNat : Int) < UInt32.size :=
    ⟨Int.natCast_nonneg _, Int.ofNat_lt.2 n.toNat_lt⟩
  rw [Json.uint32?, if_pos fits, Int.toNat_natCast, UInt32.ofNat_toNat]

theorem UnaryOp.part_word (inner : Bool) (op : UnaryOp) :
    UnaryOp.part inner (.str op.word) = some op := by
  cases op <;> rfl

theorem BinaryOp.part_word (inner : Bool) (op : BinaryOp) :
    BinaryOp.part inner (.str op.word) = some op := by
  cases op <;> rfl

theorem Collection.ofJson?_word (kind : Collection) :
    Collection.ofJson? (.str kind.word) = some kind := by
  cases kind <;> rfl

theorem Span.ofJson?_toJson (s : Span) : Span.ofJson? s.toJson = some s := by
  have word (n : UInt32) : required Json.uint32? (some (.int n.toNat)) = some n := by
    rw [required_some, uint32?_toNat]
  exact andThen rfl (andThen (word s.file) (andThen (word s.start) (andThen (word s.stop) rfl)))

theorem Span.part_toJson (s : Span) : Span.part (some s.toJson) = some s := by
  rw [Span.part, defaulted_some, s.ofJson?_toJson]

/-! ### Types and literals -/

mutual

theorem Ty.decode_toJson (t : Ty) {n : Nat} (h : t.toJson.depth ≤ n) (inner : Bool) :
    Ty.decode n inner t.toJson = some t := by
  cases n with
  | zero => cases t <;> simp [Ty.toJson] at h
  | succ n =>
    cases t with
    | int | bool | str | none | object => rfl
    | cls name => exact andThen rfl (andThen rfl rfl)
    | list elem =>
      simp only [Ty.toJson, Json.depth_node, Json.depthFields] at h
      exact andThen rfl (andThen rfl (andThen (elem.decode_toJson (by omega) true) rfl))
    | callable params ret =>
      simp only [Ty.toJson, Json.depth_node, Json.depthFields, Json.depth_arr] at h
      exact andThen rfl (andThen rfl (andThen (Ty.decode_toJsonList params (by omega))
        (andThen (ret.decode_toJson (by omega) true) rfl)))

theorem Ty.decode_toJsonList (ts : List Ty) {n : Nat}
    (h : Json.depthItems (Ty.toJsonList ts) ≤ n) :
    Json.listOf? (Ty.decode n true) (.arr (Ty.toJsonList ts)) = some ts := by
  cases ts with
  | nil => rfl
  | cons t ts =>
    simp only [Ty.toJsonList, Json.depthItems] at h
    change (t.toJson :: Ty.toJsonList ts).mapM (Ty.decode n true) = _
    rw [List.mapM_cons]
    exact andThen (t.decode_toJson (by omega) true)
      (andThen (Ty.decode_toJsonList ts (by omega)) rfl)

end

theorem Ty.part_toJson (inner : Bool) (t : Ty) : Ty.part inner t.toJson = some t :=
  t.decode_toJson (Nat.le_refl _) inner

theorem Literal.part_toJson (inner : Bool) (v : Literal) :
    Literal.part inner v.toJson = some v := by
  cases v with
  | num n => exact andThen rfl (andThen rfl (andThen (int64?_toInt n) rfl))
  | bool b => rfl
  | str s => rfl
  | none => rfl

theorem Param.part_toJson (inner : Bool) (p : Param) : Param.part inner p.toJson = some p :=
  andThen rfl (andThen rfl (andThen (Ty.part_toJson inner p.ty) rfl))

theorem VarInit.part_toJson (inner : Bool) (v : VarInit) : VarInit.part inner v.toJson = some v :=
  andThen rfl (andThen rfl (andThen (Ty.part_toJson inner v.ty)
    (andThen (Literal.part_toJson inner v.value) rfl)))

/-! ### Expressions -/

theorem Expr.toJson_ne_null (e : Expr) : e.toJson ≠ .null := by
  cases e <;> exact Json.noConfusion

mutual

theorem Expr.decode_toJson (e : Expr) {n : Nat} (h : e.toJson.depth ≤ n) (inner : Bool) :
    Expr.decode n inner e.toJson = some e := by
  cases n with
  | zero => cases e <;> simp [Expr.toJson] at h
  | succ n =>
    cases e with
    | literal v => exact andThen rfl (andThen rfl (andThen (Literal.part_toJson true v) rfl))
    | id x s | construct x s =>
      exact andThen rfl (andThen rfl (andThen rfl (andThen (Span.part_toJson s) rfl)))
    | unary op a =>
      simp only [Expr.toJson, Json.depth_node, Json.depthFields] at h
      exact andThen rfl (andThen rfl (andThen (UnaryOp.part_word true op)
        (andThen (a.decode_toJson (by omega) true) rfl)))
    | binary op l r =>
      simp only [Expr.toJson, Json.depth_node, Json.depthFields] at h
      exact andThen rfl (andThen rfl (andThen (BinaryOp.part_word true op)
        (andThen (l.decode_toJson (by omega) true)
          (andThen (r.decode_toJson (by omega) true) rfl))))
    | builtin1 f a =>
      simp only [Expr.toJson, Json.depth_node, Json.depthFields] at h
      exact andThen rfl (andThen rfl (andThen rfl (andThen (a.decode_toJson (by omega) true) rfl)))
    | builtin2 f l r =>
      simp only [Expr.toJson, Json.depth_node, Json.depthFields] at h
      exact andThen rfl (andThen rfl (andThen rfl
        (andThen (l.decode_toJson (by omega) true)
          (andThen (r.decode_toJson (by omega) true) rfl))))
    | call f args =>
      simp only [Expr.toJson, Json.depth_node, Json.depthFields, Json.depth_arr] at h
      exact andThen rfl (andThen rfl (andThen (f.decode_toJson (by omega) true)
        (andThen (Expr.decode_toJsonList args (by omega)) rfl)))
    | field o x =>
      simp only [Expr.toJson, Json.depth_node, Json.depthFields] at h
      exact andThen rfl (andThen rfl (andThen (o.decode_toJson (by omega) true) rfl))
    | index o i =>
      simp only [Expr.toJson, Json.depth_node, Json.depthFields] at h
      exact andThen rfl (andThen rfl
        (andThen (o.decode_toJson (by omega) true) (andThen (i.decode_toJson (by omega) true) rfl)))
    | methodCall o m args =>
      simp only [Expr.toJson, Json.depth_node, Json.depthFields, Json.depth_arr] at h
      exact andThen rfl (andThen rfl (andThen (o.decode_toJson (by omega) true)
        (andThen rfl (andThen (Expr.decode_toJsonList args (by omega)) rfl))))
    | list es | set es | tuple es =>
      simp only [Expr.toJson, Json.depth_node, Json.depthFields, Json.depth_arr] at h
      exact andThen rfl (andThen rfl (andThen (Expr.decode_toJsonList es (by omega)) rfl))
    | comprehension kind e x it c =>
      simp only [Expr.toJson, Json.depth_node, Json.depthFields] at h
      exact andThen rfl (andThen rfl (andThen (Collection.ofJson?_word kind)
        (andThen (e.decode_toJson (by omega) true) (andThen rfl
          (andThen (it.decode_toJson (by omega) true)
            (andThen (Expr.decode_toJsonOption c (by omega)) rfl))))))
    | ifElse c t e =>
      simp only [Expr.toJson, Json.depth_node, Json.depthFields] at h
      exact andThen rfl (andThen rfl (andThen (c.decode_toJson (by omega) true)
        (andThen (t.decode_toJson (by omega) true)
          (andThen (e.decode_toJson (by omega) true) rfl))))
    | lambda ps ty b s =>
      simp only [Expr.toJson, Json.depth_node, Json.depthFields] at h
      have params : Json.listOf? (Param.part true) (.arr (ps.map Param.toJson)) = some ps :=
        mapM_toJson fun p _ => Param.part_toJson true p
      exact andThen rfl (andThen rfl (andThen params (andThen (Ty.part_toJson true ty)
        (andThen (b.decode_toJson (by omega) true) (andThen (Span.part_toJson s) rfl)))))

theorem Expr.decode_toJsonList (es : List Expr) {n : Nat}
    (h : Json.depthItems (Expr.toJsonList es) ≤ n) :
    Json.listOf? (Expr.decode n true) (.arr (Expr.toJsonList es)) = some es := by
  cases es with
  | nil => rfl
  | cons e es =>
    simp only [Expr.toJsonList, Json.depthItems] at h
    change (e.toJson :: Expr.toJsonList es).mapM (Expr.decode n true) = _
    rw [List.mapM_cons]
    exact andThen (e.decode_toJson (by omega) true)
      (andThen (Expr.decode_toJsonList es (by omega)) rfl)

theorem Expr.decode_toJsonOption (c : Option Expr) {n : Nat}
    (h : (Expr.toJsonOption c).depth ≤ n) :
    optional (Expr.decode n true) (some (Expr.toJsonOption c)) = some c := by
  cases c with
  | none => rfl
  | some e =>
    rw [Expr.toJsonOption, optional_of_ne_null e.toJson_ne_null, e.decode_toJson h]
    rfl

end

theorem Expr.part_toJson (inner : Bool) (e : Expr) : Expr.part inner e.toJson = some e :=
  e.decode_toJson (Nat.le_refl _) inner

theorem Expr.optional_part_toJson (c : Option Expr) :
    optional (Expr.part true) (some (Expr.toJsonOption c)) = some c := by
  cases c with
  | none => rfl
  | some e =>
    rw [Expr.toJsonOption, optional_of_ne_null e.toJson_ne_null, Expr.part_toJson]
    rfl

theorem Target.part_toJson (inner : Bool) (t : Target) : Target.part inner t.toJson = some t := by
  cases t with
  | id x => rfl
  | field o x => exact andThen rfl (andThen rfl (andThen (Expr.part_toJson true o) rfl))
  | index o i =>
    exact andThen rfl (andThen rfl (andThen (Expr.part_toJson true o)
      (andThen (Expr.part_toJson true i) rfl)))
  | ignore => rfl

theorem Slot.ofJson?_toJson (s : Slot) : Slot.ofJson? s.toJson = some s :=
  andThen rfl (andThen (Target.part_toJson true s.target) rfl)

/-! ### Statements and functions -/

mutual

theorem Stmt.decode_toJson (s : Stmt) {n : Nat} (h : s.toJson.depth ≤ n) (inner : Bool) :
    Stmt.decode n inner s.toJson = some s := by
  have expr := Expr.part_toJson true
  cases n with
  | zero => cases s <;> simp [Stmt.toJson] at h
  | succ n =>
    cases s with
    | assign x v => exact andThen rfl (andThen rfl (andThen rfl (andThen (expr v) rfl)))
    | unpack slots v =>
      have targets : Json.listOf? Slot.ofJson? (.arr (slots.map Slot.toJson)) = some slots :=
        mapM_toJson fun s _ => s.ofJson?_toJson
      exact andThen rfl (andThen rfl (andThen targets (andThen (expr v) rfl)))
    | ret v => exact andThen rfl (andThen rfl (andThen (Expr.optional_part_toJson v) rfl))
    | expr e => exact andThen rfl (andThen rfl (andThen (expr e) rfl))
    | setField o f v =>
      exact andThen rfl (andThen rfl (andThen (expr o) (andThen rfl (andThen (expr v) rfl))))
    | setIndex o i v =>
      exact andThen rfl (andThen rfl (andThen (expr o) (andThen (expr i) (andThen (expr v) rfl))))
    | ifElse c thn els =>
      simp only [Stmt.toJson, Json.depth_node, Json.depthFields, Json.depth_arr] at h
      exact andThen rfl (andThen rfl (andThen (expr c)
        (andThen (Stmt.decode_toJsonList thn (by omega) true)
          (andThen (Stmt.decode_toJsonList els (by omega) true) rfl))))
    | whileLoop c body =>
      simp only [Stmt.toJson, Json.depth_node, Json.depthFields, Json.depth_arr] at h
      exact andThen rfl (andThen rfl (andThen (expr c)
        (andThen (Stmt.decode_toJsonList body (by omega) true) rfl)))
    | forEach x it body els =>
      simp only [Stmt.toJson, Json.depth_node, Json.depthFields, Json.depth_arr] at h
      exact andThen rfl (andThen rfl (andThen rfl (andThen (expr it)
        (andThen (Stmt.decode_toJsonList body (by omega) true)
          (andThen (Stmt.decode_toJsonOption els (by omega)) rfl)))))
    | pass | breakLoop | continueLoop => rfl
    | nonlocal x | global x => exact andThen rfl (andThen rfl rfl)
    | closure f =>
      simp only [Stmt.toJson, Json.depth_node, Json.depthFields] at h
      exact andThen rfl (andThen rfl (andThen (f.decode_toJson (by omega) true) rfl))

theorem Stmt.decode_toJsonList (ss : List Stmt) {n : Nat}
    (h : Json.depthItems (Stmt.toJsonList ss) ≤ n) (inner : Bool) :
    Json.listOf? (Stmt.decode n inner) (.arr (Stmt.toJsonList ss)) = some ss := by
  cases ss with
  | nil => rfl
  | cons s ss =>
    simp only [Stmt.toJsonList, Json.depthItems] at h
    change (s.toJson :: Stmt.toJsonList ss).mapM (Stmt.decode n inner) = _
    rw [List.mapM_cons]
    exact andThen (s.decode_toJson (by omega) inner)
      (andThen (Stmt.decode_toJsonList ss (by omega) inner) rfl)

theorem Stmt.decode_toJsonOption (els : Option (List Stmt)) {n : Nat}
    (h : (Stmt.toJsonOption els).depth ≤ n) :
    optional (Json.listOf? (Stmt.decode n true)) (some (Stmt.toJsonOption els)) = some els := by
  cases els with
  | none => rfl
  | some ss =>
    simp only [Stmt.toJsonOption, Json.depth_arr] at h
    rw [Stmt.toJsonOption, optional_of_ne_null Json.noConfusion,
      Stmt.decode_toJsonList ss (by omega) true]
    rfl

theorem FunDef.decode_toJson (f : FunDef) {n : Nat} (h : f.toJson.depth ≤ n) (inner : Bool) :
    FunDef.decode n inner f.toJson = some f := by
  obtain ⟨name, params, ret, inits, body, span⟩ := f
  simp only [FunDef.toJson, Json.depth_obj, Json.depthFields, Json.depth_arr] at h
  cases n with
  | zero => omega
  | succ n =>
    have params : Json.listOf? (Param.part inner) (.arr (params.map Param.toJson)) = some params :=
      mapM_toJson fun p _ => p.part_toJson inner
    have inits : Json.listOf? (VarInit.part inner) (.arr (inits.map VarInit.toJson)) = some inits :=
      mapM_toJson fun v _ => v.part_toJson inner
    exact andThen rfl (andThen rfl (andThen params (andThen (Ty.part_toJson inner ret)
      (andThen inits (andThen (Stmt.decode_toJsonList body (by omega) inner)
        (andThen (Span.part_toJson span) rfl))))))

end

theorem Stmt.ofJson?_toJson (s : Stmt) : Stmt.ofJson? s.toJson = some s :=
  s.decode_toJson (Nat.le_refl _) false

theorem FunDef.ofJson?_toJson (f : FunDef) : FunDef.ofJson? f.toJson = some f :=
  f.decode_toJson (Nat.le_refl _) false

/-! ### Programs -/

theorem ClassDef.ofJson?_toJson (c : ClassDef) : ClassDef.ofJson? c.toJson = some c := by
  have fields : Json.listOf? VarInit.ofJson? (.arr (c.fields.map VarInit.toJson)) = some c.fields :=
    mapM_toJson fun v _ => v.part_toJson false
  have methods : Json.listOf? FunDef.ofJson? (.arr (c.methods.map FunDef.toJson)) =
      some c.methods := mapM_toJson fun f _ => f.ofJson?_toJson
  exact andThen rfl (andThen rfl (andThen fields (andThen methods rfl)))

/-- **A program is read back from its JSON form.** -/
theorem Program.ofJson?_toJson (p : Program) : Program.ofJson? p.toJson = some p := by
  have funs : Json.listOf? FunDef.ofJson? (.arr (p.funs.map FunDef.toJson)) = some p.funs :=
    mapM_toJson fun f _ => f.ofJson?_toJson
  have classes : Json.listOf? ClassDef.ofJson? (.arr (p.classes.map ClassDef.toJson)) =
      some p.classes := mapM_toJson fun c _ => c.ofJson?_toJson
  have inits : Json.listOf? VarInit.ofJson? (.arr (p.inits.map VarInit.toJson)) = some p.inits :=
    mapM_toJson fun v _ => v.part_toJson false
  have stmts : Json.listOf? Stmt.ofJson? (.arr (p.stmts.map Stmt.toJson)) = some p.stmts :=
    mapM_toJson fun s _ => s.ofJson?_toJson
  exact andThen rfl (andThen funs (andThen classes (andThen inits (andThen stmts rfl))))

end FlatClosure

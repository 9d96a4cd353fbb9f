import FlatClosure.Command.Execute
import FlatClosure.Proofs.Codec
import FlatClosure.Proofs.Levels

/-!
# Trees in text

The text that is written for a program has numbers of 64 bits only, and a reader of programs looks
at all of it.  So it is read back unless it is nested too deeply.

* `Program.toJson_plain`, `Program.covered_toJson` : numbers, and what is looked at.
* `Program.ofText?_toJson` : **a program is read back from its text** exactly if the text keeps to
  the limit on nesting.
* `trees_read_back` : trees of every kind are read back.
-/

namespace FlatClosure

open Json (Plain PlainItems PlainFields Shape seen seenItems seenFields trim trimItems trimFields)

/-! ### Numbers -/

theorem Json.plainItems_iff {js : List Json} : PlainItems js ↔ ∀ j ∈ js, j.Plain := by
  induction js with
  | nil => simp [PlainItems]
  | cons j js ih => simp [PlainItems, ih]

theorem Json.plainItems_map {α : Type} {f : α → Json} (h : ∀ a, (f a).Plain) (as : List α) :
    PlainItems (as.map f) := by
  rw [plainItems_iff]
  intro j hj
  obtain ⟨a, -, rfl⟩ := List.mem_map.1 hj
  exact h a

@[simp] theorem Json.plain_str (s : String) : (Json.str s).Plain := trivial

@[simp] theorem Json.plain_node (tag : String) (parts : List (String × Json)) :
    (Json.node tag parts).Plain ↔ PlainFields parts :=
  ⟨And.right, And.intro trivial⟩

theorem Json.plain_uint32 (n : UInt32) : (Json.int n.toNat).Plain := by
  have := n.toNat_lt
  change (n.toNat : Int).natAbs < 2 ^ 64
  omega

theorem Json.plain_int64 (n : Int64) : (Json.int n.toInt).Plain := by
  have low := n.le_toInt
  have high := n.toInt_lt
  change n.toInt.natAbs < 2 ^ 64
  omega

theorem Span.toJson_plain (s : Span) : s.toJson.Plain :=
  ⟨Json.plain_uint32 _, Json.plain_uint32 _, Json.plain_uint32 _, trivial⟩

mutual

theorem Ty.toJson_plain (t : Ty) : t.toJson.Plain := by
  cases t with
  | list elem => simp [Ty.toJson, PlainFields, elem.toJson_plain]
  | callable params ret =>
    simp [Ty.toJson, PlainFields, Plain, Ty.toJsonList_plain params, ret.toJson_plain]
  | _ => simp [Ty.toJson, PlainFields]

theorem Ty.toJsonList_plain (ts : List Ty) : PlainItems (Ty.toJsonList ts) := by
  cases ts with
  | nil => trivial
  | cons t ts => exact ⟨t.toJson_plain, Ty.toJsonList_plain ts⟩

end

theorem Literal.toJson_plain (v : Literal) : v.toJson.Plain := by
  cases v with
  | num n => simp [Literal.toJson, PlainFields, Json.plain_int64]
  | _ => simp [Literal.toJson, PlainFields, Plain]

theorem Param.toJson_plain (p : Param) : p.toJson.Plain :=
  ⟨trivial, p.ty.toJson_plain, trivial⟩

theorem VarInit.toJson_plain (v : VarInit) : v.toJson.Plain :=
  ⟨trivial, v.ty.toJson_plain, v.value.toJson_plain, trivial⟩

mutual

theorem Expr.toJson_plain (e : Expr) : e.toJson.Plain := by
  cases e with
  | literal v => simp [Expr.toJson, PlainFields, v.toJson_plain]
  | id x s | construct x s => simp [Expr.toJson, PlainFields, s.toJson_plain]
  | unary op e | builtin1 f e | field e x => simp [Expr.toJson, PlainFields, e.toJson_plain]
  | binary op l r | builtin2 f l r | index l r =>
    simp [Expr.toJson, PlainFields, l.toJson_plain, r.toJson_plain]
  | call f args | methodCall f m args =>
    simp [Expr.toJson, PlainFields, Plain, f.toJson_plain, Expr.toJsonList_plain args]
  | list es | set es | tuple es =>
    simp [Expr.toJson, PlainFields, Plain, Expr.toJsonList_plain es]
  | comprehension kind e x it c =>
    simp [Expr.toJson, PlainFields, e.toJson_plain, it.toJson_plain, Expr.toJsonOption_plain c]
  | ifElse c t e =>
    simp [Expr.toJson, PlainFields, c.toJson_plain, t.toJson_plain, e.toJson_plain]
  | lambda params ret b s =>
    simp [Expr.toJson, PlainFields, Plain, Json.plainItems_map Param.toJson_plain,
      ret.toJson_plain, b.toJson_plain, s.toJson_plain]

theorem Expr.toJsonList_plain (es : List Expr) : PlainItems (Expr.toJsonList es) := by
  cases es with
  | nil => trivial
  | cons e es => exact ⟨e.toJson_plain, Expr.toJsonList_plain es⟩

theorem Expr.toJsonOption_plain (c : Option Expr) : (Expr.toJsonOption c).Plain := by
  cases c with
  | none => trivial
  | some e => exact e.toJson_plain

end

theorem Target.toJson_plain (t : Target) : t.toJson.Plain := by
  cases t with
  | field o x => simp [Target.toJson, PlainFields, o.toJson_plain]
  | index o i => simp [Target.toJson, PlainFields, o.toJson_plain, i.toJson_plain]
  | _ => simp [Target.toJson, PlainFields]

theorem Slot.toJson_plain (s : Slot) : s.toJson.Plain :=
  ⟨s.target.toJson_plain, trivial, trivial⟩

mutual

theorem Stmt.toJson_plain (s : Stmt) : s.toJson.Plain := by
  cases s with
  | assign x e | expr e => simp [Stmt.toJson, PlainFields, e.toJson_plain]
  | unpack slots v =>
    simp [Stmt.toJson, PlainFields, Plain, Json.plainItems_map Slot.toJson_plain, v.toJson_plain]
  | ret v => simp [Stmt.toJson, PlainFields, Expr.toJsonOption_plain v]
  | setField o f v => simp [Stmt.toJson, PlainFields, o.toJson_plain, v.toJson_plain]
  | setIndex o i v =>
    simp [Stmt.toJson, PlainFields, o.toJson_plain, i.toJson_plain, v.toJson_plain]
  | ifElse c thn els =>
    simp [Stmt.toJson, PlainFields, Plain, c.toJson_plain, Stmt.toJsonList_plain thn,
      Stmt.toJsonList_plain els]
  | whileLoop c body =>
    simp [Stmt.toJson, PlainFields, Plain, c.toJson_plain, Stmt.toJsonList_plain body]
  | forEach x it body els =>
    simp [Stmt.toJson, PlainFields, Plain, it.toJson_plain, Stmt.toJsonList_plain body,
      Stmt.toJsonOption_plain els]
  | closure f => simp [Stmt.toJson, PlainFields, f.toJson_plain]
  | _ => simp [Stmt.toJson, PlainFields]

theorem Stmt.toJsonList_plain (ss : List Stmt) : PlainItems (Stmt.toJsonList ss) := by
  cases ss with
  | nil => trivial
  | cons s ss => exact ⟨s.toJson_plain, Stmt.toJsonList_plain ss⟩

theorem Stmt.toJsonOption_plain (els : Option (List Stmt)) : (Stmt.toJsonOption els).Plain := by
  cases els with
  | none => trivial
  | some ss => exact Stmt.toJsonList_plain ss

theorem FunDef.toJson_plain (f : FunDef) : f.toJson.Plain := by
  obtain ⟨name, params, ret, inits, body, span⟩ := f
  exact ⟨trivial, Json.plainItems_map Param.toJson_plain params, ret.toJson_plain,
    Json.plainItems_map VarInit.toJson_plain inits, Stmt.toJsonList_plain body,
    span.toJson_plain, trivial⟩

end

theorem ClassDef.toJson_plain (c : ClassDef) : c.toJson.Plain :=
  ⟨trivial, Json.plainItems_map VarInit.toJson_plain _, Json.plainItems_map FunDef.toJson_plain _,
    trivial⟩

theorem Program.toJson_plain (p : Program) : p.toJson.Plain :=
  ⟨Json.plainItems_map FunDef.toJson_plain _, Json.plainItems_map ClassDef.toJson_plain _,
    Json.plainItems_map VarInit.toJson_plain _, Json.plainItems_map Stmt.toJson_plain _, trivial⟩

/-! ### What is looked at -/

/-- All of a value is looked at. -/
structure Json.Covered (s : Shape) (j : Json) : Prop where
  trim : trim s j = j
  seen : seen s j = j.depth

namespace Json.Covered

theorem whole (j : Json) : Covered .whole j := ⟨trim_whole j, seen_whole j⟩

theorem list {s : Shape} {js : List Json} (h : ∀ j ∈ js, Covered s j) :
    Covered (.list s) (.arr js) := by
  have items : trimItems (.list s) js = js ∧ seenItems (.list s) js = depthItems js := by
    induction js with
    | nil => exact ⟨rfl, rfl⟩
    | cons j js ih =>
      obtain ⟨first, others⟩ := List.forall_mem_cons.1 h
      obtain ⟨trims, sees⟩ := ih others
      constructor
      · change Json.trim s j :: trimItems (.list s) js = j :: js
        rw [first.trim, trims]
      · change max (Json.seen s j) (seenItems (.list s) js) = max j.depth (depthItems js)
        rw [first.seen, sees]
  exact ⟨congrArg Json.arr items.1, congrArg (1 + ·) items.2⟩

theorem list_map {α : Type} {s : Shape} {f : α → Json} (h : ∀ a, Covered s (f a)) (as : List α) :
    Covered (.list s) (.arr (as.map f)) := by
  refine list fun j hj => ?_
  obtain ⟨a, -, rfl⟩ := List.mem_map.1 hj
  exact h a

theorem obj {s : Shape} {fs : List (String × Json)} (hs : s.isSkipped = false)
    (h : ∀ f ∈ fs, (s.field f.1).isSkipped = false ∧ Covered (s.field f.1) f.2) :
    Covered s (.obj fs) := by
  have fields : trimFields s fs = fs ∧ seenFields s fs = depthFields fs := by
    induction fs with
    | nil => exact ⟨rfl, rfl⟩
    | cons f fs ih =>
      obtain ⟨⟨looked, first⟩, others⟩ := List.forall_mem_cons.1 h
      obtain ⟨trims, sees⟩ := ih others
      constructor
      · rw [trimFields, looked, first.trim, trims]
        rfl
      · rw [seenFields, first.seen, sees]
        rfl
  refine ⟨congrArg Json.obj fields.1, ?_⟩
  rw [Json.seen, hs, fields.2]
  rfl

end Json.Covered

open Json (Covered)

theorem Span.covered_toJson (s : Span) : Covered Span.shape s.toJson := by
  refine .obj rfl ?_
  simp only [List.forall_mem_cons]
  exact ⟨⟨rfl, .whole _⟩, ⟨rfl, .whole _⟩, ⟨rfl, .whole _⟩, by simp⟩

theorem Param.covered_toJson (p : Param) : Covered Param.shape p.toJson := by
  refine .obj rfl ?_
  simp only [List.forall_mem_cons]
  exact ⟨⟨rfl, .whole _⟩, ⟨rfl, .whole _⟩, by simp⟩

theorem VarInit.covered_toJson (v : VarInit) : Covered VarInit.shape v.toJson := by
  refine .obj rfl ?_
  simp only [List.forall_mem_cons]
  exact ⟨⟨rfl, .whole _⟩, ⟨rfl, .whole _⟩, ⟨rfl, .whole _⟩, by simp⟩

theorem FunDef.covered_toJson (f : FunDef) : Covered FunDef.shape f.toJson := by
  obtain ⟨name, params, ret, inits, body, span⟩ := f
  refine .obj rfl ?_
  simp only [List.forall_mem_cons]
  exact ⟨⟨rfl, .whole _⟩, ⟨rfl, .list_map Param.covered_toJson _⟩, ⟨rfl, .whole _⟩,
    ⟨rfl, .list_map VarInit.covered_toJson _⟩, ⟨rfl, .whole _⟩, ⟨rfl, span.covered_toJson⟩, by simp⟩

theorem ClassDef.covered_toJson (c : ClassDef) : Covered ClassDef.shape c.toJson := by
  refine .obj rfl ?_
  simp only [List.forall_mem_cons]
  exact ⟨⟨rfl, .whole _⟩, ⟨rfl, .list_map VarInit.covered_toJson _⟩,
    ⟨rfl, .list_map FunDef.covered_toJson _⟩, by simp⟩

theorem Program.covered_toJson (p : Program) : Covered Program.shape p.toJson := by
  refine .obj rfl ?_
  simp only [List.forall_mem_cons]
  exact ⟨⟨rfl, .list_map FunDef.covered_toJson _⟩, ⟨rfl, .list_map ClassDef.covered_toJson _⟩,
    ⟨rfl, .list_map VarInit.covered_toJson _⟩, ⟨rfl, .whole _⟩, by simp⟩

/-! ### Text -/

theorem Program.read?_toJson (p : Program) (limit : Option Nat) :
    (Json.read? Program.shape limit (p.toJson.indented ++ "\n")).bind Program.ofJson? =
      if limit.all (p.toJson.depth ≤ ·) then some p else none := by
  rw [Json.read?_indented _ _ p.toJson_plain, p.covered_toJson.trim, p.covered_toJson.seen]
  split
  · exact p.ofJson?_toJson
  · rfl

/-- **A program is read back from its text** exactly if the text keeps to the limit on nesting. -/
theorem Program.ofText?_toJson (p : Program) :
    Program.ofText? (p.toJson.indented ++ "\n") =
      if p.toJson.depth ≤ nestingLimit then some p else none := by
  rw [Program.ofText?, p.read?_toJson]
  simp

/-- **Trees of every kind are read back from their JSON form**, and a program also from the text
of it. -/
theorem trees_read_back :
    (∀ p : Program, Program.ofJson? p.toJson = some p ∧
      (Json.read? Program.shape none (p.toJson.indented ++ "\n")).bind Program.ofJson? = some p) ∧
    (∀ c : ClassDef, ClassDef.ofJson? c.toJson = some c) ∧
    (∀ f : FunDef, FunDef.ofJson? f.toJson = some f) ∧
    (∀ s : Stmt, Stmt.ofJson? s.toJson = some s) ∧
    (∀ t : Target, Target.ofJson? t.toJson = some t) ∧
    (∀ e : Expr, Expr.ofJson? e.toJson = some e) ∧
    (∀ v : Literal, Literal.ofJson? v.toJson = some v) ∧
    (∀ t : Ty, Ty.ofJson? t.toJson = some t) ∧
    (∀ p : Param, Param.ofJson? p.toJson = some p) ∧
    (∀ v : VarInit, VarInit.ofJson? v.toJson = some v) ∧
    ∀ s : Span, Span.ofJson? s.toJson = some s :=
  ⟨fun p => ⟨p.ofJson?_toJson, p.read?_toJson none⟩, ClassDef.ofJson?_toJson,
    FunDef.ofJson?_toJson, Stmt.ofJson?_toJson, Target.part_toJson false, Expr.part_toJson false,
    Literal.part_toJson false, Ty.part_toJson false, Param.part_toJson false,
    VarInit.part_toJson false, Span.ofJson?_toJson⟩

end FlatClosure

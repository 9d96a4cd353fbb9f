import FlatClosure.Eval.Interp
import FlatClosure.Proofs.Bindings

/-!
# Steps of the evaluator

How steps are put together (`run_bind`), and what operations on values leave alone.  An operation
is `Quiet` if it neither looks at the open calls and the global variables nor changes them or the
objects, and if it runs no statement that declares a function.
-/

namespace FlatClosure

variable {α β : Type}

/-! ### Runs -/

theorem run_bind {ε σ : Type} (x : ExceptT ε (StateM σ) α) (f : α → ExceptT ε (StateM σ) β)
    (s : σ) :
    (x >>= f).run s =
      match x.run s with
      | (.ok a, t) => (f a).run t
      | (.error e, t) => (.error e, t) := by
  change ExceptT.bindCont f (x.run s).1 (x.run s).2 = _
  rcases x.run s with ⟨_ | _, t⟩ <;> rfl

/-- A step that succeeds is made of steps that succeed. -/
theorem run_bind_eq_ok {x : EvalM α} {f : α → EvalM β} {s t : Machine} {b : β} :
    (x >>= f).run s = (.ok b, t) ↔ ∃ a u, x.run s = (.ok a, u) ∧ (f a).run u = (.ok b, t) := by
  rw [run_bind]
  rcases x.run s with ⟨e | a, u⟩
  · constructor
    · intro h
      cases h
    · rintro ⟨_, _, h, -⟩
      cases h
  · constructor
    · intro h
      exact ⟨a, u, rfl, h⟩
    · rintro ⟨_, _, h, h'⟩
      cases h
      exact h'

theorem run_bind_of_ok {x : EvalM α} {f : α → EvalM β} {s t : Machine} {a : α}
    (h : x.run s = (.ok a, t)) : (x >>= f).run s = (f a).run t := by
  rw [run_bind, h]

theorem run_get_bind (f : Machine → EvalM α) (s : Machine) : (get >>= f).run s = (f s).run s := rfl

theorem run_modify_bind (g : Machine → Machine) (f : Unit → EvalM α) (s : Machine) :
    ((modify g : EvalM Unit) >>= f).run s = (f ()).run (g s) := rfl

/-- A run that succeeds prints what is there when the top-level statements end. -/
theorem Context.run_eq_ok {ctx : Context} {fuel : Nat} {o : String} :
    ctx.run fuel = .ok o ↔ ∃ u s, (ctx.runMain fuel).run {} = (.ok u, s) ∧ s.output = o := by
  rw [Context.run]
  rcases (ctx.runMain fuel).run {} with ⟨e | u, s⟩
  · constructor
    · intro h
      cases h
    · rintro ⟨_, _, h, -⟩
      cases h
  · constructor
    · intro h
      exact ⟨u, s, rfl, Except.ok.inj h⟩
    · rintro ⟨_, _, h, rfl⟩
      cases h
      rfl

/-- The same state with other calls open. -/
def Machine.withFrames (s : Machine) (fs : List Frame) : Machine := { s with frames := fs }

/-- The same state with other calls open and with other global variables, which may or may not
have got their first values. -/
def Machine.withVars (s : Machine) (fs : List Frame) (g : Bindings Value) (ready : Bool) :
    Machine :=
  { s with frames := fs, globals := g, ready := ready }

namespace Machine

variable (s : Machine) (fs gs : List Frame)

@[simp] theorem heap_withFrames : (s.withFrames fs).heap = s.heap := rfl

@[simp] theorem globals_withFrames : (s.withFrames fs).globals = s.globals := rfl

@[simp] theorem frames_withFrames : (s.withFrames fs).frames = fs := rfl

@[simp] theorem output_withFrames : (s.withFrames fs).output = s.output := rfl

@[simp] theorem withFrames_withFrames : (s.withFrames fs).withFrames gs = s.withFrames gs := rfl

end Machine

/-! ### Variables -/

namespace Frame

variable {f : Frame} {x y : String} {v : Value}

theorem get?_eq_some_iff : f.get? x = some v ↔ x ∉ f.globals ∧ f.vars.get? x = some v := by
  simp [get?, isGlobal]

theorem get?_eq_none_iff : f.get? x = none ↔ x ∈ f.globals ∨ f.vars.get? x = none := by
  by_cases h : x ∈ f.globals <;> simp [get?, isGlobal, h]

theorem hasLocal_eq : f.hasLocal x = (f.get? x).isSome := by
  by_cases h : x ∈ f.globals <;> simp [hasLocal, get?, isGlobal, h, Bindings.contains]

theorem exists_get?_of_hasLocal (h : f.hasLocal x = true) : ∃ v, f.get? x = some v :=
  Option.isSome_iff_exists.1 (hasLocal_eq ▸ h)

theorem get?_set (own : x ∉ f.globals) :
    (f.set x v).get? y = if y = x then some v else f.get? y := by
  by_cases h : y = x
  · subst h
    rw [if_pos rfl, get?_eq_some_iff]
    exact ⟨own, Bindings.get?_insert_self _ _ _⟩
  · rw [if_neg h, get?, get?, set, Bindings.get?_insert_of_ne _ h]
    rfl

end Frame

namespace Machine

variable {s : Machine} {x : String}

/-- The value of a variable of the innermost call. -/
def own? (s : Machine) (x : String) : Option Value := s.frames.head?.bind (·.get? x)

theorem lookup?_eq (p : Program) :
    s.lookup? p x = ((s.own? x).or (s.globals.get? x)).or
      (if (p.function? x).isSome then some (.function x) else none) := by
  rw [lookup?, ← own?]
  cases s.own? x with
  | some v => rfl
  | none => cases s.globals.get? x <;> rfl

theorem isVariable_eq : s.isVariable x = ((s.own? x).or (s.globals.get? x)).isSome := by
  rw [isVariable, own?, Bindings.contains]
  cases s.frames with
  | nil => rfl
  | cons f fs =>
    rw [List.head?_cons, Option.bind_some, Option.any_some, Frame.hasLocal_eq]
    cases f.get? x <;> rfl

end Machine

theorem lookup?_of_isVariable {p : Program} {s : Machine} {x : String}
    (h : s.isVariable x = false) :
    s.lookup? p x = if (p.function? x).isSome then some (.function x) else none := by
  rw [Machine.isVariable_eq, Option.isSome_eq_false_iff, Option.isNone_iff_eq_none] at h
  rw [Machine.lookup?_eq, h, Option.none_or]

theorem isVariable_of_lookup?_eq_none {p : Program} {s : Machine} {x : String}
    (h : s.lookup? p x = none) : s.isVariable x = false := by
  rw [Machine.lookup?_eq, Option.or_eq_none_iff] at h
  rw [Machine.isVariable_eq, h.1, Option.isSome_none]

/-- The states differ in the open calls below the innermost one at most, and equally many are
open. -/
structure SameTop (s s' : Machine) : Prop where
  heap : s'.heap = s.heap
  globals : s'.globals = s.globals
  output : s'.output = s.output
  ready : s'.ready = s.ready
  top : s'.frames.head? = s.frames.head?
  depth : s'.frames.length = s.frames.length

namespace SameTop

variable {s s' : Machine} (h : SameTop s s')

include h

theorem isVariable (x : String) : s'.isVariable x = s.isVariable x := by
  rw [Machine.isVariable, Machine.isVariable, h.top, h.globals]

theorem lookup? (p : Program) (x : String) : s'.lookup? p x = s.lookup? p x := by
  rw [Machine.lookup?, Machine.lookup?, h.top, h.globals]

end SameTop

theorem calleeClass?_eq_some {k : Calls} {s : Machine} {f : Expr} {c : ClassDef} :
    calleeClass? k s f = some c ↔
      ∃ x, f.id? = some x ∧ s.isVariable x = false ∧ k.ctx.program.class? x = some c := by
  rw [calleeClass?]
  cases f.id? with
  | none => simp
  | some x => cases hv : s.isVariable x <;> simp [hv]

theorem readName_run (k : Calls) (x : String) (s : Machine) :
    (readName k x).run s =
      ((s.lookup? k.ctx.program x).elim (.error (.error (.undefinedVariable x))) .ok, s) := by
  rw [readName, run_get_bind]
  cases s.lookup? k.ctx.program x <;> rfl

theorem readName_run_eq_ok {k : Calls} {s t : Machine} {x : String} {v : Value} :
    (readName k x).run s = (.ok v, t) ↔ s.lookup? k.ctx.program x = some v ∧ t = s := by
  rw [readName_run, Prod.mk.injEq, eq_comm (b := t)]
  cases s.lookup? k.ctx.program x <;> simp

theorem run_invoke {k : Calls} {s : Machine} {ref : Nat} {method : String} {args : List Value}
    {f : FunDef}
    (hf : (k.ctx.program.class? (s.heap.object ref).cls).bind (·.method? method) = some f) :
    (invoke k ref method args).run s = (k.enter f (.object ref :: args)).run s := by
  unfold invoke
  rw [run_get_bind]
  dsimp only
  rw [hf]

theorem callFunction_run {ctx : Context} {n : Nat} {f : FunDef} {args : List Value} {s : Machine}
    (harity : args.length = f.arity) (hdepth : s.frames.length < ctx.maxDepth) :
    (callFunction ctx (n + 1) f args).run s =
      (withFrame (f.frame args) (Stmt.execList (ctx.calls n) f.body) >>= flowValue).run s := by
  unfold callFunction
  rw [if_neg (not_not_intro harity), run_get_bind, if_neg (Nat.not_le.2 hdepth)]
  rfl

@[simp] theorem Frame.vars_declareGlobal (f : Frame) (x : String) :
    (f.declareGlobal x).vars = f.vars := by
  unfold Frame.declareGlobal
  split <;> rfl

theorem heap_store (s : Machine) (x : String) (v : Value) : (s.store x v).heap = s.heap := by
  rw [Machine.store]
  split
  · split <;> rfl
  · rfl

theorem store_withHeap (s : Machine) (h : Heap) (x : String) (v : Value) :
    { s with heap := h }.store x v = { s.store x v with heap := h } := by
  simp only [Machine.store]
  split
  · split <;> rfl
  · rfl

namespace Machine

/-- An assignment sets a variable of the innermost call, which then has one already or there is no
global one; or else it sets the global variable, and then the call sees none of its own. -/
theorem store_cases (s : Machine) (x : String) (v : Value) :
    (∃ f fs, s.frames = f :: fs ∧ x ∉ f.globals ∧
        s.store x v = { s with frames := f.set x v :: fs } ∧
        (s.own? x = none → s.globals.get? x = none)) ∨
      s.own? x = none ∧ s.store x v = { s with globals := s.globals.insert x v } := by
  cases hs : s.frames with
  | nil => exact .inr ⟨by simp [own?, hs], by rw [store, hs]⟩
  | cons f fs =>
    have own : s.own? x = f.get? x := by rw [own?, hs, List.head?_cons, Option.bind_some]
    rw [store, hs, own]
    by_cases h : (!f.isGlobal x && (f.hasLocal x || !s.globals.contains x)) = true
    · obtain ⟨notGlobal, place⟩ := Bool.and_eq_true_iff.1 h
      refine .inl ⟨f, fs, rfl, ?_, if_pos h, fun unseen => ?_⟩
      · simpa [Frame.isGlobal] using notGlobal
      · simpa [Frame.hasLocal_eq, unseen, Bindings.contains] using place
    · refine .inr ⟨?_, if_neg h⟩
      -- a variable that the call sees would have been changed
      refine Option.eq_none_iff_forall_ne_some.2 fun w hw => h ?_
      have notGlobal : f.isGlobal x = false := by
        simpa [Frame.isGlobal] using (Frame.get?_eq_some_iff.1 hw).1
      rw [notGlobal, Frame.hasLocal_eq, hw]
      rfl

theorem own?_set {s : Machine} {f : Frame} {fs : List Frame} {x y : String} {v : Value}
    (hs : s.frames = f :: fs) (own : x ∉ f.globals) :
    { s with frames := f.set x v :: fs }.own? y = if y = x then some v else s.own? y := by
  rw [own?, own?, hs, List.head?_cons, List.head?_cons, Option.bind_some, Option.bind_some,
    Frame.get?_set own]

/-- All other variables stay as they are. -/
theorem store_of_ne (s : Machine) {x y : String} (h : y ≠ x) (v : Value) :
    (s.store x v).own? y = s.own? y ∧ (s.store x v).globals.get? y = s.globals.get? y := by
  obtain ⟨f, fs, hs, own, stored, -⟩ | ⟨-, stored⟩ := s.store_cases x v <;> rw [stored]
  · exact ⟨by rw [own?_set hs own, if_neg h], rfl⟩
  · exact ⟨rfl, Bindings.get?_insert_of_ne _ h v⟩

end Machine

/-- A name that has been assigned to has the value. -/
theorem lookup?_store_self (p : Program) (s : Machine) (x : String) (v : Value) :
    (s.store x v).lookup? p x = some v := by
  rw [Machine.lookup?_eq]
  obtain ⟨f, fs, hs, own, stored, -⟩ | ⟨unseen, stored⟩ := s.store_cases x v
  · rw [stored, Machine.own?_set hs own, if_pos rfl, Option.some_or, Option.some_or]
  · have value : (s.store x v).globals.get? x = some v := by
      rw [stored]
      exact Bindings.get?_insert_self _ _ _
    have unseen : (s.store x v).own? x = none := by
      rw [stored]
      exact unseen
    rw [unseen, value, Option.none_or, Option.some_or]

theorem lookup?_store_of_ne (p : Program) (s : Machine) {x y : String} (h : y ≠ x) (v : Value) :
    (s.store x v).lookup? p y = s.lookup? p y := by
  rw [Machine.lookup?_eq, Machine.lookup?_eq, (s.store_of_ne h v).1, (s.store_of_ne h v).2]

/-! ### Comprehension variables -/

/-- The open calls while a comprehension variable has a value. -/
def shadowed (x : String) (v : Value) : List Frame → List Frame
  | [] => []
  | f :: fs => f.set x v :: fs

section Shadowing

variable {s : Machine} {x : String} {v w : Value} {F G : List Frame}

theorem shadowed_shadowed : shadowed x w (shadowed x v F) = shadowed x w F := by
  cases F with
  | nil => rfl
  | cons f fs => simp only [shadowed, Frame.set, Bindings.insert_insert]

theorem shadowed_eq_nil : shadowed x v F = [] ↔ F = [] := by
  cases F <;> simp [shadowed]

theorem frames_shadow : (s.shadow x v).frames = shadowed x v s.frames := by
  unfold Machine.shadow shadowed
  split <;> simp [*]

theorem shadow_shadow : (s.shadow x v).shadow x w = s.shadow x w := by
  cases hs : s.frames <;> simp only [Machine.shadow, hs, Frame.set, Bindings.insert_insert]

theorem objects_shadow : (s.shadow x v).heap.objects = s.heap.objects := by
  unfold Machine.shadow
  split <;> rfl

theorem shadow_withFrames (h : s.frames = [] ↔ G = []) :
    (s.withFrames G).shadow x v = (s.shadow x v).withFrames (shadowed x v G) := by
  cases hs : s.frames with
  | nil =>
    obtain rfl := h.1 hs
    simp only [Machine.shadow, hs]
    rfl
  | cons f fs =>
    cases G with
    | nil => cases hs.symm.trans (h.2 rfl)
    | cons g gs =>
      simp only [Machine.shadow, hs]
      rfl

theorem Frame.restore_set (f : Frame) : (f.set x v).restore x (f.vars.get? x) = f := by
  cases h : f.vars.get? x with
  | none => simp only [Frame.restore, Frame.set, Bindings.erase_insert h]
  | some u => simp only [Frame.restore, Frame.set, Bindings.insert_insert_get h]

/-- Undoing a comprehension variable gives the open calls back as they were. -/
theorem restore_shadowed {t : Machine} (hs : s.frames = F) (ht : t.frames = shadowed x v F) :
    (t.restore x (s.hidden? x)).frames = F := by
  cases F with
  | nil =>
    have ht : t.frames = [] := ht
    simp only [Machine.restore, ht]
    split <;> rfl
  | cons f fs =>
    have ht : t.frames = f.set x v :: fs := ht
    simp only [Machine.restore, Machine.hidden?, ht, hs, Frame.restore_set]

theorem objects_restore {old : Option Value} :
    (s.restore x old).heap.objects = s.heap.objects := by
  unfold Machine.restore
  split
  · rfl
  · split <;> rfl

theorem restore_withFrames {t : Machine} (hs : s.frames = F) (ht : t.frames = shadowed x v F)
    (hnil : F = [] ↔ G = []) :
    (t.withFrames (shadowed x v G)).restore x ((s.withFrames G).hidden? x) =
      (t.restore x (s.hidden? x)).withFrames G := by
  cases F with
  | nil =>
    obtain rfl := hnil.1 rfl
    have ht : t.frames = [] := ht
    simp only [Machine.restore, Machine.hidden?, ht, hs, Machine.frames_withFrames,
      Machine.globals_withFrames, shadowed]
    cases s.globals.get? x <;> rfl
  | cons f fs =>
    cases G with
    | nil => cases hnil.2 rfl
    | cons g gs =>
      have ht : t.frames = f.set x v :: fs := ht
      simp only [Machine.restore, Machine.hidden?, ht, Machine.frames_withFrames, shadowed,
        Frame.restore_set]
      rfl

theorem run_gatherShadowing (step : EvalM (Option Value)) (v : Value) (vs : List Value) :
    (gatherShadowing x step (v :: vs)).run s =
      (((gather x step (v :: vs)).run s).1,
        ((gather x step (v :: vs)).run s).2.restore x (s.hidden? x)) := rfl

end Shadowing

/-! ### Quiet steps -/

/-- The evaluator stopped because it came to the declaration of a function. -/
def Stop.isUnconverted : Stop → Bool
  | .error (.unconvertedClosure _) => true
  | _ => false

/-- The step has nothing to do with calls, objects, global variables and declarations of
functions. -/
structure Quiet (x : EvalM α) : Prop where
  run_withVars : ∀ s fs g ready,
    x.run (s.withVars fs g ready) = ((x.run s).1, (x.run s).2.withVars fs g ready)
  objects : ∀ s, (x.run s).2.heap.objects = s.heap.objects
  converted : ∀ s e, (x.run s).1 = .error e → e.isUnconverted = false

namespace Quiet

/-- A step that always succeeds. -/
theorem modifyGet {g : Machine → α × Machine}
    (vars : ∀ s fs b ready,
      g (s.withVars fs b ready) = ((g s).1, (g s).2.withVars fs b ready))
    (objects : ∀ s, (g s).2.heap.objects = s.heap.objects) : Quiet (modifyGet g : EvalM α) where
  run_withVars s fs b ready := by
    change (Except.ok (g (s.withVars fs b ready)).1, (g (s.withVars fs b ready)).2) = _
    rw [vars]
    rfl
  objects := objects
  converted s e h := by cases h

theorem pure (a : α) : Quiet (pure a) where
  run_withVars _ _ _ _ := rfl
  objects _ := rfl
  converted _ _ h := by cases h

theorem throw (e : Stop) (h : e.isUnconverted = false) : Quiet (throw e : EvalM α) where
  run_withVars _ _ _ _ := rfl
  objects _ := rfl
  converted _ _ h' := by
    cases h'
    exact h

theorem fail (e : EvalError) (h : (Stop.error e).isUnconverted = false) :
    Quiet (fail e : EvalM α) := throw _ h

theorem bind {x : EvalM α} {f : α → EvalM β} (hx : Quiet x) (hf : ∀ a, Quiet (f a)) :
    Quiet (x >>= f) where
  run_withVars s fs g ready := by
    rw [run_bind, run_bind, hx.run_withVars]
    rcases hr : x.run s with ⟨e | a, t⟩
    · rfl
    · exact (hf a).run_withVars t fs g ready
  objects s := by
    have := hx.objects s
    rw [run_bind]
    rcases hr : x.run s with ⟨e | a, t⟩ <;> rw [hr] at this
    · exact this
    · exact ((hf a).objects t).trans this
  converted s e h := by
    have := hx.converted s
    rw [run_bind] at h
    rcases hr : x.run s with ⟨e' | a, t⟩ <;> rw [hr] at this h
    · cases h
      exact this e rfl
    · exact (hf a).converted t e h

/-- A step that looks at the state, but at no variables. -/
theorem look {f : Machine → EvalM α}
    (blind : ∀ s fs g ready, f (s.withVars fs g ready) = f s)
    (hf : ∀ s, Quiet (f s)) : Quiet (get >>= f) where
  run_withVars s fs g ready := by
    rw [run_get_bind, run_get_bind, blind]
    exact (hf s).run_withVars s fs g ready
  objects s := (hf s).objects s
  converted s := (hf s).converted s

section Variables

variable {x : EvalM α} (hx : Quiet x) (s : Machine)

include hx

/-- A quiet step leaves the variables alone. -/
theorem withVars : (x.run s).2 = (x.run s).2.withVars s.frames s.globals s.ready :=
  congrArg Prod.snd (hx.run_withVars s s.frames s.globals s.ready)

theorem frames : (x.run s).2.frames = s.frames :=
  (congrArg Machine.frames (hx.withVars s)).trans rfl

theorem globals : (x.run s).2.globals = s.globals :=
  (congrArg Machine.globals (hx.withVars s)).trans rfl

theorem ready : (x.run s).2.ready = s.ready :=
  (congrArg Machine.ready (hx.withVars s)).trans rfl

theorem run_withFrames (fs : List Frame) :
    x.run (s.withFrames fs) = ((x.run s).1, (x.run s).2.withFrames fs) := by
  have run : x.run (s.withFrames fs) =
      ((x.run s).1, (x.run s).2.withVars fs s.globals s.ready) :=
    hx.run_withVars s fs s.globals s.ready
  rw [run, ← hx.globals s, ← hx.ready s]
  rfl

end Variables

theorem typeError (expected : String) (v : Value) (operation : String) :
    Quiet (typeError expected v operation : EvalM α) :=
  .look (fun _ _ _ _ => rfl) fun _ => .fail _ rfl

theorem newList (vs : List Value) : Quiet (newList vs) :=
  .modifyGet (fun _ _ _ _ => rfl) fun _ => rfl

theorem newSet (vs : List Value) :
    Quiet (get >>= fun s => FlatClosure.newList (Value.dedup s.heap vs)) :=
  .look (fun _ _ _ _ => rfl) fun _ => .newList _

/-! ### Operations on values -/

theorem checked (operation : String) (n : Int) : Quiet (ofExcept (checked operation n)) := by
  unfold FlatClosure.checked
  split
  · exact .pure _
  · exact .fail _ rfl

theorem dividing (operation : String) (a b result : Int64) :
    Quiet (ofExcept (dividing operation a b result)) := by
  unfold FlatClosure.dividing
  split
  · exact .fail _ rfl
  · split
    · exact .pure _
    · exact .fail _ rfl

theorem power (a b : Int64) : Quiet (ofExcept (power a b)) := by
  unfold FlatClosure.power
  dsimp only
  split
  · exact .fail _ rfl
  · split
    · split
      · exact .pure _
      · split
        · exact .pure _
        · exact .fail _ rfl
    · exact .checked _ _

theorem itemsOf (v : Value) (operation : String) : Quiet (itemsOf v operation) := by
  cases v with
  | list => exact .look (fun _ _ _ _ => rfl) fun _ => .pure _
  | tuple | str => exact .pure _
  | _ => exact .typeError _ _ _

theorem applyUnary (op : UnaryOp) (v : Value) : Quiet (applyUnary op v) := by
  cases op with
  | not => exact .look (fun _ _ _ _ => rfl) fun _ => .pure _
  | neg =>
    cases v with
    | int n => exact .bind (.checked _ _) fun _ => .pure _
    | _ => exact .typeError _ _ _

theorem mismatch (op : BinaryOp) (a b : Value) : Quiet (mismatch op a b : EvalM α) :=
  .look (fun _ _ _ _ => rfl) fun _ => .fail _ rfl

theorem applyInts (op : BinaryOp) (a b : Int64) : Quiet (applyInts op a b) := by
  cases op with
  | add | sub | mul => exact .bind (.checked _ _) fun _ => .pure _
  | floorDiv | mod => exact .bind (.dividing _ _ _ _) fun _ => .pure _
  | lt | le | gt | ge => exact .pure _
  | _ => exact .mismatch _ _ _

theorem applyBinary (op : BinaryOp) (a b : Value) : Quiet (applyBinary op a b) := by
  unfold FlatClosure.applyBinary
  split
  · exact .look (fun _ _ _ _ => rfl) fun _ => .pure _
  · exact .look (fun _ _ _ _ => rfl) fun _ => .pure _
  · exact .pure _
  · exact .applyInts _ _ _
  · exact .pure _
  · exact .look (fun _ _ _ _ => rfl) fun _ => .newList _
  · exact .pure _
  · exact .pure _
  · exact .pure _
  · exact .pure _
  · exact .mismatch _ _ _

theorem lengthOf (v : Value) : Quiet (lengthOf v) := by
  cases v with
  | list => exact .look (fun _ _ _ _ => rfl) fun _ => .pure _
  | tuple | str => exact .pure _
  | _ => exact .typeError _ _ _

theorem applyBuiltin1 (name : String) (v : Value) : Quiet (applyBuiltin1 name v) := by
  unfold FlatClosure.applyBuiltin1
  split
  · exact .bind (.modifyGet (fun _ _ _ _ => rfl) fun _ => rfl) fun _ => .pure _
  · exact .bind (.lengthOf v) fun _ => .pure _
  · cases v with
    | int n => exact .bind (.checked _ _) fun _ => .pure _
    | _ => exact .typeError _ _ _
  · exact .fail _ rfl

theorem applyBuiltin2 (name : String) (a b : Value) : Quiet (applyBuiltin2 name a b) := by
  unfold FlatClosure.applyBuiltin2
  split
  · split
    · exact .pure _
    · exact .pure _
    · exact .bind (.power _ _) fun _ => .pure _
    · exact .fail _ rfl
  · exact .typeError _ _ _
  · exact .typeError _ _ _

theorem getField (v : Value) (field : String) : Quiet (getField v field) := by
  cases v with
  | object ref =>
    refine .look (fun _ _ _ _ => rfl) fun s => ?_
    dsimp only
    split
    · exact .pure _
    · exact .fail _ rfl
  | _ => exact .typeError _ _ _

theorem checkedIndex (index : Value) (length : Nat) : Quiet (checkedIndex index length) := by
  cases index with
  | int i =>
    unfold FlatClosure.checkedIndex
    dsimp only
    split
    · exact .pure _
    · exact .fail _ rfl
  | _ => exact .typeError _ _ _

theorem getIndex (v index : Value) : Quiet (getIndex v index) := by
  cases v with
  | list => exact .look (fun _ _ _ _ => rfl) fun _ => .bind (.checkedIndex _ _) fun _ => .pure _
  | tuple | str => exact .bind (.checkedIndex _ _) fun _ => .pure _
  | _ => exact .typeError _ _ _

theorem storeItem (v index w : Value) : Quiet (storeItem v index w) := by
  cases v with
  | list =>
    exact .look (fun _ _ _ _ => rfl) fun _ => .bind (.checkedIndex _ _) fun _ =>
      .modifyGet (fun _ _ _ _ => rfl) fun _ => rfl
  | _ => exact .typeError _ _ _

theorem append (ref : Nat) (item : Value) :
    Quiet (do modify fun s => { s with heap := s.heap.append ref item }; return .none :
      EvalM Value) :=
  .bind (.modifyGet (fun _ _ _ _ => rfl) fun _ => rfl) fun _ => .pure _

theorem flowValue (flow : Flow) : Quiet (flowValue flow) := by
  cases flow with
  | normal | ret => exact .pure _
  | breakLoop | continueLoop => exact .fail _ rfl

end Quiet

end FlatClosure

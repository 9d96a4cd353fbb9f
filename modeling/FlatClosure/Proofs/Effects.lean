import FlatClosure.Proofs.Laws

/-!
# What evaluation does to the state

A relation between states holds `Along` a step if it relates the states before and after the step,
whether the step succeeds or stops.

* `calm_law` : **a call, and hence an expression, leaves the open calls exactly as they were, and
  unbinds no global variable; a statement only adds to the innermost open call, and changes in it
  only the variables that it writes.**
-/

namespace FlatClosure

variable {α β : Type} {R R' : Machine → Machine → Prop}

/-- The states before and after the step are related, whatever comes out of it. -/
def Along (R : Machine → Machine → Prop) (x : EvalM α) : Prop := ∀ s, R s (x.run s).2

theorem Along.of_run {x : EvalM α} (h : Along R x) {s t : Machine} {r : Except Stop α}
    (run : x.run s = (r, t)) : R s t := by
  have := h s
  rwa [run] at this

theorem Along.mono {x : EvalM α} (h : Along R x) (le : ∀ ⦃s t⦄, R s t → R' s t) : Along R' x :=
  fun s => le (h s)

theorem Along.bind (trans : ∀ ⦃s t u⦄, R s t → R t u → R s u) {x : EvalM α} {f : α → EvalM β}
    (hx : Along R x) (hf : ∀ a, Along R (f a)) : Along R (x >>= f) := by
  intro s
  have first := hx s
  rw [run_bind]
  rcases hr : x.run s with ⟨e | a, t⟩ <;> rw [hr] at first
  · exact first
  · exact trans first (hf a t)

theorem along_stepLaw (trans : ∀ ⦃s t u⦄, R s t → R t u → R s u)
    (quiet : ∀ {α : Type} {x : EvalM α}, Quiet x → Along R x) : StepLaw (Along R) where
  quiet := quiet
  bind := .bind trans
  look _ h s := h s s

/-- A field is changed in the heap only. -/
theorem along_storeField (refl : ∀ s, R s s)
    (field : ∀ (s : Machine) (h : Heap), R s { s with heap := h }) (v : Value) (x : String)
    (w : Value) : Along R (storeField v x w) := by
  cases v with
  | object ref =>
    intro s
    unfold FlatClosure.storeField
    rw [run_get_bind]
    dsimp only
    split
    · exact field s _
    · exact refl s
  | _ => exact refl

/-- The variable that a comprehension hides comes back at the end. -/
theorem along_gatherShadowing (law : StepLaw (Along R))
    (trans : ∀ ⦃s t u⦄, R s t → R t u → R s u) {x : String}
    (shadow : ∀ v, Along R (modify (·.shadow x v)))
    (restore : ∀ old, Along R (modify (·.restore x old))) {step : EvalM (Option Value)}
    (h : Along R step) (items : List Value) : Along R (gatherShadowing x step items) := by
  intro s
  cases items with
  | nil => exact law.pure () s
  | cons v vs => exact trans (law.gather shadow h (v :: vs) s) (restore (s.hidden? x) _)

/-! ### Open calls and global variables -/

/-- The open calls are the same, and all global variables are still there. -/
def Calm (s t : Machine) : Prop :=
  t.frames = s.frames ∧ ∀ x ∈ s.globals.names, x ∈ t.globals.names

/-- The open calls differ in the innermost one only.  It has all variables that it had, those that
are not in `W` have the values that they had, and only names of `D` are declared global in
addition. -/
def Extends (W D : List String) : List Frame → List Frame → Prop
  | [], [] => True
  | f :: fs, g :: gs =>
    gs = fs ∧ (∀ x ∈ f.vars.names, x ∈ g.vars.names) ∧
      (∀ x, x ∉ W → g.vars.get? x = f.vars.get? x) ∧ ∀ x ∈ g.globals, x ∈ f.globals ∨ x ∈ D
  | _, _ => False

/-- The innermost call has only been added to, and all global variables are still there. -/
def Grows (W D : List String) (s t : Machine) : Prop :=
  Extends W D s.frames t.frames ∧ ∀ x ∈ s.globals.names, x ∈ t.globals.names

namespace Extends

variable {W D : List String} {F G H : List Frame}

theorem refl (W D : List String) (F : List Frame) : Extends W D F F := by
  cases F with
  | nil => trivial
  | cons f fs => exact ⟨rfl, fun _ h => h, fun _ _ => rfl, fun _ h => .inl h⟩

theorem trans (h : Extends W D F G) (h' : Extends W D G H) : Extends W D F H := by
  match F, G, H with
  | [], [], [] => trivial
  | f :: fs, g :: gs, k :: ks =>
    obtain ⟨rfl, names, values, globals⟩ := h
    obtain ⟨rfl, names', values', globals'⟩ := h'
    exact ⟨rfl, fun x hx => names' x (names x hx), fun x hx => (values' x hx).trans (values x hx),
      fun x hx => (globals' x hx).elim (globals x) .inr⟩
  | [], [], _ :: _ => exact h'
  | _ :: _, [], _ => exact h.elim

theorem tail {f : Frame} (h : Extends W D (f :: F) G) : G.tail = F := by
  match G with
  | [] => exact h.elim
  | g :: gs => exact h.1

theorem length_eq (h : Extends W D F G) : G.length = F.length := by
  cases F with
  | nil =>
    cases G with
    | nil => rfl
    | cons => exact h.elim
  | cons f fs =>
    cases G with
    | nil => exact h.elim
    | cons g gs => rw [List.length_cons, List.length_cons, h.1]

/-- A variable of `W` gets a value. -/
theorem set {x : String} (hx : x ∈ W) (f : Frame) (fs : List Frame) (v : Value) :
    Extends W D (f :: fs) (f.set x v :: fs) :=
  ⟨rfl, fun _ hy => Bindings.mem_names_insert.2 (.inr hy),
    fun y hy => Bindings.get?_insert_of_ne _ (fun e : y = x => hy (e ▸ hx)) v, fun _ h => .inl h⟩

end Extends

theorem Grows.refl (W D : List String) (s : Machine) : Grows W D s s := ⟨.refl W D _, fun _ h => h⟩

theorem Grows.trans {W D : List String} {s t u : Machine} (h : Grows W D s t)
    (h' : Grows W D t u) : Grows W D s u :=
  ⟨h.1.trans h'.1, fun x hx => h'.2 x (h.2 x hx)⟩

theorem Calm.refl (s : Machine) : Calm s s := ⟨rfl, fun _ h => h⟩

theorem Calm.trans {s t u : Machine} (h : Calm s t) (h' : Calm t u) : Calm s u :=
  ⟨h'.1.trans h.1, fun x hx => h'.2 x (h.2 x hx)⟩

theorem calm_initGlobals (p : Program) (s : Machine) : Calm s (s.initGlobals p) := by
  unfold Machine.initGlobals
  split
  · exact .refl s
  · exact ⟨rfl, fun x hx => Bindings.mem_names_insertAll.2 (.inl hx)⟩

theorem Quiet.calm {x : EvalM α} (h : Quiet x) : Along Calm x :=
  fun s => ⟨h.frames s, fun _ hy => (h.globals s).symm ▸ hy⟩

section Gathering

variable {x : String} {s t : Machine}

theorem mem_globals_shadow (v : Value) {y : String} (h : y ∈ s.globals.names) :
    y ∈ (s.shadow x v).globals.names := by
  unfold Machine.shadow
  split
  · exact h
  · exact Bindings.mem_names_insert.2 (.inr h)

/-- Undoing a comprehension variable unbinds nothing that was bound before. -/
theorem mem_globals_restore (frames : s.frames = [] ↔ t.frames = []) {y : String}
    (hs : y ∈ s.globals.names) (ht : y ∈ t.globals.names) :
    y ∈ (t.restore x (s.hidden? x)).globals.names := by
  unfold Machine.restore
  split
  · exact ht
  · rename_i hnil
    have hidden : s.hidden? x = s.globals.get? x := by
      rw [Machine.hidden?, frames.2 hnil]
    split
    · exact Bindings.mem_names_insert.2 (.inr ht)
    · rename_i hx
      rw [hidden] at hx
      have hne : y ≠ x := by
        rintro rfl
        exact Bindings.get?_eq_none_iff.1 hx hs
      obtain ⟨v, hv⟩ := Bindings.exists_get?_of_mem ht
      exact Bindings.mem_names_of_get? ((Bindings.get?_erase_of_ne _ hne).trans hv)

/-- While items are gathered, the open calls differ in the comprehension variable only. -/
theorem gather_shadowed {step : EvalM (Option Value)} (h : Along Calm step) (v : Value)
    (vs : List Value) (s : Machine) :
    ∃ w, ((gather x step (v :: vs)).run s).2.frames = shadowed x w s.frames ∧
      ∀ y ∈ s.globals.names, y ∈ ((gather x step (v :: vs)).run s).2.globals.names := by
  induction vs generalizing v s with
  | nil =>
    have first : Along Calm (do let r ← step; let rs ← gather x step []; return r.toList ++ rs) :=
      .bind @Calm.trans h fun r => (Quiet.pure _).calm
    obtain ⟨frames, globals⟩ := first (s.shadow x v)
    exact ⟨v, frames.trans frames_shadow, fun y hy => globals y (mem_globals_shadow v hy)⟩
  | cons v' vs ih =>
    obtain ⟨frames, globals⟩ := h (s.shadow x v)
    rw [gather, run_modify_bind, run_bind]
    rcases hr : step.run (s.shadow x v) with ⟨e | r, t⟩ <;> rw [hr] at frames globals
    · exact ⟨v, frames.trans frames_shadow, fun y hy => globals y (mem_globals_shadow v hy)⟩
    · obtain ⟨w, frames', globals'⟩ := ih v' t
      have rest : (((gather x step (v' :: vs)) >>= fun rs => pure (r.toList ++ rs) : EvalM _).run
          t).2 = ((gather x step (v' :: vs)).run t).2 := by
        rw [run_bind]
        rcases (gather x step (v' :: vs)).run t with ⟨_ | _, _⟩ <;> rfl
      refine ⟨w, ?_, fun y hy => ?_⟩
      · rw [rest, frames', frames, frames_shadow, shadowed_shadowed]
      · rw [rest]
        exact globals' y (globals y (mem_globals_shadow v hy))

/-- A comprehension leaves no trace of its variable. -/
theorem gatherShadowing_calm (x : String) {step : EvalM (Option Value)} (items : List Value)
    (h : Along Calm step) : Along Calm (gatherShadowing x step items) := by
  intro s
  cases items with
  | nil => exact .refl s
  | cons v vs =>
    obtain ⟨w, frames, globals⟩ := gather_shadowed (x := x) h v vs s
    have empty : s.frames = [] ↔ ((gather x step (v :: vs)).run s).2.frames = [] := by
      rw [frames, shadowed_eq_nil]
    exact ⟨restore_shadowed rfl frames, fun y hy => mem_globals_restore empty hy (globals y hy)⟩

end Gathering

theorem calm_evalLaw (p : Program) (ok : Effect → Prop) : EvalLaw p ok (Along Calm) where
  toStepLaw := along_stepLaw (@Calm.trans) Quiet.calm
  object _ _ := ⟨rfl, fun _ h => h⟩
  init := calm_initGlobals p
  gather x _ _ h items := gatherShadowing_calm x items h

section Statements

variable {W D : List String}

theorem grows_of_calm {s t : Machine} (h : Calm s t) : Grows W D s t :=
  ⟨h.1 ▸ .refl W D _, h.2⟩

theorem grows_store {x : String} (hx : x ∈ W) (s : Machine) (v : Value) :
    Grows W D s (s.store x v) := by
  unfold Machine.store
  split
  · rename_i f fs hs
    split
    · refine ⟨?_, fun _ h => h⟩
      rw [hs]
      exact .set hx f fs v
    · exact ⟨.refl W D _, fun y hy => Bindings.mem_names_insert.2 (.inr hy)⟩
  · exact ⟨.refl W D _, fun y hy => Bindings.mem_names_insert.2 (.inr hy)⟩

theorem grows_shadow {x : String} (hx : x ∈ W) (s : Machine) (v : Value) :
    Grows W D s (s.shadow x v) := by
  unfold Machine.shadow
  split
  · rename_i f fs hs
    refine ⟨?_, fun _ h => h⟩
    rw [hs]
    exact .set hx f fs v
  · exact ⟨.refl W D _, fun y hy => Bindings.mem_names_insert.2 (.inr hy)⟩

theorem grows_declareGlobal (s : Machine) {x : String} (hx : x ∈ D) :
    Grows W D s (s.declareGlobal x) := by
  unfold Machine.declareGlobal
  split
  · rename_i f fs hs
    refine ⟨?_, fun _ h => h⟩
    rw [hs]
    unfold Frame.declareGlobal
    split
    · exact .refl W D _
    · refine ⟨rfl, fun _ h => h, fun _ _ => rfl, fun y hy => ?_⟩
      rcases List.mem_append.1 hy with hy | hy
      · exact .inl hy
      · exact .inr (List.mem_singleton.1 hy ▸ hx)
  · exact ⟨.refl W D _, fun _ h => h⟩

end Statements

/-- The effects that make the innermost call grow in this way. -/
def Effect.Within (W D : List String) : Effect → Prop
  | .write x => x ∈ W
  | .global x => x ∈ D
  | .read _ | .bind _ | .closure _ => True

theorem grows_execLaw (p : Program) (W D : List String) :
    ExecLaw p (Effect.Within W D) (Along Calm) (Along (Grows W D)) where
  eval := calm_evalLaw p _
  block := along_stepLaw (@Grows.trans W D) fun h => h.calm.mono fun _ _ => grows_of_calm
  le h := h.mono fun _ _ => grows_of_calm
  store _ hx v s := grows_store hx s v
  declare _ hx s := grows_declareGlobal s hx
  field := along_storeField (.refl W D) fun _ _ => ⟨.refl W D _, fun _ h => h⟩
  closure _ _ := .refl W D

/-- **Open calls are kept.**  A call leaves the open calls as they were, and its statements only add
to the innermost one. -/
theorem calm_law (p : Program) :
    CallLaw p (Along Calm) (fun f => Effect.Within (f.collect written) (f.collect declaredGlobal))
      (fun _ => Along Calm)
      fun f => Along (Grows (f.collect written) (f.collect declaredGlobal)) where
  step := (calm_evalLaw p fun _ => True).toStepLaw
  exec f := grows_execLaw p _ _
  effects f _ m hm := by
    have := effects_law.holdsBlock f.body m hm
    cases m with
    | write x | global x => exact this
    | read x | bind x | closure g => trivial
  le _ _ _ h := h
  frame f args _ _ act h s := by
    obtain ⟨frames, globals⟩ := h { s with frames := f.frame args :: s.frames }
    exact ⟨frames.tail, globals⟩

theorem Context.calls_calm (ctx : Context) (n : Nat) : (ctx.calls n).Have (Along Calm) :=
  (calm_law ctx.program).callFunction n

end FlatClosure

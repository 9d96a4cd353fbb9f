import FlatClosure.Proofs.Points

/-!
# Which variables there are

Besides the global variables that the program declares, there are those that top-level statements
make: by assigning to names, and for comprehension variables.  A function makes a global variable
only if it declares the name global.

* `avoids_callLaw` : calls make no global variable that no function declares.
* `Reached.avoids` : **a name that nothing makes a global variable is none at any point of a run.**
* `BodyReaches.isVariable_iff` : which names are variables where a statement of a function starts.
-/

namespace FlatClosure

variable {x y : String} {s t : Machine}

/-- There is no global variable of that name, and no open call declares the name global. -/
structure Avoids (x : String) (s : Machine) : Prop where
  globals : x ∉ s.globals.names
  frames : ∀ f ∈ s.frames, x ∉ f.globals

namespace Avoids

/-- The variables of the innermost call may change. -/
theorem setHead (h : Avoids x s) {f g : Frame} {fs : List Frame} (hs : s.frames = f :: fs)
    (hg : x ∉ g.globals) : Avoids x { s with frames := g :: fs } where
  globals := h.globals
  frames := by
    intro k hk
    rcases List.mem_cons.1 hk with rfl | hk
    · exact hg
    · exact h.frames k (hs ▸ List.mem_cons_of_mem f hk)

theorem head (h : Avoids x s) {f : Frame} {fs : List Frame} (hs : s.frames = f :: fs) :
    x ∉ f.globals := h.frames f (hs ▸ List.mem_cons_self)

/-- Other global variables may change. -/
theorem insertGlobal (h : Avoids x s) (hy : y ≠ x) (v : Value) :
    Avoids x { s with globals := s.globals.insert y v } where
  globals hx := (Bindings.mem_names_insert.1 hx).elim (fun e => hy e.symm) h.globals
  frames := h.frames

theorem eraseGlobal (h : Avoids x s) (hy : y ≠ x) :
    Avoids x { s with globals := s.globals.erase y } where
  globals := by
    rw [← Bindings.get?_eq_none_iff, Bindings.get?_erase_of_ne _ (Ne.symm hy)]
    exact Bindings.get?_eq_none_iff.2 h.globals
  frames := h.frames

theorem shadow (h : Avoids x s) (hy : s.frames.length ≠ 0 ∨ y ≠ x) (v : Value) :
    Avoids x (s.shadow y v) := by
  unfold Machine.shadow
  split
  · rename_i f fs hs
    have hf : x ∉ f.globals := h.head hs
    exact h.setHead hs hf
  · rename_i hs
    exact h.insertGlobal (hy.resolve_left fun hne => hne (congrArg List.length hs)) v

theorem restore (h : Avoids x s) (hy : s.frames.length ≠ 0 ∨ y ≠ x) (old : Option Value) :
    Avoids x (s.restore y old) := by
  unfold Machine.restore
  split
  · rename_i f fs hs
    have hf : x ∉ f.globals := h.head hs
    refine h.setHead hs ?_
    cases old <;> exact hf
  · rename_i hs
    have hy := hy.resolve_left fun hne => hne (congrArg List.length hs)
    split
    · exact h.insertGlobal hy _
    · exact h.eraseGlobal hy

/-- Inside a call, a name that is avoided is given a variable of the call. -/
theorem store (h : Avoids x s) (hy : s.frames.length ≠ 0 ∨ y ≠ x) (v : Value) :
    Avoids x (s.store y v) := by
  unfold Machine.store
  split
  · rename_i f fs hs
    have hf : x ∉ f.globals := h.head hs
    split
    · exact h.setHead hs hf
    · -- only a name that is declared global, or has a global variable, is looked for outside
      rename_i hglobal
      refine h.insertGlobal (fun e => hglobal ?_) v
      subst e
      have notGlobal : f.isGlobal y = false := by simpa [Frame.isGlobal] using hf
      rw [notGlobal, Bindings.contains_eq_false_iff.2 h.globals]
      simp
  · rename_i hs
    exact h.insertGlobal (hy.resolve_left fun hne => hne (congrArg List.length hs)) v

theorem declareGlobal (h : Avoids x s) (hy : s.frames.length = 0 ∨ y ≠ x) :
    Avoids x (s.declareGlobal y) := by
  unfold Machine.declareGlobal
  split
  · rename_i f fs hs
    have hy : y ≠ x := hy.resolve_left fun h0 => by simp [hs] at h0
    refine h.setHead hs ?_
    unfold Frame.declareGlobal
    split
    · exact h.head hs
    · intro hx
      rcases List.mem_append.1 hx with hx | hx
      · exact h.head hs hx
      · exact hy (List.mem_singleton.1 hx).symm
  · exact h

theorem initGlobals (h : Avoids x s) {p : Program} (hp : x ∉ p.inits.map (·.name)) :
    Avoids x (s.initGlobals p) := by
  unfold Machine.initGlobals
  split
  · exact h
  · refine ⟨fun hx => ?_, h.frames⟩
    rcases Bindings.mem_names_insertAll.1 hx with hx | hx
    · exact h.globals hx
    · exact hp (by rwa [List.map_map] at hx)

end Avoids

/-! ### Along a step -/

/-- There are as many open calls as before, and the name is avoided if it was.  Only states where
the number of open calls is as `C` says count. -/
def KeepsAway (x : String) (C : Nat → Prop) (s t : Machine) : Prop :=
  t.frames.length = s.frames.length ∧ (C s.frames.length → Avoids x s → Avoids x t)

/-- The effects that keep the name away: variables are given to the innermost call if there is one,
and only then can names be declared global. -/
def Effect.Spares (x : String) (C : Nat → Prop) : Effect → Prop
  | .bind y | .write y => (∀ n, C n → n ≠ 0) ∨ y ≠ x
  | .global y => (∀ n, C n → n = 0) ∨ y ≠ x
  | .read _ | .closure _ => True

section Steps

variable {C : Nat → Prop}

namespace KeepsAway

theorem of_frames (hf : t.frames = s.frames) (hg : t.globals = s.globals) : KeepsAway x C s t :=
  ⟨congrArg List.length hf, fun _ h => ⟨hg ▸ h.globals, hf ▸ h.frames⟩⟩

theorem refl (s : Machine) : KeepsAway x C s s := .of_frames rfl rfl

theorem trans {u : Machine} (h : KeepsAway x C s t) (h' : KeepsAway x C t u) :
    KeepsAway x C s u :=
  ⟨h'.1.trans h.1, fun hs hx => h'.2 (h.1.symm ▸ hs) (h.2 hs hx)⟩

theorem mono {C' : Nat → Prop} (h : KeepsAway x C s t) (le : ∀ n, C' n → C n) :
    KeepsAway x C' s t :=
  ⟨h.1, fun hs => h.2 (le _ hs)⟩

theorem shadow (hy : (∀ n, C n → n ≠ 0) ∨ y ≠ x) (s : Machine) (v : Value) :
    KeepsAway x C s (s.shadow y v) := by
  refine ⟨?_, fun hs h => h.shadow (hy.imp_left fun hC => hC _ hs) v⟩
  rw [frames_shadow]
  cases s.frames <;> rfl

theorem restore (hy : (∀ n, C n → n ≠ 0) ∨ y ≠ x) (s : Machine) (old : Option Value) :
    KeepsAway x C s (s.restore y old) := by
  refine ⟨?_, fun hs h => h.restore (hy.imp_left fun hC => hC _ hs) old⟩
  unfold Machine.restore
  split
  · rename_i hs
    rw [hs]
    rfl
  · split <;> rfl

theorem store (hy : (∀ n, C n → n ≠ 0) ∨ y ≠ x) (s : Machine) (v : Value) :
    KeepsAway x C s (s.store y v) := by
  refine ⟨?_, fun hs h => h.store (hy.imp_left fun hC => hC _ hs) v⟩
  unfold Machine.store
  split
  · rename_i hs
    split
    · rw [hs]
      rfl
    · rfl
  · rfl

theorem declareGlobal (hy : (∀ n, C n → n = 0) ∨ y ≠ x) (s : Machine) :
    KeepsAway x C s (s.declareGlobal y) := by
  refine ⟨?_, fun hs h => h.declareGlobal (hy.imp_left fun hC => hC _ hs)⟩
  unfold Machine.declareGlobal
  split
  · rename_i hs
    rw [hs]
    rfl
  · rfl

end KeepsAway

theorem keepsAway_stepLaw : StepLaw (Along (KeepsAway x C)) :=
  along_stepLaw (fun _ _ _ => KeepsAway.trans) fun h s => .of_frames (h.frames s) (h.globals s)

theorem keepsAway_gather (hy : (∀ n, C n → n ≠ 0) ∨ y ≠ x) {step : EvalM (Option Value)}
    (h : Along (KeepsAway x C) step) (items : List Value) :
    Along (KeepsAway x C) (gather y step items) := by
  induction items with
  | nil => exact keepsAway_stepLaw.pure _
  | cons v vs ih =>
    exact keepsAway_stepLaw.bind (fun s => .shadow hy s v) fun _ =>
      keepsAway_stepLaw.bind h fun _ => keepsAway_stepLaw.bind ih fun _ => keepsAway_stepLaw.pure _

theorem keepsAway_execLaw {p : Program} (hp : x ∉ p.inits.map (·.name)) :
    ExecLaw p (Effect.Spares x C) (Along (KeepsAway x C)) (Along (KeepsAway x C)) where
  eval :=
    { keepsAway_stepLaw with
      object := fun _ _ => .of_frames rfl rfl
      init := fun s =>
        ⟨congrArg List.length (calm_initGlobals p s).1, fun _ h => h.initGlobals hp⟩
      gather := fun y hy step h items s => by
        cases items with
        | nil => exact .refl s
        | cons v vs => exact (keepsAway_gather hy h (v :: vs) s).trans (.restore hy _ _) }
  block := keepsAway_stepLaw
  le h := h
  store _ hy v s := .store hy s v
  declare _ hy s := .declareGlobal hy s
  field := along_storeField .refl fun _ _ => .of_frames rfl rfl
  closure _ _ := .refl

end Steps

/-- **Calls.**  A name that the program does not declare, and that no function or method declares
global, does not become a global variable in a call. -/
theorem avoids_callLaw {p : Program} (hp : x ∉ p.inits.map (·.name))
    (hd : ∀ f, Callable p f → x ∉ f.collect declaredGlobal) :
    CallLaw p (Along (KeepsAway x fun _ => True)) (fun _ => Effect.Spares x (· ≠ 0))
      (fun _ => Along (KeepsAway x (· ≠ 0))) fun _ => Along (KeepsAway x (· ≠ 0)) where
  step := keepsAway_stepLaw
  exec _ := keepsAway_execLaw hp
  effects f hf m hm := by
    have law := effects_law.holdsBlock f.body m hm
    cases m with
    | bind y | write y => exact .inl fun _ h => h
    | global y => exact .inr fun e => hd f hf (e ▸ law)
    | read y | closure g => trivial
  le _ _ _ h := h.mono fun _ _ h => h.mono fun _ _ => trivial
  frame f args _ _ act h s := by
    obtain ⟨length, away⟩ := h { s with frames := f.frame args :: s.frames }
    refine ⟨?_, fun _ hs => ?_⟩
    · exact List.length_tail.trans (congrArg (· - 1) length)
    · -- a call that starts has declared nothing global yet
      have opened : Avoids x { s with frames := f.frame args :: s.frames } :=
        ⟨hs.globals, List.forall_mem_cons.2 ⟨List.not_mem_nil, hs.frames⟩⟩
      have closed := away (Nat.succ_ne_zero _) opened
      exact ⟨closed.globals, fun g hg => closed.frames g (List.mem_of_mem_tail hg)⟩

/-! ### Along a run -/

/-- Nothing in the program makes a global variable of that name. -/
structure Program.NeverMakes (p : Program) (x : String) : Prop where
  inits : x ∉ p.inits.map (·.name)
  written : x ∉ Stmt.collectList FlatClosure.written p.stmts
  bound : x ∉ Stmt.collectList boundVars p.stmts
  declared : ∀ f, Callable p f → x ∉ f.collect declaredGlobal

/-- A run enters only the functions and methods of the program. -/
theorem Reached.callable {ctx : Context} {fuel n : Nat} {a : Point} (h : Reached ctx fuel n a)
    {f : FunDef} {args : List Value} (hj : a.job = .call f args) : Callable ctx.program f := by
  cases h with
  | main => cases hj
  | body => cases hj
  | step _ next => exact next.callable hj

/-- What a point must be like for the name to be avoided from there on. -/
structure AvoidsFrom (x : String) (a : Point) : Prop where
  state : Avoids x a.state
  spares : ∃ C : Nat → Prop, C a.state.frames.length ∧ ∀ m ∈ a.job.collect effects, m.Spares x C

theorem AvoidsFrom.step {k : Calls} (hk : k.Have (Along Calm)) {a b : Point}
    (hp : x ∉ k.ctx.program.inits.map (·.name))
    (away : k.Have (Along (KeepsAway x fun _ => True))) (h : AvoidsFrom x a)
    (next : Starts k a b) : AvoidsFrom x b := by
  obtain ⟨C, calls, spares⟩ := h.spares
  have away : k.Have (Along (KeepsAway x C)) := fun f hf args =>
    (away f hf args).mono fun _ _ h => h.mono fun _ _ => trivial
  have kept : KeepsAway x C a.state b.state := by
    refine next.along (keepsAway_execLaw hp) (fun _ _ _ => KeepsAway.trans) away spares
      (fun y c e vs hj s v => .shadow (spares (.bind y) ?_) s v) fun _ _ _ _ => .of_frames rfl rfl
    rw [hj]
    exact List.mem_cons_self
  refine ⟨kept.2 calls h.state, C, kept.1.symm ▸ calls, fun m hm => ?_⟩
  rcases next.mem_collect hk effects hm with hm | ⟨y, inner, scope, hm, -⟩
  · exact spares m hm
  · exact spares m (scope ▸ List.mem_cons_of_mem _ hm)

/-- **Along a run.**  What nothing makes a global variable is none at any point. -/
theorem Reached.avoids {ctx : Context} {fuel n : Nat} {a : Point} (h : Reached ctx fuel n a)
    (hx : ctx.program.NeverMakes x) : AvoidsFrom x a := by
  have law := avoids_callLaw hx.inits hx.declared
  induction h with
  | main =>
    have start : Avoids x {} := ⟨List.not_mem_nil, fun _ h => (List.not_mem_nil h).elim⟩
    refine ⟨start.initGlobals hx.inits, (· = 0), rfl, fun m hm => ?_⟩
    have top := effects_law.holdsBlock ctx.program.stmts m hm
    cases m with
    | bind y => exact .inr fun e => hx.bound (e ▸ top)
    | write y => exact .inr fun e => hx.written (e ▸ top)
    -- at the top, where no call is open, the declaration does nothing
    | global y => exact .inl fun _ h => h
    | read y | closure f => trivial
  | @step n a b _ next ih => exact ih.step (ctx.calls_calm n) hx.inits (law.callFunction n) next
  | @body n s f args call _ _ ih =>
    have opened : Avoids x (f.opened args s) :=
      ⟨ih.state.globals, List.forall_mem_cons.2 ⟨List.not_mem_nil, ih.state.frames⟩⟩
    exact ⟨opened, (· ≠ 0), Nat.succ_ne_zero _, law.effects f (call.callable rfl)⟩

/-- **Variables of a function.**  If nothing makes a global variable of the name, and the function
writes it only if it is one of its parameters and locals, then the name is a variable where a
statement of the function starts exactly if it is one of these. -/
theorem BodyReaches.isVariable_iff {ctx : Context} {fuel n : Nat} {f : FunDef} {a : Point}
    (h : BodyReaches ctx fuel f n a) (ha : a.job.isStmt = true) (hx : ctx.program.NeverMakes x)
    (hw : x ∈ f.collect written → x ∈ f.binders) :
    a.state.isVariable x = true ↔ x ∈ f.binders := by
  have noGlobal : a.state.globals.contains x = false :=
    Bindings.contains_eq_false_iff.2 (h.reached.avoids hx).state.globals
  obtain ⟨s, args, call, arity, -, path⟩ := h
  obtain ⟨g, fs, frames, names, values, globals⟩ := frame_of_path (ctx.calls_calm n) path
    (fun _ hx => hx) (fun _ hx => hx) (.inl ha)
  have notGlobal : g.isGlobal x = false := by
    simpa [Frame.isGlobal] using fun h => hx.declared f (call.callable rfl) (globals x h)
  have isLocal : a.state.isVariable x = g.vars.contains x := by
    simp [Machine.isVariable, frames, Frame.hasLocal, notGlobal, noGlobal]
  rw [isLocal, Bindings.contains_iff]
  constructor
  · intro hg
    by_cases written : x ∈ f.collect written
    · exact hw written
    · obtain ⟨v, hv⟩ := Bindings.exists_get?_of_mem hg
      have start := (values x written).symm.trans hv
      exact f.mem_binders_of_frame (Bindings.mem_names_of_get? start)
  · intro hb
    exact names x (f.mem_names_frame arity hb)

end FlatClosure

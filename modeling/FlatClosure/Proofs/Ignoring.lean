import FlatClosure.Proofs.Isolation
import FlatClosure.Proofs.Points

/-!
# Global variables that no function touches

A function ignores a name if it has a variable of its own of that name, or does nothing with the
name at all.  If all functions ignore some names, then calls neither see nor change the global
variables of these names.

* `Apart` : the states differ in these global variables only.
* `Blind` : a step does the same in such states, and leaves the variables alone.
* `blind_callLaw` : expressions, statements and calls are blind.
* `Context.calls_blind` : **a call is blind to the global variables that all functions ignore.**
-/

namespace FlatClosure

variable {α β : Type} {p : Program} {N own : String → Prop} {a b : String → Option Value}
  {z : String}

/-! ### Bindings of some names -/

/-- The bindings differ in the names of `N` only, and there they are `a` and `b`. -/
structure Bindings.Apart (N : String → Prop) (a b : String → Option Value)
    (g g' : Bindings Value) : Prop where
  same : ∀ n, ¬ N n → g'.get? n = g.get? n
  left : ∀ n, N n → g.get? n = a n
  right : ∀ n, N n → g'.get? n = b n

namespace Bindings.Apart

variable {g g' : Bindings Value}

theorem contains (h : Bindings.Apart N a b g g') (hz : ¬ N z) :
    g'.contains z = g.contains z := by
  rw [Bindings.contains, Bindings.contains, h.same z hz]

/-- Another name gets the same value in both, or loses it. -/
theorem restore (h : Bindings.Apart N a b g g') (hz : ¬ N z) (old : Option Value) :
    Bindings.Apart N a b (g.restore z old) (g'.restore z old) where
  same n hn := by rw [get?_restore, get?_restore, h.same n hn]
  left n hn := by
    rw [get?_restore, if_neg (fun e : n = z => hz (e ▸ hn)), h.left n hn]
  right n hn := by
    rw [get?_restore, if_neg (fun e : n = z => hz (e ▸ hn)), h.right n hn]

theorem insert (h : Bindings.Apart N a b g g') (hz : ¬ N z) (v : Value) :
    Bindings.Apart N a b (g.insert z v) (g'.insert z v) :=
  h.restore hz (some v)

theorem insertAll (h : Bindings.Apart N a b g g') {ps : List (String × Value)}
    (hps : ∀ n, N n → n ∉ ps.map Prod.fst) :
    Bindings.Apart N a b (g.insertAll ps) (g'.insertAll ps) := by
  induction ps generalizing g g' with
  | nil => exact h
  | cons q ps ih =>
    have other : ¬ N q.1 := fun hq => hps q.1 hq List.mem_cons_self
    exact ih (h.insert other q.2) fun n hn hm => hps n hn (List.mem_cons_of_mem _ hm)

end Bindings.Apart

/-! ### States -/

/-- The states differ in the global variables of `N` only, and there they are `a` and `b`.  If the
global variables have not got their first values yet, the program has none for these. -/
inductive Apart (p : Program) (N : String → Prop) (a b : String → Option Value) :
    Machine → Machine → Prop
  | mk (t : Machine) (fs : List Frame) (ready : Bool) {g g' : Bindings Value}
      (inits : ready = true ∨ ∀ n, N n → n ∉ p.inits.map (·.name))
      (vars : Bindings.Apart N a b g g') :
      Apart p N a b (t.withVars fs g ready) (t.withVars fs g' ready)

/-- The innermost call has variables of these names. -/
def Owns (own : String → Prop) (s : Machine) : Prop :=
  ∀ z, own z → s.frames.head?.any (·.hasLocal z) = true

theorem Owns.of_frames {s t : Machine} (h : Owns own s) (hf : t.frames = s.frames) : Owns own t :=
  fun z hz => hf ▸ h z hz

/-! ### What changes variables -/

theorem Machine.shadow_eq_restore (s : Machine) (x : String) (v : Value) :
    s.shadow x v = s.restore x (some v) := by
  unfold Machine.shadow Machine.restore
  split <;> rfl

theorem store_withVars (t : Machine) (f : Frame) (fs : List Frame) (g : Bindings Value)
    (ready : Bool) (x : String) (v : Value) :
    (t.withVars (f :: fs) g ready).store x v =
      if !f.isGlobal x && (f.hasLocal x || !g.contains x) then
        t.withVars (f.set x v :: fs) g ready
      else t.withVars (f :: fs) (g.insert x v) ready := rfl

theorem Frame.restore_eq (f : Frame) (x : String) (old : Option Value) :
    f.restore x old = { f with vars := f.vars.restore x old } := by
  cases old <;> rfl

theorem Frame.hasLocal_restore (f : Frame) (x y : String) (old : Option Value) :
    (f.restore x old).hasLocal y =
      (!f.isGlobal y && if y = x then old.isSome else f.vars.contains y) := by
  rw [Frame.restore_eq, Frame.hasLocal, Bindings.contains, Bindings.get?_restore,
    apply_ite Option.isSome]
  rfl

theorem Frame.hasLocal_declareGlobal {f : Frame} {x y : String} (h : y ≠ x) :
    (f.declareGlobal x).hasLocal y = f.hasLocal y := by
  unfold Frame.declareGlobal
  split
  · rfl
  · simp [Frame.hasLocal, Frame.isGlobal, h]

namespace Owns

variable {s : Machine}

theorem exists_frame (h : Owns own s) (hz : own z) :
    ∃ f fs, s.frames = f :: fs ∧ f.hasLocal z = true := by
  have local_z := h z hz
  cases hs : s.frames with
  | nil =>
    rw [hs] at local_z
    cases local_z
  | cons f fs =>
    rw [hs] at local_z
    exact ⟨f, fs, rfl, local_z⟩

/-- A variable of these names may be changed, but not removed. -/
theorem restore (h : Owns own s) {old : Option Value} (hz : own z → old.isSome) :
    Owns own (s.restore z old) := by
  intro y hy
  obtain ⟨f, fs, hs, local_y⟩ := h.exists_frame hy
  have kept : (f.restore z old).hasLocal y = true := by
    rw [Frame.hasLocal, Bool.and_eq_true_iff] at local_y
    rw [Frame.hasLocal_restore, local_y.1, local_y.2]
    split
    · rename_i e
      exact hz (e ▸ hy)
    · rfl
  unfold Machine.restore
  rw [hs]
  exact kept

theorem store (h : Owns own s) (z : String) (v : Value) : Owns own (s.store z v) := by
  have set : Owns own (s.shadow z v) := by
    rw [s.shadow_eq_restore]
    exact h.restore fun _ => rfl
  unfold Machine.store
  split
  · rename_i f fs hs
    split
    · unfold Machine.shadow at set
      rw [hs] at set
      exact set
    · exact h
  · exact h

theorem declareGlobal (h : Owns own s) (hz : ¬ own z) : Owns own (s.declareGlobal z) := by
  unfold Machine.declareGlobal
  split
  · rename_i f fs hs
    intro y hy
    have local_y := h y hy
    rw [hs] at local_y
    exact (Frame.hasLocal_declareGlobal fun e : y = z => hz (e ▸ hy)).trans local_y
  · exact h

theorem isSome_hidden? (h : Owns own s) (hz : own z) : (s.hidden? z).isSome := by
  obtain ⟨f, fs, hs, local_z⟩ := h.exists_frame hz
  unfold Machine.hidden?
  rw [hs]
  exact (Bool.and_eq_true_iff.1 local_z).2

end Owns

namespace Apart

variable {l r : Machine}

theorem heap (h : Apart p N a b l r) : r.heap = l.heap := by
  cases h
  rfl

theorem frames (h : Apart p N a b l r) : r.frames = l.frames := by
  cases h
  rfl

/-- The innermost call ends. -/
theorem close (h : Apart p N a b l r) :
    Apart p N a b (l.withFrames l.frames.tail) (r.withFrames r.frames.tail) := by
  cases h with
  | mk t fs ready inits vars => exact .mk t fs.tail ready inits vars

theorem initGlobals (h : Apart p N a b l r) :
    Apart p N a b (l.initGlobals p) (r.initGlobals p) := by
  cases h with
  | mk t fs ready inits vars =>
    cases ready with
    | true => exact .mk t fs true inits vars
    | false =>
      have others : ∀ n, N n → n ∉ p.inits.map (·.name) := inits.resolve_left Bool.false_ne_true
      refine .mk t fs true (.inl rfl) (vars.insertAll fun n hn => ?_)
      rw [List.map_map]
      exact others n hn

theorem declareGlobal (h : Apart p N a b l r) (z : String) :
    Apart p N a b (l.declareGlobal z) (r.declareGlobal z) := by
  cases h with
  | mk t fs ready inits vars =>
    cases fs with
    | nil => exact .mk t [] ready inits vars
    | cons f fs => exact .mk t (f.declareGlobal z :: fs) ready inits vars

theorem get?_globals (h : Apart p N a b l r) (hz : ¬ N z) :
    r.globals.get? z = l.globals.get? z := by
  cases h with
  | mk t fs ready inits vars => exact vars.same z hz

section Owned

-- a name of `N` has a variable in the innermost call
variable (h : Apart p N a b l r) (ho : Owns own l) (hz : N z → own z)

include h ho hz

theorem isVariable : r.isVariable z = l.isVariable z := by
  rw [Machine.isVariable, Machine.isVariable, h.frames, Bindings.contains, Bindings.contains]
  by_cases hn : N z
  · rw [ho z (hz hn), Bool.true_or, Bool.true_or]
  · rw [h.get?_globals hn]

theorem lookup? : r.lookup? p z = l.lookup? p z := by
  rw [Machine.lookup?, Machine.lookup?, h.frames]
  by_cases hn : N z
  · obtain ⟨f, fs, hs, local_z⟩ := ho.exists_frame (hz hn)
    obtain ⟨v, hv⟩ := Frame.exists_get?_of_hasLocal local_z
    simp only [hs, List.head?_cons, Option.bind_some, hv]
  · rw [h.get?_globals hn]

theorem hidden? : r.hidden? z = l.hidden? z := by
  rw [Machine.hidden?, Machine.hidden?, h.frames]
  by_cases hn : N z
  · obtain ⟨f, fs, hs, -⟩ := ho.exists_frame (hz hn)
    rw [hs]
  · rw [h.get?_globals hn]

theorem restore (old : Option Value) : Apart p N a b (l.restore z old) (r.restore z old) := by
  cases h with
  | mk t fs ready inits vars =>
    cases fs with
    | cons f fs => exact .mk t (f.restore z old :: fs) ready inits vars
    | nil =>
      have other : ¬ N z := fun hn => by cases ho z (hz hn)
      have after := Apart.mk t [] ready inits (vars.restore other old)
      cases old <;> exact after

theorem store (v : Value) : Apart p N a b (l.store z v) (r.store z v) := by
  cases h with
  | @mk t fs ready g g' inits vars =>
    cases fs with
    | nil =>
      have other : ¬ N z := fun hn => by cases ho z (hz hn)
      exact .mk t [] ready inits (vars.insert other v)
    | cons f fs =>
      have local_z (hn : N z) : f.hasLocal z = true := ho z (hz hn)
      have branch : (f.hasLocal z || !g'.contains z) = (f.hasLocal z || !g.contains z) := by
        by_cases hn : N z
        · rw [local_z hn, Bool.true_or, Bool.true_or]
        · rw [vars.contains hn]
      rw [store_withVars, store_withVars, branch]
      split
      · exact .mk t (f.set z v :: fs) ready inits vars
      · rename_i hglobal
        refine .mk t (f :: fs) ready inits (vars.insert (fun hn => hglobal ?_) v)
        rw [local_z hn, Bool.true_or, Bool.and_true]
        exact (Bool.and_eq_true_iff.1 (local_z hn)).1

end Owned

end Apart

/-! ### Blind steps -/

/-- While the innermost call has variables of the names of `own`, the step does the same in states
that differ in the global variables of `N` only, and leaves these variables alone. -/
structure Blind (p : Program) (N own : String → Prop) (x : EvalM α) : Prop where
  apart : ∀ ⦃a b l r⦄, Apart p N a b l r → Owns own l →
    (x.run r).1 = (x.run l).1 ∧ Apart p N a b (x.run l).2 (x.run r).2
  owns : ∀ l, Owns own l → Owns own (x.run l).2
  tail : ∀ l, (x.run l).2.frames.tail = l.frames.tail

/-- States that a blind step does not tell apart. -/
def Unseen (p : Program) (N own : String → Prop) (l r : Machine) : Prop :=
  Owns own l ∧ ∃ a b, Apart p N a b l r

namespace Blind

/-- A step that does not look at variables and does not change them. -/
theorem of_withVars {x : EvalM α} (h : ∀ s fs g ready,
    x.run (s.withVars fs g ready) = ((x.run s).1, (x.run s).2.withVars fs g ready)) :
    Blind p N own x := by
  have frames (l : Machine) : (x.run l).2.frames = l.frames :=
    congrArg (·.2.frames) (h l l.frames l.globals l.ready)
  refine ⟨fun a b l r hA _ => ?_, fun l ho => ho.of_frames (frames l), fun l => by rw [frames]⟩
  cases hA with
  | mk t fs ready inits vars =>
    rw [h, h]
    exact ⟨rfl, .mk _ fs ready inits vars⟩

/-- A step that always succeeds. -/
theorem modify {g : Machine → Machine} (tail : ∀ s, (g s).frames.tail = s.frames.tail)
    (apart : ∀ ⦃a b l r⦄, Apart p N a b l r → Owns own l → Apart p N a b (g l) (g r))
    (owns : ∀ l, Owns own l → Owns own (g l)) : Blind p N own (modify g : EvalM Unit) where
  apart _ _ _ _ hA ho := ⟨rfl, apart hA ho⟩
  owns := owns
  tail := tail

theorem bind {x : EvalM α} {f : α → EvalM β} (hx : Blind p N own x)
    (hf : ∀ a, Blind p N own (f a)) : Blind p N own (x >>= f) where
  apart a b l r hA ho := by
    obtain ⟨value, after⟩ := hx.apart hA ho
    have owned := hx.owns l ho
    rw [run_bind, run_bind]
    rcases hr : x.run l with ⟨e | a, t⟩ <;> rcases hr' : x.run r with ⟨e' | a', t'⟩ <;>
      rw [hr, hr'] at value <;> rw [hr, hr'] at after <;> rw [hr] at owned <;> cases value
    · exact ⟨rfl, after⟩
    · exact (hf a).apart after owned
  owns l ho := by
    have owned := hx.owns l ho
    rw [run_bind]
    rcases hr : x.run l with ⟨e | a, t⟩ <;> rw [hr] at owned
    · exact owned
    · exact (hf a).owns t owned
  tail l := by
    have first := hx.tail l
    rw [run_bind]
    rcases hr : x.run l with ⟨e | a, t⟩ <;> rw [hr] at first
    · exact first
    · exact ((hf a).tail t).trans first

end Blind

theorem blind_stepLaw : StepLaw (Blind p N own) (Unseen p N own) where
  heap _ _ h := h.2.elim fun _ h => h.elim fun _ h => h.heap
  quiet h := .of_withVars h.run_withVars
  bind := .bind
  look same h :=
    { apart := fun a b l r hA ho => by
        rw [run_get_bind, run_get_bind, same ⟨ho, a, b, hA⟩]
        exact (h l).apart hA ho
      owns := fun l => (h l).owns l
      tail := fun l => (h l).tail l }

theorem blind_shadow (hz : N z → own z) (v : Value) :
    Blind p N own (modify (·.shadow z v) : EvalM Unit) := by
  refine .modify (fun s => ((OnTop.shadow z v).frames s).1) (fun a b l r hA ho => ?_) fun l ho => ?_
  · rw [l.shadow_eq_restore, r.shadow_eq_restore]
    exact hA.restore ho hz (some v)
  · rw [l.shadow_eq_restore]
    exact ho.restore fun _ => rfl

/-- A comprehension gives its variable back to the innermost call, or to the global variables if no
call is open. -/
theorem blind_gatherShadowing (hz : N z → own z) {step : EvalM (Option Value)}
    (h : Blind p N own step) (items : List Value) :
    Blind p N own (gatherShadowing z step items) := by
  cases items with
  | nil => exact blind_stepLaw.pure _
  | cons v vs =>
    have all := blind_stepLaw.gather (blind_shadow hz) h (v :: vs)
    refine ⟨fun a b l r hA ho => ?_, fun l ho => ?_, fun l => ?_⟩
    · obtain ⟨value, after⟩ := all.apart hA ho
      refine ⟨value, ?_⟩
      change Apart p N a b (Machine.restore _ z (l.hidden? z)) (Machine.restore _ z (r.hidden? z))
      rw [hA.hidden? ho hz]
      exact after.restore (all.owns l ho) hz _
    · exact (all.owns l ho).restore ho.isSome_hidden?
    · exact ((OnTop.restore z _).frames _).1.trans (all.tail l)

theorem blind_storeField (v : Value) (x : String) (w : Value) :
    Blind p N own (storeField v x w) := by
  cases v with
  | object ref =>
    refine blind_stepLaw.look (fun _ _ h => by simp only [blind_stepLaw.heap h]) fun s => ?_
    dsimp only
    split
    · exact .of_withVars fun _ _ _ _ => rfl
    · exact blind_stepLaw.fail _ rfl
  | _ => exact blind_stepLaw.quiet (.typeError _ _ _)

/-- Of the names of `N`, only those of `own` are used, and none is declared global. -/
def Effect.UsesOwn (N own : String → Prop) : Effect → Prop
  | .read z | .bind z | .write z => N z → own z
  | .global z => ¬ N z
  | .closure _ => True

theorem blind_execLaw (p : Program) {N own : String → Prop} (sub : ∀ n, own n → N n) :
    ExecLaw p (Effect.UsesOwn N own) (Blind p N own) (Blind p N own) (Unseen p N own) where
  eval :=
    { blind_stepLaw with
      reads := fun s s' h => by
        obtain ⟨ho, a, b, hA⟩ := h
        exact ⟨fun x hx => hA.lookup? ho hx, fun x hx => hA.isVariable ho hx⟩
      object := fun _ => .of_withVars fun _ _ _ _ => rfl
      init := .modify (fun s => by rw [(calm_initGlobals p s).1])
        (fun _ _ _ _ hA _ => hA.initGlobals) fun s ho => ho.of_frames (calm_initGlobals p s).1
      gather := fun x hx _ h items => blind_gatherShadowing hx h items }
  block := blind_stepLaw
  le h := h
  store x hx v := .modify (fun s => ((OnTop.store x v).frames s).1)
    (fun _ _ _ _ hA ho => hA.store ho hx v) fun s ho => ho.store x v
  declare x hx := .modify (fun s => ((OnTop.declareGlobal x).frames s).1)
    (fun _ _ _ _ hA _ => hA.declareGlobal x) fun s ho => ho.declareGlobal (mt (sub x) hx)
  field := blind_storeField
  closure _ _ := .of_withVars fun _ _ _ _ => rfl

/-! ### Calls -/

/-- The function has a variable of its own of that name, or does nothing with the name. -/
def FunDef.Ignores (f : FunDef) (z : String) : Prop :=
  (z ∈ f.binders ∧ .global z ∉ f.collect effects) ∨ ∀ m ∈ f.collect effects, ¬ m.Concerns z

/-- All functions and methods ignore the name. -/
def Program.Ignores (p : Program) (z : String) : Prop := ∀ f, Callable p f → f.Ignores z

/-- The names that a function has variables of its own for. -/
def FunDef.Owned (f : FunDef) (N : String → Prop) (z : String) : Prop :=
  N z ∧ z ∈ f.binders ∧ .global z ∉ f.collect effects

theorem FunDef.usesOwn_of_ignores {f : FunDef} (h : ∀ z, N z → f.Ignores z) :
    ∀ m ∈ f.collect effects, m.UsesOwn N (f.Owned N) := by
  have owned (z : String) (m : Effect) (hm : m ∈ f.collect effects) (hc : m.Concerns z)
      (hn : N z) : f.Owned N z :=
    ⟨hn, (h z hn).resolve_right fun none => none m hm hc⟩
  intro m hm
  cases m with
  | read z | bind z | write z => exact owned z _ hm rfl
  | global z => exact fun hn => (owned z _ hm rfl hn).2.2 hm
  | closure f => trivial

/-- A call starts with variables of its own and leaves the open calls as they were. -/
theorem blind_withFrame {f : FunDef} {args : List Value} (arity : args.length = f.arity)
    {act : EvalM α} (h : Blind p N (f.Owned N) act) (own : String → Prop) :
    Blind p N own (withFrame (f.frame args) act) := by
  have opened (s : Machine) : Owns (f.Owned N) (s.withFrames (f.frame args :: s.frames)) :=
    fun z hz => Bindings.contains_iff.2 (f.mem_names_frame arity hz.2.1)
  have frames (s : Machine) : ((withFrame (f.frame args) act).run s).2.frames = s.frames := h.tail _
  refine ⟨fun a b l r hA _ => ?_, fun l ho => ho.of_frames (frames l), fun l => by rw [frames]⟩
  have pushed : Apart p N a b (l.withFrames (f.frame args :: l.frames))
      (r.withFrames (f.frame args :: r.frames)) := by
    cases hA with
    | mk t fs ready inits vars => exact .mk t (f.frame args :: fs) ready inits vars
  obtain ⟨value, after⟩ := h.apart pushed (opened l)
  exact ⟨value, after.close⟩

theorem blind_callLaw (p : Program) {N : String → Prop} (h : ∀ z, N z → p.Ignores z) :
    CallLaw p (fun x => ∀ own, Blind p N own x) (fun f => Effect.UsesOwn N (f.Owned N))
      (fun f => Blind p N (f.Owned N)) (fun f => Blind p N (f.Owned N))
      (Unseen p N fun _ => False) fun f => Unseen p N (f.Owned N) where
  step :=
    { heap := blind_stepLaw.heap
      quiet := fun h _ => blind_stepLaw.quiet h
      bind := fun hx hf own => .bind (hx own) fun a => hf a own
      look := fun same h own =>
        blind_stepLaw.look (fun s s' hs => same ⟨fun _ h => h.elim, hs.2⟩) fun s => h s own }
  depth _ _ h := by
    obtain ⟨-, a, b, hA⟩ := h
    rw [hA.frames]
  exec f := blind_execLaw p fun _ h => h.1
  effects f hf := FunDef.usesOwn_of_ignores fun z hz => h z hz f hf
  le f _ _ h := h (f.Owned N)
  frame f args arity _ act h own := blind_withFrame arity h own

/-- **Calls.**  A call neither sees nor changes the global variables that all functions ignore. -/
theorem Context.calls_blind (ctx : Context) {N : String → Prop}
    (h : ∀ z, N z → ctx.program.Ignores z) (fuel : Nat) (own : String → Prop) :
    (ctx.calls fuel).Have (Blind ctx.program N own) :=
  fun f hf args => (blind_callLaw ctx.program h).callFunction fuel f hf args own

end FlatClosure

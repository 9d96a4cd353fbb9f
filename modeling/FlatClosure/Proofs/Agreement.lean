import FlatClosure.Proofs.Machine
import FlatClosure.Proofs.Nested

/-!
# Agreement of two runs

Running a program as it was written and running the converted program are compared step by step.
The two machines always have the same heap, the same global variables and the same output; only the
variables of the open calls differ.  So one state is enough: `Agree` says that a step that succeeds
in a state also succeeds when the calls `F` in it are replaced by `G`, with the same answer and the
same changes.

The steps compared this way leave the calls as they are, keep the objects of closures (`Keeps`) and
keep the state `Tidy`: no global variable has the name of a class of a closure, and the objects of a
closure have exactly its captures for fields.
-/

namespace FlatClosure.Nested

variable {α β : Type}

/-- The converted program; making an object of a closure takes one more call. -/
def flattened (ctx : Context) : Context :=
  ⟨ctx.program.converted ctx.names, ctx.names, ctx.maxDepth + 1⟩

/-- The declarations of the closures of the program. -/
def decls (ctx : Context) : List Declaration := ctx.program.declarations ctx.names

/-- The classes of the closures of the program. -/
def classes (ctx : Context) : List String := (decls ctx).map (·.cls ctx.names)

/-! ### States -/

/-- A state that has nothing in the way of the classes of closures. -/
structure Tidy (ctx : Context) (s : Machine) : Prop where
  globals : ∀ K ∈ classes ctx, s.globals.get? K = none
  objects : ∀ (ref : Nat) (o : Instance), s.heap.objects[ref]? = some o → ∀ d ∈ decls ctx,
    o.cls = d.cls ctx.names → o.fields.names = d.captures.names

/-- The objects of closures are as they were. -/
def Keeps (ctx : Context) (s t : Machine) : Prop :=
  ∀ (ref : Nat) (o : Instance), s.heap.objects[ref]? = some o → o.cls ∈ classes ctx →
    t.heap.objects[ref]? = some o

/-- The objects are there, and they are objects of closures. -/
def Held (ctx : Context) (held : List (Nat × Instance)) (s : Machine) : Prop :=
  ∀ ro ∈ held, s.heap.objects[ro.1]? = some ro.2 ∧ ro.2.cls ∈ classes ctx

section States

variable {ctx : Context} {s t u : Machine} {held : List (Nat × Instance)}

theorem Keeps.refl (s : Machine) : Keeps ctx s s := fun _ _ h _ => h

theorem Keeps.trans (h : Keeps ctx s t) (h' : Keeps ctx t u) : Keeps ctx s u :=
  fun ref o ho hc => h' ref o (h ref o ho hc) hc

theorem Keeps.of_objects (h : t.heap.objects = s.heap.objects) : Keeps ctx s t :=
  fun _ _ ho _ => h ▸ ho

theorem Held.keeps (h : Held ctx held s) (hk : Keeps ctx s t) : Held ctx held t :=
  fun ro hro => ⟨hk ro.1 ro.2 (h ro hro).1 (h ro hro).2, (h ro hro).2⟩

theorem Held.nil (s : Machine) : Held ctx [] s := by
  intro _ h
  cases h

theorem Tidy.congr (h : Tidy ctx s) (ho : t.heap.objects = s.heap.objects)
    (hg : t.globals = s.globals) : Tidy ctx t :=
  ⟨fun K hK => hg ▸ h.globals K hK, fun ref o hr => h.objects ref o (ho ▸ hr)⟩

theorem Tidy.insert_global (h : Tidy ctx s) {x : String} (hx : x ∉ classes ctx) (v : Value)
    (ho : t.heap.objects = s.heap.objects) (hg : t.globals = s.globals.insert x v) :
    Tidy ctx t where
  globals K hK := by
    have hne : K ≠ x := fun e => hx (e ▸ hK)
    rw [hg, Bindings.get?_insert_of_ne _ hne, h.globals K hK]
  objects ref o hr := h.objects ref o (ho ▸ hr)

theorem Tidy.shadow {x : String} (h : Tidy ctx s) (hx : s.frames = [] → x ∉ classes ctx)
    (v : Value) :
    Tidy ctx (s.shadow x v) := by
  cases hs : s.frames with
  | nil =>
    refine h.insert_global (hx hs) v objects_shadow ?_
    simp only [Machine.shadow, hs]
  | cons f fs =>
    refine h.congr objects_shadow ?_
    simp only [Machine.shadow, hs]

theorem Tidy.restore {x : String} (h : Tidy ctx s) (hx : s.frames = [] → x ∉ classes ctx)
    (old : Option Value) : Tidy ctx (s.restore x old) := by
  cases hs : s.frames with
  | nil =>
    cases old with
    | some v =>
      refine h.insert_global (hx hs) v objects_restore ?_
      simp only [Machine.restore, hs]
    | none =>
      refine ⟨fun K hK => ?_, fun ref o hr => h.objects ref o (by rwa [objects_restore] at hr)⟩
      have hne : K ≠ x := fun e => hx hs (e ▸ hK)
      simp only [Machine.restore, hs, Bindings.get?_erase_of_ne _ hne]
      exact h.globals K hK
  | cons f fs =>
    refine h.congr objects_restore ?_
    simp only [Machine.restore, hs]

end States

/-! ### Agreement -/

/-- The step that succeeds from `s` succeeds with the calls `G` as well. -/
def AgreeAt (ctx : Context) (s : Machine) (G : List Frame) (x y : EvalM α) : Prop :=
  ∀ v t, x.run s = (.ok v, t) →
    t.frames = s.frames ∧ Tidy ctx t ∧ Keeps ctx s t ∧
      y.run (s.withFrames G) = (.ok v, t.withFrames G)

/-- The step that succeeds with the calls `F` succeeds with the calls `G` as well. -/
def Agree (ctx : Context) (held : List (Nat × Instance)) (F G : List Frame) (x y : EvalM α) :
    Prop :=
  ∀ s, s.frames = F → Tidy ctx s → Held ctx held s → AgreeAt ctx s G x y

namespace Agree

variable {ctx : Context} {held : List (Nat × Instance)} {F G : List Frame}

theorem fail (e : EvalError) (y : EvalM α) : Agree ctx held F G (fail e) y := by
  intro s _ _ _ v t h
  cases h

theorem throw (e : Stop) (y : EvalM α) : Agree ctx held F G (throw e) y := by
  intro s _ _ _ v t h
  cases h

theorem quiet {x : EvalM α} (hx : Quiet x) : Agree ctx held F G x x := by
  intro s _ hs _ v t h
  have objects := hx.objects s
  have globals := hx.globals s
  have frames := hx.frames s
  have run := hx.run_withFrames s G
  rw [h] at objects globals frames run
  exact ⟨frames, hs.congr objects globals, .of_objects objects, run⟩

theorem pure (a : α) : Agree ctx held F G (pure a) (pure a) := quiet (.pure a)

theorem bind {x y : EvalM α} {f g : α → EvalM β} (hx : Agree ctx held F G x y)
    (hf : ∀ a, Agree ctx held F G (f a) (g a)) : Agree ctx held F G (x >>= f) (y >>= g) := by
  intro s hF hs hh v t h
  obtain ⟨a, u, hxu, hfu⟩ := run_bind_eq_ok.1 h
  obtain ⟨frames, tidy, keeps, run⟩ := hx s hF hs hh a u hxu
  obtain ⟨frames', tidy', keeps', run'⟩ :=
    hf a u (frames.trans hF) tidy (hh.keeps keeps) v t hfu
  exact ⟨frames'.trans frames, tidy', keeps.trans keeps', (run_bind_of_ok run).trans run'⟩

/-- A step that looks at the state first. -/
theorem get_bind {f g : Machine → EvalM α}
    (h : ∀ s, s.frames = F → Tidy ctx s → Held ctx held s →
      AgreeAt ctx s G (f s) (g (s.withFrames G))) :
    Agree ctx held F G (get >>= f) (get >>= g) :=
  fun s hF hs hh => h s hF hs hh

/-- A step that looks at the state first, but not at the open calls. -/
theorem look {f : Machine → EvalM α} {g : Machine → EvalM α}
    (blind : ∀ s fs, g (s.withFrames fs) = g s) (h : ∀ s, Agree ctx held F G (f s) (g s)) :
    Agree ctx held F G (get >>= f) (get >>= g) := by
  refine get_bind fun s hF hs hh => ?_
  rw [blind]
  exact h s s hF hs hh

theorem ite {c : Prop} [Decidable c] {x x' y y' : EvalM α} (h : Agree ctx held F G x y)
    (h' : Agree ctx held F G x' y') :
    Agree ctx held F G (if c then x else x') (if c then y else y') := by
  split
  · exact h
  · exact h'

end Agree

/-! ### Objects -/

section Objects

variable {ctx : Context} {held : List (Nat × Instance)} {F G : List Frame} {k : Calls}

theorem closure?_eq_none_iff {cls : String} : k.closure? cls = none ↔ cls ∉ classes k.ctx := by
  rw [Calls.closure?, List.find?_eq_none, classes, List.mem_map]
  constructor
  · rintro h ⟨d, hd, rfl⟩
    exact h d hd (by simp)
  · intro h d hd hc
    exact h ⟨d, hd, by simpa using hc⟩

theorem Keeps.pushObject (s : Machine) (o : Instance) :
    Keeps ctx s { s with heap := s.heap.pushObject o } := by
  intro ref o' ho _
  have hlt : ref < s.heap.objects.size := (Array.getElem?_eq_some_iff.1 ho).1
  change (s.heap.objects.push o)[ref]? = some o'
  rw [Array.getElem?_push_lt hlt]
  exact (Array.getElem?_eq_getElem hlt).symm.trans ho

theorem Tidy.pushObject {s : Machine} (h : Tidy ctx s) {o : Instance}
    (ho : ∀ d ∈ decls ctx, o.cls = d.cls ctx.names → o.fields.names = d.captures.names) :
    Tidy ctx { s with heap := s.heap.pushObject o } where
  globals := h.globals
  objects ref o' hr := by
    change (s.heap.objects.push o)[ref]? = some o' at hr
    rw [Array.getElem?_push] at hr
    split at hr
    · cases hr
      exact ho
    · exact h.objects ref o' hr

theorem Agree.newObject {o : Instance} (ho : o.cls ∉ classes ctx) :
    Agree ctx held F G (newObject o) (newObject o) := by
  intro s _ hs _ ref t h
  cases h
  refine ⟨rfl, hs.pushObject fun d hd e => absurd ?_ ho, .pushObject s o, rfl⟩
  exact e ▸ List.mem_map_of_mem hd

theorem checkFields_ok {s t : Machine} {v : Value} {field : String}
    (h : (checkFields k v field).run s = (.ok (), t)) :
    t = s ∧ ∀ ref, v = .object ref → (s.heap.object ref).cls ∉ classes k.ctx := by
  cases v with
  | object ref =>
    change (if (k.closure? (s.heap.object ref).cls).isSome then FlatClosure.fail _
      else Pure.pure () : EvalM Unit).run s = (.ok (), t) at h
    split at h
    · cases h
    · rename_i hc
      cases h
      refine ⟨rfl, fun ref' e => ?_⟩
      cases e
      exact closure?_eq_none_iff.1 (by simpa using hc)
  | _ =>
    cases h
    exact ⟨rfl, fun _ e => nomatch e⟩

theorem Agree.getField (v : Value) (field : String) :
    Agree k.ctx held F G (getField k v field) (FlatClosure.getField v field) := by
  intro s hF hs hh w t h
  obtain ⟨⟨⟩, u, hcheck, hget⟩ := run_bind_eq_ok.1 h
  obtain ⟨rfl, -⟩ := checkFields_ok hcheck
  exact Agree.quiet (.getField v field) u hF hs hh w t hget

/-- Changing a field of an object that is no closure. -/
theorem AgreeAt.setField {s : Machine} (hs : Tidy ctx s) {ref : Nat}
    (hcls : (s.heap.object ref).cls ∉ classes ctx) (field : String) (w : Value) :
    AgreeAt ctx s G (modify fun s => { s with heap := s.heap.setField ref field w } : EvalM Unit)
      (modify fun s => { s with heap := s.heap.setField ref field w } : EvalM Unit) := by
  intro r t h
  cases h
  refine ⟨rfl, ⟨hs.globals, fun ref' o hr d hd hc => ?_⟩, fun ref' o ho hc => ?_, rfl⟩
  · change (s.heap.objects.setIfInBounds ref _)[ref']? = some o at hr
    rw [Array.getElem?_setIfInBounds] at hr
    split at hr
    · split at hr
      · cases hr
        exact absurd (hc ▸ List.mem_map_of_mem hd) hcls
      · cases hr
    · exact hs.objects ref' o hr d hd hc
  · have hne : ref ≠ ref' := by
      rintro rfl
      refine hcls ?_
      rwa [Heap.object, ho]
    change (s.heap.objects.setIfInBounds ref _)[ref']? = some o
    rwa [Array.getElem?_setIfInBounds, if_neg hne]

theorem Agree.storeField (v : Value) (field : String) (w : Value) :
    Agree k.ctx held F G (storeField k v field w) (FlatClosure.storeField v field w) := by
  intro s hF hs hh r t h
  obtain ⟨⟨⟩, u, hcheck, hstore⟩ := run_bind_eq_ok.1 h
  obtain ⟨rfl, unsealed⟩ := checkFields_ok hcheck
  cases v with
  | object ref =>
    have run (s : Machine) : (FlatClosure.storeField (.object ref) field w).run s =
        (if (s.heap.object ref).fields.contains field then
          modify fun s => { s with heap := s.heap.setField ref field w }
        else FlatClosure.fail (.noSuchField (s.heap.object ref).cls field) : EvalM Unit).run s :=
      rfl
    rw [run] at hstore
    split at hstore
    · rename_i hfield
      obtain ⟨frames, tidy, keeps, run'⟩ :=
        AgreeAt.setField (G := G) hs (unsealed ref rfl) field w r t
        hstore
      refine ⟨frames, tidy, keeps, ?_⟩
      rw [run, Machine.heap_withFrames, if_pos hfield]
      exact run'
    · cases hstore
  | _ => cases hstore

end Objects

/-! ### Comprehensions -/

section Gathering

variable {ctx : Context} {held : List (Nat × Instance)} {F G : List Frame} {x : String}
  {step step' : EvalM (Option Value)}

/-- What gathering does to the state, where `F` and `G` are the calls in which the comprehension
stands, and the calls of `s` differ from `F` in the comprehension variable at most. -/
theorem gather_agrees (hnil : F = [] ↔ G = []) (hx : F = [] → x ∉ classes ctx)
    (hstep : ∀ v, Agree ctx held (shadowed x v F) (shadowed x v G) step step')
    (items : List Value) (s t : Machine) (G₀ : List Frame) (vs : List Value)
    (hF : ∀ v, shadowed x v s.frames = shadowed x v F)
    (hG : ∀ v, shadowed x v G₀ = shadowed x v G)
    (hs : Tidy ctx s) (hh : Held ctx held s) (h : (gather x step items).run s = (.ok vs, t)) :
    Tidy ctx t ∧ Keeps ctx s t ∧ ∃ G₁,
      (gather x step' items).run (s.withFrames G₀) = (.ok vs, t.withFrames G₁) ∧
        (items ≠ [] → ∃ v, t.frames = shadowed x v F ∧ G₁ = shadowed x v G) := by
  induction items generalizing s G₀ vs with
  | nil =>
    cases h
    exact ⟨hs, .refl _, G₀, rfl, fun h => absurd rfl h⟩
  | cons v items ih =>
    have empty : s.frames = [] ↔ F = [] := by
      rw [← shadowed_eq_nil (x := x) (v := v), hF v, shadowed_eq_nil]
    have empty' : G₀ = [] ↔ G = [] := by
      rw [← shadowed_eq_nil (x := x) (v := v), hG v, shadowed_eq_nil]
    have tidy : Tidy ctx (s.shadow x v) := hs.shadow (fun e => hx (empty.1 e)) v
    have keeps : Keeps ctx s (s.shadow x v) := .of_objects objects_shadow
    rw [gather, run_modify_bind] at h
    obtain ⟨r, u, hstep₁, h⟩ := run_bind_eq_ok.1 h
    obtain ⟨rs, t', hrest, h⟩ := run_bind_eq_ok.1 h
    cases h
    -- the step for the first item, then the others
    obtain ⟨frames, tidy₁, keeps₁, run₁⟩ :=
      hstep v _ (frames_shadow.trans (hF v)) tidy (hh.keeps keeps) r u hstep₁
    have hu : u.frames = shadowed x v F := frames.trans (frames_shadow.trans (hF v))
    obtain ⟨tidy₂, keeps₂, G₁, run₂, last⟩ :=
      ih u (shadowed x v G) rs (fun w => by rw [hu, shadowed_shadowed]) (fun w => shadowed_shadowed)
        tidy₁ ((hh.keeps keeps).keeps keeps₁) hrest
    refine ⟨tidy₂, (keeps.trans keeps₁).trans keeps₂, G₁, ?_, fun _ => ?_⟩
    · rw [gather, run_modify_bind, shadow_withFrames (empty.trans (hnil.trans empty'.symm)), hG v,
        run_bind_of_ok run₁, run_bind_of_ok run₂]
      rfl
    · cases items with
      | nil =>
        cases hrest
        exact ⟨v, hu, by cases run₂; rfl⟩
      | cons w items => exact last (List.cons_ne_nil _ _)

theorem Agree.gatherShadowing (hnil : F = [] ↔ G = []) (hx : F = [] → x ∉ classes ctx)
    (hstep : ∀ v, Agree ctx held (shadowed x v F) (shadowed x v G) step step')
    (items : List Value) :
    Agree ctx held F G (gatherShadowing x step items) (gatherShadowing x step' items) := by
  intro s hF hs hh vs t h
  cases items with
  | nil =>
    cases h
    exact ⟨rfl, hs, .refl _, rfl⟩
  | cons v items =>
    obtain ⟨r, u, hr⟩ : ∃ r u, (gather x step (v :: items)).run s = (r, u) := ⟨_, _, rfl⟩
    have run : (FlatClosure.gatherShadowing x step (v :: items)).run s =
        (r, u.restore x (s.hidden? x)) := by
      change (((gather x step (v :: items)).run s).1,
        ((gather x step (v :: items)).run s).2.restore x (s.hidden? x)) = _
      rw [hr]
    rw [run] at h
    cases h
    obtain ⟨tidy, keeps, G₁, run', last⟩ := gather_agrees hnil hx hstep (v :: items) s u G vs
      (fun _ => by rw [hF]) (fun _ => rfl) hs hh hr
    obtain ⟨w, hu, rfl⟩ := last (List.cons_ne_nil _ _)
    refine ⟨?_, ?_, ?_, ?_⟩
    · rw [restore_shadowed hF hu, hF]
    · exact tidy.restore (fun e => hx (shadowed_eq_nil.1 (hu.symm.trans e))) _
    · exact keeps.trans (.of_objects objects_restore)
    · change (((gather x step' (v :: items)).run (s.withFrames G)).1,
        ((gather x step' (v :: items)).run (s.withFrames G)).2.restore x
          ((s.withFrames G).hidden? x)) = _
      rw [run', restore_withFrames hF hu hnil]

end Gathering

end FlatClosure.Nested

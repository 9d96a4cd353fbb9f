import FlatClosure.Conversion.Lift
import FlatClosure.Proofs.Effects

/-!
# Making the object of a closure

Where a closure was declared, an object of its class is made and the captured variables are copied
into its fields, one after the other.  The class has a constructor that does nothing, and fields
with first values, all of which are overwritten.

* `instantiate_lift_run` : making the object.
* `setFields_run` : filling in its fields.
* `creation_lift_run` : **the state after the statements in the place of a declaration.**
* `declaration_captures_by_value` : **the object has the values that the variables had, also when
  these are assigned to later.**
-/

namespace FlatClosure

variable {k : Calls}

/-! ### New objects -/

theorem Heap.object_pushObject_self (h : Heap) (o : Instance) :
    (h.pushObject o).object h.objects.size = o := by
  simp [Heap.object, Heap.pushObject]

theorem Heap.object_pushObject_of_lt (h : Heap) (o : Instance) {ref : Nat}
    (hr : ref < h.objects.size) : (h.pushObject o).object ref = h.object ref := by
  simp [Heap.object, Heap.pushObject, Array.getElem?_push, Nat.ne_of_lt hr]

theorem setField_pushObject (h : Heap) (cls : String) (b : Bindings Value) (x : String)
    (v : Value) :
    (h.pushObject ⟨cls, b⟩).setField h.objects.size x v = h.pushObject ⟨cls, b.insert x v⟩ := by
  have objects : (h.objects.push ⟨cls, b⟩).setIfInBounds h.objects.size ⟨cls, b.insert x v⟩ =
      h.objects.push ⟨cls, b.insert x v⟩ := by
    grind
  rw [Heap.setField, h.object_pushObject_self]
  exact congrArg (Heap.mk h.lists) objects

/-- Filling in the fields of a new object from the variables of their names. -/
theorem setFields_run {u : Machine} {heap : Heap} {name cls : String} {span : Span}
    (hname : u.lookup? k.ctx.program name = some (.object heap.objects.size))
    (ps : List (String × Value)) (hps : ∀ p ∈ ps, u.lookup? k.ctx.program p.1 = some p.2)
    (b : Bindings Value) (hb : ∀ p ∈ ps, p.1 ∈ b.names) :
    (Stmt.execList k ((ps.map Prod.fst).map fun x => .setField (.id name span) x (.id x span))).run
        { u with heap := heap.pushObject ⟨cls, b⟩ } =
      (.ok .normal, { u with heap := heap.pushObject ⟨cls, b.insertAll ps⟩ }) := by
  induction ps generalizing b with
  | nil => rfl
  | cons p ps ih =>
    obtain ⟨x, v⟩ := p
    have contains : b.contains x = true := Bindings.contains_iff.2 (hb (x, v) List.mem_cons_self)
    have value := hps (x, v) List.mem_cons_self
    have first : (Stmt.exec k (.setField (.id name span) x (.id x span))).run
        { u with heap := heap.pushObject ⟨cls, b⟩ } =
          (.ok .normal, { u with heap := heap.pushObject ⟨cls, b.insert x v⟩ }) := by
      have read (y : String) (w : Value) (hy : u.lookup? k.ctx.program y = some w) :
          ((Expr.id y span).eval k).run { u with heap := heap.pushObject ⟨cls, b⟩ } =
            (.ok w, { u with heap := heap.pushObject ⟨cls, b⟩ }) :=
        readName_run_eq_ok.2 ⟨hy, rfl⟩
      have store : (storeField (.object heap.objects.size) x v).run
          { u with heap := heap.pushObject ⟨cls, b⟩ } =
            (.ok (), { u with heap := heap.pushObject ⟨cls, b.insert x v⟩ }) := by
        rw [storeField, run_get_bind]
        dsimp only
        rw [heap.object_pushObject_self, if_pos contains]
        exact congrArg (fun h => (Except.ok (), { u with heap := h }))
          (setField_pushObject _ _ _ _ _)
      rw [Stmt.exec, run_bind_of_ok (read name _ hname), run_bind_of_ok (read x v value),
        run_bind_of_ok store]
      rfl
    rw [List.map_cons, List.map_cons, Stmt.execList, run_bind_of_ok first]
    refine ih (fun p hp => hps p (List.mem_cons_of_mem _ hp)) (b.insert x v) fun p hp => ?_
    exact Bindings.mem_names_insert.2 (.inr (hb p (List.mem_cons_of_mem _ hp)))

/-! ### The class of a closure -/

section Lifting

variable {closure : FunDef} {cls receiver : String} {captures : Captures} {s : Machine}

/-- The fields of an object that was just made for a closure. -/
def blankFields (captures : Captures) : Bindings Value :=
  .ofList (captures.entries.map fun e => (e.1, (Literal.defaultFor e.2).toValue))

theorem mem_names_blankFields {x : String} :
    x ∈ (blankFields captures).names ↔ x ∈ captures.names := by
  rw [blankFields, Bindings.ofList, Bindings.mem_names_insertAll]
  simp [Bindings.names]

theorem names_blankFields (h : captures.names.Nodup) :
    (blankFields captures).names = captures.names := by
  have fst : (captures.entries.map fun e => (e.1, (Literal.defaultFor e.2).toValue)).map
      Prod.fst = captures.names := by
    rw [List.map_map]
    rfl
  rw [blankFields, Bindings.names, Bindings.entries_ofList, fst]
  rwa [fst]

/-- The call method is found by its name. -/
theorem method?_lift_callMethod (names : Conventions) :
    (lift closure cls captures receiver names).cls.method? names.callMethod =
      some (callMethod closure cls receiver names) := by
  simp [lift, ClassDef.method?, callMethod]

/-- The constructor is found by its name unless the call method has the same name, for that method
comes first. -/
theorem method?_lift_constructor (names : Conventions) :
    (lift closure cls captures receiver names).cls.method? names.constructor =
      some (if names.callMethod = names.constructor then callMethod closure cls receiver names
        else emptyConstructor cls receiver names) := by
  by_cases h : names.callMethod = names.constructor
  · rw [if_pos h, ← h, method?_lift_callMethod]
  · simp [lift, ClassDef.method?, callMethod, emptyConstructor, h]

/-- The constructor does nothing, but it takes a call. -/
theorem emptyConstructor_run {ctx : Context} (n : Nat) (cls receiver : String)
    (names : Conventions) (v : Value) (hs : s.frames.length < ctx.maxDepth) :
    (callFunction ctx (n + 1) (emptyConstructor cls receiver names) [v]).run s =
      (.ok .none, s) := by
  rw [callFunction_run rfl hs]
  rfl

/-- The constructor runs and does nothing in every state with the same open calls. -/
def ConstructorIdle (k : Calls) (cls receiver : String) (s : Machine) : Prop :=
  ∀ v t, t.frames = s.frames →
    (k.enter (emptyConstructor cls receiver k.ctx.names) [v]).run t = (.ok .none, t)

/-- Making an object of the class of a closure, with the method that has the name of the constructor
there. -/
theorem instantiate_lift_of_method {m : FunDef}
    (hcls : k.ctx.program.class? cls = some (lift closure cls captures receiver k.ctx.names).cls)
    (hm : (lift closure cls captures receiver k.ctx.names).cls.method? k.ctx.names.constructor =
      some m) (args : List Value) :
    (instantiate k (lift closure cls captures receiver k.ctx.names).cls args).run s =
      (k.enter m (.object s.heap.objects.size :: args) >>= fun _ =>
          pure (.object s.heap.objects.size)).run
        { s with heap := s.heap.pushObject ⟨cls, blankFields captures⟩ } := by
  have fields : (lift closure cls captures receiver k.ctx.names).cls.fields.map
      (fun v => (v.name, v.value.toValue)) =
        captures.entries.map fun e => (e.1, (Literal.defaultFor e.2).toValue) := by
    simp only [lift, captureFields, List.map_map]
    rfl
  have new : (newObject ⟨(lift closure cls captures receiver k.ctx.names).cls.name,
      .ofList ((lift closure cls captures receiver k.ctx.names).cls.fields.map
        fun v => (v.name, v.value.toValue))⟩).run s =
        (.ok s.heap.objects.size,
          { s with heap := s.heap.pushObject ⟨cls, blankFields captures⟩ }) := by
    rw [fields]
    rfl
  have invoked : (invoke k s.heap.objects.size k.ctx.names.constructor args).run
      { s with heap := s.heap.pushObject ⟨cls, blankFields captures⟩ } =
        (k.enter m (.object s.heap.objects.size :: args)).run
          { s with heap := s.heap.pushObject ⟨cls, blankFields captures⟩ } := by
    refine run_invoke ?_
    rw [s.heap.object_pushObject_self]
    dsimp only
    rw [hcls, Option.bind_some, hm]
  rw [instantiate, run_bind_of_ok new, hm, Option.isSome_some, if_pos rfl, run_bind, run_bind,
    invoked]

theorem instantiate_lift_run (hcall : k.ctx.names.callMethod ≠ k.ctx.names.constructor)
    (hcls : k.ctx.program.class? cls = some (lift closure cls captures receiver k.ctx.names).cls)
    (idle : ConstructorIdle k cls receiver s) :
    (instantiate k (lift closure cls captures receiver k.ctx.names).cls []).run s =
      (.ok (.object s.heap.objects.size),
        { s with heap := s.heap.pushObject ⟨cls, blankFields captures⟩ }) := by
  have method : (lift closure cls captures receiver k.ctx.names).cls.method?
      k.ctx.names.constructor = some (emptyConstructor cls receiver k.ctx.names) := by
    rw [method?_lift_constructor, if_neg hcall]
  have idles := idle (.object s.heap.objects.size)
    { s with heap := s.heap.pushObject ⟨cls, blankFields captures⟩ } rfl
  rw [instantiate_lift_of_method hcls method, run_bind_of_ok idles]
  rfl

/-- The values are those that the variables of their names have when a closure is declared. -/
def Records (p : Program) (s : Machine) (closure : String) (recorded : List (String × Value)) :
    Prop :=
  ∀ r ∈ recorded, if r.1 = closure then r.2 = .object s.heap.objects.size
    else s.lookup? p r.1 = some r.2

/-- The statements in the place of a declaration. -/
theorem creation_lift_run (hcall : k.ctx.names.callMethod ≠ k.ctx.names.constructor)
    (hcls : k.ctx.program.class? cls = some (lift closure cls captures receiver k.ctx.names).cls)
    (idle : ConstructorIdle k cls receiver s) (hvar : s.isVariable cls = false)
    {recorded : List (String × Value)} (hnames : recorded.map Prod.fst = captures.names)
    (hrec : Records k.ctx.program s closure.name recorded) :
    (Stmt.execList k (lift closure cls captures receiver k.ctx.names).creation).run s =
      (.ok .normal, { s with
        heap := s.heap.pushObject ⟨cls, (blankFields captures).insertAll recorded⟩ }.store
          closure.name (.object s.heap.objects.size)) := by
  have called : ((Expr.call (.id cls closure.span) []).eval k).run s =
      (.ok (.object s.heap.objects.size),
        { s with heap := s.heap.pushObject ⟨cls, blankFields captures⟩ }) := by
    have found : calleeClass? k s (.id cls closure.span) =
        some (lift closure cls captures receiver k.ctx.names).cls :=
      calleeClass?_eq_some.2 ⟨cls, rfl, hvar, hcls⟩
    rw [Expr.eval, run_get_bind, found]
    exact instantiate_lift_run hcall hcls idle
  have assigned : (Stmt.exec k (.assign closure.name (.call (.id cls closure.span) []))).run s =
      (.ok .normal, { s.store closure.name (.object s.heap.objects.size) with
        heap := s.heap.pushObject ⟨cls, blankFields captures⟩ }) := by
    rw [Stmt.exec, run_bind_of_ok called, run_modify_bind, store_withHeap]
    rfl
  have statements : (lift closure cls captures receiver k.ctx.names).creation =
      .assign closure.name (.call (.id cls closure.span) []) ::
        captures.names.map fun x =>
          .setField (.id closure.name closure.span) x (.id x closure.span) := rfl
  rw [statements, Stmt.execList, run_bind_of_ok assigned, ← hnames,
    store_withHeap s (s.heap.pushObject _)]
  refine setFields_run (lookup?_store_self _ _ _ _) recorded (fun r hr => ?_) _ fun r hr => ?_
  · have value := hrec r hr
    split at value
    · rename_i hx
      rw [hx, lookup?_store_self, value]
    · rename_i hx
      rw [lookup?_store_of_ne _ _ hx, value]
  · rw [mem_names_blankFields, ← hnames]
    exact List.mem_map_of_mem hr

end Lifting

/-! ### Captured values -/

/-- A store changes only the variable: of the innermost call, or a global one. -/
structure StoresOnly (x : String) (s t : Machine) : Prop where
  globals : ∀ y, y ≠ x → t.globals.get? y = s.globals.get? y
  frame : ∀ y, y ≠ x →
    (t.frames.head?.bind fun f => f.vars.get? y) = s.frames.head?.bind fun f => f.vars.get? y
  declared : t.frames.head?.map Frame.globals = s.frames.head?.map Frame.globals
  below : t.frames.tail = s.frames.tail
  output : t.output = s.output

theorem storesOnly (s : Machine) (h : Heap) (x : String) (v : Value) :
    StoresOnly x s ({ s with heap := h }.store x v) := by
  rw [Machine.store]
  split
  · rename_i f fs hF
    have hF : s.frames = f :: fs := hF
    split
    · exact ⟨fun _ _ => rfl, fun y hy => by simp [hF, Frame.set, Bindings.get?_insert_of_ne _ hy],
        by simp [hF, Frame.set], by simp [hF], rfl⟩
    · exact ⟨fun y hy => Bindings.get?_insert_of_ne _ hy v, fun _ _ => rfl, rfl, rfl, rfl⟩
  · exact ⟨fun y hy => Bindings.get?_insert_of_ne _ hy v, fun _ _ => rfl, rfl, rfl, rfl⟩

/-- The state `t` has one object more than `s`, of the class `cls`.  The variable `name` holds it,
and its fields have the values that the captured variables have in `s`; the field with the name of
the variable holds the object itself. -/
structure HoldsCaptured (p : Program) (name cls : String) (captures : Captures) (s t : Machine) :
    Prop extends StoresOnly name s t where
  size : t.heap.objects.size = s.heap.objects.size + 1
  old : ∀ ref < s.heap.objects.size, t.heap.object ref = s.heap.object ref
  lists : t.heap.lists = s.heap.lists
  bound : t.lookup? p name = some (.object s.heap.objects.size)
  others : ∀ x, x ≠ name → t.lookup? p x = s.lookup? p x
  cls : (t.heap.object s.heap.objects.size).cls = cls
  fields : ∀ x, (t.heap.object s.heap.objects.size).fields.get? x =
    if x ∈ captures.names then
      if x = name then some (.object s.heap.objects.size) else s.lookup? p x
    else none

/-- The value that is stored in a field when a closure is declared. -/
def capturedValue (p : Program) (s : Machine) (name x : String) : Value :=
  if x = name then .object s.heap.objects.size else (s.lookup? p x).getD .none

theorem holdsCaptured {p : Program} {name cls : String} {captures : Captures} {s : Machine}
    (readable : ∀ x ∈ captures.names, x ≠ name → (s.lookup? p x).isSome) :
    HoldsCaptured p name cls captures s
      ({ s with heap := s.heap.pushObject ⟨cls, (blankFields captures).insertAll
        (captures.names.map fun x => (x, capturedValue p s name x))⟩ }.store name
          (.object s.heap.objects.size)) where
  toStoresOnly := storesOnly s _ name _
  size := by
    rw [heap_store]
    exact Array.size_push _
  old ref hr := by
    rw [heap_store]
    exact s.heap.object_pushObject_of_lt _ hr
  lists := by
    rw [heap_store]
    rfl
  bound := lookup?_store_self _ _ _ _
  others x hx := lookup?_store_of_ne _ _ hx _
  cls := by rw [heap_store, s.heap.object_pushObject_self]
  fields x := by
    rw [heap_store, s.heap.object_pushObject_self]
    dsimp only
    split
    · rename_i hx
      rw [Bindings.get?_insertAll_map _ hx, capturedValue]
      split
      · rfl
      · rename_i other
        obtain ⟨v, hv⟩ := Option.isSome_iff_exists.1 (readable x hx other)
        rw [hv]
        rfl
    · rename_i hx
      rw [Bindings.get?_insertAll_of_not_mem (by simpa using hx), Bindings.get?_eq_none_iff,
        mem_names_blankFields]
      exact hx

/-- An assignment changes the heap only in finding the value. -/
theorem heap_assign (k : Calls) (x : String) (e : Expr) (s : Machine) :
    ((Stmt.exec k (.assign x e)).run s).2.heap = ((e.eval k).run s).2.heap := by
  rw [Stmt.exec, run_bind]
  rcases (e.eval k).run s with ⟨_ | v, t⟩
  · rfl
  · exact heap_store t x v

/-- Assignments whose values are found without a change to an object do not change it. -/
theorem object_assignments {ref : Nat} (later : List (String × Expr))
    (h : ∀ a ∈ later, Along (fun s t => t.heap.object ref = s.heap.object ref) (a.2.eval k)) :
    Along (fun s t => t.heap.object ref = s.heap.object ref)
      (Stmt.execList k (later.map fun a => .assign a.1 a.2)) := by
  have trans ⦃s t u : Machine⦄ (h : t.heap.object ref = s.heap.object ref)
      (h' : u.heap.object ref = t.heap.object ref) : u.heap.object ref = s.heap.object ref :=
    h'.trans h
  induction later with
  | nil => exact fun _ => rfl
  | cons a later ih =>
    have first : Along (fun s t => t.heap.object ref = s.heap.object ref)
        (Stmt.exec k (.assign a.1 a.2)) := by
      intro s
      rw [heap_assign]
      exact h a List.mem_cons_self s
    refine .bind trans first fun flow => ?_
    cases flow with
    | normal => exact ih fun b hb => h b (List.mem_cons_of_mem _ hb)
    | _ => exact fun _ => rfl

/-- **Capture by value.**  The statements in the place of a declaration succeed if the class is the
first one of its name and no variable hides it, if there is room for one more call, and if the
captured variables can be read.  They make one object that holds the values that the captured
variables had, and assign it; nothing else changes.  An assignment, whatever it assigns to, changes
the heap only in finding the value; so assignments afterwards do not change the object, unless
finding their values does. -/
theorem declaration_captures_by_value {ctx : Context} {closure : FunDef} {cls receiver : String}
    {captures : Captures} {s : Machine} (fuel : Nat)
    (methods : ctx.names.callMethod ≠ ctx.names.constructor)
    (first : ctx.program.class? cls = some (lift closure cls captures receiver ctx.names).cls)
    (unhidden : s.isVariable cls = false) (depth : s.frames.length < ctx.maxDepth)
    (readable : ∀ x ∈ captures.names, x ≠ closure.name → (s.lookup? ctx.program x).isSome) :
    ∃ t, (Stmt.execList (ctx.calls (fuel + 1))
          (lift closure cls captures receiver ctx.names).creation).run s = (.ok .normal, t) ∧
      HoldsCaptured ctx.program closure.name cls captures s t ∧
      (∀ (n : Nat) (x : String) (e : Expr) (u : Machine),
        ((Stmt.exec (ctx.calls n) (.assign x e)).run u).2.heap =
          ((e.eval (ctx.calls n)).run u).2.heap) ∧
      ∀ (n : Nat) (later : List (String × Expr)),
        (∀ a ∈ later, Along (fun u w => w.heap.object s.heap.objects.size =
          u.heap.object s.heap.objects.size) (a.2.eval (ctx.calls n))) →
        ((Stmt.execList (ctx.calls n) (later.map fun a => .assign a.1 a.2)).run t).2.heap.object
          s.heap.objects.size = t.heap.object s.heap.objects.size := by
  have idle : ConstructorIdle (ctx.calls (fuel + 1)) cls receiver s :=
    fun v t ht => emptyConstructor_run fuel cls receiver _ v (ht ▸ depth)
  have recorded : Records ctx.program s closure.name
      (captures.names.map fun x => (x, capturedValue ctx.program s closure.name x)) := by
    intro r hr
    obtain ⟨x, hx, rfl⟩ := List.mem_map.1 hr
    dsimp only
    split
    · rename_i own
      rw [capturedValue, if_pos own]
    · rename_i other
      obtain ⟨v, hv⟩ := Option.isSome_iff_exists.1 (readable x hx other)
      rw [capturedValue, if_neg other, hv]
      rfl
  have names : (captures.names.map fun x =>
      (x, capturedValue ctx.program s closure.name x)).map Prod.fst = captures.names := by
    rw [List.map_map]
    exact List.map_id _
  exact ⟨_, creation_lift_run methods first idle unhidden names recorded, holdsCaptured readable,
    fun n => heap_assign (ctx.calls n), fun n later h => object_assignments later h _⟩

/-- A closure that captures a variable and itself. -/
def countdown : FunDef := ⟨"countdown", [], .int, [], [], .dummy⟩

/-- The variables that it captures. -/
def countdownCaptures : Captures := ⟨[("k", .int), ("countdown", .callable [] .int)]⟩

/-- A program with its class. -/
def countdownContext : Context where
  program := { classes := [(lift countdown "Clo_0_countdown" countdownCaptures "self" {}).cls] }

/-- A call in which it can be declared. -/
def countdownState : Machine := { frames := [⟨⟨[("k", .int 7)]⟩, []⟩] }

theorem countdown_captures_by_value :
    ∃ t, (Stmt.execList (countdownContext.calls 1)
          (lift countdown "Clo_0_countdown" countdownCaptures "self" {}).creation).run
        countdownState = (.ok .normal, t) ∧
      t.lookup? countdownContext.program "countdown" = some (.object 0) ∧
      (t.heap.object 0).fields.get? "k" = some (.int 7) ∧
      (t.heap.object 0).fields.get? "countdown" = some (.object 0) ∧
      ((Stmt.execList (countdownContext.calls 1)
        [.assign "k" (.literal (.num 8))]).run t).2.heap.object 0 = t.heap.object 0 := by
  have first : countdownContext.program.class? "Clo_0_countdown" = some
      (lift countdown "Clo_0_countdown" countdownCaptures "self" countdownContext.names).cls := rfl
  have unhidden : countdownState.isVariable "Clo_0_countdown" = false := rfl
  obtain ⟨t, run, holds, -, later⟩ :=
    declaration_captures_by_value 0 (by decide) first unhidden (by decide) (by decide)
  refine ⟨t, run, holds.bound, holds.fields "k", holds.fields "countdown", ?_⟩
  refine later 1 [("k", .literal (.num 8))] fun a ha => ?_
  obtain rfl := List.mem_singleton.1 ha
  exact fun _ => rfl

end FlatClosure

import FlatClosure.Proofs.Endings

/-!
# The shape of objects

An object has a class of the program and exactly the fields that the class declares, from when it is
made to the end of the run.  Of several classes of one name it is the first that counts.

* `Heap.Shaped` : all objects fit their classes.
* `Heap.Kept` : no object has gone, changed its class, or gained or lost a field.
* `upholds_callLaw` : calls, and with them all code, keep objects and their shape.
* `Starts.after` : what a point leaves is kept by what the point that led to it leaves.
* `objects_keep_shape` : **at every point of a run all objects fit their classes, and are kept to
  the end.**
-/

namespace FlatClosure

variable {α β : Type} {p : Program}

/-! ### Shapes -/

/-- The object has exactly the fields that its class declares. -/
def Instance.Fits (p : Program) (o : Instance) : Prop :=
  ∃ c, p.class? o.cls = some c ∧ ∀ x, x ∈ o.fields.names ↔ x ∈ c.fields.map (·.name)

/-- All objects have the fields that their classes declare. -/
def Heap.Shaped (p : Program) (h : Heap) : Prop := ∀ o ∈ h.objects, o.Fits p

/-- All objects are still there, with their classes and the names of their fields. -/
def Heap.Kept (h h' : Heap) : Prop :=
  ∀ (ref : Nat) (o : Instance), h.objects[ref]? = some o →
    ∃ o' : Instance, h'.objects[ref]? = some o' ∧ o'.cls = o.cls ∧ o'.fields.names = o.fields.names

theorem ClassDef.fresh_fits {x : String} {c : ClassDef} (h : p.class? x = some c) :
    c.fresh.Fits p := by
  have name : c.name = x := by simpa using List.find?_some h
  have found : p.class? c.name = some c := name.symm ▸ h
  refine ⟨c, found, fun y => ?_⟩
  simp [ClassDef.fresh, Bindings.ofList, Bindings.mem_names_insertAll]

namespace Heap

variable {h h' h'' : Heap}

theorem Kept.trans (first : h.Kept h') (second : h'.Kept h'') : h.Kept h'' := by
  intro ref o ho
  obtain ⟨o', ho', cls, names⟩ := first ref o ho
  obtain ⟨o'', ho'', cls', names'⟩ := second ref o' ho'
  exact ⟨o'', ho'', cls'.trans cls, names'.trans names⟩

/-- An object that fits its class fits it as long as it is kept. -/
theorem fits_of_kept {o o' : Instance} (fits : o.Fits p) (cls : o'.cls = o.cls)
    (names : o'.fields.names = o.fields.names) : o'.Fits p := by
  obtain ⟨c, hc, hx⟩ := fits
  exact ⟨c, cls.symm ▸ hc, names.symm ▸ hx⟩

theorem kept_pushObject (h : Heap) (o : Instance) : h.Kept (h.pushObject o) := by
  intro ref o' ho'
  refine ⟨o', ?_, rfl, rfl⟩
  obtain ⟨hlt, rfl⟩ := Array.getElem?_eq_some_iff.1 ho'
  exact Array.getElem?_push_lt hlt

theorem Shaped.pushObject (shaped : h.Shaped p) {o : Instance} (fits : o.Fits p) :
    (h.pushObject o).Shaped p := by
  intro o' ho'
  rcases Array.mem_push.1 ho' with ho' | rfl
  · exact shaped o' ho'
  · exact fits

section SetField

variable {ref : Nat} {x : String}

theorem names_setField (hx : (h.object ref).fields.contains x = true) (v : Value) :
    ((h.object ref).fields.insert x v).names = (h.object ref).fields.names := by
  rw [Bindings.names_insert, if_pos (Bindings.contains_iff.1 hx)]

/-- Changing a field that an object has keeps all objects. -/
theorem kept_setField (hx : (h.object ref).fields.contains x = true) (v : Value) :
    h.Kept (h.setField ref x v) := by
  intro r o ho
  obtain ⟨hlt, -⟩ := Array.getElem?_eq_some_iff.1 ho
  by_cases hr : ref = r
  · subst hr
    have same : h.object ref = o := by rw [object, ho, Option.getD_some]
    refine ⟨_, Array.getElem?_setIfInBounds_self_of_lt hlt, ?_, ?_⟩
    · rw [← same]
    · exact (names_setField hx v).trans (congrArg (·.fields.names) same)
  · exact ⟨o, (Array.getElem?_setIfInBounds_ne hr).trans ho, rfl, rfl⟩

theorem Shaped.setField (shaped : h.Shaped p) (hx : (h.object ref).fields.contains x = true)
    (v : Value) : (h.setField ref x v).Shaped p := by
  intro o ho
  rcases Array.mem_or_eq_of_mem_setIfInBounds ho with ho | rfl
  · exact shaped o ho
  · -- an object that is not there has no field that could be changed
    rcases hr : h.objects[ref]? with _ | o
    · simp [object, hr] at hx
      cases hx
    · have same : h.object ref = o := by rw [object, hr, Option.getD_some]
      refine fits_of_kept (shaped o (Array.mem_of_getElem? hr)) ?_ ?_
      · rw [← same]
      · exact (names_setField hx v).trans (congrArg (·.fields.names) same)

end SetField

end Heap

/-! ### Steps -/

/-- From the first state to the second all objects are kept, and if they fit their classes in the
first they do so in the second. -/
structure Upholds (p : Program) (s t : Machine) : Prop where
  kept : s.heap.Kept t.heap
  shaped : s.heap.Shaped p → t.heap.Shaped p

namespace Upholds

variable {s t u : Machine}

theorem of_objects (h : t.heap.objects = s.heap.objects) : Upholds p s t where
  kept := by
    intro ref o ho
    exact ⟨o, h ▸ ho, rfl, rfl⟩
  shaped shaped o ho := shaped o (h ▸ ho)

theorem refl (s : Machine) : Upholds p s s := of_objects rfl

theorem trans (h : Upholds p s t) (h' : Upholds p t u) : Upholds p s u where
  kept := h.kept.trans h'.kept
  shaped shaped := h'.shaped (h.shaped shaped)

end Upholds

theorem upholds_stepLaw (p : Program) : StepLaw (Along (Upholds p)) :=
  along_stepLaw (fun _ _ _ => Upholds.trans) fun h s => .of_objects (h.objects s)

theorem upholds_newObject {x : String} {c : ClassDef} (h : p.class? x = some c) :
    Along (Upholds p) (newObject c.fresh) := fun s =>
  ⟨s.heap.kept_pushObject c.fresh, fun shaped => shaped.pushObject (c.fresh_fits h)⟩

theorem upholds_storeField (v : Value) (x : String) (w : Value) :
    Along (Upholds p) (storeField v x w) := by
  cases v with
  | object ref =>
    intro s
    unfold storeField
    rw [run_get_bind]
    dsimp only
    split
    · rename_i hx
      exact ⟨Heap.kept_setField hx w, fun shaped => shaped.setField hx w⟩
    · exact .refl s
  | _ => exact .refl

theorem upholds_execLaw (p : Program) :
    ExecLaw p (fun _ => True) (Along (Upholds p)) (Along (Upholds p)) where
  eval :=
    { upholds_stepLaw p with
      object := upholds_newObject
      init s := by
        refine .of_objects ?_
        change (s.initGlobals p).heap.objects = _
        unfold Machine.initGlobals
        split <;> rfl
      gather x _ _ h items :=
        along_gatherShadowing (upholds_stepLaw p) (fun _ _ _ => Upholds.trans)
          (fun _ _ => .of_objects objects_shadow) (fun _ _ => .of_objects objects_restore) h items }
  block := upholds_stepLaw p
  le h := h
  store x _ v s := .of_objects (congrArg Heap.objects (heap_store s x v))
  declare x _ s := by
    refine .of_objects ?_
    change (s.declareGlobal x).heap.objects = _
    unfold Machine.declareGlobal
    split <;> rfl
  field := upholds_storeField
  closure _ _ := .refl

/-- **Calls keep objects and their shape.** -/
theorem upholds_callLaw (p : Program) :
    CallLaw p (Along (Upholds p)) (fun _ _ => True) (fun _ => Along (Upholds p))
      fun _ => Along (Upholds p) where
  step := upholds_stepLaw p
  exec _ := upholds_execLaw p
  effects _ _ _ _ := trivial
  le _ _ _ h := h
  frame f args _ _ _ h s := ⟨(h (f.opened args s)).kept, (h (f.opened args s)).shaped⟩

theorem Context.calls_uphold (ctx : Context) (n : Nat) :
    (ctx.calls n).Have (Along (Upholds ctx.program)) := (upholds_callLaw ctx.program).callFunction n

theorem Context.lasting_uphold (ctx : Context) (n : Nat) :
    Lasting (ctx.calls n) (Upholds ctx.program) where
  law := upholds_execLaw ctx.program
  trans _ _ _ := .trans
  calls := ctx.calls_uphold n
  shadow _ _ _ := .of_objects objects_shadow
  restore _ _ _ := .of_objects objects_restore
  frames _ _ := .of_objects rfl

/-! ### Fields and items -/

section Access

variable {t : Machine} {ref : Nat} {x : String}

theorem run_getField_of_mem (h : x ∈ (t.heap.object ref).fields.names) :
    ∃ v, (getField (.object ref) x).run t = (.ok v, t) := by
  obtain ⟨v, hv⟩ := Bindings.exists_get?_of_mem h
  refine ⟨v, ?_⟩
  unfold getField
  rw [run_get_bind]
  dsimp only
  rw [hv]
  rfl

theorem run_getField_of_not_mem (h : x ∉ (t.heap.object ref).fields.names) :
    (getField (.object ref) x).run t =
      (.error (.error (.noSuchField (t.heap.object ref).cls x)), t) := by
  unfold getField
  rw [run_get_bind]
  dsimp only
  rw [Bindings.get?_eq_none_iff.2 h]
  rfl

theorem run_storeField (w : Value) :
    (storeField (.object ref) x w).run t =
      if x ∈ (t.heap.object ref).fields.names then
        (.ok (), { t with heap := t.heap.setField ref x w })
      else (.error (.error (.noSuchField (t.heap.object ref).cls x)), t) := by
  unfold storeField
  rw [run_get_bind]
  dsimp only
  simp only [Bindings.contains_iff]
  split <;> rfl

/-- A field that cannot be changed leaves the state as it is. -/
theorem state_of_storeField_error {v w : Value} {e : Stop}
    (h : ((storeField v x w).run t).1 = .error e) : ((storeField v x w).run t).2 = t := by
  cases v with
  | object ref =>
    rw [run_storeField] at h ⊢
    split at h
    · cases h
    · rename_i hx
      rw [if_neg hx]
  | _ => rfl

/-- An item that cannot be changed leaves the state as it is. -/
theorem state_of_storeItem_error {v i w : Value} {e : Stop}
    (h : ((storeItem v i w).run t).1 = .error e) : ((storeItem v i w).run t).2 = t := by
  cases v with
  | list ref =>
    have index : ((checkedIndex i (t.heap.length ref)).run t).2 = t := by
      cases i with
      | int n =>
        unfold checkedIndex
        dsimp only
        split <;> rfl
      | _ => rfl
    unfold storeItem at h ⊢
    rw [run_get_bind, run_bind] at h ⊢
    rcases hr : (checkedIndex i (t.heap.length ref)).run t with ⟨e' | j, u⟩ <;> rw [hr] at h index
    · exact index
    · cases h
  | _ => rfl

/-- The fields that can be read and changed are those that the class declares. -/
theorem Heap.Shaped.access (shaped : t.heap.Shaped p) (hr : ref < t.heap.objects.size) :
    ∃ c, p.class? (t.heap.object ref).cls = some c ∧ ∀ x w,
      if x ∈ c.fields.map (·.name) then
        (∃ v, (getField (.object ref) x).run t = (.ok v, t)) ∧
          (storeField (.object ref) x w).run t =
            (.ok (), { t with heap := t.heap.setField ref x w })
      else
        (getField (.object ref) x).run t = (.error (.error (.noSuchField c.name x)), t) ∧
          (storeField (.object ref) x w).run t =
            (.error (.error (.noSuchField c.name x)), t) := by
  have found : t.heap.objects[ref]? = some (t.heap.object ref) := by
    rw [Heap.object, Array.getElem?_eq_getElem hr, Option.getD_some]
  obtain ⟨c, hc, fields⟩ := shaped _ (Array.mem_of_getElem? found)
  have name : c.name = (t.heap.object ref).cls := by simpa using List.find?_some hc
  refine ⟨c, hc, fun x w => ?_⟩
  rw [run_storeField, name]
  split
  · rename_i hx
    exact ⟨run_getField_of_mem ((fields x).2 hx), if_pos ((fields x).2 hx)⟩
  · rename_i hx
    have hx := mt (fields x).1 hx
    exact ⟨run_getField_of_not_mem hx, if_neg hx⟩

end Access

/-- **Objects keep their shape.**  Wherever the evaluator is while it serves requests, when it
starts on a piece of code and when it is done with it, every object has a class of the program and
exactly the fields that the class declares; it is still there when all requests have been served,
with the same class and the same fields.  So reading or changing a field of an object fails exactly
if its class does not declare the field.  A change of a field or of an item that fails changes
nothing. -/
theorem objects_keep_shape (ctx : Context) (fuel : Nat) (rs : List Request) {s : Machine}
    (start : s.heap.Shaped ctx.program) :
    (∀ n a, Visited ctx fuel rs s n a →
        a.state.heap.Shaped ctx.program ∧ (a.after (ctx.calls n)).heap.Shaped ctx.program ∧
        s.heap.Kept a.state.heap ∧ a.state.heap.Kept (a.after (ctx.calls n)).heap ∧
        (a.after (ctx.calls n)).heap.Kept (stateAfter ctx fuel rs s).heap) ∧
      (stateAfter ctx fuel rs s).heap.Shaped ctx.program ∧
      (∀ t : Machine, t.heap.Shaped ctx.program → ∀ ref < t.heap.objects.size,
        ∃ c, ctx.program.class? (t.heap.object ref).cls = some c ∧ ∀ x w,
          if x ∈ c.fields.map (·.name) then
            (∃ v, (getField (.object ref) x).run t = (.ok v, t)) ∧
              (storeField (.object ref) x w).run t =
                (.ok (), { t with heap := t.heap.setField ref x w })
          else
            (getField (.object ref) x).run t = (.error (.error (.noSuchField c.name x)), t) ∧
              (storeField (.object ref) x w).run t =
                (.error (.error (.noSuchField c.name x)), t)) ∧
      ∀ (t : Machine) (v w : Value) (e : Stop),
        (∀ x, ((storeField v x w).run t).1 = .error e → ((storeField v x w).run t).2 = t) ∧
        ∀ i, ((storeItem v i w).run t).1 = .error e → ((storeItem v i w).run t).2 = t := by
  have lasting := ctx.lasting_uphold
  refine ⟨fun n a visited => ?_, (lasts_stateAfter lasting rs s).shaped start,
    fun t shaped ref hr => shaped.access hr,
    fun t v w e => ⟨fun x => state_of_storeField_error, fun i => state_of_storeItem_error⟩⟩
  have before := visited.since lasting
  have during := visited.along lasting
  exact ⟨before.shaped start, during.shaped (before.shaped start), before.kept, during.kept,
    (visited.lasts lasting).kept⟩

theorem objects_keep_shape_adder :
    ∃ o : Instance, (stateAfter ⟨adderProgram.converted {}, {}, 9⟩ 4
        [.call "adder" [.int 5]] {}).heap.objects[0]? = some o ∧ o.cls = "Clo_0_add" ∧
      o.Fits (adderProgram.converted {}) := by
  have shaped := (objects_keep_shape ⟨adderProgram.converted {}, {}, 9⟩ 4 [.call "adder" [.int 5]]
    (s := {}) fun o ho => absurd ho (Array.not_mem_empty o)).2.1
  have made : (stateAfter ⟨adderProgram.converted {}, {}, 9⟩ 4
      [.call "adder" [.int 5]] {}).heap.objects[0]? = some _ := rfl
  exact ⟨_, made, rfl, shaped _ (Array.mem_of_getElem? made)⟩

end FlatClosure

import FlatClosure.Proofs.Isolation

/-!
# Objects out of reach

An object is out of reach of the running code if no value that the code can get at refers to it:
no global variable, no item of a list, no field and no variable of the innermost call.  Such code
cannot get hold of the object.  It leaves the object as it is, and it yields no value that refers to
it, whatever it calls; what the calls below the innermost one hold does not matter.

* `Unshared` : the object is out of reach.
* `Guarded` : the step leaves the object out of reach.
* `guarded_eval`, `guarded_execList` : **expressions and statements do.**
* `guarded_calls` : **so does every call.**
-/

namespace FlatClosure

variable {α β : Type} {ref : Nat} {o : Instance}

/-! ### References -/

mutual

/-- The value refers to the object, itself or in an item of a tuple. -/
def Value.refersTo (ref : Nat) : Value → Bool
  | .object r => r == ref
  | .tuple items => Value.anyRefersTo ref items
  | _ => false

/-- One of the values refers to the object. -/
def Value.anyRefersTo (ref : Nat) : List Value → Bool
  | [] => false
  | v :: vs => v.refersTo ref || Value.anyRefersTo ref vs

end

/-- The value does not refer to the object. -/
abbrev Misses (ref : Nat) (v : Value) : Prop := v.refersTo ref = false

theorem misses_object {r : Nat} : Misses ref (.object r) ↔ r ≠ ref := by
  simp [Misses, Value.refersTo]

theorem misses_tuple {vs : List Value} : Misses ref (.tuple vs) ↔ ∀ v ∈ vs, Misses ref v := by
  rw [Misses, Value.refersTo]
  induction vs with
  | nil => simp [Value.anyRefersTo]
  | cons v vs ih => rw [Value.anyRefersTo, Bool.or_eq_false_iff, ih, List.forall_mem_cons]

theorem misses_literal (v : Literal) : Misses ref v.toValue := by
  cases v <;> rfl

theorem misses_inits (vs : List VarInit) :
    ∀ p ∈ vs.map fun v => (v.name, v.value.toValue), Misses ref p.2 := by
  intro p hp
  obtain ⟨v, -, rfl⟩ := List.mem_map.1 hp
  exact misses_literal v.value

theorem misses_headD {vs : List Value} (h : ∀ v ∈ vs, Misses ref v) :
    Misses ref (vs.headD .none) := by
  cases vs with
  | nil => rfl
  | cons v vs => exact h v List.mem_cons_self

theorem mem_dedupFrom {h : Heap} {kept vs : List Value} {v : Value}
    (hv : v ∈ Value.dedupFrom h kept vs) : v ∈ kept ∨ v ∈ vs := by
  induction vs generalizing kept with
  | nil => exact .inl hv
  | cons w vs ih =>
    rw [Value.dedupFrom] at hv
    split at hv
    · exact (ih hv).imp_right (List.mem_cons_of_mem w)
    · rcases ih hv with hv | hv
      · rcases List.mem_append.1 hv with hv | hv
        · exact .inl hv
        · exact .inr (List.mem_singleton.1 hv ▸ List.mem_cons_self)
      · exact .inr (List.mem_cons_of_mem w hv)

theorem mem_of_mem_dedup {h : Heap} {vs : List Value} {v : Value} (hv : v ∈ Value.dedup h vs) :
    v ∈ vs :=
  (mem_dedupFrom hv).resolve_left List.not_mem_nil

/-! ### The heap -/

namespace Heap

variable {h : Heap} {r r' : Nat} {v w : Value}

theorem mem_items_pushList {vs : List Value} (hv : v ∈ (h.pushList vs).items r) :
    v ∈ vs ∨ v ∈ h.items r := by
  rw [items, pushList, Array.getElem?_push] at hv
  split at hv
  · exact .inl (by simpa using hv)
  · exact .inr hv

theorem mem_items_append (hv : v ∈ (h.append r' w).items r) : v = w ∨ v ∈ h.items r := by
  rw [items, append, Array.getElem?_modify] at hv
  split at hv
  · cases hl : h.lists[r]? with
    | none => simp [hl] at hv
    | some l => simpa [hl, items, or_comm] using hv
  · exact .inr hv

theorem mem_items_setItem {i : Nat} (hv : v ∈ (h.setItem r' i w).items r) :
    v = w ∨ v ∈ h.items r := by
  rw [items, setItem, Array.getElem?_modify] at hv
  split at hv
  · cases hl : h.lists[r]? with
    | none => simp [hl] at hv
    | some l =>
      simp only [hl, Option.map_some, Option.getD_some, Array.toList_setIfInBounds] at hv
      rcases List.mem_or_eq_of_mem_set hv with hv | hv
      · exact .inr (by simpa [items, hl] using hv)
      · exact .inl hv
  · exact .inr hv

theorem object_setField_of_ne {x : String} (hr : r' ≠ r) :
    (h.setField r' x w).object r = h.object r := by
  rw [object, setField, Array.getElem?_setIfInBounds, if_neg hr, object]

theorem fields_setField {x : String} :
    ((h.setField r x w).object r).fields = (h.object r).fields ∨
      ((h.setField r x w).object r).fields = (h.object r).fields.insert x w := by
  rw [object, setField, Array.getElem?_setIfInBounds, if_pos rfl]
  split
  · exact .inr rfl
  · rename_i hr
    refine .inl ?_
    rw [object, Array.getElem?_eq_none (Nat.le_of_not_lt hr)]

end Heap

/-! ### Objects out of reach -/

/-- The object `o` is at the place `ref`, and no value in the heap, among the global variables and
among the variables of the innermost call refers to it. -/
structure Unshared (ref : Nat) (o : Instance) (s : Machine) : Prop where
  object : s.heap.objects[ref]? = some o
  lists : ∀ r, ∀ v ∈ s.heap.items r, Misses ref v
  fields : ∀ r, (s.heap.object r).fields.Forall (Misses ref)
  globals : s.globals.Forall (Misses ref)
  top : ∀ f ∈ s.frames.head?, f.vars.Forall (Misses ref)

namespace Unshared

variable {s : Machine} {v : Value} {x : String}

theorem head (h : Unshared ref o s) {f : Frame} {fs : List Frame} (hs : s.frames = f :: fs) :
    f.vars.Forall (Misses ref) :=
  h.top f (by rw [hs]; rfl)

theorem lookup? (h : Unshared ref o s) {p : Program} (hv : s.lookup? p x = some v) :
    Misses ref v := by
  unfold Machine.lookup? at hv
  split at hv
  · rename_i w hw
    cases hv
    obtain ⟨f, hf, hget⟩ := Option.bind_eq_some_iff.1 hw
    unfold Frame.get? at hget
    split at hget
    · cases hget
    · exact (h.top f hf).get? hget
  · split at hv
    · rename_i w hw
      cases hv
      exact h.globals.get? hw
    · split at hv
      · cases hv
        rfl
      · cases hv

theorem hidden? (h : Unshared ref o s) : ∀ v ∈ s.hidden? x, Misses ref v := by
  intro v hv
  unfold Machine.hidden? at hv
  split at hv
  · rename_i f fs hs
    exact (h.head hs).get? hv
  · exact h.globals.get? hv

/-! #### Variables -/

theorem setGlobals (h : Unshared ref o s) {b : Bindings Value} (hb : b.Forall (Misses ref)) :
    Unshared ref o { s with globals := b } :=
  { h with globals := hb }

theorem setTop (h : Unshared ref o s) {f : Frame} (hf : f.vars.Forall (Misses ref))
    (fs : List Frame) : Unshared ref o { s with frames := f :: fs } :=
  { h with top := fun _ hg => Option.some.inj hg ▸ hf }

theorem store (h : Unshared ref o s) (hv : Misses ref v) : Unshared ref o (s.store x v) := by
  unfold Machine.store
  split
  · rename_i f fs hs
    split
    · exact h.setTop ((h.head hs).insert hv) fs
    · exact h.setGlobals (h.globals.insert hv)
  · exact h.setGlobals (h.globals.insert hv)

theorem shadow (h : Unshared ref o s) (hv : Misses ref v) : Unshared ref o (s.shadow x v) := by
  unfold Machine.shadow
  split
  · rename_i f fs hs
    exact h.setTop ((h.head hs).insert hv) fs
  · exact h.setGlobals (h.globals.insert hv)

theorem restore (h : Unshared ref o s) {old : Option Value} (hold : ∀ v ∈ old, Misses ref v) :
    Unshared ref o (s.restore x old) := by
  unfold Machine.restore
  split
  · rename_i f fs hs
    refine h.setTop ?_ fs
    cases old with
    | none => exact (h.head hs).erase
    | some v => exact (h.head hs).insert (hold v rfl)
  · cases old with
    | none => exact h.setGlobals h.globals.erase
    | some v => exact h.setGlobals (h.globals.insert (hold v rfl))

theorem declareGlobal (h : Unshared ref o s) : Unshared ref o (s.declareGlobal x) := by
  unfold Machine.declareGlobal
  split
  · rename_i f fs hs
    exact h.setTop (by simpa using h.head hs) fs
  · exact h

theorem initGlobals (h : Unshared ref o s) (p : Program) : Unshared ref o (s.initGlobals p) := by
  unfold Machine.initGlobals
  split
  · exact h
  · exact { h with globals := h.globals.insertAll (misses_inits _) }

/-! #### The heap -/

theorem print (h : Unshared ref o s) (line : String) : Unshared ref o (s.print line) :=
  { h with }

theorem pushList (h : Unshared ref o s) {vs : List Value} (hvs : ∀ v ∈ vs, Misses ref v) :
    Unshared ref o { s with heap := s.heap.pushList vs } :=
  { h with lists := fun r w hw => (Heap.mem_items_pushList hw).elim (hvs w) (h.lists r w) }

theorem append (h : Unshared ref o s) (hv : Misses ref v) (r : Nat) :
    Unshared ref o { s with heap := s.heap.append r v } :=
  { h with lists := fun r w hw => (Heap.mem_items_append hw).elim (· ▸ hv) (h.lists r w) }

theorem setItem (h : Unshared ref o s) (hv : Misses ref v) (r i : Nat) :
    Unshared ref o { s with heap := s.heap.setItem r i v } :=
  { h with lists := fun r w hw => (Heap.mem_items_setItem hw).elim (· ▸ hv) (h.lists r w) }

theorem pushObject (h : Unshared ref o s) {new : Instance}
    (hnew : new.fields.Forall (Misses ref)) :
    Unshared ref o { s with heap := s.heap.pushObject new } := by
  have lt : ref < s.heap.objects.size := (Array.getElem?_eq_some_iff.1 h.object).1
  refine { h with object := ?_, fields := fun r => ?_ }
  · rw [← h.object]
    exact Array.getElem?_push_lt lt |>.trans (Array.getElem?_eq_getElem lt).symm
  · change (((s.heap.objects.push new)[r]?).getD default).fields.Forall _
    rw [Array.getElem?_push]
    split
    · exact hnew
    · exact h.fields r

/-- A field of another object is changed. -/
theorem setField (h : Unshared ref o s) {r : Nat} (hr : r ≠ ref) (hv : Misses ref v) :
    Unshared ref o { s with heap := s.heap.setField r x v } := by
  have fields (r' : Nat) : ((s.heap.setField r x v).object r').fields.Forall (Misses ref) := by
    by_cases e : r = r'
    · subst e
      rcases Heap.fields_setField (h := s.heap) (r := r) (w := v) (x := x) with same | inserted
      · rw [same]
        exact h.fields r
      · rw [inserted]
        exact (h.fields r).insert hv
    · rw [Heap.object_setField_of_ne e]
      exact h.fields r'
  refine { h with object := ?_, fields := fields }
  rw [← h.object]
  exact (Array.getElem?_setIfInBounds ..).trans (if_neg hr)

end Unshared

/-! ### Guarded steps -/

/-- The step leaves the object out of reach, and what it yields has the property. -/
def Guarded (ref : Nat) (o : Instance) (Q : α → Prop) (x : EvalM α) : Prop :=
  ∀ s, Unshared ref o s → Unshared ref o (x.run s).2 ∧ ∀ a, (x.run s).1 = .ok a → Q a

namespace Guarded

variable {Q : α → Prop} {R : β → Prop} {v w : Value} {vs : List Value}

theorem pure {a : α} (h : Q a) : Guarded ref o Q (pure a : EvalM α) := by
  intro s hs
  refine ⟨hs, fun b hb => ?_⟩
  cases hb
  exact h

theorem throw (e : Stop) : Guarded ref o Q (throw e : EvalM α) := by
  intro s hs
  refine ⟨hs, fun b hb => ?_⟩
  cases hb

theorem fail (e : EvalError) : Guarded ref o Q (fail e : EvalM α) := throw _

theorem ofExcept (x : Except EvalError α) : Guarded ref o (fun _ => True) (ofExcept x) := by
  cases x with
  | ok a => exact pure trivial
  | error e => exact fail e

theorem bind {x : EvalM α} {f : α → EvalM β} (hx : Guarded ref o Q x)
    (hf : ∀ a, Q a → Guarded ref o R (f a)) : Guarded ref o R (x >>= f) := by
  intro s hs
  obtain ⟨unshared, yields⟩ := hx s hs
  rw [run_bind]
  rcases hr : x.run s with ⟨e | a, t⟩ <;> rw [hr] at unshared yields
  · refine ⟨unshared, fun b hb => ?_⟩
    cases hb
  · exact hf a (yields a rfl) t unshared

theorem look {f : Machine → EvalM α} (hf : ∀ s, Unshared ref o s → Guarded ref o Q (f s)) :
    Guarded ref o Q (get >>= f) :=
  fun s hs => hf s hs s hs

theorem modifyGet {g : Machine → α × Machine}
    (h : ∀ s, Unshared ref o s → Unshared ref o (g s).2 ∧ Q (g s).1) :
    Guarded ref o Q (modifyGet g : EvalM α) := by
  intro s hs
  refine ⟨(h s hs).1, fun a ha => ?_⟩
  cases ha
  exact (h s hs).2

theorem modify {g : Machine → Machine} (h : ∀ s, Unshared ref o s → Unshared ref o (g s)) :
    Guarded ref o (fun _ => True) (modify g : EvalM Unit) :=
  modifyGet fun s hs => ⟨h s hs, trivial⟩

theorem ite {c : Prop} [Decidable c] {x y : EvalM α} (hx : Guarded ref o Q x)
    (hy : Guarded ref o Q y) : Guarded ref o Q (if c then x else y) := by
  split
  · exact hx
  · exact hy

theorem branch {x y : EvalM α} (hx : Guarded ref o Q x) (hy : Guarded ref o Q y) :
    Guarded ref o Q (get >>= fun s => if v.truthy s.heap then x else y) :=
  look fun _ _ => ite hx hy

/-! #### Operations on values -/

theorem typeError (expected : String) (v : Value) (operation : String) :
    Guarded ref o Q (typeError expected v operation : EvalM α) :=
  look fun _ _ => fail _

theorem newList (h : ∀ v ∈ vs, Misses ref v) : Guarded ref o (Misses ref) (newList vs) :=
  modifyGet fun _ hs => ⟨hs.pushList h, rfl⟩

theorem newSet (h : ∀ v ∈ vs, Misses ref v) :
    Guarded ref o (Misses ref) (get >>= fun s => FlatClosure.newList (Value.dedup s.heap vs)) :=
  look fun _ _ => newList fun v hv => h v (mem_of_mem_dedup hv)

theorem newObject {new : Instance} (h : new.fields.Forall (Misses ref)) :
    Guarded ref o (· ≠ ref) (newObject new) :=
  modifyGet fun _ hs =>
    ⟨hs.pushObject h, Nat.ne_of_gt (Array.getElem?_eq_some_iff.1 hs.object).1⟩

theorem itemsOf (hv : Misses ref v) (operation : String) :
    Guarded ref o (fun vs => ∀ v ∈ vs, Misses ref v) (itemsOf v operation) := by
  cases v with
  | list r => exact look fun s hs => pure (hs.lists r)
  | tuple items => exact pure (misses_tuple.1 hv)
  | str s =>
    refine pure fun w hw => ?_
    obtain ⟨c, -, rfl⟩ := List.mem_map.1 hw
    rfl
  | _ => exact typeError _ _ _

theorem applyUnary (op : UnaryOp) (v : Value) :
    Guarded ref o (Misses ref) (applyUnary op v) := by
  cases op with
  | not => exact look fun _ _ => pure rfl
  | neg =>
    cases v with
    | int n => exact bind (ofExcept _) fun _ _ => pure rfl
    | _ => exact typeError _ _ _

theorem mismatch (op : BinaryOp) (v w : Value) :
    Guarded ref o Q (mismatch op v w : EvalM α) :=
  look fun _ _ => fail _

theorem applyInts (op : BinaryOp) (m n : Int64) :
    Guarded ref o (Misses ref) (applyInts op m n) := by
  cases op with
  | add | sub | mul | floorDiv | mod => exact bind (ofExcept _) fun _ _ => pure rfl
  | lt | le | gt | ge => exact pure rfl
  | _ => exact mismatch _ _ _

theorem applyBinary (op : BinaryOp) (v w : Value) :
    Guarded ref o (Misses ref) (applyBinary op v w) := by
  unfold FlatClosure.applyBinary
  split
  · exact look fun _ _ => pure rfl
  · exact look fun _ _ => pure rfl
  · exact pure rfl
  · exact applyInts _ _ _
  · exact pure rfl
  · rename_i r r'
    exact look fun s hs => newList (List.forall_mem_append.2 ⟨hs.lists r, hs.lists r'⟩)
  · exact pure rfl
  · exact pure rfl
  · exact pure rfl
  · exact pure rfl
  · exact mismatch _ _ _

theorem lengthOf (v : Value) : Guarded ref o (fun _ => True) (lengthOf v) := by
  cases v with
  | list => exact look fun _ _ => pure trivial
  | tuple | str => exact pure trivial
  | _ => exact typeError _ _ _

theorem applyBuiltin1 (name : String) (v : Value) :
    Guarded ref o (Misses ref) (applyBuiltin1 name v) := by
  unfold FlatClosure.applyBuiltin1
  split
  · exact bind (modify fun _ hs => hs.print _) fun _ _ => pure rfl
  · exact bind (lengthOf v) fun _ _ => pure rfl
  · cases v with
    | int n => exact bind (ofExcept _) fun _ _ => pure rfl
    | _ => exact typeError _ _ _
  · exact fail _

theorem applyBuiltin2 (name : String) (v w : Value) :
    Guarded ref o (Misses ref) (applyBuiltin2 name v w) := by
  unfold FlatClosure.applyBuiltin2
  split
  · split
    · exact pure rfl
    · exact pure rfl
    · exact bind (ofExcept _) fun _ _ => pure rfl
    · exact fail _
  · exact typeError _ _ _
  · exact typeError _ _ _

theorem getField (v : Value) (x : String) : Guarded ref o (Misses ref) (getField v x) := by
  cases v with
  | object r =>
    refine look fun s hs => ?_
    dsimp only
    split
    · rename_i w hw
      exact pure ((hs.fields r).get? hw)
    · exact fail _
  | _ => exact typeError _ _ _

theorem storeField (hv : Misses ref v) (x : String) (hw : Misses ref w) :
    Guarded ref o (fun _ => True) (storeField v x w) := by
  cases v with
  | object r =>
    exact look fun _ _ => ite (modify fun _ hs => hs.setField (misses_object.1 hv) hw) (fail _)
  | _ => exact typeError _ _ _

theorem checkedIndex (index : Value) (length : Nat) :
    Guarded ref o (fun _ => True) (checkedIndex index length) := by
  cases index with
  | int i => exact ite (pure trivial) (fail _)
  | _ => exact typeError _ _ _

theorem getIndex (hv : Misses ref v) (index : Value) :
    Guarded ref o (Misses ref) (getIndex v index) := by
  cases v with
  | list r =>
    refine look fun s hs => bind (checkedIndex _ _) fun i _ => pure ?_
    cases hi : s.heap.item? r i with
    | none => rfl
    | some w => exact hs.lists r w (Array.mem_toList_iff.2 (Array.mem_of_getElem? hi))
  | tuple items =>
    refine bind (checkedIndex _ _) fun i _ => pure ?_
    rw [List.getD_eq_getElem?_getD]
    cases hi : items[i]? with
    | none => rfl
    | some w => exact misses_tuple.1 hv w (List.mem_of_getElem? hi)
  | str => exact bind (checkedIndex _ _) fun _ _ => pure rfl
  | _ => exact typeError _ _ _

theorem storeItem (v index : Value) (hw : Misses ref w) :
    Guarded ref o (fun _ => True) (storeItem v index w) := by
  cases v with
  | list r =>
    exact look fun _ _ => bind (checkedIndex _ _) fun i _ => modify fun _ hs => hs.setItem hw r i
  | _ => exact typeError _ _ _

end Guarded

/-! ### Calls -/

/-- A block that returns a value does not return the object. -/
def Flow.Misses (ref : Nat) : Flow → Prop
  | .ret v => FlatClosure.Misses ref v
  | _ => True

/-- Calls leave the object out of reach. -/
def Calls.Guard (k : Calls) (ref : Nat) (o : Instance) : Prop :=
  ∀ f args, (∀ v ∈ args, Misses ref v) → Guarded ref o (Misses ref) (k.enter f args)

section Calls

variable {k : Calls} (hk : k.Guard ref o) {v : Value} {args : List Value}
  (hargs : ∀ v ∈ args, Misses ref v)

include hk hargs

theorem guarded_invoke {r : Nat} (hr : r ≠ ref) (method : String) :
    Guarded ref o (Misses ref) (invoke k r method args) := by
  refine .look fun s _ => ?_
  dsimp only
  split
  · exact hk _ _ (List.forall_mem_cons.2 ⟨misses_object.2 hr, hargs⟩)
  · exact .fail _

theorem guarded_instantiate (c : ClassDef) :
    Guarded ref o (Misses ref) (instantiate k c args) := by
  refine .bind (.newObject ?_) fun r hr => .ite ?_ (.ite (.pure (misses_object.2 hr)) (.fail _))
  · exact Bindings.Forall.insertAll .empty (misses_inits _)
  · exact .bind (guarded_invoke hk hargs hr _) fun _ _ => .pure (misses_object.2 hr)

theorem guarded_callNamed (name : String) :
    Guarded ref o (Misses ref) (callNamed k name args) := by
  refine .bind (.modify fun _ hs => hs.initGlobals _) fun _ _ => ?_
  split
  · exact hk _ _ hargs
  · exact .fail _

theorem guarded_callValue (hv : Misses ref v) :
    Guarded ref o (Misses ref) (callValue k v args) := by
  cases v with
  | function name => exact guarded_callNamed hk hargs name
  | object r => exact guarded_invoke hk hargs (misses_object.1 hv) _
  | _ => exact .look fun _ _ => .fail _

theorem guarded_callMethodOf (hv : Misses ref v) (method : String) :
    Guarded ref o (Misses ref) (callMethodOf k v method args) := by
  unfold callMethodOf
  split
  · exact guarded_invoke hk hargs (misses_object.1 hv) method
  · refine .ite (.bind (.modify fun _ hs => hs.append ?_ _) fun _ _ => .pure rfl) (.fail _)
    exact hargs _ List.mem_cons_self
  · exact .look fun _ _ => .fail _

end Calls

/-! ### Expressions -/

theorem guarded_gather {x : String} {step : EvalM (Option Value)}
    (h : Guarded ref o (fun r => ∀ v ∈ r, Misses ref v) step) {items : List Value}
    (hitems : ∀ v ∈ items, Misses ref v) :
    Guarded ref o (fun vs => ∀ v ∈ vs, Misses ref v) (gather x step items) := by
  induction items with
  | nil => exact .pure (List.forall_mem_nil _)
  | cons v items ih =>
    obtain ⟨hv, hitems⟩ := List.forall_mem_cons.1 hitems
    refine .bind (.modify fun _ hs => hs.shadow hv) fun _ _ => .bind h fun r hr => ?_
    refine .bind (ih hitems) fun rs hrs => .pure (List.forall_mem_append.2 ⟨?_, hrs⟩)
    exact fun w hw => hr w (Option.mem_toList.1 hw)

theorem guarded_gatherShadowing {x : String} {step : EvalM (Option Value)}
    (h : Guarded ref o (fun r => ∀ v ∈ r, Misses ref v) step) {items : List Value}
    (hitems : ∀ v ∈ items, Misses ref v) :
    Guarded ref o (fun vs => ∀ v ∈ vs, Misses ref v) (gatherShadowing x step items) := by
  cases items with
  | nil => exact Guarded.pure (List.forall_mem_nil _)
  | cons v items =>
    intro s hs
    obtain ⟨unshared, yields⟩ := guarded_gather h hitems s hs
    -- the variable that comes back was in reach before, so it does not refer to the object
    exact ⟨unshared.restore hs.hidden?, yields⟩

mutual

theorem guarded_eval {k : Calls} (hk : k.Guard ref o) (e : Expr) :
    Guarded ref o (Misses ref) (e.eval k) := by
  cases e with
  | literal v => exact .pure (misses_literal v)
  | id x span =>
    refine .look fun s hs => ?_
    split
    · rename_i v hv
      exact .pure (hs.lookup? hv)
    · exact .fail _
  | unary op a => exact .bind (guarded_eval hk a) fun v _ => .applyUnary op v
  | binary op l r =>
    have left := guarded_eval hk l
    have right := guarded_eval hk r
    have both : Guarded ref o (Misses ref)
        (l.eval k >>= fun a => r.eval k >>= fun b => applyBinary op a b) :=
      .bind left fun _ _ => .bind right fun _ _ => .applyBinary _ _ _
    cases op with
    | and => exact .bind left fun _ hv => .branch right (.pure hv)
    | or => exact .bind left fun _ hv => .branch (.pure hv) right
    | _ => exact both
  | builtin1 name a => exact .bind (guarded_eval hk a) fun v _ => .applyBuiltin1 name v
  | builtin2 name l r =>
    exact .bind (guarded_eval hk l) fun v _ => .bind (guarded_eval hk r) fun w _ =>
      .applyBuiltin2 name v w
  | call f args =>
    refine .look fun s _ => ?_
    split
    · exact .bind (guarded_evalList hk args) fun _ hvs => guarded_instantiate hk hvs _
    · exact .bind (guarded_eval hk f) fun _ hv => .bind (guarded_evalList hk args) fun _ hvs =>
        guarded_callValue hk hvs hv
  | field a x => exact .bind (guarded_eval hk a) fun v _ => .getField v x
  | index a i =>
    exact .bind (guarded_eval hk a) fun _ hv => .bind (guarded_eval hk i) fun w _ =>
      .getIndex hv w
  | methodCall a m args =>
    exact .bind (guarded_eval hk a) fun _ hv => .bind (guarded_evalList hk args) fun _ hvs =>
      guarded_callMethodOf hk hvs hv m
  | list es => exact .bind (guarded_evalList hk es) fun _ hvs => .newList hvs
  | set es => exact .bind (guarded_evalList hk es) fun _ hvs => .newSet hvs
  | tuple es => exact .bind (guarded_evalList hk es) fun _ hvs => .pure (misses_tuple.2 hvs)
  | comprehension kind elem x it c =>
    refine .bind (guarded_eval hk it) fun _ hv => .bind (.itemsOf hv _) fun items hitems => ?_
    refine .bind (guarded_gatherShadowing ?_ hitems) fun vs hvs => ?_
    · refine .bind (guarded_holds hk c) fun b _ => ?_
      cases b with
      | true =>
        refine .bind (guarded_eval hk elem) fun v hv => .pure ?_
        exact fun w hw => Option.some.inj hw ▸ hv
      | false => exact .pure fun _ hw => nomatch hw
    · cases kind with
      | list => exact .newList hvs
      | set => exact .newSet hvs
  | ifElse c t e =>
    exact .bind (guarded_eval hk c) fun _ _ => .branch (guarded_eval hk t) (guarded_eval hk e)
  | construct name span =>
    unfold Expr.eval
    split
    · exact guarded_instantiate hk (List.forall_mem_nil _) _
    · exact .fail _
  | lambda => exact .fail _

theorem guarded_evalList {k : Calls} (hk : k.Guard ref o) (es : List Expr) :
    Guarded ref o (fun vs => ∀ v ∈ vs, Misses ref v) (Expr.evalList k es) := by
  cases es with
  | nil => exact .pure (List.forall_mem_nil _)
  | cons e es =>
    exact .bind (guarded_eval hk e) fun _ hv => .bind (guarded_evalList hk es) fun _ hvs =>
      .pure (List.forall_mem_cons.2 ⟨hv, hvs⟩)

theorem guarded_holds {k : Calls} (hk : k.Guard ref o) (c : Option Expr) :
    Guarded ref o (fun _ => True) (Expr.holds k c) := by
  cases c with
  | none => exact .pure trivial
  | some c => exact .bind (guarded_eval hk c) fun _ _ => .look fun _ _ => .pure trivial

end

/-! ### Statements -/

section Assignments

variable {k : Calls} (hk : k.Guard ref o)

include hk

theorem guarded_assign {v : Value} (hv : Misses ref v) (t : Target) :
    Guarded ref o (fun _ => True) (t.assign k v) := by
  cases t with
  | id x => exact .modify fun _ hs => hs.store hv
  | field a x => exact .bind (guarded_eval hk a) fun _ hw => .storeField hw x hv
  | index a i =>
    exact .bind (guarded_eval hk a) fun _ _ => .bind (guarded_eval hk i) fun _ _ =>
      .storeItem _ _ hv
  | ignore => exact .pure trivial

theorem guarded_assignSlots (starOpen : Bool) (slots : List Slot) {items : List Value}
    (hitems : ∀ v ∈ items, Misses ref v) :
    Guarded ref o (fun _ => True) (assignSlots k starOpen slots items) := by
  induction slots generalizing starOpen items with
  | nil => exact .pure trivial
  | cons slot slots ih =>
    refine .ite ?_ ?_
    · refine .bind (.newList fun v hv => hitems v (List.mem_of_mem_take hv)) fun v hv => ?_
      exact .bind (guarded_assign hk hv slot.target) fun _ _ =>
        ih _ fun v hv => hitems v (List.mem_of_mem_drop hv)
    · exact .bind (guarded_assign hk (misses_headD hitems) slot.target) fun _ _ =>
        ih _ fun v hv => hitems v (List.mem_of_mem_tail hv)

theorem guarded_destructure (slots : List Slot) {v : Value} (hv : Misses ref v) :
    Guarded ref o (fun _ => True) (destructure k slots v) :=
  .bind (.itemsOf hv _) fun _ hitems => .ite (.fail _) (guarded_assignSlots hk true slots hitems)

end Assignments

theorem guarded_loopWhile {cond : EvalM Bool} {body : EvalM Flow}
    (hcond : Guarded ref o (fun _ => True) cond)
    (hbody : Guarded ref o (Flow.Misses ref) body) (n : Nat) :
    Guarded ref o (Flow.Misses ref) (loopWhile cond body n) := by
  induction n with
  | zero => exact .throw _
  | succ n ih =>
    refine .bind hcond fun _ _ => .ite (.bind hbody fun flow hflow => ?_) (.pure trivial)
    cases flow with
    | breakLoop => exact .pure trivial
    | ret v => exact .pure hflow
    | normal | continueLoop => exact ih

theorem guarded_loopEach {x : String} {body : EvalM Flow}
    (hbody : Guarded ref o (Flow.Misses ref) body) {items : List Value}
    (hitems : ∀ v ∈ items, Misses ref v) :
    Guarded ref o (Flow.Misses ref) (loopEach x body items) := by
  induction items with
  | nil => exact .pure trivial
  | cons v items ih =>
    obtain ⟨hv, hitems⟩ := List.forall_mem_cons.1 hitems
    refine .bind (.modify fun _ hs => hs.store hv) fun _ _ => .bind hbody fun flow hflow => ?_
    cases flow with
    | breakLoop => exact .pure trivial
    | ret v => exact .pure hflow
    | normal | continueLoop => exact ih hitems

mutual

theorem guarded_exec {k : Calls} (hk : k.Guard ref o) (s : Stmt) :
    Guarded ref o (Flow.Misses ref) (s.exec k) := by
  cases s with
  | assign x e =>
    exact .bind (guarded_eval hk e) fun _ hv => .bind (.modify fun _ hs => hs.store hv) fun _ _ =>
      .pure trivial
  | unpack slots e =>
    exact .bind (guarded_eval hk e) fun _ hv => .bind (guarded_destructure hk slots hv) fun _ _ =>
      .pure trivial
  | ret e =>
    cases e with
    | none => exact .pure (show Misses ref .none from rfl)
    | some e => exact .bind (guarded_eval hk e) fun _ hv => .pure hv
  | expr e => exact .bind (guarded_eval hk e) fun _ _ => .pure trivial
  | setField a x e =>
    exact .bind (guarded_eval hk a) fun _ hv => .bind (guarded_eval hk e) fun _ hw =>
      .bind (.storeField hv x hw) fun _ _ => .pure trivial
  | setIndex a i e =>
    exact .bind (guarded_eval hk a) fun _ _ => .bind (guarded_eval hk i) fun _ _ =>
      .bind (guarded_eval hk e) fun _ hw => .bind (.storeItem _ _ hw) fun _ _ => .pure trivial
  | ifElse c thn els =>
    exact .bind (guarded_eval hk c) fun _ _ =>
      .branch (guarded_execList hk thn) (guarded_execList hk els)
  | whileLoop c body =>
    exact guarded_loopWhile (guarded_holds hk (some c)) (guarded_execList hk body) _
  | forEach x it body els =>
    refine .bind (guarded_eval hk it) fun _ hv => .bind (.itemsOf hv _) fun items hitems => ?_
    refine .bind (guarded_loopEach (guarded_execList hk body) hitems) fun flow hflow => ?_
    cases flow with
    | breakLoop => exact .pure trivial
    | ret v => exact .pure hflow
    | normal | continueLoop => exact guarded_execOption hk els
  | global x => exact .bind (.modify fun _ hs => hs.declareGlobal) fun _ _ => .pure trivial
  | pass | breakLoop | continueLoop => exact .pure trivial
  | nonlocal | closure => exact .fail _

theorem guarded_execList {k : Calls} (hk : k.Guard ref o) (ss : List Stmt) :
    Guarded ref o (Flow.Misses ref) (Stmt.execList k ss) := by
  cases ss with
  | nil => exact .pure trivial
  | cons s ss =>
    refine .bind (guarded_exec hk s) fun flow hflow => ?_
    cases flow with
    | normal => exact guarded_execList hk ss
    | ret | breakLoop | continueLoop => exact .pure hflow

theorem guarded_execOption {k : Calls} (hk : k.Guard ref o) (els : Option (List Stmt)) :
    Guarded ref o (Flow.Misses ref) (Stmt.execOption k els) := by
  cases els with
  | none => exact .pure trivial
  | some ss => exact guarded_execList hk ss

end

/-! ### Functions -/

theorem guarded_flowValue {flow : Flow} (h : flow.Misses ref) :
    Guarded ref o (Misses ref) (flowValue flow) := by
  cases flow with
  | normal => exact .pure rfl
  | ret v => exact .pure h
  | breakLoop | continueLoop => exact .fail _

theorem FunDef.frame_misses (f : FunDef) {args : List Value} (h : ∀ v ∈ args, Misses ref v) :
    (f.frame args).vars.Forall (Misses ref) := by
  refine Bindings.Forall.insertAll .empty fun p hp => ?_
  rcases List.mem_append.1 hp with hp | hp
  · exact h p.2 (List.of_mem_zip hp).2
  · exact misses_inits _ p hp

/-- The new call has only the values that it is given, and when it is over, the call that was the
innermost before is so again, with the variables that it had. -/
theorem guarded_withFrame {Q : α → Prop} {f : Frame} (hf : f.vars.Forall (Misses ref))
    {act : EvalM α} (isLocal : Local act) (h : Guarded ref o Q act) :
    Guarded ref o Q (withFrame f act) := by
  intro s hs
  obtain ⟨unshared, yields⟩ := h _ (hs.setTop hf s.frames)
  rw [run_withFrame]
  refine ⟨{ unshared with top := ?_ }, yields⟩
  rw [Machine.frames_withFrames, isLocal.tail]
  exact hs.top

/-- **Calls leave the object out of reach.** -/
theorem guarded_calls (ctx : Context) (fuel : Nat) : (ctx.calls fuel).Guard ref o := by
  -- a body has one unit of fuel less for the calls that it makes
  induction fuel with
  | zero =>
    intro f args _
    exact .ite (.fail _) (.look fun _ _ => .ite (.fail _) (.throw _))
  | succ n ih =>
    intro f args hargs
    refine .ite (.fail _) (.look fun _ _ => .ite (.fail _) ?_)
    have isLocal : Local (Stmt.execList (ctx.calls n) f.body) :=
      (local_execLaw ctx.program).execList (ctx.calls_local n) f.body fun _ _ => trivial
    exact .bind (guarded_withFrame (f.frame_misses hargs) isLocal (guarded_execList ih f.body))
      fun _ hflow => guarded_flowValue hflow

end FlatClosure

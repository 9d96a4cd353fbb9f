import FlatClosure.Bindings

/-!
# Laws of bindings

`Bindings.get?` determines which names are bound and to what; `Bindings.names` lists them in order.
Binding a name that is new puts it last (`names_insert`), so bindings built from nothing never hold
a name twice, and of several values for one name the last wins (`get?_insertAll`).
-/

namespace FlatClosure

namespace Bindings

variable {α : Type}

/-! ### One name -/

theorem get?_insert (b : Bindings α) (x y : String) (v : α) :
    (b.insert x v).get? y = if y = x then some v else b.get? y := by
  by_cases h : y = x
  · subst h
    simp
  · rw [get?_insert_of_ne b h, if_neg h]

theorem lookup_isSome_iff {x : String} {es : List (String × α)} :
    (es.lookup x).isSome ↔ x ∈ es.map Prod.fst := by
  induction es with
  | nil => simp
  | cons e es ih =>
    obtain ⟨y, w⟩ := e
    by_cases h : x = y
    · simp [h]
    · have hb : (x == y) = false := by simpa using h
      simp [List.lookup_cons, hb, h, ih]

theorem contains_iff {b : Bindings α} {x : String} : b.contains x = true ↔ x ∈ b.names :=
  lookup_isSome_iff

theorem contains_eq_false_iff {b : Bindings α} {x : String} :
    b.contains x = false ↔ x ∉ b.names := by
  rw [← contains_iff, Bool.not_eq_true]

theorem get?_eq_none_iff {b : Bindings α} {x : String} : b.get? x = none ↔ x ∉ b.names := by
  rw [← contains_eq_false_iff, contains, Option.isSome_eq_false_iff, Option.isNone_iff_eq_none]

theorem exists_get?_of_mem {b : Bindings α} {x : String} (h : x ∈ b.names) :
    ∃ v, b.get? x = some v :=
  Option.isSome_iff_exists.1 (contains_iff.2 h)

theorem mem_names_of_get? {b : Bindings α} {x : String} {v : α} (h : b.get? x = some v) :
    x ∈ b.names :=
  contains_iff.1 (by simp [contains, h])

@[simp] theorem get?_empty (x : String) : (empty : Bindings α).get? x = none := rfl

@[simp] theorem names_empty : (empty : Bindings α).names = [] := rfl

@[simp] theorem entries_empty : (empty : Bindings α).entries = [] := rfl

/-! ### Binding -/

theorem insertEntry_of_not_mem {x : String} {es : List (String × α)} (h : x ∉ es.map Prod.fst)
    (v : α) : insertEntry x v es = es ++ [(x, v)] := by
  induction es with
  | nil => rfl
  | cons e es ih =>
    obtain ⟨y, w⟩ := e
    simp only [List.map_cons, List.mem_cons, not_or] at h
    simp [insertEntry, h.1, ih h.2]

theorem map_fst_insertEntry_of_mem {x : String} {es : List (String × α)}
    (h : x ∈ es.map Prod.fst) (v : α) : (insertEntry x v es).map Prod.fst = es.map Prod.fst := by
  induction es with
  | nil => simp at h
  | cons e es ih =>
    obtain ⟨y, w⟩ := e
    by_cases hx : x = y
    · simp [insertEntry, hx]
    · simp only [List.map_cons, List.mem_cons, hx, false_or] at h
      simp [insertEntry, hx, ih h]

/-- A name that is not bound yet is bound as the last one. -/
theorem entries_insert_of_not_mem {b : Bindings α} {x : String} (h : x ∉ b.names) (v : α) :
    (b.insert x v).entries = b.entries ++ [(x, v)] :=
  insertEntry_of_not_mem h v

theorem names_insert (b : Bindings α) (x : String) (v : α) :
    (b.insert x v).names = if x ∈ b.names then b.names else b.names ++ [x] := by
  split
  · rename_i h
    exact map_fst_insertEntry_of_mem h v
  · rename_i h
    simp [names, entries_insert_of_not_mem h]

theorem mem_names_insert {b : Bindings α} {x y : String} {v : α} :
    y ∈ (b.insert x v).names ↔ y = x ∨ y ∈ b.names := by
  rw [names_insert]
  split
  · rename_i h
    constructor
    · exact .inr
    · rintro (rfl | h')
      · exact h
      · exact h'
  · simp [or_comm]

theorem nodup_names_insert {b : Bindings α} (h : b.names.Nodup) (x : String) (v : α) :
    (b.insert x v).names.Nodup := by
  rw [names_insert]
  split
  · exact h
  · rename_i hx
    rw [List.nodup_append]
    refine ⟨h, by simp, ?_⟩
    intro y hy z hz hyz
    rw [List.mem_singleton.1 hz] at hyz
    exact hx (hyz ▸ hy)

theorem insertEntry_twice (x : String) (u v : α) (es : List (String × α)) :
    insertEntry x v (insertEntry x u es) = insertEntry x v es := by
  induction es with
  | nil => simp [insertEntry]
  | cons e es ih =>
    obtain ⟨y, w⟩ := e
    by_cases h : x = y
    · simp [insertEntry, h]
    · simp [insertEntry, h, ih]

/-- Of two values for one name the last wins. -/
theorem insert_insert (b : Bindings α) (x : String) (u v : α) :
    (b.insert x u).insert x v = b.insert x v :=
  congrArg Bindings.mk (insertEntry_twice x u v b.entries)

theorem lookup_eraseEntry_of_ne {x z : String} (h : z ≠ x) (es : List (String × α)) :
    (eraseEntry x es).lookup z = es.lookup z := by
  induction es with
  | nil => rfl
  | cons e es ih =>
    obtain ⟨y, w⟩ := e
    by_cases hx : x = y
    · subst hx
      have hz : (z == x) = false := by simpa using h
      simp [eraseEntry, List.lookup_cons, hz, ih]
    · simp [eraseEntry, hx, List.lookup_cons, ih]

theorem get?_erase_of_ne (b : Bindings α) {x z : String} (h : z ≠ x) :
    (b.erase x).get? z = b.get? z :=
  lookup_eraseEntry_of_ne h b.entries

theorem lookup_eraseEntry_self (x : String) (es : List (String × α)) :
    (eraseEntry x es).lookup x = none := by
  induction es with
  | nil => rfl
  | cons e es ih =>
    obtain ⟨y, w⟩ := e
    by_cases hx : x = y
    · subst hx
      simpa [eraseEntry] using ih
    · have hb : (x == y) = false := by simpa using hx
      simp [eraseEntry, hx, List.lookup_cons, hb, ih]

@[simp] theorem get?_erase_self (b : Bindings α) (x : String) : (b.erase x).get? x = none :=
  lookup_eraseEntry_self x b.entries

/-- Give a name its former value back, or remove it if it had none. -/
def restore (g : Bindings α) (x : String) : Option α → Bindings α
  | some v => g.insert x v
  | none => g.erase x

theorem get?_restore (g : Bindings α) (x y : String) (old : Option α) :
    (g.restore x old).get? y = if y = x then old else g.get? y := by
  cases old with
  | some v => exact get?_insert g x y v
  | none =>
    by_cases h : y = x
    · subst h
      rw [if_pos rfl]
      exact get?_erase_self g y
    · rw [if_neg h]
      exact get?_erase_of_ne g h

/-! ### Binding one name after the other -/

@[simp] theorem insertAll_nil (b : Bindings α) : b.insertAll [] = b := rfl

@[simp] theorem insertAll_cons (b : Bindings α) (p : String × α) (ps : List (String × α)) :
    b.insertAll (p :: ps) = (b.insert p.1 p.2).insertAll ps := rfl

theorem insertAll_append (b : Bindings α) (ps qs : List (String × α)) :
    b.insertAll (ps ++ qs) = (b.insertAll ps).insertAll qs :=
  List.foldl_append

theorem mem_names_insertAll {b : Bindings α} {ps : List (String × α)} {y : String} :
    y ∈ (b.insertAll ps).names ↔ y ∈ b.names ∨ y ∈ ps.map Prod.fst := by
  induction ps generalizing b with
  | nil => simp
  | cons p ps ih => simp [ih, mem_names_insert, or_assoc, or_left_comm]

/-- Names that are not among those of the list keep their values. -/
theorem get?_insertAll_of_not_mem {b : Bindings α} {ps : List (String × α)} {y : String}
    (h : y ∉ ps.map Prod.fst) : (b.insertAll ps).get? y = b.get? y := by
  induction ps generalizing b with
  | nil => rfl
  | cons p ps ih =>
    simp only [List.map_cons, List.mem_cons, not_or] at h
    rw [insertAll_cons, ih h.2, get?_insert_of_ne b h.1]

/-- What a list binds does not depend on the bindings it is added to. -/
theorem get?_insertAll_of_mem {b b' : Bindings α} {ps : List (String × α)} {y : String}
    (h : y ∈ ps.map Prod.fst) : (b.insertAll ps).get? y = (b'.insertAll ps).get? y := by
  induction ps generalizing b b' with
  | nil => simp at h
  | cons p ps ih =>
    by_cases hy : y ∈ ps.map Prod.fst
    · exact ih hy
    · simp only [List.map_cons, List.mem_cons, hy, or_false] at h
      rw [insertAll_cons, insertAll_cons, get?_insertAll_of_not_mem hy,
        get?_insertAll_of_not_mem hy, h]
      simp

theorem get?_insertAll_const {b : Bindings α} {ps : List (String × α)} {y : String} {v : α}
    (h : y ∈ ps.map Prod.fst) (hv : ∀ p ∈ ps, p.2 = v) : (b.insertAll ps).get? y = some v := by
  induction ps generalizing b with
  | nil => cases h
  | cons p ps ih =>
    rw [insertAll_cons]
    by_cases hy : y ∈ ps.map Prod.fst
    · exact ih hy fun q hq => hv q (List.mem_cons_of_mem _ hq)
    · rw [get?_insertAll_of_not_mem hy, (List.mem_cons.1 h).resolve_right hy, get?_insert_self,
        hv p List.mem_cons_self]

/-- Names bound to values that depend on them. -/
theorem get?_insertAll_map {b : Bindings α} {xs : List String} {y : String} (f : String → α)
    (h : y ∈ xs) : (b.insertAll (xs.map fun x => (x, f x))).get? y = some (f y) := by
  induction xs generalizing b with
  | nil => cases h
  | cons x xs ih =>
    rw [List.map_cons, insertAll_cons]
    by_cases hy : y ∈ xs
    · exact ih hy
    · obtain rfl : y = x := (List.mem_cons.1 h).resolve_right hy
      rw [get?_insertAll_of_not_mem (by simpa using hy), get?_insert_self]

/-- Names have their last values. -/
theorem get?_insertAll (b : Bindings α) (ps : List (String × α)) (y : String) :
    (b.insertAll ps).get? y = ((ps.filter (·.1 == y)).getLast?.map Prod.snd).or (b.get? y) := by
  induction ps generalizing b with
  | nil => rfl
  | cons p ps ih =>
    rw [insertAll_cons, ih, get?_insert, List.filter_cons]
    by_cases h : p.1 = y
    · have hb : (p.1 == y) = true := by simpa using h
      rw [if_pos h.symm, if_pos hb, List.getLast?_cons]
      cases (ps.filter (·.1 == y)).getLast? <;> rfl
    · have hb : ¬(p.1 == y) = true := by simpa using h
      rw [if_neg (Ne.symm h), if_neg hb]

/-- New names are bound in the order of the list. -/
theorem entries_insertAll {b : Bindings α} {ps : List (String × α)} (h : (ps.map Prod.fst).Nodup)
    (hb : ∀ x ∈ ps.map Prod.fst, x ∉ b.names) : (b.insertAll ps).entries = b.entries ++ ps := by
  induction ps generalizing b with
  | nil => simp
  | cons p ps ih =>
    obtain ⟨x, v⟩ := p
    simp only [List.map_cons, List.nodup_cons] at h
    have hx : x ∉ b.names := hb x (by simp)
    rw [insertAll_cons, ih h.2, entries_insert_of_not_mem hx]
    · simp
    · intro y hy hmem
      rcases mem_names_insert.1 hmem with rfl | hmem
      · exact h.1 hy
      · exact hb y (by simp [hy]) hmem

theorem entries_ofList {ps : List (String × α)} (h : (ps.map Prod.fst).Nodup) :
    (ofList ps).entries = ps :=
  entries_insertAll h (by simp)

theorem insertEntry_middle {x : String} {es : List (String × α)} (h : x ∉ es.map Prod.fst) (v w : α)
    (es' : List (String × α)) : insertEntry x v (es ++ (x, w) :: es') = es ++ (x, v) :: es' := by
  induction es with
  | nil => simp [insertEntry]
  | cons e es ih =>
    simp only [List.map_cons, List.mem_cons, not_or] at h
    simp [insertEntry, h.1, ih h.2]

theorem insertAll_middle (es : List (String × α)) {es' ps : List (String × α)}
    (h : es'.map Prod.fst = ps.map Prod.fst) (hn : ((es ++ es').map Prod.fst).Nodup) :
    (insertAll ⟨es ++ es'⟩ ps).entries = es ++ ps := by
  induction ps generalizing es es' with
  | nil => rw [List.map_eq_nil_iff.1 h]; rfl
  | cons p ps ih =>
    obtain ⟨x, v⟩ := p
    obtain ⟨⟨y, w⟩, es', rfl, hx, hrest⟩ := List.map_eq_cons_iff.1 h
    obtain rfl : y = x := hx
    have hy : y ∉ es.map Prod.fst := by
      rw [List.map_append, List.nodup_append] at hn
      exact fun hy => hn.2.2 y hy y (by simp) rfl
    have step : insert ⟨es ++ (y, w) :: es'⟩ y v = ⟨(es ++ [(y, v)]) ++ es'⟩ := by
      rw [insert, insertEntry_middle hy, List.append_assoc]
      rfl
    rw [insertAll_cons, step, ih (es ++ [(y, v)]) hrest (by simpa using hn), List.append_assoc]
    rfl

/-- Binding the same names again, in the same order, replaces all the values. -/
theorem insertAll_of_names {b : Bindings α} {ps : List (String × α)} (h : b.names = ps.map Prod.fst)
    (hn : b.names.Nodup) : b.insertAll ps = ⟨ps⟩ :=
  congrArg Bindings.mk (insertAll_middle [] h hn)

/-! ### All values -/

/-- All bound values have the property. -/
def Forall (P : α → Prop) (b : Bindings α) : Prop := ∀ p ∈ b.entries, P p.2

instance {P : α → Prop} [DecidablePred P] {b : Bindings α} : Decidable (b.Forall P) :=
  inferInstanceAs (Decidable (∀ p ∈ b.entries, P p.2))

theorem mem_insertEntry {x : String} {v : α} {es : List (String × α)} {p : String × α}
    (h : p ∈ insertEntry x v es) : p = (x, v) ∨ p ∈ es := by
  fun_induction insertEntry x v es with
  | case1 => exact .inl (List.mem_singleton.1 h)
  | case2 => exact (List.mem_cons.1 h).imp_right (List.mem_cons_of_mem _)
  | case3 y w es _ ih =>
    rcases List.mem_cons.1 h with rfl | h
    · exact .inr List.mem_cons_self
    · exact (ih h).imp_right (List.mem_cons_of_mem _)

theorem mem_of_mem_eraseEntry {x : String} {es : List (String × α)} {p : String × α}
    (h : p ∈ eraseEntry x es) : p ∈ es := by
  fun_induction eraseEntry x es with
  | case1 => exact h
  | case2 w es ih => exact List.mem_cons_of_mem _ (ih h)
  | case3 y w es _ ih =>
    rcases List.mem_cons.1 h with rfl | h
    · exact List.mem_cons_self
    · exact List.mem_cons_of_mem _ (ih h)

namespace Forall

variable {P : α → Prop} {b : Bindings α} {x : String} {v : α}

theorem empty : (Bindings.empty : Bindings α).Forall P := fun _ h => (List.not_mem_nil h).elim

theorem get? (h : b.Forall P) (hv : b.get? x = some v) : P v := by
  obtain ⟨es, es', entries, -⟩ := List.lookup_eq_some_iff.1 hv
  exact h (x, v) (by simp [entries])

theorem insert (h : b.Forall P) (hv : P v) : (b.insert x v).Forall P := by
  intro p hp
  rcases mem_insertEntry hp with rfl | hp
  · exact hv
  · exact h p hp

theorem erase (h : b.Forall P) : (b.erase x).Forall P := fun p hp => h p (mem_of_mem_eraseEntry hp)

theorem insertAll {ps : List (String × α)} (h : b.Forall P) (hps : ∀ p ∈ ps, P p.2) :
    (b.insertAll ps).Forall P := by
  induction ps generalizing b with
  | nil => exact h
  | cons p ps ih =>
    obtain ⟨hp, hps⟩ := List.forall_mem_cons.1 hps
    exact ih (h.insert hp) hps

end Forall

end Bindings

end FlatClosure

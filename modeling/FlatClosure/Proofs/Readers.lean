import FlatClosure.Proofs.Codec
import FlatClosure.Proofs.Levels

/-!
# What readers make of the nesting

The parts that a reader takes from a JSON value lie within the levels that are looked at, whether
the value is an object, an array in the place of a record, or a tag by its number.  What is made of
the parts is bounded by that.

* `Ensures` : what a reader gives, if it gives anything, has a property.
* `Json.Within`, `Json.AllWithin` : parts of a value within a bound on the nesting of the whole.
* `Json.record?_ensures`, `Json.tagged?_ensures`, `Json.listOf?_ensures` : **the parts of a record,
  of a tagged record and of a list are within the nesting of the value.**
-/

namespace FlatClosure

open Json (Shape seen seenItems seenFields required defaulted optional bare depthItems)

/-! ### What a reader yields -/

section

variable {α β : Type}

/-- Whatever the reader answers with has the property. -/
def Ensures (x : Option α) (P : α → Prop) : Prop := ∀ a, x = some a → P a

namespace Ensures

variable {x : Option α} {P Q : α → Prop} {R : β → Prop}

theorem any : Ensures x fun _ => True := fun _ _ => trivial

theorem none : Ensures (none : Option α) P := by
  rintro a ⟨⟩

theorem pure {a : α} (h : P a) : Ensures (pure a) P := by
  rintro _ ⟨⟩
  exact h

theorem bind {f : α → Option β} (hx : Ensures x P) (hf : ∀ a, P a → Ensures (f a) R) :
    Ensures (x >>= f) R := by
  intro b hb
  obtain ⟨a, ha, hb⟩ := Option.bind_eq_some_iff.1 hb
  exact hf a (hx a ha) b hb

theorem mono (hx : Ensures x P) (h : ∀ a, P a → Q a) : Ensures x Q := fun a ha => h a (hx a ha)

theorem and (h : Ensures x P) (h' : Ensures x Q) : Ensures x fun a => P a ∧ Q a :=
  fun a ha => ⟨h a ha, h' a ha⟩

end Ensures

namespace Json

/-- A part of a value of `d` levels, if it is there, is nested less. -/
def Within (d : Nat) (s : Shape) (part : Option Json) : Prop :=
  ∀ j, part = some j → 1 + seen s j ≤ d

variable {d : Nat} {s : Shape} {part : Option Json} {f : Json → Option α} {P : α → Prop}

theorem Within.required (h : Within d s part) (hf : ∀ j, 1 + seen s j ≤ d → Ensures (f j) P) :
    Ensures (required f part) P := by
  cases part with
  | none => exact .none
  | some j => exact hf j (h j rfl)

theorem Within.defaulted {a : α} (h : Within d s part) (ha : P a)
    (hf : ∀ j, 1 + seen s j ≤ d → Ensures (f j) P) : Ensures (defaulted a f part) P := by
  cases part with
  | none => exact .pure ha
  | some j => exact hf j (h j rfl)

theorem Within.optional {P : Option α → Prop} (h : Within d s part) (hn : P none)
    (hf : ∀ j, 1 + seen s j ≤ d → Ensures (f j) fun a => P (some a)) :
    Ensures (optional f part) P := by
  cases part with
  | none => exact .pure hn
  | some j =>
    by_cases null : j = .null
    · subst null
      exact .pure hn
    · rw [optional_of_ne_null null]
      intro a ha
      obtain ⟨b, hb, rfl⟩ := Option.map_eq_some_iff.1 ha
      exact hf j (h j rfl) b hb

/-! ### Parts of a record -/

/-- The parts of a value of `d` levels, in order. -/
def AllWithin (d : Nat) : List Shape → List (Option Json) → Prop
  | s :: ss, part :: parts => Within d s part ∧ AllWithin d ss parts
  | _, _ => True

/-- In an object, the fields of these names have these shapes. -/
def Shape.Named (s : Shape) : List String → List Shape → Prop
  | n :: ns, t :: ts => s.field n = t ∧ s.Named ns ts
  | _, _ => True

/-- In an array, the items have these shapes. -/
def Shape.Placed : Shape → List Shape → Prop
  | _, [] => True
  | s, t :: ts => s.item = t ∧ s.rest.Placed ts

/-- The shape is that of a record with these fields. -/
structure Shape.Record (s : Shape) (names : List String) (shapes : List Shape) : Prop where
  looked : s.isSkipped = false
  named : s.Named names shapes
  placed : s.Placed shapes

theorem Shape.record_whole (names : List String) :
    Shape.whole.Record names (names.map fun _ => .whole) := by
  refine ⟨rfl, ?_, ?_⟩
  · induction names with
    | nil => trivial
    | cons n ns ih => exact ⟨rfl, ih⟩
  · induction names with
    | nil => trivial
    | cons n ns ih => exact ⟨rfl, ih⟩

theorem seen_le_seenFields {k : String} {j : Json} {fs : List (String × Json)}
    (h : (k, j) ∈ fs) : seen (s.field k) j ≤ seenFields s fs := by
  induction fs with
  | nil => cases h
  | cons f fs ih =>
    rw [seenFields]
    rcases List.mem_cons.1 h with rfl | h
    · exact Nat.le_max_left _ _
    · exact Nat.le_trans (ih h) (Nat.le_max_right _ _)

theorem parts_lookup {fs : List (String × Json)} (hd : 1 + seenFields s fs ≤ d)
    {names : List String} {shapes : List Shape} (h : s.Named names shapes) :
    AllWithin d shapes (names.map fun n => fs.lookup n) := by
  induction names generalizing shapes with
  | nil => cases shapes <;> trivial
  | cons n ns ih =>
    cases shapes with
    | nil => trivial
    | cons t ts =>
      obtain ⟨rfl, h⟩ := h
      refine ⟨fun j hj => ?_, ih h⟩
      obtain ⟨before, after, rfl, -⟩ := List.lookup_eq_some_iff.1 hj
      have bound : seen (s.field n) j ≤ seenFields s (before ++ (n, j) :: after) :=
        seen_le_seenFields (by simp)
      omega

theorem parts_missing (k : Nat) (shapes : List Shape) :
    AllWithin d shapes (List.replicate k none) := by
  induction k generalizing shapes with
  | zero => cases shapes <;> trivial
  | succ k ih =>
    cases shapes with
    | nil => trivial
    | cons t ts => exact ⟨by rintro j ⟨⟩, ih ts⟩

theorem parts_items {items : List Json} (hd : 1 + seenItems s items ≤ d) {shapes : List Shape}
    (h : s.Placed shapes) (k : Nat) :
    AllWithin d shapes (items.map some ++ List.replicate k none) := by
  induction items generalizing s shapes with
  | nil => exact parts_missing k shapes
  | cons j js ih =>
    cases shapes with
    | nil => trivial
    | cons t ts =>
      obtain ⟨rfl, h⟩ := h
      rw [seenItems] at hd
      refine ⟨?_, ih (by omega) h⟩
      rintro _ ⟨⟩
      omega

variable {names : List String} {shapes : List Shape}

/-- The parts of a record are nested less than the record. -/
theorem record?_ensures (h : s.Record names shapes) (j : Json) :
    Ensures (j.record? names) (AllWithin (seen s j) shapes) := by
  intro parts hp
  cases j with
  | obj fs =>
    rw [record?] at hp
    split at hp
    · cases hp
    · cases hp
      exact parts_lookup (by rw [seen, h.looked]; exact Nat.le_refl _) h.named
  | arr items =>
    rw [record?] at hp
    split at hp
    · cases hp
      exact parts_items (by rw [seen, h.looked]; exact Nat.le_refl _) h.placed _
    · cases hp
  | _ => cases hp

theorem one_le_of_record? (looked : s.isSkipped = false) (j : Json) :
    Ensures (j.record? names) fun _ => 1 ≤ seen s j := by
  intro parts hp
  cases j with
  | obj fs =>
    rw [seen, looked]
    exact Nat.le_add_right 1 _
  | arr items =>
    rw [seen, looked]
    exact Nat.le_add_right 1 _
  | _ => cases hp

theorem fullRecord?_ensures (h : s.Record names shapes) (j : Json) :
    Ensures (j.fullRecord? names) (AllWithin (seen s j) shapes) := by
  have record := record?_ensures h j
  cases j with
  | arr items =>
    intro parts hp
    rw [fullRecord?] at hp
    split at hp
    · cases hp
      have bound : AllWithin (seen s (.arr items)) shapes
          (items.map some ++ List.replicate 0 none) :=
        parts_items (by rw [seen, h.looked]; exact Nat.le_refl _) h.placed 0
      rwa [List.replicate_zero, List.append_nil] at bound
    · cases hp
  | _ => exact record

theorem mapM_ensures {items : List Json} (h : ∀ j ∈ items, Ensures (f j) P) :
    Ensures (items.mapM f) fun as => ∀ a ∈ as, P a := by
  induction items with
  | nil => exact .pure (by simp)
  | cons j js ih =>
    obtain ⟨first, others⟩ := List.forall_mem_cons.1 h
    rw [List.mapM_cons]
    exact first.bind fun a ha => (ih others).bind fun as has =>
      .pure (List.forall_mem_cons.2 ⟨ha, has⟩)

theorem seen_le_seenItems (rest : s.rest = s) {j : Json} {items : List Json} (h : j ∈ items) :
    seen s.item j ≤ seenItems s items := by
  induction items with
  | nil => cases h
  | cons j' js ih =>
    rw [seenItems, rest]
    rcases List.mem_cons.1 h with rfl | h
    · exact Nat.le_max_left _ _
    · exact Nat.le_trans (ih h) (Nat.le_max_right _ _)

/-- The items of a list are nested less than the list. -/
theorem listOf?_ensures (looked : s.isSkipped = false) (rest : s.rest = s) (j : Json)
    (hf : ∀ x, 1 + seen s.item x ≤ seen s j → Ensures (f x) P) :
    Ensures (listOf? f j) fun as => 1 ≤ seen s j ∧ ∀ a ∈ as, P a := by
  cases j with
  | arr items =>
    have levels : seen s (.arr items) = 1 + seenItems s items := by
      rw [seen, looked]
      rfl
    refine (mapM_ensures fun x hx => hf x ?_).mono fun as has => ⟨by omega, has⟩
    have := seen_le_seenItems rest hx
    omega
  | _ => exact .none

/-- What is left of a node without its tag is not nested more. -/
theorem tagged?_ensures (tags : List String) (byNumber : Bool) (j : Json) :
    Ensures (j.tagged? tags byNumber) fun r => r.2.depth ≤ j.depth ∧ 1 ≤ j.depth := by
  intro r hr
  cases j with
  | obj fs =>
    have inside : depthFields (fs.filter (·.1 != "tag")) ≤ depthFields fs := by
      rw [depthFields_le_iff]
      intro f hf
      exact depthFields_le_iff.1 (Nat.le_refl _) f (List.mem_filter.1 hf).1
    rw [tagged?] at hr
    split at hr
    · obtain ⟨tag, -, rfl⟩ := Option.map_eq_some_iff.1 hr
      simp only [depth_obj]
      omega
    · cases hr
  | arr items =>
    cases items with
    | nil => cases hr
    | cons t items =>
      obtain ⟨tag, -, rfl⟩ := Option.map_eq_some_iff.1 hr
      simp only [depth_arr, depthItems]
      omega
  | _ => cases hr

end Json

end

/-! ### Parts that are looked at whole -/

open Json (Within AllWithin)

theorem Json.AllWithin.mono {d d' : Nat} (hd : d ≤ d') {shapes : List Shape}
    {parts : List (Option Json)} (h : AllWithin d shapes parts) : AllWithin d' shapes parts := by
  induction shapes generalizing parts with
  | nil => trivial
  | cons s ss ih =>
    cases parts with
    | nil => trivial
    | cons part parts => exact ⟨fun j hj => Nat.le_trans (h.1 j hj) hd, ih h.2⟩

section

variable {d : Nat}

/-- The parts of a record of which all is looked at. -/
theorem Json.record?_whole {j : Json} (hd : j.depth ≤ d) (names : List String) :
    Ensures (j.record? names) (AllWithin d (names.map fun _ => .whole)) :=
  (record?_ensures (Shape.record_whole names) j).mono fun _ h =>
    AllWithin.mono (by rwa [seen_whole]) h

theorem Json.fullRecord?_whole {j : Json} (hd : j.depth ≤ d) (names : List String) :
    Ensures (j.fullRecord? names) (AllWithin d (names.map fun _ => .whole)) :=
  (fullRecord?_ensures (Shape.record_whole names) j).mono fun _ h =>
    AllWithin.mono (by rwa [seen_whole]) h

theorem Json.bare_ensures {α : Type} {a : α} {P : α → Prop} (h : P a) (j : Json) :
    Ensures (bare a j) P := by
  rintro b hb
  rw [bare.eq_def] at hb
  split at hb
  all_goals cases hb
  all_goals exact h

theorem Json.depthItems_map_le_iff {α : Type} {g : α → Json} {as : List α} {n : Nat} :
    depthItems (as.map g) ≤ n ↔ ∀ a ∈ as, (g a).depth ≤ n := by
  rw [depthItems_le_iff, List.forall_mem_map]

variable {α : Type} {f : Json → Option α} {height : α → Nat} {s : Shape} {part : Option Json}

/-- A part, if its reader keeps to the nesting. -/
theorem Json.Within.tree (h : Within d s part)
    (hf : ∀ j, Ensures (f j) fun a => height a ≤ seen s j) :
    Ensures (Json.required f part) fun a => 1 + height a ≤ d :=
  h.required fun j hj => (hf j).mono fun a ha => by omega

theorem Json.Within.optionalTree (h : Within d s part) (whole : Option α → Nat)
    (none : whole none = 0) (some : ∀ a, whole (some a) = height a)
    (hf : ∀ j, Ensures (f j) fun a => height a ≤ seen s j) :
    Ensures (Json.optional f part) fun a => whole a ≤ d - 1 :=
  h.optional (by omega) fun j hj => (hf j).mono fun a ha => by
    rw [some]
    omega

theorem Json.listOf?_trees (looked : s.isSkipped = false) (rest : s.rest = s)
    (hf : ∀ j, Ensures (f j) fun a => height a ≤ seen s.item j) {j : Json}
    (hj : 1 + seen s j ≤ d) :
    Ensures (listOf? f j) fun as => 2 ≤ d ∧ ∀ a ∈ as, 2 + height a ≤ d := by
  refine (listOf?_ensures looked rest j (P := fun a => 1 + height a ≤ seen s j) fun x hx =>
    (hf x).mono fun a ha => by omega).mono fun as has => ⟨?_, fun a ha => ?_⟩
  · have := has.1
    omega
  · have := has.2 a ha
    omega

end

/-- Room for a list: the levels around it and those of its members. -/
theorem two_add_le_iff {α : Type} {as : List α} {height : α → Nat} {whole d : Nat}
    (members : ∀ n, whole ≤ n ↔ ∀ a ∈ as, height a ≤ n) :
    2 + whole ≤ d ↔ 2 ≤ d ∧ ∀ a ∈ as, 2 + height a ≤ d := by
  constructor
  · intro h
    refine ⟨by omega, fun a ha => ?_⟩
    have := (members (d - 2)).1 (by omega) a ha
    omega
  · rintro ⟨levels, inside⟩
    have := (members (d - 2)).2 fun a ha => by
      have := inside a ha
      omega
    omega

end FlatClosure

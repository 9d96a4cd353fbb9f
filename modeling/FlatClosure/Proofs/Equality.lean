import FlatClosure.Eval.Value
import Mathlib.Data.List.Forall2
import Mathlib.Data.Set.Card
import Mathlib.Logic.Relation

/-!
# Equality of values

Lists are compared item by item, through the heap, and objects by place.  If no list contains
itself, then a value can be unfolded: the items of its lists are put in the place of the lists, at
whatever depth, until nothing refers to a list any more.  Two values are equal if and only if their
unfoldings are the same, however much the lists in them are shared.

* `Heap.Acyclic` : no list contains itself.
* `Value.equals_iff_unfold` : equality is sameness of unfoldings.
* `Heap.unfolding_eq_unfoldAll` : looking deeper than there are lists shows nothing new.
* `Value.equals_list` : lists are equal if they are the same or have equal items.
* `equals_setItem` : an item can be exchanged for an equal one without any comparison noticing.
* `equals_equivalence` : **equality is an equivalence that replacing equal items respects.**
-/

namespace FlatClosure

/-! ### Lists inside lists -/

mutual

/-- The lists that a value refers to, itself or in an item of a tuple. -/
def Value.lists : Value → List Nat
  | .list ref => [ref]
  | .tuple items => Value.listsAll items
  | _ => []

/-- The lists that values refer to. -/
def Value.listsAll : List Value → List Nat
  | [] => []
  | v :: vs => v.lists ++ Value.listsAll vs

end

namespace Heap

/-- An item of the first list refers to the second one. -/
def Holds (h : Heap) (a b : Nat) : Prop := b ∈ Value.listsAll (h.items a)

/-- No list contains itself, in an item or in a list further down. -/
def Acyclic (h : Heap) : Prop := ∀ a, ¬ Relation.TransGen h.Holds a a

/-- The lists that there are from a list downwards, itself included. -/
def below (h : Heap) (a : Nat) : Set Nat :=
  {b | b < h.lists.size ∧ Relation.ReflTransGen h.Holds a b}

variable {h : Heap} {a b : Nat}

theorem items_of_size_le (ha : h.lists.size ≤ a) : h.items a = [] := by
  simp [items, Array.getElem?_eq_none ha]

theorem Holds.lt_size (hab : h.Holds a b) : a < h.lists.size := by
  by_contra ha
  rw [Holds, items_of_size_le (Nat.le_of_not_lt ha)] at hab
  cases hab

/-- If places can be ranked so that lists hold only lists of lower rank, then no list contains
itself. -/
theorem acyclic_of_rank (rank : Nat → Nat) (lower : ∀ a b, h.Holds a b → rank b < rank a) :
    h.Acyclic := by
  intro a cycle
  have descends (b : Nat) (path : Relation.TransGen h.Holds a b) : rank b < rank a := by
    induction path with
    | single hab => exact lower _ _ hab
    | tail _ hbc ih => exact Nat.lt_trans (lower _ _ hbc) ih
  exact Nat.lt_irrefl _ (descends a cycle)

theorem below_subset (h : Heap) (a : Nat) : h.below a ⊆ Finset.range h.lists.size :=
  fun b hb => by simpa using hb.1

theorem finite_below (h : Heap) (a : Nat) : (h.below a).Finite :=
  (Finset.finite_toSet _).subset (h.below_subset a)

theorem ncard_below_le (h : Heap) (a : Nat) : (h.below a).ncard ≤ h.lists.size := by
  have bound := Set.ncard_le_ncard (h.below_subset a) (Finset.finite_toSet _)
  rwa [Set.ncard_coe_finset, Finset.card_range] at bound

/-- A list has fewer lists below it than the list that holds it. -/
theorem ncard_below_lt (acyclic : h.Acyclic) (hab : h.Holds a b) :
    (h.below b).ncard < (h.below a).ncard := by
  refine Set.ncard_lt_ncard ⟨fun c hc => ⟨hc.1, hc.2.head hab⟩, fun sub => ?_⟩ (h.finite_below a)
  have back : a ∈ h.below b := sub ⟨hab.lt_size, .refl⟩
  exact acyclic a (.head' hab back.2)

end Heap

/-! ### Unfolding -/

/-- A value with the items of its lists in the place of the lists. -/
inductive Unfolded where
  /-- A value without items. -/
  | leaf (v : Value)
  | list (items : List Unfolded)
  | tuple (items : List Unfolded)

mutual

/-- Unfold a value, given the unfolded items of lists. -/
def Value.unfoldWith (lists : Nat → List Unfolded) : Value → Unfolded
  | .list ref => .list (lists ref)
  | .tuple items => .tuple (Value.unfoldAll lists items)
  | v => .leaf v

/-- Unfold values. -/
def Value.unfoldAll (lists : Nat → List Unfolded) : List Value → List Unfolded
  | [] => []
  | v :: vs => v.unfoldWith lists :: Value.unfoldAll lists vs

end

/-- The unfolded items of a list, looking `n` lists deep. -/
def Heap.unfolding (h : Heap) : Nat → Nat → List Unfolded
  | 0, _ => []
  | n + 1, ref => Value.unfoldAll (h.unfolding n) (h.items ref)

/-- A value as it unfolds in the heap. -/
def Value.unfold (h : Heap) (v : Value) : Unfolded := v.unfoldWith (h.unfolding h.lists.size)

namespace Value

variable {T T' : Nat → List Unfolded}

theorem unfoldAll_eq_map (T : Nat → List Unfolded) (vs : List Value) :
    unfoldAll T vs = vs.map (unfoldWith T) := by
  induction vs with
  | nil => rfl
  | cons v vs ih => rw [unfoldAll, ih, List.map_cons]

mutual

/-- Equality with an equality of lists that is sameness of their unfolded items. -/
theorem equalsWith_iff {L : Nat → Nat → Bool} (hLT : ∀ a b, L a b = true ↔ T a = T b)
    (v w : Value) : equalsWith L v w = true ↔ v.unfoldWith T = w.unfoldWith T := by
  cases v with
  | tuple vs =>
    cases w with
    | tuple ws =>
      rw [equalsWith, equalsAll_iff hLT vs ws, unfoldWith, unfoldWith, Unfolded.tuple.injEq]
    | _ => simp [equalsWith, unfoldWith]
  | _ => cases w <;> simp [equalsWith, unfoldWith, hLT]

theorem equalsAll_iff {L : Nat → Nat → Bool} (hLT : ∀ a b, L a b = true ↔ T a = T b)
    (vs ws : List Value) : equalsAll L vs ws = true ↔ unfoldAll T vs = unfoldAll T ws := by
  cases vs with
  | nil => cases ws <;> simp [equalsAll, unfoldAll]
  | cons v vs =>
    cases ws with
    | nil => simp [equalsAll, unfoldAll]
    | cons w ws =>
      rw [equalsAll, Bool.and_eq_true, equalsWith_iff hLT v w, equalsAll_iff hLT vs ws, unfoldAll,
        unfoldAll, List.cons.injEq]

end

mutual

theorem unfoldWith_congr (v : Value) (hT : ∀ a ∈ v.lists, T a = T' a) :
    v.unfoldWith T = v.unfoldWith T' := by
  cases v with
  | list ref => rw [unfoldWith, unfoldWith, hT ref (by simp [lists])]
  | tuple vs => rw [unfoldWith, unfoldWith, unfoldAll_congr vs hT]
  | _ => rfl

theorem unfoldAll_congr (vs : List Value) (hT : ∀ a ∈ listsAll vs, T a = T' a) :
    unfoldAll T vs = unfoldAll T' vs := by
  cases vs with
  | nil => rfl
  | cons v vs =>
    rw [listsAll, List.forall_mem_append] at hT
    rw [unfoldAll, unfoldAll, unfoldWith_congr v hT.1, unfoldAll_congr vs hT.2]

end

mutual

/-- The items of a list are smaller than a value that refers to the list. -/
theorem sizeOf_lt_unfoldWith {b : Nat} (v : Value) (hb : b ∈ v.lists) :
    sizeOf (T b) < sizeOf (v.unfoldWith T) := by
  cases v with
  | list ref =>
    obtain rfl : b = ref := by simpa [lists] using hb
    simp [unfoldWith]
  | tuple vs =>
    have inside := sizeOf_lt_unfoldAll vs hb
    simp only [unfoldWith, Unfolded.tuple.sizeOf_spec]
    omega
  | _ => cases hb

theorem sizeOf_lt_unfoldAll {b : Nat} (vs : List Value) (hb : b ∈ listsAll vs) :
    sizeOf (T b) < sizeOf (unfoldAll T vs) := by
  cases vs with
  | nil => cases hb
  | cons v vs =>
    rw [unfoldAll, List.cons.sizeOf_spec]
    rcases List.mem_append.1 hb with hb | hb
    · have inside := sizeOf_lt_unfoldWith v hb
      omega
    · have inside := sizeOf_lt_unfoldAll vs hb
      omega

end

/-- Values that unfold alike can be exchanged. -/
theorem unfoldAll_set {vs : List Value} {i : Nat} {v w : Value} (hv : vs[i]? = some v)
    (hvw : v.unfoldWith T = w.unfoldWith T) : unfoldAll T (vs.set i w) = unfoldAll T vs := by
  obtain ⟨hi, rfl⟩ := List.getElem?_eq_some_iff.1 hv
  have bound : i < (vs.map (unfoldWith T)).length := by rwa [List.length_map]
  have same : (vs.map (unfoldWith T))[i] = w.unfoldWith T := by rw [List.getElem_map, hvw]
  rw [unfoldAll_eq_map, unfoldAll_eq_map, List.map_set, ← same, List.set_getElem_self]

end Value

/-! ### How deep to look -/

namespace Heap

variable {h : Heap} {a b : Nat} {U : Nat → List Unfolded}

theorem items_of_ncard_below (ha : (h.below a).ncard = 0) : h.items a = [] := by
  refine items_of_size_le (Nat.le_of_not_lt fun hlt => ?_)
  have empty := (Set.ncard_eq_zero (h.finite_below a)).1 ha
  have self : a ∈ h.below a := ⟨hlt, .refl⟩
  rw [empty] at self
  exact self

/-- Whatever unfolds the lists step by step unfolds a list fully once it looks as deep as there are
lists below it. -/
theorem unfolding_eq (acyclic : h.Acyclic) {F : Nat → Nat → List Unfolded}
    (step : ∀ n a, F (n + 1) a = Value.unfoldAll (F n) (h.items a))
    (empty : ∀ a, h.items a = [] → F 0 a = []) {n : Nat} (hn : (h.below a).ncard ≤ n) :
    h.unfolding n a = F n a := by
  induction n generalizing a with
  | zero => exact (empty a (items_of_ncard_below (Nat.le_zero.1 hn))).symm
  | succ n ih =>
    rw [unfolding, step]
    refine Value.unfoldAll_congr _ fun b hb => ih ?_
    have lower := ncard_below_lt acyclic hb
    omega

/-- The unfolded items of a list are its items, unfolded: **looking deeper than there are lists
shows nothing new.** -/
theorem unfolding_eq_unfoldAll (acyclic : h.Acyclic) (a : Nat) :
    h.unfolding h.lists.size a = Value.unfoldAll (h.unfolding h.lists.size) (h.items a) := by
  refine unfolding_eq acyclic (F := fun n => h.unfolding (n + 1)) (fun n a => rfl)
    (fun a ha => ?_) (h.ncard_below_le a)
  rw [unfolding, ha]
  rfl

/-- Only a heap without lists that contain themselves can be unfolded. -/
theorem acyclic_of_unfolds (hU : ∀ a, U a = Value.unfoldAll U (h.items a)) : h.Acyclic := by
  refine acyclic_of_rank (fun a => sizeOf (U a)) fun a b hab => ?_
  rw [hU a]
  exact Value.sizeOf_lt_unfoldAll _ hab

/-- There is only one way to unfold a heap. -/
theorem unfolding_unique (hU : ∀ a, U a = Value.unfoldAll U (h.items a)) :
    h.unfolding h.lists.size = U := by
  refine funext fun a => unfolding_eq (acyclic_of_unfolds hU) (F := fun _ => U) (fun _ => hU)
    (fun b hb => ?_) (h.ncard_below_le a)
  rw [hU, hb]
  rfl

/-- Equality of lists is sameness of their unfolded items, at whatever depth. -/
theorem listsEqual_iff (h : Heap) (n a b : Nat) :
    h.listsEqual n a b = true ↔ h.unfolding n a = h.unfolding n b := by
  induction n generalizing a b with
  | zero => exact iff_of_true rfl rfl
  | succ n ih =>
    rw [listsEqual, Bool.or_eq_true, beq_iff_eq, Value.equalsAll_iff ih, unfolding, unfolding]
    exact ⟨fun hab => hab.elim (fun e => by rw [e]) id, .inr⟩

theorem items_setItem (h : Heap) (ref i : Nat) (w : Value) (a : Nat) :
    (h.setItem ref i w).items a = if a = ref then (h.items a).set i w else h.items a := by
  rw [items, setItem, Array.getElem?_modify, items]
  by_cases ha : ref = a
  · rw [if_pos ha, if_pos ha.symm]
    cases h.lists[a]? <;> simp
  · rw [if_neg ha, if_neg (Ne.symm ha)]

end Heap

/-! ### Equality -/

namespace Value

variable {h : Heap} {u v w : Value}

/-- **Equality is sameness of unfoldings.** -/
theorem equals_iff_unfold : v.equals h w = true ↔ v.unfold h = w.unfold h :=
  equalsWith_iff (h.listsEqual_iff _) v w

theorem equals_refl (h : Heap) (v : Value) : v.equals h v = true := equals_iff_unfold.2 rfl

theorem equals_symm (hvw : v.equals h w = true) : w.equals h v = true :=
  equals_iff_unfold.2 (equals_iff_unfold.1 hvw).symm

theorem equals_trans (huv : u.equals h v = true) (hvw : v.equals h w = true) :
    u.equals h w = true :=
  equals_iff_unfold.2 ((equals_iff_unfold.1 huv).trans (equals_iff_unfold.1 hvw))

theorem equals_of_same (hvw : v.same w = true) : v.equals h w = true := by
  cases v <;> cases w <;> simp_all [same, equals_refl]

theorem same_symm (hvw : v.same w = true) : w.same v = true := by
  cases v <;> cases w <;> simp_all [same]

theorem same_trans (huv : u.same v = true) (hvw : v.same w = true) : u.same w = true := by
  cases u <;> cases v <;> simp_all [same]

theorem map_unfold_eq_iff {vs ws : List Value} : vs.map (unfold h) = ws.map (unfold h) ↔
    List.Forall₂ (fun v w => v.equals h w = true) vs ws := by
  rw [← List.forall₂_eq_eq_eq, List.forall₂_map_left_iff, List.forall₂_map_right_iff]
  simp only [equals_iff_unfold]

theorem equals_tuple {vs ws : List Value} : (tuple vs).equals h (.tuple ws) = true ↔
    List.Forall₂ (fun v w => v.equals h w = true) vs ws := by
  rw [equals_iff_unfold, unfold, unfold, unfoldWith, unfoldWith, Unfolded.tuple.injEq,
    unfoldAll_eq_map, unfoldAll_eq_map]
  exact map_unfold_eq_iff

/-- Two lists are equal if they are the same list, or if their items are equal. -/
theorem equals_list (acyclic : h.Acyclic) {a b : Nat} : (list a).equals h (.list b) = true ↔
    a = b ∨ List.Forall₂ (fun v w => v.equals h w = true) (h.items a) (h.items b) := by
  rw [equals_iff_unfold, unfold, unfold, unfoldWith, unfoldWith, Unfolded.list.injEq,
    ← map_unfold_eq_iff]
  have items (c : Nat) : (h.items c).map (unfold h) = h.unfolding h.lists.size c := by
    rw [Heap.unfolding_eq_unfoldAll acyclic, unfoldAll_eq_map]
    rfl
  rw [items, items]
  exact ⟨.inr, fun hab => hab.elim (fun e => by rw [e]) id⟩

/-- Replacing an item by an equal one. -/
theorem forall₂_set {vs : List Value} {i : Nat} (hv : vs[i]? = some v)
    (hvw : v.equals h w = true) :
    List.Forall₂ (fun v w => v.equals h w = true) vs (vs.set i w) := by
  rw [← map_unfold_eq_iff]
  have same := unfoldAll_set hv (equals_iff_unfold.1 hvw)
  rw [unfoldAll_eq_map, unfoldAll_eq_map] at same
  exact same.symm

/-- **Replacing an item of a list, in place, by an equal one.**  The heap stays without lists that
contain themselves, and all comparisons come out as before. -/
theorem equals_setItem (acyclic : h.Acyclic) {ref i : Nat} (hv : (h.items ref)[i]? = some v)
    (hvw : v.equals h w = true) :
    (h.setItem ref i w).Acyclic ∧ ∀ a b : Value, a.equals (h.setItem ref i w) b = a.equals h b := by
  -- the heap unfolds as it did
  have fixed (a : Nat) : h.unfolding h.lists.size a =
      unfoldAll (h.unfolding h.lists.size) ((h.setItem ref i w).items a) := by
    rw [Heap.items_setItem]
    split
    · rename_i ha
      rw [ha, unfoldAll_set hv (equals_iff_unfold.1 hvw), ← Heap.unfolding_eq_unfoldAll acyclic]
    · exact Heap.unfolding_eq_unfoldAll acyclic a
  refine ⟨Heap.acyclic_of_unfolds fixed, fun a b => ?_⟩
  have unfolds (c : Value) : c.unfold (h.setItem ref i w) = c.unfold h := by
    rw [unfold, Heap.unfolding_unique fixed]
    rfl
  rw [Bool.eq_iff_iff, equals_iff_unfold, equals_iff_unfold, unfolds, unfolds]

end Value

/-- **Equality of values.**  If no list contains itself, then two lists are equal exactly if they
are the same or have equal items, and equality is an equivalence.  Sameness is symmetric and
transitive and implies equality.  A tuple or list that has an equal item in the place of an item is
equal to the tuple or list as it was; if the item of a list is replaced in place, then no comparison
comes out differently, and still no list contains itself. -/
theorem equals_equivalence {h : Heap} (acyclic : h.Acyclic) :
    (∀ a b, (Value.list a).equals h (.list b) = true ↔
      a = b ∨ List.Forall₂ (fun v w => v.equals h w = true) (h.items a) (h.items b)) ∧
    Equivalence (fun v w : Value => v.equals h w = true) ∧
    (∀ v w : Value, v.same w = true → v.equals h w = true ∧ w.same v = true) ∧
    (∀ u v w : Value, u.same v = true → v.same w = true → u.same w = true) ∧
    ∀ (items : List Value) (i : Nat) (v w : Value), items[i]? = some v → v.equals h w = true →
      (Value.tuple items).equals h (.tuple (items.set i w)) = true ∧
      (∀ a b, h.items a = items → h.items b = items.set i w →
        (Value.list a).equals h (.list b) = true) ∧
      ∀ ref, h.items ref = items → (h.setItem ref i w).Acyclic ∧
        ∀ a b : Value, a.equals (h.setItem ref i w) b = a.equals h b := by
  refine ⟨fun a b => Value.equals_list acyclic,
    ⟨Value.equals_refl h, Value.equals_symm, Value.equals_trans⟩,
    fun v w hvw => ⟨Value.equals_of_same hvw, Value.same_symm hvw⟩,
    fun u v w => Value.same_trans, fun items i v w hv hvw => ?_⟩
  have replaced := Value.forall₂_set hv hvw
  refine ⟨Value.equals_tuple.2 replaced, fun a b ha hb => ?_, fun ref href => ?_⟩
  · rw [Value.equals_list acyclic, ha, hb]
    exact .inr replaced
  · exact Value.equals_setItem acyclic (href ▸ hv) hvw

/-- Two lists `[1]`, a list with the first of them and a tuple with the first of them, and a list
with the second of them and the same tuple. -/
def sharedLists : Heap where
  lists := #[#[.int 1], #[.int 1], #[.list 0, .tuple [.list 0]], #[.list 1, .tuple [.list 0]]]

theorem equals_equivalence_shared :
    sharedLists.Acyclic ∧ (Value.list 2).same (.list 3) = false ∧
      (Value.list 2).equals sharedLists (.list 3) = true ∧
      (Value.list 3).equals (sharedLists.setItem 3 1 (.tuple [.list 1])) (.list 2) = true := by
  have earlier : ∀ a < 4, ∀ b ∈ Value.listsAll (sharedLists.items a), b < a := by decide
  have acyclic : sharedLists.Acyclic :=
    Heap.acyclic_of_rank id fun a b hab => earlier a hab.lt_size b hab
  obtain ⟨lists, equivalence, -, -, replace⟩ := equals_equivalence acyclic
  have ones : (Value.list 0).equals sharedLists (.list 1) = true :=
    (lists 0 1).2 (.inr (.cons (equivalence.refl _) .nil))
  have pair := (replace _ 0 _ _ rfl ones).2.1 2 3 rfl rfl
  have tuples : (Value.tuple [.list 0]).equals sharedLists (.tuple [.list 1]) = true :=
    (replace _ 0 _ _ rfl ones).1
  refine ⟨acyclic, rfl, pair, ?_⟩
  rw [((replace _ 1 _ _ rfl tuples).2.2 3 rfl).2]
  exact equivalence.symm pair

end FlatClosure

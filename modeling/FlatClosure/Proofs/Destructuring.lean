import FlatClosure.Proofs.Comprehensions
import FlatClosure.Proofs.Points

/-!
# Destructuring

A destructuring assignment takes the items of a value as they are at the start, checks that they
fit the number of targets, and hands them out.  `destructureWith` is the same program with names for
what should not always or never happen: `refuse` for the answer of the check, and `crash` for the
places where the remaining items could be fewer than the targets that still need them.

* `Mismatch` : the number of items does not fit the targets.
* `Enough` : the invariant of handing out, kept by one target (`Enough.star`, `Enough.single`).
* `assignSlotsOr_eq` : with enough items nothing crashes, whatever the targets do.
* `Shares` : every item is handed to one target, in order.
* `destructuring_hands_out` : **the check refuses exactly the mismatches, and otherwise nothing is
  lost or duplicated.**
-/

namespace FlatClosure

/-! ### The checked program -/

/-- Hand items to targets in order, with a crash where there are fewer items left than targets
behind a star, or none at all for a target without one. -/
def assignSlotsOr (crash : EvalM Unit) (k : Calls) (starOpen : Bool) :
    List Slot → List Value → EvalM Unit
  | [], _ => return ()
  | slot :: slots, items =>
    if starOpen && slot.starred then
      if items.length < slots.length then crash
      else do
        let v ← newList (items.take (items.length - slots.length))
        slot.target.assign k v
        assignSlotsOr crash k false slots (items.drop (items.length - slots.length))
    else
      match items with
      | [] => crash
      | v :: vs => do
        slot.target.assign k v
        assignSlotsOr crash k starOpen slots vs

/-- Take a value apart, where a wrong number of items is answered by `refuse`. -/
def destructureWith (refuse : Nat → Nat → EvalM Unit) (crash : EvalM Unit) (k : Calls)
    (slots : List Slot) (v : Value) : EvalM Unit := do
  let items ← itemsOf v "unpack"
  if items.length < fixedSlots slots ∨
      (!slots.any (·.starred) ∧ items.length ≠ fixedSlots slots) then
    refuse (fixedSlots slots) items.length
  else assignSlotsOr crash k true slots items

/-- The number of items does not fit: without a star there have to be as many as targets, with one
at most one fewer. -/
def Mismatch (slots : List Slot) (n : Nat) : Prop :=
  (slots.any (·.starred) = false ∧ n ≠ slots.length) ∨
    (slots.any (·.starred) = true ∧ n < slots.length - 1)

theorem mismatch_iff {slots : List Slot} {n : Nat} :
    (n < fixedSlots slots ∨ (!slots.any (·.starred) ∧ n ≠ fixedSlots slots)) ↔
      Mismatch slots n := by
  unfold Mismatch fixedSlots
  cases slots.any (·.starred) with
  | true => simp
  | false =>
    simp only [Bool.false_eq_true, if_false, Bool.not_false, true_and, false_and, or_false,
      Nat.sub_zero]
    omega

/-! ### Enough items -/

/-- There are enough items left: as many as targets, or, while the star is still to come, at most
one fewer. -/
def Enough (starOpen : Bool) (slots : List Slot) (items : List Value) : Prop :=
  if starOpen && slots.any (·.starred) then slots.length ≤ items.length + 1
  else items.length = slots.length

namespace Enough

variable {starOpen : Bool} {slot : Slot} {slots : List Slot} {items : List Value}

theorem of_not_mismatch (h : ¬ Mismatch slots items.length) : Enough true slots items := by
  unfold Mismatch at h
  unfold Enough
  cases hs : slots.any (·.starred) with
  | true =>
    simp only [hs, Bool.true_eq_false, false_and, true_and, false_or] at h
    simp only [Bool.and_self, if_true]
    omega
  | false =>
    simp only [hs, Bool.false_eq_true, false_and, true_and, or_false, Decidable.not_not] at h
    simpa using h

/-- The first starred target leaves as many items as there are targets behind it. -/
theorem star (h : Enough starOpen (slot :: slots) items)
    (hs : (starOpen && slot.starred) = true) :
    slots.length ≤ items.length ∧
      Enough false slots (items.drop (items.length - slots.length)) := by
  obtain ⟨rfl, hslot⟩ := Bool.and_eq_true_iff.1 hs
  simp only [Enough, List.any_cons, hslot, Bool.true_or, Bool.and_self, if_true,
    List.length_cons] at h
  refine ⟨by omega, ?_⟩
  simp only [Enough, Bool.false_and, Bool.false_eq_true, if_false, List.length_drop]
  omega

/-- Any other target has an item, and leaves enough for those behind it. -/
theorem single (h : Enough starOpen (slot :: slots) items)
    (hs : (starOpen && slot.starred) = false) :
    ∃ v vs, items = v :: vs ∧ Enough starOpen slots vs := by
  have open_iff : (starOpen && (slot :: slots).any (·.starred)) =
      (starOpen && slots.any (·.starred)) := by
    rw [List.any_cons, Bool.and_or_distrib_left, hs, Bool.false_or]
  unfold Enough at h ⊢
  rw [open_iff] at h
  cases items with
  | nil =>
    split at h
    · -- A star is still to come, so there is another target: two targets for no items.
      rename_i hopen
      cases slots with
      | nil => simp at hopen
      | cons => simp at h
    · simp at h
  | cons v vs => exact ⟨v, vs, rfl, by split at h <;> simp_all⟩

end Enough

/-! ### Handing out -/

/-- What a target is handed: one item, or a new list of several. -/
inductive Handed where
  | one (v : Value)
  | rest (vs : List Value)

namespace Handed

/-- The items in it. -/
def values : Handed → List Value
  | one v => [v]
  | rest vs => vs

/-- Is it a list of several? -/
def isRest : Handed → Bool
  | one _ => false
  | rest _ => true

/-- Assign it to a target. -/
def give (k : Calls) (target : Target) : Handed → EvalM Unit
  | one v => target.assign k v
  | rest vs => do
    let v ← newList vs
    target.assign k v

end Handed

/-- Hand each target its own, in order.  The first assignment that fails ends it. -/
def handOut (k : Calls) : List Slot → List Handed → EvalM Unit
  | slot :: slots, h :: hs => do
    h.give k slot.target
    handOut k slots hs
  | _, _ => return ()

/-- Every target is handed something, the first starred one a list and every other one item, and
together they are the items in order. -/
structure Shares (slots : List Slot) (items : List Value) (hs : List Handed) : Prop where
  length : hs.length = slots.length
  values : hs.flatMap Handed.values = items
  isRest : ∀ i h, hs[i]? = some h →
    (h.isRest = true ↔ slots.findIdx? (·.starred) = some i)

/-- The shares of the targets. -/
def shares (starOpen : Bool) : List Slot → List Value → List Handed
  | [], _ => []
  | slot :: slots, items =>
    if starOpen && slot.starred then
      .rest (items.take (items.length - slots.length)) ::
        shares false slots (items.drop (items.length - slots.length))
    else .one (items.headD .none) :: shares starOpen slots items.tail

section Shares

variable {k : Calls} {starOpen : Bool} {slots : List Slot} {items : List Value}

theorem assignSlots_eq_handOut (k : Calls) (starOpen : Bool) (slots : List Slot)
    (items : List Value) :
    assignSlots k starOpen slots items = handOut k slots (shares starOpen slots items) := by
  induction slots generalizing starOpen items with
  | nil => rfl
  | cons slot slots ih =>
    unfold assignSlots shares
    split
    · simp only [handOut, Handed.give, bind_assoc, ih]
    · simp only [handOut, Handed.give, ih]

/-- With enough items nothing crashes. -/
theorem assignSlotsOr_eq (h : Enough starOpen slots items) (crash : EvalM Unit) :
    assignSlotsOr crash k starOpen slots items = assignSlots k starOpen slots items := by
  induction slots generalizing starOpen items with
  | nil => rfl
  | cons slot slots ih =>
    unfold assignSlotsOr assignSlots
    cases hs : starOpen && slot.starred with
    | true =>
      obtain ⟨hle, hrest⟩ := h.star hs
      simp only [if_true, if_neg (Nat.not_lt.2 hle), ih hrest]
    | false =>
      obtain ⟨v, vs, rfl, hrest⟩ := h.single hs
      simp only [Bool.false_eq_true, if_false, List.headD_cons, List.tail_cons, ih hrest]

theorem length_shares (starOpen : Bool) (slots : List Slot) (items : List Value) :
    (shares starOpen slots items).length = slots.length := by
  induction slots generalizing starOpen items with
  | nil => rfl
  | cons slot slots ih =>
    unfold shares
    split <;> simp [ih]

theorem values_shares (h : Enough starOpen slots items) :
    (shares starOpen slots items).flatMap Handed.values = items := by
  induction slots generalizing starOpen items with
  | nil => simpa [Enough, shares, eq_comm] using h
  | cons slot slots ih =>
    unfold shares
    cases hs : starOpen && slot.starred with
    | true =>
      simp only [if_true, List.flatMap_cons, Handed.values, ih (h.star hs).2,
        List.take_append_drop]
    | false =>
      obtain ⟨v, vs, rfl, hrest⟩ := h.single hs
      simp only [Bool.false_eq_true, if_false, List.flatMap_cons, Handed.values, List.headD_cons,
        List.tail_cons, ih hrest, List.singleton_append]

/-- After the star every target is handed one item. -/
theorem isRest_shares_closed (slots : List Slot) (items : List Value) {i : Nat} {h : Handed}
    (hi : (shares false slots items)[i]? = some h) : h.isRest = false := by
  induction slots generalizing items i with
  | nil => simp [shares] at hi
  | cons slot slots ih =>
    simp only [shares, Bool.false_and, Bool.false_eq_true, if_false] at hi
    cases i with
    | zero =>
      obtain rfl := Option.some.inj hi
      rfl
    | succ i => exact ih _ hi

theorem isRest_shares (slots : List Slot) (items : List Value) {i : Nat} {h : Handed}
    (hi : (shares true slots items)[i]? = some h) :
    h.isRest = true ↔ slots.findIdx? (·.starred) = some i := by
  induction slots generalizing items i with
  | nil => simp [shares] at hi
  | cons slot slots ih =>
    unfold shares at hi
    rw [List.findIdx?_cons]
    cases hs : slot.starred with
    | true =>
      simp only [hs, Bool.and_self, if_true] at hi
      cases i with
      | zero =>
        obtain rfl := Option.some.inj hi
        simp [Handed.isRest]
      | succ i => simp [isRest_shares_closed slots _ hi]
    | false =>
      simp only [hs, Bool.and_false, Bool.false_eq_true, if_false] at hi
      cases i with
      | zero =>
        obtain rfl := Option.some.inj hi
        simp [Handed.isRest]
      | succ i => simpa using ih _ hi

theorem shares_spec (h : Enough true slots items) : Shares slots items (shares true slots items) :=
  ⟨length_shares true slots items, values_shares h, fun _ _ => isRest_shares slots items⟩

end Shares

/-! ### The whole assignment -/

section Destructure

variable {k : Calls} {slots : List Slot} {s : Machine} {v : Value} {items : List Value}
  {refuse : Nat → Nat → EvalM Unit} {crash : EvalM Unit}

/-- Nothing crashes, whatever is taken apart. -/
theorem destructure_eq_with (k : Calls) (slots : List Slot) (v : Value) (crash : EvalM Unit) :
    destructure k slots v =
      destructureWith (fun expected actual => fail (.unpack expected actual)) crash k slots v := by
  unfold destructure destructureWith
  refine congrArg _ (funext fun items => ?_)
  by_cases h : Mismatch slots items.length
  · exact (if_pos (mismatch_iff.2 h)).trans (if_pos (mismatch_iff.2 h)).symm
  · have hc := mt mismatch_iff.1 h
    exact (if_neg hc).trans
      ((assignSlotsOr_eq (.of_not_mismatch h) crash).symm.trans (if_neg hc).symm)

theorem run_destructureWith_of_mismatch (hv : Iterates s.heap v items)
    (h : Mismatch slots items.length) :
    (destructureWith refuse crash k slots v).run s =
      (refuse (fixedSlots slots) items.length).run s := by
  unfold destructureWith
  rw [run_bind_of_ok (hv.run_itemsOf _), if_pos (mismatch_iff.2 h)]

theorem run_destructureWith_of_not_mismatch (hv : Iterates s.heap v items)
    (h : ¬ Mismatch slots items.length) :
    (destructureWith refuse crash k slots v).run s =
      (handOut k slots (shares true slots items)).run s := by
  unfold destructureWith
  rw [run_bind_of_ok (hv.run_itemsOf _), if_neg (mt mismatch_iff.1 h),
    assignSlotsOr_eq (.of_not_mismatch h), assignSlots_eq_handOut]

/-- **Destructuring neither loses nor duplicates an item.**  Nothing ever crashes.  The check
answers exactly for the mismatches, and then the error is the whole outcome: no target has been
assigned.  Otherwise the shares of the targets are settled before the first assignment, and the
outcome is that of handing them out: it fails only where a target's own assignment does. -/
theorem destructuring_hands_out (k : Calls) (slots : List Slot)
    (hv : Iterates s.heap v items) :
    (∀ crash, destructure k slots v =
      destructureWith (fun expected actual => fail (.unpack expected actual)) crash k slots v) ∧
    ((∀ refuse crash, (destructureWith refuse crash k slots v).run s =
        (refuse (fixedSlots slots) items.length).run s) ↔ Mismatch slots items.length) ∧
    (Mismatch slots items.length →
      (destructure k slots v).run s =
        (.error (.error (.unpack (fixedSlots slots) items.length)), s)) ∧
    (¬ Mismatch slots items.length →
      ∃ hs, Shares slots items hs ∧
        (destructure k slots v).run s = (handOut k slots hs).run s ∧
        ∀ refuse crash, (destructureWith refuse crash k slots v).run s =
          (handOut k slots hs).run s) := by
  refine ⟨destructure_eq_with k slots v, ⟨fun h => ?_, fun h refuse crash => ?_⟩, fun h => ?_,
    fun h => ?_⟩
  · -- Otherwise the outcome would have to be that of each of two different answers.
    refine Classical.byContradiction fun hm => ?_
    have same := (h (fun _ _ => pure ()) (pure ())).symm.trans
      ((run_destructureWith_of_not_mismatch hv hm).trans
        ((run_destructureWith_of_not_mismatch hv hm).symm.trans
          (h (fun _ _ => throw .outOfFuel) (pure ()))))
    cases congrArg Prod.fst same
  · exact run_destructureWith_of_mismatch hv h
  · rw [destructure_eq_with k slots v (pure ()), run_destructureWith_of_mismatch hv h]
    rfl
  · refine ⟨_, shares_spec (.of_not_mismatch h), ?_, fun _ _ =>
      run_destructureWith_of_not_mismatch hv h⟩
    rw [destructure_eq_with k slots v (pure ()), run_destructureWith_of_not_mismatch hv h]

end Destructure

/-- The targets of `xs[3], *b, *c = xs`: the first one changes the list that is taken apart. -/
def overwriting : List Slot :=
  [⟨.index (.id "xs" .dummy) (.literal (.num 3)), false⟩, ⟨.id "b", true⟩, ⟨.id "c", true⟩]

/-- The state after `xs = [1, 2, 3, 4]`. -/
def fourItems : Machine where
  globals := .ofList [("xs", .list 0)]
  heap := { lists := #[#[.int 1, .int 2, .int 3, .int 4]] }

theorem destructuring_hands_out_overwriting :
    let items : List Value := [.int 1, .int 2, .int 3, .int 4]
    let k := Context.calls ⟨{}, {}, 3⟩ 1
    let out := (destructure k overwriting (.list 0)).run fourItems
    (∃ hs, Shares overwriting items hs ∧ out = (handOut k overwriting hs).run fourItems) ∧
      out.1 = .ok () ∧ out.2.heap.items 0 = [.int 1, .int 2, .int 3, .int 1] ∧
      out.2.heap.items 1 = [.int 2, .int 3] ∧ out.2.globals.get? "c" = some (.int 4) := by
  have hv : Iterates fourItems.heap (.list 0) [.int 1, .int 2, .int 3, .int 4] := .list 0
  have fits : ¬ Mismatch overwriting 4 := by simp [Mismatch, overwriting]
  obtain ⟨hs, shared, run, -⟩ :=
    (destructuring_hands_out (Context.calls ⟨{}, {}, 3⟩ 1) overwriting hv).2.2.2 fits
  exact ⟨⟨hs, shared, run⟩, rfl, rfl, rfl, rfl⟩

end FlatClosure

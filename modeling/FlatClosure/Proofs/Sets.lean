import FlatClosure.Proofs.Comprehensions
import FlatClosure.Proofs.Equality

/-!
# Sets

A set is a list without repetitions.  The values are gone through in order, and a value is kept if
it is equal to none of those kept so far.  Since equality is an equivalence, that is the same as
being equal to none of the values before it, kept or not; so what is left are the first occurrences.

* `Value.firsts` : the first occurrences, by position.
* `Value.dedup_concat` : what one more value does to a set.
* `Sifts` : a set literal or comprehension beside the list with the same parts.
* `dedup_first_occurrences` : **sets have no repetitions and miss nothing.**
-/

namespace FlatClosure

namespace Value

variable {h : Heap} {v w : Value} {vs : List Value}

/-- The values that are equal to none of the values before them. -/
def firsts (h : Heap) (vs : List Value) : List Value :=
  (vs.zipIdx.filter fun p => !(vs.take p.2).any (·.equals h p.1)).map Prod.fst

/-! ### One more value -/

theorem any_equals_eq_true : vs.any (·.equals h v) = true ↔ ∃ u ∈ vs, u.equals h v = true :=
  List.any_eq_true

/-- Equal values have the same equal values. -/
theorem any_equals_congr (hvw : v.equals h w = true) :
    vs.any (·.equals h v) = vs.any (·.equals h w) := by
  rw [Bool.eq_iff_iff, any_equals_eq_true, any_equals_eq_true]
  constructor
  · rintro ⟨u, hu, huv⟩
    exact ⟨u, hu, equals_trans huv hvw⟩
  · rintro ⟨u, hu, huw⟩
    exact ⟨u, hu, equals_trans huw (equals_symm hvw)⟩

theorem dedupFrom_append (kept vs ws : List Value) :
    dedupFrom h kept (vs ++ ws) = dedupFrom h (dedupFrom h kept vs) ws := by
  induction vs generalizing kept with
  | nil => rfl
  | cons v vs ih =>
    rw [List.cons_append, dedupFrom, dedupFrom]
    split <;> exact ih _

theorem dedup_append_singleton (vs : List Value) (v : Value) :
    dedup h (vs ++ [v]) =
      if (dedup h vs).any (·.equals h v) then dedup h vs else dedup h vs ++ [v] := by
  rw [dedup, dedupFrom_append]
  rfl

/-- A value is equal to one that was kept exactly if it is equal to one of the values. -/
theorem any_dedup (vs : List Value) (v : Value) :
    (dedup h vs).any (·.equals h v) = vs.any (·.equals h v) := by
  induction vs using List.reverseRecOn with
  | nil => rfl
  | append_singleton vs w ih =>
    rw [dedup_append_singleton, List.any_append, ← ih]
    split
    · rename_i known
      by_cases hwv : w.equals h v = true
      · rw [← any_equals_congr hwv, known]
        rfl
      · simp [hwv]
    · rw [List.any_append]

/-- What one more value does to a set. -/
theorem dedup_concat (vs : List Value) (v : Value) :
    dedup h (vs ++ [v]) = if vs.any (·.equals h v) then dedup h vs else dedup h vs ++ [v] := by
  rw [dedup_append_singleton, any_dedup]

theorem firsts_concat (vs : List Value) (v : Value) :
    firsts h (vs ++ [v]) = if vs.any (·.equals h v) then firsts h vs else firsts h vs ++ [v] := by
  have before (p : Value × Nat) (hp : p ∈ vs.zipIdx) : (vs ++ [v]).take p.2 = vs.take p.2 :=
    List.take_append_of_le_length (Nat.le_of_lt (by simpa using List.snd_lt_of_mem_zipIdx hp))
  have old : (vs.zipIdx.filter fun p => !((vs ++ [v]).take p.2).any (·.equals h p.1)) =
      vs.zipIdx.filter fun p => !(vs.take p.2).any (·.equals h p.1) :=
    List.filter_congr fun p hp => by rw [before p hp]
  rw [firsts, List.zipIdx_append, List.filter_append, List.map_append, old]
  by_cases known : vs.any (·.equals h v) = true
  · simp [known, firsts]
  · simp [known, firsts]

/-! ### What is kept -/

/-- **What is kept are the first occurrences.** -/
theorem dedup_eq_firsts (h : Heap) (vs : List Value) : dedup h vs = firsts h vs := by
  induction vs using List.reverseRecOn with
  | nil => rfl
  | append_singleton vs v ih => rw [dedup_concat, firsts_concat, ih]

theorem firsts_sublist (h : Heap) (vs : List Value) : (firsts h vs).Sublist vs := by
  have sub := (List.filter_sublist (p := fun p => !(vs.take p.2).any (·.equals h p.1))
    (l := vs.zipIdx)).map Prod.fst
  rwa [List.zipIdx_map_fst] at sub

/-- What is kept stands before everything that is equal to it. -/
theorem exists_first_of_mem (hw : w ∈ firsts h vs) :
    ∃ i : Nat, vs[i]? = some w ∧ ∀ j < i, ∀ u ∈ vs[j]?, u.equals h w = false := by
  obtain ⟨⟨w, i⟩, hp, rfl⟩ := List.mem_map.1 hw
  obtain ⟨mem, new⟩ := List.mem_filter.1 hp
  refine ⟨i, List.mk_mem_zipIdx_iff_getElem?.1 mem, fun j hj u hu => ?_⟩
  have earlier : u ∈ vs.take i :=
    List.mem_of_getElem? ((List.getElem?_take_of_lt hj).trans hu)
  simp only [Bool.not_eq_true', List.any_eq_false] at new
  simpa using new u earlier

theorem pairwise_dedup (h : Heap) (vs : List Value) :
    (dedup h vs).Pairwise fun v w => v.equals h w = false := by
  induction vs using List.reverseRecOn with
  | nil => exact .nil
  | append_singleton vs w ih =>
    rw [dedup_append_singleton]
    split
    · exact ih
    · rename_i new
      refine List.pairwise_append.2 ⟨ih, List.pairwise_singleton _ _, fun u hu x hx => ?_⟩
      rw [List.mem_singleton.1 hx]
      exact Bool.eq_false_iff.2 fun huw => new (any_equals_eq_true.2 ⟨u, hu, huw⟩)

theorem countP_le_one (distinct : vs.Pairwise fun v w => v.equals h w = false) (v : Value) :
    vs.countP (v.equals h ·) ≤ 1 := by
  induction distinct with
  | nil => exact Nat.zero_le 1
  | @cons w ws others _ ih =>
    by_cases hvw : v.equals h w = true
    · -- nothing else is equal to `v`, for it would be equal to `w`
      have none : ws.countP (v.equals h ·) = 0 := by
        refine List.countP_eq_zero.2 fun x hx hvx => ?_
        exact Bool.eq_false_iff.1 (others x hx) (equals_trans (equals_symm hvw) hvx)
      rw [List.countP_cons, none]
      split <;> omega
    · rw [List.countP_cons_of_neg hvw]
      exact ih

/-- Every value is equal to exactly one that was kept. -/
theorem countP_dedup (hv : v ∈ vs) : (dedup h vs).countP (v.equals h ·) = 1 := by
  have known : vs.any (·.equals h v) = true := any_equals_eq_true.2 ⟨v, hv, equals_refl h v⟩
  rw [← any_dedup] at known
  obtain ⟨u, hu, huv⟩ := any_equals_eq_true.1 known
  have some : 0 < (dedup h vs).countP (v.equals h ·) :=
    List.countP_pos_iff.2 ⟨u, hu, equals_symm huv⟩
  have most := countP_le_one (pairwise_dedup h vs) v
  omega

theorem dedup_dedup (h : Heap) (vs : List Value) : dedup h (dedup h vs) = dedup h vs := by
  induction vs using List.reverseRecOn with
  | nil => rfl
  | append_singleton vs v ih =>
    rw [dedup_append_singleton]
    split
    · exact ih
    · rename_i new
      rw [dedup_concat, if_neg new, ih]

/-- Values that are in a set already add nothing to it. -/
theorem dedup_dedup_append {us : List Value} (sub : us ⊆ vs) :
    dedup h (dedup h vs ++ us) = dedup h vs := by
  induction us using List.reverseRecOn with
  | nil => rw [List.append_nil, dedup_dedup]
  | append_singleton us u ih =>
    have known : (dedup h vs ++ us).any (·.equals h u) = true := by
      rw [List.any_append, any_dedup, any_equals_eq_true.2 ⟨u, sub (by simp), equals_refl h u⟩]
      rfl
    rw [← List.append_assoc, dedup_concat, if_pos known]
    exact ih fun x hx => sub (List.mem_append_left _ hx)

end Value

/-! ### Set literals and set comprehensions -/

/-- Where the first step makes a list, the second one makes a list of the first occurrences among
its items, in the same state; where the first one fails, the second one fails in the same way. -/
def Sifts (list set : EvalM Value) : Prop :=
  ∀ s, (∃ t vs, MakesList t vs (list.run s) ∧ MakesList t (Value.dedup t.heap vs) (set.run s)) ∨
    ∃ e, (list.run s).1 = .error e ∧ set.run s = list.run s

namespace Sifts

variable {α : Type}

theorem newList (vs : List Value) :
    Sifts (newList vs) (do FlatClosure.newList (Value.dedup (← get).heap vs)) := by
  refine fun s => .inl ⟨s, vs, makesList_newList s vs, ?_⟩
  rw [run_get_bind]
  exact makesList_newList s _

theorem bind (x : EvalM α) {f g : α → EvalM Value} (h : ∀ a, Sifts (f a) (g a)) :
    Sifts (x >>= f) (x >>= g) := by
  intro s
  rw [run_bind, run_bind]
  rcases x.run s with ⟨_ | a, t⟩
  · exact .inr ⟨_, rfl, rfl⟩
  · exact h a t

theorem literal (k : Calls) (es : List Expr) :
    Sifts ((Expr.list es).eval k) ((Expr.set es).eval k) := by
  rw [Expr.eval, Expr.eval]
  exact bind _ newList

theorem comprehension (k : Calls) (e : Expr) (x : String) (it : Expr) (c : Option Expr) :
    Sifts ((Expr.comprehension .list e x it c).eval k)
      ((Expr.comprehension .set e x it c).eval k) := by
  rw [Expr.eval, Expr.eval]
  exact bind _ fun _ => bind _ fun _ => bind _ newList

end Sifts

/-- **Sets have no repetitions and miss nothing.**  Sifting a list of values leaves the first
occurrences, in order: no two of them are equal, every value is equal to exactly one of them, and
each of them stands before all values that are equal to it.  Sifting them again, also with any of
the values behind them, changes nothing.  Set literals and set comprehensions make the list that is
left of the list which the list literal or list comprehension with the same parts makes. -/
theorem dedup_first_occurrences (h : Heap) (vs : List Value) :
    Value.dedup h vs = Value.firsts h vs ∧
    (Value.dedup h vs).Sublist vs ∧
    ((Value.dedup h vs).Pairwise fun v w => v.equals h w = false) ∧
    (∀ v ∈ vs, (Value.dedup h vs).countP (v.equals h ·) = 1) ∧
    (∀ w ∈ Value.dedup h vs,
      ∃ i : Nat, vs[i]? = some w ∧ ∀ j < i, ∀ u ∈ vs[j]?, u.equals h w = false) ∧
    (∀ us, us ⊆ vs → Value.dedup h (Value.dedup h vs ++ us) = Value.dedup h vs) ∧
    (∀ k es, Sifts ((Expr.list es).eval k) ((Expr.set es).eval k)) ∧
    ∀ k e x it c, Sifts ((Expr.comprehension .list e x it c).eval k)
      ((Expr.comprehension .set e x it c).eval k) := by
  have kept := Value.dedup_eq_firsts h vs
  exact ⟨kept, kept ▸ Value.firsts_sublist h vs, Value.pairwise_dedup h vs,
    fun v => Value.countP_dedup, fun w hw => Value.exists_first_of_mem (kept ▸ hw),
    fun us => Value.dedup_dedup_append, Sifts.literal, Sifts.comprehension⟩

/-- Two equal lists, a number twice, and two equal lists that hold them. -/
def sharedValues : List Value := [.list 0, .int 1, .list 1, .int 1, .list 2, .list 3]

theorem dedup_first_occurrences_shared :
    Value.dedup sharedLists sharedValues = [.list 0, .int 1, .list 2] ∧
      (Value.list 3 ∈ sharedValues ∧
        [Value.list 0, .int 1, .list 2].countP ((Value.list 3).equals sharedLists ·) = 1) ∧
      Value.dedup sharedLists [.list 0, .int 1, .list 2, .list 3, .list 1] =
        [.list 0, .int 1, .list 2] := by
  obtain ⟨kept, -, -, once, -, again, -⟩ := dedup_first_occurrences sharedLists sharedValues
  have left : Value.dedup sharedLists sharedValues = [.list 0, .int 1, .list 2] := kept.trans rfl
  have mem : Value.list 3 ∈ sharedValues := by simp [sharedValues]
  have twice := again [.list 3, .list 1] (by simp [sharedValues])
  rw [left] at twice
  exact ⟨left, ⟨mem, left ▸ once _ mem⟩, twice⟩

end FlatClosure

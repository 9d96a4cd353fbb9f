import FlatClosure.Conversion.Fresh
import FlatClosure.Proofs.Classifying

/-!
# Fresh names are fresh

The search for a free candidate looks at as many candidates as there are taken names.  If they are
all taken then the next one is not, because the candidates differ (`candidate_firstFree_not_mem`).

* `className_inj` : the number and the closure can be read off the name of a class.
* `className_not_mem` : the name of a class is none of the global names.
* `freshReceiver_not_mem` : the receiver is neither read nor bound by its closure.
-/

namespace FlatClosure

/-! ### The search -/

section Search

variable (candidate : Nat → String) (taken : List String)

theorem searchFree_spec (tries n : Nat) :
    ∃ i ≤ tries, searchFree candidate taken tries n = n + i ∧
      (∀ j < i, candidate (n + j) ∈ taken) ∧ (i < tries → candidate (n + i) ∉ taken) := by
  induction tries generalizing n with
  | zero => exact ⟨0, Nat.le_refl 0, rfl, by simp, by simp⟩
  | succ tries ih =>
    by_cases h : candidate n ∈ taken
    · obtain ⟨i, hi, result, before, free⟩ := ih (n + 1)
      refine ⟨i + 1, by omega, ?_, ?_, ?_⟩
      · rw [searchFree, if_pos h, result]
        omega
      · intro j hj
        cases j with
        | zero => exact h
        | succ j => simpa [Nat.add_comm, Nat.add_left_comm] using before j (by omega)
      · intro hlt
        simpa [Nat.add_comm, Nat.add_left_comm] using free (by omega)
    · exact ⟨0, by omega, by rw [searchFree, if_neg h]; rfl, by simp, fun _ => h⟩

theorem le_firstFree (n : Nat) : n ≤ firstFree candidate taken n := by
  obtain ⟨i, -, result, -, -⟩ := searchFree_spec candidate taken taken.length n
  rw [firstFree, result]
  omega

/-- The candidates that were passed over are taken. -/
theorem candidate_mem_of_lt_firstFree {n j : Nat} (hn : n ≤ j)
    (hj : j < firstFree candidate taken n) : candidate j ∈ taken := by
  obtain ⟨i, -, result, before, -⟩ := searchFree_spec candidate taken taken.length n
  rw [firstFree, result] at hj
  have := before (j - n) (by omega)
  rwa [Nat.add_sub_cancel' hn] at this

/-- The candidate that is found is free. -/
theorem candidate_firstFree_not_mem (n : Nat)
    (distinct : ∀ i j, candidate i = candidate j → i = j) :
    candidate (firstFree candidate taken n) ∉ taken := by
  obtain ⟨i, hi, result, before, free⟩ := searchFree_spec candidate taken taken.length n
  rw [firstFree, result]
  rcases Nat.lt_or_ge i taken.length with hlt | hge
  · exact free hlt
  · -- all candidates that were looked at are taken, and there are as many as taken names
    intro last
    have looked : ((List.range (i + 1)).map fun j => candidate (n + j)) ⊆ taken := by
      intro x hx
      obtain ⟨j, hj, rfl⟩ := List.mem_map.1 hx
      rcases Nat.lt_or_ge j i with h | h
      · exact before j h
      · obtain rfl : j = i := by
          have := List.mem_range.1 hj
          omega
        exact last
    have nodup : ((List.range (i + 1)).map fun j => candidate (n + j)).Nodup := by
      refine List.Pairwise.map _ (fun a b hne h => hne ?_) List.nodup_range
      have := distinct _ _ h
      omega
    have := nodup.length_le_of_subset looked
    rw [List.length_map, List.length_range] at this
    omega

end Search

/-! ### Class names -/

theorem takeWhile_append_underscore {xs : List Char} (h : '_' ∉ xs) (ys : List Char) :
    (xs ++ '_' :: ys).takeWhile (· ≠ '_') = xs := by
  have head : ∀ x ∈ xs, decide (x ≠ '_') = true := fun x hx =>
    decide_eq_true fun e => h (e ▸ hx)
  rw [List.takeWhile_append_of_pos head, List.takeWhile_cons_of_neg (by simp), List.append_nil]

/-- The number and the closure can be read off the name of a class. -/
theorem className_inj {start c c' : String} {n n' : Nat}
    (h : className start c n = className start c' n') : n = n' ∧ c = c' := by
  have chars : Nat.toDigits 10 n ++ '_' :: c.toList = Nat.toDigits 10 n' ++ '_' :: c'.toList := by
    simpa [className, Nat.toString_eq_ofList_toDigits] using congrArg String.toList h
  have digits : Nat.toDigits 10 n = Nat.toDigits 10 n' := by
    have := congrArg (List.takeWhile (· ≠ '_')) chars
    rwa [takeWhile_append_underscore Nat.underscore_not_in_toDigits,
      takeWhile_append_underscore Nat.underscore_not_in_toDigits] at this
  constructor
  · have value := congrArg (fun ds => Nat.ofDigitChars 10 ds 0) digits
    rwa [Nat.ofDigitChars_ten_toDigits, Nat.ofDigitChars_ten_toDigits] at value
  · rw [digits] at chars
    exact String.toList_inj.1 (List.cons.inj (List.append_cancel_left chars)).2

theorem className_ne_empty (start c : String) (n : Nat) : className start c n ≠ "" := by
  intro h
  simpa [className] using congrArg String.toList h

/-- The class of a closure never has the name of the closure. -/
theorem className_ne_closure (start c : String) (n : Nat) : className start c n ≠ c := by
  intro h
  have lengths := congrArg (fun s => s.toList.length) h
  simp only [className, String.toList_append, List.length_append] at lengths
  have underscore : 0 < "_".toList.length := by decide
  omega

/-- The name of a class is none of the taken names. -/
theorem className_not_mem (start c : String) (taken : List String) (n : Nat) :
    className start c (firstFree (className start c) taken n) ∉ taken :=
  candidate_firstFree_not_mem _ _ n fun _ _ h => (className_inj h).1

/-! ### Receivers -/

theorem underscored_inj {base : String} {i j : Nat} (h : underscored base i = underscored base j) :
    i = j := by
  simpa [underscored] using congrArg (fun s => s.toList.length) h

/-- The receiver is neither read nor bound by its closure. -/
theorem freshReceiver_not_mem (base : String) (c : FunDef) :
    freshReceiver base c c.reads ∉ c.freeNames ++ c.collect boundVars ++ c.binders := by
  have fresh := candidate_firstFree_not_mem (underscored base)
    (c.reads.names.names ++ c.reads.bound ++ c.binders) 0 fun _ _ h => underscored_inj h
  simpa only [freshReceiver, List.mem_append, mem_reads_names, mem_reads_bound] using fresh

end FlatClosure

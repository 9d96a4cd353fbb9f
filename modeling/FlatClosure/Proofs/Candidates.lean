import FlatClosure.Conversion.Convert
import FlatClosure.Proofs.Fresh
import Mathlib.Order.Bounds.Defs

/-!
# The search for a fresh name ends

A fresh name is found by a loop that looks at one candidate in each round, until one is not taken.
Nothing in the loop bounds the number of rounds: it stops because the candidates differ from each
other and only finitely many names are taken.

* `Stops` : a loop stops after some number of rounds, with an answer.
* `isLeast_firstFree`, `firstFree_le` : the first free candidate, and how far it can be away.
* `fresh_names_found` : **the loops for class names and for receivers stop at the first free
  candidate, and nowhere else.**
-/

namespace FlatClosure

/-! ### Loops -/

/-- A loop, a round of which goes on with a new state or stops with an answer: from a state it
stops in the `n`-th round with the answer `a`. -/
inductive Stops {σ α : Type} (round : σ → σ ⊕ α) : σ → Nat → α → Prop
  | last {s : σ} {a : α} (answer : round s = .inr a) : Stops round s 1 a
  | next {s s' : σ} {n : Nat} {a : α} (goes : round s = .inl s') (rest : Stops round s' n a) :
      Stops round s (n + 1) a

section Loops

variable {σ α : Type} {round : σ → σ ⊕ α}

theorem Stops.unique {s : σ} {n n' : Nat} {a a' : α} (h : Stops round s n a)
    (h' : Stops round s n' a') : n = n' ∧ a = a' := by
  induction h generalizing n' with
  | last answer =>
    cases h' with
    | last answer' =>
      cases answer.symm.trans answer'
      exact ⟨rfl, rfl⟩
    | next goes' => cases answer.symm.trans goes'
  | next goes rest ih =>
    cases h' with
    | last answer' => cases goes.symm.trans answer'
    | next goes' rest' =>
      cases goes.symm.trans goes'
      obtain ⟨rfl, rfl⟩ := ih rest'
      exact ⟨rfl, rfl⟩

section Numbered

variable {state : Nat → σ} {answer : Nat → α} {free : Nat → Prop}
  (goes : ∀ j, ¬ free j → round (state j) = .inl (state (j + 1)))
  (stops : ∀ j, free j → round (state j) = .inr (answer j))

include goes stops

theorem stops_of_taken {n i : Nat} (taken : ∀ j < i, ¬ free (n + j)) (found : free (n + i)) :
    Stops round (state n) (i + 1) (answer (n + i)) := by
  induction i generalizing n with
  | zero => exact .last (stops n found)
  | succ i ih =>
    have shift (j : Nat) : n + 1 + j = n + (j + 1) := Nat.add_right_comm n 1 j
    rw [← shift] at found ⊢
    refine .next (goes n (taken 0 (Nat.succ_pos i))) (ih (fun j hj => ?_) found)
    rw [shift]
    exact taken (j + 1) (Nat.succ_lt_succ hj)

/-- A loop over numbered states that stops at the numbers that are free stops at the first of them,
and has passed over the others by then. -/
theorem stops_iff_of_isLeast {n k : Nat} (least : IsLeast {k | n ≤ k ∧ free k} k) (m : Nat)
    (a : α) : Stops round (state n) m a ↔ m = k - n + 1 ∧ a = answer k := by
  obtain ⟨⟨le, found⟩, below⟩ := least
  obtain ⟨i, rfl⟩ := Nat.exists_eq_add_of_le le
  have taken : ∀ j < i, ¬ free (n + j) := fun j hj isFree =>
    Nat.not_le_of_lt hj (Nat.le_of_add_le_add_left (below ⟨Nat.le_add_right n j, isFree⟩))
  have first := stops_of_taken goes stops taken found
  rw [Nat.add_sub_cancel_left]
  constructor
  · exact fun h => h.unique first
  · rintro ⟨rfl, rfl⟩
    exact first

end Numbered

end Loops

/-! ### The first free candidate -/

theorem isLeast_firstFree {candidate : Nat → String}
    (distinct : ∀ i j, candidate i = candidate j → i = j) (taken : List String) (n : Nat) :
    IsLeast {k | n ≤ k ∧ candidate k ∉ taken} (firstFree candidate taken n) := by
  refine ⟨⟨le_firstFree _ _ n, candidate_firstFree_not_mem _ _ n distinct⟩, ?_⟩
  rintro k ⟨le, free⟩
  exact Nat.le_of_not_lt fun lt => free (candidate_mem_of_lt_firstFree _ _ le lt)

theorem firstFree_le (candidate : Nat → String) (taken : List String) (n : Nat) :
    firstFree candidate taken n ≤ n + taken.length := by
  obtain ⟨i, le, result, -, -⟩ := searchFree_spec candidate taken taken.length n
  rw [firstFree, result]
  exact Nat.add_le_add_left le n

/-! ### Class names and receivers -/

/-- A round of the search for a class name.  The number is used up, whether its name is taken or
not. -/
def ConversionRun.classNameRound (start closure : String) (globals : List String)
    (run : ConversionRun) : ConversionRun ⊕ String × ConversionRun :=
  let name := className start closure run.counter
  let used := { run with counter := run.counter + 1 }
  if name ∈ globals then .inl used else .inr (name, used)

/-- A round of the search for a receiver.  A name that the closure mentions or binds gets one more
underscore. -/
def receiverRound (closure : FunDef) (reads : Reads) (name : String) : String ⊕ String :=
  if reads.mentions name || closure.binders.contains name then .inl (name.push '_') else .inr name

theorem underscored_zero (base : String) : underscored base 0 = base := by
  simp [underscored]

theorem underscored_succ (base : String) (n : Nat) :
    underscored base (n + 1) = (underscored base n).push '_' := by
  rw [← String.toList_inj]
  simp [underscored, List.replicate_succ']

/-- What a receiver must not be called. -/
theorem not_mem_taken_iff {c : FunDef} {reads : Reads} {x : String} :
    x ∉ reads.names.names ++ reads.bound ++ c.binders ↔
      reads.mentions x = false ∧ x ∉ c.binders := by
  rw [Reads.mentions, Reads.contains, Bool.or_eq_false_iff, Bindings.contains_eq_false_iff,
    List.mem_append, List.mem_append, not_or, not_or]
  simp

theorem isLeast_classNumber (start closure : String) (globals : List String) (n : Nat) :
    IsLeast {k | n ≤ k ∧ className start closure k ∉ globals}
      (firstFree (className start closure) globals n) :=
  isLeast_firstFree (fun _ _ h => (className_inj h).1) globals n

theorem isLeast_underscores (base : String) (c : FunDef) (reads : Reads) :
    IsLeast {k | 0 ≤ k ∧ reads.mentions (underscored base k) = false ∧
        underscored base k ∉ c.binders}
      (firstFree (underscored base) (reads.names.names ++ reads.bound ++ c.binders) 0) := by
  simp only [← not_mem_taken_iff]
  exact isLeast_firstFree (fun _ _ h => underscored_inj h) _ 0

/-- The loop over class names stops at the first number whose name is free. -/
theorem stops_classNameRound (run : ConversionRun) (start closure : String)
    (globals : List String) (n : Nat) (answer : String × ConversionRun) :
    Stops (ConversionRun.classNameRound start closure globals) run n answer ↔
      n = firstFree (className start closure) globals run.counter - run.counter + 1 ∧
        answer = run.freshClassName start closure globals := by
  have goes (j : Nat) (taken : ¬ className start closure j ∉ globals) :
      ConversionRun.classNameRound start closure globals { run with counter := j } =
        .inl { run with counter := j + 1 } := if_pos (Decidable.not_not.1 taken)
  have stops (j : Nat) (free : className start closure j ∉ globals) :
      ConversionRun.classNameRound start closure globals { run with counter := j } =
        .inr (className start closure j, { run with counter := j + 1 }) := if_neg free
  exact stops_iff_of_isLeast goes stops (isLeast_classNumber start closure globals run.counter)
    n answer

/-- The loop over receivers stops with the fewest underscores that make the name free. -/
theorem stops_receiverRound (base : String) (c : FunDef) (reads : Reads) (n : Nat)
    (answer : String) :
    Stops (receiverRound c reads) base n answer ↔
      n = firstFree (underscored base) (reads.names.names ++ reads.bound ++ c.binders) 0 + 1 ∧
        answer = freshReceiver base c reads := by
  have taken_iff (x : String) : (reads.mentions x || c.binders.contains x) = true ↔
      ¬ (reads.mentions x = false ∧ x ∉ c.binders) := by
    simp [Decidable.or_iff_not_imp_left]
  have goes (j : Nat) (taken : ¬ (reads.mentions (underscored base j) = false ∧
      underscored base j ∉ c.binders)) :
      receiverRound c reads (underscored base j) = .inl (underscored base (j + 1)) := by
    rw [underscored_succ]
    exact if_pos ((taken_iff _).2 taken)
  have stops (j : Nat) (free : reads.mentions (underscored base j) = false ∧
      underscored base j ∉ c.binders) :
      receiverRound c reads (underscored base j) = .inr (underscored base j) :=
    if_neg fun taken => (taken_iff _).1 taken free
  have := stops_iff_of_isLeast goes stops (isLeast_underscores base c reads) n answer
  rwa [underscored_zero, Nat.sub_zero] at this

/-- **The searches for fresh names end with the first free candidate.**  Whatever global names there
are, and wherever the counter stands, the loop over class names stops; the number of the name is
the least one from there on whose name is not global, and the counter is left behind it.  Whatever
a closure reads and binds, the loop over receivers stops; the name has the least number of
underscores with which the closure neither mentions nor binds it.  At most as many candidates are
passed over as there are names to avoid. -/
theorem fresh_names_found (run : ConversionRun) (start closure : String) (globals : List String)
    (base : String) (c : FunDef) (reads : Reads) :
    (∃ k,
      IsLeast {k | run.counter ≤ k ∧ className start closure k ∉ globals} k ∧
      run.freshClassName start closure globals =
        (className start closure k, { run with counter := k + 1 }) ∧
      (∀ n answer, Stops (ConversionRun.classNameRound start closure globals) run n answer ↔
        n = k - run.counter + 1 ∧ answer = run.freshClassName start closure globals) ∧
      k - run.counter ≤ globals.length) ∧
    ∃ k,
      IsLeast {k | reads.mentions (underscored base k) = false ∧ underscored base k ∉ c.binders} k ∧
      freshReceiver base c reads = underscored base k ∧
      (∀ n answer, Stops (receiverRound c reads) base n answer ↔
        n = k + 1 ∧ answer = freshReceiver base c reads) ∧
      k ≤ (reads.names.names ++ reads.bound ++ c.binders).length := by
  refine ⟨⟨_, isLeast_classNumber start closure globals run.counter, rfl,
    stops_classNameRound run start closure globals, ?_⟩,
    ⟨_, ?_, rfl, stops_receiverRound base c reads, ?_⟩⟩
  · exact Nat.sub_le_iff_le_add'.2 (firstFree_le _ globals run.counter)
  · simpa using isLeast_underscores base c reads
  · simpa using firstFree_le (underscored base) (reads.names.names ++ reads.bound ++ c.binders) 0

end FlatClosure

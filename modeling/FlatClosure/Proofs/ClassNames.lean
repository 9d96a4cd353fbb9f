import FlatClosure.Proofs.Generated

/-!
# The names of the generated classes

The class of a closure is named after the closure and a number.  The numbers grow along the whole
program, so equal names of closures do no harm, and a number is passed over only where the program
has the name already.

* `class_names_unique` : **the generated names differ from each other and from all global names.**
-/

namespace FlatClosure

variable {names : Conventions} {p : Program}

/-- The names of the generated classes, in order. -/
def Program.classNames (names : Conventions) (p : Program) : List String :=
  (p.declarations names).map (·.cls names)

theorem classNames_eq_zipWith (names : Conventions) (p : Program) :
    p.classNames names = List.zipWith (fun c k => className names.classPrefix c.name k) p.closures
      ((p.declarations names).map (·.number)) := by
  rw [← p.map_func_declarations names, List.zipWith_map, List.zipWith_self]
  rfl

theorem nodup_classNames (names : Conventions) (p : Program) : (p.classNames names).Nodup := by
  refine List.Pairwise.map _ (fun d d' lt same => ?_) (pairwise_number names p)
  exact Nat.ne_of_lt lt (className_inj same).1

theorem classNames_fresh {x : String} (hx : x ∈ p.classNames names) : x ∉ p.globalNames := by
  obtain ⟨d, hd, rfl⟩ := List.mem_map.1 hx
  exact cls_not_mem_globalNames hd

/-- Names without repetition stay so when the generated ones are added. -/
theorem nodup_append_classNames {xs : List String} (hxs : xs.Nodup)
    (global : ∀ x ∈ xs, x ∈ p.globalNames) : (xs ++ p.classNames names).Nodup := by
  refine List.nodup_append.2 ⟨hxs, nodup_classNames names p, fun x hx y hy same => ?_⟩
  exact classNames_fresh hy (same ▸ global x hx)

/-- A number that no closure before the `i`-th has reached, and that the `i`-th has passed over,
would have given it a name that the program has. -/
theorem mem_globalNames_of_skipped {i j : Nat} {c : FunDef} {k : Nat}
    (hc : p.closures[i]? = some c) (hk : ((p.declarations names).map (·.number))[i]? = some k)
    (hj : j < k) (before : ∀ k' ∈ ((p.declarations names).map (·.number)).take i, k' < j) :
    className names.classPrefix c.name j ∈ p.globalNames := by
  rw [← p.map_func_declarations names, List.getElem?_map, Option.map_eq_some_iff] at hc
  obtain ⟨d, hd, rfl⟩ := hc
  rw [List.getElem?_map, hd] at hk
  cases hk
  refine (p.declarations_numbered names).mem_of_skipped hd hj (Nat.zero_le j) fun e he => ?_
  exact before _ (List.map_take ▸ List.mem_map_of_mem he)

theorem map_name_classes_converted (names : Conventions) (p : Program) :
    (p.converted names).classes.map (·.name) = p.classes.map (·.name) ++ p.classNames names := by
  rw [Program.converted, List.map_append, List.map_map]
  rfl

theorem globalNames_converted (names : Conventions) (p : Program) :
    (p.converted names).globalNames = p.globalNames ++ p.classNames names := by
  have funs : (p.converted names).funs.map (·.name) = p.funs.map (·.name) := by
    conv => rhs; rw [← map_fst_plan names p.globalNames {} p.funs]
    rw [Program.converted, List.map_map, List.map_map]
    rfl
  rw [Program.globalNames, funs, map_name_classes_converted, ← List.append_assoc]
  rfl

/-- **The generated names are unique.**  The classes of the closures are added to the classes of the
program.  Their names differ from each other and from the names of all global variables, functions
and classes.  They are made of the names of the closures, in order, and of growing numbers; a number
is passed over only if the name that it gives is one of the program's.  So the names of classes,
and the global names as a whole, stay without repetition. -/
theorem class_names_unique {names : Conventions} {p q : Program} {artifacts : Artifacts}
    (h : convert names p = .ok (q, artifacts)) :
    ∃ lifted : List ClassDef,
      q.classes = p.classes ++ lifted ∧ artifacts.classNames = lifted.map (·.name) ∧
      (lifted.map (·.name)).Nodup ∧
      (∀ x ∈ lifted.map (·.name), x ∉ p.inits.map (·.name) ∧ x ∉ p.funs.map (·.name) ∧
        x ∉ p.classes.map (·.name)) ∧
      (∃ numbers : List Nat,
        numbers.length = p.closures.length ∧ numbers.Pairwise (· < ·) ∧
        lifted.map (·.name) = List.zipWith
          (fun c k => names.classPrefix ++ "_" ++ toString k ++ "_" ++ c.name) p.closures numbers ∧
        ∀ i c k, p.closures[i]? = some c → numbers[i]? = some k →
          ∀ j < k, (∀ k' ∈ numbers.take i, k' < j) →
            names.classPrefix ++ "_" ++ toString j ++ "_" ++ c.name ∈ p.globalNames) ∧
      ((p.classes.map (·.name)).Nodup → (q.classes.map (·.name)).Nodup) ∧
      (p.globalNames.Nodup → q.globalNames.Nodup) := by
  obtain ⟨-, rfl, rfl⟩ := (convert_eq_ok names).1 h
  have lifted_names : ((p.declarations names).map fun d => (d.lifted names).cls).map (·.name) =
      p.classNames names := by
    rw [List.map_map]
    rfl
  -- the numbers are those of the declarations, which `Numbered` has put in order
  refine ⟨(p.declarations names).map fun d => (d.lifted names).cls, rfl, ?_, ?_, ?_,
    ⟨(p.declarations names).map (·.number), ?_, ?_, ?_, ?_⟩, ?_, ?_⟩
  · rw [lifted_names, Artifacts.ofLifted, List.map_map]
    rfl
  · rw [lifted_names]
    exact nodup_classNames names p
  · intro x hx
    rw [lifted_names] at hx
    have fresh := classNames_fresh hx
    rwa [Program.globalNames, List.mem_append, List.mem_append, not_or, not_or, and_assoc] at fresh
  · rw [List.length_map, ← p.map_func_declarations names, List.length_map]
  · exact (pairwise_number names p).map _ fun _ _ lt => lt
  · rw [lifted_names]
    exact classNames_eq_zipWith names p
  · exact fun _ _ _ hc hk _ hj before => mem_globalNames_of_skipped hc hk hj before
  · intro nodup
    rw [map_name_classes_converted]
    exact nodup_append_classNames nodup fun x hx => List.mem_append_right _ hx
  · intro nodup
    rw [globalNames_converted]
    exact nodup_append_classNames nodup fun _ hx => hx

/-- A function that declares and calls a closure `g` without parameters. -/
def declaresG (name : String) : FunDef where
  name := name
  params := []
  ret := .int
  inits := []
  body :=
    [.closure
      { name := "g", params := [], ret := .int, inits := [],
        body := [.ret (some (.literal (.num 1)))], span := .dummy },
     .ret (some (.call (.id "g" .dummy) []))]
  span := .dummy

/-- Two closures of the same name, in a program that has the first and the third of the names that
their classes could get. -/
def crowdedNames : Program where
  funs := [declaresG "f", declaresG "Clo_2_g"]
  classes := [⟨"Clo_0_g", [], []⟩]

theorem class_names_unique_crowded :
    ∃ q artifacts, convert {} crowdedNames = .ok (q, artifacts) ∧
      artifacts.classNames = ["Clo_1_g", "Clo_3_g"] ∧ q.globalNames.Nodup := by
  have h : convert {} crowdedNames = .ok (_, _) := rfl
  obtain ⟨_, -, -, -, -, -, -, unique⟩ := class_names_unique h
  exact ⟨_, _, h, rfl, unique (by decide)⟩

end FlatClosure

import FlatClosure.Proofs.Fresh
import FlatClosure.Proofs.Lifting

/-!
# The classes that are generated

Facts about the declarations of a program (`Program.declarations`) and about what the converted
program finds under which name.

* `cls_not_mem_globalNames` : the class of a closure has a new name.
* `cls_inj` : **different closures have different classes.**
* `class?_converted`, `class?_converted_cls` : the classes of the program are found as before, and
  the class of a closure is found under its name.
-/

namespace FlatClosure

variable {names : Conventions} {globals : List String} {p : Program}

/-! ### Declarations -/

theorem Declaration.nodup_captures (d : Declaration) : d.captures.names.Nodup :=
  d.func.nodup_captures d.around

/-- The closure neither reads nor binds its receiver. -/
theorem Declaration.receiver_fresh (names : Conventions) (d : Declaration) :
    (d.receiver names ∉ d.func.freeNames ∧ d.receiver names ∉ d.func.collect boundVars) ∧
      d.receiver names ∉ d.func.binders := by
  have fresh := freshReceiver_not_mem names.receiver d.func
  rwa [List.mem_append, List.mem_append, not_or, not_or] at fresh

theorem Host.mem_declare {H : Host} {st : Lifting} {cs : List FunDef} {d : Declaration}
    (h : d ∈ H.declare st cs) : ∃ st' c, c ∈ cs ∧ d = H.declaration st' c := by
  induction cs generalizing st with
  | nil => cases h
  | cons c cs ih =>
    rcases List.mem_cons.1 h with rfl | h
    · exact ⟨st, c, List.mem_cons_self, rfl⟩
    · obtain ⟨st', c', hc, hd⟩ := ih h
      exact ⟨st', c', List.mem_cons_of_mem _ hc, hd⟩

theorem mem_plan {st : Lifting} {fs : List FunDef} {fd : FunDef × List Declaration}
    (h : fd ∈ plan names globals st fs) :
    fd.1 ∈ fs ∧ ∃ st', fd.2 = Host.declarations ⟨names, globals, fd.1⟩ st' := by
  induction fs generalizing st with
  | nil => cases h
  | cons f fs ih =>
    rcases List.mem_cons.1 h with rfl | h
    · exact ⟨List.mem_cons_self, st, rfl⟩
    · obtain ⟨hf, st', hd⟩ := ih h
      exact ⟨List.mem_cons_of_mem _ hf, st', hd⟩

theorem Program.mem_declarations {d : Declaration} :
    d ∈ p.declarations names ↔ ∃ fd ∈ p.plan names, d ∈ fd.2 :=
  List.mem_flatMap

theorem Program.func_mem_closures {d : Declaration} (h : d ∈ p.declarations names) :
    ∃ f ∈ p.funs, d.func ∈ f.closures := by
  obtain ⟨fd, hfd, hd⟩ := Program.mem_declarations.1 h
  obtain ⟨hf, st, hds⟩ := mem_plan hfd
  rw [hds] at hd
  obtain ⟨st', c, hc, rfl⟩ := Host.mem_declare hd
  exact ⟨fd.1, hf, hc⟩

/-- The closures of a program, in order. -/
def Program.closures (p : Program) : List FunDef := p.funs.flatMap FunDef.closures

theorem Host.map_func_declare (H : Host) (st : Lifting) (cs : List FunDef) :
    (H.declare st cs).map (·.func) = cs := by
  induction cs generalizing st with
  | nil => rfl
  | cons c cs ih => exact congrArg (c :: ·) (ih (H.next st c))

theorem map_func_plan (st : Lifting) (fs : List FunDef) :
    ((plan names globals st fs).flatMap (·.2)).map (·.func) = fs.flatMap FunDef.closures := by
  induction fs generalizing st with
  | nil => rfl
  | cons f fs ih =>
    rw [plan, List.flatMap_cons, List.map_append, ih, List.flatMap_cons]
    exact congrArg (· ++ _) (Host.map_func_declare _ _ _)

theorem map_func_of_mem_plan {st : Lifting} {fs : List FunDef} {fd : FunDef × List Declaration}
    (h : fd ∈ plan names globals st fs) : fd.2.map (·.func) = fd.1.closures := by
  obtain ⟨-, st', hds⟩ := mem_plan h
  rw [hds]
  exact Host.map_func_declare _ _ _

/-- Every closure has its declaration. -/
theorem Program.map_func_declarations (names : Conventions) (p : Program) :
    (p.declarations names).map (·.func) = p.closures :=
  map_func_plan {} p.funs

/-- The class of a closure has a name that the program does not have. -/
theorem cls_not_mem_globalNames {d : Declaration} (h : d ∈ p.declarations names) :
    d.cls names ∉ p.globalNames := by
  obtain ⟨fd, hfd, hd⟩ := Program.mem_declarations.1 h
  obtain ⟨-, st, hds⟩ := mem_plan hfd
  rw [hds] at hd
  obtain ⟨st', c, -, rfl⟩ := Host.mem_declare hd
  exact className_not_mem _ _ _ _

/-! ### Numbers -/

/-- Declarations numbered in order, from `n` up to `m`: each has the first of the numbers that are
left whose name is not taken. -/
inductive Numbered (names : Conventions) (taken : List String) : Nat → List Declaration → Nat → Prop
  | nil {n : Nat} : Numbered names taken n [] n
  | cons {n m : Nat} {d : Declaration} {ds : List Declaration}
      (first : d.number = firstFree (className names.classPrefix d.func.name) taken n)
      (rest : Numbered names taken (d.number + 1) ds m) : Numbered names taken n (d :: ds) m

namespace Numbered

variable {taken : List String} {n m l : Nat} {ds es : List Declaration} {d : Declaration}

theorem append (h : Numbered names taken n ds m) (h' : Numbered names taken m es l) :
    Numbered names taken n (ds ++ es) l := by
  induction h with
  | nil => exact h'
  | cons first _ ih => exact .cons first (ih h')

theorem lower (h : Numbered names taken n ds m) (hd : d ∈ ds) : n ≤ d.number := by
  induction h with
  | nil => cases hd
  | @cons n m e ds first _ ih =>
    have le : n ≤ e.number := first ▸ le_firstFree _ _ _
    rcases List.mem_cons.1 hd with rfl | hd
    · exact le
    · have := ih hd
      omega

theorem strict (h : Numbered names taken n ds m) : ds.Pairwise (·.number < ·.number) := by
  induction h with
  | nil => exact .nil
  | cons _ rest ih => exact List.pairwise_cons.2 ⟨fun _ hd => rest.lower hd, ih⟩

/-- A number that was passed over gives a name that is taken. -/
theorem mem_of_skipped (h : Numbered names taken n ds m) {i j : Nat} (hd : ds[i]? = some d)
    (hj : j < d.number) (hn : n ≤ j) (before : ∀ e ∈ ds.take i, e.number < j) :
    className names.classPrefix d.func.name j ∈ taken := by
  induction h generalizing i with
  | nil => cases hd
  | cons first _ ih =>
    cases i with
    | zero =>
      cases hd
      exact candidate_mem_of_lt_firstFree _ _ hn (first ▸ hj)
    | succ i =>
      rw [List.take_succ_cons, List.forall_mem_cons] at before
      exact ih hd before.1 before.2

end Numbered

theorem Host.declare_numbered (H : Host) (st : Lifting) (cs : List FunDef) :
    Numbered H.names H.globals st.counter (H.declare st cs) (H.after st cs).counter := by
  induction cs generalizing st with
  | nil => exact .nil
  | cons c cs ih => exact .cons rfl (ih (H.next st c))

theorem plan_numbered (st : Lifting) (fs : List FunDef) :
    Numbered names globals st.counter ((plan names globals st fs).flatMap (·.2))
      (planLeave names globals st fs).counter := by
  induction fs generalizing st with
  | nil => exact .nil
  | cons f fs ih =>
    have first := Host.declare_numbered ⟨names, globals, f⟩ (Host.enter ⟨names, globals, f⟩ st)
      f.closures
    exact first.append (ih (Host.leave ⟨names, globals, f⟩ st))

theorem Program.declarations_numbered (names : Conventions) (p : Program) :
    Numbered names p.globalNames 0 (p.declarations names)
      (planLeave names p.globalNames {} p.funs).counter :=
  plan_numbered {} p.funs

theorem pairwise_number (names : Conventions) (p : Program) :
    (p.declarations names).Pairwise (·.number < ·.number) :=
  (p.declarations_numbered names).strict

theorem find?_cls {ds : List Declaration} (sorted : ds.Pairwise (·.number < ·.number))
    {d : Declaration} (h : d ∈ ds) : ds.find? (·.cls names == d.cls names) = some d := by
  induction ds with
  | nil => cases h
  | cons e ds ih =>
    rw [List.pairwise_cons] at sorted
    rcases List.mem_cons.1 h with rfl | h
    · exact List.find?_cons_of_pos (by simp)
    · -- an earlier declaration has a smaller number
      have hne : (e.cls names == d.cls names) = false := by
        refine beq_false_of_ne fun he => ?_
        have := (className_inj he).1
        have := sorted.1 d h
        omega
      rw [List.find?_cons, hne]
      exact ih sorted.2 h

/-- Different closures have different classes. -/
theorem cls_inj {d d' : Declaration} (h : d ∈ p.declarations names) (h' : d' ∈ p.declarations names)
    (e : d.cls names = d'.cls names) : d = d' := by
  have found : (p.declarations names).find? (·.cls names == d.cls names) = some d :=
    find?_cls (pairwise_number names p) h
  rw [e, find?_cls (pairwise_number names p) h'] at found
  exact (Option.some.inj found).symm

/-! ### Looking up names -/

theorem class?_converted {x : String} {c : ClassDef} (h : p.class? x = some c) :
    (p.converted names).class? x = some c := by
  rw [Program.class?] at h ⊢
  rw [Program.converted, List.find?_append, h]
  rfl

/-- The class of a closure is found under its name. -/
theorem class?_converted_cls {d : Declaration} (h : d ∈ p.declarations names) :
    (p.converted names).class? (d.cls names) = some (d.lifted names).cls := by
  have old : p.classes.find? (·.name == d.cls names) = none := by
    rw [List.find?_eq_none]
    intro c hc e
    refine cls_not_mem_globalNames h (List.mem_append_right _ ?_)
    exact eq_of_beq e ▸ List.mem_map_of_mem hc
  have new : ((p.declarations names).map fun d => (d.lifted names).cls).find?
      (·.name == d.cls names) = some (d.lifted names).cls := by
    rw [List.find?_map]
    exact congrArg (Option.map _) (find?_cls (pairwise_number names p) h)
  rw [Program.class?, Program.converted, List.find?_append, old, new]
  rfl

/-- A class that the program does not have is the class of a closure. -/
theorem class?_of_converted {x : String} {c : ClassDef} (h : (p.converted names).class? x = some c)
    (hp : p.class? x = none) : ∃ d ∈ p.declarations names, d.cls names = x := by
  rw [Program.class?] at hp
  rw [Program.class?, Program.converted, List.find?_append, hp, Option.none_or, List.find?_map,
    Option.map_eq_some_iff] at h
  obtain ⟨d, hd, -⟩ := h
  have name := List.find?_some hd
  exact ⟨d, List.mem_of_find?_eq_some hd, eq_of_beq name⟩

theorem function?_converted (names : Conventions) (p : Program) (x : String) :
    (p.converted names).function? x =
      ((p.plan names).find? (·.1.name == x)).map fun fd => fd.1.converted names fd.2 := by
  rw [Program.function?, Program.converted, List.find?_map]
  rfl

theorem function?_eq_find?_plan (names : Conventions) (p : Program) (x : String) :
    p.function? x = ((p.plan names).find? (·.1.name == x)).map Prod.fst := by
  rw [Program.function?]
  conv => lhs; rw [← map_fst_plan names p.globalNames {} p.funs]
  rw [List.find?_map]
  rfl

theorem isSome_function?_converted (names : Conventions) (p : Program) (x : String) :
    ((p.converted names).function? x).isSome = (p.function? x).isSome := by
  rw [function?_converted, function?_eq_find?_plan names, Option.isSome_map, Option.isSome_map]

end FlatClosure

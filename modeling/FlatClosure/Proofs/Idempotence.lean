import FlatClosure.Proofs.Elimination

/-!
# Converting what has been converted

Closure conversion leaves a program as it is exactly if there is nothing to convert in it
(`ClosureFree`).  Converted programs are such programs, so a second conversion does nothing, under
whatever names.

* `ClosureFree.converted_eq` : the program is its own conversion.
* `convert_fixed` : **the fixed points of conversion, and that one conversion reaches one.**
-/

namespace FlatClosure

/-- There is nothing to convert: no statement declares a function, and the functions have no lambda
expressions. -/
structure ClosureFree (p : Program) : Prop where
  functions : ∀ f ∈ p.funs, f.closures = []
  lambdas : ∀ f ∈ p.funs, f.collect lambdas = []
  methods : ∀ c ∈ p.classes, ∀ m ∈ c.methods, m.closures = []
  topLevel : Stmt.collectList closures p.stmts = []

section

variable {names : Conventions} {p q : Program}

theorem Eliminated.closureFree (h : Eliminated p q) : ClosureFree q where
  functions f hf := (h.functions f hf).1
  lambdas f hf := (h.functions f hf).2
  methods := h.methods
  topLevel := h.topLevel

theorem Program.declarations_eq_nil :
    p.declarations names = [] ↔ ∀ f ∈ p.funs, f.closures = [] := by
  rw [← List.map_eq_nil_iff (f := Declaration.func), p.map_func_declarations]
  exact List.flatMap_eq_nil_iff

theorem FunDef.converted_nil {f : FunDef} (h : f.closures = []) : f.converted names [] = f := by
  have body : Stmt.spliceList id f.body [] = f.body := Stmt.spliceList_eq_self f.body [] h
  rw [FunDef.converted, List.map_nil, body]
  cases f
  rfl

namespace ClosureFree

theorem convertible (h : ClosureFree p) : Convertible p where
  methods := h.methods
  topLevel := h.topLevel
  lambdas := h.lambdas
  liftable f hf before c after closures := by
    rw [h.functions f hf] at closures
    simp at closures

/-- A program with nothing to convert is its own conversion. -/
theorem converted_eq (h : ClosureFree p) : p.converted names = p := by
  have undeclared : p.declarations names = [] := Program.declarations_eq_nil.2 h.functions
  -- no function has a declaration, so each of them is kept
  have kept (fd : FunDef × List Declaration) (hfd : fd ∈ p.plan names) :
      fd.1.converted names fd.2 = fd.1 := by
    have : fd.2 = [] := List.flatMap_eq_nil_iff.1 undeclared fd hfd
    rw [this]
    exact FunDef.converted_nil (h.functions fd.1 (mem_plan hfd).1)
  have funs : (p.plan names).map (fun fd => fd.1.converted names fd.2) = p.funs := by
    rw [List.map_congr_left kept]
    exact map_fst_plan names p.globalNames {} p.funs
  rw [Program.converted, funs, undeclared, List.map_nil, List.append_nil]

theorem convert_eq (h : ClosureFree p) (names : Conventions) : convert names p = .ok (p, {}) := by
  refine (convert_eq_ok names).2 ⟨conversionErrors_eq_nil.2 h.convertible, h.converted_eq.symm, ?_⟩
  rw [Program.declarations_eq_nil.2 h.functions]
  rfl

end ClosureFree

end

/-- **Conversion is idempotent.**  A program is left as it is, and nothing is generated for it,
exactly if there is nothing to convert in it.  A program that has been converted is left as it is by
a second conversion, which may use other names. -/
theorem convert_fixed (names : Conventions) (p : Program) :
    (convert names p = .ok (p, {}) ↔ ClosureFree p) ∧
      ∀ names' q artifacts, convert names p = .ok (q, artifacts) →
        convert names' q = .ok (q, {}) := by
  have free (q : Program) (artifacts : Artifacts) (h : convert names p = .ok (q, artifacts)) :
      ClosureFree q := by
    obtain ⟨errors, rfl, -⟩ := (convert_eq_ok names).1 h
    exact (Program.converted_eliminated errors).closureFree
  exact ⟨⟨free p {}, fun h => h.convert_eq names⟩,
    fun names' q artifacts h => (free q artifacts h).convert_eq names'⟩

theorem convert_fixed_adder :
    ¬ ClosureFree adderProgram ∧
      ∃ q artifacts, convert {} adderProgram = .ok (q, artifacts) ∧ ClosureFree q ∧
        convert { classPrefix := "Fn" } q = .ok (q, {}) := by
  have h : convert {} adderProgram = .ok (_, _) := rfl
  have again := (convert_fixed {} adderProgram).2 { classPrefix := "Fn" } _ _ h
  refine ⟨fun free => ?_, _, _, h, (convert_fixed _ _).1.1 again, again⟩
  have generated := (convert_fixed {} adderProgram).1.2 free
  cases h.symm.trans generated

end FlatClosure

import FlatClosure.Proofs.Escape
import FlatClosure.Proofs.Globals
import FlatClosure.Proofs.Preservation
import Mathlib.Data.List.Forall2

/-!
# Making the objects of closures

Where a closure was declared, the converted function calls the class of the closure by its name.
The evaluator takes that name for the class only if no variable has it.  The name of the class is
chosen to be none of the global names; the choice does not look at the variables of the function.

* `FunDef.mem_binders_converted` : the variables of a converted function.
* `Program.neverMakes_converted` : the converted program makes no more global variables.
* `creation_resolves` : **the class is found exactly if no parameter, local or closure of the
  function has its name.**
* `hidden_class_not_found` : a parameter hides the class.
-/

namespace FlatClosure

variable {names : Conventions} {p : Program}

theorem mem_names_foldl_setInit {x : String} (ds : List Declaration) (inits : List VarInit) :
    x ∈ (ds.foldl (fun inits d => setInit (d.lifted names).slot inits) inits).map (·.name) ↔
      x ∈ inits.map (·.name) ∨ x ∈ ds.map (·.func.name) := by
  induction ds generalizing inits with
  | nil => simp
  | cons d ds ih =>
    have slot : (d.lifted names).slot.name = d.func.name := rfl
    rw [List.foldl_cons, ih, mem_names_setInit, slot, List.map_cons, List.mem_cons, or_assoc]

/-- The variables of a converted function are those that it had and one for each closure. -/
theorem FunDef.mem_binders_converted {f : FunDef} {ds : List Declaration} {x : String} :
    x ∈ (f.converted names ds).binders ↔ x ∈ f.binders ∨ x ∈ ds.map (·.func.name) := by
  simp only [FunDef.binders, FunDef.converted, List.mem_append, mem_names_foldl_setInit, or_assoc]

/-- The converted program makes the global variables that the program makes. -/
theorem Program.neverMakes_converted (errors : p.conversionErrors names = []) {x : String}
    (inits : x ∉ p.inits.map (·.name)) (h : NeverGlobal names p x) :
    (p.converted names).NeverMakes x where
  inits := inits
  written := h.written
  bound := h.bound
  declared := by
    rintro f (hf | ⟨c, hc, hm⟩) hx
    · obtain ⟨fd, hfd, rfl⟩ := List.mem_map.1 hf
      rcases FunDef.mem_collect_converted declaredGlobal_steady hx with hx | ⟨d, -, hx⟩
      · rw [Collector.exceptClosures_eq_self fun _ => rfl] at hx
        exact h.functions fd.1 (mem_plan hfd).1 hx
      · cases hx
    · rcases List.mem_append.1 hc with hc | hc
      · exact h.methods c hc f hm hx
      · obtain ⟨d, hd, rfl⟩ := List.mem_map.1 hc
        have flat := (liftable_of_mem errors hd).closures
        exact h.closures d hd (Declaration.mem_collect_lifted flat declaredGlobal_steady hm hx)

/-- A converted function writes what it wrote and the variables of its closures. -/
theorem FunDef.mem_written_converted {f : FunDef} {ds : List Declaration} {x : String}
    (hx : x ∈ (f.converted names ds).collect written) :
    x ∈ f.collect written ∨ x ∈ ds.map (·.func.name) := by
  rcases FunDef.mem_collect_converted written_steady hx with hx | ⟨d, hd, hx⟩
  · rw [Collector.exceptClosures_eq_self fun _ => rfl] at hx
    exact .inl hx
  · exact .inr (List.mem_singleton.1 hx ▸ List.mem_map_of_mem hd)

/-- **Making the object of a closure.**  The class of a closure never has the name of the closure
itself.  If its name becomes no global variable, and a function writes it only if it is one of its
own variables, then where a statement of the converted function calls the class, the class is found
unless the name is that of a parameter or local of the function or of one of its closures. -/
theorem creation_resolves {q : Program} {artifacts : Artifacts}
    (h : convert names p = .ok (q, artifacts)) :
    List.Forall₂ (fun c cls => cls.name ≠ c.name) p.closures (q.classes.drop p.classes.length) ∧
      List.Forall₂ (fun f f' =>
          (∀ x, x ∈ f'.binders ↔ x ∈ f.binders ∨ x ∈ f.closures.map (·.name)) ∧
          ∀ cls ∈ q.classes.drop p.classes.length, NeverGlobal names p cls.name →
            (cls.name ∈ f.collect written → cls.name ∈ f.binders) →
            ∀ ctx fuel n s x span, ctx.program = q →
              BodyReaches ctx fuel f' n ⟨s, .stmt (.assign x (.call (.id cls.name span) []))⟩ →
              calleeClass? (ctx.calls n) s (.id cls.name span) =
                if cls.name ∈ f'.binders then none else some cls)
        p.funs q.funs := by
  obtain ⟨errors, rfl, -⟩ := (convert_eq_ok names).1 h
  have lifted : (p.converted names).classes.drop p.classes.length =
      (p.declarations names).map fun d => (d.lifted names).cls := List.drop_left
  have funs : p.funs = (p.plan names).map Prod.fst :=
    (map_fst_plan names p.globalNames {} p.funs).symm
  rw [lifted]
  constructor
  · rw [← p.map_func_declarations names, List.forall₂_map_left_iff, List.forall₂_map_right_iff,
      List.forall₂_same]
    exact fun d _ => className_ne_closure _ _ _
  · rw [funs, Program.converted, List.forall₂_map_left_iff, List.forall₂_map_right_iff,
      List.forall₂_same]
    intro fd hfd
    have closures : fd.2.map (·.func.name) = fd.1.closures.map (·.name) := by
      rw [← map_func_of_mem_plan hfd, List.map_map]
      rfl
    refine ⟨fun x => by rw [FunDef.mem_binders_converted, closures], ?_⟩
    rintro cls hcls never writes ctx fuel n s x span hctx reaches
    obtain ⟨d, hd, rfl⟩ := List.mem_map.1 hcls
    have found : ctx.program.class? (d.cls names) = some (d.lifted names).cls :=
      hctx ▸ class?_converted_cls hd
    have makes : ctx.program.NeverMakes (d.cls names) := by
      rw [hctx]
      refine Program.neverMakes_converted errors (fun hx => ?_) never
      exact cls_not_mem_globalNames hd (List.mem_append_left _ (List.mem_append_left _ hx))
    -- besides what the function wrote, the converted one writes the variables of its closures
    have hidden := reaches.isVariable_iff rfl makes fun hw =>
      FunDef.mem_binders_converted.2 ((FunDef.mem_written_converted hw).imp_left writes)
    change (if s.isVariable (d.cls names) then none else ctx.program.class? (d.cls names)) = _
    rw [found]
    exact if_congr hidden rfl rfl

theorem reader_class_found :
    ∃ s, BodyReaches ⟨flatReader, {}, 200⟩ 3 makeReader 2
        ⟨s, .stmt (.assign "reader" (.call (.id "Clo_0_reader" .dummy) []))⟩ ∧
      (calleeClass? (Context.calls ⟨flatReader, {}, 200⟩ 2) s (.id "Clo_0_reader" .dummy)).map
        (·.methods) = some [readerMethod, emptyConstructor "Clo_0_reader" "self" {}] := by
  have reaches : BodyReaches ⟨flatReader, {}, 200⟩ 3 makeReader 2
      ⟨_, .stmt (.assign "reader" (.call (.id "Clo_0_reader" .dummy) []))⟩ :=
    ⟨_, [], reached_make, rfl, by decide, .single .head⟩
  have resolves := (List.forall₂_cons.1 (creation_resolves convert_classReader).2).1.2 _ (.head _)
    (by decide) (by decide) _ _ _ _ _ _ rfl reaches
  exact ⟨_, reaches, congrArg (Option.map (·.methods)) resolves⟩

/-! ### Classes that are hidden -/

/-- The class of a closure is hidden by a parameter, by a local, and by the variable of another
closure. -/
def hiddenClasses : List Clash :=
  [hiddenClass,
    { inits := [⟨"Clo_0_g", .int, .num 5⟩] },
    { before := [.closure ⟨"Clo_1_g", [], .int, [], [], .dummy⟩] }]

/-- The variables of the converted function hide the class that it calls. -/
theorem classes_hidden : ∀ c ∈ hiddenClasses,
    ∃ q artifacts, convert {} c.program = .ok (q, artifacts) ∧
      (∃ f ∈ q.funs, ∃ cls ∈ q.classes.drop c.program.classes.length, cls.name ∈ f.binders) ∧
      (Nested.run ⟨c.program, {}, 2⟩ 3).toOption = some "1\n" ∧
      ∀ fuel, Context.run ⟨q, {}, 3⟩ fuel ≠ .ok "1\n" := by
  have accepted : ∀ c ∈ hiddenClasses, c.program.conversionErrors {} = [] := by decide +kernel
  have clash : ∀ c ∈ hiddenClasses, ∃ f ∈ (c.program.converted {}).funs,
      ∃ cls ∈ (c.program.converted {}).classes.drop c.program.classes.length,
        cls.name ∈ f.binders := by decide +kernel
  have runs : ∀ c ∈ hiddenClasses,
      (Nested.run ⟨c.program, {}, 2⟩ 3).toOption = some "1\n" := by decide +kernel
  have differs : ∀ c ∈ hiddenClasses,
      printsOther "1\n" (Context.run ⟨c.program.converted {}, {}, 3⟩ 4) = true := by decide +kernel
  intro c hc
  exact ⟨_, _, (convert_eq_ok {}).2 ⟨accepted c hc, rfl, rfl⟩, clash c hc, runs c hc,
    never_ok_of_printsOther (differs c hc)⟩

theorem hidden_class_not_found :
    ∃ q artifacts, convert {} hiddenClass.program = .ok (q, artifacts) ∧
      (∃ f ∈ q.funs, ∃ cls ∈ q.classes.drop hiddenClass.program.classes.length,
        cls.name ∈ f.binders) ∧
      (Nested.run ⟨hiddenClass.program, {}, 2⟩ 3).toOption = some "1\n" ∧
      ∀ fuel, Context.run ⟨q, {}, 3⟩ fuel ≠ .ok "1\n" :=
  classes_hidden hiddenClass (.head _)

end FlatClosure

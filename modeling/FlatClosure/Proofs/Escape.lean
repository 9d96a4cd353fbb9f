import FlatClosure.Proofs.Acceptance
import FlatClosure.Proofs.Generated
import FlatClosure.Proofs.Points
import FlatClosure.Proofs.Rebuilt

/-!
# The names that a lifted closure reads

The method with the body of a closure stands outside of the function that declared the closure, so
nothing that it reads may be left behind there.

* `Resolved.step`, `Resolved.run` : a body whose free names are variables of its call or known to
  the program keeps this property at all its points.
* `escape_sound` : **a lifted closure reads only its own variables and names that the program has
  everywhere, and while it runs, only reads of names of classes can fail.**
-/

namespace FlatClosure

/-! ### Reads that find a variable -/

/-- The innermost call, which declares only names of `D` global, has a variable for every name that
is read free at the point, except for those of `E`. -/
structure Resolved (D E : List String) (a : Point) : Prop where
  frame : ∃ g fs, a.state.frames = g :: fs ∧ (∀ x ∈ g.globals, x ∈ D) ∧
    ∀ x ∈ a.job.freeNames, (x ∈ g.vars.names ∧ x ∉ D) ∨ x ∈ E
  bound : ∀ x ∈ a.job.collect boundVars, x ∉ D
  declared : ∀ x ∈ a.job.collect declaredGlobal, x ∈ D

namespace Resolved

variable {D E : List String} {k : Calls} {a b : Point}

theorem step (hk : k.Have (Along Calm)) (h : Resolved D E a) (next : Starts k a b) :
    Resolved D E b where
  frame := by
    obtain ⟨g, fs, frames, globals, free⟩ := h.frame
    obtain ⟨W, grows, -⟩ := next.exists_grows hk h.declared
    rw [frames] at grows
    rcases hb : b.state.frames with _ | ⟨g', fs'⟩ <;> rw [hb] at grows
    · exact grows.elim
    · obtain ⟨-, names, -, globals'⟩ := grows
      refine ⟨g', fs', rfl, fun x hx => (globals' x hx).elim (globals x) id, fun x hx => ?_⟩
      rcases next.mem_freeNames hk hx with hx | ⟨hx, value⟩
      · exact (free x hx).imp_left (.imp_left (names x))
      · -- a comprehension variable, which is never declared global
        exact .inl ⟨value g' (by rw [hb]; rfl), h.bound x hx⟩
  bound x hx := h.bound x (next.mem_boundVars hk hx)
  declared x hx := h.declared x (next.mem_declaredGlobal hk hx)

theorem run (hk : k.Have (Along Calm)) (h : Resolved D E a)
    (path : Relation.ReflTransGen (Starts k) a b) : Resolved D E b := by
  induction path with
  | refl => exact h
  | tail _ next ih => exact ih.step hk next

/-- A name that is read and not one of `E` has a value. -/
theorem lookup? {p : Program} {s : Machine} {x : String} {span : Span}
    (h : Resolved D E ⟨s, .expr (.id x span)⟩) : (s.lookup? p x).isSome ∨ x ∈ E := by
  obtain ⟨g, fs, frames, globals, free⟩ := h.frame
  refine (free x (List.mem_singleton_self _)).imp_left fun ⟨hx, hD⟩ => ?_
  have notGlobal : g.isGlobal x = false := by
    simpa [Frame.isGlobal] using fun h => hD (globals x h)
  obtain ⟨v, hv⟩ := Bindings.exists_get?_of_mem hx
  have frames : s.frames = g :: fs := frames
  simp [Machine.lookup?, frames, Frame.get?, notGlobal, hv]

end Resolved

theorem FunDef.resolved_opened {f : FunDef} {E : List String}
    (free : ∀ x ∈ f.freeNames, x ∈ f.binders ∨ x ∈ E)
    (locals : ∀ x ∈ f.collect declaredGlobal, x ∉ f.binders ∧ x ∉ f.collect boundVars)
    {args : List Value} (arity : args.length = f.arity) (s : Machine) :
    Resolved (f.collect declaredGlobal) E ⟨f.opened args s, .block f.body⟩ where
  frame := by
    refine ⟨f.frame args, s.frames, rfl, fun _ h => (List.not_mem_nil h).elim, fun x hx => ?_⟩
    refine (free x hx).imp_left fun hx => ⟨f.mem_names_frame arity hx, fun hg => ?_⟩
    exact (locals x hg).1 hx
  bound x hx hg := (locals x hg).2 hx
  declared _ hx := hx

/-- What the body of a function reads, if it is not one of `E`, has a value. -/
theorem BodyReaches.lookup? {ctx : Context} {fuel n : Nat} {f : FunDef} {E : List String}
    (free : ∀ x ∈ f.freeNames, x ∈ f.binders ∨ x ∈ E)
    (locals : ∀ x ∈ f.collect declaredGlobal, x ∉ f.binders ∧ x ∉ f.collect boundVars)
    {s : Machine} {x : String} {span : Span}
    (h : BodyReaches ctx fuel f n ⟨s, .expr (.id x span)⟩) :
    (s.lookup? ctx.program x).isSome ∨ x ∈ E := by
  obtain ⟨t, args, -, arity, -, path⟩ := h
  exact ((f.resolved_opened free locals arity t).run (ctx.calls_calm n) path).lookup?

/-- Global variables and functions of the program have values. -/
theorem lookup?_of_global {p : Program} {s : Machine} {x : String}
    (h : x ∈ s.globals.names ∨ (p.function? x).isSome) : (s.lookup? p x).isSome := by
  rw [Machine.lookup?]
  split
  · rfl
  · split
    · rfl
    · rename_i hx
      rcases h with h | h
      · exact absurd h (Bindings.get?_eq_none_iff.1 hx)
      · rw [if_pos h]
        rfl

/-! ### Lifted closures -/

section Lifted

variable {names : Conventions} {p : Program}

/-- Nothing that a lifted closure reads is left behind in the function that declared it. -/
theorem Declaration.free_method (d : Declaration) {globals : List String}
    (h : Liftable globals d.around.names d.func) {x : String}
    (hx : x ∈ (d.method names).freeNames) : x ∈ (d.method names).binders ∨ x ∈ globals := by
  rw [mem_binders_method]
  rcases (d.redirects_method h.closures).free x hx with hx | ⟨hx, notCaptured⟩
  · exact .inl (.inl hx)
  · by_cases hb : x ∈ d.func.binders
    · exact .inl (.inr hb)
    · rcases h.resolved x hx with hb' | ⟨around, notGlobal⟩ | hx
      · exact absurd hb' hb
      · -- a variable of the enclosing function is captured
        have captured : x ∈ d.captures.names := by
          refine FunDef.mem_captures.2 ⟨hx, captureType?_isSome_iff.2 ⟨hb, notGlobal, ?_⟩⟩
          exact List.mem_append.1 around
        have isCaptured : (d.site names).isCaptured x [] = true := by
          simpa [ClosureSite.isCaptured, Declaration.site] using Bindings.contains_iff.2 captured
        cases isCaptured.symm.trans notCaptured
      · exact .inr hx

theorem Declaration.locals_method (d : Declaration) (h : d.func.closures = [])
    (locals : ∀ x ∈ d.func.collect declaredGlobal,
      x ∉ d.func.binders ∧ x ∉ d.func.collect boundVars ∧ x ≠ d.receiver names) {x : String}
    (hx : x ∈ (d.method names).collect declaredGlobal) :
    x ∉ (d.method names).binders ∧ x ∉ (d.method names).collect boundVars := by
  have redirects : Redirects (d.site names) [] _ _ := d.redirects_method h
  rw [redirects.same declaredGlobal_steady] at hx
  obtain ⟨binders, bound, receiver⟩ := locals x hx
  rw [mem_binders_method, redirects.same boundVars_steady, not_or]
  exact ⟨⟨receiver, binders⟩, bound⟩

/-- Only the name of a class has no value in the body of a function whose free names are its own
variables and names that the program has everywhere. -/
theorem BodyReaches.mem_classes {ctx : Context} (hctx : ctx.program = p.converted names)
    {f : FunDef}
    (free : ∀ x ∈ f.freeNames, x ∈ f.binders ∨ x ∈ p.globalNames)
    (locals : ∀ x ∈ f.collect declaredGlobal, x ∉ f.binders ∧ x ∉ f.collect boundVars)
    {fuel n : Nat} {s t : Machine} {x y : String} {span : Span}
    (h : BodyReaches ctx fuel f n ⟨s, .expr (.id x span)⟩)
    (fails : ((Expr.id x span).eval (ctx.calls n)).run s =
      (.error (.error (.undefinedVariable y)), t)) : x ∈ p.classes.map (·.name) := by
  have undefined : ¬ (s.lookup? ctx.program x).isSome := by
    intro hv
    obtain ⟨v, hv⟩ := Option.isSome_iff_exists.1 hv
    rw [Expr.eval, readName, run_get_bind] at fails
    simp only [Context.calls, hv] at fails
    cases fails
  have known : x ∈ p.globalNames := (h.lookup? free locals).resolve_left undefined
  rw [Program.globalNames, List.mem_append, List.mem_append] at known
  rcases known with (known | known) | known
  · refine absurd (lookup?_of_global (.inl (h.reached.globals ?_))) undefined
    rwa [hctx]
  · refine absurd (lookup?_of_global (.inr ?_)) undefined
    rw [hctx, isSome_function?_converted]
    simpa [Program.function?, List.find?_isSome] using known
  · exact known

end Lifted

/-- **Escape analysis is sound.**  Every name that a lifted closure reads free is one of its
parameters or locals, or a global variable, function or class of the program that was converted; and
whenever its body runs, a read of a name by the body itself fails only if a class has that name.  No
closure may declare global a name that it binds itself, or its receiver. -/
theorem escape_sound {names : Conventions} {p q : Program} {artifacts : Artifacts}
    (h : convert names p = .ok (q, artifacts))
    (locals : ∀ f ∈ p.funs, ∀ c ∈ f.closures, ∀ x ∈ c.collect declaredGlobal,
      x ∉ c.binders ∧ x ∉ c.collect boundVars ∧ x ≠ freshReceiver names.receiver c c.reads)
    {cls : ClassDef} (hcls : cls ∈ q.classes.drop p.classes.length)
    {m : FunDef} (hm : m ∈ cls.methods) :
    (∀ x ∈ m.freeNames, x ∈ m.binders ∨ x ∈ p.globalNames) ∧
      ∀ (ctx : Context) (fuel n : Nat) (s t : Machine) (x y : String) (span : Span),
        ctx.program = q → BodyReaches ctx fuel m n ⟨s, .expr (.id x span)⟩ →
        ((Expr.id x span).eval (ctx.calls n)).run s = (.error (.error (.undefinedVariable y)), t) →
        x ∈ p.classes.map (·.name) := by
  obtain ⟨errors, rfl, -⟩ := (convert_eq_ok names).1 h
  rw [Program.converted, List.drop_left] at hcls
  obtain ⟨d, hd, rfl⟩ := List.mem_map.1 hcls
  have names_of : (∀ x ∈ m.freeNames, x ∈ m.binders ∨ x ∈ p.globalNames) ∧
      ∀ x ∈ m.collect declaredGlobal, x ∉ m.binders ∧ x ∉ m.collect boundVars := by
    rcases List.mem_cons.1 hm with rfl | hm
    · have liftable := liftable_of_mem errors hd
      obtain ⟨f, hf, hc⟩ := Program.func_mem_closures hd
      exact ⟨fun x hx => d.free_method liftable hx,
        fun x hx => d.locals_method liftable.closures (locals f hf d.func hc) hx⟩
    · -- the constructor has an empty body
      cases List.mem_singleton.1 hm
      exact ⟨fun x hx => (List.not_mem_nil hx).elim, fun x hx => (List.not_mem_nil hx).elim⟩
  exact ⟨names_of.1, fun ctx fuel n s t x y span hctx reads fails =>
    reads.mem_classes hctx names_of.1 names_of.2 fails⟩

/-! ### A read that fails -/

/-- A closure that reads the name of a class. -/
def classReader : Program where
  funs :=
    [{ name := "make", params := [], ret := .object, inits := []
       body :=
        [.closure
          { name := "reader", params := [], ret := .object, inits := []
            body := [.ret (some (.id "K" .dummy))], span := .dummy },
         .ret (some (.call (.id "reader" .dummy) []))]
       span := .dummy }]
  classes := [⟨"K", [], []⟩]
  stmts := [.expr (.call (.id "make" .dummy) [])]

/-- The method with the body of that closure. -/
def readerMethod : FunDef where
  name := "__call__"
  params := [⟨"self", .cls "Clo_0_reader"⟩]
  ret := .object
  inits := []
  body := [.ret (some (.id "K" .dummy))]
  span := .dummy

/-- The function that makes an object of it and calls it. -/
def makeReader : FunDef where
  name := "make"
  params := []
  ret := .object
  inits := [⟨"reader", .cls "Clo_0_reader", .none⟩]
  body :=
    [.assign "reader" (.call (.id "Clo_0_reader" .dummy) []),
      .ret (some (.call (.id "reader" .dummy) []))]
  span := .dummy

/-- The program in which the closure has become a class. -/
def flatReader : Program where
  funs := [makeReader]
  classes :=
    [⟨"K", [], []⟩,
      ⟨"Clo_0_reader", [], [readerMethod, emptyConstructor "Clo_0_reader" "self" {}]⟩]
  stmts := classReader.stmts

theorem convert_classReader :
    convert {} classReader = .ok (flatReader, ⟨["Clo_0_reader"], [0]⟩) := rfl

/-- The state in which the method is called. -/
def readerState : Machine where
  heap := { objects := #[⟨"Clo_0_reader", .empty⟩] }
  frames := [{ vars := ⟨[("reader", .object 0)]⟩ }]
  ready := true

theorem reached_make :
    Reached ⟨flatReader, {}, 200⟩ 3 3 ⟨.initGlobals flatReader {}, .call makeReader []⟩ :=
  .step (.step (.step (.step (.step (.step .main .head) .parts) .first) (.callValue rfl rfl))
    .callFunction) (.enterFunction rfl)

theorem invoked_reader :
    Reached ⟨flatReader, {}, 200⟩ 3 2 ⟨readerState, .invoke 0 "__call__" []⟩ := by
  have body : Reached ⟨flatReader, {}, 200⟩ 3 2 ⟨readerState, .block makeReader.body.tail⟩ :=
    (reached_make.body rfl (by decide)).step (.tail rfl)
  have call : Reached ⟨flatReader, {}, 200⟩ 3 2 ⟨readerState, .callValue (.object 0) []⟩ :=
    (((body.step .head).step .parts).step .first).step (.callValue rfl rfl)
  exact call.step .callObject

theorem reached_reader :
    Reached ⟨flatReader, {}, 200⟩ 3 2 ⟨readerState, .call readerMethod [.object 0]⟩ :=
  invoked_reader.step (.enterMethod rfl)

theorem path_reader :
    Relation.ReflTransGen (Starts (Context.calls ⟨flatReader, {}, 200⟩ 1))
      ⟨readerMethod.opened [.object 0] readerState, .block readerMethod.body⟩
      ⟨readerMethod.opened [.object 0] readerState, .expr (.id "K" .dummy)⟩ :=
  ((Relation.ReflTransGen.refl.tail .head).tail .parts).tail .first

theorem classReader_fails :
    (∀ x ∈ readerMethod.freeNames, x ∈ readerMethod.binders ∨ x ∈ classReader.globalNames) ∧
      ∃ s t, BodyReaches ⟨flatReader, {}, 200⟩ 3 readerMethod 1 ⟨s, .expr (.id "K" .dummy)⟩ ∧
        ((Expr.id "K" .dummy).eval (Context.calls ⟨flatReader, {}, 200⟩ 1)).run s =
          (.error (.error (.undefinedVariable "K")), t) ∧
        "K" ∈ classReader.classes.map (·.name) := by
  have reads : BodyReaches ⟨flatReader, {}, 200⟩ 3 readerMethod 1
      ⟨readerMethod.opened [.object 0] readerState, .expr (.id "K" .dummy)⟩ :=
    ⟨readerState, [.object 0], reached_reader, rfl, by decide, path_reader⟩
  have sound := escape_sound convert_classReader (by decide) (m := readerMethod)
    (List.mem_singleton_self _) (.head _)
  exact ⟨sound.1, _, _, reads, rfl, sound.2 _ _ _ _ _ _ _ _ rfl reads rfl⟩

end FlatClosure

import FlatClosure.Proofs.Hygiene
import FlatClosure.Proofs.Limits
import FlatClosure.Proofs.Shape

/-!
# Conversion preserves meaning

A run of a hygienic program as it was written (`Nested.run`) and a run of the converted program
print the same text.

* `callsRel` : calls with fuel `n` are followed by calls of the converted program with fuel `n + 1`,
  by induction on the fuel.
* `convert_preserves_runs` : **a run that succeeds is followed by a run of the converted program.**
* `hygiene_needed` : programs that are not hygienic for which this fails.
-/

namespace FlatClosure

namespace Nested

variable {ctx : Context} {V : View}

/-! ### Calls -/

theorem withFrame_agrees {F G : List Frame} {f g : Frame} {x y : EvalM Flow}
    (h : Follows ctx V x y) (stands : Stands ctx V (f :: F) (g :: G)) :
    Agree ctx V.held F G (withFrame f x) (withFrame g y) := by
  intro s hF hs hh v t run
  subst hF
  obtain ⟨r, u, hr⟩ : ∃ r u, x.run (s.withFrames (f :: s.frames)) = (r, u) := ⟨_, _, rfl⟩
  have source : (withFrame f x).run s = (r, u.withFrames u.frames.tail) := by
    change ((x.run (s.withFrames (f :: s.frames))).1,
      (x.run (s.withFrames (f :: s.frames))).2.withFrames
        (x.run (s.withFrames (f :: s.frames))).2.frames.tail) = _
    rw [hr]
  rw [source] at run
  cases run
  obtain ⟨G', -, tailF, tailG, tidy, keeps, run'⟩ :=
    h (s.withFrames (f :: s.frames)) (g :: G) stands (hs.congr rfl rfl) hh v u hr
  refine ⟨tailF, tidy.congr rfl rfl, keeps, ?_⟩
  have run'' : y.run (s.withFrames (g :: G)) = (.ok v, u.withFrames G') := run'
  change ((y.run (s.withFrames (g :: G))).1, (y.run (s.withFrames (g :: G))).2.withFrames
    (y.run (s.withFrames (g :: G))).2.frames.tail) = _
  rw [run'', Machine.frames_withFrames, tailG]
  rfl

theorem callCode_eq_ok {fuel : Nat} {c : Code} {args : List Value} {s t : Machine} {v : Value} :
    (callCode ctx fuel c args).run s = (.ok v, t) ↔
      args.length = c.func.arity ∧ s.frames.length < ctx.maxDepth ∧ ∃ n, fuel = n + 1 ∧
        (withFrame (c.frame args) (execList (calls ctx n) c.func.body c.declared) >>= flowValue).run
          s = (.ok v, t) := by
  unfold callCode
  split
  · rename_i h
    constructor
    · intro h
      cases h
    · intro h'
      exact absurd h'.1 h
  · rename_i h
    rw [run_get_bind]
    split
    · rename_i h'
      constructor
      · intro h
        cases h
      · intro h
        exact absurd h.2.1 (Nat.not_lt.2 h')
    · rename_i h'
      refine Iff.trans ?_ (and_iff_right (Decidable.not_not.1 h)).symm
      refine Iff.trans ?_ (and_iff_right (Nat.not_le.1 h')).symm
      cases fuel with
      | zero =>
        constructor
        · intro h
          cases h
        · rintro ⟨_, h, -⟩
          cases h
      | succ n =>
        constructor
        · intro h
          exact ⟨n, rfl, h⟩
        · rintro ⟨_, e, h⟩
          cases e
          exact h

/-- A call starts with corresponding variables, and its body has the same effect in both runs. -/
theorem enter_agrees {n : Nat} {F G : List Frame} {c : Code} {f : FunDef} {args args' : List Value}
    (hlen : F.length = G.length) (harity : args.length = c.func.arity → args'.length = f.arity)
    (htop : V.top = false) (hrel : FrameRel ctx V [] (c.frame args) (f.frame args'))
    (havoid : ∀ K ∈ V.avoid, (c.frame args).vars.get? K = none)
    (hbody : Follows ctx V (execList (calls ctx n) c.func.body c.declared)
      (Stmt.execList ((flattened ctx).calls (n + 1)) f.body)) :
    Agree ctx V.held F G (callCode ctx (n + 1) c args)
      (callFunction (flattened ctx) (n + 2) f args') := by
  intro s hF hs hh v t h
  obtain ⟨hargs, hdepth, _, e, run⟩ := callCode_eq_ok.1 h
  cases e
  have hG : G.length < (flattened ctx).maxDepth := by
    rw [← hlen, ← hF]
    exact Nat.lt_succ_of_lt hdepth
  have stands : Stands ctx V (c.frame args :: F) (f.frame args' :: G) := by
    refine ⟨⟨congrArg (· + 1) hlen, hF ▸ hdepth, by simp [htop], (nomatch ·), ?_⟩, ?_⟩
    · intro f₁ fs g₁ gs hf hg
      cases hf
      cases hg
      exact hrel
    · intro f₁ fs hf
      cases hf
      exact havoid
  have body : Agree ctx V.held F G
      (withFrame (c.frame args) (execList (calls ctx n) c.func.body c.declared) >>= flowValue)
      (withFrame (f.frame args') (Stmt.execList ((flattened ctx).calls (n + 1)) f.body) >>=
        flowValue) :=
    .bind (withFrame_agrees hbody stands) fun flow => .quiet (.flowValue flow)
  obtain ⟨frames, tidy, keeps, run'⟩ := body s hF hs hh v t run
  exact ⟨frames, tidy, keeps, (callFunction_run (harity hargs) hG).trans run'⟩

/-- Without fuel no call succeeds. -/
theorem callCode_zero {held : List (Nat × Instance)} {F G : List Frame} {c : Code}
    {args : List Value} {y : EvalM Value} : Agree ctx held F G (callCode ctx 0 c args) y := by
  intro s _ _ _ v t h
  obtain ⟨-, -, _, h, -⟩ := callCode_eq_ok.1 h
  cases h

/-- Frames with the same variables correspond to each other where nothing is captured. -/
theorem plain_rel {avoid : List String} {top : Bool} {f g : Frame} (hf : f.globals = [])
    (hg : g.globals = []) (same : ∀ x, g.vars.get? x = f.vars.get? x) :
    FrameRel ctx (plainView avoid top) [] f g where
  globals := hg.trans hf.symm
  fresh x hx := by
    rw [hf] at hx
    cases hx
  same x _ _ := same x
  captured x h := by cases h

theorem mem_names_frame {c : Code} {args : List Value} {x : String}
    (h : x ∈ (c.frame args).vars.names) :
    x ∈ c.func.binders ∨ x ∈ c.declared.map (·.func.name) ∨ x ∈ c.recorded.map Prod.fst := by
  rw [Code.frame, Bindings.ofList, Bindings.mem_names_insertAll] at h
  simp only [List.map_append, List.map_map, List.mem_append, or_assoc] at h
  rcases h with h | h | h | h
  · cases h
  · obtain ⟨p, hp, rfl⟩ := List.mem_map.1 h
    exact .inl (List.mem_append_left _ (List.of_mem_zip hp).1)
  · exact .inl (List.mem_append_right _ h)
  · exact .inr h

section Calls

variable {n : Nat} {F G : List Frame} {args : List Value}
  (ih : CallsRel (calls ctx n) ((flattened ctx).calls (n + 1)))

include ih

/-- In a call that is no call of a closure both runs have the same expressions. -/
theorem plain_follows {avoid : List String} {top : Bool} {body : List Stmt} {ds : List Declaration}
    (fits : Fits ctx (plainView avoid top) (Stmt.collectList effects body))
    (hds : ∀ d ∈ ds, Declares ctx (plainView avoid top) d) :
    Follows ctx (plainView avoid top) (execList (calls ctx n) body ds)
      (Stmt.execList ((flattened ctx).calls (n + 1))
        (Stmt.spliceList id body (creations ctx ds))) := by
  have same : Expr.redirect (plainView avoid top).site [] = id :=
    funext fun e => Expr.redirect_eq_self (fun _ => rfl) [] e
  have follows := execList_follows ih body ds fits hds
  rwa [same] at follows

variable (hyg : Hygienic ctx.names ctx.program) (hlen : F.length = G.length)

include hyg hlen

theorem method_agrees (ok : ctx.program.conversionErrors ctx.names = []) {c : ClassDef}
    (hc : c ∈ ctx.program.classes) {m : FunDef} (hm : m ∈ c.methods) :
    Agree ctx [] F G (callCode ctx (n + 1) ⟨m, [], []⟩ args)
      (callFunction (flattened ctx) (n + 2) m args) := by
  have body := plain_follows ih (fits_method hyg hc hm) (fun _ h => (List.not_mem_nil h).elim)
  rw [Stmt.spliceList_eq_self _ _ ((conversionErrors_eq_nil.1 ok).methods c hc m hm)] at body
  refine enter_agrees hlen id rfl (plain_rel rfl rfl fun x => ?_) ?_ body
  · rw [frame_flat]
  · exact fun _ h => (List.not_mem_nil h).elim

theorem function_agrees {fd : FunDef × List Declaration} (hfd : fd ∈ ctx.program.plan ctx.names) :
    Agree ctx [] F G (callCode ctx (n + 1) ⟨fd.1, fd.2, []⟩ args)
      (callFunction (flattened ctx) (n + 2) (fd.1.converted ctx.names fd.2) args) := by
  have own := hyg.closures fd hfd
  have declares (d : Declaration) (hd : d ∈ fd.2) :
      Declares ctx (plainView (fd.2.map (·.cls ctx.names)) false) d := by
    refine ⟨(own d hd).methods, Program.mem_declarations.2 ⟨fd, hfd, hd⟩, List.mem_map_of_mem hd,
      ⟨List.not_mem_nil, rfl, (nomatch ·), fun h => ?_⟩, fun _ => rfl, rfl⟩
    obtain ⟨d', hd', e⟩ := List.mem_map.1 h
    exact (own d' hd').siblings d hd e
  have body := plain_follows ih (fits_function hyg hfd) declares
  refine enter_agrees (f := fd.1.converted ctx.names fd.2) hlen id rfl
    (plain_rel rfl rfl (function_frame own args)) (fun K hK => ?_) body
  -- no variable of the call hides the class of a closure
  obtain ⟨d, hd, rfl⟩ := List.mem_map.1 hK
  refine Bindings.get?_eq_none_iff.2 fun h => ?_
  rcases mem_names_frame h with h | h | h
  · exact (own d hd).binders h
  · obtain ⟨d', hd', e⟩ := List.mem_map.1 h
    exact (own d hd).siblings d' hd' e.symm
  · cases h

theorem closure_agrees (ok : ctx.program.conversionErrors ctx.names = []) {d : Declaration}
    (hd : d ∈ decls ctx) {ref : Nat} {o : Instance} (ho : o.fields.names = d.captures.names) :
    Agree ctx [(ref, o)] F G (callCode ctx (n + 1) ⟨d.func, [], o.fields.entries⟩ args)
      (callFunction (flattened ctx) (n + 2)
        (callMethod (d.redirected ctx.names) (d.cls ctx.names) (d.receiver ctx.names) ctx.names)
        (.object ref :: args)) := by
  have body := execList_follows ih d.func.body [] (fits_closure hyg ok hd ref o)
    (fun _ h => (List.not_mem_nil h).elim)
  refine enter_agrees hlen (congrArg (· + 1)) rfl (closure_frame ho ref args) ?_ body
  exact fun _ h => (List.not_mem_nil h).elim

end Calls

/-- **Calls are followed by calls of the converted program.** -/
theorem callsRel (ok : ctx.program.conversionErrors ctx.names = [])
    (hyg : Hygienic ctx.names ctx.program) (n : Nat) :
    CallsRel (calls ctx n) ((flattened ctx).calls (n + 1)) := by
  induction n with
  | zero =>
    exact ⟨rfl, rfl, fun _ _ _ _ _ _ _ _ _ => callCode_zero, fun _ _ _ _ _ _ _ => callCode_zero,
      fun _ _ _ _ _ _ _ _ _ _ _ => callCode_zero,
      fun cls receiver v _ hs => emptyConstructor_run 0 cls receiver _ v (Nat.lt_succ_of_le hs)⟩
  | succ n ih =>
    refine ⟨rfl, rfl, fun c hc m hm args F G hlen _ => ?_, fun fd hfd args F G hlen _ => ?_,
      fun d hd ref o hcls ho args F G hlen _ => ?_,
      fun cls receiver v _ hs => emptyConstructor_run _ cls receiver _ v (Nat.lt_succ_of_le hs)⟩
    · exact method_agrees ih hyg hlen ok hc hm
    · exact function_agrees ih hyg hlen hfd
    · exact closure_agrees ih hyg hlen ok hd ho

/-! ### Programs -/

theorem run_eq_ok {fuel : Nat} {o : String} :
    run ctx fuel = .ok o ↔ ∃ u s, (runMain ctx fuel).run {} = (.ok u, s) ∧ s.output = o := by
  rw [run]
  rcases (runMain ctx fuel).run {} with ⟨e | u, s⟩
  · constructor
    · intro h
      cases h
    · rintro ⟨_, _, h, -⟩
      cases h
  · constructor
    · intro h
      exact ⟨u, s, rfl, Except.ok.inj h⟩
    · rintro ⟨_, _, h, rfl⟩
      cases h
      rfl

theorem tidy_empty : Tidy ctx {} := ⟨fun _ _ => rfl, fun _ _ h => by simp at h⟩

theorem stands_main : Stands ctx (plainView [] true) [] [] :=
  ⟨⟨rfl, Nat.zero_le _, by simp [plainView], fun _ _ => rfl, fun _ _ _ _ h => nomatch h⟩,
    fun _ _ h => nomatch h⟩

/-- The top-level statements. -/
theorem runMain_follows (ok : ctx.program.conversionErrors ctx.names = [])
    (hyg : Hygienic ctx.names ctx.program) (n : Nat) :
    Follows ctx (plainView [] true) (runMain ctx n) ((flattened ctx).runMain (n + 1)) := by
  have body := plain_follows (callsRel ok hyg n) (fits_main hyg)
    (fun _ h => (List.not_mem_nil h).elim)
  rw [Stmt.spliceList_eq_self _ _ (conversionErrors_eq_nil.1 ok).topLevel] at body
  refine .bind (.of_agree fun _ _ _ => initGlobals_agrees ctx) fun _ => ?_
  exact .bind body fun flow => .bind (.quiet (.flowValue flow)) fun _ => .pure _

end Nested

/-- **Conversion preserves meaning.**  If a hygienic program is converted and a run of it succeeds,
at most `d` calls deep, then the run of the converted program that may be one call deeper succeeds
as well and prints the same text. -/
theorem convert_preserves_runs {names : Conventions} {p q : Program} {artifacts : Artifacts}
    (h : convert names p = .ok (q, artifacts)) (hyg : Hygienic names p) {d fuel : Nat} {o : String}
    (run : Nested.run ⟨p, names, d⟩ fuel = .ok o) :
    (Context.mk q names (d + 1)).run (fuel + 1) = .ok o := by
  obtain ⟨ok, rfl, -⟩ := (convert_eq_ok names).1 h
  obtain ⟨u, s, hr, rfl⟩ := Nested.run_eq_ok.1 run
  obtain ⟨G, -, -, -, -, -, run'⟩ := Nested.runMain_follows ok hyg fuel {} [] Nested.stands_main
    Nested.tidy_empty (.nil _) u s hr
  exact Context.run_eq_ok.2 ⟨u, s.withFrames G, run', rfl⟩

theorem adder_preserved :
    Hygienic {} adderProgram ∧ Nested.run ⟨adderProgram, {}, 2⟩ 3 = .ok "7\n" ∧
      (Context.mk (adderProgram.converted {}) {} 3).run 4 = .ok "7\n" := by
  have hyg : Hygienic {} adderProgram := by decide
  have run : Nested.run ⟨adderProgram, {}, 2⟩ 3 = .ok "7\n" := rfl
  exact ⟨hyg, run, convert_preserves_runs rfl hyg run⟩

/-! ### Names that clash -/

/-- A program with names that clash, and what it prints when it is run as it was written. -/
structure Clash where
  names : Conventions := {}
  param : String := "x"
  inits : List VarInit := []
  /-- What the function `f` does before it declares the closure `g`. -/
  before : List Stmt := []
  body : List Stmt := [.ret (some (.literal (.num 1)))]
  /-- What the program does before it calls `f`. -/
  main : List Stmt := []
  /-- Another function of the program, which is also the method of a class. -/
  other : FunDef := ⟨"h", [], .none, [], [], .dummy⟩
  output : String := "1\n"

/-- The call `f(5)`. -/
def callF : Expr := .call (.id "f" .dummy) [.literal (.num 5)]

/-- The program: `f` declares `g` and calls it, and `f(5)` is printed. -/
def Clash.program (c : Clash) : Program where
  funs :=
    [{ name := "f"
       params := [⟨c.param, .int⟩]
       ret := .int
       inits := c.inits
       body := c.before ++
        [.closure
          { name := "g", params := [], ret := .int, inits := [], body := c.body, span := .dummy },
          .ret (some (.call (.id "g" .dummy) []))]
       span := .dummy },
      c.other]
  classes := [⟨"C", [], [{ c.other with params := [⟨"this", .cls "C"⟩] }]⟩]
  stmts := c.main ++ [.expr (.builtin1 "print" callF)]

/-- A parameter hides the class of the closure. -/
def hiddenClass : Clash := { param := "Clo_0_g" }

/-- Programs for the ways in which names can clash. -/
def clashes : List Clash :=
  let one : Expr := .literal (.num 1)
  let readX : Stmt := .ret (some (.id "x" .dummy))
  let setGlobal : List Stmt := [.global "Clo_0_g", .assign "Clo_0_g" one]
  let setter : FunDef := ⟨"h", [], .none, [], setGlobal, .dummy⟩
  -- the class is hidden by a variable of `f`: a parameter, one for another closure, or another one
  [hiddenClass,
    { before := [.closure ⟨"Clo_1_g", [], .int, [], [], .dummy⟩] },
    { before := [.assign "Clo_0_g" one] },
    -- the class is hidden by a global variable, which is assigned to at the top, in a function, in
    -- a method or in the closure itself, or by a comprehension variable
    { main := [.assign "Clo_0_g" one] },
    { other := setter, main := [.expr (.call (.id "h" .dummy) [])] },
    { other := setter, main := [.expr (.methodCall (.call (.id "C" .dummy) []) "h" [])] },
    { body := setGlobal ++ [.ret (some one)], main := [.expr callF] },
    { main := [.expr (.comprehension .list callF "Clo_0_g" (.list [one]) none)] },
    -- the receiver is assigned to, or declared global
    { body := [.assign "self" one, readX], output := "5\n" },
    { body := [.global "self", readX], output := "5\n" },
    -- a variable of the name of the closure is declared twice
    { inits := [⟨"g", .int, .num 1⟩, ⟨"g", .int, .num 2⟩],
      before := [.expr (.builtin1 "print" (.id "g" .dummy))], output := "None\n1\n" },
    -- the methods of the class have the same name
    { names := { callMethod := "m", constructor := "m" },
      body := [.expr (.builtin1 "print" one), .ret (some one)], output := "1\n1\n" }]

/-- The run has ended with other text, or it has stopped for good. -/
def printsOther (o : String) : Except Stop String → Bool
  | .ok t => t != o
  | .error e => e != .outOfFuel

theorem never_ok_of_printsOther {ctx : Context} {n : Nat} {o : String}
    (h : printsOther o (ctx.run n) = true) (fuel : Nat) : ctx.run fuel ≠ .ok o := by
  intro hok
  have ends : ctx.run n ≠ .error .outOfFuel := by
    intro he
    rw [he] at h
    cases h
  have same : ctx.run fuel = ctx.run n := by
    refine Context.run_fuel_unique ends ?_
    rw [hok]
    exact fun e => nomatch e
  rw [← same, hok] at h
  simp [printsOther] at h

/-- **Hygiene is needed.**  For every way in which names can clash there is a program that is
converted and that prints something when it is run as it was written, which the converted program
never prints. -/
theorem hygiene_needed : ∀ c ∈ clashes,
    (∃ r, convert c.names c.program = .ok r) ∧
      Nested.run ⟨c.program, c.names, 2⟩ 3 = .ok c.output ∧
        ∀ fuel, (Context.mk (c.program.converted c.names) c.names 3).run fuel ≠ .ok c.output := by
  have accepted : ∀ c ∈ clashes, c.program.conversionErrors c.names = [] := by decide +kernel
  have differs : ∀ c ∈ clashes, printsOther c.output
      ((Context.mk (c.program.converted c.names) c.names 3).run 4) = true := by decide +kernel
  have runs : ∀ c ∈ clashes,
      (Nested.run ⟨c.program, c.names, 2⟩ 3).toOption = some c.output := by decide +kernel
  intro c hc
  refine ⟨⟨_, (convert_eq_ok c.names).2 ⟨accepted c hc, rfl, rfl⟩⟩, ?_,
    never_ok_of_printsOther (differs c hc)⟩
  have runs := runs c hc
  cases hr : Nested.run ⟨c.program, c.names, 2⟩ 3 with
  | ok t =>
    rw [hr] at runs
    exact congrArg Except.ok (Option.some.inj runs)
  | error e =>
    rw [hr] at runs
    cases runs

theorem hiddenClass_differs :
    ¬ Hygienic hiddenClass.names hiddenClass.program ∧
      (∃ r, convert hiddenClass.names hiddenClass.program = .ok r) ∧
      Nested.run ⟨hiddenClass.program, hiddenClass.names, 2⟩ 3 = .ok "1\n" ∧
        ∀ fuel, (Context.mk (hiddenClass.program.converted hiddenClass.names)
          hiddenClass.names 3).run fuel ≠ .ok "1\n" :=
  ⟨by decide +kernel, hygiene_needed hiddenClass (.head _)⟩

end FlatClosure

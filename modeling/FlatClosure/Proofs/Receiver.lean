import FlatClosure.Proofs.Escape
import FlatClosure.Proofs.Preservation
import Mathlib.Data.List.Forall2

/-!
# The receiver of a lifted closure

The method with the body of a closure gets the object as its receiver, and reads what the closure
captured from there.  The name of the receiver is chosen so that the closure neither binds nor reads
it.  The choice does not look at what the closure writes or declares global.

* `Declaration.receiver_least` : the receiver has as few underscores as possible.
* `Declaration.lookup?_receiver` : a receiver that is not written and not declared global is the
  object at every point of the body.
* `receiver_denotes_object` : **the receiver of a lifted closure.**
* `overwritten_receiver` : a receiver that is declared global and written is lost.
-/

namespace FlatClosure

/-- How a receiver is named: `base` with as few underscores as keep it apart from what the closure
binds and reads. -/
structure ReceiverOf (base : String) (c : FunDef) (r : String) : Prop where
  least : ∃ n, r = underscored base n ∧
    ∀ j < n, underscored base j ∈ c.freeNames ++ c.collect boundVars ++ c.binders
  binders : r ∉ c.binders
  /-- If the closure mentions the receiver at all, then it writes it or declares it global. -/
  mentions : ∀ m ∈ c.collect effects, m.Concerns r → m = .write r ∨ m = .global r

/-- In a run of the program, the method of the object `ref`, which is of the class `cls`, is called,
and the evaluator comes to the point while its body is executed. -/
def MethodReaches (ctx : Context) (fuel : Nat) (ref : Nat) (cls method : String) (n : Nat)
    (a : Point) : Prop :=
  ∃ s args f, Reached ctx fuel (n + 1) ⟨s, .invoke ref method args⟩ ∧
    (s.heap.object ref).cls = cls ∧ (ctx.program.class? cls).bind (·.method? method) = some f ∧
    args.length + 1 = f.arity ∧ s.frames.length < ctx.maxDepth ∧
    Relation.ReflTransGen (Starts (ctx.calls n)) ⟨f.opened (.object ref :: args) s, .block f.body⟩ a

section Closure

variable {names : Conventions} {d : Declaration}

theorem Declaration.receiver_least (names : Conventions) (d : Declaration) :
    ∃ n, d.receiver names = underscored names.receiver n ∧ ∀ j < n, underscored names.receiver j ∈
      d.func.freeNames ++ d.func.collect boundVars ++ d.func.binders := by
  refine ⟨_, rfl, fun j hj => ?_⟩
  have taken := candidate_mem_of_lt_firstFree _ _ (Nat.zero_le j) hj
  simpa only [List.mem_append, mem_reads_names, mem_reads_bound] using taken

theorem Declaration.receiverOf (names : Conventions) (d : Declaration) :
    ReceiverOf names.receiver d.func (d.receiver names) where
  least := d.receiver_least names
  binders := (d.receiver_fresh names).2
  mentions m hm hr := by
    obtain ⟨⟨unread, unbound⟩, -⟩ := d.receiver_fresh names
    have law := effects_law.holdsBlock d.func.body m hm
    cases m with
    | read x =>
      obtain rfl : x = _ := hr
      exact absurd law (not_or.2 ⟨unread, unbound⟩)
    | bind x =>
      obtain rfl : x = _ := hr
      exact absurd law unbound
    | write x => exact .inl (congrArg Effect.write hr)
    | global x => exact .inr (congrArg Effect.global hr)
    | closure f => exact hr.elim

/-- The call of the method starts with the object as its receiver. -/
theorem Declaration.receiver_frame (d : Declaration) (v : Value) (args : List Value) :
    ((d.method names).frame (v :: args)).vars.get? (d.receiver names) = some v := by
  have start : ((d.method names).frame (v :: args)).vars =
      (Bindings.empty.insert (d.receiver names) v).insertAll
        ((d.func.params.map (·.name)).zip args ++
          d.func.inits.map fun v => (v.name, v.value.toValue)) := rfl
  rw [start, Bindings.get?_insertAll_of_not_mem, Bindings.get?_insert_self]
  intro h
  have bound : d.receiver names ∈ (d.func.frame args).vars.names :=
    Bindings.mem_names_insertAll.2 (.inr h)
  exact (d.receiver_fresh names).2 (FunDef.mem_binders_of_frame bound)

/-- A receiver that the closure neither writes nor declares global keeps its value. -/
theorem Declaration.lookup?_receiver {k : Calls} (hk : k.Have (Along Calm))
    (flat : d.func.closures = []) (unwritten : d.receiver names ∉ d.func.collect written)
    (undeclared : d.receiver names ∉ d.func.collect declaredGlobal) {v : Value} {args : List Value}
    {s : Machine} {a : Point}
    (path : Relation.ReflTransGen (Starts k)
      ⟨(d.method names).opened (v :: args) s, .block (d.method names).body⟩ a) (p : Program) :
    a.state.lookup? p (d.receiver names) = some v := by
  -- the method writes, binds and declares what the closure does; only its reads are others
  have redirects : Redirects (d.site names) [] _ _ := d.redirects_method flat
  obtain ⟨g, fs, frames, -, values, globals⟩ := frame_of_path hk path
    (W := d.func.collect written ++ d.func.collect boundVars) (D := d.func.collect declaredGlobal)
    (fun x hx => List.mem_append_left _ (redirects.same written_steady ▸ hx))
    (fun x hx => redirects.same declaredGlobal_steady ▸ hx)
    (.inr fun x hx => List.mem_append_right _ (redirects.same boundVars_steady ▸ hx))
  have value : g.vars.get? (d.receiver names) = some v := by
    rw [values, d.receiver_frame]
    exact fun h => (List.mem_append.1 h).elim unwritten (d.receiver_fresh names).1.2
  have notGlobal : g.isGlobal (d.receiver names) = false := by
    simpa [Frame.isGlobal] using fun h => undeclared (globals _ h)
  simp [Machine.lookup?, frames, Frame.get?, notGlobal, value]

end Closure

/-- **The receiver.**  The classes of the lifted closures stand in the order of the closures.  The
receiver of each has as few underscores as keep it apart from what its closure binds and reads; and
unless the closure writes it or declares it global, it is the object itself wherever the body of its
method comes to. -/
theorem receiver_denotes_object {names : Conventions} {p q : Program} {artifacts : Artifacts}
    (h : convert names p = .ok (q, artifacts)) :
    List.Forall₂ (fun c cls => ∃ m r,
        cls.method? names.callMethod = some m ∧ m.params = ⟨r, .cls cls.name⟩ :: c.params ∧
        ReceiverOf names.receiver c r ∧
        (r ∉ c.collect written → r ∉ c.collect declaredGlobal →
          ∀ ctx fuel ref n a, ctx.program = q →
            MethodReaches ctx fuel ref cls.name names.callMethod n a →
            a.state.lookup? q r = some (.object ref)))
      p.closures (q.classes.drop p.classes.length) := by
  obtain ⟨errors, rfl, -⟩ := (convert_eq_ok names).1 h
  rw [← p.map_func_declarations names, Program.converted, List.drop_left,
    List.forall₂_map_left_iff, List.forall₂_map_right_iff, List.forall₂_same]
  intro d hd
  have method : (d.lifted names).cls.method? names.callMethod = some (d.method names) := by
    simp [ClassDef.method?, Declaration.lifted, lift, Declaration.method, callMethod]
  refine ⟨d.method names, d.receiver names, method, rfl, d.receiverOf names, ?_⟩
  rintro unwritten undeclared ctx fuel ref n a hctx ⟨s, args, f, -, -, found, -, -, path⟩
  -- no other class has the name, so the object runs the method of this closure
  have called : f = d.method names := by
    have cls : ctx.program.class? (d.cls names) = some (d.lifted names).cls := by
      rw [hctx]
      exact class?_converted_cls hd
    rw [show (d.lifted names).cls.name = d.cls names from rfl, cls] at found
    exact Option.some.inj (found.symm.trans method)
  subst called
  exact d.lookup?_receiver (ctx.calls_calm n) (liftable_of_mem errors hd).closures unwritten
    undeclared path _

theorem reader_receiver :
    ∃ a, MethodReaches ⟨flatReader, {}, 200⟩ 3 0 "Clo_0_reader" "__call__" 1 a ∧
      a.job = .expr (.id "K" .dummy) ∧ a.state.lookup? flatReader "self" = some (.object 0) := by
  have reaches : MethodReaches ⟨flatReader, {}, 200⟩ 3 0 "Clo_0_reader" "__call__" 1 _ :=
    ⟨readerState, [], readerMethod, invoked_reader, rfl, rfl, rfl, by decide, path_reader⟩
  obtain ⟨m, r, method, params, -, denotes⟩ :=
    (List.forall₂_cons.1 (receiver_denotes_object convert_classReader)).1
  obtain rfl : readerMethod = m := Option.some.inj method
  obtain rfl : "self" = r := congrArg (fun ps => (ps.map Param.name).headD "") params
  exact ⟨_, reaches, rfl, denotes (by decide) (by decide) _ _ _ _ _ rfl reaches⟩

/-! ### A receiver that is lost -/

/-- A closure that declares its receiver global and writes it, `def f(x): def g(): global self;
self = 1; return x; return g()`, in a program with a global variable `self`. -/
def globalSelf : Program where
  inits := [⟨"self", .int, .num 0⟩]
  funs :=
    [{ name := "f", params := [⟨"x", .int⟩], ret := .int, inits := []
       body :=
        [.closure
          { name := "g", params := [], ret := .int, inits := []
            body :=
              [.global "self", .assign "self" (.literal (.num 1)), .ret (some (.id "x" .dummy))]
            span := .dummy },
          .ret (some (.call (.id "g" .dummy) []))]
       span := .dummy }]
  stmts := [.expr (.builtin1 "print" callF)]

theorem overwritten_receiver :
    ∃ q artifacts, convert {} globalSelf = .ok (q, artifacts) ∧
      (∃ c ∈ globalSelf.closures, ∃ cls ∈ q.classes, ∃ m ∈ cls.methods,
        m.params = [⟨"self", .cls cls.name⟩] ∧ "self" ∈ c.collect written ∧
        "self" ∈ c.collect declaredGlobal) ∧
      (Nested.run ⟨globalSelf, {}, 2⟩ 3).toOption = some "5\n" ∧
      ∀ fuel, Context.run ⟨q, {}, 3⟩ fuel ≠ .ok "5\n" := by
  have accepted : globalSelf.conversionErrors {} = [] := by decide +kernel
  have differs : printsOther "5\n" (Context.run ⟨globalSelf.converted {}, {}, 3⟩ 4) = true := by
    decide +kernel
  refine ⟨_, _, (convert_eq_ok {}).2 ⟨accepted, rfl, rfl⟩, ?_, by decide +kernel,
    never_ok_of_printsOther differs⟩
  exact ⟨_, .head _, _, .head _, _, .head _, rfl, by decide, by decide⟩

end FlatClosure

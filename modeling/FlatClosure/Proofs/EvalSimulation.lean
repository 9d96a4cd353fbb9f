import FlatClosure.Proofs.Views

/-!
# Expressions in both runs

A run of a program as it was written is followed by a run of the converted program.  `CallsRel` says
that calls are; from it `eval_agrees` shows that expressions are, by going through the tree.
-/

namespace FlatClosure.Nested

variable {α β : Type}

/-- Calls in one run are followed by calls in the other. -/
structure CallsRel (k : Calls) (k' : FlatClosure.Calls) : Prop where
  ctx : k'.ctx = flattened k.ctx
  fuel : k'.fuel = k.fuel + 1
  method : ∀ c ∈ k.ctx.program.classes, ∀ m ∈ c.methods, ∀ args F G, F.length = G.length →
    F.length ≤ k.ctx.maxDepth → Agree k.ctx [] F G (k.enter ⟨m, [], []⟩ args) (k'.enter m args)
  function : ∀ fd ∈ k.ctx.program.plan k.ctx.names, ∀ args F G, F.length = G.length →
    F.length ≤ k.ctx.maxDepth →
      Agree k.ctx [] F G (k.enter ⟨fd.1, fd.2, []⟩ args)
        (k'.enter (fd.1.converted k.ctx.names fd.2) args)
  closure : ∀ d ∈ decls k.ctx, ∀ ref o, o.cls = d.cls k.ctx.names →
    o.fields.names = d.captures.names → ∀ args F G, F.length = G.length →
      F.length ≤ k.ctx.maxDepth →
        Agree k.ctx [(ref, o)] F G (k.enter ⟨d.func, [], o.fields.entries⟩ args)
          (k'.enter (callMethod (d.redirected k.ctx.names) (d.cls k.ctx.names)
            (d.receiver k.ctx.names) k.ctx.names) (.object ref :: args))
  constructor : ∀ cls receiver v s, s.frames.length ≤ k.ctx.maxDepth →
    (k'.enter (emptyConstructor cls receiver k.ctx.names) [v]).run s = (.ok .none, s)

theorem CallsRel.program {k : Calls} {k' : FlatClosure.Calls} (h : CallsRel k k') :
    k'.ctx.program = k.ctx.program.converted k.ctx.names := by
  rw [h.ctx]
  rfl

theorem CallsRel.names {k : Calls} {k' : FlatClosure.Calls} (h : CallsRel k k') :
    k'.ctx.names = k.ctx.names := by
  rw [h.ctx]
  rfl

variable {k : Calls} {k' : FlatClosure.Calls} {V : View} {scope : List String} {F G : List Frame}
  {held : List (Nat × Instance)}

theorem Agree.weaken {ctx : Context} {x y : EvalM α} (h : Agree ctx [] F G x y) :
    Agree ctx held F G x y :=
  fun s hF hs _ => h s hF hs (.nil s)

/-! ### Names -/

section Names

variable {ctx : Context} (rel : Related ctx V scope F G) {x : String} (hx : x ∉ V.hidden)
  (hc : V.site.isCaptured x scope = false)

include rel hx hc

theorem Related.isVariable_eq {s : Machine} (hF : s.frames = F) :
    (s.withFrames G).isVariable x = s.isVariable x := by
  cases F with
  | nil =>
    obtain rfl := rel.eq_nil_iff.1 rfl
    rw [Machine.isVariable, Machine.isVariable, hF]
    rfl
  | cons f fs =>
    cases G with
    | nil => cases rel.eq_nil_iff.2 rfl
    | cons g gs => exact (rel.head f fs g gs rfl rfl).isVariable_eq hx hc hF

theorem Related.lookup?_eq {s : Machine} (hF : s.frames = F) :
    (s.withFrames G).lookup? (ctx.program.converted ctx.names) x = s.lookup? ctx.program x := by
  rw [Machine.lookup?, isSome_function?_converted, ← Machine.lookup?]
  cases F with
  | nil =>
    obtain rfl := rel.eq_nil_iff.1 rfl
    rw [Machine.lookup?, Machine.lookup?, hF]
    rfl
  | cons f fs =>
    cases G with
    | nil => cases rel.eq_nil_iff.2 rfl
    | cons g gs => exact (rel.head f fs g gs rfl rfl).lookup?_eq hx hc ctx.program hF

end Names

/-- Reading a name, which may be a captured one. -/
theorem read_agrees (hk : CallsRel k k') (rel : Related k.ctx V scope F G) {x : String}
    (hx : x ∉ V.hidden) (span : Span) :
    Agree k.ctx V.held F G (readName k.flat x)
      (((Expr.id x span).redirect V.site scope).eval k') := by
  intro s hF hs hh v t h
  obtain ⟨hv, rfl⟩ := readName_run_eq_ok.1 h
  refine ⟨rfl, hs, .refl _, ?_⟩
  have hv : t.lookup? k.ctx.program x = some v := hv
  cases hc : V.site.isCaptured x scope with
  | false =>
    rw [Expr.redirect, hc]
    refine readName_run_eq_ok.2 ⟨?_, rfl⟩
    rw [hk.program, rel.lookup?_eq hx hc hF, hv]
  | true =>
    rw [Expr.redirect, hc]
    cases F with
    | nil => cases hc.symm.trans (rel.plain rfl x)
    | cons f fs =>
      cases G with
      | nil => cases rel.eq_nil_iff.2 rfl
      | cons g gs =>
        obtain ⟨w, hw, run⟩ := (rel.head f fs g gs rfl rfl).read_captured hc hF
          (fun ro hro => (hh ro hro).1) k.ctx.program k' span
        cases hv.symm.trans hw
        exact run

/-! ### Calls -/

theorem cls_not_mem_classes {ctx : Context} {x : String} (h : x ∈ ctx.program.globalNames) :
    x ∉ classes ctx := by
  intro hx
  obtain ⟨d, hd, rfl⟩ := List.mem_map.1 hx
  exact cls_not_mem_globalNames hd h

theorem class?_not_mem_classes {ctx : Context} {x : String} {c : ClassDef}
    (h : ctx.program.class? x = some c) : x ∉ classes ctx := by
  refine cls_not_mem_classes (List.mem_append_right _ ?_)
  have name : c.name = x := by simpa using List.find?_some h
  exact name ▸ List.mem_map_of_mem (List.mem_of_find?_eq_some h)

theorem Tidy.initGlobals {ctx : Context} {s : Machine} (h : Tidy ctx s) :
    Tidy ctx (s.initGlobals ctx.program) := by
  rw [Machine.initGlobals]
  split
  · exact h
  · refine ⟨fun K hK => ?_, h.objects⟩
    have hK' : K ∉ ctx.program.inits.map (·.name) := fun hm =>
      cls_not_mem_classes (List.mem_append_left _ (List.mem_append_left _ hm)) hK
    refine (Bindings.get?_insertAll_of_not_mem ?_).trans (h.globals K hK)
    simpa using hK'

theorem objects_initGlobals (p : Program) (s : Machine) :
    (s.initGlobals p).heap.objects = s.heap.objects := by
  rw [Machine.initGlobals]
  split <;> rfl

/-- Giving the global variables their first values. -/
theorem initGlobals_agrees (ctx : Context) :
    Agree ctx held F G (modify (Machine.initGlobals ctx.program) : EvalM Unit)
      (modify (Machine.initGlobals (ctx.program.converted ctx.names))) := by
  intro s hF hs _ r t h
  cases h
  refine ⟨?_, hs.initGlobals, .of_objects (objects_initGlobals _ s), ?_⟩
  · rw [Machine.initGlobals]
    split <;> rfl
  · change (Except.ok (), (s.withFrames G).initGlobals ctx.program) = _
    rw [Machine.initGlobals, Machine.initGlobals]
    cases hr : s.ready <;> simp [hr, Machine.withFrames]

/-- An object of a closure is in the heap. -/
theorem object_of_cls {ctx : Context} {s : Machine} {ref : Nat} {d : Declaration}
    (h : (s.heap.object ref).cls = d.cls ctx.names) :
    s.heap.objects[ref]? = some (s.heap.object ref) := by
  rw [Heap.object] at h ⊢
  cases ho : s.heap.objects[ref]? with
  | some o => rfl
  | none =>
    rw [ho] at h
    exact absurd h.symm (className_ne_empty _ _ _)

section Calls

variable (hk : CallsRel k k') (hlen : F.length = G.length) (hdepth : F.length ≤ k.ctx.maxDepth)

include hk hlen hdepth

theorem invoke_agrees (ref : Nat) (method : String) (args : List Value) :
    Agree k.ctx held F G (invoke k.flat ref method args) (invoke k' ref method args) := by
  refine .get_bind fun s hF hs hh => ?_
  dsimp only
  rw [hk.program, Machine.heap_withFrames]
  cases hc : k.ctx.program.class? (s.heap.object ref).cls with
  | none =>
    have none : k.flat.ctx.program.class? (s.heap.object ref).cls = none := hc
    rw [none]
    exact Agree.fail _ _ s hF hs hh
  | some c =>
    have some : k.flat.ctx.program.class? (s.heap.object ref).cls = some c := hc
    rw [some, class?_converted hc, Option.bind_some]
    cases hm : c.method? method with
    | none => exact Agree.fail _ _ s hF hs hh
    | some m =>
      exact (hk.method c (List.mem_of_find?_eq_some hc) m (List.mem_of_find?_eq_some hm) _ F G hlen
        hdepth).weaken s hF hs hh

theorem instantiate_agrees {x : String} {c : ClassDef} (hc : k.ctx.program.class? x = some c)
    (args : List Value) :
    Agree k.ctx held F G (instantiate k.flat c args) (instantiate k' c args) := by
  have name : c.name = x := by simpa using List.find?_some hc
  refine .bind (.newObject (by rw [name]; exact class?_not_mem_classes hc)) fun ref => ?_
  rw [hk.names]
  refine .ite (.bind (invoke_agrees hk hlen hdepth _ _ _) fun _ => .pure _) ?_
  exact .ite (.pure _) (.fail _ _)

theorem callNamed_agrees (name : String) (args : List Value) :
    Agree k.ctx held F G (callNamed k name args) (FlatClosure.callNamed k' name args) := by
  rw [callNamed, FlatClosure.callNamed, hk.program]
  refine .bind (initGlobals_agrees k.ctx) fun _ => ?_
  rw [function?_converted]
  cases hf : (k.ctx.program.plan k.ctx.names).find? (·.1.name == name) with
  | none => exact .fail _ _
  | some fd => exact (hk.function fd (List.mem_of_find?_eq_some hf) args F G hlen hdepth).weaken

theorem callValue_agrees (callee : Value) (args : List Value) :
    Agree k.ctx held F G (callValue k callee args) (FlatClosure.callValue k' callee args) := by
  cases callee with
  | function name => exact callNamed_agrees hk hlen hdepth name args
  | object ref =>
    refine .get_bind fun s hF hs hh => ?_
    dsimp only
    cases hd : k.closure? (s.heap.object ref).cls with
    | none =>
      rw [hk.names]
      exact invoke_agrees hk hlen hdepth ref _ args s hF hs hh
    | some d =>
      have mem : d ∈ decls k.ctx := List.mem_of_find?_eq_some hd
      have cls : (s.heap.object ref).cls = d.cls k.ctx.names := by
        have := List.find?_some hd
        exact (eq_of_beq this).symm
      have object := object_of_cls cls
      have held : Held k.ctx [(ref, s.heap.object ref)] s := by
        intro ro hro
        cases List.mem_singleton.1 hro
        exact ⟨object, cls ▸ List.mem_map_of_mem mem⟩
      have enter := hk.closure d mem ref (s.heap.object ref) cls
        (hs.objects ref _ object d mem cls) args F G hlen hdepth s hF hs held
      have target : (invoke k' ref k'.ctx.names.callMethod args).run (s.withFrames G) =
          (k'.enter (callMethod (d.redirected k.ctx.names) (d.cls k.ctx.names)
            (d.receiver k.ctx.names) k.ctx.names) (.object ref :: args)).run (s.withFrames G) := by
        rw [invoke, run_get_bind]
        dsimp only
        rw [Machine.heap_withFrames, cls, hk.program, class?_converted_cls mem, hk.names]
        have method : (d.lifted k.ctx.names).cls.method? k.ctx.names.callMethod =
            some (callMethod (d.redirected k.ctx.names) (d.cls k.ctx.names)
              (d.receiver k.ctx.names) k.ctx.names) := by
          rw [ClassDef.method?]
          exact List.find?_cons_of_pos (by simp [callMethod])
        rw [Option.bind_some, method]
      intro v t h
      obtain ⟨frames, tidy, keeps, run⟩ := enter v t h
      exact ⟨frames, tidy, keeps, target.trans run⟩
  | _ => exact .look (fun _ _ => rfl) fun _ => .fail _ _

theorem callMethodOf_agrees (v : Value) (method : String) (args : List Value) :
    Agree k.ctx held F G (callMethodOf k.flat v method args) (callMethodOf k' v method args) := by
  cases v with
  | object ref => exact invoke_agrees hk hlen hdepth ref method args
  | list ref =>
    match args with
    | [item] =>
      refine .ite (.quiet (.append _ _)) (.fail _ _)
    | [] | _ :: _ :: _ => exact .look (fun _ _ => rfl) fun _ => .fail _ _
  | _ => exact .look (fun _ _ => rfl) fun _ => .fail _ _

end Calls

/-! ### Expressions -/

theorem id?_redirect {site : ClosureSite} {e : Expr} {x : String} :
    (e.redirect site scope).id? = some x ↔ e.id? = some x ∧ site.isCaptured x scope = false := by
  cases e with
  | id y span =>
    rw [Expr.redirect]
    cases hc : site.isCaptured y scope with
    | true =>
      refine ⟨fun h => (nomatch h), ?_⟩
      rintro ⟨hx, hcap⟩
      cases hx
      cases hc.symm.trans hcap
    | false =>
      refine ⟨fun h => ?_, fun h => h.1⟩
      cases h
      exact ⟨rfl, hc⟩
  | _ => exact ⟨fun h => (nomatch h), fun h => (nomatch h.1)⟩

/-- A captured variable is a variable. -/
theorem Related.isCaptured_of_isVariable {ctx : Context} (rel : Related ctx V scope F G)
    {x : String} {s : Machine} (hF : s.frames = F) (h : s.isVariable x = false) :
    V.site.isCaptured x scope = false := by
  cases F with
  | nil => exact rel.plain rfl x
  | cons f fs =>
    cases G with
    | nil => cases rel.eq_nil_iff.2 rfl
    | cons g gs => exact (rel.head f fs g gs rfl rfl).isCaptured_of_isVariable hF h

/-- Calling an expression, which may name a class. -/
theorem call_agrees (hk : CallsRel k k') (rel : Related k.ctx V scope F G) {f : Expr}
    {args args' : List Expr} (hid : ∀ x, f.id? = some x → x ∉ V.hidden)
    (hf : Agree k.ctx V.held F G (eval k f) ((f.redirect V.site scope).eval k'))
    (hargs : Agree k.ctx V.held F G (evalList k args) (Expr.evalList k' args')) :
    Agree k.ctx V.held F G (eval k (.call f args))
      ((Expr.call (f.redirect V.site scope) args').eval k') := by
  have value : Agree k.ctx V.held F G
      (do
        let callee ← eval k f
        let vs ← evalList k args
        callValue k callee vs)
      (do
        let callee ← (f.redirect V.site scope).eval k'
        let vs ← Expr.evalList k' args'
        FlatClosure.callValue k' callee vs) :=
    .bind hf fun _ => .bind hargs fun _ => callValue_agrees hk rel.length rel.depth _ _
  rw [eval, Expr.eval]
  refine .get_bind fun s hF hs hh => ?_
  cases hc : calleeClass? k.flat s f with
  | some c =>
    -- a class of the program, which the converted program finds as well
    obtain ⟨x, hx, hvar, hcls⟩ := calleeClass?_eq_some.1 hc
    have hcap := rel.isCaptured_of_isVariable hF hvar
    have hc' : calleeClass? k' (s.withFrames G) (f.redirect V.site scope) = some c := by
      refine calleeClass?_eq_some.2 ⟨x, id?_redirect.2 ⟨hx, hcap⟩, ?_, ?_⟩
      · rw [rel.isVariable_eq (hid x hx) hcap hF, hvar]
      · rw [hk.program]
        exact class?_converted hcls
    rw [hc']
    exact Agree.bind hargs (fun _ => instantiate_agrees hk rel.length rel.depth hcls _) s hF hs hh
  | none =>
    cases hc' : calleeClass? k' (s.withFrames G) (f.redirect V.site scope) with
    | none => exact value s hF hs hh
    | some c =>
      -- the class of a closure, whose name the program does not have
      obtain ⟨x, hx', hvar', hcls'⟩ := calleeClass?_eq_some.1 hc'
      obtain ⟨hx, hcap⟩ := id?_redirect.1 hx'
      have hvar : s.isVariable x = false := by rw [← rel.isVariable_eq (hid x hx) hcap hF, hvar']
      have hcls : k.ctx.program.class? x = none := by
        refine Option.eq_none_iff_forall_ne_some.2 fun c hcls => ?_
        rw [calleeClass?_eq_some.2 ⟨x, hx, hvar, hcls⟩] at hc
        cases hc
      rw [hk.program] at hcls'
      obtain ⟨d, hd, rfl⟩ := class?_of_converted hcls' hcls
      intro v t h
      obtain ⟨w, u, hw, -⟩ := run_bind_eq_ok.1 h
      cases f with
      | id y span =>
        cases hx
        obtain ⟨hw, -⟩ := readName_run_eq_ok.1 hw
        rw [lookup?_of_isVariable hvar] at hw
        split at hw
        · rename_i hfun
          obtain ⟨fn, hfn⟩ := Option.isSome_iff_exists.1 hfun
          have name : fn.name = d.cls k.ctx.names := by
            have := List.find?_some hfn
            exact eq_of_beq this
          refine absurd (List.mem_append_left _ (List.mem_append_right _ ?_))
            (cls_not_mem_globalNames hd)
          exact name ▸ List.mem_map_of_mem (List.mem_of_find?_eq_some hfn)
        · cases hw
      | _ => cases hx

mutual

/-- **An expression has the same value in both runs.** -/
theorem eval_agrees (hk : CallsRel k k') {scope : List String} {F G : List Frame}
    (rel : Related k.ctx V scope F G) (e : Expr) (fits : Fits k.ctx V (e.collect effects)) :
    Agree k.ctx V.held F G (eval k e) ((e.redirect V.site scope).eval k') := by
  cases e with
  | literal v => exact .pure _
  | id x span => exact read_agrees hk rel (fits _ List.mem_cons_self) span
  | unary op a => exact .bind (eval_agrees hk rel a fits) fun _ => .quiet (.applyUnary _ _)
  | binary op l r =>
    obtain ⟨hl, hr⟩ := fits_append.1 fits
    have left := eval_agrees hk rel l hl
    have right := eval_agrees hk rel r hr
    cases op with
    | and => exact .bind left fun _ => .look (fun _ _ => rfl) fun _ => .ite right (.pure _)
    | or => exact .bind left fun _ => .look (fun _ _ => rfl) fun _ => .ite (.pure _) right
    | _ => exact .bind left fun _ => .bind right fun _ => .quiet (.applyBinary _ _ _)
  | builtin1 name a => exact .bind (eval_agrees hk rel a fits) fun _ => .quiet (.applyBuiltin1 _ _)
  | builtin2 name l r =>
    obtain ⟨hl, hr⟩ := fits_append.1 fits
    exact .bind (eval_agrees hk rel l hl) fun _ => .bind (eval_agrees hk rel r hr) fun _ =>
      .quiet (.applyBuiltin2 _ _ _)
  | call f args =>
    obtain ⟨hf, hargs⟩ := fits_append.1 fits
    exact call_agrees hk rel (fun x hx => hf _ (read_mem_effects hx)) (eval_agrees hk rel f hf)
      (evalList_agrees hk rel args hargs)
  | field o x => exact .bind (eval_agrees hk rel o fits) fun _ => .getField _ _
  | index o i =>
    obtain ⟨ho, hi⟩ := fits_append.1 fits
    exact .bind (eval_agrees hk rel o ho) fun _ => .bind (eval_agrees hk rel i hi) fun _ =>
      .quiet (.getIndex _ _)
  | methodCall o m args =>
    obtain ⟨ho, hargs⟩ := fits_append.1 fits
    exact .bind (eval_agrees hk rel o ho) fun _ =>
      .bind (evalList_agrees hk rel args hargs) fun _ =>
        callMethodOf_agrees hk rel.length rel.depth _ _ _
  | list es => exact .bind (evalList_agrees hk rel es fits) fun _ => .quiet (.newList _)
  | set es =>
    exact .bind (evalList_agrees hk rel es fits) fun _ => .look (fun _ _ => rfl) fun _ =>
      .quiet (.newList _)
  | comprehension kind elem x it c =>
    obtain ⟨hit, hin⟩ := fits_append.1 fits
    obtain ⟨⟨hx, htop⟩, hin⟩ := fits_cons.1 hin
    obtain ⟨helem, hc⟩ := fits_append.1 hin
    refine .bind (eval_agrees hk rel it hit) fun _ => .bind (.quiet (.itemsOf _ _)) fun items => ?_
    refine .bind (.gatherShadowing rel.eq_nil_iff (fun e => htop (rel.top.1 e)) (fun v => ?_) items)
      fun vs => ?_
    · have rel' := rel.shadowed hx v
      refine .bind (holds_agrees hk rel' c hc) fun _ => .ite ?_ (.pure _)
      exact .bind (eval_agrees hk rel' elem helem) fun _ => .pure _
    · cases kind with
      | list => exact .quiet (.newList _)
      | set => exact .look (fun _ _ => rfl) fun _ => .quiet (.newList _)
  | ifElse c t e =>
    obtain ⟨hct, he⟩ := fits_append.1 fits
    obtain ⟨hc, ht⟩ := fits_append.1 hct
    exact .bind (eval_agrees hk rel c hc) fun _ => .look (fun _ _ => rfl) fun _ =>
      .ite (eval_agrees hk rel t ht) (eval_agrees hk rel e he)
  | tuple es => exact .bind (evalList_agrees hk rel es fits) fun _ => .pure _
  | construct name span =>
    rw [eval, Expr.redirect, Expr.eval, hk.program]
    cases hc : k.ctx.program.class? name with
    | none => exact .fail _ _
    | some c =>
      rw [class?_converted hc]
      exact instantiate_agrees hk rel.length rel.depth hc []
  | lambda => exact .fail _ _

theorem evalList_agrees (hk : CallsRel k k') {scope : List String} {F G : List Frame}
    (rel : Related k.ctx V scope F G) (es : List Expr)
    (fits : Fits k.ctx V (Expr.collectList effects es)) :
    Agree k.ctx V.held F G (evalList k es)
      (Expr.evalList k' (Expr.redirectList V.site scope es)) := by
  cases es with
  | nil => exact .pure _
  | cons e es =>
    obtain ⟨he, hes⟩ := fits_append.1 fits
    exact .bind (eval_agrees hk rel e he) fun _ => .bind (evalList_agrees hk rel es hes) fun _ =>
      .pure _

theorem holds_agrees (hk : CallsRel k k') {scope : List String} {F G : List Frame}
    (rel : Related k.ctx V scope F G) (c : Option Expr)
    (fits : Fits k.ctx V (Expr.collectOption effects c)) :
    Agree k.ctx V.held F G (holds k c) (Expr.holds k' (Expr.redirectOption V.site scope c)) := by
  cases c with
  | none => exact .pure _
  | some e =>
    exact .bind (eval_agrees hk rel e fits) fun _ => .look (fun _ _ => rfl) fun _ => .pure _

end

end FlatClosure.Nested

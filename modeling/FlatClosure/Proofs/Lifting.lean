import FlatClosure.Conversion.Convert
import FlatClosure.Proofs.Rebuild

/-!
# What closure conversion makes of a program

`convert` as a plain function.  The conversion of a function meets lambda expressions and closures
(`encounters`); each closure becomes a `Declaration`, which holds what is around it where it is
declared and the number of its class, and from which the class and the statements in the place of
the closure are computed.

* `liftClosure_eq` : lifting one closure.
* `convertFun_eq` : converting one function.
* `convert_eq` : converting a program: the first error there is, or else the program in which every
  function is replaced by `FunDef.converted` and the classes of all declarations are added.
-/

namespace FlatClosure

variable {α β : Type}

/-! ### One closure -/

/-- A closure where it is declared. -/
structure Declaration where
  func : FunDef
  /-- The variables of the function around it. -/
  around : Enclosing
  /-- The number in the name of its class. -/
  number : Nat

namespace Declaration

variable (names : Conventions) (d : Declaration)

/-- The name of the class. -/
def cls : String := className names.classPrefix d.func.name d.number

/-- The variables that are captured. -/
def captures : Captures := d.func.captures d.around

/-- The name of the receiver. -/
def receiver : String := freshReceiver names.receiver d.func d.func.reads

/-- The closure as the substitution of its captures sees it. -/
def site : ClosureSite := ⟨d.func.name, d.func.span, d.captures, d.receiver names⟩

/-- The closure with its captures read from the receiver. -/
def redirected : FunDef :=
  { d.func with body := Stmt.spliceList (Expr.redirect (d.site names) []) d.func.body [] }

/-- What becomes of the closure. -/
def lifted : Lifted := lift (d.redirected names) (d.cls names) d.captures (d.receiver names) names

/-- What stands against lifting the closure. -/
def errors (globals : List String) : List ConversionError :=
  d.func.collect (obstacles d.func) ++
    (classifyErrors d.func d.around globals ++ d.func.collect (rejections (d.site names)))

end Declaration

/-- The function whose closures are lifted, in a program with the given global names. -/
structure Host where
  names : Conventions
  globals : List String
  func : FunDef

namespace Host

variable (H : Host)

/-- The closure, declared when the conversion is in the given state. -/
def declaration (st : Lifting) (c : FunDef) : Declaration :=
  ⟨c, ⟨H.func.params, st.inits⟩,
    firstFree (className H.names.classPrefix c.name) H.globals st.counter⟩

/-- The state after lifting a closure. -/
def next (st : Lifting) (c : FunDef) : Lifting where
  counter := (H.declaration st c).number + 1
  lifted := st.lifted ++ [(H.declaration st c).lifted H.names]
  inits := setInit ((H.declaration st c).lifted H.names).slot st.inits

end Host

/-! ### Steps of the conversion -/

/-- From `st` the step fails with the first of the errors, or else has the answer `a` and ends in
`st'`. -/
def Steps (st : Lifting) (act : ConvertM α) (errors : List ConversionError) (a : α)
    (st' : Lifting) : Prop :=
  act.run st = okUnless errors (a, st')

namespace Steps

variable {st st₁ st₂ : Lifting} {es fs : List ConversionError} {a : α} {b : β}

theorem pure (a : α) : Steps st (pure a) [] a st := rfl

theorem bind {act : ConvertM α} {next : α → ConvertM β} (h : Steps st act es a st₁)
    (h' : Steps st₁ (next a) fs b st₂) : Steps st (act >>= next) (es ++ fs) b st₂ := by
  unfold Steps at h h' ⊢
  rw [StateT.run_bind, h]
  exact okUnless_bind h'

/-- A step followed by one that cannot fail. -/
theorem andThen {act : ConvertM α} {next : α → ConvertM β} (h : Steps st act es a st₁)
    (h' : Steps st₁ (next a) [] b st₂) : Steps st (act >>= next) es b st₂ := by
  have both := h.bind h'
  rwa [List.append_nil] at both

theorem map {act : ConvertM α} (f : α → β) (h : Steps st act es a st₁) :
    Steps st (act >>= fun a => Pure.pure (f a)) es (f a) st₁ :=
  h.andThen (Steps.pure (f a))

theorem lift {x : Except ConversionError α} (h : x = okUnless es a) :
    Steps st (liftM x) es a st := by
  subst h
  cases es <;> rfl

end Steps

/-- Lifting a closure. -/
theorem liftClosure_eq (H : Host) (st : Lifting) (c : FunDef) :
    Steps st (liftClosure H.names H.globals H.func.params c)
      ((H.declaration st c).errors H.names H.globals)
      ((H.declaration st c).lifted H.names).creation (H.next st c) := by
  have state : Steps st (get : ConvertM Lifting) [] st st := rfl
  have update : Steps st (set (H.next st c)) [] () (H.next st c) := rfl
  refine state.bind ((Steps.lift (collectReads_eq c)).bind ((Steps.lift classify_eq).bind ?_))
  exact (Steps.lift (substituteCaptures_eq _ _)).andThen (update.map _)

/-! ### One function -/

/-- What the conversion of a function comes across. -/
inductive Encounter where
  | lambda (s : Span)
  | closure (c : FunDef)

/-- The closure that is come across. -/
def Encounter.closure? : Encounter → Option FunDef
  | .lambda _ => none
  | .closure c => some c

/-- What the conversion comes across in a tree. -/
def encounters : Collector Encounter where
  expr
    | .lambda _ _ _ s => [.lambda s]
    | _ => []
  stmt
    | .closure c => [.closure c]
    | _ => []

theorem closures_encounters :
    TreeLaw fun part => (part encounters).filterMap Encounter.closure? = part closures where
  nil := rfl
  append := by
    intro a b ha hb
    simp only [List.filterMap_append, ha, hb]
  expr e := by cases e <;> rfl
  scope _ _ ha := ha
  stmt s := by cases s <;> rfl
  write _ _ := rfl

theorem silent_liftingFolder {m : Type → Type} [Monad m] [MonadExceptOf ConversionError m]
    (function : String) (lift : FunDef → m (List Stmt)) :
    (liftingFolder function lift).toScoping.Silent :=
  ⟨fun _ => rfl, fun _ => rfl⟩

namespace Host

variable (H : Host)

/-- Closures, declared one after the other. -/
def declare : Lifting → List FunDef → List Declaration
  | _, [] => []
  | st, c :: cs => H.declaration st c :: declare (H.next st c) cs

/-- The state after lifting closures. -/
def after (st : Lifting) (cs : List FunDef) : Lifting := cs.foldl H.next st

/-- The statements in the places of closures. -/
def blocks (st : Lifting) (cs : List FunDef) : List (List Stmt) :=
  (H.declare st cs).map fun d => (d.lifted H.names).creation

/-- What stands against the conversion. -/
def errors : Lifting → List Encounter → List ConversionError
  | _, [] => []
  | st, .lambda s :: xs => .lambda H.func.name s :: errors st xs
  | st, .closure c :: xs =>
    (H.declaration st c).errors H.names H.globals ++ errors (H.next st c) xs

theorem after_append (st : Lifting) (cs cs' : List FunDef) :
    H.after st (cs ++ cs') = H.after (H.after st cs) cs' :=
  List.foldl_append

theorem declare_append (st : Lifting) (cs cs' : List FunDef) :
    H.declare st (cs ++ cs') = H.declare st cs ++ H.declare (H.after st cs) cs' := by
  induction cs generalizing st with
  | nil => rfl
  | cons c cs ih => exact congrArg (H.declaration st c :: ·) (ih (H.next st c))

theorem blocks_append (st : Lifting) (cs cs' : List FunDef) :
    H.blocks st (cs ++ cs') = H.blocks st cs ++ H.blocks (H.after st cs) cs' := by
  rw [blocks, declare_append, List.map_append]
  rfl

theorem length_declare (st : Lifting) (cs : List FunDef) :
    (H.declare st cs).length = cs.length := by
  induction cs generalizing st with
  | nil => rfl
  | cons c cs ih => exact congrArg (· + 1) (ih (H.next st c))

@[simp] theorem length_blocks (st : Lifting) (cs : List FunDef) :
    (H.blocks st cs).length = cs.length := by
  rw [blocks, List.length_map, length_declare]

theorem errors_append (st : Lifting) (xs ys : List Encounter) :
    H.errors st (xs ++ ys) =
      H.errors st xs ++ H.errors (H.after st (xs.filterMap Encounter.closure?)) ys := by
  induction xs generalizing st with
  | nil => rfl
  | cons x xs ih =>
    cases x with
    | lambda s => exact congrArg (_ :: ·) (ih st)
    | closure c =>
      rw [List.cons_append, errors, ih (H.next st c), ← List.append_assoc]
      rfl

/-- The traversal of the function. -/
def folder : Folder ConvertM := convertFolder H.names H.globals H.func.name H.func.params

/-- From `st` a step that comes across `xs` converts them in order, with the answer `a`. -/
def Converts (st : Lifting) (act : ConvertM α) (xs : List Encounter) (a : α) : Prop :=
  Steps st act (H.errors st xs) a (H.after st (xs.filterMap Encounter.closure?))

end Host

variable {H : Host} {st : Lifting}

namespace Host.Converts

variable {act : ConvertM α} {next : α → ConvertM β} {xs ys zs : List Encounter} {a : α} {b : β}

theorem pure (a : α) : H.Converts st (pure a) [] a := Steps.pure a

theorem bind (h : H.Converts st act xs a)
    (h' : H.Converts (H.after st (xs.filterMap Encounter.closure?)) (next a) ys b) :
    H.Converts st (act >>= next) (xs ++ ys) b := by
  unfold Converts
  rw [errors_append, List.filterMap_append, after_append]
  exact Steps.bind h h'

theorem map (f : α → β) (h : H.Converts st act xs a) :
    H.Converts st (act >>= fun a => Pure.pure (f a)) xs (f a) :=
  Steps.map f h

theorem assoc (h : H.Converts st act (xs ++ (ys ++ zs)) a) :
    H.Converts st act (xs ++ ys ++ zs) a := by
  rwa [List.append_assoc]

theorem bind_after {cs : List FunDef} (h : H.Converts st act xs a)
    (hcs : xs.filterMap Encounter.closure? = cs) (h' : H.Converts (H.after st cs) (next a) ys b) :
    H.Converts st (act >>= next) (xs ++ ys) b := by
  subst hcs
  exact h.bind h'

theorem within (h : H.Converts st act xs a) (ys : List String) :
    H.Converts st (H.folder.within ys act) xs a := by
  have unnoticed : H.folder.within ys act = act :=
    (silent_liftingFolder _ _).within_eq ys (tryFinally_stateT act)
  rwa [unnoticed]

/-- The node is not replaced. -/
theorem rebuild (h : H.Converts st act xs a) :
    H.Converts st (replaceOr (Pure.pure none) act) xs a := h

end Host.Converts

open Host (Converts)

mutual

theorem Expr.converts (st : Lifting) (e : Expr) :
    H.Converts st (e.fold H.folder) (e.collect encounters) e := by
  cases e with
  | literal | id | construct => exact .pure _
  | unary _ a | builtin1 _ a | field a _ => exact .rebuild ((a.converts st).map _)
  | binary _ l r | builtin2 _ l r | index l r =>
    exact .rebuild ((l.converts st).bind ((r.converts _).map _))
  | call f args | methodCall f _ args =>
    exact .rebuild ((f.converts st).bind ((Expr.convertsList _ args).map _))
  | list es | set es | tuple es => exact .rebuild ((Expr.convertsList st es).map _)
  | comprehension k e x it c =>
    have inner (st : Lifting) : H.Converts st (do
        let e ← e.fold H.folder
        let c ← Expr.foldOption H.folder c
        return (e, c)) (e.collect encounters ++ Expr.collectOption encounters c) (e, c) :=
      (e.converts st).bind ((Expr.convertsOption _ c).map _)
    exact .rebuild ((it.converts st).bind
      (((inner _).within [x]).map fun ec => Expr.comprehension k ec.1 x it ec.2))
  | ifElse c t e =>
    exact .rebuild (.assoc ((c.converts st).bind ((t.converts _).bind ((e.converts _).map _))))
  | lambda => rfl

theorem Expr.convertsList (st : Lifting) (es : List Expr) :
    H.Converts st (Expr.foldList H.folder es) (Expr.collectList encounters es) es := by
  cases es with
  | nil => exact .pure _
  | cons e es => exact (e.converts st).bind ((Expr.convertsList _ es).map _)

theorem Expr.convertsOption (st : Lifting) (c : Option Expr) :
    H.Converts st (Expr.foldOption H.folder c) (Expr.collectOption encounters c) c := by
  cases c with
  | none => exact .pure _
  | some e => exact (e.converts st).map _

end

theorem Host.Converts.target (value : Expr) (t : Target) :
    H.Converts st (t.fold H.folder) (t.collect encounters value) (t.mapExpr id) := by
  cases t with
  | id x => exact .pure _
  | field o x => exact (o.converts st).map _
  | index o i => exact (o.converts st).bind ((i.converts _).map _)
  | ignore => exact .pure _

theorem Host.Converts.slots (st : Lifting) (value : Expr) (slots : List Slot) :
    H.Converts st (Slot.foldList H.folder slots) (Slot.collectList encounters value slots)
      (Slot.mapExprs id slots) := by
  induction slots generalizing st with
  | nil => exact .pure _
  | cons s ss ih => exact (Host.Converts.target value s.target).bind ((ih _).map _)

theorem Expr.no_closures (e : Expr) :
    (e.collect encounters).filterMap Encounter.closure? = [] :=
  (closures_encounters.holds e).trans (closures_onlyStmts.collect e)

mutual

theorem Stmt.converts (st : Lifting) (s : Stmt) :
    H.Converts st (s.fold H.folder) (s.collect encounters)
      (s.splice id (H.blocks st (s.collect closures))) := by
  have written (st : Lifting) (v : Expr) (x : String) :
      H.Converts st (H.folder.write x) (encounters.write v x) x := .pure x
  cases s with
  | assign x v => exact .rebuild ((v.converts st).bind ((written _ v x).map _))
  | unpack slots v => exact .rebuild ((v.converts st).bind ((Converts.slots _ v slots).map _))
  | ret v =>
    rw [Stmt.splice, Option.map_id_fun, id_eq]
    exact .rebuild ((Expr.convertsOption st v).map _)
  | expr e => exact .rebuild ((e.converts st).map _)
  | setField o f v => exact .rebuild ((o.converts st).bind ((v.converts _).map _))
  | setIndex o i v =>
    exact .rebuild (.assoc ((o.converts st).bind ((i.converts _).bind ((v.converts _).map _))))
  | ifElse c thn els =>
    rw [Stmt.closures_ifElse, H.blocks_append, Stmt.splice,
      Stmt.spliceList_append _ _ _ _ (by simp), List.drop_left' (by simp)]
    exact .rebuild (.assoc ((c.converts st).bind_after c.no_closures
      ((Stmt.convertsList st thn).bind_after (closures_encounters.holdsBlock thn)
        ((Stmt.convertsList _ els).map _))))
  | whileLoop c body =>
    rw [Stmt.closures_whileLoop]
    exact .rebuild ((c.converts st).bind_after c.no_closures ((Stmt.convertsList st body).map _))
  | forEach x it body els =>
    rw [Stmt.closures_forEach, H.blocks_append, Stmt.splice,
      Stmt.spliceList_append _ _ _ _ (by simp), List.drop_left' (by simp)]
    exact .rebuild (.assoc (.assoc ((it.converts st).bind_after it.no_closures
      ((written st it x).bind ((Stmt.convertsList st body).bind_after
        (closures_encounters.holdsBlock body) ((Stmt.convertsOption _ els).map _))))))
  | pass | nonlocal | global | breakLoop | continueLoop => exact .pure _
  | closure f =>
    have lifts : H.Converts st (liftClosure H.names H.globals H.func.params f) [.closure f]
        ((H.declaration st f).lifted H.names).creation := by
      rw [Host.Converts, Host.errors, Host.errors, List.append_nil]
      exact liftClosure_eq H st f
    have replaced := lifts.map some
    exact replaced.bind (.pure _)

theorem Stmt.convertsList (st : Lifting) (ss : List Stmt) :
    H.Converts st (Stmt.foldList H.folder ss) (Stmt.collectList encounters ss)
      (Stmt.spliceList id ss (H.blocks st (Stmt.collectList closures ss))) := by
  cases ss with
  | nil => exact .pure _
  | cons s ss =>
    have blocks : H.blocks st (Stmt.collectList closures (s :: ss)) =
        H.blocks st (s.collect closures) ++
          H.blocks (H.after st (s.collect closures)) (Stmt.collectList closures ss) :=
      H.blocks_append _ _ _
    rw [blocks, Stmt.spliceList, Stmt.splice_append _ _ _ _ (by simp), List.drop_left' (by simp)]
    exact (s.converts st).bind_after (closures_encounters.holdsStmt s)
      ((Stmt.convertsList _ ss).map _)

theorem Stmt.convertsOption (st : Lifting) (els : Option (List Stmt)) :
    H.Converts st (Stmt.foldOption H.folder els) (Stmt.collectOption encounters els)
      (Stmt.spliceOption id els (H.blocks st (Stmt.collectOption closures els))) := by
  cases els with
  | none => exact .pure _
  | some ss => exact (Stmt.convertsList st ss).map _

end

/-- The function with its closures replaced, given their declarations. -/
def FunDef.converted (names : Conventions) (f : FunDef) (ds : List Declaration) : FunDef :=
  { f with
    body := Stmt.spliceList id f.body (ds.map fun d => (d.lifted names).creation)
    inits := ds.foldl (fun inits d => setInit (d.lifted names).slot inits) f.inits }

namespace Host

variable (H : Host)

theorem inits_after (st : Lifting) (cs : List FunDef) :
    (H.after st cs).inits =
      (H.declare st cs).foldl (fun inits d => setInit (d.lifted H.names).slot inits) st.inits := by
  induction cs generalizing st with
  | nil => rfl
  | cons c cs ih => exact ih (H.next st c)

theorem lifted_after (st : Lifting) (cs : List FunDef) :
    (H.after st cs).lifted = st.lifted ++ (H.declare st cs).map (·.lifted H.names) := by
  induction cs generalizing st with
  | nil => simp [after, declare]
  | cons c cs ih =>
    refine (ih (H.next st c)).trans ?_
    simp [next, declare]

/-- The state in which the conversion of the function begins. -/
def enter (st : Lifting) : Lifting := { st with inits := H.func.inits }

/-- The declarations of the closures of the function. -/
def declarations (st : Lifting) : List Declaration := H.declare (H.enter st) H.func.closures

/-- The state after the conversion of the function. -/
def leave (st : Lifting) : Lifting := H.after (H.enter st) H.func.closures

theorem lifted_leave (st : Lifting) :
    (H.leave st).lifted = st.lifted ++ (H.declarations st).map (·.lifted H.names) :=
  H.lifted_after (H.enter st) H.func.closures

end Host

/-- Converting a function. -/
theorem convertFun_eq (H : Host) (st : Lifting) :
    Steps st (convertFun H.names H.globals H.func)
      (H.errors (H.enter st) (H.func.collect encounters))
      (H.func.converted H.names (H.declarations st)) (H.leave st) := by
  have start : Steps st (modify fun st => { st with inits := H.func.inits } : ConvertM Unit) [] ()
      (H.enter st) := rfl
  have body : Steps (H.enter st) (Stmt.foldList H.folder H.func.body)
      (H.errors (H.enter st) (H.func.collect encounters))
      (Stmt.spliceList id H.func.body (H.blocks (H.enter st) H.func.closures)) (H.leave st) := by
    have whole := Stmt.convertsList (H := H) (H.enter st) H.func.body
    unfold Host.Converts at whole
    rwa [closures_encounters.holdsBlock H.func.body] at whole
  have finish : Steps (H.leave st) (get : ConvertM Lifting) [] (H.leave st) (H.leave st) := rfl
  have inits : (H.leave st).inits = _ := H.inits_after (H.enter st) H.func.closures
  rw [FunDef.converted, Host.declarations, show H.func.inits = (H.enter st).inits from rfl, ← inits]
  exact start.bind (body.andThen (finish.map _))

/-! ### Programs -/

/-- The functions with the declarations of their closures, from a state on. -/
def plan (names : Conventions) (globals : List String) :
    Lifting → List FunDef → List (FunDef × List Declaration)
  | _, [] => []
  | st, f :: fs =>
    (f, Host.declarations ⟨names, globals, f⟩ st) ::
      plan names globals (Host.leave ⟨names, globals, f⟩ st) fs

/-- What stands against the conversion of functions, from a state on. -/
def planErrors (names : Conventions) (globals : List String) :
    Lifting → List FunDef → List ConversionError
  | _, [] => []
  | st, f :: fs =>
    Host.errors ⟨names, globals, f⟩ (Host.enter ⟨names, globals, f⟩ st) (f.collect encounters) ++
      planErrors names globals (Host.leave ⟨names, globals, f⟩ st) fs

/-- The state after the conversion of functions. -/
def planLeave (names : Conventions) (globals : List String) (st : Lifting) (fs : List FunDef) :
    Lifting :=
  fs.foldl (fun st f => Host.leave ⟨names, globals, f⟩ st) st

variable (names : Conventions) (globals : List String)

/-- Where the functions are converted without errors, each of them is, in some state. -/
theorem plan_spec {st : Lifting} {fs : List FunDef} (h : planErrors names globals st fs = []) :
    ∀ fd ∈ plan names globals st fs, ∃ st' : Lifting,
      fd.2 = Host.declarations ⟨names, globals, fd.1⟩ st' ∧
        Host.errors ⟨names, globals, fd.1⟩ (Host.enter ⟨names, globals, fd.1⟩ st')
          (fd.1.collect encounters) = [] := by
  induction fs generalizing st with
  | nil => simp [plan]
  | cons f fs ih =>
    rw [planErrors, List.append_eq_nil_iff] at h
    rw [plan, List.forall_mem_cons]
    exact ⟨⟨st, rfl, h.1⟩, ih h.2⟩

theorem map_fst_plan (st : Lifting) (fs : List FunDef) :
    (plan names globals st fs).map Prod.fst = fs := by
  induction fs generalizing st with
  | nil => rfl
  | cons f fs ih => rw [plan, List.map_cons, ih]

theorem mapM_convertFun (st : Lifting) (fs : List FunDef) :
    Steps st (fs.mapM (convertFun names globals)) (planErrors names globals st fs)
      ((plan names globals st fs).map fun fd => fd.1.converted names fd.2)
      (planLeave names globals st fs) := by
  induction fs generalizing st with
  | nil => exact .pure _
  | cons f fs ih =>
    rw [List.mapM_cons]
    exact (convertFun_eq ⟨names, globals, f⟩ st).bind ((ih _).map _)

theorem lifted_planLeave (st : Lifting) (fs : List FunDef) :
    (planLeave names globals st fs).lifted =
      st.lifted ++ ((plan names globals st fs).flatMap (·.2)).map (·.lifted names) := by
  induction fs generalizing st with
  | nil => simp [planLeave, plan]
  | cons f fs ih =>
    refine (ih _).trans ?_
    rw [Host.lifted_leave, plan, List.flatMap_cons, List.map_append, List.append_assoc]

theorem findSome?_closure_law :
    WalkLaw fun es part => es.findSome? Event.closure? = (part closures).head? where
  nil := rfl
  append h h' := by
    simp only [List.findSome?_append, List.head?_append, h, h']
  expr e := by cases e <;> rfl
  stmt s := by cases s <;> rfl
  write _ _ := rfl
  scope x es a h := by
    change (es ++ [Event.exit x]).findSome? Event.closure? = (a closures).head?
    rw [List.findSome?_append, h]
    exact Option.or_none
  closure _ _ := rfl

theorem firstClosure?_eq (body : List Stmt) :
    firstClosure? body = (Stmt.collectList closures body).head? :=
  findSome?_closure_law.walksBlock body

/-- The errors of the closures in methods. -/
def methodErrors (classes : List ClassDef) : List ConversionError :=
  classes.flatMap fun c => c.methods.flatMap fun m =>
    m.closures.map fun f => .closureInMethod f.name c.name m.name f.span

/-- The errors of the closures among the top-level statements. -/
def topLevelErrors (stmts : List Stmt) : List ConversionError :=
  (Stmt.collectList closures stmts).map fun f => .topLevelClosure f.name f.span

theorem methodError?_eq (classes : List ClassDef) :
    methodError? classes = (methodErrors classes).head? := by
  simp only [methodError?, methodErrors, List.head?_flatMap, List.head?_map, firstClosure?_eq]
  rfl

theorem topLevelError?_eq (stmts : List Stmt) :
    topLevelError? stmts = (topLevelErrors stmts).head? := by
  rw [topLevelError?, topLevelErrors, List.head?_map, firstClosure?_eq]

namespace Program

variable (p : Program)

/-- The functions of the program with the declarations of their closures. -/
def plan : List (FunDef × List Declaration) := FlatClosure.plan names p.globalNames {} p.funs

/-- The declarations of the closures of the program, in order. -/
def declarations : List Declaration := (p.plan names).flatMap (·.2)

/-- The program without closures. -/
def converted : Program :=
  { p with
    funs := (p.plan names).map fun fd => fd.1.converted names fd.2
    classes := p.classes ++ (p.declarations names).map fun d => (d.lifted names).cls }

/-- What stands against the conversion of the program. -/
def conversionErrors : List ConversionError :=
  methodErrors p.classes ++ topLevelErrors p.stmts ++ planErrors names p.globalNames {} p.funs

end Program

/-- **Closure conversion.**  It fails with the first error there is, and else answers with the
program in which the closures of all functions are lifted. -/
theorem convert_eq (p : Program) :
    convert names p =
      okUnless (p.conversionErrors names)
        (p.converted names, .ofLifted ((p.declarations names).map (·.lifted names))) := by
  have early : (methodError? p.classes).or (topLevelError? p.stmts) =
      (methodErrors p.classes ++ topLevelErrors p.stmts).head? := by
    rw [methodError?_eq, topLevelError?_eq, List.head?_append]
  rw [convert, early, Program.conversionErrors]
  cases methodErrors p.classes ++ topLevelErrors p.stmts with
  | cons e es => rfl
  | nil =>
    have funs := mapM_convertFun names p.globalNames {} p.funs
    have lifted := lifted_planLeave names p.globalNames {} p.funs
    unfold Steps at funs
    change StateT.run _ _ >>= _ = _
    rw [funs, List.nil_append]
    refine okUnless_bind_ok ?_
    simp only [lifted, List.nil_append, List.map_map, Program.converted]
    rfl

theorem convert_eq_ok {p q : Program} {artifacts : Artifacts} :
    convert names p = .ok (q, artifacts) ↔
      p.conversionErrors names = [] ∧ q = p.converted names ∧
        artifacts = .ofLifted ((p.declarations names).map (·.lifted names)) := by
  rw [convert_eq, okUnless_eq_ok, Prod.mk.injEq]
  exact and_congr_right' (and_congr eq_comm eq_comm)

end FlatClosure

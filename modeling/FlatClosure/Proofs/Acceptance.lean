import FlatClosure.Proofs.Lifting

/-!
# Which programs are converted

`Convertible` says, in terms of what stands in a program, when closure conversion succeeds: closures
stand in functions only, and every closure is `Liftable` where it is declared.  The scope of a
closure is made of the parameters and variables of its function together with the names of the
closures declared before it.

* `Declaration.errors_eq_nil` : one closure.
* `Host.errors_eq_nil` : one function.
* `convert_succeeds_iff` : **a program is converted exactly if it is convertible.**
-/

namespace FlatClosure

/-- What a closure must be like to be lifted, given the names that the program and the enclosing
function have. -/
structure Liftable (globals scope : List String) (c : FunDef) : Prop where
  closures : c.closures = []
  lambdas : c.collect lambdas = []
  constructs : c.collect constructs = []
  nonlocals : c.collect declaredNonlocal = []
  /-- Every name that is read free is known. -/
  resolved : ∀ x ∈ c.freeNames,
    x ∈ c.binders ∨ (x ∈ scope ∧ x ∉ c.collect declaredGlobal) ∨ x ∈ globals
  /-- No name that is captured is written. -/
  unwritten : ∀ x ∈ c.freeNames,
    x ∉ c.binders → x ∈ scope → x ∉ c.collect declaredGlobal → x ∉ c.collect written

/-- What a program must be like to be converted. -/
structure Convertible (p : Program) : Prop where
  methods : ∀ cls ∈ p.classes, ∀ m ∈ cls.methods, m.closures = []
  topLevel : Stmt.collectList closures p.stmts = []
  lambdas : ∀ f ∈ p.funs, f.collect lambdas = []
  /-- Every closure can be lifted after those declared before it. -/
  liftable : ∀ f ∈ p.funs, ∀ before c after, f.closures = before ++ c :: after →
    Liftable p.globalNames (f.binders ++ before.map (·.name)) c

/-! ### One closure -/

theorem obstacles_law (owner : FunDef) :
    TreeLaw fun part => part (obstacles owner) = [] ↔
      part closures = [] ∧ part lambdas = [] ∧ part constructs = [] where
  nil := by simp
  append h h' := by
    simp only [List.append_eq_nil_iff, h, h']
    constructor
    · rintro ⟨⟨a, b, c⟩, a', b', c'⟩
      exact ⟨⟨a, a'⟩, ⟨b, b'⟩, c, c'⟩
    · rintro ⟨⟨a, a'⟩, ⟨b, b'⟩, c, c'⟩
      exact ⟨⟨a, b, c⟩, a', b', c'⟩
  expr e := by cases e <;> simp [obstacles, closures, lambdas, constructs]
  scope _ _ h := h
  stmt s := by cases s <;> simp [obstacles, closures, lambdas, constructs]
  write _ _ := by simp [obstacles, closures, lambdas, constructs]

theorem rejections_law (owner : FunDef) (site : ClosureSite) :
    TreeLaw fun part => part (rejections site) = [] ↔
      part (obstacles owner) = [] ∧ ∀ x ∈ part written, x ∉ site.captures.names where
  nil := by simp
  append h h' := by
    simp only [List.append_eq_nil_iff, List.mem_append, h, h']
    constructor
    · rintro ⟨⟨a, b⟩, a', b'⟩
      exact ⟨⟨a, a'⟩, fun x hx => hx.elim (b x) (b' x)⟩
    · rintro ⟨⟨a, a'⟩, b⟩
      exact ⟨⟨a, fun x hx => b x (.inl hx)⟩, a', fun x hx => b x (.inr hx)⟩
  expr e := by cases e <;> simp [rejections, obstacles, written]
  scope _ _ h := h
  stmt s := by cases s <;> simp [rejections, obstacles, written]
  write value x := by
    by_cases h : x ∈ site.captures.names
    · simp [rejections, obstacles, written, h, Bindings.contains_iff.2 h]
    · simp [rejections, obstacles, written, h, Bindings.contains_eq_false_iff.2 h]

/-- The names of the variables of the function around. -/
def Enclosing.names (e : Enclosing) : List String := e.params.map (·.name) ++ e.inits.map (·.name)

theorem Declaration.errors_eq_nil {names : Conventions} {globals : List String} {d : Declaration} :
    d.errors names globals = [] ↔ Liftable globals d.around.names d.func := by
  have captured (x : String) : (captureType? d.func d.around x).isSome ↔
      x ∉ d.func.binders ∧ x ∉ d.func.collect declaredGlobal ∧ x ∈ d.around.names := by
    rw [captureType?_isSome_iff, Enclosing.names, List.mem_append]
  have obstacles : d.func.collect (obstacles d.func) = [] ↔ _ :=
    (obstacles_law d.func).holdsBlock d.func.body
  have rejections : d.func.collect (rejections (d.site names)) = [] ↔ _ :=
    (rejections_law d.func (d.site names)).holdsBlock d.func.body
  simp only [Declaration.errors, List.append_eq_nil_iff, classifyErrors_eq_nil, rejections]
  constructor
  · rintro ⟨hobs, ⟨hnl, hres⟩, -, hwr⟩
    obtain ⟨hcl, hlam, hcon⟩ := obstacles.1 hobs
    refine ⟨hcl, hlam, hcon, hnl, fun x hx => ?_, fun x hx hb hs hg hw => ?_⟩
    · rcases hres x hx with h | h | h
      · exact .inl h
      · exact .inr (.inl ⟨((captured x).1 h).2.2, ((captured x).1 h).2.1⟩)
      · exact .inr (.inr h)
    · exact hwr x hw (FunDef.mem_captures.2 ⟨hx, (captured x).2 ⟨hb, hg, hs⟩⟩)
  · intro h
    have hobs := obstacles.2 ⟨h.closures, h.lambdas, h.constructs⟩
    refine ⟨hobs, ⟨h.nonlocals, fun x hx => ?_⟩, hobs, fun x hw hc => ?_⟩
    · by_cases hb : x ∈ d.func.binders
      · exact .inl hb
      · rcases h.resolved x hx with h | ⟨hs, hg⟩ | h
        · exact .inl h
        · exact .inr (.inl ((captured x).2 ⟨hb, hg, hs⟩))
        · exact .inr (.inr h)
    · obtain ⟨hx, hcap⟩ := FunDef.mem_captures.1 hc
      obtain ⟨hb, hg, hs⟩ := (captured x).1 hcap
      exact h.unwritten x hx hb hs hg hw

theorem Liftable.congr {globals scope scope' : List String} {c : FunDef}
    (h : ∀ x, x ∈ scope ↔ x ∈ scope') : Liftable globals scope c ↔ Liftable globals scope' c := by
  constructor
  · intro hc
    exact ⟨hc.closures, hc.lambdas, hc.constructs, hc.nonlocals,
      fun x hx => by simpa only [← h x] using hc.resolved x hx,
      fun x hx hb hs => hc.unwritten x hx hb ((h x).2 hs)⟩
  · intro hc
    exact ⟨hc.closures, hc.lambdas, hc.constructs, hc.nonlocals,
      fun x hx => by simpa only [h x] using hc.resolved x hx,
      fun x hx hb hs => hc.unwritten x hx hb ((h x).1 hs)⟩

/-! ### One function -/

/-- The lambda expression that is come across. -/
def Encounter.lambda? : Encounter → Option Span
  | .lambda s => some s
  | .closure _ => none

theorem lambdas_encounters :
    TreeLaw fun part => (part encounters).filterMap Encounter.lambda? = part lambdas where
  nil := rfl
  append := by
    intro a b ha hb
    simp only [List.filterMap_append, ha, hb]
  expr e := by cases e <;> rfl
  scope _ _ ha := ha
  stmt s := by cases s <;> rfl
  write _ _ := rfl

theorem mem_names_setInit {slot : VarInit} {x : String} (inits : List VarInit) :
    x ∈ (setInit slot inits).map (·.name) ↔ x ∈ inits.map (·.name) ∨ x = slot.name := by
  induction inits with
  | nil => simp [setInit]
  | cons v vs ih =>
    by_cases h : v.name = slot.name
    · rw [setInit, if_pos h, List.map_cons, List.map_cons, List.mem_cons, List.mem_cons, h]
      constructor
      · rintro (h | h)
        · exact .inr h
        · exact .inl (.inr h)
      · rintro ((h | h) | h)
        · exact .inl h
        · exact .inr h
        · exact .inl h
    · rw [setInit, if_neg h, List.map_cons, List.map_cons, List.mem_cons, List.mem_cons, ih,
        or_assoc]

namespace Host

variable {H : Host}

/-- The names that the function has when the conversion is in the given state. -/
def scope (H : Host) (st : Lifting) : List String := Enclosing.names ⟨H.func.params, st.inits⟩

theorem mem_scope_next {st : Lifting} {c : FunDef} {x : String} :
    x ∈ H.scope (H.next st c) ↔ x ∈ H.scope st ∨ x = c.name := by
  have slot : (((H.declaration st c).lifted H.names).slot).name = c.name := rfl
  rw [scope, scope, Enclosing.names, Enclosing.names, List.mem_append, List.mem_append, or_assoc]
  exact or_congr_right ((mem_names_setInit st.inits).trans (by rw [slot]))

/-- Nothing stands against the conversion of a function without lambda expressions if every closure
can be lifted in its turn. -/
theorem errors_eq_nil (st : Lifting) (xs : List Encounter) :
    H.errors st xs = [] ↔
      xs.filterMap Encounter.lambda? = [] ∧
        ∀ before c after, xs.filterMap Encounter.closure? = before ++ c :: after →
          Liftable H.globals (H.scope st ++ before.map (·.name)) c := by
  induction xs generalizing st with
  | nil => simp [errors]
  | cons e xs ih =>
    cases e with
    | lambda s => simp [errors, Encounter.lambda?]
    | closure c =>
      have first : (H.declaration st c).errors H.names H.globals = [] ↔
          Liftable H.globals (H.scope st) c := Declaration.errors_eq_nil
      have shift (before : List FunDef) (c' : FunDef) :
          Liftable H.globals (H.scope (H.next st c) ++ before.map (·.name)) c' ↔
            Liftable H.globals (H.scope st ++ (c :: before).map (·.name)) c' :=
        Liftable.congr fun x => by
          simp only [List.mem_append, mem_scope_next, List.map_cons, List.mem_cons, or_assoc]
      rw [errors, List.append_eq_nil_iff, first, ih]
      simp only [List.filterMap_cons, Encounter.lambda?, Encounter.closure?, shift]
      constructor
      · rintro ⟨hc, hl, hall⟩
        refine ⟨hl, fun before c' after h => ?_⟩
        cases before with
        | nil =>
          obtain ⟨rfl, -⟩ := List.cons.inj h
          simpa using hc
        | cons b before =>
          obtain ⟨rfl, rest⟩ := List.cons.inj h
          exact hall before c' after rest
      · rintro ⟨hl, hall⟩
        refine ⟨?_, hl, fun before c' after h => ?_⟩
        · simpa using hall [] c _ rfl
        · exact hall (c :: before) c' after (congrArg (c :: ·) h)

/-- Where nothing stands against the conversion, nothing stands against any of the closures. -/
theorem errors_of_mem_declare {st : Lifting} {xs : List Encounter} (h : H.errors st xs = [])
    {d : Declaration} (hd : d ∈ H.declare st (xs.filterMap Encounter.closure?)) :
    d.errors H.names H.globals = [] := by
  induction xs generalizing st with
  | nil => cases hd
  | cons e xs ih =>
    cases e with
    | lambda s => simp [errors] at h
    | closure c =>
      rw [errors, List.append_eq_nil_iff] at h
      rcases List.mem_cons.1 hd with rfl | hd
      · exact h.1
      · exact ih h.2 hd

end Host

/-! ### Programs -/

variable {names : Conventions} {globals : List String}

theorem planErrors_eq_nil (st : Lifting) (fs : List FunDef) :
    planErrors names globals st fs = [] ↔
      ∀ f ∈ fs, f.collect lambdas = [] ∧
        ∀ before c after, f.closures = before ++ c :: after →
          Liftable globals (f.binders ++ before.map (·.name)) c := by
  induction fs generalizing st with
  | nil => simp [planErrors]
  | cons f fs ih =>
    have lambdas : (f.collect encounters).filterMap Encounter.lambda? = f.collect lambdas :=
      lambdas_encounters.holdsBlock f.body
    have closures : (f.collect encounters).filterMap Encounter.closure? = f.closures :=
      closures_encounters.holdsBlock f.body
    rw [planErrors, List.append_eq_nil_iff, ih, Host.errors_eq_nil, lambdas, closures,
      List.forall_mem_cons]
    rfl

/-- In a program that is converted, every closure can be lifted where it is declared. -/
theorem liftable_of_mem {p : Program} (h : p.conversionErrors names = []) {d : Declaration}
    (hd : d ∈ p.declarations names) : Liftable p.globalNames d.around.names d.func := by
  rw [Program.conversionErrors, List.append_eq_nil_iff] at h
  obtain ⟨fd, hfd, hd⟩ := List.mem_flatMap.1 hd
  obtain ⟨st, hds, herr⟩ := plan_spec names p.globalNames h.2 fd hfd
  have closures : (fd.1.collect encounters).filterMap Encounter.closure? = fd.1.closures :=
    closures_encounters.holdsBlock fd.1.body
  rw [hds, Host.declarations, ← closures] at hd
  exact Declaration.errors_eq_nil.1 (Host.errors_of_mem_declare herr hd)

theorem methodErrors_eq_nil (classes : List ClassDef) :
    methodErrors classes = [] ↔ ∀ cls ∈ classes, ∀ m ∈ cls.methods, m.closures = [] := by
  simp only [methodErrors, List.flatMap_eq_nil_iff, List.map_eq_nil_iff]

theorem conversionErrors_eq_nil {p : Program} : p.conversionErrors names = [] ↔ Convertible p := by
  rw [Program.conversionErrors, List.append_eq_nil_iff, List.append_eq_nil_iff,
    methodErrors_eq_nil, topLevelErrors, List.map_eq_nil_iff, planErrors_eq_nil]
  constructor
  · rintro ⟨⟨hm, ht⟩, hf⟩
    exact ⟨hm, ht, fun f h => (hf f h).1, fun f h => (hf f h).2⟩
  · intro h
    exact ⟨⟨h.methods, h.topLevel⟩, fun f hf => ⟨h.lambdas f hf, h.liftable f hf⟩⟩

/-- **Exact acceptance.**  A program is converted if and only if closures stand in its functions
only, its functions have no lambda expressions, and every closure can be lifted where it is
declared. -/
theorem convert_succeeds_iff (names : Conventions) (p : Program) :
    (∃ r, convert names p = .ok r) ↔ Convertible p := by
  have succeeds : (∃ r, convert names p = .ok r) ↔ p.conversionErrors names = [] := by
    simp only [convert_eq, okUnless_eq_ok, exists_and_left, exists_eq', and_true]
  rw [succeeds, conversionErrors_eq_nil]

end FlatClosure

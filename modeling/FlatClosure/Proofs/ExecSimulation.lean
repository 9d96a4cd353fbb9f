import FlatClosure.Proofs.Creation
import FlatClosure.Proofs.EvalSimulation

/-!
# Statements in both runs

Statements change the variables of the innermost call, so the calls after a statement are different
ones, but still related (`Stands`).  `Follows` says that of a step, and `exec_follows` of every
statement.  The one that is different in the two runs is the declaration of a closure: where one run
records values, the other makes an object and fills in its fields (`declare_follows`).
-/

namespace FlatClosure.Nested

variable {α β : Type} {ctx : Context} {V : View}

/-! ### Steps that change variables -/

/-- The calls between two statements. -/
structure Stands (ctx : Context) (V : View) (F G : List Frame) : Prop
    extends Related ctx V [] F G where
  avoids : ∀ f fs, F = f :: fs → ∀ K ∈ V.avoid, f.vars.get? K = none

/-- The step that succeeds in one run succeeds in the other, and the calls stay related. -/
def Follows (ctx : Context) (V : View) (x y : EvalM α) : Prop :=
  ∀ s G, Stands ctx V s.frames G → Tidy ctx s → Held ctx V.held s → ∀ v t, x.run s = (.ok v, t) →
    ∃ G', Stands ctx V t.frames G' ∧ t.frames.tail = s.frames.tail ∧ G'.tail = G.tail ∧
      Tidy ctx t ∧ Keeps ctx s t ∧ y.run (s.withFrames G) = (.ok v, t.withFrames G')

namespace Follows

theorem of_agree {x y : EvalM α}
    (h : ∀ F G, Related ctx V [] F G → Agree ctx V.held F G x y) : Follows ctx V x y := by
  intro s G stands hs hh v t run
  obtain ⟨frames, tidy, keeps, run'⟩ := h _ G stands.toRelated s rfl hs hh v t run
  exact ⟨G, frames ▸ stands, congrArg _ frames, rfl, tidy, keeps, run'⟩

theorem pure (a : α) : Follows ctx V (pure a) (pure a) := of_agree fun _ _ _ => .pure a

theorem fail (e : EvalError) (y : EvalM α) : Follows ctx V (fail e) y :=
  of_agree fun _ _ _ => .fail e y

theorem quiet {x : EvalM α} (hx : Quiet x) : Follows ctx V x x := of_agree fun _ _ _ => .quiet hx

theorem bind {x y : EvalM α} {f g : α → EvalM β} (hx : Follows ctx V x y)
    (hf : ∀ a, Follows ctx V (f a) (g a)) : Follows ctx V (x >>= f) (y >>= g) := by
  intro s G stands hs hh v t h
  obtain ⟨a, u, hxu, hfu⟩ := run_bind_eq_ok.1 h
  obtain ⟨G₁, stands₁, tailF, tailG, tidy, keeps, run⟩ := hx s G stands hs hh a u hxu
  obtain ⟨G₂, stands₂, tailF', tailG', tidy', keeps', run'⟩ :=
    hf a u G₁ stands₁ tidy (hh.keeps keeps) v t hfu
  exact ⟨G₂, stands₂, tailF'.trans tailF, tailG'.trans tailG, tidy', keeps.trans keeps',
    (run_bind_of_ok run).trans run'⟩

/-- A step that looks at the state first, but not at the open calls. -/
theorem look {f g : Machine → EvalM α} (blind : ∀ s fs, g (s.withFrames fs) = g s)
    (h : ∀ s, Follows ctx V (f s) (g s)) : Follows ctx V (get >>= f) (get >>= g) := by
  intro s G stands hs hh v t run
  rw [run_get_bind, blind]
  exact h s s G stands hs hh v t run

theorem ite {c : Prop} [Decidable c] {x x' y y' : EvalM α} (h : Follows ctx V x y)
    (h' : Follows ctx V x' y') :
    Follows ctx V (if c then x else x') (if c then y else y') := by
  split
  · exact h
  · exact h'

end Follows

/-! ### Assignments -/

section Store

variable {s : Machine} {G : List Frame} {x : String} {f g : Frame}

theorem FrameRel.set (h : FrameRel ctx V [] f g) (hx : Allowed ctx V (.write x)) (v : Value) :
    FrameRel ctx V [] (f.set x v) (g.set x v) :=
  ⟨h.toVarsRel.set hx.1 hx.2.1 v, h.fresh⟩

theorem FrameRel.declareGlobal (h : FrameRel ctx V [] f g) (hx : Allowed ctx V (.global x))
    (htop : V.top = false) : FrameRel ctx V [] (f.declareGlobal x) (g.declareGlobal x) := by
  obtain ⟨hid, hcap, hcls⟩ := hx
  refine ⟨h.toVarsRel.declareGlobal hid hcap, ?_⟩
  unfold Frame.declareGlobal
  split
  · exact h.fresh
  · intro y hy
    rcases List.mem_append.1 hy with hy | hy
    · exact h.fresh y hy
    · rw [List.mem_singleton.1 hy]
      exact hcls htop

/-- An assignment in both runs. -/
theorem Stands.store (h : Stands ctx V s.frames G) (hs : Tidy ctx s)
    (hx : Allowed ctx V (.write x)) (v : Value) :
    ∃ G', Stands ctx V (s.store x v).frames G' ∧ (s.store x v).frames.tail = s.frames.tail ∧
      G'.tail = G.tail ∧ Tidy ctx (s.store x v) ∧
        (s.withFrames G).store x v = (s.store x v).withFrames G' := by
  obtain ⟨hid, hcap, htop, havoid⟩ := id hx
  cases hF : s.frames with
  | nil =>
    rw [hF] at h
    obtain rfl := h.eq_nil_iff.1 rfl
    have store (t : Machine) (ht : t.frames = []) :
        t.store x v = { t with globals := t.globals.insert x v } := by rw [Machine.store, ht]
    rw [store s hF, store _ rfl]
    refine ⟨[], by rwa [hF], hF ▸ rfl, rfl, ?_, rfl⟩
    exact hs.insert_global (htop (h.top.1 rfl)) v rfl rfl
  | cons f fs =>
    rw [hF] at h
    cases G with
    | nil => cases h.eq_nil_iff.2 rfl
    | cons g gs =>
      have rel := h.head f fs g gs rfl rfl
      have notCap : V.site.isCaptured x [] = false := isCaptured_nil.trans hcap
      rcases rel.store_cases hid notCap hF gs v with ⟨store, store'⟩ | ⟨old, store, store'⟩
      · rw [store, store']
        refine ⟨g.set x v :: gs, ⟨⟨h.length, h.depth, by simpa using h.top, by simp, ?_⟩, ?_⟩,
          rfl, rfl, hs.congr rfl rfl, rfl⟩
        · intro f' fs' g' gs' hf hg
          cases hf
          cases hg
          exact rel.set hx v
        · intro f' fs' hf K hK
          cases hf
          have hne : K ≠ x := fun e => havoid (e ▸ hK)
          exact (Bindings.get?_insert_of_ne _ hne v).trans (h.avoids f fs rfl K hK)
      · -- the global variable is declared global, or it is there already
        rw [store, store']
        have hcls : x ∉ classes ctx := by
          intro hK
          rcases old with declared | bound
          · exact rel.fresh x (by simpa [Frame.isGlobal] using declared) hK
          · rw [Bindings.contains, hs.globals x hK] at bound
            cases bound
        exact ⟨g :: gs, by rwa [hF], by rw [hF], rfl, hs.insert_global hcls v rfl rfl, rfl⟩

theorem Follows.store (hx : Allowed ctx V (.write x)) (v : Value) :
    Follows ctx V (modify (·.store x v) : EvalM Unit) (modify (·.store x v)) := by
  intro s G stands hs _ r t h
  cases h
  obtain ⟨G', stands', tailF, tailG, tidy, store⟩ := stands.store hs hx v
  refine ⟨G', stands', tailF, tailG, tidy, .of_objects ?_, congrArg _ store⟩
  rw [heap_store]

theorem Follows.declareGlobal (hx : Allowed ctx V (.global x)) :
    Follows ctx V (modify (·.declareGlobal x) : EvalM Unit) (modify (·.declareGlobal x)) := by
  intro s G h hs _ r t run
  cases run
  dsimp only
  cases hF : s.frames with
  | nil =>
    rw [hF] at h
    obtain rfl := h.eq_nil_iff.1 rfl
    have same (t : Machine) (ht : t.frames = []) : t.declareGlobal x = t := by
      rw [Machine.declareGlobal, ht]
    rw [same s hF]
    refine ⟨[], by rwa [hF], hF ▸ rfl, rfl, hs, .refl s, ?_⟩
    exact congrArg (Except.ok (), ·) (same _ rfl)
  | cons f fs =>
    rw [hF] at h
    cases G with
    | nil => cases h.eq_nil_iff.2 rfl
    | cons g gs =>
      have rel := h.head f fs g gs rfl rfl
      have declare : s.declareGlobal x = { s with frames := f.declareGlobal x :: fs } := by
        rw [Machine.declareGlobal, hF]
      rw [declare]
      have htop : V.top = false := Bool.eq_false_iff.2 fun e => nomatch h.top.2 e
      refine ⟨g.declareGlobal x :: gs, ⟨⟨h.length, h.depth, by simpa using h.top, (nomatch ·), ?_⟩,
        ?_⟩, rfl, rfl, hs.congr rfl rfl, .of_objects rfl, rfl⟩
      · intro f' fs' g' gs' hf hg
        cases hf
        cases hg
        exact rel.declareGlobal hx htop
      · intro f' fs' hf K hK
        cases hf
        rw [Frame.vars_declareGlobal]
        exact h.avoids f fs rfl K hK

end Store

/-! ### Loops -/

/-- A loop that ends within `n` rounds does so when one more is allowed. -/
theorem Follows.loopWhile {cond cond' : EvalM Bool} {body body' : EvalM Flow}
    (hcond : Follows ctx V cond cond') (hbody : Follows ctx V body body') (n : Nat) :
    Follows ctx V (loopWhile cond body n) (loopWhile cond' body' (n + 1)) := by
  induction n with
  | zero => exact .of_agree fun _ _ _ => .throw _ _
  | succ n ih =>
    refine .bind hcond fun _ => .ite (.bind hbody fun flow => ?_) (.pure _)
    cases flow with
    | breakLoop | ret => exact .pure _
    | normal | continueLoop => exact ih

theorem Follows.loopEach {x : String} {body body' : EvalM Flow} (hx : Allowed ctx V (.write x))
    (hbody : Follows ctx V body body') (items : List Value) :
    Follows ctx V (loopEach x body items) (loopEach x body' items) := by
  induction items with
  | nil => exact .pure _
  | cons v items ih =>
    refine .bind (.store hx v) fun _ => .bind hbody fun flow => ?_
    cases flow with
    | breakLoop | ret => exact .pure _
    | normal | continueLoop => exact ih

theorem execList_append (k : FlatClosure.Calls) (ss ts : List Stmt) :
    Stmt.execList k (ss ++ ts) = (do
      match ← Stmt.execList k ss with
      | .normal => Stmt.execList k ts
      | flow => return flow) := by
  induction ss with
  | nil => exact (pure_bind _ _).symm
  | cons s ss ih =>
    rw [List.cons_append, Stmt.execList, Stmt.execList, bind_assoc]
    refine congrArg (s.exec k >>= ·) (funext fun flow => ?_)
    cases flow with
    | normal => exact ih
    | ret | breakLoop | continueLoop => exact (pure_bind _ _).symm

theorem execList_singleton (k : FlatClosure.Calls) (s : Stmt) :
    Stmt.execList k [s] = s.exec k := by
  rw [Stmt.execList, ← bind_pure (s.exec k), bind_assoc]
  refine congrArg (s.exec k >>= ·) (funext fun flow => ?_)
  rw [pure_bind]
  cases flow <;> rfl

/-! ### Statements -/

variable {k : Calls} {k' : FlatClosure.Calls}

/-! ### Declarations -/

section Declarations

theorem recordValues_ok {c : String} {self : Value} {xs : List String} {s t : Machine}
    {vs : List (String × Value)} (h : (recordValues k c self xs).run s = (.ok vs, t)) :
    t = s ∧ vs.map Prod.fst = xs ∧ ∀ p ∈ vs,
      if p.1 = c then p.2 = self else s.lookup? k.ctx.program p.1 = some p.2 := by
  induction xs generalizing vs s with
  | nil =>
    cases h
    exact ⟨rfl, rfl, fun _ hp => (List.not_mem_nil hp).elim⟩
  | cons x xs ih =>
    have unfolded : recordValues k c self (x :: xs) =
        (if x = c then pure self else readName k.flat x) >>= fun v =>
          recordValues k c self xs >>= fun vs => pure ((x, v) :: vs) := by
      rw [recordValues]
      split <;> rfl
    rw [unfolded] at h
    obtain ⟨v, u, hv, h⟩ := run_bind_eq_ok.1 h
    obtain ⟨ws, w, hws, h⟩ := run_bind_eq_ok.1 h
    cases h
    have value : u = s ∧ if x = c then v = self else s.lookup? k.ctx.program x = some v := by
      split at hv
      · rename_i hx
        cases hv
        exact ⟨rfl, by rw [if_pos hx]⟩
      · rename_i hx
        obtain ⟨hlook, rfl⟩ := readName_run_eq_ok.1 hv
        exact ⟨rfl, by rwa [if_neg hx]⟩
    obtain ⟨rfl, hv⟩ := value
    obtain ⟨rfl, hnames, hall⟩ := ih hws
    refine ⟨rfl, by rw [List.map_cons, hnames], ?_⟩
    intro p hp
    rcases List.mem_cons.1 hp with rfl | hp
    · exact hv
    · exact hall p hp

/-- The state when a closure has been declared. -/
def declared (names : Conventions) (d : Declaration) (recorded : List (String × Value))
    (s : Machine) : Machine :=
  { s with heap := s.heap.pushObject ⟨d.cls names, ⟨recorded⟩⟩ }.store d.func.name
    (.object s.heap.objects.size)

theorem declare_ok {d : Declaration} {s t : Machine} {flow : Flow}
    (h : (declare k d).run s = (.ok flow, t)) :
    ∃ recorded, recorded.map Prod.fst = d.captures.names ∧
      Records k.ctx.program s d.func.name recorded ∧ flow = .normal ∧
        t = declared k.ctx.names d recorded s := by
  rw [declare, run_get_bind] at h
  obtain ⟨recorded, u, hrec, hrest⟩ := run_bind_eq_ok.1 h
  obtain ⟨rfl, hnames, hvalues⟩ := recordValues_ok hrec
  refine ⟨recorded, hnames, hvalues, ?_⟩
  have entries : Bindings.ofList recorded = ⟨recorded⟩ := by
    refine congrArg Bindings.mk (Bindings.entries_ofList ?_)
    rw [hnames]
    exact d.nodup_captures
  rw [entries] at hrest
  cases hrest
  exact ⟨rfl, rfl⟩

/-- The statements in the place of a declaration. -/
theorem creation_run (hk : CallsRel k k')
    (hcall : k.ctx.names.callMethod ≠ k.ctx.names.constructor) {d : Declaration}
    (hd : d ∈ decls k.ctx) {s : Machine} (hs : s.frames.length ≤ k.ctx.maxDepth)
    (hcls : s.isVariable (d.cls k.ctx.names) = false) {recorded : List (String × Value)}
    (hnames : recorded.map Prod.fst = d.captures.names)
    (hrec : Records k'.ctx.program s d.func.name recorded) :
    (Stmt.execList k' (d.lifted k.ctx.names).creation).run s =
      (.ok .normal, declared k.ctx.names d recorded s) := by
  have found : k'.ctx.program.class? (d.cls k.ctx.names) =
      some (lift (d.redirected k.ctx.names) (d.cls k.ctx.names) d.captures
        (d.receiver k.ctx.names) k'.ctx.names).cls := by
    rw [hk.program, hk.names]
    exact class?_converted_cls hd
  have idle : ConstructorIdle k' (d.cls k.ctx.names) (d.receiver k.ctx.names) s := by
    intro v t ht
    rw [hk.names]
    exact hk.constructor _ _ v t (ht ▸ hs)
  -- the captured variables are different ones, so that each field is filled in once
  have all : (blankFields d.captures).insertAll recorded = ⟨recorded⟩ := by
    have names : (blankFields d.captures).names = d.captures.names :=
      names_blankFields d.nodup_captures
    refine Bindings.insertAll_of_names (names.trans hnames.symm) ?_
    rw [names]
    exact d.nodup_captures
  have run := creation_lift_run (hk.names ▸ hcall) found idle hcls hnames hrec
  rw [hk.names, all] at run
  exact run

/-- A class that is avoided is not hidden by a variable. -/
theorem Stands.not_isVariable {s : Machine} {G : List Frame} (h : Stands ctx V s.frames G)
    (hs : Tidy ctx s) {K : String} (hK : K ∈ V.avoid) (hcls : K ∈ classes ctx) :
    s.isVariable K = false := by
  have globals : s.globals.contains K = false := by
    rw [Bindings.contains, hs.globals K hcls]
    rfl
  rw [Machine.isVariable, globals, Bool.or_false]
  cases hF : s.frames with
  | nil => rfl
  | cons f fs =>
    have vars := h.avoids f fs hF K hK
    simp [Frame.hasLocal, Bindings.contains, vars]

/-- The closure is declared in calls of the view. -/
structure Declares (ctx : Context) (V : View) (d : Declaration) : Prop where
  call : ctx.names.callMethod ≠ ctx.names.constructor
  mem : d ∈ decls ctx
  avoids : d.cls ctx.names ∈ V.avoid
  write : Allowed ctx V (.write d.func.name)
  plain : ∀ x, V.site.captures.contains x = false
  hidden : V.hidden = []

theorem declare_follows (hk : CallsRel k k') {d : Declaration} (hd : Declares k.ctx V d) :
    Follows k.ctx V (declare k d) (Stmt.execList k' (d.lifted k.ctx.names).creation) := by
  intro s G stands hs hh flow t h
  obtain ⟨recorded, hnames, hrec, rfl, rfl⟩ := declare_ok h
  have seen (x : String) : x ∉ V.hidden ∧ V.site.isCaptured x [] = false := by
    rw [hd.hidden, isCaptured_nil]
    exact ⟨List.not_mem_nil, hd.plain x⟩
  have run : (Stmt.execList k' (d.lifted k.ctx.names).creation).run (s.withFrames G) =
      (.ok .normal, declared k.ctx.names d recorded (s.withFrames G)) := by
    refine creation_run hk hd.call hd.mem ?_ ?_ hnames fun r hr => ?_
    · exact stands.length ▸ stands.depth
    · rw [stands.isVariable_eq (seen _).1 (seen _).2 rfl]
      exact stands.not_isVariable hs hd.avoids (List.mem_map_of_mem hd.mem)
    · have value := hrec r hr
      split
      · rename_i hx
        rw [if_pos hx] at value
        exact value
      · rename_i hx
        rw [if_neg hx] at value
        rw [hk.program, stands.lookup?_eq (seen _).1 (seen _).2 rfl, value]
  -- the new object, then the assignment
  have tidy : Tidy k.ctx { s with heap := s.heap.pushObject ⟨d.cls k.ctx.names, ⟨recorded⟩⟩ } := by
    refine hs.pushObject fun d' hd' hcls => ?_
    rw [← cls_inj hd.mem hd' hcls]
    exact hnames
  obtain ⟨G', stands', tailF, tailG, tidy', store⟩ := Stands.store
    (s := { s with heap := s.heap.pushObject ⟨d.cls k.ctx.names, ⟨recorded⟩⟩ }) stands tidy hd.write
    (.object s.heap.objects.size)
  refine ⟨G', stands', tailF, tailG, tidy', ?_, ?_⟩
  · refine (Keeps.pushObject s ⟨d.cls k.ctx.names, ⟨recorded⟩⟩).trans (.of_objects ?_)
    rw [declared, heap_store]
  · rw [run]
    exact congrArg (Except.ok Flow.normal, ·) store

end Declarations

section Statements

variable (hk : CallsRel k k')

include hk

theorem Follows.eval (e : Expr) (fits : Fits k.ctx V (e.collect effects)) :
    Follows k.ctx V (eval k e) ((e.redirect V.site []).eval k') :=
  of_agree fun _ _ rel => eval_agrees hk rel e fits

theorem assign_follows (value : Expr) (v : Value) (t : Target)
    (fits : Fits k.ctx V (t.collect effects value)) :
    Follows k.ctx V (assign k v t) ((t.mapExpr (Expr.redirect V.site [])).assign k' v) := by
  cases t with
  | id x => exact .store (fits _ List.mem_cons_self) v
  | field o x => exact .bind (.eval hk o fits) fun _ => .of_agree fun _ _ _ => .storeField _ _ _
  | index o i =>
    obtain ⟨ho, hi⟩ := fits_append.1 fits
    exact .bind (.eval hk o ho) fun _ => .bind (.eval hk i hi) fun _ => .quiet (.storeItem _ _ _)
  | ignore => exact .pure _

theorem assignSlots_follows (value : Expr) (starOpen : Bool) (slots : List Slot)
    (items : List Value) (fits : Fits k.ctx V (Slot.collectList effects value slots)) :
    Follows k.ctx V (assignSlots k starOpen slots items)
      (FlatClosure.assignSlots k' starOpen (Slot.mapExprs (Expr.redirect V.site []) slots)
        items) := by
  induction slots generalizing starOpen items with
  | nil => exact .pure _
  | cons slot slots ih =>
    obtain ⟨hslot, hslots⟩ := fits_append.1 fits
    rw [assignSlots, Slot.mapExprs, FlatClosure.assignSlots, Slot.length_mapExprs]
    refine .ite (.bind (.quiet (.newList _)) fun v => ?_) ?_
    · exact .bind (assign_follows hk value v slot.target hslot) fun _ => ih _ _ hslots
    · exact .bind (assign_follows hk value _ slot.target hslot) fun _ => ih _ _ hslots

theorem destructure_follows (value : Expr) (slots : List Slot) (v : Value)
    (fits : Fits k.ctx V (Slot.collectList effects value slots)) :
    Follows k.ctx V (destructure k slots v)
      (FlatClosure.destructure k' (Slot.mapExprs (Expr.redirect V.site []) slots) v) := by
  rw [destructure, FlatClosure.destructure, Slot.length_mapExprs, Slot.any_starred_mapExprs]
  exact .bind (.quiet (.itemsOf _ _)) fun items =>
    .ite (.fail _ _) (assignSlots_follows hk value true slots items fits)

end Statements

/-- The blocks in the place of declarations. -/
abbrev creations (ctx : Context) (ds : List Declaration) : List (List Stmt) :=
  ds.map fun d => (d.lifted ctx.names).creation

mutual

/-- **A statement has the same effect in both runs.** -/
theorem exec_follows (hk : CallsRel k k') (s : Stmt) (ds : List Declaration)
    (fits : Fits k.ctx V (s.collect effects)) (hds : ∀ d ∈ ds, Declares k.ctx V d) :
    Follows k.ctx V (exec k s ds)
      (Stmt.execList k' (s.splice (Expr.redirect V.site []) (creations k.ctx ds))) := by
  cases s with
  | assign x e =>
    obtain ⟨he, hx⟩ := fits_append.1 fits
    rw [Stmt.splice, execList_singleton]
    exact .bind (.eval hk e he) fun v => .bind (.store (hx _ List.mem_cons_self) v) fun _ => .pure _
  | unpack slots e =>
    obtain ⟨he, hslots⟩ := fits_append.1 fits
    rw [Stmt.splice, execList_singleton]
    exact .bind (.eval hk e he) fun v => .bind (destructure_follows hk e slots v hslots) fun _ =>
      .pure _
  | ret v =>
    rw [Stmt.splice, execList_singleton]
    cases v with
    | none => exact .pure _
    | some e => exact .bind (.eval hk e fits) fun _ => .pure _
  | expr e =>
    rw [Stmt.splice, execList_singleton]
    exact .bind (.eval hk e fits) fun _ => .pure _
  | setField o x e =>
    obtain ⟨ho, he⟩ := fits_append.1 fits
    rw [Stmt.splice, execList_singleton]
    exact .bind (.eval hk o ho) fun _ => .bind (.eval hk e he) fun _ =>
      .bind (.of_agree fun _ _ _ => .storeField _ _ _) fun _ => .pure _
  | setIndex o i e =>
    obtain ⟨hoi, he⟩ := fits_append.1 fits
    obtain ⟨ho, hi⟩ := fits_append.1 hoi
    rw [Stmt.splice, execList_singleton]
    exact .bind (.eval hk o ho) fun _ => .bind (.eval hk i hi) fun _ =>
      .bind (.eval hk e he) fun _ => .bind (.quiet (.storeItem _ _ _)) fun _ => .pure _
  | ifElse c thn els =>
    obtain ⟨hct, hels⟩ := fits_append.1 fits
    obtain ⟨hc, hthn⟩ := fits_append.1 hct
    rw [Stmt.splice, execList_singleton, ← List.map_drop]
    exact .bind (.eval hk c hc) fun _ => .look (fun _ _ => rfl) fun _ =>
      .ite (execList_follows hk thn ds hthn hds)
        (execList_follows hk els _ hels fun d hd => hds d (List.mem_of_mem_drop hd))
  | whileLoop c body =>
    obtain ⟨hc, hbody⟩ := fits_append.1 fits
    rw [Stmt.splice, execList_singleton, Stmt.exec, exec, hk.fuel]
    refine .loopWhile ?_ (execList_follows hk body ds hbody hds) _
    exact .bind (.eval hk c hc) fun _ => .look (fun _ _ => rfl) fun _ => .pure _
  | forEach x it body els =>
    obtain ⟨hixb, hels⟩ := fits_append.1 fits
    obtain ⟨hix, hbody⟩ := fits_append.1 hixb
    obtain ⟨hit, hx⟩ := fits_append.1 hix
    rw [Stmt.splice, execList_singleton, ← List.map_drop]
    refine .bind (.eval hk it hit) fun _ => .bind (.quiet (.itemsOf _ _)) fun items => ?_
    refine .bind (.loopEach (hx _ List.mem_cons_self) (execList_follows hk body ds hbody hds) items)
      fun flow => ?_
    cases flow with
    | breakLoop | ret => exact .pure _
    | normal | continueLoop =>
      exact execOption_follows hk els _ hels fun d hd => hds d (List.mem_of_mem_drop hd)
  | global x =>
    rw [Stmt.splice, execList_singleton]
    exact .bind (.declareGlobal (fits _ List.mem_cons_self)) fun _ => .pure _
  | pass | breakLoop | continueLoop =>
    rw [Stmt.splice, execList_singleton]
    exact .pure _
  | nonlocal x => exact .fail _ _
  | closure f =>
    cases ds with
    | nil => exact .fail _ _
    | cons d ds => exact declare_follows hk (hds d List.mem_cons_self)

theorem execList_follows (hk : CallsRel k k') (ss : List Stmt) (ds : List Declaration)
    (fits : Fits k.ctx V (Stmt.collectList effects ss)) (hds : ∀ d ∈ ds, Declares k.ctx V d) :
    Follows k.ctx V (execList k ss ds)
      (Stmt.execList k' (Stmt.spliceList (Expr.redirect V.site []) ss (creations k.ctx ds))) := by
  cases ss with
  | nil => exact .pure _
  | cons s ss =>
    obtain ⟨hs, hss⟩ := fits_append.1 fits
    rw [Stmt.spliceList, execList_append, execList, ← List.map_drop]
    refine .bind (exec_follows hk s ds hs hds) fun flow => ?_
    cases flow with
    | normal => exact execList_follows hk ss _ hss fun d hd => hds d (List.mem_of_mem_drop hd)
    | ret | breakLoop | continueLoop => exact .pure _

theorem execOption_follows (hk : CallsRel k k') (els : Option (List Stmt)) (ds : List Declaration)
    (fits : Fits k.ctx V (Stmt.collectOption effects els)) (hds : ∀ d ∈ ds, Declares k.ctx V d) :
    Follows k.ctx V (execOption k els ds)
      (Stmt.execOption k'
        (Stmt.spliceOption (Expr.redirect V.site []) els (creations k.ctx ds))) := by
  cases els with
  | none => exact .pure _
  | some ss => exact execList_follows hk ss ds fits hds

end

end FlatClosure.Nested

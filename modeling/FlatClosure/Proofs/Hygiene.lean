import FlatClosure.Proofs.Acceptance
import FlatClosure.Proofs.ExecSimulation

/-!
# Names that do not clash

Closure conversion makes up a class and a receiver for every closure, and a variable for the object.
`Hygienic` says that these names do not clash with names that the program uses itself; the
conversion does not see to all of that.  In a hygienic program the bodies of functions, methods and
closures mention only what the views of their calls allow (`fits_function` and so on), and the calls
start with variables that correspond to each other (`function_frame`, `closure_frame`).
-/

namespace FlatClosure

/-- What is made up for the closure `d` does not clash with the names in the function `f`, which
declares the closures `ds`. -/
structure HygienicIn (names : Conventions) (f : FunDef) (ds : List Declaration) (d : Declaration) :
    Prop where
  methods : names.callMethod ≠ names.constructor
  /-- No variable of the function hides the class. -/
  binders : d.cls names ∉ f.binders
  siblings : ∀ d' ∈ ds, d.cls names ≠ d'.func.name
  written : d.cls names ∉ f.collect written
  /-- The closure does not change its receiver. -/
  receiver : d.receiver names ∉ d.func.collect FlatClosure.written
  receiver_local : d.receiver names ∉ d.func.collect declaredGlobal
  /-- Variables of the name of the closure start with `None`. -/
  slot : ∀ v ∈ (f.inits.filter (·.name == d.func.name)).tail.getLast?, v.value = .none

/-- No global variable gets the name. -/
structure NeverGlobal (names : Conventions) (p : Program) (x : String) : Prop where
  written : x ∉ Stmt.collectList FlatClosure.written p.stmts
  bound : x ∉ Stmt.collectList boundVars p.stmts
  functions : ∀ f ∈ p.funs, x ∉ f.collect declaredGlobal
  methods : ∀ c ∈ p.classes, ∀ m ∈ c.methods, x ∉ m.collect declaredGlobal
  closures : ∀ d ∈ p.declarations names, x ∉ d.func.collect declaredGlobal

/-- The names that closure conversion makes up do not clash with names of the program. -/
structure Hygienic (names : Conventions) (p : Program) : Prop where
  closures : ∀ fd ∈ p.plan names, ∀ d ∈ fd.2, HygienicIn names fd.1 fd.2 d
  classes : ∀ d ∈ p.declarations names, NeverGlobal names p (d.cls names)

instance (names : Conventions) (f : FunDef) (ds : List Declaration) (d : Declaration) :
    Decidable (HygienicIn names f ds d) :=
  decidable_of_iff
    (names.callMethod ≠ names.constructor ∧ d.cls names ∉ f.binders ∧
      (∀ d' ∈ ds, d.cls names ≠ d'.func.name) ∧ d.cls names ∉ f.collect written ∧
      d.receiver names ∉ d.func.collect written ∧ d.receiver names ∉ d.func.collect declaredGlobal ∧
      ∀ v ∈ (f.inits.filter (·.name == d.func.name)).tail.getLast?, v.value = .none)
    ⟨fun ⟨a, b, c, d, e, f, g⟩ => ⟨a, b, c, d, e, f, g⟩,
      fun ⟨a, b, c, d, e, f, g⟩ => ⟨a, b, c, d, e, f, g⟩⟩

instance (names : Conventions) (p : Program) (x : String) : Decidable (NeverGlobal names p x) :=
  decidable_of_iff
    (x ∉ Stmt.collectList written p.stmts ∧ x ∉ Stmt.collectList boundVars p.stmts ∧
      (∀ f ∈ p.funs, x ∉ f.collect declaredGlobal) ∧
      (∀ c ∈ p.classes, ∀ m ∈ c.methods, x ∉ m.collect declaredGlobal) ∧
      ∀ d ∈ p.declarations names, x ∉ d.func.collect declaredGlobal)
    ⟨fun ⟨a, b, c, d, e⟩ => ⟨a, b, c, d, e⟩, fun ⟨a, b, c, d, e⟩ => ⟨a, b, c, d, e⟩⟩

instance (names : Conventions) (p : Program) : Decidable (Hygienic names p) :=
  decidable_of_iff
    ((∀ fd ∈ p.plan names, ∀ d ∈ fd.2, HygienicIn names fd.1 fd.2 d) ∧
      ∀ d ∈ p.declarations names, NeverGlobal names p (d.cls names))
    ⟨fun ⟨a, b⟩ => ⟨a, b⟩, fun ⟨a, b⟩ => ⟨a, b⟩⟩

namespace Nested

variable {ctx : Context}

/-! ### Views -/

/-- Nothing is captured. -/
def plainSite : ClosureSite := ⟨"", .dummy, .empty, ""⟩

/-- The view of a call that is no call of a closure. -/
def plainView (avoid : List String) (top : Bool) : View where
  site := plainSite
  avoid := avoid
  top := top
  receiver_hidden x h := by cases h

/-- The view of a call of a closure. -/
def closureView (names : Conventions) (d : Declaration) (ref : Nat) (o : Instance) : View where
  site := d.site names
  hidden := [d.receiver names]
  held := [(ref, o)]
  receiver_hidden _ _ := List.mem_singleton_self _

theorem fits_of {V : View} {body : List Stmt}
    (reads : ∀ x ∈ (Stmt.collectList freeReads body).map Prod.fst, x ∉ V.hidden)
    (binds : ∀ x ∈ Stmt.collectList boundVars body, Allowed ctx V (.bind x))
    (writes : ∀ x ∈ Stmt.collectList written body, Allowed ctx V (.write x))
    (globals : ∀ x ∈ Stmt.collectList declaredGlobal body, Allowed ctx V (.global x)) :
    Fits ctx V (Stmt.collectList effects body) := by
  intro m hm
  have law := effects_law.holdsBlock body m hm
  cases m with
  | read x => exact law.elim (reads x) fun h => (binds x h).1
  | bind x => exact binds x law
  | write x => exact writes x law
  | global x => exact globals x law
  | closure f => trivial

section Fits

variable (hyg : Hygienic ctx.names ctx.program)

include hyg

/-- The classes of closures are avoided everywhere. -/
theorem neverGlobal {x : String} (h : x ∈ classes ctx) : NeverGlobal ctx.names ctx.program x := by
  obtain ⟨d, hd, rfl⟩ := List.mem_map.1 h
  exact hyg.classes d hd

theorem fits_function {fd : FunDef × List Declaration} (h : fd ∈ ctx.program.plan ctx.names) :
    Fits ctx (plainView (fd.2.map (·.cls ctx.names)) false) (fd.1.collect effects) := by
  have mem : fd.1 ∈ ctx.program.funs := (mem_plan h).1
  refine fits_of (fun _ _ => List.not_mem_nil) (fun x _ => ⟨List.not_mem_nil, (nomatch ·)⟩)
    (fun x hx => ⟨List.not_mem_nil, rfl, (nomatch ·), fun hK => ?_⟩)
    fun x hx => ⟨List.not_mem_nil, rfl, fun _ hK => ?_⟩
  · obtain ⟨d, hd, rfl⟩ := List.mem_map.1 hK
    exact (hyg.closures fd h d hd).written hx
  · exact (neverGlobal hyg hK).functions fd.1 mem hx

theorem fits_method {c : ClassDef} (hc : c ∈ ctx.program.classes) {m : FunDef}
    (hm : m ∈ c.methods) :
    Fits ctx (plainView [] false) (m.collect effects) :=
  fits_of (fun _ _ => List.not_mem_nil) (fun _ _ => ⟨List.not_mem_nil, (nomatch ·)⟩)
    (fun _ _ => ⟨List.not_mem_nil, rfl, (nomatch ·), List.not_mem_nil⟩)
    fun _ hx => ⟨List.not_mem_nil, rfl, fun _ hK => (neverGlobal hyg hK).methods c hc m hm hx⟩

theorem fits_main : Fits ctx (plainView [] true) (Stmt.collectList effects ctx.program.stmts) :=
  fits_of (fun _ _ => List.not_mem_nil)
    (fun _ hx => ⟨List.not_mem_nil, fun _ hK => (neverGlobal hyg hK).bound hx⟩)
    (fun _ hx => ⟨List.not_mem_nil, rfl, fun _ hK => (neverGlobal hyg hK).written hx,
      List.not_mem_nil⟩)
    fun _ _ => ⟨List.not_mem_nil, rfl, (nomatch ·)⟩

theorem fits_closure (ok : ctx.program.conversionErrors ctx.names = []) {d : Declaration}
    (hd : d ∈ decls ctx) (ref : Nat) (o : Instance) :
    Fits ctx (closureView ctx.names d ref o) (d.func.collect effects) := by
  obtain ⟨fd, hfd, hmem⟩ := Program.mem_declarations.1 hd
  have own := hyg.closures fd hfd d hmem
  have fresh := d.receiver_fresh ctx.names
  have other {x : String} {xs : List String} (hr : d.receiver ctx.names ∉ xs) (hx : x ∈ xs) :
      x ∉ (closureView ctx.names d ref o).hidden := by
    intro h
    exact hr (List.mem_singleton.1 h ▸ hx)
  refine fits_of (fun x hx => other fresh.1.1 hx)
    (fun x hx => ⟨other fresh.1.2 hx, (nomatch ·)⟩)
    (fun x hx => ⟨other own.receiver hx, ?_, (nomatch ·), List.not_mem_nil⟩)
    fun x hx => ⟨other own.receiver_local hx, ?_, fun _ hK => ?_⟩
  · refine Bindings.contains_eq_false_iff.2 fun hc => ?_
    obtain ⟨hfree, hcap⟩ := FunDef.mem_captures.1 hc
    obtain ⟨hb, hg, hs⟩ := captureType?_isSome_iff.1 hcap
    exact (liftable_of_mem ok hd).unwritten x hfree hb (List.mem_append.2 hs) hg hx
  · refine Bindings.contains_eq_false_iff.2 fun hc => ?_
    obtain ⟨-, hcap⟩ := FunDef.mem_captures.1 hc
    exact (captureType?_isSome_iff.1 hcap).2.1 hx
  · exact (neverGlobal hyg hK).closures d hd hx

end Fits

/-! ### Frames -/

theorem filter_setInit (slot : VarInit) (x : String) (inits : List VarInit) :
    (setInit slot inits).filter (·.name == x) =
      if slot.name = x then slot :: (inits.filter (·.name == x)).tail
      else inits.filter (·.name == x) := by
  induction inits with
  | nil => by_cases h : slot.name = x <;> simp [setInit, h]
  | cons v vs ih =>
    by_cases hv : v.name = slot.name
    · rw [setInit, if_pos hv]
      by_cases h : slot.name = x <;> simp [h, hv]
    · rw [setInit, if_neg hv, List.filter_cons, ih]
      by_cases h : slot.name = x
      · subst h
        simp [hv]
      · simp [h, List.filter_cons]

/-- The variables of a function when slots for its closures have been added. -/
abbrev slots (names : Conventions) (ds : List Declaration) (inits : List VarInit) : List VarInit :=
  ds.foldl (fun inits d => setInit (d.lifted names).slot inits) inits

section Slots

variable (names : Conventions) {x : String} {ds : List Declaration} (inits : List VarInit)

theorem filter_slots_of_not_mem (h : x ∉ ds.map (·.func.name)) :
    (slots names ds inits).filter (·.name == x) = inits.filter (·.name == x) := by
  induction ds generalizing inits with
  | nil => rfl
  | cons d ds ih =>
    simp only [List.map_cons, List.mem_cons, not_or] at h
    have other : (d.lifted names).slot.name ≠ x := Ne.symm h.1
    rw [slots, List.foldl_cons, ih _ h.2, filter_setInit, if_neg other]

theorem filter_slots_of_mem (h : x ∈ ds.map (·.func.name)) :
    ∃ slot : VarInit, slot.value = .none ∧
      (slots names ds inits).filter (·.name == x) = slot :: (inits.filter (·.name == x)).tail := by
  induction ds generalizing inits with
  | nil => cases h
  | cons d ds ih =>
    by_cases hx : x ∈ ds.map (·.func.name)
    · obtain ⟨slot, hnone, hslot⟩ := ih (setInit (d.lifted names).slot inits) hx
      refine ⟨slot, hnone, hslot.trans (congrArg (slot :: ·) ?_)⟩
      rw [filter_setInit]
      split <;> rfl
    · have this : (d.lifted names).slot.name = x :=
        ((List.mem_cons.1 h).resolve_right hx).symm
      refine ⟨(d.lifted names).slot, rfl, ?_⟩
      rw [slots, List.foldl_cons, filter_slots_of_not_mem names _ hx, filter_setInit, if_pos this]

omit names in
/-- The values that the variables give a name. -/
theorem get?_insertAll_inits (b : Bindings Value) (x : String) :
    (b.insertAll (inits.map fun v => (v.name, v.value.toValue))).get? x =
      ((inits.filter (·.name == x)).getLast?.map (·.value.toValue)).or (b.get? x) := by
  rw [Bindings.get?_insertAll, List.filter_map, List.getLast?_map, Option.map_map]
  rfl

end Slots

/-- Both runs start a call of a function with the same variables. -/
theorem function_frame {names : Conventions} {f : FunDef} {ds : List Declaration}
    (hyg : ∀ d ∈ ds, HygienicIn names f ds d) (args : List Value) (x : String) :
    ((f.converted names ds).frame args).vars.get? x =
      (Code.frame ⟨f, ds, []⟩ args).vars.get? x := by
  have target : ((f.converted names ds).frame args).vars.get? x =
      (((slots names ds f.inits).filter (·.name == x)).getLast?.map (·.value.toValue)).or
        ((Bindings.empty.insertAll ((f.params.map (·.name)).zip args)).get? x) := by
    rw [FunDef.frame, Bindings.ofList, Bindings.insertAll_append, get?_insertAll_inits]
    rfl
  have source : (Code.frame ⟨f, ds, []⟩ args).vars =
      ((Bindings.empty.insertAll ((f.params.map (·.name)).zip args)).insertAll
        (f.inits.map fun v => (v.name, v.value.toValue))).insertAll
          (ds.map fun d => (d.func.name, .none)) := by
    rw [Code.frame, Bindings.ofList, List.append_nil, Bindings.insertAll_append,
      Bindings.insertAll_append]
  have names_eq : (ds.map fun d => (d.func.name, Value.none)).map Prod.fst =
      ds.map (·.func.name) := by
    rw [List.map_map]
    rfl
  rw [target, source]
  by_cases hx : x ∈ ds.map (·.func.name)
  · -- a closure has the name, so the variable starts with `None` in both runs
    obtain ⟨slot, hnone, hslot⟩ := filter_slots_of_mem names f.inits hx
    obtain ⟨d, hd, rfl⟩ := List.mem_map.1 hx
    have last : (((f.inits.filter (·.name == d.func.name)).tail.getLast?.getD slot).value).toValue =
        Value.none := by
      cases htail : (f.inits.filter (·.name == d.func.name)).tail.getLast? with
      | none => rw [Option.getD_none, hnone]; rfl
      | some v => rw [Option.getD_some, (hyg d hd).slot v htail]; rfl
    rw [hslot, List.getLast?_cons, Option.map_some, last]
    exact (Bindings.get?_insertAll_const (names_eq ▸ hx) (by simp)).symm
  · rw [filter_slots_of_not_mem names f.inits hx]
    exact ((Bindings.get?_insertAll_of_not_mem (names_eq ▸ hx)).trans
      (get?_insertAll_inits _ _ _)).symm

/-- A call of a closure starts with its captures among its variables in one run, and with its object
as the receiver in the other. -/
theorem closure_frame {names : Conventions} {d : Declaration} {o : Instance}
    (ho : o.fields.names = d.captures.names) (ref : Nat) (args : List Value) :
    FrameRel ctx (closureView names d ref o) [] (Code.frame ⟨d.func, [], o.fields.entries⟩ args)
      ((callMethod (d.redirected names) (d.cls names) (d.receiver names) names).frame
        (.object ref :: args)) := by
  have nodup : o.fields.names.Nodup := ho ▸ d.nodup_captures
  have captured (x : String) : (closureView names d ref o).site.isCaptured x [] =
      o.fields.contains x := by
    rw [isCaptured_nil, Bool.eq_iff_iff, Bindings.contains_iff, Bindings.contains_iff, ho]
    rfl
  -- the parameters and locals, which both frames have
  let own : List (String × Value) := (d.func.params.map (·.name)).zip args ++
    d.func.inits.map fun v => (v.name, v.value.toValue)
  have own_names {x : String} (hx : x ∈ own.map Prod.fst) : x ∈ d.func.binders := by
    rw [List.map_append, List.mem_append, List.map_map] at hx
    refine List.mem_append.2 (hx.imp (fun h => ?_) id)
    obtain ⟨p, hp, rfl⟩ := List.mem_map.1 h
    exact (List.of_mem_zip hp).1
  have source : (Code.frame ⟨d.func, [], o.fields.entries⟩ args).vars =
      (Bindings.empty.insertAll own).insertAll o.fields.entries := by
    rw [Code.frame, Bindings.ofList, List.map_nil, List.append_nil, Bindings.insertAll_append]
  have target : ((callMethod (d.redirected names) (d.cls names) (d.receiver names) names).frame
      (.object ref :: args)).vars =
        (Bindings.empty.insert (d.receiver names) (.object ref)).insertAll own := rfl
  refine ⟨⟨rfl, fun x hx hc => ?_, fun x hc => ?_⟩, fun _ h => (List.not_mem_nil h).elim⟩
  · have other : x ≠ d.receiver names := fun e => hx (e ▸ List.mem_singleton_self _)
    have notCap : x ∉ o.fields.entries.map Prod.fst :=
      Bindings.contains_eq_false_iff.1 ((captured x).symm.trans hc)
    rw [source, target, Bindings.get?_insertAll_of_not_mem notCap, Bindings.get?_insertAll,
      Bindings.get?_insertAll, Bindings.get?_insert_of_ne _ other]
  · have cap : x ∈ o.fields.names := Bindings.contains_iff.1 ((captured x).symm.trans hc)
    obtain ⟨v, hv⟩ := Bindings.exists_get?_of_mem cap
    refine ⟨v, (ref, o), List.mem_singleton_self _, ?_, ?_, hv⟩
    · have recorded : (Bindings.ofList o.fields.entries).get? x = some v := by
        rw [Bindings.get?, Bindings.entries_ofList nodup]
        exact hv
      exact (congrArg (Bindings.get? · x) source).trans
        ((Bindings.get?_insertAll_of_mem cap).trans recorded)
    · refine (congrArg (Bindings.get? · (d.receiver names)) target).trans ?_
      refine (Bindings.get?_insertAll_of_not_mem fun h => ?_).trans
        (Bindings.get?_insert_self _ _ _)
      exact (d.receiver_fresh names).2 (own_names h)

end Nested

end FlatClosure

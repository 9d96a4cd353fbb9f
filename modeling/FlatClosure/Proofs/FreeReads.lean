import FlatClosure.Proofs.Restoring

/-!
# The free names of a function

What `collectReads` answers, said in terms of what is met on the walk through the body
(`FunDef.events`) and of the reads that stand in it, each with the comprehension variables around it
(`scopedReads`).

Reading fails at the first closure, lambda expression or construction of the walk.  A body without
them has the names that are read at least once where no comprehension around binds them.  They are
listed in the order of the first such read (`firstRead`), with its position.

* `Collector.Plain.law` : what a plain collector takes from a body is what it takes along the walk.
* `FunDef.mem_boundVars_iff` : the variables bound in a body without lambda expressions are those of
  its comprehensions.
* `ListsFree.note` : one more read on the walk; `ListsFree.foldl` : all of them.
* `free_reads_collected` : **reading a function is the analysis of its free names.**
-/

namespace FlatClosure

variable {α : Type}

/-! ### Collecting along a walk -/

/-- What a collector takes from something met on a walk. -/
def Collector.take (C : Collector α) : Event → List α
  | .stmt s => C.stmt s
  | .expr e => C.expr e
  | _ => []

/-- The collector takes nothing from a write, and from a scope just what stands in it. -/
structure Collector.Plain (C : Collector α) : Prop where
  write : ∀ value x, C.write value x = []
  scope : ∀ x xs, C.scope x xs = xs

/-- A walk enters closures and a collector does not; where there are none, the two agree. -/
theorem Collector.Plain.law {C : Collector α} (h : C.Plain) :
    WalkLaw fun es part => part closures = [] → part C = es.flatMap C.take where
  nil _ := rfl
  append ha hb flat := by
    rw [List.append_eq_nil_iff] at flat
    simp only [List.flatMap_append, ← ha flat.1, ← hb flat.2]
  expr e _ := by simp [Collector.take]
  stmt s _ := by simp [Collector.take]
  write value x _ := by simp [Collector.take, h.write]
  scope x es a ha flat := by
    have inner : a C = es.flatMap C.take := ha flat
    simp [Collector.take, h.scope, inner]
  closure f es flat := by cases flat

theorem Collector.Plain.collect {C : Collector α} (h : C.Plain) {f : FunDef}
    (flat : f.closures = []) : f.collect C = f.events.flatMap C.take := by
  rw [f.events_eq]
  exact h.law.walksBlock f.body flat

theorem declaredGlobal_plain : declaredGlobal.Plain := ⟨fun _ _ => rfl, fun _ _ => rfl⟩

theorem declaredNonlocal_plain : declaredNonlocal.Plain := ⟨fun _ _ => rfl, fun _ _ => rfl⟩

theorem mem_take_declaredGlobal {x : String} {e : Event} :
    x ∈ declaredGlobal.take e ↔ e = .stmt (.global x) := by
  cases e with
  | stmt s => cases s <;> simp [Collector.take, declaredGlobal, eq_comm]
  | _ => simp [Collector.take, declaredGlobal]

theorem mem_take_declaredNonlocal {x : String} {e : Event} :
    x ∈ declaredNonlocal.take e ↔ e = .stmt (.nonlocal x) := by
  cases e with
  | stmt s => cases s <;> simp [Collector.take, declaredNonlocal, eq_comm]
  | _ => simp [Collector.take, declaredNonlocal]

/-! ### The variables of comprehensions -/

/-- The variables of comprehensions, taken from the comprehensions themselves. -/
def comprehensionVars : Collector String where
  expr
    | .comprehension _ _ x _ _ => [x]
    | _ => []

theorem comprehensionVars_plain : comprehensionVars.Plain := ⟨fun _ _ => rfl, fun _ _ => rfl⟩

theorem mem_take_comprehensionVars {x : String} {e : Event} :
    x ∈ comprehensionVars.take e ↔ ∃ k a it c, e = .expr (.comprehension k a x it c) := by
  cases e with
  | expr e => cases e <;> simp [Collector.take, comprehensionVars, eq_comm]
  | _ => simp [Collector.take, comprehensionVars]

/-- The variables bound in the part are those of its comprehensions, unless there is a lambda
expression. -/
def BoundByComprehensions (part : Part) : Prop :=
  part lambdas = [] → ∀ x, x ∈ part boundVars ↔ x ∈ part comprehensionVars

namespace BoundByComprehensions

theorem append {a b : Part} (ha : BoundByComprehensions a) (hb : BoundByComprehensions b) :
    BoundByComprehensions fun C => a C ++ b C := by
  intro h x
  rw [List.append_eq_nil_iff] at h
  rw [List.mem_append, List.mem_append, ha h.1 x, hb h.2 x]

/-- A comprehension itself names the variable that its scope binds. -/
theorem comprehension {k : Collection} {e it : Expr} {x : String} {c : Option Expr} {a b : Part}
    (ha : BoundByComprehensions a) (hb : BoundByComprehensions b) :
    BoundByComprehensions fun C =>
      C.expr (.comprehension k e x it c) ++ a C ++ C.scope x (b C) := by
  intro h y
  have parts : a lambdas = [] ∧ b lambdas = [] := List.append_eq_nil_iff.1 h
  have ha := ha parts.1 y
  have hb := hb parts.2 y
  show y ∈ a boundVars ++ x :: b boundVars ↔
    y ∈ [x] ++ a comprehensionVars ++ b comprehensionVars
  grind

end BoundByComprehensions

mutual

theorem Expr.boundByComprehensions (e : Expr) : BoundByComprehensions fun C => e.collect C := by
  have node {e : Expr} {a : Part} (ha : BoundByComprehensions a)
      (h : comprehensionVars.expr e = []) : BoundByComprehensions fun C => C.expr e ++ a C := by
    refine .append (fun _ x => ?_) ha
    show x ∈ [] ↔ x ∈ comprehensionVars.expr e
    rw [h]
  cases e with
  | literal | id | construct => exact fun _ _ => Iff.rfl
  | unary _ a | builtin1 _ a | field a _ => exact node a.boundByComprehensions rfl
  | binary _ l r | builtin2 _ l r | index l r =>
    exact (node l.boundByComprehensions rfl).append r.boundByComprehensions
  | call f args | methodCall f _ args =>
    exact (node f.boundByComprehensions rfl).append (Expr.boundByComprehensionsList args)
  | list es | set es | tuple es => exact node (Expr.boundByComprehensionsList es) rfl
  | comprehension _ e x it c =>
    exact .comprehension it.boundByComprehensions
      (e.boundByComprehensions.append (Expr.boundByComprehensionsOption c))
  | ifElse c t e =>
    exact ((node c.boundByComprehensions rfl).append t.boundByComprehensions).append
      e.boundByComprehensions
  | lambda => exact fun h => by cases h

theorem Expr.boundByComprehensionsList (es : List Expr) :
    BoundByComprehensions fun C => Expr.collectList C es := by
  cases es with
  | nil => exact fun _ _ => Iff.rfl
  | cons e es => exact e.boundByComprehensions.append (Expr.boundByComprehensionsList es)

theorem Expr.boundByComprehensionsOption (c : Option Expr) :
    BoundByComprehensions fun C => Expr.collectOption C c := by
  cases c with
  | none => exact fun _ _ => Iff.rfl
  | some e => exact e.boundByComprehensions

end

theorem boundByComprehensions_law : BlockLaw BoundByComprehensions where
  nil _ _ := Iff.rfl
  append := .append
  whole := Expr.boundByComprehensions
  stmt _ _ _ := Iff.rfl
  write _ _ _ _ := Iff.rfl

theorem FunDef.mem_boundVars_iff {f : FunDef} (flat : f.closures = [])
    (simple : f.collect lambdas = []) {x : String} :
    x ∈ f.collect boundVars ↔ ∃ k e it c, .expr (.comprehension k e x it c) ∈ f.events := by
  have named : x ∈ f.collect boundVars ↔ x ∈ f.collect comprehensionVars :=
    boundByComprehensions_law.holdsBlock f.body simple x
  rw [named, comprehensionVars_plain.collect flat, List.mem_flatMap]
  constructor
  · rintro ⟨ev, hev, hx⟩
    obtain ⟨k, e, it, c, rfl⟩ := mem_take_comprehensionVars.1 hx
    exact ⟨k, e, it, c, hev⟩
  · rintro ⟨k, e, it, c, hev⟩
    exact ⟨_, hev, mem_take_comprehensionVars.2 ⟨k, e, it, c, rfl⟩⟩

/-! ### The first obstacle -/

/-- The error of a closure, lambda expression or construction in the function `owner`. -/
def Event.obstacle? (owner : FunDef) : Event → Option ConversionError
  | .stmt (.closure g) => some (.nestedClosure g.name owner.name owner.span g.span)
  | .expr (.lambda _ _ _ s) => some (.lambda owner.name s)
  | .expr (.construct c s) => some (.unloweredConstruct c owner.name s)
  | _ => none

theorem obstacles_walk (owner : FunDef) : WalkLaw fun es part =>
    es.findSome? (Event.obstacle? owner) = (part (obstacles owner)).head? where
  nil := rfl
  append ha hb := by rw [List.findSome?_append, List.head?_append, ha, hb]
  expr e := by cases e <;> rfl
  stmt s := by cases s <;> rfl
  write _ _ := rfl
  scope x es a ha := by
    have inner : es.findSome? (Event.obstacle? owner) = (a (obstacles owner)).head? := ha
    show (es ++ [Event.exit x]).findSome? (Event.obstacle? owner) = (a (obstacles owner)).head?
    rw [List.findSome?_append, inner]
    exact Option.or_none
  closure _ _ := rfl

theorem FunDef.obstacles_eq_nil_iff (f : FunDef) : f.collect (obstacles f) = [] ↔
    f.closures = [] ∧ f.collect lambdas = [] ∧ f.collect constructs = [] :=
  (obstacles_law f).holdsBlock f.body

theorem FunDef.head?_obstacles (f : FunDef) :
    (f.collect (obstacles f)).head? = f.events.findSome? (Event.obstacle? f) := by
  rw [f.events_eq]
  exact ((obstacles_walk f).walksBlock f.body).symm

/-- The body has no closure, lambda expression or construction in it, however deep. -/
structure Readable (f : FunDef) : Prop where
  closures : ∀ g, .stmt (.closure g) ∉ f.events
  lambdas : ∀ ps ty b s, .expr (.lambda ps ty b s) ∉ f.events
  constructs : ∀ c s, .expr (.construct c s) ∉ f.events

theorem readable_iff {f : FunDef} :
    Readable f ↔ f.events.findSome? (Event.obstacle? f) = none := by
  rw [List.findSome?_eq_none_iff]
  constructor
  · intro h e he
    cases e with
    | stmt s =>
      cases s with
      | closure g => exact absurd he (h.closures g)
      | _ => rfl
    | expr e =>
      cases e with
      | lambda ps ty b s => exact absurd he (h.lambdas ps ty b s)
      | construct c s => exact absurd he (h.constructs c s)
      | _ => rfl
    | _ => rfl
  · intro h
    refine ⟨fun g he => ?_, fun ps ty b s he => ?_, fun c s he => ?_⟩ <;> cases h _ he

/-! ### The first free reads -/

/-- The read of a name. -/
def Event.read? : Event → Option (String × Span)
  | .expr (.id x s) => some (x, s)
  | _ => none

/-- The reads of a body without closures are those met on the walk, in the same order. -/
theorem scopedReads_walk : WalkLaw fun es part =>
    part closures = [] → (part scopedReads).map ScopedRead.read = es.filterMap Event.read? where
  nil _ := rfl
  append ha hb flat := by
    rw [List.append_eq_nil_iff] at flat
    rw [List.map_append, List.filterMap_append, ha flat.1, hb flat.2]
  expr e _ := by cases e <;> rfl
  stmt s _ := by cases s <;> rfl
  write _ _ _ := rfl
  scope x es a ha flat := by
    have inner : (a scopedReads).map ScopedRead.read = es.filterMap Event.read? := ha flat
    show ((a scopedReads).map fun r => { r with scope := r.scope ++ [x] }).map ScopedRead.read =
      (es ++ [Event.exit x]).filterMap Event.read?
    rw [List.map_map, List.filterMap_append, ← inner]
    exact (List.append_nil _).symm
  closure _ _ flat := by cases flat

/-- The place of the first free read of a name. -/
def firstRead (rs : List ScopedRead) (x : String) : Nat :=
  rs.findIdx fun r => r.name == x && r.isFree

theorem ScopedRead.isFree_iff {r : ScopedRead} : r.isFree = true ↔ r.name ∉ r.scope := by
  simp [ScopedRead.isFree]

/-- Note a read, if it is free. -/
def noteFree (b : Bindings Span) (r : ScopedRead) : Bindings Span :=
  if r.isFree then noteRead b r.read else b

/-- The bindings list the names that are read free, each with the position of its first free read,
in the order of these reads. -/
structure ListsFree (rs : List ScopedRead) (b : Bindings Span) : Prop where
  mem : ∀ x, x ∈ b.names ↔ ∃ r ∈ rs, r.name = x ∧ x ∉ r.scope
  nodup : b.names.Nodup
  ordered : b.names.Pairwise fun x y => firstRead rs x < firstRead rs y
  first : ∀ x ∈ b.names, ∃ r, rs[firstRead rs x]? = some r ∧ r.name = x ∧ x ∉ r.scope ∧
    b.get? x = some r.span

namespace ListsFree

variable {rs : List ScopedRead} {b : Bindings Span} {x : String} {r : ScopedRead}

theorem empty : ListsFree [] .empty where
  mem x := by simp
  nodup := by simp
  ordered := by simp
  first x h := by simp at h

theorem firstRead_lt (h : ListsFree rs b) (hx : x ∈ b.names) : firstRead rs x < rs.length := by
  obtain ⟨r, hr, -⟩ := h.first x hx
  exact (List.getElem?_eq_some_iff.1 hr).1

/-- The first free read of a name that is listed stays the first, whatever follows. -/
theorem firstRead_append (h : ListsFree rs b) (hx : x ∈ b.names) (rs' : List ScopedRead) :
    firstRead (rs ++ rs') x = firstRead rs x := by
  have found : rs.findIdx (fun r => r.name == x && r.isFree) < rs.length := h.firstRead_lt hx
  rw [firstRead, List.findIdx_append, if_pos found]
  rfl

/-- A free read of a name that is not listed is its first one. -/
theorem firstRead_new (h : ListsFree rs b) (hr : r.name ∉ b.names) (free : r.isFree = true) :
    firstRead (rs ++ [r]) r.name = rs.length := by
  have before : rs.findIdx (fun q => q.name == r.name && q.isFree) = rs.length := by
    rw [List.findIdx_eq_length]
    intro q hq
    refine Bool.eq_false_iff.2 fun hfree => hr ?_
    rw [Bool.and_eq_true, beq_iff_eq] at hfree
    exact (h.mem _).2 ⟨q, hq, hfree.1, hfree.1 ▸ ScopedRead.isFree_iff.1 hfree.2⟩
  simp [firstRead, List.findIdx_append, before, free]

/-- A read that is not free, or of a name that is listed already, adds nothing. -/
theorem skip (h : ListsFree rs b) (hr : r.isFree = true → r.name ∈ b.names) :
    ListsFree (rs ++ [r]) b where
  mem x := by
    rw [h.mem]
    constructor
    · rintro ⟨q, hq, hx⟩
      exact ⟨q, List.mem_append_left _ hq, hx⟩
    · rintro ⟨q, hq, rfl, free⟩
      rcases List.mem_append.1 hq with hq | hq
      · exact ⟨q, hq, rfl, free⟩
      · obtain rfl := List.mem_singleton.1 hq
        exact (h.mem _).1 (hr (ScopedRead.isFree_iff.2 free))
  nodup := h.nodup
  ordered := by
    refine h.ordered.imp_of_mem fun {x y} hx hy lt => ?_
    rwa [h.firstRead_append hx, h.firstRead_append hy]
  first x hx := by
    obtain ⟨q, hq, rest⟩ := h.first x hx
    refine ⟨q, ?_, rest⟩
    rw [h.firstRead_append hx, List.getElem?_append_left (h.firstRead_lt hx), hq]

/-- A free read of a new name puts the name last. -/
theorem add (h : ListsFree rs b) (free : r.isFree = true) (hr : r.name ∉ b.names) :
    ListsFree (rs ++ [r]) (b.insert r.name r.span) := by
  have names : (b.insert r.name r.span).names = b.names ++ [r.name] := by
    rw [Bindings.names_insert, if_neg hr]
  have known {x : String} (hx : x ∈ b.names) : x ≠ r.name := fun e => hr (e ▸ hx)
  constructor
  · intro x
    rw [names, List.mem_append, List.mem_singleton, h.mem]
    constructor
    · rintro (⟨q, hq, hx⟩ | rfl)
      · exact ⟨q, List.mem_append_left _ hq, hx⟩
      · exact ⟨r, by simp, rfl, ScopedRead.isFree_iff.1 free⟩
    · rintro ⟨q, hq, rfl, hx⟩
      rcases List.mem_append.1 hq with hq | hq
      · exact .inl ⟨q, hq, rfl, hx⟩
      · exact .inr (List.mem_singleton.1 hq ▸ rfl)
  · exact Bindings.nodup_names_insert h.nodup _ _
  · rw [names, List.pairwise_append]
    refine ⟨?_, by simp, ?_⟩
    · refine h.ordered.imp_of_mem fun {x y} hx hy lt => ?_
      rwa [h.firstRead_append hx, h.firstRead_append hy]
    · intro x hx y hy
      rw [List.mem_singleton.1 hy, h.firstRead_new hr free, h.firstRead_append hx]
      exact h.firstRead_lt hx
  · intro x hx
    rw [names, List.mem_append, List.mem_singleton] at hx
    rcases hx with hx | rfl
    · obtain ⟨q, hq, name, scope, value⟩ := h.first x hx
      refine ⟨q, ?_, name, scope, ?_⟩
      · rw [h.firstRead_append hx, List.getElem?_append_left (h.firstRead_lt hx), hq]
      · rw [Bindings.get?_insert_of_ne b (known hx), value]
    · refine ⟨r, ?_, rfl, ScopedRead.isFree_iff.1 free, Bindings.get?_insert_self ..⟩
      rw [h.firstRead_new hr free, List.getElem?_concat_length]

/-- One more read on the walk. -/
theorem note (h : ListsFree rs b) (r : ScopedRead) : ListsFree (rs ++ [r]) (noteFree b r) := by
  unfold noteFree noteRead
  split
  · rename_i free
    split
    · rename_i known
      exact h.skip fun _ => Bindings.contains_iff.1 known
    · rename_i new
      exact h.add free fun hr => new (Bindings.contains_iff.2 hr)
  · rename_i bound
    exact h.skip fun free => absurd free bound

/-- All reads of a walk. -/
theorem foldl (h : ListsFree rs b) (rs' : List ScopedRead) :
    ListsFree (rs ++ rs') (rs'.foldl noteFree b) := by
  induction rs' generalizing rs b with
  | nil => simpa using h
  | cons r rs' ih => simpa using ih (h.note r)

end ListsFree

theorem FunDef.listsFree (f : FunDef) : ListsFree (f.collect scopedReads) f.reads.names := by
  have noted : f.reads.names = (f.collect scopedReads).foldl noteFree .empty := by
    show (f.collect freeReads).foldl noteRead .empty = _
    rw [FunDef.collect, Stmt.freeReads_eq, List.foldl_map, List.foldl_filter]
    rfl
  rw [noted]
  exact ListsFree.empty.foldl (f.collect scopedReads)

/-! ### The answer -/

/-- What reading a function has to answer. -/
structure FreeReads (f : FunDef) (r : Reads) : Prop where
  /-- The reads of the function are all that are met on the walk. -/
  walk : (f.collect scopedReads).map ScopedRead.read = f.events.filterMap Event.read?
  names : ListsFree (f.collect scopedReads) r.names
  globals : ∀ x, x ∈ r.globals ↔ .stmt (.global x) ∈ f.events
  nonlocals : ∀ x, x ∈ r.nonlocals ↔ .stmt (.nonlocal x) ∈ f.events
  bound : ∀ x, x ∈ r.bound ↔ ∃ k e it c, .expr (.comprehension k e x it c) ∈ f.events
  distinct : r.globals.Nodup ∧ r.nonlocals.Nodup ∧ r.bound.Nodup

theorem collectReads_eq_ok {f : FunDef} {r : Reads} :
    collectReads f = .ok r ↔ f.collect (obstacles f) = [] ∧ f.reads = r := by
  rw [collectReads_eq, okUnless_eq_ok]

theorem collectReads_eq_error {f : FunDef} {e : ConversionError} :
    collectReads f = .error e ↔ f.events.findSome? (Event.obstacle? f) = some e := by
  rw [collectReads_eq, okUnless_eq_error, f.head?_obstacles]

theorem freeReads_of_collectReads {f : FunDef} {r : Reads} (h : collectReads f = .ok r) :
    FreeReads f r := by
  obtain ⟨clear, rfl⟩ := collectReads_eq_ok.1 h
  obtain ⟨flat, simple, -⟩ := f.obstacles_eq_nil_iff.1 clear
  refine ⟨?_, f.listsFree, fun x => ?_, fun x => ?_, fun x => ?_, ?_, ?_, ?_⟩
  · rw [f.events_eq]
    exact scopedReads_walk.walksBlock f.body flat
  · rw [mem_reads_globals, declaredGlobal_plain.collect flat, List.mem_flatMap]
    simp only [mem_take_declaredGlobal, exists_eq_right]
  · rw [mem_reads_nonlocals, declaredNonlocal_plain.collect flat, List.mem_flatMap]
    simp only [mem_take_declaredNonlocal, exists_eq_right]
  · rw [mem_reads_bound, FunDef.mem_boundVars_iff flat simple]
  all_goals exact nodup_foldl_addName _ List.nodup_nil

/-- **Reading a function is the analysis of its free names.**  It succeeds if and only if the body
has no closure, lambda expression or construction in it; otherwise the error is that of the first of
them on the walk.  On success the names are those that are read somewhere outside of all
comprehensions that bind them, each once, in the order of the first such read and with its position;
the other lists hold the names declared global, declared nonlocal and bound by comprehensions. -/
theorem free_reads_collected (f : FunDef) :
    ((∃ r, collectReads f = .ok r) ↔ Readable f) ∧
      (∀ e, collectReads f = .error e ↔ f.events.findSome? (Event.obstacle? f) = some e) ∧
      ∀ r, collectReads f = .ok r → FreeReads f r := by
  refine ⟨?_, fun e => collectReads_eq_error, fun r => freeReads_of_collectReads⟩
  rw [readable_iff, ← f.head?_obstacles, List.head?_eq_none_iff]
  simp [collectReads_eq_ok]

/-- A function with a comprehension in another one that binds the same name, which is also read
outside of both. -/
def nestedReads : FunDef where
  name := "g"
  params := []
  ret := .int
  inits := []
  body := [
    .global "t",
    .assign "t" (.comprehension .list
      (.comprehension .list (.binary .add (.id "x" ⟨0, 11, 12⟩) (.id "k" ⟨0, 15, 16⟩)) "x"
        (.id "x" ⟨0, 26, 27⟩) none)
      "x" (.id "xs" ⟨0, 38, 40⟩) (some (.id "x" ⟨0, 44, 45⟩))),
    .ret (some (.binary .add (.id "k" ⟨0, 54, 55⟩) (.id "x" ⟨0, 58, 59⟩)))]
  span := .dummy

theorem free_reads_collected_nested :
    ∃ r, collectReads nestedReads = .ok r ∧ Readable nestedReads ∧ FreeReads nestedReads r ∧
      r.names.entries = [("xs", ⟨0, 38, 40⟩), ("k", ⟨0, 15, 16⟩), ("x", ⟨0, 58, 59⟩)] ∧
      r.globals = ["t"] ∧ r.bound = ["x"] := by
  have h : collectReads nestedReads = .ok _ := rfl
  obtain ⟨succeeds, -, reads⟩ := free_reads_collected nestedReads
  exact ⟨_, h, succeeds.1 ⟨_, h⟩, reads _ h, rfl, rfl, rfl⟩

end FlatClosure

import FlatClosure.Proofs.FreeReads

/-!
# Writes to captured variables

A closure that can be read has a body with its captured variables read from the receiver, unless it
writes one of them.  Nothing else stands in the way, and the error is that of the first such write,
positioned at the value that the statement assigns or at the iterable of the loop.

A write belongs to the statement that makes it (`Stmt.writes`), and the writes of a function are
those of the statements met on the walk (`FunDef.writes`).  The traversal that rejects them comes to
a name only after the value; `Stmt.collect_performed` says that the order is the same.

* `FunDef.names_writes` : the writes are the names that are bound on the walk, in the same order.
* `rejections_eq` : what is rejected in a function that can be read.
* `captured_writes_rejected` : **the body is rejected exactly for the first write to a captured
  variable.**
-/

namespace FlatClosure

/-! ### Writes -/

/-- A name that is written, with the expression whose value, or items, it takes. -/
structure Write where
  name : String
  value : Expr

/-- The name that a target writes. -/
def Target.name? : Target → Option String
  | .id x => some x
  | _ => none

/-- The names that a statement writes itself: assigned names, names among the targets of a
destructuring assignment, and the variable of a loop. -/
def Stmt.writes : Stmt → List Write
  | .assign x v => [⟨x, v⟩]
  | .unpack slots v => (slots.filterMap (·.target.name?)).map (⟨·, v⟩)
  | .forEach x it _ _ => [⟨x, it⟩]
  | _ => []

/-- The writes of a statement met on a walk. -/
def Event.writes : Event → List Write
  | .stmt s => s.writes
  | _ => []

/-- The writes of a function, in the order of the walk. -/
def FunDef.writes (f : FunDef) : List Write := f.events.flatMap Event.writes

/-- The writes, where the statements stand that make them. -/
def announcedWrites : Collector Write where
  stmt := Stmt.writes

/-- The writes, where the names stand that are written. -/
def performedWrites : Collector Write where
  write v x := [⟨x, v⟩]

@[simp] theorem announcedWrites_stmt (s : Stmt) : announcedWrites.stmt s = s.writes := rfl

@[simp] theorem announcedWrites_write (v : Expr) (x : String) : announcedWrites.write v x = [] :=
  rfl

@[simp] theorem performedWrites_stmt (s : Stmt) : performedWrites.stmt s = [] := rfl

@[simp] theorem performedWrites_write (v : Expr) (x : String) :
    performedWrites.write v x = [⟨x, v⟩] := rfl

theorem announcedWrites_plain : announcedWrites.Plain := ⟨fun _ _ => rfl, fun _ _ => rfl⟩

theorem announcedWrites_onlyStmts : announcedWrites.OnlyStmts := ⟨fun _ => rfl, fun _ => rfl⟩

theorem performedWrites_onlyStmts : performedWrites.OnlyStmts := ⟨fun _ => rfl, fun _ => rfl⟩

theorem FunDef.writes_eq {f : FunDef} (flat : f.closures = []) :
    f.writes = f.collect announcedWrites := by
  have taken : announcedWrites.take = Event.writes := by
    funext e
    cases e <;> rfl
  rw [announcedWrites_plain.collect flat, taken, FunDef.writes]

section OnlyStmts

variable {α : Type} {C : Collector α}

theorem Collector.OnlyStmts.target (h : C.OnlyStmts) (value : Expr) (t : Target) :
    t.collect C value = t.name?.toList.flatMap (C.write value) := by
  cases t with
  | id x => simp [Target.collect, Target.name?]
  | field o x => simp [Target.collect, Target.name?, h.collect]
  | index o i => simp [Target.collect, Target.name?, h.collect]
  | ignore => rfl

theorem Collector.OnlyStmts.slots (h : C.OnlyStmts) (value : Expr) (slots : List Slot) :
    Slot.collectList C value slots =
      (slots.filterMap (·.target.name?)).flatMap (C.write value) := by
  induction slots with
  | nil => rfl
  | cons s ss ih =>
    rw [Slot.collectList, h.target, ih, List.filterMap_cons]
    cases s.target.name? <;> simp

end OnlyStmts

mutual

/-- The names are written in the order of the statements: an expression writes nothing, and a
statement has its own writes before those of the blocks in it. -/
theorem Stmt.collect_performed (s : Stmt) :
    s.collect performedWrites = s.collect announcedWrites := by
  have a := announcedWrites_onlyStmts
  have p := performedWrites_onlyStmts
  cases s with
  | assign x v => simp [Stmt.collect, a.collect, p.collect, Stmt.writes]
  | unpack slots v =>
    have announced : announcedWrites.write v = fun _ => [] := rfl
    have performed : performedWrites.write v = fun x => [⟨x, v⟩] := rfl
    simp [Stmt.collect, a.collect, p.collect, a.slots, p.slots, Stmt.writes, announced, performed,
      List.map_eq_flatMap]
  | ret v =>
    have announced := a.law.holdsOption v
    have performed := p.law.holdsOption v
    simp [Stmt.collect, announced, performed, Stmt.writes]
  | expr e | setField o f v | setIndex o i v =>
    simp [Stmt.collect, a.collect, p.collect, Stmt.writes]
  | ifElse c thn els =>
    simp [Stmt.collect, a.collect, p.collect, Stmt.writes, Stmt.collectList_performed thn,
      Stmt.collectList_performed els]
  | whileLoop c body =>
    simp [Stmt.collect, a.collect, p.collect, Stmt.writes, Stmt.collectList_performed body]
  | forEach x it body els =>
    simp [Stmt.collect, a.collect, p.collect, Stmt.writes, Stmt.collectList_performed body,
      Stmt.collectOption_performed els]
  | pass | nonlocal | global | breakLoop | continueLoop | closure => rfl

theorem Stmt.collectList_performed (ss : List Stmt) :
    Stmt.collectList performedWrites ss = Stmt.collectList announcedWrites ss := by
  cases ss with
  | nil => rfl
  | cons s ss =>
    rw [Stmt.collectList, Stmt.collectList, s.collect_performed, Stmt.collectList_performed ss]

theorem Stmt.collectOption_performed (els : Option (List Stmt)) :
    Stmt.collectOption performedWrites els = Stmt.collectOption announcedWrites els := by
  cases els with
  | none => rfl
  | some ss => exact Stmt.collectList_performed ss

end

/-! ### The order of the walk -/

/-- The name that is written. -/
def Event.bind? : Event → Option String
  | .bind x => some x
  | _ => none

theorem performedWrites_walk : WalkLaw fun es part =>
    part closures = [] → (part performedWrites).map (·.name) = es.filterMap Event.bind? where
  nil _ := rfl
  append ha hb flat := by
    rw [List.append_eq_nil_iff] at flat
    rw [List.map_append, List.filterMap_append, ha flat.1, hb flat.2]
  expr e _ := rfl
  stmt s _ := rfl
  write _ _ _ := rfl
  scope x es a ha flat := by
    have inner : (a performedWrites).map (·.name) = es.filterMap Event.bind? := ha flat
    show (a performedWrites).map (·.name) = (es ++ [Event.exit x]).filterMap Event.bind?
    rw [List.filterMap_append, ← inner]
    exact (List.append_nil _).symm
  closure _ _ flat := by cases flat

theorem FunDef.names_writes {f : FunDef} (flat : f.closures = []) :
    f.writes.map (·.name) = f.events.filterMap Event.bind? := by
  have walk : (f.collect performedWrites).map (·.name) = f.events.filterMap Event.bind? := by
    rw [f.events_eq]
    exact performedWrites_walk.walksBlock f.body flat
  rw [f.writes_eq flat, ← walk, FunDef.collect, FunDef.collect, Stmt.collectList_performed]

/-! ### Rejected bodies -/

/-- The error of a write, if the name is captured. -/
def ClosureSite.refusal? (site : ClosureSite) (w : Write) : Option ConversionError :=
  if site.captures.contains w.name then
    some (.capturedWrite w.name site.closure (w.value.span.orElse site.span))
  else none

theorem rejections_performed (owner : FunDef) (site : ClosureSite) : TreeLaw fun part =>
    part (obstacles owner) = [] →
      part (rejections site) = (part performedWrites).filterMap site.refusal? where
  nil _ := rfl
  append ha hb clear := by
    rw [List.append_eq_nil_iff] at clear
    simp only [List.filterMap_append, ← ha clear.1, ← hb clear.2]
  expr e clear := by
    cases e with
    | lambda | construct => cases clear
    | _ => rfl
  scope _ _ ha := ha
  stmt s clear := by
    cases s with
    | closure g => cases clear
    | _ => rfl
  write v x _ := by
    show (if site.captures.contains x then _ else []) = [⟨x, v⟩].filterMap site.refusal?
    by_cases captured : site.captures.contains x <;> simp [ClosureSite.refusal?, captured]

/-- In a function that can be read nothing but writes is rejected. -/
theorem rejections_eq {f : FunDef} (clear : f.collect (obstacles f) = []) (site : ClosureSite) :
    f.collect (rejections site) = f.writes.filterMap site.refusal? := by
  have flat : f.closures = [] := (f.obstacles_eq_nil_iff.1 clear).1
  rw [f.writes_eq flat, FunDef.collect, FunDef.collect, ← Stmt.collectList_performed]
  exact (rejections_performed f site).holdsBlock f.body clear

theorem ClosureSite.refusal?_eq_none_iff {site : ClosureSite} {w : Write} :
    site.refusal? w = none ↔ w.name ∉ site.captures.names := by
  rw [← Bindings.contains_iff, refusal?]
  split <;> simp [*]

theorem ClosureSite.refusal?_eq_some_iff {site : ClosureSite} {w : Write} {e : ConversionError} :
    site.refusal? w = some e ↔ w.name ∈ site.captures.names ∧
      e = .capturedWrite w.name site.closure
        (if w.value.span.isDummy then site.span else w.value.span) := by
  rw [← Bindings.contains_iff]
  by_cases captured : site.captures.contains w.name
  · simp only [refusal?, captured, if_true, Option.some.injEq, true_and, Span.orElse]
    exact eq_comm
  · simp [refusal?, captured]

/-- **Only writes to captured variables are rejected.**  If a function can be read, then, whatever
is captured and whatever the receiver is called, there is a body with the captured variables read
from the receiver, unless a captured variable is written somewhere in it.  The error is then that
of the first such write on the walk, at the position of the value or iterable in the statement that
makes it, or at that of the closure if the expression has none. -/
theorem captured_writes_rejected {f : FunDef} {reads : Reads} (h : collectReads f = .ok reads)
    (site : ClosureSite) :
    ((∃ e, substituteCaptures site f.body = .error e) ↔
      ∃ w ∈ f.writes, w.name ∈ site.captures.names) ∧
    (∀ e, substituteCaptures site f.body = .error e ↔
      ∃ before w after, f.writes = before ++ w :: after ∧
        (∀ u ∈ before, u.name ∉ site.captures.names) ∧ w.name ∈ site.captures.names ∧
        e = .capturedWrite w.name site.closure
          (if w.value.span.isDummy then site.span else w.value.span)) ∧
    f.writes.map (·.name) = f.events.filterMap Event.bind? := by
  obtain ⟨clear, -⟩ := collectReads_eq_ok.1 h
  have flat : f.closures = [] := (f.obstacles_eq_nil_iff.1 clear).1
  have fails (e : ConversionError) : substituteCaptures site f.body = .error e ↔
      f.writes.findSome? site.refusal? = some e := by
    rw [substituteCaptures_eq, okUnless_eq_error, ← List.head?_filterMap,
      ← rejections_eq clear site]
    rfl
  refine ⟨?_, fun e => ?_, f.names_writes flat⟩
  · have refused (w : Write) : (site.refusal? w).isSome ↔ w.name ∈ site.captures.names := by
      rw [Option.isSome_iff_ne_none, ne_eq, ClosureSite.refusal?_eq_none_iff, Classical.not_not]
    simp only [fails, ← Option.isSome_iff_exists, List.findSome?_isSome_iff, refused]
  · rw [fails, List.findSome?_eq_some_iff]
    simp only [ClosureSite.refusal?_eq_some_iff, ClosureSite.refusal?_eq_none_iff]
    constructor
    · rintro ⟨before, w, after, split, ⟨captured, rfl⟩, earlier⟩
      exact ⟨before, w, after, split, earlier, captured, rfl⟩
    · rintro ⟨before, w, after, split, earlier, captured, rfl⟩
      exact ⟨before, w, after, split, ⟨captured, rfl⟩, earlier⟩

/-- A function that writes `b` at once, and `a` in a loop in a branch: as a target, and as the
variable of another loop. -/
def branchWriter : FunDef where
  name := "g"
  params := []
  ret := .none
  inits := []
  body := [
    .assign "b" (.id "a" ⟨0, 4, 5⟩),
    .ifElse (.id "a" ⟨0, 9, 10⟩)
      [.forEach "i" (.id "xs" ⟨0, 20, 22⟩)
        [.unpack [⟨.field (.id "b" ⟨0, 30, 31⟩) "n", false⟩, ⟨.id "a", true⟩] (.id "i" ⟨0, 40, 41⟩),
          .forEach "a" (.list []) [] none] none]
      []]
  span := ⟨0, 0, 3⟩

theorem captured_writes_rejected_branch :
    ∃ reads, collectReads branchWriter = .ok reads ∧
      (∃ w ∈ branchWriter.writes, w.name ∈ ["a"]) ∧
      substituteCaptures ⟨"g", ⟨0, 0, 3⟩, ⟨[("a", .int)]⟩, "self"⟩ branchWriter.body =
        .error (.capturedWrite "a" "g" ⟨0, 40, 41⟩) ∧
      ∃ body, substituteCaptures ⟨"g", ⟨0, 0, 3⟩, ⟨[("xs", .int)]⟩, "self"⟩ branchWriter.body =
        .ok body := by
  have h : collectReads branchWriter = .ok branchWriter.reads := rfl
  obtain ⟨fails, first, -⟩ :=
    captured_writes_rejected h ⟨"g", ⟨0, 0, 3⟩, ⟨[("a", .int)]⟩, "self"⟩
  have error := (first (.capturedWrite "a" "g" ⟨0, 40, 41⟩)).2
    ⟨[⟨"b", .id "a" ⟨0, 4, 5⟩⟩, ⟨"i", .id "xs" ⟨0, 20, 22⟩⟩], ⟨"a", .id "i" ⟨0, 40, 41⟩⟩,
      [⟨"a", .list []⟩], rfl, by decide, by decide, rfl⟩
  exact ⟨_, h, fails.1 ⟨_, error⟩, error, _, rfl⟩

end FlatClosure

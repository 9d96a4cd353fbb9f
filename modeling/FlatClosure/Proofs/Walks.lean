import FlatClosure.Proofs.Scopes
import FlatClosure.Syntax.Fold

/-!
# Walks and what is recorded of them

A walk meets the events of a tree one after the other, and in the events of a tree every scope that
begins ends again (`WellNested`).  A walk that is given up inside some scopes still ends these
(`cutOff`).

* `VisitLaw.block` : a property of walks and the events met on them, along a block.
* `walk_none`, `walk_some` : **what is recorded of a walk, given up or not.**
* `wellNested_walk` : **every scope that begins on a walk ends, wherever the walk is given up.**
* `Stmt.foldList_folder` : **a rebuilding traversal that replaces nothing is a walk.**
-/

namespace FlatClosure

/-! ### Nested scopes -/

/-- The beginning or the end of a scope. -/
def Event.isScope : Event → Bool
  | .enter _ | .exit _ => true
  | _ => false

/-- Every scope that begins ends again, and the scopes that begin in it end before. -/
inductive WellNested : List Event → Prop
  | nil : WellNested []
  | node {e : Event} : e.isScope = false → WellNested [e]
  | append {es es' : List Event} : WellNested es → WellNested es' → WellNested (es ++ es')
  | scope (x : String) {es : List Event} :
    WellNested es → WellNested (.enter x :: (es ++ [.exit x]))

theorem WellNested.scopes {es : List Event} (h : WellNested es) (xs : List String) :
    WellNested (xs.map .enter ++ es ++ xs.reverse.map .exit) := by
  induction xs with
  | nil => simpa using h
  | cons x xs ih => simpa using ih.scope x

/-- The scopes that are open after an event, innermost first. -/
def Event.scopes (opened : List String) : Event → List String
  | .enter x => x :: opened
  | .exit _ => opened.tail
  | _ => opened

/-- The scopes that are open after events, innermost first. -/
def scopesAfter (opened : List String) (es : List Event) : List String :=
  es.foldl Event.scopes opened

theorem scopesAfter_append (opened : List String) (es es' : List Event) :
    scopesAfter opened (es ++ es') = scopesAfter (scopesAfter opened es) es' := List.foldl_append

theorem Event.scopes_of_isScope {e : Event} (h : e.isScope = false) (opened : List String) :
    e.scopes opened = opened := by
  cases e with
  | enter | exit => cases h
  | _ => rfl

theorem WellNested.scopesAfter_eq {es : List Event} (h : WellNested es) (opened : List String) :
    scopesAfter opened es = opened := by
  induction h generalizing opened with
  | nil => rfl
  | node h => exact Event.scopes_of_isScope h opened
  | append _ _ ih ih' => rw [scopesAfter_append, ih, ih']
  | scope x _ ih =>
    change scopesAfter (x :: opened) (_ ++ [.exit x]) = opened
    rw [scopesAfter_append, ih]
    rfl

/-! ### Walks that are given up -/

/-- The number of events other than beginnings and ends of scopes. -/
def nodes (es : List Event) : Nat := es.countP fun e => !e.isScope

@[simp] theorem nodes_nil : nodes [] = 0 := rfl

@[simp] theorem nodes_append (es es' : List Event) : nodes (es ++ es') = nodes es + nodes es' :=
  List.countP_append

theorem nodes_cons_node {e : Event} (h : e.isScope = false) (es : List Event) :
    nodes (e :: es) = nodes es + 1 := by
  simp [nodes, h]

@[simp] theorem nodes_cons_enter (x : String) (es : List Event) :
    nodes (.enter x :: es) = nodes es := by
  simp [nodes, Event.isScope]

@[simp] theorem nodes_cons_exit (x : String) (es : List Event) :
    nodes (.exit x :: es) = nodes es := by
  simp [nodes, Event.isScope]

@[simp] theorem nodes_map_enter (xs : List String) : nodes (xs.map .enter) = 0 := by
  induction xs with
  | nil => rfl
  | cons x xs ih => simpa using ih

@[simp] theorem nodes_map_exit (xs : List String) : nodes (xs.map .exit) = 0 := by
  induction xs with
  | nil => rfl
  | cons x xs ih => simpa using ih

/-- What is left of events if the walk is given up at number `n`, not counting the beginnings and
ends of scopes: the events up to that one and the ends of the scopes that are open then. -/
def cutOff : Nat → List String → List Event → List Event
  | _, _, [] => []
  | n, opened, .enter x :: es => .enter x :: cutOff n (x :: opened) es
  | n, opened, .exit x :: es => .exit x :: cutOff n opened.tail es
  | 0, opened, e :: _ => e :: opened.map .exit
  | n + 1, opened, e :: es => e :: cutOff n opened es

theorem cutOff_zero_node {e : Event} (h : e.isScope = false) (opened : List String)
    (es : List Event) : cutOff 0 opened (e :: es) = e :: opened.map .exit := by
  cases e with
  | enter | exit => cases h
  | _ => rfl

theorem cutOff_succ_node {e : Event} (h : e.isScope = false) (n : Nat) (opened : List String)
    (es : List Event) : cutOff (n + 1) opened (e :: es) = e :: cutOff n opened es := by
  cases e with
  | enter | exit => cases h
  | _ => rfl

/-- The walk is given up at the event `e`. -/
theorem cutOff_nodes {e : Event} (h : e.isScope = false) (opened : List String)
    (before after : List Event) :
    cutOff (nodes before) opened (before ++ e :: after) =
      before ++ e :: (scopesAfter opened before).map .exit := by
  induction before generalizing opened with
  | nil => exact cutOff_zero_node h opened after
  | cons e' before ih =>
    cases hs : e'.isScope with
    | false =>
      rw [nodes_cons_node hs, List.cons_append, cutOff_succ_node hs, ih]
      change _ = e' :: (before ++ e :: (scopesAfter (e'.scopes opened) before).map .exit)
      rw [Event.scopes_of_isScope hs]
    | true =>
      cases e' with
      | enter x =>
        rw [nodes_cons_enter, List.cons_append, cutOff, ih]
        rfl
      | exit x =>
        rw [nodes_cons_exit, List.cons_append, cutOff, ih]
        rfl
      | _ => cases hs

/-- Events in which every scope ends are cut off, or else what comes after them is. -/
theorem WellNested.cutOff_append {es : List Event} (h : WellNested es) (n : Nat)
    (opened : List String) (rest : List Event) :
    cutOff n opened (es ++ rest) =
      if n < nodes es then cutOff n [] es ++ opened.map .exit
      else es ++ cutOff (n - nodes es) opened rest := by
  induction h generalizing n opened rest with
  | nil => simp
  | @node e h =>
    cases n with
    | zero => simp [nodes_cons_node h, cutOff_zero_node h]
    | succ n => simp [nodes_cons_node h, cutOff_succ_node h]
  | @append es es' _ _ ih ih' =>
    rw [List.append_assoc, ih, ih n [] es', ih', nodes_append]
    by_cases h : n < nodes es
    · rw [if_pos h, if_pos (by omega), if_pos h]
      simp
    · by_cases h' : n - nodes es < nodes es'
      · rw [if_neg h, if_pos h', if_pos (by omega), if_neg h, List.append_assoc]
      · rw [if_neg h, if_neg h', if_neg (by omega), List.append_assoc, Nat.sub_sub]
  | @scope x es _ ih =>
    simp only [List.cons_append, List.append_assoc, cutOff, ih, nodes_cons_enter, nodes_append,
      nodes_cons_exit, nodes_nil, Nat.add_zero]
    split <;> simp

/-- A walk with fewer events comes to its end. -/
theorem WellNested.cutOff_of_le {es : List Event} (h : WellNested es) {n : Nat}
    (hn : nodes es ≤ n) : cutOff n [] es = es := by
  have := h.cutOff_append n [] []
  rwa [if_neg (Nat.not_lt.2 hn), cutOff, List.append_nil] at this

/-- The scopes in which a walk is given up end. -/
theorem WellNested.cutOff_scopes {es : List Event} (h : WellNested es) {n : Nat}
    (hn : n < nodes es) (xs : List String) (ends : List Event) :
    cutOff n [] (xs.map .enter ++ es ++ ends) =
      xs.map .enter ++ cutOff n [] es ++ xs.reverse.map .exit := by
  have enters (opened : List String) (rest : List Event) :
      cutOff n opened (xs.map .enter ++ rest) =
        xs.map .enter ++ cutOff n (xs.reverse ++ opened) rest := by
    induction xs generalizing opened with
    | nil => rfl
    | cons x xs ih => simpa [cutOff] using ih (x :: opened)
  rw [List.append_assoc, enters, h.cutOff_append, if_pos hn, List.append_nil, List.append_assoc]

theorem wellNested_cutOff {es : List Event} (h : WellNested es) (n : Nat) :
    WellNested (cutOff n [] es) := by
  induction h generalizing n with
  | nil => exact .nil
  | node h =>
    cases n with
    | zero =>
      rw [cutOff_zero_node h]
      exact .node h
    | succ n =>
      rw [cutOff_succ_node h]
      exact .node h
  | append h h' ih ih' =>
    rw [h.cutOff_append]
    split
    · simpa using ih n
    · exact h.append (ih' _)
  | scope x h ih =>
    rw [cutOff, h.cutOff_append]
    split
    · exact (ih n).scope x
    · exact h.scope x

/-! ### Walks through trees -/

section Trees

variable {m : Type → Type} [Monad m] [MonadFinally m]

/-- A property of walks and the events met on them that passes to longer walks. -/
structure VisitLaw (V : Visitor m) (P : m Unit → List Event → Prop) : Prop where
  nil : P (pure ()) []
  append : ∀ {x y : m Unit} {es es' : List Event}, P x es → P y es' →
    P (x >>= fun _ => y) (es ++ es')
  stmt : ∀ s, P (V.stmt s) [.stmt s]
  expr : ∀ e, P (V.expr e) [.expr e]
  write : ∀ x, P (V.write x) [.bind x]
  within : ∀ xs {x : m Unit} {es : List Event}, P x es →
    P (V.within xs x) (xs.map .enter ++ es ++ xs.reverse.map .exit)

namespace VisitLaw

variable {V : Visitor m} {P : m Unit → List Event → Prop}

theorem two (h : VisitLaw V P) {x y z : m Unit} {es es' es'' : List Event} (hx : P x es)
    (hy : P y es') (hz : P z es'') :
    P (x >>= fun _ => y >>= fun _ => z) (es ++ es' ++ es'') := by
  rw [List.append_assoc]
  exact h.append hx (h.append hy hz)

theorem three (h : VisitLaw V P) {x y z w : m Unit} {es es' es'' es''' : List Event} (hx : P x es)
    (hy : P y es') (hz : P z es'') (hw : P w es''') :
    P (x >>= fun _ => y >>= fun _ => z >>= fun _ => w) (es ++ es' ++ es'' ++ es''') := by
  rw [List.append_assoc]
  exact h.two hx hy (h.append hz hw)

mutual

theorem visit (h : VisitLaw V P) (e : Expr) : P (e.visit V) e.events := by
  cases e with
  | literal | id | construct => exact h.expr _
  | unary _ a | builtin1 _ a | field a _ => exact h.append (h.expr _) (h.visit a)
  | binary _ l r | builtin2 _ l r | index l r => exact h.two (h.expr _) (h.visit l) (h.visit r)
  | call f args | methodCall f _ args => exact h.two (h.expr _) (h.visit f) (h.visitList args)
  | list es | set es | tuple es => exact h.append (h.expr _) (h.visitList es)
  | comprehension k e x it c =>
    have inner := h.within [x] (h.append (h.visit e) (h.visitOption c))
    simpa [Expr.visit, Expr.events] using
      h.two (h.expr (.comprehension k e x it c)) (h.visit it) inner
  | ifElse c t e => exact h.three (h.expr _) (h.visit c) (h.visit t) (h.visit e)
  | lambda ps ty b s =>
    have inner := h.within (ps.map (·.name)) (h.visit b)
    simpa [Expr.visit, Expr.events, Function.comp_def] using
      h.append (h.expr (.lambda ps ty b s)) inner

theorem visitList (h : VisitLaw V P) (es : List Expr) :
    P (Expr.visitList V es) (Expr.eventsList es) := by
  cases es with
  | nil => exact h.nil
  | cons e es => exact h.append (h.visit e) (h.visitList es)

theorem visitOption (h : VisitLaw V P) (c : Option Expr) :
    P (Expr.visitOption V c) (Expr.eventsOption c) := by
  cases c with
  | none => exact h.nil
  | some e => exact h.visit e

end

theorem target (h : VisitLaw V P) (t : Target) : P (t.visit V) t.events := by
  cases t with
  | id x => exact h.write x
  | field o _ => exact h.visit o
  | index o i => exact h.append (h.visit o) (h.visit i)
  | ignore => exact h.nil

theorem slots (h : VisitLaw V P) (ss : List Slot) :
    P (Slot.visitList V ss) (ss.flatMap fun s => s.target.events) := by
  induction ss with
  | nil => exact h.nil
  | cons s ss ih => exact h.append (h.target s.target) ih

mutual

theorem statement (h : VisitLaw V P) (s : Stmt) : P (s.visit V) s.events := by
  cases s with
  | assign x v => exact h.two (h.stmt _) (h.visit v) (h.write x)
  | unpack slots v => exact h.two (h.stmt _) (h.visit v) (h.slots slots)
  | ret v => exact h.append (h.stmt _) (h.visitOption v)
  | expr e => exact h.append (h.stmt _) (h.visit e)
  | setField o _ v => exact h.two (h.stmt _) (h.visit o) (h.visit v)
  | setIndex o i v => exact h.three (h.stmt _) (h.visit o) (h.visit i) (h.visit v)
  | ifElse c thn els => exact h.three (h.stmt _) (h.visit c) (h.block thn) (h.block els)
  | whileLoop c body => exact h.two (h.stmt _) (h.visit c) (h.block body)
  | forEach x it body els =>
    simpa [Stmt.visit, Stmt.events] using h.three (h.stmt (.forEach x it body els)) (h.visit it)
      (h.write x) (h.append (h.block body) (h.orElse els))
  | pass | nonlocal | global | breakLoop | continueLoop => exact h.stmt _
  | closure f =>
    obtain ⟨name, params, ret, inits, body, span⟩ := f
    exact h.append (h.stmt _) (h.block body)

/-- The property holds of the walk through a block and the events of the block. -/
theorem block (h : VisitLaw V P) (ss : List Stmt) :
    P (Stmt.visitList V ss) (Stmt.eventsList ss) := by
  cases ss with
  | nil => exact h.nil
  | cons s ss => exact h.append (h.statement s) (h.block ss)

theorem orElse (h : VisitLaw V P) (els : Option (List Stmt)) :
    P (Stmt.visitOption V els) (Stmt.eventsOption els) := by
  cases els with
  | none => exact h.nil
  | some ss => exact h.block ss

end

end VisitLaw

/-- Scopes are well nested in what is met on any walk. -/
theorem wellNested_law (V : Visitor m) : VisitLaw V fun _ es => WellNested es where
  nil := .nil
  append h h' := h.append h'
  stmt _ := .node rfl
  expr _ := .node rfl
  write _ := .node rfl
  within xs _ _ h := h.scopes xs

end Trees

theorem Stmt.wellNested_eventsList (ss : List Stmt) : WellNested (Stmt.eventsList ss) :=
  (wellNested_law (recorder none)).block ss

/-! ### Recorded walks -/

/-- The recording when the events have been met. -/
def Recording.after (s : Recording) (es : List Event) : Recording :=
  ⟨es.reverse ++ s.seen, s.count + nodes es⟩

theorem Recording.after_append (s : Recording) (es es' : List Event) :
    s.after (es ++ es') = (s.after es).after es' := by
  simp [Recording.after, Nat.add_assoc]

theorem Recording.foldl_after (f : String → Event) (xs : List String) (s : Recording) :
    xs.foldl (fun s x => s.after [f x]) s = s.after (xs.map f) := by
  induction xs generalizing s with
  | nil => simp [Recording.after]
  | cons x xs ih =>
    rw [List.foldl_cons, ih, ← Recording.after_append]
    rfl

/-- The walk records the events, or gives up and records what is left of them then. -/
structure Recorded (stop : Option Nat) (x : RecordingM Unit) (es : List Event) : Prop where
  nested : WellNested es
  ends : ∀ s : Recording, (∀ n, stop = some n → n < s.count ∨ s.count + nodes es ≤ n) →
    x.run s = (.ok (), s.after es)
  stops : ∀ (s : Recording) (n : Nat), stop = some n → s.count ≤ n → n < s.count + nodes es →
    x.run s = (.error (), s.after (cutOff (n - s.count) [] es))

theorem run_record (stop : Option Nat) (e : Event) (s : Recording) :
    (record stop e).run s =
      (if stop = some s.count then .error () else .ok (), ⟨e :: s.seen, s.count + 1⟩) := by
  change (if stop = some s.count then (throw () : RecordingM Unit) else pure ()).run _ = _
  split <;> rfl

theorem keeps_recorder (stop : Option Nat) : (recorder stop).toScoping.Keeps
    (fun x s => s.after [.enter x]) fun x s => s.after [.exit x] :=
  ⟨fun _ _ => rfl, fun _ _ => rfl⟩

/-- The beginnings and ends of scopes are recorded, the latter also if the walk is given up. -/
theorem run_within_recorder {α : Type} (stop : Option Nat) (xs : List String) (x : RecordingM α)
    (s : Recording) :
    ((recorder stop).within xs x).run s =
      ((x.run (s.after (xs.map .enter))).1,
        (x.run (s.after (xs.map .enter))).2.after (xs.reverse.map .exit)) := by
  rw [(keeps_recorder stop).run_within, Recording.foldl_after, Recording.foldl_after]

theorem recorded_node (stop : Option Nat) {e : Event} (h : e.isScope = false) :
    Recorded stop (record stop e) [e] where
  nested := .node h
  ends s hs := by
    have passed : stop ≠ some s.count := by
      intro hn
      have := hs _ hn
      rw [nodes_cons_node h] at this
      omega
    rw [run_record, if_neg passed]
    simp [Recording.after, nodes_cons_node h]
  stops s n hn hle hlt := by
    obtain rfl : n = s.count := by
      rw [nodes_cons_node h, nodes_nil] at hlt
      omega
    rw [run_record, if_pos hn, Nat.sub_self, cutOff_zero_node h]
    simp [Recording.after, nodes_cons_node h]

theorem Recorded.append {stop : Option Nat} {x y : RecordingM Unit} {es es' : List Event}
    (hx : Recorded stop x es) (hy : Recorded stop y es') :
    Recorded stop (x >>= fun _ => y) (es ++ es') where
  nested := hx.nested.append hy.nested
  ends s hs := by
    simp only [nodes_append] at hs
    have first := hx.ends s fun n hn => by
      have := hs n hn
      omega
    have second := hy.ends (s.after es) fun n hn => by
      have := hs n hn
      change n < s.count + nodes es ∨ s.count + nodes es + nodes es' ≤ n
      omega
    rw [run_bind, first, Recording.after_append]
    exact second
  stops s n hn hle hlt := by
    rw [nodes_append] at hlt
    rw [run_bind, hx.nested.cutOff_append]
    by_cases h : n - s.count < nodes es
    · rw [if_pos h, hx.stops s n hn hle (by omega), List.map_nil, List.append_nil]
    · have first := hx.ends s fun k hk => by
        cases hn.symm.trans hk
        omega
      have second := hy.stops (s.after es) n hn
        (by change s.count + nodes es ≤ n; omega)
        (by change n < s.count + nodes es + nodes es'; omega)
      rw [if_neg h, first, Recording.after_append, Nat.sub_sub]
      exact second

theorem Recorded.within {stop : Option Nat} {x : RecordingM Unit} {es : List Event}
    (h : Recorded stop x es) (xs : List String) :
    Recorded stop ((recorder stop).within xs x)
      (xs.map .enter ++ es ++ xs.reverse.map .exit) where
  nested := h.nested.scopes xs
  ends s hs := by
    simp only [nodes_append, nodes_map_enter, nodes_map_exit, Nat.zero_add, Nat.add_zero] at hs
    rw [run_within_recorder, h.ends _ (by simpa [Recording.after] using hs)]
    simp only [Recording.after_append]
  stops s n hn hle hlt := by
    simp only [nodes_append, nodes_map_enter, nodes_map_exit, Nat.zero_add, Nat.add_zero] at hlt
    have count : (s.after (xs.map .enter)).count = s.count := by simp [Recording.after]
    rw [run_within_recorder, h.stops _ n hn (by omega) (by omega), count,
      h.nested.cutOff_scopes (by omega)]
    simp only [Recording.after_append]

theorem recorded_law (stop : Option Nat) : VisitLaw (recorder stop) (Recorded stop) where
  nil :=
    { nested := .nil
      ends := fun _ _ => rfl
      stops := fun _ _ _ hle hlt => absurd hlt (Nat.not_lt.2 hle) }
  append hx hy := hx.append hy
  stmt _ := recorded_node stop rfl
  expr _ := recorded_node stop rfl
  write _ := recorded_node stop rfl
  within xs _ _ h := h.within xs

theorem walk_none (body : List Stmt) : walk none body = (Stmt.eventsList body, true) := by
  have := ((recorded_law none).block body).ends {} fun _ h => by cases h
  rw [walk, this]
  simp [Recording.after, Except.isOk, Except.toBool]

theorem walk_some (n : Nat) (body : List Stmt) :
    walk (some n) body =
      (cutOff n [] (Stmt.eventsList body), decide (nodes (Stmt.eventsList body) ≤ n)) := by
  have law := (recorded_law (some n)).block body
  rw [walk]
  by_cases h : nodes (Stmt.eventsList body) ≤ n
  · have := law.ends {} fun k hk => by
      cases hk
      exact .inr (by simpa using h)
    rw [this, law.nested.cutOff_of_le h]
    simp [Recording.after, Except.isOk, Except.toBool, h]
  · have := law.stops {} n rfl (Nat.zero_le n) (by simpa using h)
    rw [this]
    simp [Recording.after, Except.isOk, Except.toBool, h]

/-- Every scope that begins on a walk ends, wherever the walk is given up. -/
theorem wellNested_walk (stop : Option Nat) (body : List Stmt) :
    WellNested (walk stop body).1 := by
  cases stop with
  | none =>
    rw [walk_none]
    exact Stmt.wellNested_eventsList body
  | some n =>
    rw [walk_some]
    exact wellNested_cutOff (Stmt.wellNested_eventsList body) n

/-! ### Walking and rebuilding -/

variable {m : Type → Type} [Monad m]

/-- The rebuilding traversal that does what the walk does and replaces nothing. -/
def Visitor.folder (V : Visitor m) : Folder m where
  stmt s := do
    V.stmt s
    return none
  expr e := do
    V.expr e
    return none
  write x := do
    V.write x
    return x
  toScoping := V.toScoping

/-- What is returned from a scope may as well be returned after it. -/
def Visitor.Natural [MonadFinally m] (V : Visitor m) : Prop :=
  ∀ (xs : List String) {α : Type} (x : m Unit) (a : α),
    V.within xs (x >>= fun _ => pure a) = V.within xs x >>= fun _ => pure a

theorem natural_recorder (stop : Option Nat) : (recorder stop).Natural := by
  intro xs α x a
  funext s
  change ((recorder stop).within xs (x >>= fun _ => pure a)).run s =
    ((recorder stop).within xs x >>= fun _ => pure a).run s
  simp only [run_bind, run_within_recorder]
  rcases x.run _ with ⟨_ | _, t⟩ <;> rfl

/-- The step does what the walk does, and returns `a`. -/
def Retraces {α : Type} (x : m Unit) (y : m α) (a : α) : Prop := y = x >>= fun _ => pure a

namespace Retraces

variable {α β : Type} {x x' : m Unit} {y : m α} {a : α} {b : β}

theorem within [MonadFinally m] {V : Visitor m} (hV : V.Natural) (xs : List String)
    (h : Retraces x y a) :
    Retraces (V.within xs x) (V.folder.within xs y) a := by
  rw [Retraces, h]
  exact hV xs x a

variable [LawfulMonad m]

theorem pure (a : α) : Retraces (m := m) (Pure.pure ()) (Pure.pure a) a := by
  rw [Retraces, pure_bind]

theorem bind {f : α → m β} (h : Retraces x y a) (h' : Retraces x' (f a) b) :
    Retraces (x >>= fun _ => x') (y >>= f) b := by
  rw [Retraces, h, bind_assoc, bind_assoc]
  simp only [pure_bind]
  rw [h']

theorem map (f : α → β) (h : Retraces x y a) :
    Retraces x (y >>= fun a => Pure.pure (f a)) (f a) := by
  rw [Retraces, h, bind_assoc]
  simp only [pure_bind]

/-- Nothing is replaced after `x`. -/
theorem rebuilt (h : Retraces x' y a) :
    Retraces (x >>= fun _ => x') (replaceOr (x >>= fun _ => Pure.pure none) y) a := by
  rw [Retraces, h, replaceOr, bind_assoc, bind_assoc]
  simp only [pure_bind]

theorem kept : Retraces x (replaceOr (x >>= fun _ => Pure.pure none) (Pure.pure a)) a := by
  rw [Retraces, replaceOr, bind_assoc]
  simp only [pure_bind]

end Retraces

section Folder

variable [LawfulMonad m] [MonadFinally m] {V : Visitor m}

mutual

theorem Expr.fold_folder (hV : V.Natural) (e : Expr) :
    Retraces (e.visit V) (e.fold V.folder) e := by
  cases e with
  | literal | id | construct => exact .kept
  | unary _ a | builtin1 _ a | field a _ => exact .rebuilt ((a.fold_folder hV).map _)
  | binary _ l r | builtin2 _ l r | index l r =>
    exact .rebuilt ((l.fold_folder hV).bind ((r.fold_folder hV).map _))
  | call f args | methodCall f _ args =>
    exact .rebuilt ((f.fold_folder hV).bind ((Expr.foldList_folder hV args).map _))
  | list es | set es | tuple es => exact .rebuilt ((Expr.foldList_folder hV es).map _)
  | comprehension k e x it c =>
    have scope := Retraces.within hV [x] (Retraces.bind (f := fun e => do
      let c ← Expr.foldOption V.folder c
      return (e, c)) (e.fold_folder hV) ((Expr.foldOption_folder hV c).map _))
    exact .rebuilt ((it.fold_folder hV).bind
      (scope.map fun ec => Expr.comprehension k ec.1 x it ec.2))
  | ifElse c t e =>
    exact .rebuilt ((c.fold_folder hV).bind ((t.fold_folder hV).bind ((e.fold_folder hV).map _)))
  | lambda ps _ b _ => exact .rebuilt (((b.fold_folder hV).within hV _).map _)

theorem Expr.foldList_folder (hV : V.Natural) (es : List Expr) :
    Retraces (Expr.visitList V es) (Expr.foldList V.folder es) es := by
  cases es with
  | nil => exact .pure []
  | cons e es => exact (e.fold_folder hV).bind ((Expr.foldList_folder hV es).map _)

theorem Expr.foldOption_folder (hV : V.Natural) (c : Option Expr) :
    Retraces (Expr.visitOption V c) (Expr.foldOption V.folder c) c := by
  cases c with
  | none => exact .pure none
  | some e => exact (e.fold_folder hV).map _

end

theorem Target.fold_folder (hV : V.Natural) (t : Target) :
    Retraces (t.visit V) (t.fold V.folder) t := by
  cases t with
  | id x => exact Retraces.map (a := x) _ rfl
  | field o _ => exact (o.fold_folder hV).map _
  | index o i => exact (o.fold_folder hV).bind ((i.fold_folder hV).map _)
  | ignore => exact .pure _

theorem Slot.foldList_folder (hV : V.Natural) (ss : List Slot) :
    Retraces (Slot.visitList V ss) (Slot.foldList V.folder ss) ss := by
  induction ss with
  | nil => exact .pure []
  | cons s ss ih => exact (s.target.fold_folder hV).bind (ih.map fun ss => s :: ss)

mutual

theorem Stmt.fold_folder (hV : V.Natural) (s : Stmt) :
    Retraces (s.visit V) (s.fold V.folder) [s] := by
  cases s with
  | assign x v =>
    have write : Retraces (V.write x) (V.folder.write x) x := rfl
    exact .rebuilt ((v.fold_folder hV).bind (write.map _))
  | unpack slots v =>
    exact .rebuilt ((v.fold_folder hV).bind ((Slot.foldList_folder hV slots).map _))
  | ret v => exact .rebuilt ((Expr.foldOption_folder hV v).map _)
  | expr e => exact .rebuilt ((e.fold_folder hV).map _)
  | setField o _ v => exact .rebuilt ((o.fold_folder hV).bind ((v.fold_folder hV).map _))
  | setIndex o i v =>
    exact .rebuilt ((o.fold_folder hV).bind ((i.fold_folder hV).bind ((v.fold_folder hV).map _)))
  | ifElse c thn els =>
    exact .rebuilt ((c.fold_folder hV).bind
      ((Stmt.foldList_folder hV thn).bind ((Stmt.foldList_folder hV els).map _)))
  | whileLoop c body =>
    exact .rebuilt ((c.fold_folder hV).bind ((Stmt.foldList_folder hV body).map _))
  | forEach x it body els =>
    have write : Retraces (V.write x) (V.folder.write x) x := rfl
    exact .rebuilt ((it.fold_folder hV).bind (write.bind
      ((Stmt.foldList_folder hV body).bind ((Stmt.foldOption_folder hV els).map _))))
  | pass | nonlocal | global | breakLoop | continueLoop => exact .kept
  | closure f =>
    obtain ⟨name, params, ret, inits, body, span⟩ := f
    have inner : Retraces (FunDef.visit V ⟨name, params, ret, inits, body, span⟩)
        (FunDef.fold V.folder ⟨name, params, ret, inits, body, span⟩)
        ⟨name, params, ret, inits, body, span⟩ := (Stmt.foldList_folder hV body).map _
    exact .rebuilt (inner.map fun f => [Stmt.closure f])

/-- A rebuilding traversal that replaces nothing is a walk, and gives the block back. -/
theorem Stmt.foldList_folder (hV : V.Natural) (ss : List Stmt) :
    Retraces (Stmt.visitList V ss) (Stmt.foldList V.folder ss) ss := by
  cases ss with
  | nil => exact .pure []
  | cons s ss => exact (s.fold_folder hV).bind ((Stmt.foldList_folder hV ss).map _)

theorem Stmt.foldOption_folder (hV : V.Natural) (els : Option (List Stmt)) :
    Retraces (Stmt.visitOption V els) (Stmt.foldOption V.folder els) els := by
  cases els with
  | none => exact .pure none
  | some ss => exact (Stmt.foldList_folder hV ss).map _

end

end Folder

/-- What a rebuilding traversal that replaces nothing meets in a block, and the block that it gives
back if it comes to its end. -/
def refold (stop : Option Nat) (body : List Stmt) : List Event × Option (List Stmt) :=
  let (r, s) := (Stmt.foldList (recorder stop).folder body).run {}
  (s.seen.reverse, r.toOption)

theorem refold_eq (stop : Option Nat) (body : List Stmt) :
    refold stop body = ((walk stop body).1, if (walk stop body).2 then some body else none) := by
  have retraced := Stmt.foldList_folder (natural_recorder stop) body
  rw [refold, walk, retraced, run_bind]
  rcases (Stmt.visitList (recorder stop) body).run {} with ⟨_ | _, s⟩ <;> rfl

end FlatClosure

import FlatClosure.Proofs.Walks
import FlatClosure.Syntax.Numbering

/-!
# Marked names

The numbering of a block marks the names that the walk through the block meets, in the order of the
walk and with the scopes that are open on it.  So it can be undone: the traversal that drops the
marks (`unmarkingFolder`) passes the same numbers and the same scopes.

* `Marked` : **a part of a tree, marked and unmarked again, against the events of the part.**
* `Stmt.numberedList` : every block.
* `numbered_agrees_walk` : **the two traversals of a block meet the same.**
-/

namespace FlatClosure

/-! ### The names on a walk -/

/-- The name that is read or written. -/
def Event.name? : Event → Option String
  | .expr (.id x _) => some x
  | .bind x => some x
  | _ => none

/-- The names read and written, each with the scopes open there, innermost first. -/
def marks : List String → List Event → List (String × List String)
  | _, [] => []
  | opened, e :: es => (e.name?.map (·, opened)).toList ++ marks (e.scopes opened) es

theorem marks_append (opened : List String) (es es' : List Event) :
    marks opened (es ++ es') = marks opened es ++ marks (scopesAfter opened es) es' := by
  induction es generalizing opened with
  | nil => rfl
  | cons e es ih =>
    rw [List.cons_append, marks, ih, marks, List.append_assoc]
    rfl

theorem marks_scopes (es : List Event) (opened xs : List String) :
    marks opened (xs.map .enter ++ es ++ xs.reverse.map .exit) =
      marks (xs.reverse ++ opened) es := by
  have enters (opened : List String) (rest : List Event) :
      marks opened (xs.map .enter ++ rest) = marks (xs.reverse ++ opened) rest := by
    induction xs generalizing opened with
    | nil => rfl
    | cons x xs ih =>
      rw [List.reverse_cons, List.append_assoc]
      exact ih (x :: opened)
  have exits (opened ys : List String) : marks opened (ys.map .exit) = [] := by
    induction ys generalizing opened with
    | nil => rfl
    | cons y ys ih => exact ih opened.tail
  rw [List.append_assoc, enters, marks_append, exits, List.append_nil]

/-- The event at which a name is met. -/
theorem exists_event_of_marks {es : List Event} {opened scopes : List String} {n : Nat} {x : String}
    (h : (marks opened es)[n]? = some (x, scopes)) :
    ∃ before e after, es = before ++ e :: after ∧ e.name? = some x ∧
      (marks opened before).length = n ∧ scopesAfter opened before = scopes := by
  induction es generalizing opened n with
  | nil => simp [marks] at h
  | cons e es ih =>
    have rest {m : Nat} (h : (marks (e.scopes opened) es)[m]? = some (x, scopes)) := ih h
    cases he : e.name? with
    | none =>
      rw [marks, he] at h
      obtain ⟨before, e', after, rfl, hx, hn, hs⟩ := rest h
      refine ⟨e :: before, e', after, rfl, hx, ?_, hs⟩
      rw [marks, he]
      exact hn
    | some y =>
      rw [marks, he] at h
      cases n with
      | zero =>
        cases h
        exact ⟨[], e, es, rfl, he, rfl, rfl⟩
      | succ n =>
        obtain ⟨before, e', after, rfl, hx, hn, hs⟩ := rest h
        refine ⟨e :: before, e', after, rfl, hx, ?_, hs⟩
        rw [marks, he]
        exact congrArg (· + 1) hn

/-- The name with its number and the open scopes. -/
def markText (x : String) (n : Nat) (opened : List String) : String :=
  x ++ "#" ++ toString n ++ openText opened

/-- The marked names, numbered from `n` on. -/
def markTexts (n : Nat) (ms : List (String × List String)) : List String :=
  (ms.zipIdx n).map fun m => markText m.1.1 m.2 m.1.2

theorem markTexts_append (n : Nat) (ms ms' : List (String × List String)) :
    markTexts n (ms ++ ms') = markTexts n ms ++ markTexts (n + ms.length) ms' := by
  simp [markTexts, List.zipIdx_append]

/-! ### Removing marks -/

/-- Drop the mark that the name got here. -/
def unmarkName (x : String) : NumberingM String := do
  let s ← get
  set { s with count := s.count + 1 }
  return .ofList (x.toList.take (x.length - (markText "" s.count s.opened).length))

/-- The traversal that drops the marks of names read and written. -/
def unmarkingFolder : Folder NumberingM where
  stmt _ := return none
  expr
    | .id x s => do
      let x ← unmarkName x
      return some (.id x s)
    | _ => return none
  write := unmarkName
  toScoping := openedScopes

/-- The block without the marks that it got from the start on. -/
def unmarked (body : List Stmt) : Except String (List Stmt) :=
  ((Stmt.foldList unmarkingFolder body).run {}).1

theorem run_unmarkName (x : String) (n : Nat) (opened : List String) :
    (unmarkName (markText x n opened)).run ⟨n, opened⟩ = (.ok x, ⟨n + 1, opened⟩) := by
  have text : markText x n opened = x ++ markText "" n opened := by
    simp [markText, String.append_assoc]
  have dropped : (markText x n opened).toList.take
      ((markText x n opened).length - (markText "" n opened).length) = x.toList := by
    rw [text, String.length_append, Nat.add_sub_cancel, String.toList_append]
    exact List.take_left
  change (Except.ok (String.ofList _), (⟨n + 1, opened⟩ : Numbering)) = _
  rw [dropped, String.ofList_toList]

/-! ### Marking and unmarking a part of a tree -/

/-- With `n` marks before and the scopes `opened`, a part of a tree with the events `es` is marked
and becomes one with the events `es'`, and unmarking gives it back. -/
structure Marked {α : Type} (n : Nat) (opened : List String) (es : List Event)
    (mark : Option Nat → NumberingM α) (marked : α) (es' : List Event)
    (unmark : NumberingM α) (original : α) : Prop where
  nested : WellNested es
  names : es'.filterMap Event.name? = markTexts n (marks opened es)
  ends : ∀ stop, (∀ k, stop = some k → k < n ∨ n + (marks opened es).length ≤ k) →
    (mark stop).run ⟨n, opened⟩ = (.ok marked, ⟨n + (marks opened es).length, opened⟩)
  stops : ∀ k x scopes, (marks opened es)[k]? = some (x, scopes) →
    (mark (some (n + k))).run ⟨n, opened⟩ = (.error (x ++ openText scopes), ⟨n + k, opened⟩)
  undone : unmark.run ⟨n, opened⟩ = (.ok original, ⟨n + (marks opened es).length, opened⟩)

namespace Marked

variable {α β : Type} {n : Nat} {opened : List String} {es es' fs fs' : List Event}
  {x : Option Nat → NumberingM α} {f : Option Nat → α → NumberingM β} {a a' : α} {b b' : β}
  {y : NumberingM α} {g : α → NumberingM β}

theorem pure (a' a : α) :
    Marked n opened [] (fun _ => Pure.pure a') a' [] (Pure.pure a) a where
  nested := .nil
  names := rfl
  ends _ _ := rfl
  stops k x scopes h := by simp [marks] at h
  undone := rfl

theorem bind (hx : Marked n opened es x a' es' y a)
    (hf : Marked (n + (marks opened es).length) opened fs (fun stop => f stop a') b' fs' (g a) b) :
    Marked n opened (es ++ fs) (fun stop => x stop >>= f stop) b' (es' ++ fs') (y >>= g) b := by
  have split : marks opened (es ++ fs) = marks opened es ++ marks opened fs := by
    rw [marks_append, hx.nested.scopesAfter_eq]
  have length : n + (marks opened (es ++ fs)).length =
      n + (marks opened es).length + (marks opened fs).length := by
    rw [split, List.length_append, Nat.add_assoc]
  refine ⟨hx.nested.append hf.nested, ?_, ?_, ?_, ?_⟩
  · rw [List.filterMap_append, hx.names, hf.names, split, markTexts_append]
  · intro stop hstop
    rw [length] at hstop ⊢
    rw [run_bind, hx.ends stop fun k hk => by have := hstop k hk; omega]
    exact hf.ends stop fun k hk => by have := hstop k hk; omega
  · intro k z scopes hk
    rw [split] at hk
    rw [run_bind]
    by_cases hlt : k < (marks opened es).length
    · rw [List.getElem?_append_left hlt] at hk
      rw [hx.stops k z scopes hk]
    · rw [List.getElem?_append_right (Nat.not_lt.1 hlt)] at hk
      have index : n + k = n + (marks opened es).length + (k - (marks opened es).length) := by omega
      rw [hx.ends (some (n + k)) fun j hj => by cases hj; omega, index]
      exact hf.stops _ z scopes hk
  · rw [length, run_bind, hx.undone]
    exact hf.undone

theorem map (f' f : α → β) (h : Marked n opened es x a' es' y a) :
    Marked n opened es (fun stop => x stop >>= fun a => Pure.pure (f' a)) (f' a') es'
      (y >>= fun a => Pure.pure (f a)) (f a) := by
  have done := h.bind (f := fun _ a => Pure.pure (f' a)) (g := fun a => Pure.pure (f a))
    (pure (f' a') (f a))
  rwa [List.append_nil, List.append_nil] at done

/-- A node is replaced by what becomes of its name. -/
theorem replaced (f : α → β) (c d : β) (h : Marked n opened es x a' es' y a) :
    Marked n opened es (fun stop => replaceOr (x stop >>= fun a => Pure.pure (some (f a)))
      (Pure.pure c)) (f a') es' (replaceOr (y >>= fun a => Pure.pure (some (f a))) (Pure.pure d))
      (f a) := by
  simp only [replaceOr, bind_assoc, pure_bind]
  exact h.map f f

/-- A node at which nothing is marked or replaced. -/
theorem node {e e' : Event} (h : Marked n opened es x a' es' y a) (he : e.isScope = false)
    (hn : e.name? = none) (hn' : e'.name? = none) :
    Marked n opened (e :: es) (fun stop => replaceOr (Pure.pure none) (x stop)) a' (e' :: es')
      (replaceOr (Pure.pure none) y) a := by
  have same : marks opened (e :: es) = marks opened es := by
    rw [marks, hn, Event.scopes_of_isScope he]
    rfl
  refine ⟨(WellNested.node he).append h.nested, ?_, ?_, ?_, ?_⟩
  · rw [List.filterMap_cons_none hn', same]
    exact h.names
  · rw [same]
    exact h.ends
  · rw [same]
    exact h.stops
  · rw [same]
    exact h.undone

theorem keeps_openedScopes : openedScopes.Keeps
    (fun x s => { s with opened := x :: s.opened })
    fun _ s => { s with opened := s.opened.tail } :=
  ⟨fun _ _ => rfl, fun _ _ => rfl⟩

theorem run_within_openedScopes (xs : List String) (x : NumberingM α) (n : Nat)
    (opened : List String) :
    (openedScopes.within xs x).run ⟨n, opened⟩ =
      ((x.run ⟨n, xs.reverse ++ opened⟩).1,
        ⟨(x.run ⟨n, xs.reverse ++ opened⟩).2.count,
          (x.run ⟨n, xs.reverse ++ opened⟩).2.opened.drop xs.length⟩) := by
  have enters (xs opened : List String) :
      xs.foldl (fun (s : Numbering) x => { s with opened := x :: s.opened }) ⟨n, opened⟩ =
        ⟨n, xs.reverse ++ opened⟩ := by
    induction xs generalizing opened with
    | nil => rfl
    | cons x xs ih =>
      rw [List.foldl_cons, ih, List.reverse_cons, List.append_assoc]
      rfl
  have exits (xs : List String) (s : Numbering) :
      xs.foldl (fun s _ => { s with opened := s.opened.tail }) s =
        { s with opened := s.opened.drop xs.length } := by
    induction xs generalizing s with
    | nil => rfl
    | cons x xs ih => rw [List.foldl_cons, ih, List.length_cons, List.drop_tail]
  rw [keeps_openedScopes.run_within, enters, exits, List.length_reverse]

theorem within (xs : List String) (h : Marked n (xs.reverse ++ opened) es x a' es' y a) :
    Marked n opened (xs.map .enter ++ es ++ xs.reverse.map .exit)
      (fun stop => openedScopes.within xs (x stop)) a'
      (xs.map .enter ++ es' ++ xs.reverse.map .exit) (openedScopes.within xs y) a := by
  have closed : (xs.reverse ++ opened).drop xs.length = opened := by simp
  have noNames (ys : List String) (f : String → Event) (hf : ∀ x, (f x).name? = none) :
      (ys.map f).filterMap Event.name? = [] := by
    simp [hf]
  refine ⟨h.nested.scopes xs, ?_, ?_, ?_, ?_⟩
  · rw [marks_scopes, List.filterMap_append, List.filterMap_append,
      noNames _ _ fun _ => rfl, noNames _ _ fun _ => rfl, h.names, List.nil_append, List.append_nil]
  · intro stop hstop
    rw [marks_scopes] at hstop ⊢
    rw [run_within_openedScopes, h.ends stop hstop, closed]
  · intro k z scopes hk
    rw [marks_scopes] at hk
    rw [run_within_openedScopes, h.stops k z scopes hk, closed]
  · rw [marks_scopes, run_within_openedScopes, h.undone, closed]

/-- A name is marked and unmarked. -/
theorem name {e e' : Event} {z : String} (he : e.isScope = false) (hz : e.name? = some z)
    (hz' : e'.name? = some (markText z n opened)) :
    Marked n opened [e] (markName · z) (markText z n opened) [e']
      (unmarkName (markText z n opened)) z := by
  have one : marks opened [e] = [(z, opened)] := by
    rw [marks, hz]
    rfl
  have run (stop : Option Nat) : (markName stop z).run ⟨n, opened⟩ =
      if stop = some n then (.error (z ++ openText opened), ⟨n, opened⟩)
      else (.ok (markText z n opened), ⟨n + 1, opened⟩) := by
    change (if stop = some n then throw (z ++ openText opened) else do
      set { (⟨n, opened⟩ : Numbering) with count := n + 1 }
      return markText z n opened : NumberingM String).run ⟨n, opened⟩ = _
    split <;> rfl
  refine ⟨.node he, ?_, ?_, ?_, ?_⟩
  · rw [List.filterMap_cons_some hz', one]
    rfl
  · intro stop hstop
    rw [one] at hstop ⊢
    have passed : stop ≠ some n := fun h => by
      have : n < n ∨ n + 1 ≤ n := hstop n h
      omega
    rw [run, if_neg passed]
    rfl
  · intro k w scopes hk
    rw [one] at hk
    cases k with
    | zero =>
      cases hk
      exact (run (some n)).trans (if_pos rfl)
    | succ k => cases hk
  · rw [one]
    exact run_unmarkName z n opened

end Marked

mutual

theorem Expr.numbered (e : Expr) (n : Nat) (opened : List String) :
    ∃ e' : Expr, Marked n opened e.events (fun stop => e.fold (numberingFolder stop)) e' e'.events
      (e'.fold unmarkingFolder) e := by
  cases e with
  | literal v => exact ⟨.literal v, (Marked.pure _ _).node rfl rfl rfl⟩
  | id x s =>
    have marked : Marked n opened [.expr (.id x s)] (markName · x) (markText x n opened)
      [.expr (.id (markText x n opened) s)] (unmarkName (markText x n opened)) x :=
      .name rfl rfl rfl
    exact ⟨.id (markText x n opened) s, marked.replaced (Expr.id · s) _ _⟩
  | construct x s => exact ⟨.construct x s, (Marked.pure _ _).node rfl rfl rfl⟩
  | unary op a =>
    obtain ⟨a', ha⟩ := a.numbered n opened
    exact ⟨.unary op a', (ha.map _ _).node rfl rfl rfl⟩
  | builtin1 f a =>
    obtain ⟨a', ha⟩ := a.numbered n opened
    exact ⟨.builtin1 f a', (ha.map _ _).node rfl rfl rfl⟩
  | field a f =>
    obtain ⟨a', ha⟩ := a.numbered n opened
    exact ⟨.field a' f, (ha.map _ _).node rfl rfl rfl⟩
  | binary op l r =>
    obtain ⟨l', hl⟩ := l.numbered n opened
    obtain ⟨r', hr⟩ := r.numbered (n + (marks opened l.events).length) opened
    exact ⟨.binary op l' r', (hl.bind (hr.map _ _)).node rfl rfl rfl⟩
  | builtin2 f l r =>
    obtain ⟨l', hl⟩ := l.numbered n opened
    obtain ⟨r', hr⟩ := r.numbered (n + (marks opened l.events).length) opened
    exact ⟨.builtin2 f l' r', (hl.bind (hr.map _ _)).node rfl rfl rfl⟩
  | index l r =>
    obtain ⟨l', hl⟩ := l.numbered n opened
    obtain ⟨r', hr⟩ := r.numbered (n + (marks opened l.events).length) opened
    exact ⟨.index l' r', (hl.bind (hr.map _ _)).node rfl rfl rfl⟩
  | call f args =>
    obtain ⟨f', hf⟩ := f.numbered n opened
    obtain ⟨args', hargs⟩ := Expr.numberedList args (n + (marks opened f.events).length) opened
    exact ⟨.call f' args', (hf.bind (hargs.map _ _)).node rfl rfl rfl⟩
  | methodCall o f args =>
    obtain ⟨o', ho⟩ := o.numbered n opened
    obtain ⟨args', hargs⟩ := Expr.numberedList args (n + (marks opened o.events).length) opened
    exact ⟨.methodCall o' f args', (ho.bind (hargs.map _ _)).node rfl rfl rfl⟩
  | list es =>
    obtain ⟨es', hes⟩ := Expr.numberedList es n opened
    exact ⟨.list es', (hes.map _ _).node rfl rfl rfl⟩
  | set es =>
    obtain ⟨es', hes⟩ := Expr.numberedList es n opened
    exact ⟨.set es', (hes.map _ _).node rfl rfl rfl⟩
  | tuple es =>
    obtain ⟨es', hes⟩ := Expr.numberedList es n opened
    exact ⟨.tuple es', (hes.map _ _).node rfl rfl rfl⟩
  | comprehension k e x it c =>
    obtain ⟨it', hit⟩ := it.numbered n opened
    obtain ⟨e', he⟩ := e.numbered (n + (marks opened it.events).length) (x :: opened)
    obtain ⟨c', hc⟩ := Expr.numberedOption c
      (n + (marks opened it.events).length + (marks (x :: opened) e.events).length) (x :: opened)
    have scope := Marked.within [x] (Marked.bind
      (f := fun stop e => Expr.foldOption (numberingFolder stop) c >>= fun c => pure (e, c))
      (g := fun e => Expr.foldOption unmarkingFolder c' >>= fun c => pure (e, c))
      he (hc.map _ _))
    refine ⟨.comprehension k e' x it' c', ?_⟩
    simp only [List.map_cons, List.map_nil, List.reverse_singleton, List.append_assoc,
      List.cons_append, List.nil_append] at scope
    simp only [Expr.events, List.append_assoc, List.cons_append]
    exact (hit.bind (scope.map (fun ec => Expr.comprehension k ec.1 x it' ec.2)
      fun ec => Expr.comprehension k ec.1 x it ec.2)).node rfl rfl rfl
  | ifElse c t e =>
    obtain ⟨c', hc⟩ := c.numbered n opened
    obtain ⟨t', ht⟩ := t.numbered (n + (marks opened c.events).length) opened
    obtain ⟨e', he⟩ := e.numbered
      (n + (marks opened c.events).length + (marks opened t.events).length) opened
    refine ⟨.ifElse c' t' e', ?_⟩
    simp only [Expr.events, List.append_assoc]
    exact (hc.bind (ht.bind (he.map _ _))).node rfl rfl rfl
  | lambda ps ty b s =>
    obtain ⟨b', hb⟩ := b.numbered n ((ps.map (·.name)).reverse ++ opened)
    have scope := hb.within (ps.map (·.name))
    refine ⟨.lambda ps ty b' s, ?_⟩
    simp only [List.map_map, List.map_reverse, Function.comp_def, List.append_assoc] at scope
    simp only [Expr.events, List.map_reverse, List.append_assoc]
    exact (scope.map (Expr.lambda ps ty · s) (Expr.lambda ps ty · s)).node rfl rfl rfl

theorem Expr.numberedList (es : List Expr) (n : Nat) (opened : List String) :
    ∃ es' : List Expr, Marked n opened (Expr.eventsList es)
      (fun stop => Expr.foldList (numberingFolder stop) es) es' (Expr.eventsList es')
      (Expr.foldList unmarkingFolder es') es := by
  cases es with
  | nil => exact ⟨[], .pure [] []⟩
  | cons e es =>
    obtain ⟨e', he⟩ := e.numbered n opened
    obtain ⟨es', hes⟩ := Expr.numberedList es (n + (marks opened e.events).length) opened
    exact ⟨e' :: es', he.bind (hes.map _ _)⟩

theorem Expr.numberedOption (c : Option Expr) (n : Nat) (opened : List String) :
    ∃ c' : Option Expr, Marked n opened (Expr.eventsOption c)
      (fun stop => Expr.foldOption (numberingFolder stop) c) c' (Expr.eventsOption c')
      (Expr.foldOption unmarkingFolder c') c := by
  cases c with
  | none => exact ⟨none, .pure none none⟩
  | some e =>
    obtain ⟨e', he⟩ := e.numbered n opened
    exact ⟨some e', he.map _ _⟩

end

theorem numbered_write (x : String) (n : Nat) (opened : List String) :
    Marked n opened [.bind x] (markName · x) (markText x n opened)
      [.bind (markText x n opened)] (unmarkName (markText x n opened)) x := .name rfl rfl rfl

theorem Target.numbered (t : Target) (n : Nat) (opened : List String) :
    ∃ t' : Target, Marked n opened t.events (fun stop => t.fold (numberingFolder stop)) t'
      t'.events (t'.fold unmarkingFolder) t := by
  cases t with
  | id x => exact ⟨.id (markText x n opened), (numbered_write x n opened).map _ _⟩
  | field o x =>
    obtain ⟨o', ho⟩ := o.numbered n opened
    exact ⟨.field o' x, ho.map _ _⟩
  | index o i =>
    obtain ⟨o', ho⟩ := o.numbered n opened
    obtain ⟨i', hi⟩ := i.numbered (n + (marks opened o.events).length) opened
    exact ⟨.index o' i', ho.bind (hi.map _ _)⟩
  | ignore => exact ⟨.ignore, .pure _ _⟩

theorem Slot.numbered (slots : List Slot) (n : Nat) (opened : List String) :
    ∃ slots' : List Slot, Marked n opened (slots.flatMap fun s => s.target.events)
      (fun stop => Slot.foldList (numberingFolder stop) slots) slots'
      (slots'.flatMap fun s => s.target.events)
      (Slot.foldList unmarkingFolder slots') slots := by
  induction slots generalizing n with
  | nil => exact ⟨[], .pure [] []⟩
  | cons s ss ih =>
    obtain ⟨t', ht⟩ := s.target.numbered n opened
    obtain ⟨ss', hss⟩ := ih (n + (marks opened s.target.events).length)
    refine ⟨⟨t', s.starred⟩ :: ss', ?_⟩
    rw [List.flatMap_cons, List.flatMap_cons]
    exact ht.bind (hss.map _ _)

mutual

theorem Stmt.numbered (s : Stmt) (n : Nat) (opened : List String) :
    ∃ s' : Stmt, Marked n opened s.events (fun stop => s.fold (numberingFolder stop)) [s']
      s'.events (s'.fold unmarkingFolder) [s] := by
  cases s with
  | assign x v =>
    obtain ⟨v', hv⟩ := v.numbered n opened
    exact ⟨.assign (markText x _ opened) v',
      (hv.bind ((numbered_write x _ opened).map _ _)).node rfl rfl rfl⟩
  | unpack slots v =>
    obtain ⟨v', hv⟩ := v.numbered n opened
    obtain ⟨slots', hs⟩ := Slot.numbered slots (n + (marks opened v.events).length) opened
    exact ⟨.unpack slots' v', (hv.bind (hs.map _ _)).node rfl rfl rfl⟩
  | ret v =>
    obtain ⟨v', hv⟩ := Expr.numberedOption v n opened
    exact ⟨.ret v', (hv.map _ _).node rfl rfl rfl⟩
  | expr e =>
    obtain ⟨e', he⟩ := e.numbered n opened
    exact ⟨.expr e', (he.map _ _).node rfl rfl rfl⟩
  | setField o f v =>
    obtain ⟨o', ho⟩ := o.numbered n opened
    obtain ⟨v', hv⟩ := v.numbered (n + (marks opened o.events).length) opened
    exact ⟨.setField o' f v', (ho.bind (hv.map _ _)).node rfl rfl rfl⟩
  | setIndex o i v =>
    obtain ⟨o', ho⟩ := o.numbered n opened
    obtain ⟨i', hi⟩ := i.numbered (n + (marks opened o.events).length) opened
    obtain ⟨v', hv⟩ := v.numbered
      (n + (marks opened o.events).length + (marks opened i.events).length) opened
    refine ⟨.setIndex o' i' v', ?_⟩
    simp only [Stmt.events, List.append_assoc]
    exact (ho.bind (hi.bind (hv.map _ _))).node rfl rfl rfl
  | ifElse c thn els =>
    obtain ⟨c', hc⟩ := c.numbered n opened
    obtain ⟨thn', ht⟩ := Stmt.numberedList thn (n + (marks opened c.events).length) opened
    obtain ⟨els', he⟩ := Stmt.numberedList els
      (n + (marks opened c.events).length + (marks opened (Stmt.eventsList thn)).length) opened
    refine ⟨.ifElse c' thn' els', ?_⟩
    simp only [Stmt.events, List.append_assoc]
    exact (hc.bind (ht.bind (he.map _ _))).node rfl rfl rfl
  | whileLoop c body =>
    obtain ⟨c', hc⟩ := c.numbered n opened
    obtain ⟨body', hb⟩ := Stmt.numberedList body (n + (marks opened c.events).length) opened
    exact ⟨.whileLoop c' body', (hc.bind (hb.map _ _)).node rfl rfl rfl⟩
  | forEach x it body els =>
    obtain ⟨it', hit⟩ := it.numbered n opened
    have hx := numbered_write x (n + (marks opened it.events).length) opened
    obtain ⟨body', hb⟩ := Stmt.numberedList body
      (n + (marks opened it.events).length + (marks opened [.bind x]).length) opened
    obtain ⟨els', he⟩ := Stmt.numberedOption els
      (n + (marks opened it.events).length + (marks opened [.bind x]).length +
        (marks opened (Stmt.eventsList body)).length) opened
    refine ⟨.forEach (markText x (n + (marks opened it.events).length) opened) it' body' els', ?_⟩
    simp only [Stmt.events, List.append_assoc]
    exact (hit.bind (hx.bind (hb.bind (he.map _ _)))).node rfl rfl rfl
  | pass => exact ⟨.pass, (Marked.pure _ _).node rfl rfl rfl⟩
  | nonlocal x => exact ⟨.nonlocal x, (Marked.pure _ _).node rfl rfl rfl⟩
  | global x => exact ⟨.global x, (Marked.pure _ _).node rfl rfl rfl⟩
  | breakLoop => exact ⟨.breakLoop, (Marked.pure _ _).node rfl rfl rfl⟩
  | continueLoop => exact ⟨.continueLoop, (Marked.pure _ _).node rfl rfl rfl⟩
  | closure f =>
    obtain ⟨name, params, ret, inits, body, span⟩ := f
    obtain ⟨body', hb⟩ := Stmt.numberedList body n opened
    have inner := hb.map (fun body => FunDef.mk name params ret inits body span)
      (fun body => FunDef.mk name params ret inits body span)
    exact ⟨.closure ⟨name, params, ret, inits, body', span⟩,
      (inner.map ([Stmt.closure ·]) ([Stmt.closure ·])).node rfl rfl rfl⟩

theorem Stmt.numberedList (ss : List Stmt) (n : Nat) (opened : List String) :
    ∃ ss' : List Stmt, Marked n opened (Stmt.eventsList ss)
      (fun stop => Stmt.foldList (numberingFolder stop) ss) ss' (Stmt.eventsList ss')
      (Stmt.foldList unmarkingFolder ss') ss := by
  cases ss with
  | nil => exact ⟨[], .pure [] []⟩
  | cons s ss =>
    obtain ⟨s', hs⟩ := s.numbered n opened
    obtain ⟨ss', hss⟩ := Stmt.numberedList ss (n + (marks opened s.events).length) opened
    exact ⟨s' :: ss', hs.bind (hss.map ([s'] ++ ·) ([s] ++ ·))⟩

theorem Stmt.numberedOption (els : Option (List Stmt)) (n : Nat) (opened : List String) :
    ∃ els' : Option (List Stmt), Marked n opened (Stmt.eventsOption els)
      (fun stop => Stmt.foldOption (numberingFolder stop) els) els' (Stmt.eventsOption els')
      (Stmt.foldOption unmarkingFolder els') els := by
  cases els with
  | none => exact ⟨none, .pure none none⟩
  | some ss =>
    obtain ⟨ss', hss⟩ := Stmt.numberedList ss n opened
    exact ⟨some ss', hss.map _ _⟩

end

/-! ### The two traversals -/

/-- The walk through a block and the numbering of it meet the same names in the same scopes and
order, also if they are given up; they end all scopes that they begin; and the marks can be removed
again. -/
theorem numbered_agrees_walk (body : List Stmt) :
    (∃ body', numbered none body = (.ok body', ⟨(marks [] (walk none body).1).length, []⟩) ∧
      (walk none body').1.filterMap Event.name? = markTexts 0 (marks [] (walk none body).1) ∧
      unmarked body' = .ok body) ∧
    (∀ n x opened, (marks [] (walk none body).1)[n]? = some (x, opened) →
      numbered (some n) body = (.error (x ++ openText opened), ⟨n, []⟩) ∧
      ∃ before e after, (walk none body).1 = before ++ e :: after ∧ e.name? = some x ∧
        (marks [] before).length = n ∧ scopesAfter [] before = opened ∧
        walk (some (nodes before)) body = (before ++ e :: opened.map .exit, false)) ∧
    (∀ n, (marks [] (walk none body).1).length ≤ n → numbered (some n) body = numbered none body) ∧
    ∀ stop, WellNested (walk stop body).1 ∧ (numbered stop body).2.opened = [] ∧
      refold stop body = ((walk stop body).1, if (walk stop body).2 then some body else none) := by
  obtain ⟨body', h⟩ := Stmt.numberedList body 0 []
  have ended (stop : Option Nat)
      (hstop : ∀ k, stop = some k → (marks [] (Stmt.eventsList body)).length ≤ k) :
      numbered stop body = (.ok body', ⟨(marks [] (Stmt.eventsList body)).length, []⟩) := by
    have := h.ends stop fun k hk => .inr (by simpa using hstop k hk)
    rwa [Nat.zero_add] at this
  have stopped (n : Nat) (x : String) (opened : List String)
      (hn : (marks [] (Stmt.eventsList body))[n]? = some (x, opened)) :
      numbered (some n) body = (.error (x ++ openText opened), ⟨n, []⟩) := by
    have := h.stops n x opened hn
    rwa [Nat.zero_add] at this
  have whole := ended none fun _ hk => by cases hk
  simp only [walk_none]
  refine ⟨⟨body', whole, h.names, congrArg Prod.fst h.undone⟩, ?_, ?_, ?_⟩
  · intro n x opened hn
    refine ⟨stopped n x opened hn, ?_⟩
    obtain ⟨before, e, after, hes, hx, hlen, hopen⟩ := exists_event_of_marks hn
    refine ⟨before, e, after, hes, hx, hlen, hopen, ?_⟩
    have node : e.isScope = false := by
      cases e with
      | enter | exit => cases hx
      | _ => rfl
    rw [walk_some, hes, cutOff_nodes node, hopen, nodes_append, nodes_cons_node node]
    simp
  · intro n hn
    rw [whole, ended (some n) fun k hk => by cases hk; exact hn]
  · intro stop
    refine ⟨wellNested_walk stop body, ?_, refold_eq stop body⟩
    cases stop with
    | none => rw [whole]
    | some n =>
      cases hn : (marks [] (Stmt.eventsList body))[n]? with
      | none =>
        rw [ended (some n) fun k hk => by cases hk; exact List.getElem?_eq_none_iff.1 hn]
      | some m => rw [stopped n m.1 m.2 hn]

end FlatClosure

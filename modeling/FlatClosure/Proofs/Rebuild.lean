import FlatClosure.Conversion.Substitute
import FlatClosure.Proofs.Classifying
import FlatClosure.Proofs.Scopes

/-!
# Rebuilt trees

What the rebuilding traversals of closure conversion make of a tree, as plain functions.

* `Expr.redirect` : reads of captured variables become reads of fields of the receiver.
* `Stmt.splice` : expressions are changed by a function, and the `n`-th function that is declared is
  replaced by the `n`-th of a list of blocks.

`substituteCaptures` goes through a body with a state, which holds the variables in scope and the
position for the next write.  `substituteCaptures_eq` says that the body is redirected, or else that
it holds one of the things the traversal rejects (`rejections`), where the scope is that of the tree
and the position that of the statement around the write.
-/

namespace FlatClosure

mutual

/-- The expression with captured variables read from the receiver, except those in scope. -/
def Expr.redirect (site : ClosureSite) (scope : List String) : Expr → Expr
  | .literal v => .literal v
  | .id x s => if site.isCaptured x scope then .field (.id site.receiver s) x else .id x s
  | .unary op e => .unary op (e.redirect site scope)
  | .binary op l r => .binary op (l.redirect site scope) (r.redirect site scope)
  | .builtin1 f a => .builtin1 f (a.redirect site scope)
  | .builtin2 f l r => .builtin2 f (l.redirect site scope) (r.redirect site scope)
  | .call f args => .call (f.redirect site scope) (Expr.redirectList site scope args)
  | .field o x => .field (o.redirect site scope) x
  | .index o i => .index (o.redirect site scope) (i.redirect site scope)
  | .methodCall o m args =>
    .methodCall (o.redirect site scope) m (Expr.redirectList site scope args)
  | .list es => .list (Expr.redirectList site scope es)
  | .set es => .set (Expr.redirectList site scope es)
  | .comprehension k e x it c =>
    .comprehension k (e.redirect site (x :: scope)) x (it.redirect site scope)
      (Expr.redirectOption site (x :: scope) c)
  | .ifElse c t e =>
    .ifElse (c.redirect site scope) (t.redirect site scope) (e.redirect site scope)
  | .tuple es => .tuple (Expr.redirectList site scope es)
  | .construct x s => .construct x s
  | .lambda ps ty b s => .lambda ps ty (b.redirect site ((ps.map (·.name)).reverse ++ scope)) s

/-- Expressions with captured variables read from the receiver. -/
def Expr.redirectList (site : ClosureSite) (scope : List String) : List Expr → List Expr
  | [] => []
  | e :: es => e.redirect site scope :: Expr.redirectList site scope es

/-- An expression that may be missing, with captured variables read from the receiver. -/
def Expr.redirectOption (site : ClosureSite) (scope : List String) : Option Expr → Option Expr
  | none => none
  | some e => some (e.redirect site scope)

end

/-- The target with its expressions changed. -/
def Target.mapExpr (φ : Expr → Expr) : Target → Target
  | .id x => .id x
  | .field o x => .field (φ o) x
  | .index o i => .index (φ o) (φ i)
  | .ignore => .ignore

/-- The targets of a destructuring assignment with their expressions changed. -/
def Slot.mapExprs (φ : Expr → Expr) : List Slot → List Slot
  | [] => []
  | s :: ss => ⟨s.target.mapExpr φ, s.starred⟩ :: Slot.mapExprs φ ss

mutual

/-- The statement with its expressions changed and a block in the place of each declaration of a
function, the first one first. -/
def Stmt.splice (φ : Expr → Expr) : Stmt → List (List Stmt) → List Stmt
  | .assign x v, _ => [.assign x (φ v)]
  | .unpack slots v, _ => [.unpack (Slot.mapExprs φ slots) (φ v)]
  | .ret v, _ => [.ret (v.map φ)]
  | .expr e, _ => [.expr (φ e)]
  | .setField o f v, _ => [.setField (φ o) f (φ v)]
  | .setIndex o i v, _ => [.setIndex (φ o) (φ i) (φ v)]
  | .ifElse c thn els, blocks =>
    [.ifElse (φ c) (Stmt.spliceList φ thn blocks)
      (Stmt.spliceList φ els (blocks.drop (Stmt.collectList closures thn).length))]
  | .whileLoop c body, blocks => [.whileLoop (φ c) (Stmt.spliceList φ body blocks)]
  | .forEach x it body els, blocks =>
    [.forEach x (φ it) (Stmt.spliceList φ body blocks)
      (Stmt.spliceOption φ els (blocks.drop (Stmt.collectList closures body).length))]
  | .pass, _ => [.pass]
  | .nonlocal x, _ => [.nonlocal x]
  | .global x, _ => [.global x]
  | .breakLoop, _ => [.breakLoop]
  | .continueLoop, _ => [.continueLoop]
  | .closure _, blocks => blocks.headD []

/-- The block with its statements spliced. -/
def Stmt.spliceList (φ : Expr → Expr) : List Stmt → List (List Stmt) → List Stmt
  | [], _ => []
  | s :: ss, blocks =>
    s.splice φ blocks ++ Stmt.spliceList φ ss (blocks.drop (s.collect closures).length)

/-- The block that may be missing, with its statements spliced. -/
def Stmt.spliceOption (φ : Expr → Expr) :
    Option (List Stmt) → List (List Stmt) → Option (List Stmt)
  | none, _ => none
  | some ss, blocks => some (Stmt.spliceList φ ss blocks)

end

theorem Slot.mapExprs_eq_map (φ : Expr → Expr) (slots : List Slot) :
    Slot.mapExprs φ slots = slots.map fun s => ⟨s.target.mapExpr φ, s.starred⟩ := by
  induction slots with
  | nil => rfl
  | cons s ss ih => rw [Slot.mapExprs, ih, List.map_cons]

@[simp] theorem Slot.length_mapExprs (φ : Expr → Expr) (slots : List Slot) :
    (Slot.mapExprs φ slots).length = slots.length := by
  rw [Slot.mapExprs_eq_map, List.length_map]

@[simp] theorem Slot.any_starred_mapExprs (φ : Expr → Expr) (slots : List Slot) :
    (Slot.mapExprs φ slots).any (·.starred) = slots.any (·.starred) := by
  rw [Slot.mapExprs_eq_map, List.any_map]
  rfl

/-! ### Blocks to splice in -/

mutual

/-- Only as many blocks matter as there are functions declared. -/
theorem Stmt.splice_append (φ : Expr → Expr) (s : Stmt) (bs bs' : List (List Stmt))
    (h : (s.collect closures).length ≤ bs.length) : s.splice φ (bs ++ bs') = s.splice φ bs := by
  cases s with
  | ifElse c thn els =>
    rw [Stmt.closures_ifElse, List.length_append] at h
    have hthn : (Stmt.collectList closures thn).length ≤ bs.length := by omega
    have hels : (Stmt.collectList closures els).length ≤
        (bs.drop (Stmt.collectList closures thn).length).length := by
      rw [List.length_drop]
      omega
    rw [Stmt.splice, Stmt.splice, Stmt.spliceList_append φ thn bs bs' hthn,
      List.drop_append_of_le_length hthn, Stmt.spliceList_append φ els _ bs' hels]
  | whileLoop c body =>
    rw [Stmt.closures_whileLoop] at h
    rw [Stmt.splice, Stmt.splice, Stmt.spliceList_append φ body bs bs' h]
  | forEach x it body els =>
    rw [Stmt.closures_forEach, List.length_append] at h
    have hbody : (Stmt.collectList closures body).length ≤ bs.length := by omega
    have hels : (Stmt.collectOption closures els).length ≤
        (bs.drop (Stmt.collectList closures body).length).length := by
      rw [List.length_drop]
      omega
    rw [Stmt.splice, Stmt.splice, Stmt.spliceList_append φ body bs bs' hbody,
      List.drop_append_of_le_length hbody, Stmt.spliceOption_append φ els _ bs' hels]
  | closure f =>
    cases bs with
    | nil => exact absurd h (Nat.not_succ_le_zero 0)
    | cons b bs => rfl
  | _ => rfl

theorem Stmt.spliceList_append (φ : Expr → Expr) (ss : List Stmt) (bs bs' : List (List Stmt))
    (h : (Stmt.collectList closures ss).length ≤ bs.length) :
    Stmt.spliceList φ ss (bs ++ bs') = Stmt.spliceList φ ss bs := by
  cases ss with
  | nil => rfl
  | cons s ss =>
    rw [Stmt.collectList, List.length_append] at h
    have hs : (s.collect closures).length ≤ bs.length := by omega
    have hss : (Stmt.collectList closures ss).length ≤
        (bs.drop (s.collect closures).length).length := by
      rw [List.length_drop]
      omega
    rw [Stmt.spliceList, Stmt.spliceList, s.splice_append φ bs bs' hs,
      List.drop_append_of_le_length hs, Stmt.spliceList_append φ ss _ bs' hss]

theorem Stmt.spliceOption_append (φ : Expr → Expr) (els : Option (List Stmt))
    (bs bs' : List (List Stmt)) (h : (Stmt.collectOption closures els).length ≤ bs.length) :
    Stmt.spliceOption φ els (bs ++ bs') = Stmt.spliceOption φ els bs := by
  cases els with
  | none => rfl
  | some ss => exact congrArg some (Stmt.spliceList_append φ ss bs bs' h)

end

/-! ### Trees that stay as they are -/

mutual

/-- Where nothing is captured, nothing changes. -/
theorem Expr.redirect_eq_self {site : ClosureSite} (h : ∀ x, site.captures.contains x = false)
    (scope : List String) (e : Expr) : e.redirect site scope = e := by
  cases e with
  | id x s => simp [Expr.redirect, ClosureSite.isCaptured, h x]
  | literal | construct => rfl
  | unary _ a | builtin1 _ a | field a _ => rw [Expr.redirect, Expr.redirect_eq_self h scope a]
  | binary _ l r | builtin2 _ l r | index l r =>
    rw [Expr.redirect, Expr.redirect_eq_self h scope l, Expr.redirect_eq_self h scope r]
  | call f args | methodCall f _ args =>
    rw [Expr.redirect, Expr.redirect_eq_self h scope f, Expr.redirectList_eq_self h scope args]
  | list es | set es | tuple es => rw [Expr.redirect, Expr.redirectList_eq_self h scope es]
  | comprehension _ e x it c =>
    rw [Expr.redirect, Expr.redirect_eq_self h _ e, Expr.redirect_eq_self h scope it,
      Expr.redirectOption_eq_self h _ c]
  | ifElse c t e =>
    rw [Expr.redirect, Expr.redirect_eq_self h scope c, Expr.redirect_eq_self h scope t,
      Expr.redirect_eq_self h scope e]
  | lambda _ _ b _ => rw [Expr.redirect, Expr.redirect_eq_self h _ b]

theorem Expr.redirectList_eq_self {site : ClosureSite} (h : ∀ x, site.captures.contains x = false)
    (scope : List String) (es : List Expr) : Expr.redirectList site scope es = es := by
  cases es with
  | nil => rfl
  | cons e es =>
    rw [Expr.redirectList, Expr.redirect_eq_self h scope e, Expr.redirectList_eq_self h scope es]

theorem Expr.redirectOption_eq_self {site : ClosureSite} (h : ∀ x, site.captures.contains x = false)
    (scope : List String) (c : Option Expr) : Expr.redirectOption site scope c = c := by
  cases c with
  | none => rfl
  | some e => rw [Expr.redirectOption, Expr.redirect_eq_self h scope e]

end

theorem Slot.mapExprs_id (slots : List Slot) : Slot.mapExprs id slots = slots := by
  have target (t : Target) : t.mapExpr id = t := by cases t <;> rfl
  simp [Slot.mapExprs_eq_map, target]

mutual

/-- Where nothing is declared, there is nothing to put a block in the place of. -/
theorem Stmt.splice_eq_self (s : Stmt) (blocks : List (List Stmt)) (h : s.collect closures = []) :
    s.splice id blocks = [s] := by
  cases s with
  | unpack slots v => rw [Stmt.splice, Slot.mapExprs_id]; rfl
  | ret v => rw [Stmt.splice, Option.map_id_fun]; rfl
  | ifElse c thn els =>
    rw [Stmt.closures_ifElse, List.append_eq_nil_iff] at h
    rw [Stmt.splice, Stmt.spliceList_eq_self thn _ h.1, Stmt.spliceList_eq_self els _ h.2]
    rfl
  | whileLoop c body =>
    rw [Stmt.closures_whileLoop] at h
    rw [Stmt.splice, Stmt.spliceList_eq_self body _ h]
    rfl
  | forEach x it body els =>
    rw [Stmt.closures_forEach, List.append_eq_nil_iff] at h
    rw [Stmt.splice, Stmt.spliceList_eq_self body _ h.1, Stmt.spliceOption_eq_self els _ h.2]
    rfl
  | closure f => cases h
  | _ => rfl

theorem Stmt.spliceList_eq_self (ss : List Stmt) (blocks : List (List Stmt))
    (h : Stmt.collectList closures ss = []) : Stmt.spliceList id ss blocks = ss := by
  cases ss with
  | nil => rfl
  | cons s ss =>
    rw [Stmt.collectList, List.append_eq_nil_iff] at h
    rw [Stmt.spliceList, Stmt.splice_eq_self s _ h.1, Stmt.spliceList_eq_self ss _ h.2]
    rfl

theorem Stmt.spliceOption_eq_self (els : Option (List Stmt)) (blocks : List (List Stmt))
    (h : Stmt.collectOption closures els = []) : Stmt.spliceOption id els blocks = els := by
  cases els with
  | none => rfl
  | some ss => exact congrArg some (Stmt.spliceList_eq_self ss _ h)

end

/-! ### Substitution -/

variable {site : ClosureSite} {α β : Type}

/-- What cannot stand in a body whose captured variables are redirected. -/
def rejections (site : ClosureSite) : Collector ConversionError where
  expr
    | .lambda _ _ _ s => [.lambda site.closure s]
    | .construct c s => [.unloweredConstruct c site.closure s]
    | _ => []
  stmt
    | .closure g => [.nestedClosure g.name site.closure site.span g.span]
    | _ => []
  write value x :=
    if site.captures.contains x then
      [.capturedWrite x site.closure (value.span.orElse site.span)]
    else []

theorem ClosureSite.keeps_folder (site : ClosureSite) : site.folder.toScoping.Keeps
    (fun x st => { st with scope := x :: st.scope })
    fun _ st => { st with scope := st.scope.tail } :=
  ⟨fun _ _ => rfl, fun _ _ => rfl⟩

/-- From the state on, the step fails with the first of the errors or else has the answer `a`.  The
state is the same in the end, also if the step fails. -/
def Yields (st : Substitution) (act : SubstituteM α) (errors : List ConversionError) (a : α) :
    Prop :=
  act.run st = (okUnless errors a, st)

namespace Yields

variable {st : Substitution} {act : SubstituteM α} {next : α → SubstituteM β}
  {es fs gs : List ConversionError} {a : α} {b : β}

theorem pure (a : α) : Yields st (pure a) [] a := rfl

theorem bind (h : Yields st act es a) (h' : Yields st (next a) fs b) :
    Yields st (act >>= next) (es ++ fs) b := by
  rw [Yields, run_bind, h]
  cases es with
  | nil => exact h'
  | cons e es => rfl

theorem map (f : α → β) (h : Yields st act es a) :
    Yields st (act >>= fun a => Pure.pure (f a)) es (f a) := by
  have both : Yields st (act >>= fun a => Pure.pure (f a)) (es ++ []) (f a) :=
    h.bind (Yields.pure (f a))
  rwa [List.append_nil] at both

theorem assoc (h : Yields st act (es ++ (fs ++ gs)) a) : Yields st act (es ++ fs ++ gs) a := by
  rwa [List.append_assoc]

theorem within (site : ClosureSite) {x : String}
    (h : Yields { st with scope := x :: st.scope } act es a) :
    Yields st (site.folder.within [x] act) es a := by
  rw [Yields, site.keeps_folder.run_within, List.foldl_cons, List.foldl_nil, h]
  rfl

theorem id (x : String) (s : Span) :
    Yields st (Expr.fold site.folder (.id x s)) [] (Expr.redirect site st.scope (.id x s)) := by
  have replacement : (site.folder.expr (.id x s)).run st =
      (.ok (if site.isCaptured x st.scope then some (.field (.id site.receiver s) x) else none),
        st) := by
    change (if site.isCaptured x st.scope then Pure.pure (some _) else Pure.pure none :
      SubstituteM (Option Expr)).run st = _
    split <;> rfl
  rw [Yields, Expr.fold, replaceOr, run_bind, replacement, Expr.redirect]
  cases site.isCaptured x st.scope <;> rfl

/-- A write is reported at the value, if the statement has left the position of it. -/
theorem write (value : Expr) (x : String) :
    Yields ⟨[], value.span.orElse site.span⟩ (site.folder.write x)
      ((rejections site).write value x) x := by
  have captured : site.isCaptured x [] = site.captures.contains x := by
    simp [ClosureSite.isCaptured]
  change (if site.isCaptured x [] then throw _ else Pure.pure x : SubstituteM String).run _ =
    (okUnless (if site.captures.contains x then _ else _) x, _)
  rw [captured]
  split <;> rfl

end Yields

mutual

theorem Expr.yields_fold (st : Substitution) (e : Expr) :
    Yields st (e.fold site.folder) (e.collect (rejections site)) (e.redirect site st.scope) := by
  cases e with
  | literal v => exact .pure _
  | id x s => exact .id x s
  | unary _ a | builtin1 _ a | field a _ => exact (a.yields_fold st).map _
  | binary _ l r | builtin2 _ l r | index l r =>
    exact (l.yields_fold st).bind ((r.yields_fold st).map _)
  | call f args | methodCall f _ args =>
    exact (f.yields_fold st).bind ((Expr.yields_foldList st args).map _)
  | list es | set es | tuple es => exact (Expr.yields_foldList st es).map _
  | comprehension k e x it c =>
    let inside : Substitution := { st with scope := x :: st.scope }
    have inner : Yields inside (do
        let e ← e.fold site.folder
        let c ← Expr.foldOption site.folder c
        return (e, c)) (e.collect (rejections site) ++ Expr.collectOption (rejections site) c)
        (e.redirect site (x :: st.scope), Expr.redirectOption site (x :: st.scope) c) :=
      (e.yields_fold inside).bind ((Expr.yields_foldOption inside c).map _)
    exact (it.yields_fold st).bind ((inner.within site).map fun ec =>
      Expr.comprehension k ec.1 x (it.redirect site st.scope) ec.2)
  | ifElse c t e =>
    exact ((c.yields_fold st).bind
      ((t.yields_fold st).bind ((e.yields_fold st).map _))).assoc
  | construct | lambda => rfl

theorem Expr.yields_foldList (st : Substitution) (es : List Expr) :
    Yields st (Expr.foldList site.folder es) (Expr.collectList (rejections site) es)
      (Expr.redirectList site st.scope es) := by
  cases es with
  | nil => exact .pure _
  | cons e es => exact (e.yields_fold st).bind ((Expr.yields_foldList st es).map _)

theorem Expr.yields_foldOption (st : Substitution) (c : Option Expr) :
    Yields st (Expr.foldOption site.folder c) (Expr.collectOption (rejections site) c)
      (Expr.redirectOption site st.scope c) := by
  cases c with
  | none => exact .pure _
  | some e => exact (e.yields_fold st).map _

end

theorem Target.yields_fold (value : Expr) (t : Target) :
    Yields ⟨[], value.span.orElse site.span⟩ (t.fold site.folder)
      (t.collect (rejections site) value) (t.mapExpr (Expr.redirect site [])) := by
  cases t with
  | id x => exact (Yields.write value x).map _
  | field o x => exact (o.yields_fold _).map _
  | index o i => exact (o.yields_fold _).bind ((i.yields_fold _).map _)
  | ignore => exact .pure _

theorem Slot.yields_foldList (value : Expr) (slots : List Slot) :
    Yields ⟨[], value.span.orElse site.span⟩ (Slot.foldList site.folder slots)
      (Slot.collectList (rejections site) value slots)
      (Slot.mapExprs (Expr.redirect site []) slots) := by
  induction slots with
  | nil => exact .pure _
  | cons s ss ih => exact (s.target.yields_fold value).bind (ih.map _)

theorem Expr.redirectOption_eq_map (scope : List String) (c : Option Expr) :
    Expr.redirectOption site scope c = c.map (Expr.redirect site scope) := by
  cases c <;> rfl

/-! ### Statements

A statement leaves a position behind, which is that of its last part.  Nothing depends on it, since
the next statement begins with a position of its own. -/

/-- From the position on, the step fails with the first of the errors or else has the answer `a`,
and leaves some position. -/
def YieldsBlock (position : Span) (act : SubstituteM α) (errors : List ConversionError) (a : α) :
    Prop :=
  ∃ left, act.run ⟨[], position⟩ = (okUnless errors a, ⟨[], left⟩)

section Blocks

variable {position : Span} {act : SubstituteM α} {next : α → SubstituteM β}
  {es fs gs : List ConversionError} {a : α} {b : β}

theorem Yields.block (h : Yields ⟨[], position⟩ act es a) : YieldsBlock position act es a :=
  ⟨position, h⟩

/-- Parts of a statement, one after the other. -/
theorem Yields.before (h : Yields ⟨[], position⟩ act es a)
    (h' : YieldsBlock position (next a) fs b) :
    YieldsBlock position (act >>= next) (es ++ fs) b := by
  rw [YieldsBlock, run_bind, h]
  cases es with
  | nil => exact h'
  | cons e es => exact ⟨position, rfl⟩

namespace YieldsBlock

theorem bind (h : YieldsBlock position act es a)
    (h' : ∀ position, YieldsBlock position (next a) fs b) :
    YieldsBlock position (act >>= next) (es ++ fs) b := by
  obtain ⟨left, h⟩ := h
  rw [YieldsBlock, run_bind, h]
  cases es with
  | nil => exact h' left
  | cons e es => exact ⟨left, rfl⟩

theorem map (f : α → β) (h : YieldsBlock position act es a) :
    YieldsBlock position (act >>= fun a => Pure.pure (f a)) es (f a) := by
  have both : YieldsBlock position (act >>= fun a => Pure.pure (f a)) (es ++ []) (f a) :=
    h.bind fun _ => (Yields.pure (f a)).block
  rwa [List.append_nil] at both

theorem assoc (h : YieldsBlock position act (es ++ (fs ++ gs)) a) :
    YieldsBlock position act (es ++ fs ++ gs) a := by
  rwa [List.append_assoc]

/-- A statement that gives a value to names is rebuilt with the position of the value. -/
theorem bound {s : Stmt} {value : Expr} (hs : s.value? = some value)
    {rebuilt : SubstituteM (List Stmt)} {ss : List Stmt}
    (h : YieldsBlock (value.span.orElse site.span) rebuilt es ss) :
    YieldsBlock position (replaceOr (site.folder.stmt s) rebuilt) es ss := by
  have known : s.valueSpan?.getD site.span = value.span.orElse site.span := by
    cases dummy : value.span.isDummy <;>
      simp [Stmt.valueSpan?, hs, Option.filter, Span.orElse, dummy]
  have kept : (site.folder.stmt s).run ⟨[], position⟩ =
      (.ok none, ⟨[], s.valueSpan?.getD site.span⟩) := by
    cases s with
    | closure g => cases hs
    | _ => rfl
  rw [YieldsBlock, replaceOr, run_bind, kept, known]
  exact h

end YieldsBlock

end Blocks

mutual

theorem Stmt.yields_fold (position : Span) (s : Stmt) (blocks : List (List Stmt)) :
    YieldsBlock position (s.fold site.folder) (s.collect (rejections site))
      (s.splice (Expr.redirect site []) blocks) := by
  cases s with
  | assign x v =>
    exact .bound rfl ((v.yields_fold _).bind ((Yields.write v x).map _)).block
  | unpack slots v =>
    exact .bound rfl ((v.yields_fold _).bind ((Slot.yields_foldList v slots).map _)).block
  | ret v =>
    rw [Stmt.splice, ← Expr.redirectOption_eq_map]
    exact ((Expr.yields_foldOption _ v).map _).block
  | expr e => exact ((e.yields_fold _).map _).block
  | setField o f v => exact ((o.yields_fold _).bind ((v.yields_fold _).map _)).block
  | setIndex o i v =>
    exact ((o.yields_fold _).bind ((i.yields_fold _).bind ((v.yields_fold _).map _))).assoc.block
  | ifElse c thn els =>
    exact ((c.yields_fold _).before ((Stmt.yields_foldList _ thn blocks).bind fun _ =>
      (Stmt.yields_foldList _ els _).map _)).assoc
  | whileLoop c body =>
    exact (c.yields_fold _).before ((Stmt.yields_foldList _ body blocks).map _)
  | forEach x it body els =>
    exact .bound rfl ((it.yields_fold _).before ((Yields.write it x).before
      ((Stmt.yields_foldList _ body blocks).bind fun _ =>
        (Stmt.yields_foldOption _ els _).map _))).assoc.assoc
  | pass | nonlocal | global | breakLoop | continueLoop => exact (Yields.pure _).block
  | closure f => exact ⟨_, rfl⟩

theorem Stmt.yields_foldList (position : Span) (ss : List Stmt) (blocks : List (List Stmt)) :
    YieldsBlock position (Stmt.foldList site.folder ss) (Stmt.collectList (rejections site) ss)
      (Stmt.spliceList (Expr.redirect site []) ss blocks) := by
  cases ss with
  | nil => exact (Yields.pure _).block
  | cons s ss =>
    exact (s.yields_fold position blocks).bind fun _ => (Stmt.yields_foldList _ ss _).map _

theorem Stmt.yields_foldOption (position : Span) (els : Option (List Stmt))
    (blocks : List (List Stmt)) :
    YieldsBlock position (Stmt.foldOption site.folder els)
      (Stmt.collectOption (rejections site) els)
      (Stmt.spliceOption (Expr.redirect site []) els blocks) := by
  cases els with
  | none => exact (Yields.pure _).block
  | some ss => exact (Stmt.yields_foldList position ss blocks).map _

end

/-- **The body of a closure with its captured variables redirected.** -/
theorem substituteCaptures_eq (site : ClosureSite) (body : List Stmt) :
    substituteCaptures site body =
      okUnless (Stmt.collectList (rejections site) body)
        (Stmt.spliceList (Expr.redirect site []) body []) := by
  obtain ⟨left, h⟩ : YieldsBlock site.span (Stmt.foldList site.folder body) _ _ :=
    Stmt.yields_foldList site.span body []
  rw [substituteCaptures, h]

end FlatClosure

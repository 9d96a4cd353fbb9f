import FlatClosure.Proofs.Acceptance
import FlatClosure.Proofs.Rebuilt

/-!
# Captured reads and how to restore them

In the body of a closure the captured variables are read from the receiver, and nothing else is
changed: the traversal that reads the fields of the receiver as variables again (`restoring`) gives
the body back.  Which reads are changed is said with `scopedReads`, which lists every read with the
comprehension variables around it.

* `substituteCaptures_eq_ok` : when there is a body, and which.
* `Stmt.foldList_restoring` : **the body can be restored.**
* `Rereads.law` : **reads of captured variables become reads of the receiver, except where a
  comprehension binds the variable.**
* `captured_reads_redirected` : both, for the body that the substitution gives.
-/

namespace FlatClosure

theorem substituteCaptures_eq_ok {site : ClosureSite} {body body' : List Stmt} :
    substituteCaptures site body = .ok body' ↔
      (Stmt.collectList closures body = [] ∧ Stmt.collectList lambdas body = [] ∧
        Stmt.collectList constructs body = [] ∧
        ∀ x ∈ Stmt.collectList written body, x ∉ site.captures.names) ∧
      Stmt.spliceList (Expr.redirect site []) body [] = body' := by
  have owner : FunDef := ⟨site.closure, [], .none, [], body, site.span⟩
  rw [substituteCaptures_eq, okUnless_eq_ok, (rejections_law owner site).holdsBlock body,
    (obstacles_law owner).holdsBlock body]
  simp only [and_assoc]

/-! ### Reads in their scopes -/

/-- A name that is read. -/
structure ScopedRead where
  name : String
  span : Span
  /-- The comprehension variables around it, innermost first. -/
  scope : List String := []
  deriving DecidableEq

/-- The name and its position. -/
def ScopedRead.read (r : ScopedRead) : String × Span := (r.name, r.span)

/-- No comprehension around binds the name. -/
def ScopedRead.isFree (r : ScopedRead) : Bool := !r.scope.contains r.name

/-- The names read, in the scopes where they are read. -/
def scopedReads : Collector ScopedRead where
  expr
    | .id x s => [⟨x, s, []⟩]
    | _ => []
  scope x rs := rs.map fun r => { r with scope := r.scope ++ [x] }

/-- The reads that no comprehension binds are the free ones. -/
theorem freeReads_law : TreeLaw fun part =>
    part freeReads = ((part scopedReads).filter ScopedRead.isFree).map ScopedRead.read where
  nil := rfl
  append ha hb := by simp only [ha, hb, List.filter_append, List.map_append]
  expr e := by cases e <;> rfl
  scope x a ha := by
    have inner (r : ScopedRead) : ({ r with scope := r.scope ++ [x] } : ScopedRead).isFree =
        (decide (r.name ≠ x) && r.isFree) := by
      rw [Bool.eq_iff_iff]
      simp [ScopedRead.isFree, and_comm]
    change (a freeReads).filter _ =
      (((a scopedReads).map fun r => { r with scope := r.scope ++ [x] }).filter _).map _
    simp only [ha, List.filter_map, List.filter_filter, List.map_map, Function.comp_def, inner]
    rfl
  stmt _ := rfl
  write _ _ := rfl

theorem Stmt.freeReads_eq (ss : List Stmt) : Stmt.collectList freeReads ss =
    ((Stmt.collectList scopedReads ss).filter ScopedRead.isFree).map ScopedRead.read :=
  freeReads_law.holdsBlock ss

/-- Scopes are those of comprehension variables. -/
theorem scope_law : TreeLaw fun part =>
    ∀ r ∈ part scopedReads, ∀ x ∈ r.scope, x ∈ part boundVars where
  nil := by simp
  append ha hb r hr x hx :=
    List.mem_append.2 ((List.mem_append.1 hr).imp (ha r · x hx) (hb r · x hx))
  expr e := by cases e <;> simp [scopedReads]
  scope y a ha r hr x hx := by
    obtain ⟨r, hr', rfl⟩ := List.mem_map.1 hr
    rcases List.mem_append.1 hx with hx | hx
    · exact List.mem_cons_of_mem _ (ha r hr' x hx)
    · exact List.mem_singleton.1 hx ▸ List.mem_cons_self
  stmt _ := by simp [scopedReads]
  write _ _ := by simp [scopedReads]

/-! ### Reads of captured variables -/

/-- What becomes of a read, with more variables in scope around the tree. -/
def ClosureSite.reread (site : ClosureSite) (scope : List String) (r : ScopedRead) : ScopedRead :=
  if site.isCaptured r.name (r.scope ++ scope) then { r with name := site.receiver } else r

/-- The reads in a part of a tree, before and after captured variables are read from the
receiver. -/
def Rereads (site : ClosureSite) (scope : List String) (a a' : Part) : Prop :=
  a' scopedReads = (a scopedReads).map (site.reread scope)

theorem Rereads.law (site : ClosureSite) : RedirectLaw site (Rereads site) where
  nil := rfl
  append {scope a a' b b'} h h' := by
    change a' scopedReads ++ b' scopedReads = (a scopedReads ++ b scopedReads).map _
    rw [List.map_append]
    exact congr (congrArg _ h) h'
  id {scope} x s := by
    change ((Expr.id x s).redirect site scope).collect scopedReads = [site.reread scope ⟨x, s, []⟩]
    rw [Expr.redirect, ClosureSite.reread, List.nil_append]
    split <;> rfl
  node {scope e e'} _ _ hid hid' := by
    have none {e : Expr} (h : e.id? = none) : scopedReads.expr e = [] := by
      cases e with
      | id => cases h
      | _ => rfl
    rw [Rereads, none hid, none hid']
    rfl
  construct _ _ := rfl
  lambda _ _ _ _ _ := rfl
  inScope {scope x a a'} h := by
    have outer (r : ScopedRead) : site.reread scope { r with scope := r.scope ++ [x] } =
        { site.reread (x :: scope) r with scope := r.scope ++ [x] } := by
      simp only [ClosureSite.reread, List.append_assoc, List.singleton_append]
      split <;> rfl
    have kept (r : ScopedRead) : (site.reread (x :: scope) r).scope = r.scope := by
      rw [ClosureSite.reread]
      split <;> rfl
    change (a' scopedReads).map _ = ((a scopedReads).map _).map _
    rw [show a' scopedReads = _ from h, List.map_map, List.map_map]
    refine List.map_congr_left fun r _ => ?_
    simp only [Function.comp_apply, outer, kept]
  stmt _ _ := rfl
  declaration _ := rfl
  write _ _ _ := rfl

theorem ClosureSite.isFree_reread {site : ClosureSite} {r : ScopedRead}
    (h : site.receiver ∉ r.scope) : (site.reread [] r).isFree = r.isFree := by
  rw [ClosureSite.reread, List.append_nil]
  split
  · rename_i captured
    have free : r.isFree = true := (Bool.and_eq_true_iff.1 captured).2
    rw [free]
    simpa [ScopedRead.isFree] using h
  · rfl

/-- The free reads, if the receiver is no comprehension variable around a read. -/
theorem ClosureSite.free_reread {site : ClosureSite} {rs : List ScopedRead}
    (h : ∀ r ∈ rs, site.receiver ∉ r.scope) :
    ((rs.map (site.reread [])).filter ScopedRead.isFree).map ScopedRead.read =
      ((rs.filter ScopedRead.isFree).map ScopedRead.read).map fun r =>
        if site.captures.contains r.1 then (site.receiver, r.2) else r := by
  have same : rs.filter (ScopedRead.isFree ∘ site.reread []) = rs.filter ScopedRead.isFree :=
    List.filter_congr fun r hr => isFree_reread (h r hr)
  rw [List.filter_map, same, List.map_map, List.map_map]
  refine List.map_congr_left fun r hr => ?_
  have free : r.name ∉ r.scope := by simpa [ScopedRead.isFree] using (List.mem_filter.1 hr).2
  cases captured : site.captures.contains r.name with
  | true => simp [ClosureSite.reread, ClosureSite.isCaptured, ScopedRead.read, captured, free]
  | false => simp [ClosureSite.reread, ClosureSite.isCaptured, ScopedRead.read, captured]

/-! ### Restoring the body -/

/-- The traversal that reads the fields of a receiver as variables. -/
def restoring (receiver : String) : Folder Id where
  stmt _ := none
  expr
    | .field (.id x s) f => if x = receiver then some (.id f s) else none
    | _ => none
  write x := x
  enter _ := ()
  exit _ := ()

/-- The traversal gives `a`. -/
def Restores {α : Type} (x : Id α) (a : α) : Prop := x = a

namespace Restores

variable {α β : Type} {x : Id α} {a : α} {b : β}

theorem bind {f : α → Id β} (h : Restores x a) (h' : Restores (f a) b) :
    Restores (x >>= f) b := by
  rw [Restores, h]
  exact h'

theorem map (f : α → β) (h : Restores x a) : Restores (x >>= fun a => pure (f a)) (f a) :=
  h.bind rfl

/-- A node that is not replaced. -/
theorem node (h : Restores x a) : Restores (replaceOr (m := Id) none x) a := h

theorem within (receiver : String) (xs : List String) (h : Restores x a) :
    Restores ((restoring receiver).within xs x) a := h

theorem field {receiver : String} {o o' : Expr} (ho : o.id? ≠ some receiver)
    (h : Restores (o.fold (restoring receiver)) o') (f : String) :
    Restores ((Expr.field o f).fold (restoring receiver)) (.field o' f) := by
  cases o with
  | id x s =>
    have other : x ≠ receiver := fun hx => ho (congrArg some hx)
    change replaceOr (m := Id) (if x = receiver then some (Expr.id f s) else none) _ = _
    rw [if_neg other]
    exact (h.map _).node
  | _ => exact (h.map _).node

theorem receiver (r : String) (s : Span) (x : String) :
    Restores ((Expr.field (.id r s) x).fold (restoring r)) (.id x s) := by
  change replaceOr (m := Id) (if r = r then some (Expr.id x s) else none) _ = _
  rw [if_pos rfl]
  rfl

end Restores

theorem Expr.id?_redirect {site : ClosureSite} (scope : List String) {e : Expr}
    (h : site.receiver ∉ (e.collect scopedReads).map (·.name)) :
    (e.redirect site scope).id? ≠ some site.receiver := by
  cases e with
  | id x s =>
    rw [Expr.redirect]
    split
    · exact fun h => by cases h
    · rintro ⟨rfl⟩
      exact h List.mem_cons_self
  | _ => exact fun h => by cases h

theorem names_scopedReads (ps : List Param) (rs : List ScopedRead) :
    (ps.foldr (fun p rs => scopedReads.scope p.name rs) rs).map (·.name) = rs.map (·.name) := by
  induction ps with
  | nil => rfl
  | cons p ps ih =>
    rw [← ih, List.foldr_cons]
    exact List.map_map

theorem not_mem_names_append {x : String} {rs rs' : List ScopedRead}
    (h : x ∉ (rs ++ rs').map (·.name)) : x ∉ rs.map (·.name) ∧ x ∉ rs'.map (·.name) := by
  rwa [List.map_append, List.mem_append, not_or] at h

section Trees

variable {site : ClosureSite}

mutual

theorem Expr.fold_restoring (scope : List String) (e : Expr)
    (h : site.receiver ∉ (e.collect scopedReads).map (·.name)) :
    Restores ((e.redirect site scope).fold (restoring site.receiver)) e := by
  cases e with
  | literal | construct => rfl
  | id x s =>
    rw [Expr.redirect]
    split
    · exact .receiver site.receiver s x
    · rfl
  | unary _ a | builtin1 _ a => exact ((a.fold_restoring scope h).map _).node
  | field a f =>
    have unread : site.receiver ∉ (a.collect scopedReads).map (·.name) := h
    exact .field (Expr.id?_redirect scope unread) (a.fold_restoring scope unread) f
  | binary _ l r | builtin2 _ l r | index l r =>
    obtain ⟨hl, hr⟩ := not_mem_names_append h
    exact ((l.fold_restoring scope hl).bind ((r.fold_restoring scope hr).map _)).node
  | call f args | methodCall f _ args =>
    obtain ⟨hf, hargs⟩ := not_mem_names_append h
    exact ((f.fold_restoring scope hf).bind ((Expr.foldList_restoring scope args hargs).map _)).node
  | list es | set es | tuple es => exact ((Expr.foldList_restoring scope es h).map _).node
  | comprehension k e x it c =>
    obtain ⟨hit, inner⟩ := not_mem_names_append h
    have inner : site.receiver ∉
        (e.collect scopedReads ++ Expr.collectOption scopedReads c).map (·.name) := by
      have same := names_scopedReads [⟨x, .none⟩]
        (e.collect scopedReads ++ Expr.collectOption scopedReads c)
      rw [← same]
      exact inner
    obtain ⟨he, hc⟩ := not_mem_names_append inner
    have inScope : Restores (do
        let e ← (e.redirect site (x :: scope)).fold (restoring site.receiver)
        let c ← Expr.foldOption (restoring site.receiver) (Expr.redirectOption site (x :: scope) c)
        return (e, c)) (e, c) :=
      (e.fold_restoring _ he).bind ((Expr.foldOption_restoring _ c hc).map _)
    exact ((it.fold_restoring scope hit).bind ((inScope.within site.receiver [x]).map fun ec =>
      Expr.comprehension k ec.1 x it ec.2)).node
  | ifElse c t e =>
    obtain ⟨hct, he⟩ := not_mem_names_append h
    obtain ⟨hc, ht⟩ := not_mem_names_append hct
    exact ((c.fold_restoring scope hc).bind
      ((t.fold_restoring scope ht).bind ((e.fold_restoring scope he).map _))).node
  | lambda ps ty b s =>
    have unread : site.receiver ∉ (b.collect scopedReads).map (·.name) := by
      rw [← names_scopedReads ps]
      exact h
    exact (((b.fold_restoring _ unread).within site.receiver (ps.map (·.name))).map
      (Expr.lambda ps ty · s)).node

theorem Expr.foldList_restoring (scope : List String) (es : List Expr)
    (h : site.receiver ∉ (Expr.collectList scopedReads es).map (·.name)) :
    Restores (Expr.foldList (restoring site.receiver) (Expr.redirectList site scope es)) es := by
  cases es with
  | nil => rfl
  | cons e es =>
    obtain ⟨he, hes⟩ := not_mem_names_append h
    exact (e.fold_restoring scope he).bind ((Expr.foldList_restoring scope es hes).map _)

theorem Expr.foldOption_restoring (scope : List String) (c : Option Expr)
    (h : site.receiver ∉ (Expr.collectOption scopedReads c).map (·.name)) :
    Restores (Expr.foldOption (restoring site.receiver) (Expr.redirectOption site scope c)) c := by
  cases c with
  | none => rfl
  | some e => exact (e.fold_restoring scope h).map _

end

theorem Slot.foldList_restoring (value : Expr) (slots : List Slot)
    (h : site.receiver ∉ (Slot.collectList scopedReads value slots).map (·.name)) :
    Restores (Slot.foldList (restoring site.receiver)
      (Slot.mapExprs (Expr.redirect site []) slots)) slots := by
  induction slots with
  | nil => rfl
  | cons s ss ih =>
    obtain ⟨hs, hss⟩ := not_mem_names_append h
    obtain ⟨t, starred⟩ := s
    have target :
        Restores ((t.mapExpr (Expr.redirect site [])).fold (restoring site.receiver)) t := by
      cases t with
      | id | ignore => rfl
      | field o _ => exact (o.fold_restoring [] hs).map _
      | index o i =>
        obtain ⟨ho, hi⟩ := not_mem_names_append hs
        exact (o.fold_restoring [] ho).bind ((i.fold_restoring [] hi).map _)
    exact target.bind ((ih hss).map _)

theorem Restores.single {r : String} {s s' : Stmt} (h : Restores (s'.fold (restoring r)) [s]) :
    Restores (Stmt.foldList (restoring r) [s']) [s] := h.bind rfl

theorem Restores.append {r : String} {ss ss' us us' : List Stmt}
    (h : Restores (Stmt.foldList (restoring r) ss') ss)
    (h' : Restores (Stmt.foldList (restoring r) us') us) :
    Restores (Stmt.foldList (restoring r) (ss' ++ us')) (ss ++ us) := by
  have split (ss' : List Stmt) : (Stmt.foldList (restoring r) (ss' ++ us')).run =
      (Stmt.foldList (restoring r) ss').run ++ (Stmt.foldList (restoring r) us').run := by
    induction ss' with
    | nil => rfl
    | cons s ss' ih =>
      change (s.fold (restoring r)).run ++ (Stmt.foldList (restoring r) (ss' ++ us')).run = _
      rw [ih]
      exact (List.append_assoc _ _ _).symm
  exact (split ss').trans (congr (congrArg _ h) h')

mutual

theorem Stmt.fold_restoring (s : Stmt) (blocks : List (List Stmt))
    (flat : s.collect closures = [])
    (h : site.receiver ∉ (s.collect scopedReads).map (·.name)) :
    Restores (Stmt.foldList (restoring site.receiver) (s.splice (Expr.redirect site []) blocks))
      [s] := by
  cases s with
  | assign x v =>
    obtain ⟨hv, -⟩ := not_mem_names_append h
    exact .single ((v.fold_restoring [] hv).bind (.map (a := x) _ rfl)).node
  | unpack slots v =>
    obtain ⟨hv, hs⟩ := not_mem_names_append h
    exact .single ((v.fold_restoring [] hv).bind
      ((Slot.foldList_restoring v slots hs).map _)).node
  | ret v =>
    rw [Stmt.splice, ← Expr.redirectOption_eq_map]
    exact .single ((Expr.foldOption_restoring [] v h).map _).node
  | expr e => exact .single ((e.fold_restoring [] h).map _).node
  | setField o _ v =>
    obtain ⟨ho, hv⟩ := not_mem_names_append h
    exact .single ((o.fold_restoring [] ho).bind ((v.fold_restoring [] hv).map _)).node
  | setIndex o i v =>
    obtain ⟨hoi, hv⟩ := not_mem_names_append h
    obtain ⟨ho, hi⟩ := not_mem_names_append hoi
    exact .single ((o.fold_restoring [] ho).bind
      ((i.fold_restoring [] hi).bind ((v.fold_restoring [] hv).map _))).node
  | ifElse c thn els =>
    rw [Stmt.closures_ifElse, List.append_eq_nil_iff] at flat
    obtain ⟨hct, he⟩ := not_mem_names_append h
    obtain ⟨hc, ht⟩ := not_mem_names_append hct
    exact .single ((c.fold_restoring [] hc).bind
      ((Stmt.foldList_restoring thn blocks flat.1 ht).bind
        ((Stmt.foldList_restoring els _ flat.2 he).map _))).node
  | whileLoop c body =>
    rw [Stmt.closures_whileLoop] at flat
    obtain ⟨hc, hb⟩ := not_mem_names_append h
    exact .single ((c.fold_restoring [] hc).bind
      ((Stmt.foldList_restoring body blocks flat hb).map _)).node
  | forEach x it body els =>
    rw [Stmt.closures_forEach, List.append_eq_nil_iff] at flat
    obtain ⟨hib, he⟩ := not_mem_names_append h
    obtain ⟨hi, hb⟩ := not_mem_names_append hib
    obtain ⟨hit, -⟩ := not_mem_names_append hi
    exact .single ((it.fold_restoring [] hit).bind (.bind (a := x) rfl
      ((Stmt.foldList_restoring body blocks flat.1 hb).bind
        ((Stmt.foldOption_restoring els _ flat.2 he).map _)))).node
  | pass | nonlocal | global | breakLoop | continueLoop => rfl
  | closure f => cases flat

/-- The body of a closure can be restored. -/
theorem Stmt.foldList_restoring (ss : List Stmt) (blocks : List (List Stmt))
    (flat : Stmt.collectList closures ss = [])
    (h : site.receiver ∉ (Stmt.collectList scopedReads ss).map (·.name)) :
    Restores (Stmt.foldList (restoring site.receiver)
      (Stmt.spliceList (Expr.redirect site []) ss blocks)) ss := by
  cases ss with
  | nil => rfl
  | cons s ss =>
    rw [Stmt.collectList, List.append_eq_nil_iff] at flat
    obtain ⟨hs, hss⟩ := not_mem_names_append h
    exact (s.fold_restoring blocks flat.1 hs).append (Stmt.foldList_restoring ss _ flat.2 hss)

theorem Stmt.foldOption_restoring (els : Option (List Stmt)) (blocks : List (List Stmt))
    (flat : Stmt.collectOption closures els = [])
    (h : site.receiver ∉ (Stmt.collectOption scopedReads els).map (·.name)) :
    Restores (Stmt.foldOption (restoring site.receiver)
      (Stmt.spliceOption (Expr.redirect site []) els blocks)) els := by
  cases els with
  | none => rfl
  | some ss => exact (Stmt.foldList_restoring ss blocks flat h).map _

end

end Trees

/-! ### The body that the substitution gives -/

/-- **Captured reads.**  If there is a body with the captured variables read from a receiver that
is neither read nor a comprehension variable anywhere, then reading the fields of the receiver as
variables gives the first body back.  The free reads are those of the first body, with the receiver
in the place of captured variables, so that no captured variable but the receiver itself is read
free.  Reads in the scope of a comprehension variable of the same name stay as they are. -/
theorem captured_reads_redirected {site : ClosureSite} {body body' : List Stmt}
    (h : substituteCaptures site body = .ok body')
    (unread : site.receiver ∉ (Stmt.collectList scopedReads body).map (·.name))
    (unbound : site.receiver ∉ Stmt.collectList boundVars body) :
    (Stmt.foldList (restoring site.receiver) body').run = body ∧
    (Stmt.collectList freeReads body' = (Stmt.collectList freeReads body).map fun r =>
      if site.captures.contains r.1 then (site.receiver, r.2) else r) ∧
    (∀ x ∈ site.captures.names, x ≠ site.receiver →
      x ∉ (Stmt.collectList freeReads body').map Prod.fst) ∧
    Stmt.collectList scopedReads body' = (Stmt.collectList scopedReads body).map fun r =>
      if site.captures.contains r.name && !r.scope.contains r.name then
        { r with name := site.receiver }
      else r := by
  obtain ⟨⟨flat, -, -, -⟩, rfl⟩ := substituteCaptures_eq_ok.1 h
  have reads : Stmt.collectList scopedReads (Stmt.spliceList (Expr.redirect site []) body []) =
      (Stmt.collectList scopedReads body).map (site.reread []) :=
    (Rereads.law site).block body [] flat
  have scopes (r : ScopedRead) (hr : r ∈ Stmt.collectList scopedReads body) :
      site.receiver ∉ r.scope :=
    fun hx => unbound (scope_law.holdsBlock body r hr _ hx)
  have free : Stmt.collectList freeReads (Stmt.spliceList (Expr.redirect site []) body []) =
      (Stmt.collectList freeReads body).map fun r =>
        if site.captures.contains r.1 then (site.receiver, r.2) else r := by
    rw [Stmt.freeReads_eq body, Stmt.freeReads_eq, reads]
    exact ClosureSite.free_reread scopes
  refine ⟨Stmt.foldList_restoring body [] flat unread, free, fun x hx other => ?_, ?_⟩
  · rw [free, List.map_map]
    intro hread
    obtain ⟨r, -, hr⟩ := List.mem_map.1 hread
    rw [Function.comp_apply] at hr
    split at hr
    · exact other hr.symm
    · exact absurd (Bindings.contains_iff.2 (hr ▸ hx)) ‹_›
  · rw [reads]
    refine List.map_congr_left fun r _ => ?_
    rw [ClosureSite.reread, List.append_nil]
    rfl

/-- A body that reads `x` free and in the scope of a comprehension. -/
def sumBody : List Stmt :=
  [.ret (some (.binary .add (.id "x" ⟨0, 7, 8⟩) (.builtin1 "len"
    (.comprehension .list (.id "x" ⟨0, 16, 17⟩) "x" (.id "xs" ⟨0, 27, 29⟩) none))))]

/-- The closure with that body. -/
def sumSite : ClosureSite := ⟨"g", .dummy, ⟨[("x", .int), ("xs", .list .int)]⟩, "self"⟩

theorem captured_reads_redirected_sum :
    ∃ body', substituteCaptures sumSite sumBody = .ok body' ∧
      (Stmt.foldList (restoring "self") body').run = sumBody ∧
      Stmt.collectList scopedReads body' = [⟨"self", ⟨0, 7, 8⟩, []⟩, ⟨"self", ⟨0, 27, 29⟩, []⟩,
        ⟨"x", ⟨0, 16, 17⟩, ["x"]⟩] := by
  have h : substituteCaptures sumSite sumBody = .ok _ := rfl
  obtain ⟨restored, -, -, reads⟩ := captured_reads_redirected h (by decide) (by decide)
  exact ⟨_, h, restored, reads.trans (by decide)⟩

/-- The closure that captures a variable with the name of the receiver. -/
def ownSite : ClosureSite := ⟨"g", .dummy, ⟨[("x", .int), ("self", .int)]⟩, "self"⟩

/-- A captured variable with the name of the receiver is read free, although the body reads and
binds no such name. -/
theorem captured_receiver_read :
    substituteCaptures ownSite [.ret (some (.id "x" .dummy))] =
      .ok [.ret (some (.field (.id "self" .dummy) "x"))] ∧
    "self" ∉ (Stmt.collectList scopedReads [.ret (some (.id "x" .dummy))]).map (·.name) ∧
    "self" ∉ Stmt.collectList boundVars [.ret (some (.id "x" .dummy))] ∧
    "self" ∈ ownSite.captures.names ∧
    "self" ∈ (Stmt.collectList freeReads [.ret (some (.field (.id "self" .dummy) "x"))]).map
      Prod.fst :=
  ⟨rfl, by decide, by decide, by decide, by decide⟩

end FlatClosure

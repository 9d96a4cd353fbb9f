import FlatClosure.Proofs.Walks
import FlatClosure.Syntax.Render
import Mathlib.Data.List.Perm.Basic
import Mathlib.Data.List.Nodup

/-!
# The position of an expression

`Expr.span` is the first known position on the walk through an expression.  The walk goes by
evaluation and scope and not by the text: it meets the condition of a conditional expression before
the branch that is written in front of it, and the iterable of a comprehension before its element.
So the position found need not be the leftmost one of the text.

* `Expr.pieces` : the text of an expression in pieces, each with the position that it starts.
* `Agrees` : two orders of the same positions, and whether they have the same first known one.
* `Expr.agrees` : the order of the walk beside the order of the text.
* `span_first_known` : **the position is the leftmost known one unless the search for it comes to
  two parts in the wrong order, both with a known position.**
-/

namespace FlatClosure

/-! ### The first known position -/

@[simp] theorem Span.isDummy_dummy : Span.dummy.isDummy = true := rfl

/-- The position is known. -/
def Span.isKnown (s : Span) : Bool := !s.isDummy

/-- The first known position, dummy if there is none. -/
def firstKnown (ss : List Span) : Span := (ss.find? Span.isKnown).getD .dummy

/-- Some position is known. -/
def anyKnown (ss : List Span) : Bool := ss.any Span.isKnown

section FirstKnown

variable {ss ss' : List Span}

@[simp] theorem firstKnown_nil : firstKnown [] = .dummy := rfl

theorem firstKnown_cons (s : Span) (ss : List Span) :
    firstKnown (s :: ss) = s.orElse (firstKnown ss) := by
  cases h : s.isDummy <;> simp [firstKnown, Span.orElse, Span.isKnown, h]

theorem anyKnown_append : anyKnown (ss ++ ss') = (anyKnown ss || anyKnown ss') :=
  List.any_append

theorem anyKnown_perm (h : ss.Perm ss') : anyKnown ss = anyKnown ss' := h.any_eq

theorem firstKnown_of_not_anyKnown (h : anyKnown ss = false) : firstKnown ss = .dummy := by
  have none : ss.find? Span.isKnown = none := by simpa [anyKnown] using h
  rw [firstKnown, none]
  rfl

theorem mem_known_of_anyKnown (h : anyKnown ss = true) :
    firstKnown ss ∈ ss.filter Span.isKnown := by
  obtain ⟨s, hs⟩ : ∃ s, ss.find? Span.isKnown = some s :=
    Option.isSome_iff_exists.1 (by simpa [anyKnown] using h)
  rw [firstKnown, hs]
  exact List.mem_filter.2 ⟨List.mem_of_find?_eq_some hs, List.find?_some hs⟩

theorem firstKnown_append_of_known (h : anyKnown ss = true) :
    firstKnown (ss ++ ss') = firstKnown ss := by
  have some : (ss.find? Span.isKnown).isSome := by simpa [anyKnown] using h
  rw [firstKnown, List.find?_append, Option.or_of_isSome some]
  rfl

theorem firstKnown_append_of_not_known (h : anyKnown ss = false) :
    firstKnown (ss ++ ss') = firstKnown ss' := by
  have none : ss.find? Span.isKnown = none := by simpa [anyKnown] using h
  rw [firstKnown, List.find?_append, none]
  rfl

theorem isDummy_firstKnown (ss : List Span) : (firstKnown ss).isDummy = !anyKnown ss := by
  cases h : anyKnown ss with
  | true => simpa [Span.isKnown] using (List.mem_filter.1 (mem_known_of_anyKnown h)).2
  | false =>
    rw [firstKnown_of_not_anyKnown h]
    rfl

theorem firstKnown_append (ss ss' : List Span) :
    firstKnown (ss ++ ss') = (firstKnown ss).orElse (firstKnown ss') := by
  rw [Span.orElse, isDummy_firstKnown]
  cases h : anyKnown ss with
  | true => exact firstKnown_append_of_known h
  | false => exact firstKnown_append_of_not_known h

theorem firstKnown_eq_dummy_iff : firstKnown ss = .dummy ↔ ∀ s ∈ ss, s.isDummy = true := by
  have unknown : anyKnown ss = false ↔ ∀ s ∈ ss, s.isDummy = true := by
    simp [anyKnown, Span.isKnown]
  rw [← unknown]
  refine ⟨fun h => ?_, firstKnown_of_not_anyKnown⟩
  have dummy := isDummy_firstKnown ss
  rw [h, Span.isDummy_dummy] at dummy
  simpa using dummy.symm

end FirstKnown

/-! ### Two orders of the same positions -/

/-- Two orders of the same positions.  If the mark is unset they have the same first known position;
if it is set they have not, unless positions occur twice. -/
structure Agrees (vs ws : List Span) (apart : Bool) : Prop where
  perm : vs.Perm ws
  same : apart = false → firstKnown vs = firstKnown ws
  differ : apart = true → (ws.filter Span.isKnown).Nodup → firstKnown vs ≠ firstKnown ws

namespace Agrees

variable {vs ws vs' ws' : List Span} {b b' : Bool}

theorem refl (ss : List Span) : Agrees ss ss false :=
  ⟨.refl _, fun _ => rfl, fun h => absurd h Bool.false_ne_true⟩

/-- One stretch of positions behind another in both orders. -/
theorem append (h : Agrees vs ws b) (h' : Agrees vs' ws' b') :
    Agrees (vs ++ vs') (ws ++ ws') (if anyKnown vs then b else b') := by
  have known := anyKnown_perm h.perm
  cases hv : anyKnown vs with
  | true =>
    rw [hv] at known
    refine ⟨h.perm.append h'.perm, fun hb => ?_, fun hb nodup => ?_⟩ <;>
      rw [firstKnown_append_of_known hv, firstKnown_append_of_known known.symm]
    · exact h.same hb
    · rw [List.filter_append] at nodup
      exact h.differ hb nodup.of_append_left
  | false =>
    rw [hv] at known
    refine ⟨h.perm.append h'.perm, fun hb => ?_, fun hb nodup => ?_⟩ <;>
      rw [firstKnown_append_of_not_known hv, firstKnown_append_of_not_known known.symm]
    · exact h'.same hb
    · rw [List.filter_append] at nodup
      exact h'.differ hb nodup.of_append_right

/-- Two stretches of positions that change places. -/
theorem swap (h : Agrees vs ws b) (h' : Agrees vs' ws' b') :
    Agrees (vs ++ vs') (ws' ++ ws) (if anyKnown vs then anyKnown vs' || b else b') := by
  have known := anyKnown_perm h.perm
  have known' := anyKnown_perm h'.perm
  have perm : (vs ++ vs').Perm (ws' ++ ws) := (h.perm.append h'.perm).trans List.perm_append_comm
  cases hv : anyKnown vs with
  | false =>
    rw [hv] at known
    have first : firstKnown (ws' ++ ws) = firstKnown ws' := by
      cases hw : anyKnown ws' with
      | true => exact firstKnown_append_of_known hw
      | false =>
        rw [firstKnown_append_of_not_known hw, firstKnown_of_not_anyKnown hw,
          firstKnown_of_not_anyKnown known.symm]
    refine ⟨perm, fun hb => ?_, fun hb nodup => ?_⟩ <;>
      rw [firstKnown_append_of_not_known hv, first]
    · exact h'.same hb
    · rw [List.filter_append] at nodup
      exact h'.differ hb nodup.of_append_left
  | true =>
    rw [hv] at known
    cases hv' : anyKnown vs' with
    | false =>
      rw [hv'] at known'
      refine ⟨perm, fun hb => ?_, fun hb nodup => ?_⟩ <;>
        rw [firstKnown_append_of_known hv, firstKnown_append_of_not_known known'.symm]
      · exact h.same hb
      · rw [List.filter_append] at nodup
        exact h.differ hb nodup.of_append_right
    | true =>
      rw [hv'] at known'
      refine ⟨perm, fun h => absurd h (by simp), fun _ nodup equal => ?_⟩
      rw [firstKnown_append_of_known hv, firstKnown_append_of_known known'.symm] at equal
      -- The first known position of `vs` would also be one of `ws'`.
      have left := mem_known_of_anyKnown known'.symm
      have right := (h.perm.filter Span.isKnown).mem_iff.1 (mem_known_of_anyKnown hv)
      rw [List.filter_append] at nodup
      exact List.disjoint_of_nodup_append nodup left (equal ▸ right)

/-- Two stretches of positions that change places, and a third behind them. -/
theorem swap_append {us xs : List Span} {b'' : Bool} (h : Agrees vs ws b) (h' : Agrees vs' ws' b')
    (h'' : Agrees us xs b'') :
    Agrees (vs ++ vs' ++ us) (ws' ++ ws ++ xs)
      (if anyKnown vs then anyKnown vs' || b else if anyKnown vs' then b' else b'') := by
  have parts := (h.swap h').append h''
  rw [anyKnown_append] at parts
  cases hv : anyKnown vs <;> cases hv' : anyKnown vs' <;> simpa [hv, hv'] using parts

end Agrees

/-! ### The order of the text -/

/-- A piece of the text of an expression.  If it is where a name, a new object or a lambda
expression starts, it has the position of that. -/
structure Piece where
  text : String
  span : Option Span := none

mutual

/-- The text of an expression in pieces. -/
def Expr.pieces : Expr → List Piece
  | .literal v => [⟨v.render, none⟩]
  | .id x s => [⟨x, some s⟩]
  | .unary op e => ⟨"(" ++ op.sign, none⟩ :: e.pieces ++ [⟨")", none⟩]
  | .binary op l r =>
    ⟨"(", none⟩ :: l.pieces ++ ⟨" " ++ op.sign ++ " ", none⟩ :: r.pieces ++ [⟨")", none⟩]
  | .builtin1 f a => ⟨f ++ "(", none⟩ :: a.pieces ++ [⟨")", none⟩]
  | .builtin2 f l r => ⟨f ++ "(", none⟩ :: l.pieces ++ ⟨", ", none⟩ :: r.pieces ++ [⟨")", none⟩]
  | .call f args => f.pieces ++ ⟨"(", none⟩ :: Expr.piecesList args ++ [⟨")", none⟩]
  | .field o x => o.pieces ++ [⟨"." ++ x, none⟩]
  | .index o i => o.pieces ++ ⟨"[", none⟩ :: i.pieces ++ [⟨"]", none⟩]
  | .methodCall o f args =>
    o.pieces ++ ⟨"." ++ f ++ "(", none⟩ :: Expr.piecesList args ++ [⟨")", none⟩]
  | .list es => ⟨"[", none⟩ :: Expr.piecesList es ++ [⟨"]", none⟩]
  | .set es => ⟨"\x7b", none⟩ :: Expr.piecesList es ++ [⟨"\x7d", none⟩]
  | .tuple es =>
    ⟨"(", none⟩ :: Expr.piecesList es ++ [⟨(if es.length = 1 then "," else "") ++ ")", none⟩]
  | .comprehension k e x it c =>
    ⟨k.brackets.1, none⟩ :: e.pieces ++ ⟨" for " ++ x ++ " in ", none⟩ :: it.pieces ++
      Expr.piecesFilter c ++ [⟨k.brackets.2, none⟩]
  | .ifElse c t e =>
    ⟨"(", none⟩ :: t.pieces ++ ⟨" if ", none⟩ :: c.pieces ++ ⟨" else ", none⟩ :: e.pieces ++
      [⟨")", none⟩]
  | .construct x s => [⟨"new " ++ x ++ "()", some s⟩]
  | .lambda ps _ b s =>
    ⟨"(lambda" ++ (if ps.isEmpty then "" else " ") ++ ", ".intercalate (ps.map (·.name)) ++ ": ",
      some s⟩ :: b.pieces ++ [⟨")", none⟩]

/-- The text of expressions with commas between them, in pieces. -/
def Expr.piecesList : List Expr → List Piece
  | [] => []
  | [e] => e.pieces
  | e :: es => e.pieces ++ ⟨", ", none⟩ :: Expr.piecesList es

/-- The text of the condition of a comprehension, in pieces. -/
def Expr.piecesFilter : Option Expr → List Piece
  | none => []
  | some c => ⟨" if ", none⟩ :: c.pieces

end

/-- The text that pieces make together. -/
def piecesText (ps : List Piece) : String := String.join (ps.map (·.text))

@[simp] theorem piecesText_nil : piecesText [] = "" := rfl

@[simp] theorem piecesText_cons (p : Piece) (ps : List Piece) :
    piecesText (p :: ps) = p.text ++ piecesText ps := by
  simp [piecesText]

@[simp] theorem piecesText_append (ps qs : List Piece) :
    piecesText (ps ++ qs) = piecesText ps ++ piecesText qs := by
  simp [piecesText]

mutual

/-- The pieces make the text of the expression. -/
theorem Expr.piecesText_pieces (e : Expr) : piecesText e.pieces = e.render := by
  cases e with
  | literal | id | construct => simp [Expr.pieces, Expr.render]
  | unary _ a | builtin1 _ a | field a _ | lambda _ _ a _ =>
    simp [Expr.pieces, Expr.render, a.piecesText_pieces, String.append_assoc]
  | binary _ l r | builtin2 _ l r | index l r =>
    simp [Expr.pieces, Expr.render, l.piecesText_pieces, r.piecesText_pieces, String.append_assoc]
  | call f args | methodCall f _ args =>
    simp [Expr.pieces, Expr.render, f.piecesText_pieces, Expr.piecesText_list args,
      String.append_assoc]
  | list es | set es | tuple es =>
    simp [Expr.pieces, Expr.render, Expr.piecesText_list es, String.append_assoc]
  | comprehension _ e _ it c =>
    simp [Expr.pieces, Expr.render, e.piecesText_pieces, it.piecesText_pieces,
      Expr.piecesText_filter c, String.append_assoc]
  | ifElse c t e =>
    simp [Expr.pieces, Expr.render, c.piecesText_pieces, t.piecesText_pieces, e.piecesText_pieces,
      String.append_assoc]

theorem Expr.piecesText_list (es : List Expr) :
    piecesText (Expr.piecesList es) = Expr.renderList es := by
  cases es with
  | nil => rfl
  | cons e es =>
    have rest := Expr.piecesText_list es
    cases es with
    | nil => exact e.piecesText_pieces
    | cons e' es =>
      rw [Expr.piecesList, Expr.renderList, piecesText_append, piecesText_cons, rest,
        e.piecesText_pieces, String.append_assoc]
      · simp
      · simp

theorem Expr.piecesText_filter (c : Option Expr) :
    piecesText (Expr.piecesFilter c) = Expr.renderFilter c := by
  cases c with
  | none => rfl
  | some c => simp [Expr.piecesFilter, Expr.renderFilter, c.piecesText_pieces]

end

/-- The positions of pieces, in their order. -/
def piecesSpans (ps : List Piece) : List Span := ps.filterMap (·.span)

@[simp] theorem piecesSpans_nil : piecesSpans [] = [] := rfl

@[simp] theorem piecesSpans_none (text : String) (ps : List Piece) :
    piecesSpans (⟨text, none⟩ :: ps) = piecesSpans ps := rfl

@[simp] theorem piecesSpans_some (text : String) (s : Span) (ps : List Piece) :
    piecesSpans (⟨text, some s⟩ :: ps) = s :: piecesSpans ps := rfl

@[simp] theorem piecesSpans_append (ps qs : List Piece) :
    piecesSpans (ps ++ qs) = piecesSpans ps ++ piecesSpans qs := List.filterMap_append

/-- The positions of the names, new objects and lambda expressions in the order of the text. -/
def Expr.written (e : Expr) : List Span := piecesSpans e.pieces

/-! ### The order of the walk -/

/-- The position of a name, a new object or a lambda expression. -/
def Expr.ownSpan? : Expr → Option Span
  | .id _ s | .construct _ s | .lambda _ _ _ s => some s
  | _ => none

/-- The position of what is met. -/
def Event.span? : Event → Option Span
  | .expr e => e.ownSpan?
  | _ => none

/-- The positions of events, in their order. -/
def positions (es : List Event) : List Span := es.filterMap Event.span?

@[simp] theorem positions_nil : positions [] = [] := rfl

@[simp] theorem positions_append (es es' : List Event) :
    positions (es ++ es') = positions es ++ positions es' := List.filterMap_append

@[simp] theorem positions_expr (e : Expr) (es : List Event) :
    positions (.expr e :: es) = e.ownSpan?.toList ++ positions es := by
  cases e <;> rfl

@[simp] theorem positions_enter (x : String) (es : List Event) :
    positions (.enter x :: es) = positions es := rfl

@[simp] theorem positions_exit (x : String) (es : List Event) :
    positions (.exit x :: es) = positions es := rfl

/-- Where scopes begin and end there are no positions. -/
@[simp] theorem positions_scope (xs : List String) (es : List Event) :
    positions (xs.map .enter ++ es ++ xs.reverse.map .exit) = positions es := by
  have enters : positions (xs.map .enter) = [] :=
    List.filterMap_eq_nil_iff.2 (by simp [Event.span?])
  have exits : positions (xs.reverse.map .exit) = [] :=
    List.filterMap_eq_nil_iff.2 (by simp [Event.span?])
  rw [positions_append, positions_append, enters, exits, List.nil_append, List.append_nil]

/-- The positions of the names, new objects and lambda expressions in the order of the walk. -/
def Expr.visited (e : Expr) : List Span := positions e.events

theorem Expr.visited_lambda (ps : List Param) (ty : Ty) (b : Expr) (s : Span) :
    (Expr.lambda ps ty b s).visited = s :: b.visited := by
  have body := positions_scope (ps.map (·.name)) b.events
  rw [List.map_map, ← List.map_reverse, List.map_map] at body
  exact congrArg (s :: ·) body

theorem Expr.visited_comprehension (k : Collection) (e : Expr) (x : String) (it : Expr)
    (c : Option Expr) :
    (Expr.comprehension k e x it c).visited =
      it.visited ++ e.visited ++ positions (Expr.eventsOption c) := by
  change positions (it.events ++ .enter x :: e.events ++ Expr.eventsOption c ++ [.exit x]) = _
  simp [Expr.visited]

theorem Expr.visited_ifElse (c t e : Expr) :
    (Expr.ifElse c t e).visited = c.visited ++ t.visited ++ e.visited := by
  change positions (c.events ++ t.events ++ e.events) = _
  rw [positions_append, positions_append]
  rfl

mutual

theorem Expr.span_eq_firstKnown (e : Expr) : e.span = firstKnown e.visited := by
  cases e with
  | literal => rfl
  | id _ s | construct _ s => exact (firstKnown_cons s []).symm
  | unary _ a | builtin1 _ a | field a _ => exact a.span_eq_firstKnown
  | binary _ l r | builtin2 _ l r | index l r =>
    rw [Expr.span, l.span_eq_firstKnown, r.span_eq_firstKnown, ← firstKnown_append]
    exact congrArg firstKnown (positions_append _ _).symm
  | call f args | methodCall f _ args =>
    rw [Expr.span, f.span_eq_firstKnown, Expr.spanList_eq_firstKnown args, ← firstKnown_append]
    exact congrArg firstKnown (positions_append _ _).symm
  | list es | set es | tuple es => exact Expr.spanList_eq_firstKnown es
  | comprehension _ e _ it c =>
    rw [Expr.span, it.span_eq_firstKnown, e.span_eq_firstKnown, Expr.spanOption_eq_firstKnown c,
      ← firstKnown_append, ← firstKnown_append, ← List.append_assoc, Expr.visited_comprehension]
  | ifElse c t e =>
    rw [Expr.span, c.span_eq_firstKnown, t.span_eq_firstKnown, e.span_eq_firstKnown,
      ← firstKnown_append, ← firstKnown_append, ← List.append_assoc, Expr.visited_ifElse]
  | lambda _ _ b s =>
    rw [Expr.span, b.span_eq_firstKnown, ← firstKnown_cons, Expr.visited_lambda]

theorem Expr.spanList_eq_firstKnown (es : List Expr) :
    Expr.spanList es = firstKnown (positions (Expr.eventsList es)) := by
  cases es with
  | nil => rfl
  | cons e es =>
    rw [Expr.spanList, Expr.eventsList, positions_append, firstKnown_append,
      e.span_eq_firstKnown, Expr.spanList_eq_firstKnown es]
    rfl

theorem Expr.spanOption_eq_firstKnown (c : Option Expr) :
    Expr.spanOption c = firstKnown (positions (Expr.eventsOption c)) := by
  cases c with
  | none => rfl
  | some e => exact e.span_eq_firstKnown

end

/-- The walk that gives up at the first known position. -/
def spanFinder : Visitor (Except Span) where
  stmt _ := pure ()
  expr e := (e.ownSpan?.filter Span.isKnown).elim (pure ()) throw
  write _ := pure ()
  enter _ := pure ()
  exit _ := pure ()

/-- The walk gives up at the first known position, if there is one. -/
def GivesUp (x : Except Span Unit) (es : List Event) : Prop :=
  x = if anyKnown (positions es) then .error (firstKnown (positions es)) else .ok ()

theorem givesUp_law : VisitLaw spanFinder GivesUp where
  nil := rfl
  append {x y es es'} h h' := by
    rw [GivesUp, positions_append, anyKnown_append, firstKnown_append, Span.orElse,
      isDummy_firstKnown, h, h']
    cases anyKnown (positions es) <;> rfl
  stmt _ := rfl
  write _ := rfl
  expr e := by
    change (e.ownSpan?.filter Span.isKnown).elim (pure ()) throw = _
    rw [positions_expr]
    cases e.ownSpan? with
    | none => rfl
    | some s => cases h : s.isKnown <;> simp [anyKnown, firstKnown, Option.filter, h] <;> rfl
  within xs x es h := by
    have silent : spanFinder.toScoping.Silent := ⟨fun _ => rfl, fun _ => rfl⟩
    rw [GivesUp, positions_scope, silent.within_eq xs (tryFinally_except x)]
    exact h

/-! ### The two orders beside each other -/

/-- The expression has a known position. -/
def Expr.isKnown (e : Expr) : Bool := e.span.isKnown

theorem Expr.isKnown_eq (e : Expr) : e.isKnown = anyKnown e.visited := by
  rw [Expr.isKnown, Span.isKnown, e.span_eq_firstKnown, isDummy_firstKnown, Bool.not_not]

mutual

/-- The search for a known position comes to a conditional expression that has one in its condition
and in the branch before it, or to a comprehension that has one in its iterable and in its
element. -/
def Expr.overtaken : Expr → Bool
  | .literal _ | .id .. | .construct .. => false
  | .unary _ e | .builtin1 _ e | .field e _ => e.overtaken
  | .binary _ l r | .builtin2 _ l r | .index l r =>
    if l.isKnown then l.overtaken else r.overtaken
  | .call f args | .methodCall f _ args =>
    if f.isKnown then f.overtaken else Expr.overtakenList args
  | .list es | .set es | .tuple es => Expr.overtakenList es
  | .comprehension _ e _ it c =>
    if it.isKnown then e.isKnown || it.overtaken
    else if e.isKnown then e.overtaken
    else Expr.overtakenOption c
  | .ifElse c t e =>
    if c.isKnown then t.isKnown || c.overtaken
    else if t.isKnown then t.overtaken
    else e.overtaken
  | .lambda _ _ b s => s.isDummy && b.overtaken

/-- The same for the search in a list of expressions. -/
def Expr.overtakenList : List Expr → Bool
  | [] => false
  | e :: es => if e.isKnown then e.overtaken else Expr.overtakenList es

/-- The same for the search in an expression that may be missing. -/
def Expr.overtakenOption : Option Expr → Bool
  | none => false
  | some e => e.overtaken

end

mutual

/-- The order of the walk beside the order of the text. -/
theorem Expr.agrees (e : Expr) : Agrees e.visited e.written e.overtaken := by
  cases e with
  | literal | id | construct => exact .refl _
  | unary _ a | builtin1 _ a | field a _ =>
    simpa [Expr.visited, Expr.events, Expr.ownSpan?, Expr.written, Expr.pieces, Expr.overtaken]
      using a.agrees
  | binary _ l r | builtin2 _ l r | index l r =>
    have parts := l.agrees.append r.agrees
    rw [← l.isKnown_eq] at parts
    simpa [Expr.visited, Expr.events, Expr.ownSpan?, Expr.written, Expr.pieces, Expr.overtaken]
      using parts
  | call f args | methodCall f _ args =>
    have parts := f.agrees.append (Expr.agrees_list args)
    rw [← f.isKnown_eq] at parts
    simpa [Expr.visited, Expr.events, Expr.ownSpan?, Expr.written, Expr.pieces, Expr.overtaken]
      using parts
  | list es | set es | tuple es =>
    simpa [Expr.visited, Expr.events, Expr.ownSpan?, Expr.written, Expr.pieces, Expr.overtaken]
      using Expr.agrees_list es
  | comprehension _ e _ it c =>
    have parts := it.agrees.swap_append e.agrees (Expr.agrees_option c)
    rw [← it.isKnown_eq, ← e.isKnown_eq] at parts
    rw [Expr.visited_comprehension, Expr.overtaken]
    simpa [Expr.written, Expr.pieces] using parts
  | ifElse c t e =>
    have parts := c.agrees.swap_append t.agrees e.agrees
    rw [← c.isKnown_eq, ← t.isKnown_eq] at parts
    rw [Expr.visited_ifElse, Expr.overtaken]
    simpa [Expr.written, Expr.pieces] using parts
  | lambda ps ty b s =>
    have parts := (Agrees.refl [s]).append b.agrees
    rw [Expr.visited_lambda, Expr.overtaken]
    cases known : s.isDummy <;>
      simpa [Expr.written, Expr.pieces, anyKnown, Span.isKnown, known] using parts

theorem Expr.agrees_list (es : List Expr) :
    Agrees (positions (Expr.eventsList es)) (piecesSpans (Expr.piecesList es))
      (Expr.overtakenList es) := by
  cases es with
  | nil => exact .refl _
  | cons e es =>
    have parts := e.agrees.append (Expr.agrees_list es)
    rw [← e.isKnown_eq] at parts
    cases es with
    | nil =>
      simpa [Expr.eventsList, Expr.piecesList, Expr.overtakenList, Expr.visited, Expr.written]
        using parts
    | cons e' es =>
      rw [Expr.eventsList, Expr.piecesList, Expr.overtakenList, positions_append,
        piecesSpans_append, piecesSpans_none]
      · exact parts
      · simp

theorem Expr.agrees_option (c : Option Expr) :
    Agrees (positions (Expr.eventsOption c)) (piecesSpans (Expr.piecesFilter c))
      (Expr.overtakenOption c) := by
  cases c with
  | none => exact .refl _
  | some e => exact e.agrees

end

/-- The position of an expression is the one at which a walk for the first known position gives up,
the first known one in the order of the walk.  The order of the walk holds the same positions as the
order of the text, so that the position is dummy exactly if all of them are.  It is the leftmost
known one of the text if nothing is overtaken in the search for it; otherwise it is another one. -/
theorem span_first_known (e : Expr) :
    piecesText e.pieces = e.render ∧
      e.visit spanFinder = (if e.span.isKnown then .error e.span else .ok ()) ∧
      e.span = firstKnown e.visited ∧
      e.visited.Perm e.written ∧
      (e.span = .dummy ↔ ∀ s ∈ e.written, s.isDummy = true) ∧
      (e.overtaken = false → e.span = firstKnown e.written) ∧
      (e.overtaken = true → (e.written.filter Span.isKnown).Nodup →
        e.span ≠ firstKnown e.written) := by
  have first := e.span_eq_firstKnown
  have walk : GivesUp (e.visit spanFinder) e.events := givesUp_law.visit e
  have orders := e.agrees
  refine ⟨e.piecesText_pieces, ?_, first, orders.perm, ?_, ?_, ?_⟩
  · change _ = if e.isKnown then _ else _
    rw [e.isKnown_eq, first]
    exact walk
  · rw [first, firstKnown_eq_dummy_iff]
    exact ⟨fun h s hs => h s (orders.perm.mem_iff.2 hs),
      fun h s hs => h s (orders.perm.mem_iff.1 hs)⟩
  · rw [first]
    exact orders.same
  · rw [first]
    exact orders.differ

/-- `(a if b else c)`, as it stands at the start of a file. -/
def choice : Expr := .ifElse (.id "b" ⟨0, 6, 7⟩) (.id "a" ⟨0, 1, 2⟩) (.id "c" ⟨0, 13, 14⟩)

/-- `[a for x in b]`, as it stands at the start of a file. -/
def gathering : Expr := .comprehension .list (.id "a" ⟨0, 1, 2⟩) "x" (.id "b" ⟨0, 12, 13⟩) none

/-- The condition and the iterable are found first, and `a` stands to the left of both. -/
theorem leftmost_overtaken :
    (choice.render = "(a if b else c)" ∧ firstKnown choice.written = ⟨0, 1, 2⟩ ∧
        choice.span = ⟨0, 6, 7⟩) ∧
      gathering.render = "[a for x in b]" ∧ firstKnown gathering.written = ⟨0, 1, 2⟩ ∧
        gathering.span = ⟨0, 12, 13⟩ := by
  decide +kernel

end FlatClosure

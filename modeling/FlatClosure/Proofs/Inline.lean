import FlatClosure.Conversion.Conventions
import FlatClosure.Proofs.Scanning
import FlatClosure.Syntax.Render

/-!
# Texts that stand on one line

The parts of a rendered program whose names are identifiers stand on one line each: they hold no
line break, start with a character other than a blank, and do not end with a colon, which only
the headers of blocks do.  String literals are escaped, so it does not matter what they hold.

* `Ty.legible`, `Expr.legible` : the names that are written are identifiers.
* `Literal.inline`, `Expr.inline`, `Slot.inline` : **literals, expressions and targets stand on
  one line.**
-/

namespace FlatClosure

/-! ### Line breaks, first and last characters -/

/-- The characters that end a line for some reader: newline, vertical tab, form feed, carriage
return, next line, line separator and paragraph separator. -/
def lineBreaks : List Char :=
  ['\n', '\x0b', '\x0c', '\r', '\x85', '\u2028', '\u2029']

/-- The text holds no line break. -/
def oneLine (s : String) : Bool := s.toList.all fun c => !lineBreaks.contains c

/-- The text starts with a character other than a blank. -/
def isFlush (s : String) : Bool := s.toList.head?.any (· != ' ')

/-- The text ends with a character other than a colon. -/
def endsPlain (s : String) : Bool := s.toList.getLast?.any (· != ':')

section Append

variable {s t : String}

@[simp] theorem oneLine_append : oneLine (s ++ t) = (oneLine s && oneLine t) := by
  simp [oneLine]

@[simp] theorem isFlush_append :
    isFlush (s ++ t) = true ↔ isFlush s = true ∨ s = "" ∧ isFlush t = true := by
  cases hs : s.toList with
  | nil => simp [isFlush, hs, ← String.toList_eq_nil_iff]
  | cons c cs => simp [isFlush, hs, ← String.toList_eq_nil_iff]

theorem endsPlain_append (h : endsPlain t = true) : endsPlain (s ++ t) = true := by
  cases ht : t.toList.getLast? with
  | none => simp [endsPlain, ht] at h
  | some c => simpa [endsPlain, ht] using h

theorem oneLine_join {ss : List String} (h : ∀ t ∈ ss, oneLine t = true) :
    oneLine (String.join ss) = true := by
  simp only [oneLine, String.toList_join, List.all_flatMap, List.all_eq_true] at h ⊢
  exact h

theorem oneLine_intercalate {ss : List String} (hs : oneLine s = true)
    (h : ∀ t ∈ ss, oneLine t = true) : oneLine (s.intercalate ss) = true := by
  induction ss with
  | nil => rfl
  | cons t ss ih =>
    have first := h t (List.mem_cons_self ..)
    have rest := ih fun t' ht => h t' (List.mem_cons_of_mem _ ht)
    cases ss with
    | nil => rwa [String.intercalate_singleton]
    | cons t' ss => rw [String.intercalate_cons_cons]; simp [first, hs, rest]

theorem isFlush_intercalate {ss : List String} (h : isFlush t = true) :
    isFlush (s.intercalate (t :: ss)) = true := by
  cases ss with
  | nil => rwa [String.intercalate_singleton]
  | cons t' ss =>
    rw [String.intercalate_cons_cons]
    simp [h]

end Append

/-- A text that can be a line of its own or a part of one, other than the header of a block. -/
structure Inline (s : String) : Prop where
  oneLine : oneLine s = true
  isFlush : isFlush s = true
  endsPlain : endsPlain s = true

/-! ### Names and numbers -/

/-- A character that may stand anywhere in a line. -/
def isPlain (c : Char) : Bool := !(' ' :: ':' :: lineBreaks).contains c

theorem isPlain_of {p : Char → Bool} (none : (' ' :: ':' :: lineBreaks).any p = false)
    {c : Char} (h : p c = true) : isPlain c = true := by
  rw [isPlain, Bool.not_eq_true', ← Bool.not_eq_true, List.contains_iff_mem]
  intro mem
  exact List.any_eq_false.1 none c mem h

theorem inline_of_forall {s : String} (ne : s.toList ≠ [])
    (h : ∀ c ∈ s.toList, isPlain c = true) : Inline s := by
  have plain (c : Char) (hc : c ∈ s.toList) : c ≠ ' ' ∧ c ≠ ':' ∧ c ∉ lineBreaks := by
    simpa [isPlain] using h c hc
  refine ⟨?_, ?_, ?_⟩
  · rw [oneLine, List.all_eq_true]
    exact fun c hc => by simpa using (plain c hc).2.2
  · have first := (plain _ (List.head_mem ne)).1
    rw [isFlush, List.head?_eq_some_head ne]
    simpa using first
  · have last := (plain _ (List.getLast_mem ne)).2.1
    rw [endsPlain, List.getLast?_eq_some_getLast ne]
    simpa using last

theorem inline_of_isIdentifier {x : String} (h : isIdentifier x = true) : Inline x := by
  have ok (c : Char) : (isNameStart c || c.isDigit) = true → isPlain c = true :=
    isPlain_of (p := fun c => isNameStart c || c.isDigit) (by decide)
  rw [isIdentifier] at h
  cases hx : x.toList with
  | nil => simp [hx] at h
  | cons c cs =>
    rw [hx] at h
    simp only [Bool.and_eq_true, List.all_eq_true] at h
    refine inline_of_forall (by simp [hx]) fun d hd => ok d ?_
    rw [hx] at hd
    rcases List.mem_cons.1 hd with rfl | hd
    · simp [h.1]
    · exact h.2 d hd

theorem exists_digit_of_mem_toDigits {b n : Nat} (hb : 1 < b) {c : Char}
    (h : c ∈ Nat.toDigits b n) : ∃ d < b, c = Nat.digitChar d := by
  induction n using Nat.strongRecOn with
  | ind n ih =>
    rw [Nat.toDigits_eq_if hb] at h
    split at h
    case isTrue small => exact ⟨n, small, List.mem_singleton.1 h⟩
    case isFalse large =>
      rcases List.mem_append.1 h with front | last
      · exact ih (n / b) (Nat.div_lt_self (by omega) hb) front
      · exact ⟨n % b, Nat.mod_lt _ (by omega), List.mem_singleton.1 last⟩

theorem isPlain_of_mem_toDigits {b n : Nat} (hb : 1 < b) (small : b ≤ 16) {c : Char}
    (h : c ∈ Nat.toDigits b n) : isPlain c = true := by
  have digits : ∀ d < 16, isPlain (Nat.digitChar d) = true := by decide
  obtain ⟨d, hd, rfl⟩ := exists_digit_of_mem_toDigits hb h
  exact digits d (by omega)

/-! ### Literals -/

theorem oneLine_escapeQuoted (c : Char) : oneLine (escapeQuoted c) = true := by
  have hidden : lineBreaks.any isVisible = false := by decide +kernel
  rw [escapeQuoted]
  iterate 6
    split
    · decide
  split
  case isTrue visible =>
    -- The line breaks without an escape of their own are hidden characters.
    have ok : c ∉ lineBreaks := fun mem => List.any_eq_false.1 hidden c mem visible
    simpa [oneLine] using ok
  case isFalse =>
    have hex : Inline (hexDigits c.toNat) := by
      refine inline_of_forall (by simp [hexDigits, Nat.toDigits_ne_nil]) fun d hd => ?_
      rw [hexDigits, String.toList_ofList] at hd
      exact isPlain_of_mem_toDigits (by decide) (by decide) hd
    simp +decide [hex.oneLine]

/-- **A literal stands on one line**, whatever characters a string holds. -/
theorem Literal.inline (v : Literal) : Inline v.render := by
  cases v with
  | num n =>
    refine inline_of_forall ?_ fun c hc => ?_
    · rw [Literal.render, Json.toList_toString_int]
      exact List.append_ne_nil_of_right_ne_nil _ Nat.toDigits_ne_nil
    · rw [Literal.render, Json.toList_toString_int] at hc
      rcases List.mem_append.1 hc with sign | digit
      · have dash : c = '-' := by
          split at sign
          · exact List.mem_singleton.1 sign
          · cases sign
        rw [dash]
        decide
      · exact isPlain_of_mem_toDigits (by decide) (by decide) digit
  | bool b => cases b <;> exact ⟨by decide, by decide, by decide⟩
  | str s =>
    have body : oneLine (String.join (s.toList.map escapeQuoted)) = true :=
      oneLine_join (by simp [oneLine_escapeQuoted])
    refine ⟨?_, ?_, ?_⟩
    · simp +decide [Literal.render, quoted, body]
    · simp +decide [Literal.render, quoted]
    · exact endsPlain_append (by decide)
  | none => exact ⟨by decide, by decide, by decide⟩

/-! ### Types -/

namespace Ty

mutual

/-- The names of the classes in a type are identifiers. -/
def legible : Ty → Bool
  | .int => true
  | .bool => true
  | .str => true
  | .none => true
  | .object => true
  | .cls name => isIdentifier name
  | .list elem => elem.legible
  | .callable params ret => legibleList params && ret.legible

/-- So they are in several types. -/
def legibleList : List Ty → Bool
  | [] => true
  | t :: ts => t.legible && legibleList ts

end

mutual

theorem inline (t : Ty) (h : t.legible = true) : Inline t.render := by
  cases t with
  | int | bool | str | none | object => exact ⟨by decide, by decide, by decide⟩
  | cls name => exact inline_of_isIdentifier h
  | list elem =>
    have inner := inline elem h
    refine ⟨?_, ?_, endsPlain_append (by decide)⟩
    · simp +decide [render, inner.oneLine]
    · simp +decide [render]
  | callable params ret =>
    rw [legible, Bool.and_eq_true] at h
    have params := oneLine_renderList params h.1
    have ret := inline ret h.2
    refine ⟨?_, ?_, endsPlain_append (by decide)⟩
    · simp +decide [render, params, ret.oneLine]
    · simp +decide [render]

theorem oneLine_renderList (ts : List Ty) (h : legibleList ts = true) :
    oneLine (renderList ts) = true := by
  cases ts with
  | nil => rfl
  | cons t ts =>
    rw [legibleList, Bool.and_eq_true] at h
    have first := (inline t h.1).oneLine
    have rest := oneLine_renderList ts h.2
    cases ts with
    | nil => exact first
    | cons t' ts => simp +decide [renderList.eq_3, first, rest]

end

end Ty

/-! ### Expressions -/

mutual

/-- The names that are written in an expression are identifiers.  The types of the parameters of
a lambda expression and of its result are not written. -/
def Expr.legible : Expr → Bool
  | .literal _ => true
  | .id name _ => isIdentifier name
  | .unary _ e => e.legible
  | .binary _ l r => l.legible && r.legible
  | .builtin1 name a => isIdentifier name && a.legible
  | .builtin2 name l r => isIdentifier name && l.legible && r.legible
  | .call f args => f.legible && Expr.legibleList args
  | .field o name => o.legible && isIdentifier name
  | .index o i => o.legible && i.legible
  | .methodCall o m args => o.legible && isIdentifier m && Expr.legibleList args
  | .list es => Expr.legibleList es
  | .set es => Expr.legibleList es
  | .comprehension _ e x it c =>
    e.legible && isIdentifier x && it.legible && Expr.legibleOption c
  | .ifElse c t e => c.legible && t.legible && e.legible
  | .tuple es => Expr.legibleList es
  | .construct name _ => isIdentifier name
  | .lambda params _ b _ => params.all (fun p => isIdentifier p.name) && b.legible

/-- So they are in several expressions. -/
def Expr.legibleList : List Expr → Bool
  | [] => true
  | e :: es => e.legible && Expr.legibleList es

/-- So they are in an expression that may be missing. -/
def Expr.legibleOption : Option Expr → Bool
  | none => true
  | some e => e.legible

end

theorem oneLine_unarySign (op : UnaryOp) : oneLine op.sign = true := by
  cases op <;> decide

theorem oneLine_binarySign (op : BinaryOp) : oneLine op.sign = true := by
  cases op <;> decide

theorem inline_brackets (kind : Collection) :
    Inline kind.brackets.1 ∧ Inline kind.brackets.2 := by
  cases kind <;> exact ⟨⟨by decide, by decide, by decide⟩, by decide, by decide, by decide⟩

mutual

/-- **An expression stands on one line.** -/
theorem Expr.inline (e : Expr) (h : e.legible = true) : Inline e.render := by
  cases e with
  | literal v => exact v.inline
  | id name _ => exact inline_of_isIdentifier h
  | unary op e =>
    have inner := Expr.inline e h
    refine ⟨?_, ?_, endsPlain_append (by decide)⟩
    · simp +decide [Expr.render, oneLine_unarySign, inner.oneLine]
    · simp +decide [Expr.render]
  | binary op l r =>
    rw [Expr.legible, Bool.and_eq_true] at h
    have left := Expr.inline l h.1
    have right := Expr.inline r h.2
    refine ⟨?_, ?_, endsPlain_append (by decide)⟩
    · simp +decide [Expr.render, oneLine_binarySign, left.oneLine, right.oneLine]
    · simp +decide [Expr.render]
  | builtin1 name a =>
    rw [Expr.legible, Bool.and_eq_true] at h
    have name := inline_of_isIdentifier h.1
    have arg := Expr.inline a h.2
    refine ⟨?_, ?_, endsPlain_append (by decide)⟩
    · simp +decide [Expr.render, name.oneLine, arg.oneLine]
    · simp [Expr.render, name.isFlush]
  | builtin2 name l r =>
    simp only [Expr.legible, Bool.and_eq_true] at h
    have name := inline_of_isIdentifier h.1.1
    have left := Expr.inline l h.1.2
    have right := Expr.inline r h.2
    refine ⟨?_, ?_, endsPlain_append (by decide)⟩
    · simp +decide [Expr.render, name.oneLine, left.oneLine, right.oneLine]
    · simp [Expr.render, name.isFlush]
  | call f args =>
    rw [Expr.legible, Bool.and_eq_true] at h
    have callee := Expr.inline f h.1
    have args := Expr.oneLine_renderList args h.2
    refine ⟨?_, ?_, endsPlain_append (by decide)⟩
    · simp +decide [Expr.render, callee.oneLine, args]
    · simp [Expr.render, callee.isFlush]
  | field o name =>
    rw [Expr.legible, Bool.and_eq_true] at h
    have obj := Expr.inline o h.1
    have name := inline_of_isIdentifier h.2
    refine ⟨?_, ?_, endsPlain_append name.endsPlain⟩
    · simp +decide [Expr.render, obj.oneLine, name.oneLine]
    · simp [Expr.render, obj.isFlush]
  | index o i =>
    rw [Expr.legible, Bool.and_eq_true] at h
    have obj := Expr.inline o h.1
    have index := Expr.inline i h.2
    refine ⟨?_, ?_, endsPlain_append (by decide)⟩
    · simp +decide [Expr.render, obj.oneLine, index.oneLine]
    · simp [Expr.render, obj.isFlush]
  | methodCall o m args =>
    simp only [Expr.legible, Bool.and_eq_true] at h
    have obj := Expr.inline o h.1.1
    have name := inline_of_isIdentifier h.1.2
    have args := Expr.oneLine_renderList args h.2
    refine ⟨?_, ?_, endsPlain_append (by decide)⟩
    · simp +decide [Expr.render, obj.oneLine, name.oneLine, args]
    · simp [Expr.render, obj.isFlush]
  | list es | set es =>
    have elems := Expr.oneLine_renderList es h
    refine ⟨?_, ?_, endsPlain_append (by decide)⟩
    · simp +decide [Expr.render, elems]
    · simp +decide [Expr.render]
  | comprehension kind e x it c =>
    simp only [Expr.legible, Bool.and_eq_true] at h
    have elem := Expr.inline e h.1.1.1
    have name := inline_of_isIdentifier h.1.1.2
    have iterable := Expr.inline it h.1.2
    have cond := Expr.oneLine_renderFilter c h.2
    obtain ⟨opening, closing⟩ := inline_brackets kind
    refine ⟨?_, ?_, endsPlain_append closing.endsPlain⟩
    · simp +decide [Expr.render, opening.oneLine, elem.oneLine, name.oneLine, iterable.oneLine,
        cond, closing.oneLine]
    · simp [Expr.render, opening.isFlush]
  | ifElse c t e =>
    simp only [Expr.legible, Bool.and_eq_true] at h
    have cond := Expr.inline c h.1.1
    have thn := Expr.inline t h.1.2
    have els := Expr.inline e h.2
    refine ⟨?_, ?_, endsPlain_append (by decide)⟩
    · simp +decide [Expr.render, cond.oneLine, thn.oneLine, els.oneLine]
    · simp +decide [Expr.render]
  | tuple es =>
    have elems := Expr.oneLine_renderList es h
    have comma : oneLine (if es.length = 1 then "," else "") = true := by split <;> decide
    refine ⟨?_, ?_, endsPlain_append (by decide)⟩
    · simp +decide [Expr.render, elems, comma]
    · simp +decide [Expr.render]
  | construct name _ =>
    have name := inline_of_isIdentifier h
    refine ⟨?_, ?_, endsPlain_append (by decide)⟩
    · simp +decide [Expr.render, name.oneLine]
    · simp +decide [Expr.render]
  | lambda params _ b _ =>
    simp only [Expr.legible, Bool.and_eq_true, List.all_eq_true] at h
    have body := Expr.inline b h.2
    have names : oneLine (", ".intercalate (params.map (·.name))) = true := by
      refine oneLine_intercalate (by decide) fun x hx => ?_
      obtain ⟨p, hp, rfl⟩ := List.mem_map.1 hx
      exact (inline_of_isIdentifier (h.1 p hp)).oneLine
    have blank : oneLine (if params = [] then "" else " ") = true := by split <;> decide
    refine ⟨?_, ?_, endsPlain_append (by decide)⟩
    · simp +decide [Expr.render, names, blank, body.oneLine]
    · simp +decide [Expr.render]

theorem Expr.oneLine_renderList (es : List Expr) (h : Expr.legibleList es = true) :
    oneLine (Expr.renderList es) = true := by
  cases es with
  | nil => rfl
  | cons e es =>
    rw [Expr.legibleList, Bool.and_eq_true] at h
    have first := (Expr.inline e h.1).oneLine
    have rest := Expr.oneLine_renderList es h.2
    cases es with
    | nil => exact first
    | cons e' es => simp +decide [Expr.renderList.eq_3, first, rest]

theorem Expr.oneLine_renderFilter (c : Option Expr) (h : Expr.legibleOption c = true) :
    oneLine (Expr.renderFilter c) = true := by
  cases c with
  | none => rfl
  | some c =>
    have cond := Expr.inline c h
    simp +decide [Expr.renderFilter, cond.oneLine]

end

/-! ### Targets -/

/-- The names in a target are identifiers. -/
def Target.legible : Target → Bool
  | .id name => isIdentifier name
  | .field o name => o.legible && isIdentifier name
  | .index o i => o.legible && i.legible
  | .ignore => true

theorem Target.inline (t : Target) (h : t.legible = true) : Inline t.render := by
  cases t with
  | id name => exact inline_of_isIdentifier h
  | field o name => exact Expr.inline (.field o name) h
  | index o i => exact Expr.inline (.index o i) h
  | ignore => exact ⟨by decide, by decide, by decide⟩

theorem Slot.inline (s : Slot) (h : s.target.legible = true) : Inline s.render := by
  have target := s.target.inline h
  rw [Slot.render]
  cases s.starred with
  | true =>
    refine ⟨?_, ?_, endsPlain_append target.endsPlain⟩
    · simp +decide [target.oneLine]
    · simp +decide
  | false => simpa using target

end FlatClosure

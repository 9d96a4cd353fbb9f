import FlatClosure.Proofs.Inline

/-!
# The blocks of a rendered program

What a program declares and executes is an *outline*: lines, and blocks that have a header and
something in them.  `Program.outline` is the outline of a program, where a block in which nothing
would stand holds a `pass`; a program is rendered as its outline, four blanks for each block
around a line.

`readOutline` is a reader of such texts that knows neither statements nor expressions.  It counts
the blanks in front of each line, and takes the lines below a line that are deeper than it as a
block.  The lines are planted from the last one upwards, so that what is in a block is known when
its header is reached.

* `readLines_renderLines` : the lines of a text.
* `foldr_plant_lines` : one outline, planted in front of others that are not deeper.
* `Outline.stepped_lines` : a line is followed by a deeper one exactly if it opens a block.
* `render_recoverable` : **the outline of a program is read back from its text.**
-/

namespace FlatClosure

/-- A line, or a block: its header, and what stands in it, which is not nothing. -/
inductive Outline where
  | line (text : String)
  | block (header : String) (first : Outline) (rest : List Outline)

namespace Outline

mutual

/-- The lines of an outline with their nesting levels; what stands in a block is one level deeper
than its header. -/
def lines (n : Nat) : Outline → List Line
  | .line text => [⟨n, text⟩]
  | .block header first rest => ⟨n, header⟩ :: (first.lines (n + 1) ++ linesList (n + 1) rest)

/-- The lines of outlines one below the other. -/
def linesList (n : Nat) : List Outline → List Line
  | [] => []
  | o :: os => o.lines n ++ linesList n os

end

/-- A block; a `pass` stands in for nothing. -/
def ofBlock (header : String) : List Outline → Outline
  | [] => .block header (.line "pass") []
  | o :: os => .block header o os

@[simp] theorem linesList_append (n : Nat) (os os' : List Outline) :
    linesList n (os ++ os') = linesList n os ++ linesList n os' := by
  induction os with
  | nil => rfl
  | cons o os ih => simp [linesList, ih]

theorem lines_ofBlock (n : Nat) (header : String) {os : List Outline} (ne : os ≠ []) :
    (ofBlock header os).lines n = ⟨n, header⟩ :: linesList (n + 1) os := by
  obtain ⟨o, os, rfl⟩ := List.exists_cons_of_ne_nil ne
  rfl

theorem linesList_map_line {α : Type} (n : Nat) (f : α → String) (xs : List α) :
    linesList n (xs.map fun x => .line (f x)) = xs.map fun x => ⟨n, f x⟩ := by
  induction xs with
  | nil => rfl
  | cons x xs ih => simp [linesList, lines, ih]

theorem linesList_map {α : Type} (n : Nat) (f : α → Outline) (xs : List α) :
    linesList n (xs.map f) = xs.flatMap fun x => (f x).lines n := by
  induction xs with
  | nil => rfl
  | cons x xs ih => simp [linesList, ih]

theorem linesList_flatMap {α : Type} (n : Nat) (f : α → List Outline) (xs : List α) :
    linesList n (xs.flatMap f) = xs.flatMap fun x => linesList n (f x) := by
  induction xs with
  | nil => rfl
  | cons x xs ih => simp [ih]

/-- An outline starts with a line at its own level. -/
theorem exists_lines_eq_cons (n : Nat) (o : Outline) :
    ∃ text rest, o.lines n = ⟨n, text⟩ :: rest := by
  cases o with
  | line text => exact ⟨text, [], rfl⟩
  | block header first rest => exact ⟨header, _, rfl⟩

end Outline

/-! ### The outline of a program -/

mutual

/-- A statement is a line, a block, or two blocks of which the second is an else part. -/
def Stmt.outline : Stmt → List Outline
  | .assign x v => [.line (x ++ " = " ++ v.render)]
  | .unpack slots v => [.line (", ".intercalate (slots.map Slot.render) ++ " = " ++ v.render)]
  | .ret (some v) => [.line ("return " ++ v.render)]
  | .ret none => [.line "return"]
  | .expr e => [.line e.render]
  | .setField o f v => [.line (o.render ++ "." ++ f ++ " = " ++ v.render)]
  | .setIndex o i v => [.line (o.render ++ "[" ++ i.render ++ "] = " ++ v.render)]
  | .ifElse c thn els =>
    .ofBlock ("if " ++ c.render ++ ":") (Stmt.outlineList thn) ::
      if els.isEmpty then [] else [.ofBlock "else:" (Stmt.outlineList els)]
  | .whileLoop c body => [.ofBlock ("while " ++ c.render ++ ":") (Stmt.outlineList body)]
  | .forEach x it body els =>
    .ofBlock ("for " ++ x ++ " in " ++ it.render ++ ":") (Stmt.outlineList body) ::
      Stmt.outlineElse els
  | .pass => [.line "pass"]
  | .nonlocal x => [.line ("nonlocal " ++ x)]
  | .global x => [.line ("global " ++ x)]
  | .breakLoop => [.line "break"]
  | .continueLoop => [.line "continue"]
  | .closure f => [f.outline]

/-- Statements one below the other. -/
def Stmt.outlineList : List Stmt → List Outline
  | [] => []
  | s :: ss => s.outline ++ Stmt.outlineList ss

/-- The else part of a loop. -/
def Stmt.outlineElse : Option (List Stmt) → List Outline
  | none => []
  | some ss => [.ofBlock "else:" (Stmt.outlineList ss)]

/-- A function is a block of its local variables and its statements. -/
def FunDef.outline : FunDef → Outline
  | ⟨name, params, ret, inits, body, _⟩ =>
    .ofBlock (funHeader name params ret)
      (inits.map (fun v => .line v.render) ++ Stmt.outlineList body)

end

/-- A class is a block of its fields and methods. -/
def ClassDef.outline (c : ClassDef) : Outline :=
  .ofBlock ("class " ++ c.name ++ "(object):")
    (c.fields.map (fun v => .line v.render) ++ c.methods.map FunDef.outline)

/-- The global variables, classes, functions and statements of a program. -/
def Program.outline (p : Program) : List Outline :=
  p.inits.map (fun v => .line v.render) ++ p.classes.map ClassDef.outline ++
    p.funs.map FunDef.outline ++ p.stmts.flatMap Stmt.outline

theorem Stmt.outline_ne_nil (s : Stmt) : s.outline ≠ [] := by
  cases s with
  | ret v => cases v <;> simp [Stmt.outline]
  | _ => simp [Stmt.outline]

theorem Stmt.outlineList_ne_nil {ss : List Stmt} (ne : ss ≠ []) : Stmt.outlineList ss ≠ [] := by
  obtain ⟨s, ss, rfl⟩ := List.exists_cons_of_ne_nil ne
  exact List.append_ne_nil_of_left_ne_nil s.outline_ne_nil _

open Outline in
mutual

theorem Stmt.layout_eq (n : Nat) (s : Stmt) : s.layout n = linesList n s.outline := by
  cases s with
  | ret v => cases v <;> rfl
  | ifElse c thn els =>
    have thn := Stmt.layoutBlock_eq n ("if " ++ c.render ++ ":") thn
    cases els with
    | nil => simpa [Stmt.layout, Stmt.outline, linesList] using thn
    | cons s ss =>
      have els := Stmt.layoutBlock_eq n "else:" (s :: ss)
      simp only [Stmt.layout, Stmt.outline, linesList, List.isEmpty_cons, Bool.false_eq_true,
        if_false, ← thn, ← els, List.cons_append, List.append_nil]
  | whileLoop c body =>
    have body := Stmt.layoutBlock_eq n ("while " ++ c.render ++ ":") body
    simpa [Stmt.layout, Stmt.outline, linesList] using body
  | forEach x it body els =>
    have body := Stmt.layoutBlock_eq n ("for " ++ x ++ " in " ++ it.render ++ ":") body
    have els := Stmt.layoutElse_eq n els
    simp only [Stmt.layout, Stmt.outline, linesList, ← body, ← els, List.cons_append]
  | closure f =>
    have func := FunDef.layout_eq n f
    simpa [Stmt.layout, Stmt.outline, linesList] using func
  | _ => rfl

theorem Stmt.layoutList_eq (n : Nat) (ss : List Stmt) :
    Stmt.layoutList n ss = linesList n (Stmt.outlineList ss) := by
  cases ss with
  | nil => rfl
  | cons s ss =>
    rw [Stmt.layoutList, Stmt.outlineList, linesList_append, Stmt.layout_eq n s,
      Stmt.layoutList_eq n ss]

theorem Stmt.layoutBlock_eq (n : Nat) (header : String) (ss : List Stmt) :
    ⟨n, header⟩ :: Stmt.layoutBlock (n + 1) ss =
      (ofBlock header (Stmt.outlineList ss)).lines n := by
  cases ss with
  | nil => rfl
  | cons s ss =>
    rw [lines_ofBlock n header (Stmt.outlineList_ne_nil (List.cons_ne_nil s ss)),
      Stmt.layoutBlock, Stmt.outlineList, linesList_append, Stmt.layout_eq (n + 1) s,
      Stmt.layoutList_eq (n + 1) ss]

theorem Stmt.layoutElse_eq (n : Nat) (els : Option (List Stmt)) :
    Stmt.layoutElse n els = linesList n (Stmt.outlineElse els) := by
  cases els with
  | none => rfl
  | some ss =>
    have block := Stmt.layoutBlock_eq n "else:" ss
    simpa [Stmt.layoutElse, Stmt.outlineElse, linesList] using block

theorem FunDef.layout_eq (n : Nat) (f : FunDef) : f.layout n = f.outline.lines n := by
  cases f with
  | mk name params ret inits body _ =>
    cases inits with
    | nil => exact Stmt.layoutBlock_eq n (funHeader name params ret) body
    | cons v vs =>
      -- A local variable is enough to fill the block, so the body may be empty without a `pass`.
      rw [FunDef.layout, FunDef.outline, lines_ofBlock _ _ (by simp), linesList_append,
        linesList_map_line, Stmt.layoutList_eq (n + 1) body]
      rfl

end

theorem ClassDef.layout_eq (c : ClassDef) : c.layout = c.outline.lines 0 := by
  have methods : c.methods.flatMap (FunDef.layout 1) =
      Outline.linesList 1 (c.methods.map FunDef.outline) := by
    rw [Outline.linesList_map, funext (FunDef.layout_eq 1)]
  rw [ClassDef.layout, ClassDef.outline, methods]
  by_cases none : c.fields = [] ∧ c.methods = []
  · rw [none.1, none.2]
    rfl
  · rw [Outline.lines_ofBlock _ _ (by simpa using none), Outline.linesList_append,
      Outline.linesList_map_line, if_neg (by simpa using none)]

theorem Program.layout_eq (p : Program) : p.layout = Outline.linesList 0 p.outline := by
  rw [Program.layout, Program.outline, funext ClassDef.layout_eq, funext (FunDef.layout_eq 0),
    funext (Stmt.layout_eq 0)]
  simp only [Outline.linesList_append, Outline.linesList_flatMap]
  rw [Outline.linesList_map_line, Outline.linesList_map, Outline.linesList_map]

/-! ### Reading lines -/

/-- A line that is written with four blanks for each level. -/
def readLine (cs : List Char) : Line where
  level := (cs.takeWhile (· == ' ')).length / 4
  text := String.ofList (cs.dropWhile (· == ' '))

/-- The lines of a text in which each line ends with a newline; what is left behind the last newline
is no line. -/
def readLines (s : String) : List Line := (s.toList.splitOn '\n').dropLast.map readLine

/-- The text can be told from its indentation, and its end from what it holds. -/
def Line.isClean (l : Line) : Bool := oneLine l.text && isFlush l.text

theorem Line.toList_render (l : Line) :
    l.render.toList = (List.replicate (4 * l.level) ' ' ++ l.text.toList) ++ '\n' :: [] := by
  simp [Line.render]

theorem readLine_of_isClean {l : Line} (h : l.isClean = true) :
    readLine (List.replicate (4 * l.level) ' ' ++ l.text.toList) = l := by
  rw [Line.isClean, Bool.and_eq_true] at h
  obtain ⟨c, cs, text, start⟩ : ∃ c cs, l.text.toList = c :: cs ∧ (c == ' ') = false := by
    cases text : l.text.toList with
    | nil => simp [isFlush, text] at h
    | cons c cs => exact ⟨c, cs, rfl, by simpa [isFlush, text] using h.2⟩
  have blanks : ∀ d ∈ List.replicate (4 * l.level) ' ', (d == ' ') = true := by simp
  have front : (l.text.toList).takeWhile (· == ' ') = [] := by simp [text, start]
  have back : (l.text.toList).dropWhile (· == ' ') = l.text.toList := by simp [text, start]
  rw [readLine, List.takeWhile_append_of_pos blanks, List.dropWhile_append_of_pos blanks, front,
    back, List.append_nil, List.length_replicate, Nat.mul_div_cancel_left _ (by decide),
    String.ofList_toList]

theorem newline_not_mem_of_isClean {l : Line} (h : l.isClean = true) :
    '\n' ∉ List.replicate (4 * l.level) ' ' ++ l.text.toList := by
  rw [Line.isClean, Bool.and_eq_true, oneLine, List.all_eq_true] at h
  intro mem
  rcases List.mem_append.1 mem with blank | text
  · exact absurd (List.eq_of_mem_replicate blank) (by decide)
  · exact absurd (h.1 _ text) (by decide)

/-- **Clean lines are read back.** -/
theorem readLines_renderLines {ls : List Line} (h : ∀ l ∈ ls, l.isClean = true) :
    readLines (renderLines ls) = ls := by
  induction ls with
  | nil => rfl
  | cons l ls ih =>
    have first := h l List.mem_cons_self
    have rest := ih fun l' hl => h l' (List.mem_cons_of_mem _ hl)
    have text : (renderLines (l :: ls)).toList =
        (List.replicate (4 * l.level) ' ' ++ l.text.toList) ++ '\n' :: (renderLines ls).toList := by
      rw [renderLines, List.map_cons, String.join_cons, String.toList_append, l.toList_render,
        List.append_assoc]
      rfl
    rw [readLines, text,
      List.splitOn_append_cons_self_of_not_mem (newline_not_mem_of_isClean first),
      List.dropLast_cons_of_ne_nil (List.splitOn_ne_nil _ _), List.map_cons,
      readLine_of_isClean first]
    exact congrArg _ rest

/-! ### Reading blocks -/

/-- A line in front of what has been read below it, each with its level.  What is deeper than the
line stands in its block. -/
def plant (l : Line) (below : List (Nat × Outline)) : List (Nat × Outline) :=
  match (below.takeWhile fun o => l.level < o.1).map Prod.snd with
  | [] => (l.level, .line l.text) :: below
  | first :: rest =>
    (l.level, .block l.text first rest) :: below.dropWhile fun o => l.level < o.1

/-- The outline of an indented text. -/
def readOutline (s : String) : List Outline := ((readLines s).foldr plant []).map Prod.snd

section Plant

variable {n : Nat} {below : List (Nat × Outline)} (h : ∀ o ∈ below.head?, o.1 ≤ n)
include h

theorem takeWhile_deeper : (below.takeWhile fun o => n < o.1) = [] := by
  cases below with
  | nil => rfl
  | cons o os => simp [Nat.not_lt.2 (h o rfl)]

theorem dropWhile_deeper : (below.dropWhile fun o => n < o.1) = below := by
  cases below with
  | nil => rfl
  | cons o os => simp [Nat.not_lt.2 (h o rfl)]

theorem plant_line (text : String) : plant ⟨n, text⟩ below = (n, .line text) :: below := by
  simp only [plant, takeWhile_deeper h, List.map_nil]

theorem plant_block (header : String) (first : Outline) (rest : List Outline) :
    plant ⟨n, header⟩ ((first :: rest).map (n + 1, ·) ++ below) =
      (n, .block header first rest) :: below := by
  have deeper : ∀ o ∈ (first :: rest).map (n + 1, ·), decide (n < o.1) = true := by simp
  have inner : ((first :: rest).map (n + 1, ·)).map Prod.snd = first :: rest := by
    simp [Function.comp_def]
  simp only [plant, List.takeWhile_append_of_pos deeper, List.dropWhile_append_of_pos deeper,
    takeWhile_deeper h, dropWhile_deeper h, List.append_nil, inner]

end Plant

mutual

/-- The lines of an outline are read as the outline, in front of what is not deeper. -/
theorem foldr_plant_lines (o : Outline) {n : Nat} {below : List (Nat × Outline)}
    (h : ∀ o ∈ below.head?, o.1 ≤ n) :
    (o.lines n).foldr plant below = (n, o) :: below := by
  cases o with
  | line text => exact plant_line h text
  | block header first rest =>
    -- What is in the block is read one level deeper, where nothing below it is in the way.
    have above : ∀ o ∈ below.head?, o.1 ≤ n + 1 := fun o ho => Nat.le_succ_of_le (h o ho)
    have inner := foldr_plant_linesList rest above
    have level : ∀ o ∈ (rest.map (n + 1, ·) ++ below).head?, o.1 ≤ n + 1 := by
      cases rest with
      | nil => exact above
      | cons o os => simp
    rw [Outline.lines, List.foldr_cons, List.foldr_append, inner, foldr_plant_lines first level]
    exact plant_block h header first rest

theorem foldr_plant_linesList (os : List Outline) {n : Nat} {below : List (Nat × Outline)}
    (h : ∀ o ∈ below.head?, o.1 ≤ n) :
    (Outline.linesList n os).foldr plant below = os.map (n, ·) ++ below := by
  cases os with
  | nil => rfl
  | cons o os =>
    have level : ∀ o ∈ (os.map (n, ·) ++ below).head?, o.1 ≤ n := by
      cases os with
      | nil => exact h
      | cons o os => simp
    rw [Outline.linesList, List.foldr_append, foldr_plant_linesList os h,
      foldr_plant_lines o level]
    rfl

end

/-! ### Headers -/

/-- The text ends with a colon. -/
def opensBlock (s : String) : Bool := s.toList.getLast? == some ':'

/-- What may follow a line: after the header of a block a line that is one level deeper, after
any other line none that is deeper. -/
def Line.FollowedBy (l : Line) (below : List Line) : Prop :=
  if opensBlock l.text then ∃ next rest, below = next :: rest ∧ next.level = l.level + 1
  else ∀ next ∈ below.head?, next.level ≤ l.level

/-- A text that can be the header of a block. -/
structure Header (s : String) : Prop where
  oneLine : oneLine s = true
  isFlush : isFlush s = true
  opensBlock : opensBlock s = true

theorem Inline.opensBlock {s : String} (h : Inline s) : opensBlock s = false := by
  have last := h.endsPlain
  rw [FlatClosure.endsPlain] at last
  rw [FlatClosure.opensBlock]
  cases e : s.toList.getLast? with
  | none => rfl
  | some c => simpa [e] using last

theorem opensBlock_append {s t : String} (h : opensBlock t = true) :
    opensBlock (s ++ t) = true := by
  rw [opensBlock, beq_iff_eq] at h
  simp [opensBlock, h]

namespace Outline

mutual

/-- The texts of the lines stand on one line each, and the headers, and only they, end with a
colon. -/
def Proper : Outline → Prop
  | .line text => Inline text
  | .block header first rest => Header header ∧ first.Proper ∧ ProperList rest

/-- So they do in several outlines. -/
def ProperList : List Outline → Prop
  | [] => True
  | o :: os => o.Proper ∧ ProperList os

end

theorem properList_iff {os : List Outline} : ProperList os ↔ ∀ o ∈ os, o.Proper := by
  induction os with
  | nil => simp [ProperList]
  | cons o os ih => simp [ProperList, ih]

theorem proper_ofBlock {header : String} {os : List Outline} (hh : Header header)
    (hos : ∀ o ∈ os, o.Proper) : (ofBlock header os).Proper := by
  cases os with
  | nil => exact ⟨hh, ⟨by decide, by decide, by decide⟩, trivial⟩
  | cons o os =>
    have rest := properList_iff.2 fun o' ho => hos o' (List.mem_cons_of_mem _ ho)
    exact ⟨hh, hos o List.mem_cons_self, rest⟩

mutual

theorem isClean_of_mem_lines {n : Nat} {o : Outline} (h : o.Proper) :
    ∀ l ∈ o.lines n, l.isClean = true := by
  cases o with
  | line text =>
    intro l hl
    rw [List.mem_singleton.1 hl, Line.isClean, h.oneLine, h.isFlush]
    rfl
  | block header first rest =>
    obtain ⟨hh, hf, hr⟩ := h
    intro l hl
    rcases List.mem_cons.1 hl with rfl | hl
    · rw [Line.isClean, hh.oneLine, hh.isFlush]
      rfl
    · rcases List.mem_append.1 hl with hl | hl
      · exact isClean_of_mem_lines hf l hl
      · exact isClean_of_mem_linesList hr l hl

theorem isClean_of_mem_linesList {n : Nat} {os : List Outline} (h : ProperList os) :
    ∀ l ∈ linesList n os, l.isClean = true := by
  cases os with
  | nil => exact fun l hl => absurd hl List.not_mem_nil
  | cons o os =>
    intro l hl
    rcases List.mem_append.1 hl with hl | hl
    · exact isClean_of_mem_lines h.1 l hl
    · exact isClean_of_mem_linesList h.2 l hl

end

theorem level_head_linesList {n : Nat} (os : List Outline) {below : List Line}
    (level : ∀ next ∈ below.head?, next.level ≤ n) :
    ∀ next ∈ (linesList n os ++ below).head?, next.level ≤ n := by
  cases os with
  | nil => exact level
  | cons o os =>
    obtain ⟨text, rest, lines⟩ := exists_lines_eq_cons n o
    simp [linesList, lines]

/-- Every line is followed by what may follow it. -/
def Stepped (ls : List Line) : Prop := ∀ l below, l :: below <:+ ls → l.FollowedBy below

theorem stepped_cons {l : Line} {ls : List Line} (first : l.FollowedBy ls) (rest : Stepped ls) :
    Stepped (l :: ls) := by
  intro l' below h
  rcases List.suffix_cons_iff.1 h with eq | h
  · cases eq
    exact first
  · exact rest l' below h

mutual

/-- One outline in front of lines that are not deeper. -/
theorem stepped_lines {n : Nat} {o : Outline} (h : o.Proper) {below : List Line}
    (hb : Stepped below) (level : ∀ next ∈ below.head?, next.level ≤ n) :
    Stepped (o.lines n ++ below) := by
  cases o with
  | line text =>
    refine stepped_cons ?_ hb
    rw [Line.FollowedBy, if_neg (by simp [Inline.opensBlock h])]
    exact level
  | block header first rest =>
    obtain ⟨hh, hf, hr⟩ := h
    have above : ∀ next ∈ below.head?, next.level ≤ n + 1 :=
      fun next hn => Nat.le_succ_of_le (level next hn)
    have inner := stepped_linesList hr hb above
    have next : ∀ next ∈ (linesList (n + 1) rest ++ below).head?, next.level ≤ n + 1 :=
      level_head_linesList rest above
    have block := stepped_lines hf inner next
    -- The header sees the first line of the block, which is there because a block is not empty.
    obtain ⟨text, ls, lines⟩ := exists_lines_eq_cons (n + 1) first
    rw [Outline.lines, List.cons_append, List.append_assoc]
    refine stepped_cons ?_ block
    rw [Line.FollowedBy, if_pos hh.opensBlock]
    exact ⟨⟨n + 1, text⟩, ls ++ (linesList (n + 1) rest ++ below), by rw [lines]; rfl, rfl⟩

theorem stepped_linesList {n : Nat} {os : List Outline} (h : ProperList os) {below : List Line}
    (hb : Stepped below) (level : ∀ next ∈ below.head?, next.level ≤ n) :
    Stepped (linesList n os ++ below) := by
  cases os with
  | nil => exact hb
  | cons o os =>
    rw [linesList, List.append_assoc]
    exact stepped_lines h.1 (stepped_linesList h.2 hb level) (level_head_linesList os level)

end

end Outline

/-! ### Legible programs -/

/-- The names in a declaration are identifiers. -/
def VarInit.legible (v : VarInit) : Bool := isIdentifier v.name && v.ty.legible

/-- The names in a parameter are identifiers. -/
def Param.legible (p : Param) : Bool := isIdentifier p.name && p.ty.legible

mutual

/-- The names in a statement are identifiers, and destructuring assignments have a target. -/
def Stmt.legible : Stmt → Bool
  | .assign x v => isIdentifier x && v.legible
  | .unpack slots v => !slots.isEmpty && slots.all (·.target.legible) && v.legible
  | .ret v => Expr.legibleOption v
  | .expr e => e.legible
  | .setField o f v => o.legible && isIdentifier f && v.legible
  | .setIndex o i v => o.legible && i.legible && v.legible
  | .ifElse c thn els => c.legible && Stmt.legibleList thn && Stmt.legibleList els
  | .whileLoop c body => c.legible && Stmt.legibleList body
  | .forEach x it body els =>
    isIdentifier x && it.legible && Stmt.legibleList body && Stmt.legibleElse els
  | .pass => true
  | .nonlocal x => isIdentifier x
  | .global x => isIdentifier x
  | .breakLoop => true
  | .continueLoop => true
  | .closure f => f.legible

/-- So it is with several statements. -/
def Stmt.legibleList : List Stmt → Bool
  | [] => true
  | s :: ss => s.legible && Stmt.legibleList ss

/-- So it is with the else part of a loop. -/
def Stmt.legibleElse : Option (List Stmt) → Bool
  | none => true
  | some ss => Stmt.legibleList ss

/-- So it is with a function. -/
def FunDef.legible : FunDef → Bool
  | ⟨name, params, ret, inits, body, _⟩ =>
    isIdentifier name && params.all Param.legible && ret.legible && inits.all VarInit.legible &&
      Stmt.legibleList body

end

/-- So it is with a class. -/
def ClassDef.legible (c : ClassDef) : Bool :=
  isIdentifier c.name && c.fields.all VarInit.legible && c.methods.all FunDef.legible

/-- **The names in a program are identifiers, and its destructuring assignments have a target.** -/
def Program.legible (p : Program) : Bool :=
  p.funs.all FunDef.legible && p.classes.all ClassDef.legible && p.inits.all VarInit.legible &&
    p.stmts.all Stmt.legible

theorem VarInit.inline {v : VarInit} (h : v.legible = true) : Inline v.render := by
  rw [VarInit.legible, Bool.and_eq_true] at h
  have name := inline_of_isIdentifier h.1
  have ty := v.ty.inline h.2
  have value := v.value.inline
  refine ⟨?_, ?_, endsPlain_append value.endsPlain⟩
  · simp +decide [VarInit.render, name.oneLine, ty.oneLine, value.oneLine]
  · simp [VarInit.render, name.isFlush]

theorem proper_varLines {vs : List VarInit} (h : ∀ v ∈ vs, v.legible = true) :
    ∀ o ∈ vs.map (fun v => Outline.line v.render), o.Proper := by
  intro o ho
  obtain ⟨v, hv, rfl⟩ := List.mem_map.1 ho
  exact VarInit.inline (h v hv)

theorem Param.oneLine_render {p : Param} (h : p.legible = true) : oneLine p.render = true := by
  rw [Param.legible, Bool.and_eq_true] at h
  simp +decide [Param.render, (inline_of_isIdentifier h.1).oneLine, (p.ty.inline h.2).oneLine]

/-- A line that assigns. -/
theorem inline_assignment {target value : String} (ht : oneLine target = true)
    (hf : isFlush target = true) (hv : Inline value) : Inline (target ++ " = " ++ value) := by
  refine ⟨?_, ?_, endsPlain_append hv.endsPlain⟩
  · simp +decide [ht, hv.oneLine]
  · simp [hf]

/-- A line that is a word and a text. -/
theorem inline_keyword {text : String} (word : String) (hw : oneLine word = true)
    (hf : isFlush word = true) (ht : Inline text) : Inline (word ++ text) := by
  refine ⟨?_, ?_, endsPlain_append ht.endsPlain⟩
  · simp [hw, ht.oneLine]
  · simp [hf]

theorem header_append_colon {text : String} (ht : oneLine text = true)
    (hf : isFlush text = true) : Header (text ++ ":") := by
  refine ⟨?_, ?_, opensBlock_append (by decide)⟩
  · simp +decide [ht]
  · simp [hf]

theorem header_else : Header "else:" := ⟨by decide, by decide, by decide⟩

theorem header_funHeader {name : String} {params : List Param} {ret : Ty}
    (hn : isIdentifier name = true) (hp : ∀ p ∈ params, p.legible = true)
    (hr : ret.legible = true) : Header (funHeader name params ret) := by
  have ps : oneLine (", ".intercalate (params.map Param.render)) = true := by
    refine oneLine_intercalate (by decide) fun t ht => ?_
    obtain ⟨p, mem, rfl⟩ := List.mem_map.1 ht
    exact Param.oneLine_render (hp p mem)
  refine header_append_colon ?_ ?_
  · simp +decide [(inline_of_isIdentifier hn).oneLine, ps, (ret.inline hr).oneLine]
  · simp +decide

mutual

/-- **The lines and headers of a statement are what they should be.** -/
theorem Stmt.proper_outline (s : Stmt) (h : s.legible = true) : ∀ o ∈ s.outline, o.Proper := by
  cases s with
  | assign x v =>
    rw [Stmt.legible, Bool.and_eq_true] at h
    have name := inline_of_isIdentifier h.1
    have line := inline_assignment name.oneLine name.isFlush (v.inline h.2)
    simpa [Stmt.outline, Outline.Proper] using line
  | unpack slots v =>
    simp only [Stmt.legible, Bool.and_eq_true, List.all_eq_true, Bool.not_eq_true',
      List.isEmpty_eq_false_iff] at h
    obtain ⟨⟨ne, targets⟩, value⟩ := h
    have texts : oneLine (", ".intercalate (slots.map Slot.render)) = true := by
      refine oneLine_intercalate (by decide) fun t ht => ?_
      obtain ⟨s, hs, rfl⟩ := List.mem_map.1 ht
      exact (s.inline (targets s hs)).oneLine
    have start : isFlush (", ".intercalate (slots.map Slot.render)) = true := by
      obtain ⟨s, ss, rfl⟩ := List.exists_cons_of_ne_nil ne
      exact isFlush_intercalate (s.inline (targets s List.mem_cons_self)).isFlush
    have line := inline_assignment texts start (v.inline value)
    simpa [Stmt.outline, Outline.Proper] using line
  | ret v =>
    cases v with
    | none =>
      have line : Inline "return" := ⟨by decide, by decide, by decide⟩
      simpa [Stmt.outline, Outline.Proper] using line
    | some v =>
      have line := inline_keyword "return " (by decide) (by decide) (v.inline h)
      simpa [Stmt.outline, Outline.Proper] using line
  | expr e => simpa [Stmt.outline, Outline.Proper] using e.inline h
  | setField o f v =>
    rw [Stmt.legible, Bool.and_eq_true] at h
    have target := Expr.inline (.field o f) h.1
    have line := inline_assignment target.oneLine target.isFlush (v.inline h.2)
    simpa [Stmt.outline, Outline.Proper, Expr.render] using line
  | setIndex o i v =>
    rw [Stmt.legible, Bool.and_eq_true] at h
    have target := Expr.inline (.index o i) h.1
    -- The bracket that closes the target is written together with the sign of the assignment.
    have text : o.render ++ "[" ++ i.render ++ "] = " ++ v.render =
        (Expr.index o i).render ++ " = " ++ v.render := by
      simp only [Expr.render, String.append_assoc]
      rfl
    have line := inline_assignment target.oneLine target.isFlush (v.inline h.2)
    simpa [Stmt.outline, Outline.Proper, text] using line
  | ifElse c thn els =>
    simp only [Stmt.legible, Bool.and_eq_true] at h
    have cond := c.inline h.1.1
    have header : Header ("if " ++ c.render ++ ":") := by
      refine header_append_colon ?_ ?_ <;> simp +decide [cond.oneLine]
    have first := Outline.proper_ofBlock header (Stmt.proper_outlineList thn h.1.2)
    have second := Outline.proper_ofBlock header_else (Stmt.proper_outlineList els h.2)
    intro o ho
    rw [Stmt.outline] at ho
    rcases List.mem_cons.1 ho with rfl | ho
    · exact first
    · split at ho
      · exact absurd ho List.not_mem_nil
      · rw [List.mem_singleton.1 ho]
        exact second
  | whileLoop c body =>
    rw [Stmt.legible, Bool.and_eq_true] at h
    have cond := c.inline h.1
    have header : Header ("while " ++ c.render ++ ":") := by
      refine header_append_colon ?_ ?_ <;> simp +decide [cond.oneLine]
    simpa [Stmt.outline] using Outline.proper_ofBlock header (Stmt.proper_outlineList body h.2)
  | forEach x it body els =>
    simp only [Stmt.legible, Bool.and_eq_true] at h
    have name := inline_of_isIdentifier h.1.1.1
    have iterable := it.inline h.1.1.2
    have header : Header ("for " ++ x ++ " in " ++ it.render ++ ":") := by
      refine header_append_colon ?_ ?_ <;> simp +decide [name.oneLine, iterable.oneLine]
    have first := Outline.proper_ofBlock header (Stmt.proper_outlineList body h.1.2)
    intro o ho
    rw [Stmt.outline] at ho
    rcases List.mem_cons.1 ho with rfl | ho
    · exact first
    · exact Stmt.proper_outlineElse els h.2 o ho
  | pass | breakLoop | continueLoop =>
    intro o ho
    rw [List.mem_singleton.1 ho]
    exact ⟨by decide, by decide, by decide⟩
  | nonlocal x =>
    have line := inline_keyword "nonlocal " (by decide) (by decide)
      (inline_of_isIdentifier h)
    simpa [Stmt.outline, Outline.Proper] using line
  | global x =>
    have line := inline_keyword "global " (by decide) (by decide)
      (inline_of_isIdentifier h)
    simpa [Stmt.outline, Outline.Proper] using line
  | closure f => simpa [Stmt.outline] using FunDef.proper_outline f h

theorem Stmt.proper_outlineList (ss : List Stmt) (h : Stmt.legibleList ss = true) :
    ∀ o ∈ Stmt.outlineList ss, o.Proper := by
  cases ss with
  | nil => exact fun o ho => absurd ho List.not_mem_nil
  | cons s ss =>
    rw [Stmt.legibleList, Bool.and_eq_true] at h
    intro o ho
    rcases List.mem_append.1 ho with ho | ho
    · exact Stmt.proper_outline s h.1 o ho
    · exact Stmt.proper_outlineList ss h.2 o ho

theorem Stmt.proper_outlineElse (els : Option (List Stmt)) (h : Stmt.legibleElse els = true) :
    ∀ o ∈ Stmt.outlineElse els, o.Proper := by
  cases els with
  | none => exact fun o ho => absurd ho List.not_mem_nil
  | some ss =>
    have block := Outline.proper_ofBlock header_else (Stmt.proper_outlineList ss h)
    simpa [Stmt.outlineElse] using block

theorem FunDef.proper_outline (f : FunDef) (h : f.legible = true) : f.outline.Proper := by
  cases f with
  | mk name params ret inits body _ =>
    simp only [FunDef.legible, Bool.and_eq_true, List.all_eq_true] at h
    obtain ⟨⟨⟨⟨name, params⟩, ret⟩, inits⟩, body⟩ := h
    refine Outline.proper_ofBlock (header_funHeader name params ret) fun o ho => ?_
    rcases List.mem_append.1 ho with ho | ho
    · exact proper_varLines inits o ho
    · exact Stmt.proper_outlineList _ body o ho

end

theorem ClassDef.proper_outline {c : ClassDef} (h : c.legible = true) : c.outline.Proper := by
  simp only [ClassDef.legible, Bool.and_eq_true, List.all_eq_true] at h
  obtain ⟨⟨name, fields⟩, methods⟩ := h
  have header : Header ("class " ++ c.name ++ "(object):") := by
    refine ⟨?_, ?_, opensBlock_append (by decide)⟩ <;>
      simp +decide [(inline_of_isIdentifier name).oneLine]
  refine Outline.proper_ofBlock header fun o ho => ?_
  rcases List.mem_append.1 ho with ho | ho
  · exact proper_varLines fields o ho
  · obtain ⟨f, hf, rfl⟩ := List.mem_map.1 ho
    exact f.proper_outline (methods f hf)

theorem Program.proper_outline {p : Program} (h : p.legible = true) :
    Outline.ProperList p.outline := by
  simp only [Program.legible, Bool.and_eq_true, List.all_eq_true] at h
  obtain ⟨⟨⟨funs, classes⟩, inits⟩, stmts⟩ := h
  refine Outline.properList_iff.2 fun o ho => ?_
  simp only [Program.outline, List.mem_append, List.mem_flatMap] at ho
  rcases ho with ((ho | ho) | ho) | ⟨s, hs, ho⟩
  · exact proper_varLines inits o ho
  · obtain ⟨c, hc, rfl⟩ := List.mem_map.1 ho
    exact ClassDef.proper_outline (classes c hc)
  · obtain ⟨f, hf, rfl⟩ := List.mem_map.1 ho
    exact f.proper_outline (funs f hf)
  · exact s.proper_outline (stmts s hs) o ho

/-! ### The text of a program -/

/-- **The blocks of a program can be read off its text.**  The text of a legible program consists
of the lines of its outline, each with four blanks for every block around it and a newline behind
it.  The lines are read back, and from their indentation alone the outline.  They hold no other
line breaks and do not start with blanks.  A line that ends with a colon is followed by one that is
a level deeper, and after any other line the level does not rise.  Neither an expression nor a
literal breaks a line. -/
theorem render_recoverable (p : Program) (h : p.legible = true) :
    p.render = String.join ((Outline.linesList 0 p.outline).map fun l =>
        String.ofList (List.replicate (4 * l.level) ' ') ++ l.text ++ "\n") ∧
      readLines p.render = Outline.linesList 0 p.outline ∧
      readOutline p.render = p.outline ∧
      (∀ l ∈ Outline.linesList 0 p.outline, oneLine l.text = true ∧ isFlush l.text = true) ∧
      (∀ l below, l :: below <:+ Outline.linesList 0 p.outline → l.FollowedBy below) ∧
      (∀ e : Expr, e.legible = true → oneLine e.render = true) ∧
      ∀ v : Literal, oneLine v.render = true := by
  have proper := p.proper_outline h
  have text : p.render = renderLines (Outline.linesList 0 p.outline) :=
    congrArg renderLines p.layout_eq
  have clean := Outline.isClean_of_mem_linesList (n := 0) proper
  have lines : readLines p.render = Outline.linesList 0 p.outline := by
    rw [text, readLines_renderLines clean]
  refine ⟨text, lines, ?_, ?_, ?_, fun e he => (e.inline he).oneLine, fun v => v.inline.oneLine⟩
  · rw [readOutline, lines, foldr_plant_linesList p.outline (by simp)]
    simp [Function.comp_def]
  · intro l hl
    simpa [Line.isClean] using clean l hl
  · have none : Outline.Stepped [] := by
      intro l below h
      simp at h
    have stepped := Outline.stepped_linesList (n := 0) proper none (by simp)
    rwa [List.append_nil] at stepped

/-- A class without members, and a function that has a local variable, a closure without
statements and a loop whose else part is there and empty.  The string literal looks like the end
of a line and a deeper header. -/
def nestedBlocks : Program where
  classes := [⟨"Box", [], []⟩]
  funs := [⟨"f", [⟨"xs", .list .int⟩], .none, [⟨"s", .str, .str "a\n        b:"⟩],
    [.closure ⟨"g", [], .none, [], [], .dummy⟩,
      .forEach "x" (.id "xs" .dummy) [.breakLoop] (some [])], .dummy⟩]

theorem render_recoverable_nestedBlocks : nestedBlocks.legible = true ∧
    readOutline nestedBlocks.render =
      [.block "class Box(object):" (.line "pass") [],
        .block "def f(xs: [int]) -> None:" (.line "s: str = \"a\\n        b:\"")
          [.block "def g() -> None:" (.line "pass") [],
            .block "for x in xs:" (.line "break") [],
            .block "else:" (.line "pass") []]] :=
  ⟨by decide, (render_recoverable nestedBlocks (by decide)).2.2.1.trans (by rfl)⟩

end FlatClosure

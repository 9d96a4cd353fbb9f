import FlatClosure.Json.Printer
import FlatClosure.Json.Reader

/-!
# Tokens of written JSON

The text that is written for a JSON value is cut into the tokens of the value, whatever stands
before and after it.  A value that is a word has no end of its own, it ends where a bracket, comma,
colon, quote or blank follows; `Json.Cuts` is stated so that a word may be pending at the end.

* `Json.word?_toString` : a whole number of 64 bits is read back.
* `Json.cuts_stringText` : so is every string.
* `Json.cuts_indentedAt`, `Json.tokens?_indented` : **the tokens of a whole text.**
-/

namespace FlatClosure

/-! ### Digits -/

theorem ofDigits_toDigits (n : Nat) : ofDigits (Nat.toDigits 10 n) = n :=
  Nat.ofDigitChars_eq_foldl.symm.trans Nat.ofDigitChars_ten_toDigits

theorem isDigit_of_mem_toDigits {n : Nat} {c : Char} (h : c ∈ Nat.toDigits 10 n) :
    c.isDigit = true :=
  Nat.isDigit_of_mem_toDigits (by decide) (by decide) h

/-- A positive number is written without zeros in front. -/
theorem head?_toDigits {n : Nat} (h : 0 < n) : (Nat.toDigits 10 n).head? ≠ some '0' := by
  induction n using Nat.strongRecOn with
  | ind n ih =>
    rw [Nat.toDigits_eq_if (by decide)]
    split
    case isTrue small =>
      have digit : ∀ d < 10, 0 < d → Nat.digitChar d ≠ '0' := by decide
      simpa using digit n small h
    case isFalse large =>
      obtain ⟨c, cs, digits⟩ := List.exists_cons_of_ne_nil (Nat.toDigits_ne_nil (n := n / 10))
      have head := ih (n / 10) (by omega) (by omega)
      rw [digits] at head ⊢
      exact head

theorem splitDigits_of_forall {ds : List Char} (h : ∀ c ∈ ds, c.isDigit = true) :
    splitDigits ds = (ds, []) := by
  have keep : ds.takeWhile Char.isDigit = ds := by
    simpa using @List.takeWhile_append_of_pos _ Char.isDigit ds [] h
  have drop : ds.dropWhile Char.isDigit = [] := by
    simpa using @List.dropWhile_append_of_pos _ Char.isDigit ds [] h
  rw [splitDigits, keep, drop]

theorem le_foldl_digits (ds : List Char) (n : Nat) :
    n ≤ ds.foldl (fun n c => 10 * n + (c.toNat - 48)) n := by
  induction ds generalizing n with
  | nil => exact Nat.le_refl n
  | cons c ds ih =>
    have step : n ≤ 10 * n + (c.toNat - 48) := by omega
    exact Nat.le_trans step (ih _)

theorem roundToDouble_le (n : Nat) : roundToDouble n ≤ 2 * n := by
  rcases Nat.eq_zero_or_pos n with rfl | pos
  · decide
  have unit : Nat.pow 2 (n.log2 - 52) ≤ n :=
    Nat.le_trans (Nat.pow_le_pow_right (by decide) (Nat.sub_le _ _))
      (Nat.log2_self_le (Nat.ne_of_gt pos))
  have kept := Nat.div_mul_le_self n (Nat.pow 2 (n.log2 - 52))
  rw [roundToDouble]
  split
  · rw [Nat.succ_mul]
    omega
  · omega

namespace Json

/-! ### Numbers -/

theorem Numeral.appendDigits_of_lt {ds : List Char} {n : Nat}
    (h : ds.foldl (fun n c => 10 * n + (c.toNat - 48)) n < Nat.pow 2 64) :
    appendDigits n ds = (ds.foldl (fun n c => 10 * n + (c.toNat - 48)) n, []) := by
  induction ds generalizing n with
  | nil => rfl
  | cons c ds ih =>
    have fits : 10 * n + (c.toNat - 48) < Nat.pow 2 64 :=
      Nat.lt_of_le_of_lt (le_foldl_digits ds _) h
    rw [appendDigits, if_pos fits]
    exact ih h

theorem Numeral.isFinite_of_lt {n : Nat} (h : n < Nat.pow 2 64) : isFinite n 0 = true := by
  have bound : 2 * Nat.pow 2 64 ≤ infinityBound := by decide +kernel
  have one : roundToDouble 1 = 1 := by decide
  have double := roundToDouble_le n
  have finite : roundToDouble n < infinityBound := by omega
  simp [isFinite, one, finite]

/-- The parts of a whole number. -/
theorem Numeral.ofChars?_toDigits (negative : Bool) (n : Nat) :
    Numeral.ofChars? ((if negative then ['-'] else []) ++ Nat.toDigits 10 n) =
      some ⟨negative, Nat.toDigits 10 n, [], none⟩ := by
  have digits : ∀ c ∈ Nat.toDigits 10 n, c.isDigit = true := fun c => isDigit_of_mem_toDigits
  have sign : (((if negative then ['-'] else []) ++ Nat.toDigits 10 n).head? == some '-') =
      negative := by
    cases negative with
    | true => rfl
    | false =>
      rw [beq_eq_false_iff_ne]
      intro dash
      have : '-' ∈ Nat.toDigits 10 n := List.mem_of_mem_head? dash
      exact absurd (digits _ this) (by decide)
  have leading : (!(Nat.toDigits 10 n).isEmpty && ((Nat.toDigits 10 n).length == 1 ||
      (Nat.toDigits 10 n).head? != some '0')) = true := by
    have some : (Nat.toDigits 10 n).isEmpty = false := by simp [Nat.toDigits_ne_nil]
    rcases Nat.eq_zero_or_pos n with rfl | pos
    · decide
    · simp [some, head?_toDigits pos]
  have body : (if negative then ((if negative then ['-'] else []) ++ Nat.toDigits 10 n).tail
      else (if negative then ['-'] else []) ++ Nat.toDigits 10 n) = Nat.toDigits 10 n := by
    cases negative <;> rfl
  rw [Numeral.ofChars?, sign]
  dsimp only
  rw [body, splitDigits_of_forall digits]
  rw [leading]
  rfl

theorem Numeral.inRange_toDigits (negative : Bool) {n : Nat} (h : n < Nat.pow 2 64) :
    (Numeral.mk negative (Nat.toDigits 10 n) [] none).inRange = true := by
  have value : (Nat.toDigits 10 n).foldl (fun n c => 10 * n + (c.toNat - 48)) 0 = n :=
    ofDigits_toDigits n
  have whole : appendDigits 0 (Nat.toDigits 10 n) = (n, []) := by
    rw [appendDigits_of_lt (by rwa [value]), value]
  rw [inRange, scaled]
  dsimp only
  rw [whole]
  exact isFinite_of_lt h

/-- The text of a whole number: a sign, if it is negative, and the digits. -/
theorem toList_toString_int (n : Int) :
    (toString n).toList = (if n < 0 then ['-'] else []) ++ Nat.toDigits 10 n.natAbs := by
  rw [Int.toString_eq_repr, Int.repr_eq_if]
  split
  case isTrue nonneg =>
    have abs : n.toNat = n.natAbs := by omega
    rw [if_neg (by omega), Nat.repr_eq_ofList_toDigits, String.toList_ofList, abs]
    rfl
  case isFalse negative =>
    have abs : (-n).toNat = n.natAbs := by omega
    rw [if_pos (by omega), Nat.repr_eq_ofList_toDigits, String.toList_append, abs]
    simp

theorem word?_of_numeral {cs : List Char} {n : Numeral} (h : Numeral.ofChars? cs = some n) :
    word? cs = some (.word (n.value? cs)) := by
  have other {name : List Char} (none : Numeral.ofChars? name = none) : cs ≠ name := by
    rintro rfl
    rw [none] at h
    cases h
  rw [word?, if_neg (other (by decide)), if_neg (other (by decide)), if_neg (other (by decide)), h]
  rfl

/-- **A whole number of 64 bits is read back.** -/
theorem word?_toString {n : Int} (h : n.natAbs < Nat.pow 2 64) :
    word? (toString n).toList = some (.word (some (.int n))) := by
  have sign : (if n < 0 then ['-'] else []) = if decide (n < 0) = true then ['-'] else [] := by
    simp only [decide_eq_true_eq]
  -- a negative zero is not written
  have zero : (decide (n < 0) && Nat.toDigits 10 n.natAbs == ['0']) = false := by
    rw [Bool.and_eq_false_imp]
    intro negative
    rw [decide_eq_true_eq] at negative
    rw [beq_eq_false_iff_ne]
    intro digits
    exact head?_toDigits (n := n.natAbs) (by omega) (by rw [digits]; rfl)
  have value : (if n < 0 then -(n.natAbs : Int) else n.natAbs) = n := by omega
  rw [toList_toString_int, sign, word?_of_numeral (Numeral.ofChars?_toDigits _ _), Numeral.value?,
    Numeral.inRange_toDigits _ h]
  simp only [zero, ofDigits_toDigits, decide_eq_true_eq, value]
  rfl

/-! ### Cutting a text -/

/-- A character that ends a word. -/
def isBreak (c : Char) : Bool := (mark? c).isSome || isSpace c || c = '"'

/-- The tokens that the scanner has read, in reverse: in this state nothing is begun but perhaps a
word that is complete. -/
inductive Holds : Scan × List Token → List Token → Prop
  | between (ts : List Token) : Holds (.between, ts) ts
  | word {cs : List Char} {t : Token} (ts : List Token) (h : word? cs.reverse = some t) :
    Holds (.word cs, ts) (t :: ts)

/-- A character that ends a word is read the same whether a word is pending or not. -/
theorem Holds.step {st : Scan × List Token} {ts : List Token} {c : Char} (h : Holds st ts)
    (hc : isBreak c = true) : scanStep st c = scanStep (.between, ts) c := by
  cases h with
  | between => rfl
  | word ts word =>
    change (if isBreak c = true then _ else _) = _
    rw [if_pos hc, word]
    rfl

/-- The text `cs` is cut into the tokens `out`. -/
def Cuts (cs : List Char) (out : List Token) : Prop :=
  ∀ ts, ∃ st, cs.foldlM scanStep (.between, ts) = some st ∧ Holds st (out.reverse ++ ts)

/-- The text starts with a character that ends a word. -/
def Breaks (cs : List Char) : Prop := ∃ c rest, cs = c :: rest ∧ isBreak c = true

namespace Cuts

variable {cs cs' : List Char} {out out' : List Token} {c : Char} {t : Token}

theorem nil : Cuts [] [] := fun ts => ⟨(.between, ts), rfl, .between ts⟩

theorem append (h : Cuts cs out) (h' : Cuts cs' out') (hb : Breaks cs') :
    Cuts (cs ++ cs') (out ++ out') := by
  intro ts
  obtain ⟨c, rest, rfl, hc⟩ := hb
  obtain ⟨st, run, holds⟩ := h ts
  obtain ⟨st', run', holds'⟩ := h' (out.reverse ++ ts)
  refine ⟨st', ?_, ?_⟩
  · rw [List.foldlM_append, run]
    rw [List.foldlM_cons] at run'
    change List.foldlM scanStep st (c :: rest) = some st'
    rw [List.foldlM_cons, holds.step hc, run']
  · rwa [List.reverse_append, List.append_assoc]

theorem space (hc : isSpace c = true) (none : mark? c = none) (h : Cuts cs out) :
    Cuts (c :: cs) out := by
  intro ts
  have step : scanStep (.between, ts) c = some (.between, ts) := by
    rw [scanStep, scanFresh, none]
    dsimp only
    rw [if_pos hc]
  obtain ⟨st, run, holds⟩ := h ts
  refine ⟨st, ?_, holds⟩
  rw [List.foldlM_cons, step]
  exact run

theorem mark (hc : mark? c = some t) (h : Cuts cs out) : Cuts (c :: cs) (t :: out) := by
  intro ts
  have step : scanStep (.between, ts) c = some (.between, t :: ts) := by
    rw [scanStep, scanFresh, hc]
  obtain ⟨st, run, holds⟩ := h (t :: ts)
  refine ⟨st, ?_, ?_⟩
  · rw [List.foldlM_cons, step]
    exact run
  · rwa [List.reverse_cons, List.append_assoc]

theorem tokens? (h : Cuts cs out) : Json.tokens? cs = some out := by
  obtain ⟨st, run, holds⟩ := h []
  rw [Json.tokens?, run]
  rw [List.append_nil] at holds
  generalize reversed : out.reverse = ts at holds
  have out_eq : out = ts.reverse := by rw [← reversed, List.reverse_reverse]
  cases holds with
  | between => rw [out_eq]; rfl
  | word ts word => rw [out_eq]; simp [word]

end Cuts

/-! ### Words and blanks -/

theorem isBreak_of_isDigit {c : Char} (h : c.isDigit = true) : isBreak c = false := by
  have ne {d : Char} (hd : d.isDigit = false) : (c == d) = false := by
    rw [beq_eq_false_iff_ne]
    rintro rfl
    rw [h] at hd
    cases hd
  have quote : decide (c = '"') = false := ne (by decide)
  rw [isBreak, mark?, isSpace, quote]
  simp only [List.lookup_cons, ne (d := '[') (by decide), ne (d := ']') (by decide),
    ne (d := '\x7b') (by decide), ne (d := '\x7d') (by decide), ne (d := ':') (by decide),
    ne (d := ',') (by decide), ne (d := ' ') (by decide), ne (d := '\n') (by decide),
    ne (d := '\r') (by decide), ne (d := '\t') (by decide)]
  rfl

theorem foldlM_word {cs : List Char} (h : ∀ c ∈ cs, isBreak c = false) (ds : List Char)
    (ts : List Token) :
    cs.foldlM scanStep (.word ds, ts) = some (.word (cs.reverse ++ ds), ts) := by
  induction cs generalizing ds with
  | nil => rfl
  | cons c cs ih =>
    obtain ⟨hc, hcs⟩ := List.forall_mem_cons.1 h
    have step : scanStep (.word ds, ts) c = some (.word (c :: ds), ts) := by
      change (if isBreak c = true then _ else _) = _
      rw [hc]
      rfl
    rw [List.foldlM_cons, step, List.reverse_cons, List.append_assoc]
    exact ih hcs (c :: ds)

/-- A text without characters that end a word is read as one word. -/
theorem Cuts.word {cs : List Char} {t : Token} (h : ∀ c ∈ cs, isBreak c = false) (ne : cs ≠ [])
    (word : word? cs = some t) : Cuts cs [t] := by
  obtain ⟨c, rest, rfl⟩ := List.exists_cons_of_ne_nil ne
  obtain ⟨hc, hrest⟩ := List.forall_mem_cons.1 h
  intro ts
  have fresh : scanStep (.between, ts) c = some (.word [c], ts) := by
    rw [isBreak, Bool.or_eq_false_iff, Bool.or_eq_false_iff, Option.isSome_eq_false_iff,
      Option.isNone_iff_eq_none] at hc
    obtain ⟨⟨mark, space⟩, quote⟩ := hc
    rw [scanStep, scanFresh, mark]
    simp [space, of_decide_eq_false quote]
  refine ⟨(.word (rest.reverse ++ [c]), ts), ?_, .word ts ?_⟩
  · rw [List.foldlM_cons, fresh]
    exact foldlM_word hrest [c] ts
  · simpa using word

theorem toList_lineStart (level : Nat) :
    (lineStart level).toList = '\n' :: List.replicate (2 * level) ' ' := by
  simp [lineStart]

theorem Cuts.blanks {cs : List Char} {out : List Token} (h : Cuts cs out) (n : Nat) :
    Cuts (List.replicate n ' ' ++ cs) out := by
  induction n with
  | zero => exact h
  | succ n ih => exact ih.space (by decide) (by decide)

theorem Cuts.lineStart {cs : List Char} {out : List Token} (h : Cuts cs out) (level : Nat) :
    Cuts ((lineStart level).toList ++ cs) out := by
  rw [toList_lineStart]
  exact (h.blanks _).space (by decide) (by decide)

theorem breaks_lineStart (level : Nat) (cs : List Char) :
    Breaks ((lineStart level).toList ++ cs) := by
  rw [toList_lineStart]
  exact ⟨'\n', _, rfl, by decide⟩

/-! ### Strings -/

theorem hexValue?_digitChar {d : Nat} (h : d < 16) : hexValue? (Nat.digitChar d) = some d := by
  have all : ∀ d < 16, hexValue? (Nat.digitChar d) = some d := by decide
  exact all d h

theorem scanStep_unit (chars : Option (List Char)) (high : Option Nat) (missing value : Nat)
    (ts : List Token) {c : Char} {d : Nat} (h : hexValue? c = some d) :
    scanStep (.unit chars high missing value, ts) c =
      some (if missing ≤ 1 then closeUnit chars high (16 * value + d)
        else .unit chars high (missing - 1) (16 * value + d), ts) := by
  rw [scanStep, h]
  change (if missing ≤ 1 then _ else _) = _
  split <;> rfl

/-- A control character is read back from its code. -/
theorem foldlM_unit {n : Nat} (h : n < 0x20) (cs : List Char) (ts : List Token) :
    ("\\u00" ++ hexByte n).toList.foldlM scanStep (.text (some cs), ts) =
      some (.text (some (Char.ofNat n :: cs)), ts) := by
  have chars : ("\\u00" ++ hexByte n).toList =
      ['\\', 'u', '0', '0', Nat.digitChar (n / 16), Nat.digitChar (n % 16)] := by
    simp [hexByte]
  have code : 16 * (n / 16) + n % 16 = n := Nat.div_add_mod n 16
  have close : closeUnit (some cs) none n = .text (some (Char.ofNat n :: cs)) := by
    have high : ¬0xd800 ≤ n := by omega
    have low : ¬0xdc00 ≤ n := by omega
    simp [closeUnit, high, low, pushChar]
  have first := scanStep_unit (some cs) none 2 0 ts (hexValue?_digitChar (d := n / 16) (by omega))
  have last := scanStep_unit (some cs) none 1 (n / 16) ts
    (hexValue?_digitChar (d := n % 16) (by omega))
  rw [chars]
  change List.foldlM scanStep (.unit (some cs) none 2 0, ts) [_, _] = _
  rw [List.foldlM_cons, first]
  change List.foldlM scanStep (.unit (some cs) none 1 (16 * 0 + n / 16), ts) [_] = _
  rw [Nat.mul_zero, Nat.zero_add, List.foldlM_cons, last, code]
  exact congrArg (fun st => some (st, ts)) close

/-- A character of a string is read back from its escape. -/
theorem foldlM_escape (c : Char) (cs : List Char) (ts : List Token) :
    (escape c).toList.foldlM scanStep (.text (some cs), ts) =
      some (.text (some (c :: cs)), ts) := by
  rw [escape]
  iterate 7
    split
    · next short => subst short; rfl
  split
  case isTrue control => rw [foldlM_unit control, Char.ofNat_toNat]
  case isFalse visible =>
    have step : scanStep (.text (some cs), ts) c = some (.text (some (c :: cs)), ts) := by
      rw [scanStep, scanText, if_neg ‹_›, if_neg ‹_›, if_neg visible]
      rfl
    simp [step]

theorem foldlM_escapes (cs ds : List Char) (ts : List Token) :
    (String.join (cs.map escape)).toList.foldlM scanStep (.text (some ds), ts) =
      some (.text (some (cs.reverse ++ ds)), ts) := by
  induction cs generalizing ds with
  | nil => rfl
  | cons c cs ih =>
    rw [List.map_cons, String.join_cons, String.toList_append, List.foldlM_append, foldlM_escape]
    change List.foldlM scanStep (.text (some (c :: ds)), ts) _ = _
    rw [ih, List.reverse_cons, List.append_assoc]
    rfl

/-- **A string is read back.** -/
theorem cuts_stringText (s : String) : Cuts (stringText s).toList [.text (some s)] := by
  intro ts
  refine ⟨(.between, .text (some s) :: ts), ?_, .between _⟩
  rw [stringText, String.toList_append, String.toList_append, List.foldlM_append,
    List.foldlM_append]
  change (List.foldlM scanStep (.text (some []), ts) _ >>= _) = _
  rw [foldlM_escapes, List.append_nil]
  change some (Scan.between, Token.text (some (String.ofList s.toList.reverse.reverse)) :: ts) = _
  rw [List.reverse_reverse, String.ofList_toList]

/-! ### Values -/

mutual

/-- Every number is a whole number of 64 bits, with a sign. -/
def Plain : Json → Prop
  | .int n => n.natAbs < Nat.pow 2 64
  | .real _ => False
  | .arr items => PlainItems items
  | .obj fields => PlainFields fields
  | _ => True

/-- The same of items. -/
def PlainItems : List Json → Prop
  | [] => True
  | j :: js => j.Plain ∧ PlainItems js

/-- The same of fields. -/
def PlainFields : List (String × Json) → Prop
  | [] => True
  | (_, j) :: fs => j.Plain ∧ PlainFields fs

end

mutual

/-- The tokens that a value is written with. -/
def tokens : Json → List Token
  | .arr items => .openArr :: (itemTokens items ++ [.closeArr])
  | .obj fields => .openObj :: (fieldTokens fields ++ [.closeObj])
  | .str s => [.text (some s)]
  | j => [.word (some j)]

/-- The tokens of items with commas between them. -/
def itemTokens : List Json → List Token
  | [] => []
  | [j] => j.tokens
  | j :: js => j.tokens ++ .comma :: itemTokens js

/-- The tokens of fields with commas between them. -/
def fieldTokens : List (String × Json) → List Token
  | [] => []
  | [(k, j)] => .text (some k) :: .colon :: j.tokens
  | (k, j) :: fs => .text (some k) :: .colon :: (j.tokens ++ .comma :: fieldTokens fs)

end

/-- A text is read as one word, if that can be found by looking at its characters. -/
theorem cuts_literal {s : String} {t : Token} (h : s.toList.any isBreak = false)
    (ne : s.toList.isEmpty = false) (word : word? s.toList = some t) : Cuts s.toList [t] :=
  .word (fun c hc => Bool.eq_false_iff.2 (List.any_eq_false.1 h c hc))
    (List.isEmpty_eq_false_iff.1 ne) word

theorem cuts_scalarText_int {n : Int} (h : n.natAbs < Nat.pow 2 64) :
    Cuts (toString n).toList [.word (some (.int n))] := by
  refine .word ?_ ?_ (word?_toString h)
  · rw [toList_toString_int]
    intro c hc
    rcases List.mem_append.1 hc with sign | digit
    · split at sign
      · rw [List.mem_singleton.1 sign]
        decide
      · cases sign
    · exact isBreak_of_isDigit (isDigit_of_mem_toDigits digit)
  · rw [toList_toString_int]
    exact List.append_ne_nil_of_right_ne_nil _ Nat.toDigits_ne_nil

mutual

/-- **A value that is written at any level is cut into its tokens.** -/
theorem cuts_indentedAt (level : Nat) (j : Json) (h : j.Plain) :
    Cuts (j.indentedAt level).toList j.tokens := by
  cases j with
  | null => exact cuts_literal (s := "null") rfl rfl rfl
  | bool b =>
    cases b with
    | false => exact cuts_literal (s := "false") rfl rfl rfl
    | true => exact cuts_literal (s := "true") rfl rfl rfl
  | int n => exact cuts_scalarText_int h
  | real => exact h.elim
  | str s => exact cuts_stringText s
  | arr items =>
    cases items with
    | nil =>
      have both := Cuts.mark (c := '[') rfl (.mark (c := ']') rfl .nil)
      simpa [indentedAt, tokens, itemTokens] using both
    | cons j js =>
      have inside := cuts_indentedItems (level + 1) (j :: js) h
      have close : Cuts ((lineStart level).toList ++ [']']) [.closeArr] :=
        Cuts.lineStart (.mark rfl .nil) level
      have whole := Cuts.mark (c := '[') rfl (inside.append close (breaks_lineStart level _))
      simpa [indentedAt, tokens] using whole
  | obj fields =>
    cases fields with
    | nil =>
      have both := Cuts.mark (c := '\x7b') rfl (.mark (c := '\x7d') rfl .nil)
      simpa [indentedAt, tokens, fieldTokens] using both
    | cons f fs =>
      have inside := cuts_indentedFields (level + 1) (f :: fs) h
      have close : Cuts ((lineStart level).toList ++ ['\x7d']) [.closeObj] :=
        Cuts.lineStart (.mark rfl .nil) level
      have whole := Cuts.mark (c := '\x7b') rfl (inside.append close (breaks_lineStart level _))
      simpa [indentedAt, tokens] using whole

theorem cuts_indentedItems (level : Nat) (js : List Json) (h : PlainItems js) :
    Cuts (indentedItems level js).toList (itemTokens js) := by
  cases js with
  | nil => exact .nil
  | cons j js =>
    have first := cuts_indentedAt level j h.1
    have others := cuts_indentedItems level js h.2
    cases js with
    | nil => simpa [indentedItems, itemTokens] using first.lineStart level
    | cons j' js =>
      have whole := first.append (.mark (c := ',') rfl others) ⟨_, _, rfl, by decide⟩
      simpa [indentedItems, itemTokens] using whole.lineStart level

theorem cuts_indentedFields (level : Nat) (fs : List (String × Json)) (h : PlainFields fs) :
    Cuts (indentedFields level fs).toList (fieldTokens fs) := by
  cases fs with
  | nil => exact .nil
  | cons f fs =>
    obtain ⟨k, j⟩ := f
    have first := cuts_indentedAt level j h.1
    have others := cuts_indentedFields level fs h.2
    have named {cs : List Char} {out : List Token} (value : Cuts cs out) :
        Cuts ((stringText k).toList ++ ':' :: ' ' :: cs) (.text (some k) :: .colon :: out) :=
      (cuts_stringText k).append (.mark rfl (value.space (by decide) (by decide)))
        ⟨_, _, rfl, by decide⟩
    cases fs with
    | nil => simpa [indentedFields, fieldTokens] using (named first).lineStart level
    | cons f' fs =>
      have whole :=
        (named (first.append (.mark (c := ',') rfl others) ⟨_, _, rfl, by decide⟩)).lineStart level
      simpa [indentedFields, fieldTokens] using whole

end

theorem tokens?_indented {j : Json} (h : j.Plain) :
    tokens? (j.indented ++ "\n").toList = some j.tokens := by
  have newline : Cuts ['\n'] [] := Cuts.nil.space (by decide) (by decide)
  have whole := (cuts_indentedAt 0 j h).append newline ⟨_, _, rfl, by decide⟩
  rw [List.append_nil] at whole
  rw [String.toList_append]
  exact whole.tokens?

end Json

end FlatClosure

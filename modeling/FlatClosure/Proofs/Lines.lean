import FlatClosure.Source.File
import Mathlib.Algebra.Ring.Nat
import Mathlib.Data.List.DropRight
import Mathlib.Data.List.Induction

/-!
# Lines and columns

A position in a source file is an offset in its bytes, or a line and a column.  The table of the
line starts holds the ends of the newlines, so the binary search in it counts the newlines before an
offset.

* `search_ok`, `search_error` : what a binary search finds.
* `newlineEnds` : the ends of the newlines in a stretch of bytes.
* `SourceFile.lineIndex_eq` : the search counts newlines.
* `line_column_exact` : **lines and columns are exact and invertible, and the texts of the lines
  make up the source.**
-/

namespace FlatClosure

/-! ### Bytes -/

/-- The byte of a newline character. -/
def newline : UInt8 := 10

/-- The byte of a carriage return. -/
def carriageReturn : UInt8 := 13

/-- The bytes of characters. -/
def bytesOf (cs : List Char) : List UInt8 := cs.flatMap String.utf8EncodeChar

/-- The bytes of a text. -/
def textBytes (s : String) : List UInt8 := s.toUTF8.data.toList

/-- The bytes of a source file. -/
def SourceFile.bytes (f : SourceFile) : List UInt8 := textBytes f.source

@[simp] theorem bytesOf_nil : bytesOf [] = [] := rfl

@[simp] theorem bytesOf_cons (c : Char) (cs : List Char) :
    bytesOf (c :: cs) = String.utf8EncodeChar c ++ bytesOf cs := rfl

@[simp] theorem bytesOf_append (cs cs' : List Char) :
    bytesOf (cs ++ cs') = bytesOf cs ++ bytesOf cs' := List.flatMap_append

theorem textBytes_ofList (cs : List Char) : textBytes (String.ofList cs) = bytesOf cs := by
  rw [textBytes, String.toUTF8_eq_toByteArray, String.toByteArray_ofList]
  simp [List.utf8Encode, bytesOf]

theorem textBytes_eq (s : String) : textBytes s = bytesOf s.toList := by
  rw [← textBytes_ofList, String.ofList_toList]

theorem length_textBytes (s : String) : (textBytes s).length = s.utf8ByteSize := rfl

theorem utf8EncodeChar_of_le {c : Char} (h : c.toNat ≤ 127) :
    String.utf8EncodeChar c = [UInt8.ofNat c.toNat] := by
  simp only [String.utf8EncodeChar]
  exact if_pos h

/-- The bytes of a character of several bytes are at least 128. -/
theorem le_of_mem_utf8EncodeChar {c : Char} {b : UInt8} (h : 127 < c.toNat)
    (hb : b ∈ String.utf8EncodeChar c) : 128 ≤ b.toNat := by
  simp only [String.utf8EncodeChar] at hb
  rw [if_neg (Nat.not_le.2 (show 127 < c.val.toNat from h))] at hb
  split at hb
  · simp only [List.mem_cons, List.not_mem_nil, or_false] at hb
    rcases hb with rfl | rfl <;> simp only [UInt8.toNat_ofNat'] <;> omega
  · split at hb
    · simp only [List.mem_cons, List.not_mem_nil, or_false] at hb
      rcases hb with rfl | rfl | rfl <;> simp only [UInt8.toNat_ofNat'] <;> omega
    · simp only [List.mem_cons, List.not_mem_nil, or_false] at hb
      rcases hb with rfl | rfl | rfl | rfl <;> simp only [UInt8.toNat_ofNat'] <;> omega

/-- A byte below 128 is a character of its own. -/
theorem mem_bytesOf {c : Char} (h : c.toNat ≤ 127) {cs : List Char} :
    UInt8.ofNat c.toNat ∈ bytesOf cs ↔ c ∈ cs := by
  have value : (UInt8.ofNat c.toNat).toNat = c.toNat := by
    rw [UInt8.toNat_ofNat', Nat.mod_eq_of_lt (by omega)]
  refine ⟨fun hc => ?_, fun hc => List.mem_flatMap.2 ⟨c, hc, ?_⟩⟩
  · obtain ⟨d, hd, hb⟩ := List.mem_flatMap.1 hc
    by_cases small : d.toNat ≤ 127
    · rw [utf8EncodeChar_of_le small, List.mem_singleton] at hb
      have same : d.toNat = c.toNat := by
        rw [← value, hb, UInt8.toNat_ofNat', Nat.mod_eq_of_lt (by omega)]
      rwa [← Char.toNat_inj.1 same]
    · have := le_of_mem_utf8EncodeChar (Nat.not_le.1 small) hb
      omega
  · rw [utf8EncodeChar_of_le h]
    exact List.mem_singleton_self _

theorem newline_mem_bytesOf {cs : List Char} : newline ∈ bytesOf cs ↔ '\n' ∈ cs :=
  mem_bytesOf (c := '\n') (by decide)

theorem carriageReturn_mem_bytesOf {cs : List Char} : carriageReturn ∈ bytesOf cs ↔ '\r' ∈ cs :=
  mem_bytesOf (c := '\r') (by decide)

/-! ### The ends of newlines -/

/-- The ends of the newlines in bytes that start at offset `n`. -/
def newlineEnds (n : Nat) : List UInt8 → List Nat
  | [] => []
  | b :: bs => if b = newline then (n + 1) :: newlineEnds (n + 1) bs else newlineEnds (n + 1) bs

theorem newlineEnds_append (n : Nat) (bs bs' : List UInt8) :
    newlineEnds n (bs ++ bs') = newlineEnds n bs ++ newlineEnds (n + bs.length) bs' := by
  induction bs generalizing n with
  | nil => rfl
  | cons b bs ih =>
    have offset : n + (b :: bs).length = n + 1 + bs.length := by
      rw [List.length_cons]
      omega
    rw [List.cons_append, newlineEnds, newlineEnds, ih, offset]
    split <;> rfl

theorem newlineEnds_of_not_mem {bs : List UInt8} (h : newline ∉ bs) (n : Nat) :
    newlineEnds n bs = [] := by
  induction bs generalizing n with
  | nil => rfl
  | cons b bs ih =>
    rw [List.mem_cons, not_or] at h
    rw [newlineEnds, if_neg (Ne.symm h.1), ih h.2]

theorem length_newlineEnds (n : Nat) (bs : List UInt8) :
    (newlineEnds n bs).length = bs.count newline := by
  induction bs generalizing n with
  | nil => rfl
  | cons b bs ih =>
    rw [newlineEnds, List.count_cons, ← ih (n + 1)]
    by_cases h : b = newline <;> simp [h]

theorem lt_of_mem_newlineEnds {n k : Nat} {bs : List UInt8} (h : k ∈ newlineEnds n bs) :
    n < k ∧ k ≤ n + bs.length := by
  induction bs generalizing n with
  | nil => cases h
  | cons b bs ih =>
    rw [List.length_cons]
    rw [newlineEnds] at h
    split at h
    · rcases List.mem_cons.1 h with rfl | h
      · omega
      · have := ih h
        omega
    · have := ih h
      omega

theorem pairwise_newlineEnds (n : Nat) (bs : List UInt8) :
    (newlineEnds n bs).Pairwise (· < ·) := by
  induction bs generalizing n with
  | nil => exact .nil
  | cons b bs ih =>
    rw [newlineEnds]
    split
    · exact .cons (fun k hk => (lt_of_mem_newlineEnds hk).1) (ih (n + 1))
    · exact ih (n + 1)

/-- Where the last line starts: so many bytes before the end as come after the last newline. -/
theorem getLast_newlineEnds (bs : List UInt8) :
    (0 :: newlineEnds 0 bs).getLast (List.cons_ne_nil _ _) +
      (bs.rtakeWhile (· != newline)).length = bs.length := by
  induction bs using List.reverseRecOn with
  | nil => rfl
  | append_singleton bs b ih =>
    rw [List.rtakeWhile_concat]
    by_cases h : b = newline
    · simp [newlineEnds_append, newlineEnds, h]
    · simp only [newlineEnds_append, newlineEnds, h, if_false, List.append_nil]
      simp [h, ← ih, Nat.add_assoc]

theorem lineStartsFrom_eq (n : Nat) (cs : List Char) :
    lineStartsFrom n cs = newlineEnds n (bytesOf cs) := by
  induction cs generalizing n with
  | nil => rfl
  | cons c cs ih =>
    rw [lineStartsFrom, bytesOf_cons, newlineEnds_append, ih, ih]
    split
    · rename_i h
      subst h
      rfl
    · rename_i h
      have none : newline ∉ String.utf8EncodeChar c := by
        rw [← List.append_nil (String.utf8EncodeChar c)]
        change newline ∉ bytesOf [c]
        rw [newline_mem_bytesOf, List.mem_singleton]
        exact Ne.symm h
      rw [newlineEnds_of_not_mem none, String.length_utf8EncodeChar, List.nil_append]

/-! ### Binary search -/

section Search

variable {xs : Array UInt32} {x : UInt32} {lo hi : Nat} {lo_le : lo ≤ hi} {hi_le : hi ≤ xs.size}

theorem search_ok {i : Fin xs.size} (h : search xs x lo hi lo_le hi_le = .ok i) : xs[i] = x := by
  fun_induction search xs x lo hi lo_le hi_le with
  | case1 lo hi lo_le hi_le lt mid mid_lt equal =>
    cases h
    exact equal
  | case2 lo hi lo_le hi_le lt mid mid_lt differ below ih => exact ih h
  | case3 lo hi lo_le hi_le lt mid mid_lt differ above ih => exact ih h
  | case4 => cases h

/-- The table is in ascending order. -/
def Ascending (xs : Array UInt32) : Prop :=
  ∀ i j (hi : i < xs.size) (hj : j < xs.size), i < j → xs[i] < xs[j]

/-- A word that is not found stands between the smaller and the larger ones. -/
theorem search_error (asc : Ascending xs) {i : Fin (xs.size + 1)}
    (below : ∀ j (hj : j < xs.size), j < lo → xs[j] < x)
    (above : ∀ j (hj : j < xs.size), hi ≤ j → x < xs[j])
    (h : search xs x lo hi lo_le hi_le = .error i) :
    (∀ j (hj : j < xs.size), j < i → xs[j] < x) ∧ ∀ j (hj : j < xs.size), i ≤ j → x < xs[j] := by
  fun_induction search xs x lo hi lo_le hi_le with
  | case1 => cases h
  | case2 lo hi lo_le hi_le lt mid mid_lt differ less ih =>
    refine ih (fun j hj lt_mid => ?_) above h
    rcases Nat.lt_succ_iff_lt_or_eq.1 lt_mid with lt_mid | rfl
    · exact UInt32.lt_trans (asc j mid hj (by omega) lt_mid) less
    · exact less
  | case3 lo hi lo_le hi_le lt mid mid_lt differ notLess ih =>
    have greater : x < xs[mid] := by
      rcases UInt32.lt_or_lt_of_ne differ with lt | gt
      · exact absurd lt notLess
      · exact gt
    refine ih below (fun j hj mid_le => ?_) h
    rcases Nat.lt_or_eq_of_le mid_le with mid_lt | rfl
    · exact UInt32.lt_trans greater (asc mid j (by omega) hj mid_lt)
    · exact greater
  | case4 lo hi lo_le hi_le done =>
    cases h
    refine ⟨below, fun j hj le => above j hj ?_⟩
    change lo ≤ j at le
    omega

end Search

/-! ### Lines and columns of offsets -/

namespace SourceFile

variable {f : SourceFile}

/-- The offsets at which the lines start, as numbers. -/
def starts (f : SourceFile) : List Nat := 0 :: newlineEnds 0 f.bytes

/-- The number of newlines in the first bytes. -/
def newlinesBefore (f : SourceFile) (o : Nat) : Nat := (f.bytes.take o).count newline

/-- The number of bytes between the last newline of the first bytes and their end. -/
def sinceNewline (f : SourceFile) (o : Nat) : Nat :=
  ((f.bytes.take o).rtakeWhile (· != newline)).length

theorem lineStarts_eq (f : SourceFile) : f.lineStarts = (f.starts.map UInt32.ofNat).toArray := by
  rw [lineStarts, lineStartsFrom_eq, starts, bytes, textBytes_eq]

theorem size_lineStarts (f : SourceFile) : f.lineStarts.size = f.starts.length := by
  rw [lineStarts_eq, List.size_toArray, List.length_map]

theorem le_of_mem_starts {k : Nat} (h : k ∈ f.starts) : k ≤ f.bytes.length := by
  rcases List.mem_cons.1 h with rfl | h
  · exact Nat.zero_le _
  · have := lt_of_mem_newlineEnds h
    omega

theorem pairwise_starts (f : SourceFile) : f.starts.Pairwise (· < ·) :=
  .cons (fun _ hk => (lt_of_mem_newlineEnds hk).1) (pairwise_newlineEnds 0 f.bytes)

theorem getElem?_lineStarts (f : SourceFile) (i : Nat) :
    f.lineStarts[i]? = f.starts[i]?.map UInt32.ofNat := by
  rw [lineStarts_eq, List.getElem?_toArray, List.getElem?_map]

/-- The words of the table are the numbers, if the file is not too large. -/
theorem map_toNat_lineStarts (small : f.bytes.length < 2 ^ 32 - 1) (i : Nat) :
    f.lineStarts[i]?.map UInt32.toNat = f.starts[i]? := by
  rw [getElem?_lineStarts, Option.map_map]
  cases h : f.starts[i]? with
  | none => rfl
  | some k =>
    have le := le_of_mem_starts (List.mem_of_getElem? h)
    rw [Option.map_some, Function.comp_apply, UInt32.toNat_ofNat', Nat.mod_eq_of_lt (by omega)]

theorem getElem?_starts (small : f.bytes.length < 2 ^ 32 - 1) {i : Nat}
    (hi : i < f.lineStarts.size) : f.starts[i]? = some f.lineStarts[i].toNat := by
  rw [← map_toNat_lineStarts small, Array.getElem?_eq_getElem hi, Option.map_some]

theorem ascending_lineStarts (small : f.bytes.length < 2 ^ 32 - 1) : Ascending f.lineStarts := by
  intro i j hi hj lt
  have first := List.getElem_of_getElem? (getElem?_starts small hi)
  have second := List.getElem_of_getElem? (getElem?_starts small hj)
  obtain ⟨bi, first⟩ := first
  obtain ⟨bj, second⟩ := second
  rw [UInt32.lt_iff_toNat_lt, ← first, ← second]
  exact List.pairwise_iff_getElem.1 f.pairwise_starts i j bi bj lt

theorem lineIndex_of_ok {o : UInt32} {i : Fin f.lineStarts.size}
    (h : search f.lineStarts o 0 f.lineStarts.size (Nat.zero_le _) (Nat.le_refl _) = .ok i) :
    f.lineIndex o = i := by
  rw [lineIndex, h]

theorem lineIndex_of_error {o : UInt32} {i : Fin (f.lineStarts.size + 1)}
    (h : search f.lineStarts o 0 f.lineStarts.size (Nat.zero_le _) (Nat.le_refl _) = .error i) :
    (f.lineIndex o).val = i - 1 := by
  rw [lineIndex, h]

/-- The search finds the last line that starts at the offset or before. -/
theorem lineIndex_spec (small : f.bytes.length < 2 ^ 32 - 1) (o : UInt32) :
    f.lineStarts[f.lineIndex o] ≤ o ∧
      ∀ j (hj : j < f.lineStarts.size), f.lineIndex o < j → o < f.lineStarts[j] := by
  have asc := ascending_lineStarts small
  cases h : search f.lineStarts o 0 f.lineStarts.size (Nat.zero_le _) (Nat.le_refl _) with
  | ok i =>
    have here : f.lineStarts[i] = o := search_ok h
    obtain rfl := lineIndex_of_ok h
    refine ⟨UInt32.le_of_eq here, fun j hj lt => ?_⟩
    have later := asc _ j (f.lineIndex o).isLt hj lt
    rwa [← Fin.getElem_fin, here] at later
  | error i =>
    obtain ⟨below, above⟩ := search_error asc (fun j _ lt => absurd lt (Nat.not_lt_zero j))
      (fun j hj le => absurd hj (Nat.not_lt.2 le)) h
    have index := lineIndex_of_error h
    -- The first line starts at 0, so that nothing is inserted before it.
    have pos : 0 < i.val := Nat.pos_of_ne_zero fun zero =>
      absurd (above 0 f.size_lineStarts_pos (by omega)) (UInt32.not_lt.2 UInt32.zero_le)
    exact ⟨UInt32.le_of_lt (below _ (f.lineIndex o).isLt (by omega)),
      fun j hj lt => above j hj (by omega)⟩

/-- The lines that start in the first bytes, and the others. -/
theorem starts_split {o : Nat} (ho : o ≤ f.bytes.length) :
    f.starts = (0 :: newlineEnds 0 (f.bytes.take o)) ++ newlineEnds o (f.bytes.drop o) := by
  have length : (f.bytes.take o).length = o := List.length_take_of_le ho
  rw [starts, List.cons_append]
  conv_lhs => rw [← List.take_append_drop o f.bytes, newlineEnds_append, length, Nat.zero_add]

/-- The line of an offset starts behind the last newline before it. -/
theorem getElem?_starts_newlinesBefore {o : Nat} (ho : o ≤ f.bytes.length) :
    ∃ start, f.starts[f.newlinesBefore o]? = some start ∧ start + f.sinceNewline o = o := by
  have last := getLast_newlineEnds (f.bytes.take o)
  rw [List.length_take_of_le ho] at last
  refine ⟨_, ?_, last⟩
  rw [starts_split ho, newlinesBefore, ← length_newlineEnds 0, List.getElem?_append_left (by simp),
    List.getLast_eq_getElem, List.getElem?_eq_getElem (by simp)]
  simp

/-- The search counts newlines. -/
theorem lineIndex_eq (small : f.bytes.length < 2 ^ 32 - 1) {o : UInt32}
    (ho : o.toNat ≤ f.bytes.length) : (f.lineIndex o).val = f.newlinesBefore o.toNat := by
  obtain ⟨le, above⟩ := lineIndex_spec small o
  have entry := getElem?_starts small (f.lineIndex o).isLt
  obtain ⟨start, here, sum⟩ := getElem?_starts_newlinesBefore ho
  rcases Nat.lt_trichotomy (f.lineIndex o).val (f.newlinesBefore o.toNat) with lt | eq | gt
  · have bound : f.newlinesBefore o.toNat < f.lineStarts.size := by
      rw [size_lineStarts]
      exact (List.getElem?_eq_some_iff.1 here).1
    have beyond := UInt32.lt_iff_toNat_lt.1 (above _ bound lt)
    rw [getElem?_starts small bound, Option.some.injEq] at here
    omega
  · exact eq
  · -- An entry behind the line of the offset lies beyond it.
    have length : (0 :: newlineEnds 0 (f.bytes.take o.toNat)).length ≤ (f.lineIndex o).val := by
      rw [List.length_cons, length_newlineEnds]
      exact gt
    rw [starts_split ho, List.getElem?_append_right length] at entry
    have beyond := (lt_of_mem_newlineEnds (List.mem_of_getElem? entry)).1
    rw [UInt32.le_iff_toNat_le, Fin.getElem_fin] at le
    omega

/-! ### Lines and columns as numbers -/

theorem toNat_clamp (small : f.bytes.length < 2 ^ 32 - 1) (offset : UInt32) :
    (f.clamp offset).toNat = min offset.toNat f.bytes.length := by
  have size : (UInt32.ofNat f.source.utf8ByteSize).toNat = f.bytes.length := by
    rw [UInt32.toNat_ofNat', ← length_textBytes]
    exact Nat.mod_eq_of_lt (by change f.bytes.length < _; omega)
  have split : f.clamp offset = if offset ≤ UInt32.ofNat f.source.utf8ByteSize then offset
      else UInt32.ofNat f.source.utf8ByteSize := rfl
  rw [split, ← size]
  split
  · rename_i le
    exact (Nat.min_eq_left (UInt32.le_iff_toNat_le.1 le)).symm
  · rename_i gt
    exact (Nat.min_eq_right (Nat.le_of_lt (UInt32.lt_iff_toNat_lt.1 (UInt32.not_le.1 gt)))).symm

theorem newlinesBefore_le (f : SourceFile) (o : Nat) : f.newlinesBefore o ≤ f.bytes.length :=
  Nat.le_trans List.count_le_length (by rw [List.length_take]; exact Nat.min_le_right _ _)

/-- Counting a column from a line start does not leave the range of words. -/
theorem toNat_column {o start : UInt32} (le : start ≤ o) (small : o.toNat < 2 ^ 32 - 1) :
    (max (o - start + 1) 1).toNat = o.toNat - start.toNat + 1 := by
  have sum : (o - start + 1).toNat = o.toNat - start.toNat + 1 := by
    rw [UInt32.toNat_add, UInt32.toNat_sub_of_le o start le]
    exact Nat.mod_eq_of_lt (by change o.toNat - start.toNat + 1 < 2 ^ 32; omega)
  have split : max (o - start + 1) 1 = if o - start + 1 ≤ 1 then 1 else o - start + 1 := rfl
  rw [split]
  split
  · rename_i one
    rw [UInt32.le_iff_toNat_le, sum] at one
    change 1 = _
    change _ ≤ 1 at one
    omega
  · exact sum

/-- Line and column of an offset, as numbers. -/
theorem lineColumn_toNat (small : f.bytes.length < 2 ^ 32 - 1) (offset : UInt32) {o : Nat}
    (ho : o = min offset.toNat f.bytes.length) :
    (f.lineColumn offset).1.toNat = 1 + f.newlinesBefore o ∧
      (f.lineColumn offset).2.toNat = 1 + f.sinceNewline o := by
  have value := toNat_clamp small offset
  rw [← ho] at value
  have le : o ≤ f.bytes.length := ho ▸ Nat.min_le_right _ _
  have index := lineIndex_eq small (o := f.clamp offset) (value ▸ le)
  rw [value] at index
  obtain ⟨start, entry, sum⟩ := getElem?_starts_newlinesBefore le
  rw [← index, getElem?_starts small (f.lineIndex _).isLt, Option.some.injEq] at entry
  have count := f.newlinesBefore_le o
  constructor
  · rw [lineColumn, UInt32.toNat_ofNat', index, Nat.mod_eq_of_lt (by omega), Nat.add_comm]
  · rw [lineColumn, toNat_column (lineIndex_spec small _).1 (by omega), value, Fin.getElem_fin]
    omega

/-- The line of an offset starts as many bytes before it as the column says. -/
theorem exists_lineStart (small : f.bytes.length < 2 ^ 32 - 1) (offset : UInt32) {o : Nat}
    (ho : o = min offset.toNat f.bytes.length) :
    ∃ start, f.starts[(f.lineColumn offset).1.toNat - 1]? = some start ∧
      start + ((f.lineColumn offset).2.toNat - 1) = o := by
  obtain ⟨line, column⟩ := lineColumn_toNat small offset ho
  rw [line, column, Nat.add_sub_cancel_left, Nat.add_sub_cancel_left]
  exact getElem?_starts_newlinesBefore (ho ▸ Nat.min_le_right _ _)

/-- A later offset is in a later line, or not before the other one in the same line. -/
theorem newlinesBefore_mono {a b : Nat} (le : a ≤ b) (hb : b ≤ f.bytes.length) :
    f.newlinesBefore a < f.newlinesBefore b ∨
      f.newlinesBefore a = f.newlinesBefore b ∧ f.sinceNewline a ≤ f.sinceNewline b := by
  have split : f.bytes.take b = f.bytes.take a ++ (f.bytes.drop a).take (b - a) := by
    rw [← List.take_add, Nat.add_sub_cancel' le]
  have counts : f.newlinesBefore b =
      f.newlinesBefore a + ((f.bytes.drop a).take (b - a)).count newline := by
    rw [newlinesBefore, split, List.count_append]
    rfl
  rcases Nat.eq_zero_or_pos (((f.bytes.drop a).take (b - a)).count newline) with zero | pos
  · -- No newline in between: both are in the line that starts at the same place.
    have same : f.newlinesBefore a = f.newlinesBefore b := by omega
    obtain ⟨start, ha, sumA⟩ := getElem?_starts_newlinesBefore (Nat.le_trans le hb)
    obtain ⟨start', hb', sumB⟩ := getElem?_starts_newlinesBefore hb
    rw [same, hb', Option.some.injEq] at ha
    exact .inr ⟨same, by omega⟩
  · exact .inl (by omega)

end SourceFile

/-! ### Lines of bytes and of characters -/

section SplitOn

variable {α : Type} {x : α}

/-- The pieces do not hold the separator. -/
theorem not_mem_of_mem_splitOn [BEq α] [LawfulBEq α] {xs l : List α} (h : l ∈ xs.splitOn x) :
    x ∉ l := by
  induction xs generalizing l with
  | nil =>
    rw [List.splitOn_nil, List.mem_singleton] at h
    subst h
    exact List.not_mem_nil
  | cons y xs ih =>
    rw [List.splitOn_cons_eq_if_modifyHead] at h
    split at h
    · rcases List.mem_cons.1 h with rfl | h
      · exact List.not_mem_nil
      · exact ih h
    · rename_i ne
      cases hs : xs.splitOn x with
      | nil => exact absurd hs (List.splitOn_ne_nil x xs)
      | cons first rest =>
        rw [hs] at ih h
        rcases List.mem_cons.1 h with rfl | h
        · rw [List.mem_cons, not_or]
          exact ⟨fun eq => ne (by simp [eq]), ih (List.mem_cons_self ..)⟩
        · exact ih (List.mem_cons_of_mem _ h)

theorem length_splitOn [BEq α] (xs : List α) : (xs.splitOn x).length = 1 + xs.count x := by
  induction xs with
  | nil => rfl
  | cons y xs ih =>
    rw [List.splitOn_cons_eq_if_modifyHead, List.count_cons]
    split <;> simp [ih, Nat.add_comm, Nat.add_left_comm]

/-- The first pieces with the separators behind them, and the others. -/
theorem intercalate_eq_append (ls : List (List α)) {i : Nat} (hi : i < ls.length) :
    [x].intercalate ls = ((ls.take i).map (· ++ [x])).flatten ++ [x].intercalate (ls.drop i) := by
  induction ls generalizing i with
  | nil => cases hi
  | cons l ls ih =>
    cases i with
    | zero => rfl
    | succ i =>
      have lt : i < ls.length := Nat.lt_of_succ_lt_succ hi
      have ne : ls ≠ [] := List.ne_nil_of_length_pos (Nat.zero_lt_of_lt lt)
      rw [List.intercalate_cons_of_ne_nil ne, ih lt]
      simp

end SplitOn

/-- The offset at which a line starts: the lines before it, with their newlines. -/
def lineOffset (ls : List (List UInt8)) (i : Nat) : Nat := ((ls.take i).map (·.length + 1)).sum

theorem lineOffset_succ (l : List UInt8) (ls : List (List UInt8)) (i : Nat) :
    lineOffset (l :: ls) (i + 1) = l.length + 1 + lineOffset ls i := by
  simp [lineOffset]

/-- The ends of the newlines are where the lines start that come after them. -/
theorem newlineEnds_intercalate (n : Nat) (l : List UInt8) (ls : List (List UInt8))
    (hls : ∀ l' ∈ l :: ls, newline ∉ l') (i : Nat) :
    (n :: newlineEnds n ([newline].intercalate (l :: ls)))[i]? =
      if i < (l :: ls).length then some (n + lineOffset (l :: ls) i) else none := by
  have free := hls l (List.mem_cons_self ..)
  induction ls generalizing n l i with
  | nil =>
    rw [List.intercalate_singleton, newlineEnds_of_not_mem free]
    cases i <;> simp [lineOffset]
  | cons l' ls ih =>
    have rest (l'' : List UInt8) (h : l'' ∈ l' :: ls) : newline ∉ l'' :=
      hls l'' (List.mem_cons_of_mem _ h)
    have ends : newlineEnds n ([newline].intercalate (l :: l' :: ls)) =
        (n + l.length + 1) ::
          newlineEnds (n + l.length + 1) ([newline].intercalate (l' :: ls)) := by
      rw [List.intercalate_cons_cons, List.append_assoc, newlineEnds_append,
        newlineEnds_of_not_mem free]
      rfl
    rw [ends]
    cases i with
    | zero => rfl
    | succ i =>
      rw [List.getElem?_cons_succ, ih _ _ rest _ (rest l' (List.mem_cons_self ..)), lineOffset_succ]
      simp only [List.length_cons, Nat.add_lt_add_iff_right, Nat.add_assoc]

theorem bytesOf_intercalate (ls : List (List Char)) :
    bytesOf (['\n'].intercalate ls) = [newline].intercalate (ls.map bytesOf) := by
  induction ls with
  | nil => rfl
  | cons l ls ih =>
    cases ls with
    | nil => simp
    | cons l' ls =>
      rw [List.intercalate_cons_cons, bytesOf_append, bytesOf_append, ih]
      simp [List.intercalate_cons_cons]
      rfl

namespace SourceFile

variable {f : SourceFile}

/-- The lines of the source without their newlines. -/
def lines (f : SourceFile) : List (List Char) := f.source.toList.splitOn '\n'

theorem intercalate_lines (f : SourceFile) : ['\n'].intercalate f.lines = f.source.toList :=
  List.intercalate_splitOn '\n'

theorem splitOn_bytes (f : SourceFile) : f.bytes.splitOn newline = f.lines.map bytesOf := by
  have whole : f.bytes = [newline].intercalate (f.lines.map bytesOf) := by
    rw [← bytesOf_intercalate, intercalate_lines]
    exact textBytes_eq f.source
  rw [whole, List.splitOn_intercalate]
  · intro l hl
    obtain ⟨cs, hcs, rfl⟩ := List.mem_map.1 hl
    rw [newline_mem_bytesOf]
    exact not_mem_of_mem_splitOn hcs
  · simp [lines]

theorem newline_not_mem {l : List UInt8} (h : l ∈ f.bytes.splitOn newline) : newline ∉ l :=
  not_mem_of_mem_splitOn h

/-- A line starts where the lines before it end. -/
theorem getElem?_starts_eq (f : SourceFile) (i : Nat) :
    f.starts[i]? = if i < (f.bytes.splitOn newline).length
      then some (lineOffset (f.bytes.splitOn newline) i) else none := by
  have whole : [newline].intercalate (f.bytes.splitOn newline) = f.bytes :=
    List.intercalate_splitOn newline
  rw [starts]
  cases h : f.bytes.splitOn newline with
  | nil => exact absurd h (List.splitOn_ne_nil newline f.bytes)
  | cons l ls =>
    rw [h] at whole
    rw [← whole, newlineEnds_intercalate 0 l ls fun l' hl' => newline_not_mem (h ▸ hl')]
    simp only [Nat.zero_add]

end SourceFile

/-! ### The texts of lines -/

/-- A text is cut behind its first part. -/
theorem cutAt?_append (cs cs' : List Char) :
    cutAt? (bytesOf cs).length (cs ++ cs') = some (cs, cs') := by
  induction cs with
  | nil => cases cs' <;> rfl
  | cons c cs ih =>
    have pos := c.utf8Size_pos
    have length : (bytesOf (c :: cs)).length = c.utf8Size + (bytesOf cs).length := by
      rw [bytesOf_cons, List.length_append, String.length_utf8EncodeChar]
    obtain ⟨n, hn⟩ : ∃ n, (bytesOf (c :: cs)).length = n + 1 :=
      ⟨c.utf8Size + (bytesOf cs).length - 1, by omega⟩
    have rest : n + 1 - c.utf8Size = (bytesOf cs).length := by omega
    rw [hn, List.cons_append, cutAt?, if_pos (by omega), rest, ih]
    rfl

theorem stretch?_append (before cs after : List Char) :
    stretch? (before ++ cs ++ after) (bytesOf before).length
      ((bytesOf before).length + (bytesOf cs).length) = some cs := by
  rw [stretch?, List.append_assoc, cutAt?_append, Nat.add_sub_cancel_left]
  change (do
    guard ((bytesOf before).length ≤ (bytesOf before).length + (bytesOf cs).length)
    (cutAt? (bytesOf cs).length (cs ++ after)).bind fun p => some p.1) = _
  rw [cutAt?_append, guard, if_pos (Nat.le_add_right _ _)]
  rfl

theorem trimEndOf_eq (c : Char) (cs : List Char) : trimEndOf c cs = cs.rdropWhile (· == c) := rfl

theorem trimEndOf_of_not_mem {c : Char} {cs : List Char} (h : c ∉ cs) : trimEndOf c cs = cs := by
  rw [trimEndOf_eq, List.rdropWhile_eq_self_iff]
  intro ne
  have last := List.getLast_mem ne
  exact fun eq => h (by simpa using (beq_iff_eq.1 eq) ▸ last)

theorem lineOffset_add_one {ls : List (List UInt8)} {i : Nat} {l : List UInt8}
    (h : ls[i]? = some l) : lineOffset ls (i + 1) = lineOffset ls i + (l.length + 1) := by
  simp [lineOffset, List.take_add_one, h]

/-- The bytes of whole lines. -/
theorem length_bytesOf_flatten (ls : List (List Char)) :
    (bytesOf (ls.map (· ++ ['\n'])).flatten).length =
      ((ls.map bytesOf).map (·.length + 1)).sum := by
  induction ls with
  | nil => rfl
  | cons l ls ih =>
    rw [List.map_cons, List.flatten_cons, bytesOf_append, List.length_append, ih, bytesOf_append,
      List.length_append]
    rfl

namespace SourceFile

variable {f : SourceFile}

theorem length_lines (f : SourceFile) : f.lines.length = 1 + f.bytes.count newline := by
  rw [← length_splitOn, splitOn_bytes, List.length_map]

/-- What stands before a line and behind it. -/
theorem exists_eq_append_line {i : Nat} {l : List Char} (h : f.lines[i]? = some l) :
    ∃ before after, f.source.toList = before ++ l ++ after ∧
      (bytesOf before).length = lineOffset (f.bytes.splitOn newline) i ∧
      (i + 1 < f.lines.length → ∃ after', after = '\n' :: after') ∧
      (¬ i + 1 < f.lines.length → after = []) := by
  obtain ⟨hi, rfl⟩ := List.getElem?_eq_some_iff.1 h
  have whole := intercalate_eq_append (x := '\n') f.lines hi
  rw [intercalate_lines, List.drop_eq_getElem_cons hi] at whole
  have length : (bytesOf ((f.lines.take i).map (· ++ ['\n'])).flatten).length =
      lineOffset (f.bytes.splitOn newline) i := by
    rw [length_bytesOf_flatten, lineOffset, splitOn_bytes, List.map_take]
  by_cases last : i + 1 < f.lines.length
  · rw [List.intercalate_cons_of_ne_nil (by simpa using last), List.append_assoc,
      ← List.append_assoc] at whole
    exact ⟨_, _, whole, length, fun _ => ⟨_, rfl⟩, fun no => absurd last no⟩
  · rw [List.drop_eq_nil_of_le (Nat.not_lt.1 last), List.intercalate_singleton,
      ← List.append_nil (_ ++ _)] at whole
    exact ⟨_, _, whole, length, fun yes => absurd yes last, fun _ => rfl⟩

/-- The text of a line. -/
theorem lineText?_eq (small : f.bytes.length < 2 ^ 32 - 1) {line : UInt32} {i : Nat}
    (hline : line.toNat = i + 1) :
    f.lineText? line = f.lines[i]?.map fun l => String.ofList (trimEndOf '\r' l) := by
  have lengths : (f.bytes.splitOn newline).length = f.lines.length := by
    rw [splitOn_bytes, List.length_map]
  have entry := map_toNat_lineStarts small i
  have next := map_toNat_lineStarts small (i + 1)
  rw [getElem?_starts_eq, lengths] at entry next
  simp only [lineText?, hline]
  rw [next]
  cases h : f.lines[i]? with
  | none =>
    rw [if_neg (Nat.not_lt.2 (List.getElem?_eq_none_iff.1 h)), Option.map_eq_none_iff] at entry
    rw [entry]
    rfl
  | some l =>
    have hi := (List.getElem?_eq_some_iff.1 h).1
    have free : '\n' ∉ l := not_mem_of_mem_splitOn (List.mem_of_getElem? h)
    obtain ⟨before, after, whole, length, more, last⟩ := exists_eq_append_line h
    rw [if_pos hi, ← length] at entry
    obtain ⟨start, hstart, value⟩ := Option.map_eq_some_iff.1 entry
    rw [hstart]
    change ((stretch? f.source.toList start.toNat _).bind fun text =>
      some (String.ofList (trimEndOf '\r' (trimEndOf '\n' text)))) = _
    rw [value, whole]
    by_cases hnext : i + 1 < f.lines.length
    · -- The stretch up to the next line start ends with the newline.
      obtain ⟨after, rfl⟩ := more hnext
      have stop : lineOffset (f.bytes.splitOn newline) (i + 1) =
          (bytesOf before).length + (bytesOf (l ++ ['\n'])).length := by
        rw [lineOffset_add_one (by rw [splitOn_bytes, List.getElem?_map, h]; rfl), length,
          bytesOf_append, List.length_append]
        rfl
      have split : before ++ l ++ '\n' :: after = before ++ (l ++ ['\n']) ++ after := by simp
      have trimmed : trimEndOf '\n' (l ++ ['\n']) = l := by
        rw [trimEndOf_eq, List.rdropWhile_concat_pos _ _ _ (by rfl), ← trimEndOf_eq,
          trimEndOf_of_not_mem free]
      rw [if_pos hnext, Option.getD_some, stop, split, stretch?_append, Option.bind_some, trimmed]
      rfl
    · obtain rfl := last hnext
      have stop : f.source.utf8ByteSize = (bytesOf before).length + (bytesOf l).length := by
        rw [← length_textBytes, textBytes_eq, whole, List.append_nil, bytesOf_append,
          List.length_append]
      rw [if_neg hnext, Option.getD_none, stop, stretch?_append, Option.bind_some,
        trimEndOf_of_not_mem free]
      rfl

end SourceFile

theorem bytesOf_trimEndOf (cs : List Char) :
    bytesOf (trimEndOf '\r' cs) = (bytesOf cs).rdropWhile (· == carriageReturn) := by
  rw [trimEndOf_eq]
  induction cs using List.reverseRecOn with
  | nil => rfl
  | append_singleton cs c ih =>
    by_cases h : c = '\r'
    · subst h
      have byte : bytesOf ['\r'] = [carriageReturn] := rfl
      rw [List.rdropWhile_concat_pos _ _ _ (by rfl), ih, bytesOf_append, byte,
        List.rdropWhile_concat_pos _ _ _ (by rfl)]
    · have free : carriageReturn ∉ bytesOf [c] := by
        rw [carriageReturn_mem_bytesOf, List.mem_singleton]
        exact Ne.symm h
      rw [List.rdropWhile_concat_neg _ _ _ (by simpa using h), eq_comm,
        List.rdropWhile_eq_self_iff, bytesOf_append]
      intro ne
      have nonempty : bytesOf [c] ≠ [] := by simp
      rw [List.getLast_append_of_ne_nil _ nonempty]
      exact fun eq => free ((beq_iff_eq.1 eq) ▸ List.getLast_mem nonempty)

namespace SourceFile

variable {f : SourceFile}

theorem lineText?_zero {line : UInt32} (h : line.toNat = 0) : f.lineText? line = none := by
  simp only [lineText?, h]

/-- There are texts for the lines up to the last one. -/
theorem isSome_lineText? (small : f.bytes.length < 2 ^ 32 - 1) (line : UInt32) :
    (f.lineText? line).isSome = true ↔
      1 ≤ line.toNat ∧ line.toNat ≤ 1 + f.bytes.count newline := by
  cases h : line.toNat with
  | zero => simp [lineText?_zero h]
  | succ i =>
    rw [lineText?_eq small h, Option.isSome_map, Option.isSome_iff_ne_none, ne_eq,
      List.getElem?_eq_none_iff, length_lines]
    omega

/-- The bytes of the text of a line. -/
theorem textBytes_lineText (small : f.bytes.length < 2 ^ 32 - 1) {line : UInt32} {text : String}
    (h : f.lineText? line = some text) :
    ∃ l, (f.bytes.splitOn newline)[line.toNat - 1]? = some l ∧
      textBytes text = l.rdropWhile (· == carriageReturn) := by
  cases hline : line.toNat with
  | zero => rw [lineText?_zero hline] at h; cases h
  | succ i =>
    rw [lineText?_eq small hline] at h
    obtain ⟨l, hl, rfl⟩ := Option.map_eq_some_iff.1 h
    refine ⟨bytesOf l, ?_, ?_⟩
    · rw [splitOn_bytes, List.getElem?_map, Nat.add_sub_cancel, hl]
      rfl
    · rw [textBytes_ofList, bytesOf_trimEndOf]

/-- The texts of the lines make up a source without carriage returns. -/
theorem intercalate_texts (small : f.bytes.length < 2 ^ 32 - 1) (free : carriageReturn ∉ f.bytes) :
    ∃ texts : List String, texts.length = 1 + f.bytes.count newline ∧
      (∀ line : UInt32, line ≠ 0 → texts[line.toNat - 1]? = f.lineText? line) ∧
      "\n".intercalate texts = f.source := by
  refine ⟨f.lines.map String.ofList, by rw [List.length_map, length_lines], ?_, ?_⟩
  · intro line ne
    have pos : line.toNat ≠ 0 := fun zero => ne (UInt32.toNat_inj.1 zero)
    obtain ⟨i, hi⟩ := Nat.exists_eq_succ_of_ne_zero pos
    rw [lineText?_eq small hi, hi, Nat.succ_sub_one, List.getElem?_map]
    cases h : f.lines[i]? with
    | none => rfl
    | some l =>
      have none : '\r' ∉ l := by
        obtain ⟨before, after, whole, -⟩ := exists_eq_append_line h
        rw [bytes, textBytes_eq, carriageReturn_mem_bytesOf, whole] at free
        exact fun mem => free (by simp [mem])
      rw [Option.map_some, Option.map_some, trimEndOf_of_not_mem none]
  · rw [← String.toList_inj, String.toList_intercalate, List.map_map]
    have lines : f.lines.map (String.toList ∘ String.ofList) = f.lines := by
      simp [Function.comp_def]
    rw [lines]
    exact intercalate_lines f

end SourceFile

/-- Lines and columns of a file of less than `2 ^ 32 - 1` bytes.  The line of an offset is found by
counting newlines and its column by counting the bytes since the last one; the start of the line and
the column give the offset back.  Every line has a text, the bytes of the line without the carriage
returns at its end, and the texts of a source without carriage returns make it up. -/
theorem line_column_exact (f : SourceFile) (small : f.bytes.length < 2 ^ 32 - 1) :
    (∀ (offset : UInt32) (o : Nat), o = min offset.toNat f.bytes.length →
        (f.lineColumn offset).1.toNat = 1 + (f.bytes.take o).count newline ∧
        (f.lineColumn offset).2.toNat =
          1 + ((f.bytes.take o).rtakeWhile (· != newline)).length ∧
        lineOffset (f.bytes.splitOn newline) ((f.lineColumn offset).1.toNat - 1) +
          ((f.lineColumn offset).2.toNat - 1) = o) ∧
      (∀ a b : UInt32, a ≤ b → (f.lineColumn a).1 < (f.lineColumn b).1 ∨
        (f.lineColumn a).1 = (f.lineColumn b).1 ∧ (f.lineColumn a).2 ≤ (f.lineColumn b).2) ∧
      (∀ line : UInt32, (f.lineText? line).isSome = true ↔
        1 ≤ line.toNat ∧ line.toNat ≤ 1 + f.bytes.count newline) ∧
      (∀ (line : UInt32) (text : String), f.lineText? line = some text →
        ∃ l, (f.bytes.splitOn newline)[line.toNat - 1]? = some l ∧
          textBytes text = l.rdropWhile (· == carriageReturn)) ∧
      (carriageReturn ∉ f.bytes →
        ∃ texts : List String, texts.length = 1 + f.bytes.count newline ∧
          (∀ line : UInt32, line ≠ 0 → texts[line.toNat - 1]? = f.lineText? line) ∧
          "\n".intercalate texts = f.source) := by
  refine ⟨fun offset o ho => ?_, fun a b le => ?_, SourceFile.isSome_lineText? small,
    fun _ _ => SourceFile.textBytes_lineText small, SourceFile.intercalate_texts small⟩
  · obtain ⟨line, column⟩ := SourceFile.lineColumn_toNat small offset ho
    obtain ⟨start, entry, sum⟩ := SourceFile.exists_lineStart small offset ho
    refine ⟨line, column, ?_⟩
    rw [SourceFile.getElem?_starts_eq] at entry
    split at entry
    · rw [Option.some.inj entry]
      exact sum
    · cases entry
  · obtain ⟨lineA, columnA⟩ := SourceFile.lineColumn_toNat small a rfl
    obtain ⟨lineB, columnB⟩ := SourceFile.lineColumn_toNat small b rfl
    have le' := UInt32.le_iff_toNat_le.1 le
    rw [UInt32.lt_iff_toNat_lt, ← UInt32.toNat_inj, UInt32.le_iff_toNat_le, lineA, lineB, columnA,
      columnB]
    have mono := SourceFile.newlinesBefore_mono (f := f)
      (a := min a.toNat f.bytes.length) (b := min b.toNat f.bytes.length) (by omega) (by omega)
    omega

/-- A file with a carriage return, a character of two bytes and an empty last line. -/
def sampleFile : SourceFile := ⟨"sample.py", "a\r\né\n"⟩

/-- An offset in a line, one behind the end of the file, and the text of a line. -/
theorem line_column_exact_sample :
    sampleFile.bytes.length < 2 ^ 32 - 1 ∧
      ((sampleFile.lineColumn 5).1.toNat = 2 ∧ (sampleFile.lineColumn 5).2.toNat = 3) ∧
      ((sampleFile.lineColumn 100).1.toNat = 3 ∧ (sampleFile.lineColumn 100).2.toNat = 1) ∧
      (sampleFile.lineText? 3).isSome = true ∧ (sampleFile.lineText? 4).isSome = false := by
  have small : sampleFile.bytes.length < 2 ^ 32 - 1 := by decide
  obtain ⟨position, -, defined, -⟩ := line_column_exact sampleFile small
  obtain ⟨line, column, -⟩ := position 5 5 (by decide)
  obtain ⟨line', column', -⟩ := position 100 6 (by decide)
  refine ⟨small, ⟨line.trans (by decide), column.trans (by decide)⟩,
    ⟨line'.trans (by decide), column'.trans (by decide)⟩, (defined 3).2 (by decide), ?_⟩
  rw [← Bool.not_eq_true, defined]
  decide

end FlatClosure

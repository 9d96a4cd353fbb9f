import FlatClosure.Proofs.Machine
import Mathlib.Data.Rat.Floor
import Mathlib.Tactic.Linarith
import Mathlib.Tactic.Ring

/-!
# Integer arithmetic is exact

The operators on integers are compared with arithmetic without bounds: a result is the exact one
if that fits a word, and an error says why there is none.  Division to the floor is made from the
division of words toward zero by two corrections, one of the quotient and one of the remainder,
which look at different signs.

* `FloorDivides` : quotient and remainder of the division to the floor.
* `floorDivides_words` : the corrected quotient and remainder of words.
* `floor_division_law` : **`//` and `%`, with no overflow on the way.**
* `integer_results_exact` : **when an operator gives its exact result, and when it fails how.**
* `exact_results_refused` : the remainder of the least word by -1 and powers with large exponents
  are refused for another reason.
-/

namespace FlatClosure

/-! ### Words -/

/-- The number is one of a word of 64 bits with sign. -/
def InWord (n : Int) : Prop := -2 ^ 63 ≤ n ∧ n < 2 ^ 63

theorem inWord_toInt (a : Int64) : InWord a.toInt := ⟨a.le_toInt, a.toInt_lt⟩

theorem fitsWord_iff {n : Int} : fitsWord n = true ↔ InWord n := by
  have least : Int64.minValue.toInt = -2 ^ 63 := rfl
  have greatest : Int64.maxValue.toInt = 2 ^ 63 - 1 := rfl
  rw [fitsWord, InWord, least, greatest, Bool.and_eq_true, decide_eq_true_iff, decide_eq_true_iff]
  omega

theorem toInt_ofInt {n : Int} (h : InWord n) : (Int64.ofInt n).toInt = n :=
  Int64.toInt_ofInt_of_le h.1 h.2

/-- A number of a word is not wrapped. -/
theorem bmod_of_inWord {n : Int} (h : InWord n) : n.bmod (2 ^ 64) = n := by
  obtain ⟨lower, upper⟩ := h
  exact Int.bmod_eq_of_le (by omega) (by omega)

theorem toInt_eq_zero_iff {a : Int64} : a.toInt = 0 ↔ a = 0 := by
  rw [← Int64.toInt_inj]
  rfl

theorem oppositeSigns_iff {a b : Int64} :
    oppositeSigns a b = true ↔ ¬ (a.toInt < 0 ↔ b.toInt < 0) := by
  have zero : (0 : Int64).toInt = 0 := rfl
  rw [oppositeSigns, bne_iff_ne, ne_eq, decide_eq_decide, Int64.lt_iff_toInt_lt,
    Int64.lt_iff_toInt_lt, zero]

/-! ### Division -/

section Integers

variable {a b : Int}

/-- The remainder toward zero is smaller than the divisor and has the sign of the dividend. -/
theorem tmod_bounds (hb : b ≠ 0) :
    (a.tmod b).natAbs < b.natAbs ∧ (0 ≤ a → 0 ≤ a.tmod b) ∧ (a ≤ 0 → a.tmod b ≤ 0) := by
  refine ⟨?_, fun ha => Int.tmod_nonneg b ha, fun ha => ?_⟩
  · rw [Int.natAbs_tmod]
    exact Nat.mod_lt _ (Int.natAbs_pos.2 hb)
  · have flipped := Int.tmod_nonneg b (Int.neg_nonneg.2 ha)
    rw [Int.neg_tmod] at flipped
    omega

/-- A quotient that is no integer is at most half of the dividend. -/
theorem natAbs_tdiv_le (hb : b ≠ 0) (hr : a.tmod b ≠ 0) : (a.tdiv b).natAbs ≤ a.natAbs / 2 := by
  have two : 2 ≤ b.natAbs := by
    have := (tmod_bounds (a := a) hb).1
    omega
  rw [Int.natAbs_tdiv]
  exact Nat.div_le_div_left two Nat.zero_lt_two

end Integers

section Words

variable {a b : Int64}

/-- The quotient toward zero fits a word, except for that of the least word by -1. -/
theorem inWord_tdiv_iff :
    InWord (a.toInt.tdiv b.toInt) ↔ ¬ (a = Int64.minValue ∧ b = -1) := by
  constructor
  · rintro h ⟨rfl, rfl⟩
    exact absurd h.2 (by decide)
  · intro h
    have exact_quotient : (a / b).toInt = a.toInt.tdiv b.toInt := by
      by_cases ha : a = Int64.minValue
      · exact Int64.toInt_div_of_ne_right a b fun hb => h ⟨ha, hb⟩
      · exact Int64.toInt_div_of_ne_left a b ha
    exact exact_quotient ▸ inWord_toInt (a / b)

theorem toInt_div_of_inWord (h : InWord (a.toInt.tdiv b.toInt)) :
    (a / b).toInt = a.toInt.tdiv b.toInt := by
  rw [Int64.toInt_div, bmod_of_inWord h]

theorem mod_ne_zero_iff : a % b ≠ 0 ↔ a.toInt.tmod b.toInt ≠ 0 := by
  rw [ne_eq, ← toInt_eq_zero_iff, Int64.toInt_mod]

/-- Both corrections are made for the same operands. -/
theorem oppositeSigns_mod (hb : b ≠ 0) (hr : a % b ≠ 0) :
    oppositeSigns (a % b) b = oppositeSigns a b := by
  obtain ⟨-, pos, neg⟩ := tmod_bounds (a := a.toInt) (mt toInt_eq_zero_iff.1 hb)
  rw [mod_ne_zero_iff] at hr
  rw [Bool.eq_iff_iff, oppositeSigns_iff, oppositeSigns_iff, Int64.toInt_mod]
  omega

/-- The quotient is corrected without overflow. -/
theorem toInt_sub_one (hb : b ≠ 0) (h : InWord (a.toInt.tdiv b.toInt)) (hr : a % b ≠ 0) :
    (a / b - 1).toInt = (a / b).toInt - 1 := by
  have half := natAbs_tdiv_le (mt toInt_eq_zero_iff.1 hb) (mod_ne_zero_iff.1 hr)
  have one : (1 : Int64).toInt = 1 := rfl
  obtain ⟨lower, upper⟩ := inWord_toInt a
  rw [Int64.toInt_sub, toInt_div_of_inWord h, one]
  exact bmod_of_inWord ⟨by omega, by omega⟩

/-- The remainder is corrected without overflow. -/
theorem toInt_mod_add (hb : b ≠ 0) (signs : oppositeSigns (a % b) b = true) :
    (a % b + b).toInt = (a % b).toInt + b.toInt := by
  obtain ⟨small, -, -⟩ := tmod_bounds (a := a.toInt) (mt toInt_eq_zero_iff.1 hb)
  obtain ⟨lower, upper⟩ := inWord_toInt b
  rw [oppositeSigns_iff, Int64.toInt_mod] at signs
  rw [Int64.toInt_add, Int64.toInt_mod]
  exact bmod_of_inWord ⟨by omega, by omega⟩

/-- The quotient and the remainder of the division to the floor. -/
structure FloorDivides (a b q r : Int) : Prop where
  eq : a = q * b + r
  of_pos : 0 < b → 0 ≤ r ∧ r < b
  of_neg : b < 0 → b < r ∧ r ≤ 0

theorem floorDivides_words (hb : b ≠ 0) (h : InWord (a.toInt.tdiv b.toInt)) :
    FloorDivides a.toInt b.toInt (floorQuotient a b).toInt (floorRemainder a b).toInt := by
  have nonzero := mt toInt_eq_zero_iff.1 hb
  obtain ⟨small, pos, neg⟩ := tmod_bounds (a := a.toInt) nonzero
  have division := Int.mul_tdiv_add_tmod a.toInt b.toInt
  by_cases corrected : a % b ≠ 0 ∧ oppositeSigns a b = true
  · obtain ⟨hr, signs⟩ := corrected
    have signs' : oppositeSigns (a % b) b = true := (oppositeSigns_mod hb hr).trans signs
    rw [floorQuotient, if_pos ⟨hr, signs⟩, toInt_sub_one hb h hr, toInt_div_of_inWord h,
      floorRemainder, if_pos ⟨hr, signs'⟩, toInt_mod_add hb signs', Int64.toInt_mod]
    rw [oppositeSigns_iff, Int64.toInt_mod] at signs'
    rw [mod_ne_zero_iff] at hr
    refine ⟨?_, by omega, by omega⟩
    rw [Int.sub_mul, Int.mul_comm]
    omega
  · have kept : ¬ (a % b ≠ 0 ∧ oppositeSigns (a % b) b = true) := fun h =>
      corrected ⟨h.1, (oppositeSigns_mod hb h.1).symm.trans h.2⟩
    rw [floorQuotient, if_neg corrected, toInt_div_of_inWord h, floorRemainder, if_neg kept,
      Int64.toInt_mod]
    rw [mod_ne_zero_iff, oppositeSigns_iff, Int64.toInt_mod] at kept
    refine ⟨?_, by omega, by omega⟩
    rw [Int.mul_comm]
    omega

end Words

/-- **Division to the floor.**  Unless the divisor is zero, or it is -1 and divides the least word,
`//` and `%` succeed with the quotient `q` and the remainder `r` of the division to the floor:
`a = q * b + r`, and `r` lies between zero and `b`, which it does not reach.  On the way nothing
overflows: neither the quotient toward zero, nor one less, nor the remainder plus the divisor, where
they are computed. -/
theorem floor_division_law (a b : Int64) (hb : b ≠ 0) (h : ¬ (a = Int64.minValue ∧ b = -1))
    (s : Machine) :
    ∃ q r : Int64,
      (applyBinary .floorDiv (.int a) (.int b)).run s = (.ok (.int q), s) ∧
      (applyBinary .mod (.int a) (.int b)).run s = (.ok (.int r), s) ∧
      a.toInt = q.toInt * b.toInt + r.toInt ∧
      (0 < b.toInt → 0 ≤ r.toInt ∧ r.toInt < b.toInt) ∧
      (b.toInt < 0 → b.toInt < r.toInt ∧ r.toInt ≤ 0) ∧
      (a / b).toInt = a.toInt.tdiv b.toInt ∧
      (a % b ≠ 0 → oppositeSigns a b = true → (a / b - 1).toInt = (a / b).toInt - 1) ∧
      (a % b ≠ 0 → oppositeSigns (a % b) b = true →
        (a % b + b).toInt = (a % b).toInt + b.toInt) := by
  have fits := inWord_tdiv_iff.2 h
  have succeeds (operation : String) (result : Int64) :
      dividing operation a b result = .ok result := by
    rw [dividing, if_neg hb, if_pos (fitsWord_iff.2 fits)]
  have law := floorDivides_words hb fits
  refine ⟨floorQuotient a b, floorRemainder a b, ?_, ?_, law.eq, law.of_pos, law.of_neg,
    toInt_div_of_inWord fits, fun hr _ => toInt_sub_one hb fits hr,
    fun _ signs => toInt_mod_add hb signs⟩
  · show (ofExcept (dividing "//" a b _) >>= fun r => pure (Value.int r)).run s = _
    rw [succeeds]
    rfl
  · show (ofExcept (dividing "%" a b _) >>= fun r => pure (Value.int r)).run s = _
    rw [succeeds]
    rfl

theorem floor_division_law_limits :
    (∃ q r : Int64,
      (applyBinary .floorDiv (.int Int64.minValue) (.int 2)).run {} = (.ok (.int q), {}) ∧
      (applyBinary .mod (.int Int64.minValue) (.int 2)).run {} = (.ok (.int r), {}) ∧
      -2 ^ 63 = q.toInt * 2 + r.toInt ∧ 0 ≤ r.toInt ∧ r.toInt < 2) ∧
    ∃ q r : Int64,
      (applyBinary .floorDiv (.int 7) (.int (-2))).run {} = (.ok (.int q), {}) ∧
      (applyBinary .mod (.int 7) (.int (-2))).run {} = (.ok (.int r), {}) ∧
      7 = q.toInt * -2 + r.toInt ∧ -2 < r.toInt ∧ r.toInt ≤ 0 := by
  obtain ⟨q, r, div, mod, eq, pos, -⟩ :=
    floor_division_law Int64.minValue 2 (by decide) (by decide) {}
  obtain ⟨q', r', div', mod', eq', -, neg, -⟩ :=
    floor_division_law 7 (-2) (by decide) (by decide) {}
  exact ⟨⟨q, r, div, mod, eq, pos (by decide)⟩, q', r', div', mod', eq', neg (by decide)⟩

/-! ### Operators -/

theorem FloorDivides.floor_eq {a b q r : Int} (h : FloorDivides a b q r) (hb : b ≠ 0) :
    ⌊(a : ℚ) / b⌋ = q := by
  have division : (a : ℚ) = q * b + r := by exact_mod_cast h.eq
  rw [Int.floor_eq_iff]
  rcases Int.lt_or_gt_of_ne hb with neg | pos
  · obtain ⟨lower, upper⟩ := h.of_neg neg
    have neg' : (b : ℚ) < 0 := by exact_mod_cast neg
    have lower' : (b : ℚ) < r := by exact_mod_cast lower
    have upper' : (r : ℚ) ≤ 0 := by exact_mod_cast upper
    rw [le_div_iff_of_neg neg', div_lt_iff_of_neg neg']
    constructor <;> linarith
  · obtain ⟨lower, upper⟩ := h.of_pos pos
    have pos' : (0 : ℚ) < b := by exact_mod_cast pos
    have lower' : (0 : ℚ) ≤ r := by exact_mod_cast lower
    have upper' : (r : ℚ) < b := by exact_mod_cast upper
    rw [le_div_iff₀ pos', div_lt_iff₀ pos']
    constructor <;> linarith

/-- An operator or built-in function on integers, with its operands. -/
inductive IntTerm where
  | neg (a : Int64)
  | abs (a : Int64)
  | add (a b : Int64)
  | sub (a b : Int64)
  | mul (a b : Int64)
  | floorDiv (a b : Int64)
  | mod (a b : Int64)
  | pow (a b : Int64)

namespace IntTerm

/-- What the evaluator does once it has the operands. -/
def perform : IntTerm → EvalM Value
  | neg a => applyUnary .neg (.int a)
  | abs a => applyBuiltin1 "abs" (.int a)
  | add a b => applyBinary .add (.int a) (.int b)
  | sub a b => applyBinary .sub (.int a) (.int b)
  | mul a b => applyBinary .mul (.int a) (.int b)
  | floorDiv a b => applyBinary .floorDiv (.int a) (.int b)
  | mod a b => applyBinary .mod (.int a) (.int b)
  | pow a b => applyBuiltin2 "pow" (.int a) (.int b)

/-- The result among all integers, if it is defined. -/
def result? : IntTerm → Option Int
  | neg a => some (-a.toInt)
  | abs a => some |a.toInt|
  | add a b => some (a.toInt + b.toInt)
  | sub a b => some (a.toInt - b.toInt)
  | mul a b => some (a.toInt * b.toInt)
  | floorDiv a b => if b = 0 then none else some ⌊(a.toInt : ℚ) / b.toInt⌋
  | mod a b => if b = 0 then none else some (a.toInt - b.toInt * ⌊(a.toInt : ℚ) / b.toInt⌋)
  | pow a b => if b.toInt < 0 then none else some (a.toInt ^ b.toInt.toNat)

/-- The divisor of a division. -/
def divisor? : IntTerm → Option Int64
  | floorDiv _ b | mod _ b => some b
  | _ => none

/-- The exponent of a power. -/
def exponent? : IntTerm → Option Int64
  | pow _ b => some b
  | _ => none

/-- The errors for operands whose exact result may fit a word: a remainder is refused with its
quotient, and an exponent of more than 32 bits is taken for a negative one. -/
def refusal? : IntTerm → Option EvalError
  | mod a b => if a = Int64.minValue ∧ b = -1 then some (.overflow "%") else none
  | pow _ b => if 2 ^ 32 ≤ b.toInt then some (.unsupported "negative exponent") else none
  | _ => none

/-- The name of the operator in an error. -/
def sign : IntTerm → String
  | neg _ | sub .. => "-"
  | abs _ => "abs"
  | add .. => "+"
  | mul .. => "*"
  | floorDiv .. => "//"
  | mod .. => "%"
  | pow .. => "pow"

/-- The error if there is no exact result. -/
def undefined : IntTerm → EvalError
  | pow .. => .unsupported "negative exponent"
  | _ => .divisionByZero

/-- The exact result if it fits a word, else an error. -/
def answer (t : IntTerm) : Except EvalError Int64 :=
  match t.result? with
  | some n => checked t.sign n
  | none => .error t.undefined

end IntTerm

theorem checked_of_toInt {operation : String} {r : Int64} {n : Int} (h : r.toInt = n) :
    checked operation n = .ok r := by
  rw [checked, if_pos (fitsWord_iff.2 (h ▸ inWord_toInt r)), ← h, Int64.ofInt_toInt]

/-- The quotient of the least word by -1 is one more than the greatest word. -/
theorem floor_least_word : ⌊(Int64.minValue.toInt : ℚ) / (-1 : Int64).toInt⌋ = 2 ^ 63 := by
  have law : FloorDivides Int64.minValue.toInt (-1 : Int64).toInt (2 ^ 63) 0 :=
    ⟨rfl, by decide, by decide⟩
  exact law.floor_eq (by decide)

theorem floorDiv_eq (a b : Int64) : floorDiv a b = (IntTerm.floorDiv a b).answer := by
  by_cases hb : b = 0
  · simp [floorDiv, dividing, IntTerm.answer, IntTerm.result?, IntTerm.undefined, hb]
  have nonzero := mt toInt_eq_zero_iff.1 hb
  simp only [floorDiv, dividing, IntTerm.answer, IntTerm.result?, IntTerm.sign, if_neg hb]
  by_cases h : InWord (a.toInt.tdiv b.toInt)
  · rw [if_pos (fitsWord_iff.2 h)]
    exact (checked_of_toInt ((floorDivides_words hb h).floor_eq nonzero).symm).symm
  · obtain ⟨rfl, rfl⟩ := Classical.not_not.1 (mt inWord_tdiv_iff.2 h)
    rw [floor_least_word]
    rfl

theorem floorMod_eq (a b : Int64) (h : ¬ (a = Int64.minValue ∧ b = -1)) :
    floorMod a b = (IntTerm.mod a b).answer := by
  by_cases hb : b = 0
  · simp [floorMod, dividing, IntTerm.answer, IntTerm.result?, IntTerm.undefined, hb]
  have fits := inWord_tdiv_iff.2 h
  have law := floorDivides_words hb fits
  simp only [floorMod, dividing, IntTerm.answer, IntTerm.result?, IntTerm.sign, if_neg hb,
    if_pos (fitsWord_iff.2 fits), law.floor_eq (mt toInt_eq_zero_iff.1 hb)]
  refine (checked_of_toInt ?_).symm
  have := law.eq
  rw [Int.mul_comm] at this
  omega

/-- A power with an exponent from 64 on fits a word only if the base is 0, 1 or -1. -/
theorem not_inWord_pow {n : Int} (hn : 2 ≤ n.natAbs) {e : Nat} (he : 64 ≤ e) :
    ¬ InWord (n ^ e) := by
  have large : 2 ^ 64 ≤ (n ^ e).natAbs := by
    rw [Int.natAbs_pow]
    calc 2 ^ 64 ≤ 2 ^ e := Nat.pow_le_pow_right Nat.zero_lt_two he
      _ ≤ n.natAbs ^ e := Nat.pow_le_pow_left hn e
  rintro ⟨lower, upper⟩
  omega

theorem power_eq (a b : Int64) (h : b.toInt < 2 ^ 32) : power a b = (IntTerm.pow a b).answer := by
  have negative : b < 0 ↔ b.toInt < 0 := Int64.lt_iff_toInt_lt
  have size : UInt32.size = 2 ^ 32 := rfl
  simp only [power, IntTerm.answer, IntTerm.result?]
  by_cases hb : b.toInt < 0
  · simp only [if_pos (Or.inl (negative.2 hb)), if_pos hb]
    rfl
  have small : ¬ (b < 0 ∨ UInt32.size ≤ b.toInt.toNat) := by
    rw [negative]
    omega
  simp only [if_neg small, if_neg hb, IntTerm.sign]
  generalize b.toInt.toNat = e
  by_cases he : 64 ≤ e
  · rw [if_pos he]
    by_cases h01 : a = 0 ∨ a = 1
    · rw [if_pos h01]
      refine (checked_of_toInt ?_).symm
      rcases h01 with rfl | rfl
      · exact (zero_pow (by omega)).symm
      · exact (one_pow e).symm
    rw [if_neg h01]
    by_cases hneg : a = -1
    · subst hneg
      rw [if_pos rfl]
      have one : (-1 : Int64).toInt = -1 := rfl
      refine (checked_of_toInt ?_).symm
      rw [one]
      split
      · rename_i even
        rw [(Nat.even_iff.2 even).neg_one_pow]
        rfl
      · rename_i odd
        rw [(Nat.odd_iff.2 (Nat.mod_two_ne_zero.1 odd)).neg_one_pow]
        rfl
    · rw [if_neg hneg]
      have two : 2 ≤ a.toInt.natAbs := by
        have values (n : Int) (w : Int64) (hw : w.toInt = n) (hne : a ≠ w) : a.toInt ≠ n :=
          fun e => hne (Int64.toInt_inj.1 (e.trans hw.symm))
        have h0 := values 0 0 rfl fun e => h01 (.inl e)
        have h1 := values 1 1 rfl fun e => h01 (.inr e)
        have h2 := values (-1) (-1) rfl hneg
        omega
      rw [checked, if_neg (mt fitsWord_iff.1 (not_inWord_pow two he))]
  · rw [if_neg he]
    rfl

namespace IntTerm

/-- Apart from the refusals, each operator answers as its exact result demands. -/
theorem perform_eq (t : IntTerm) (h : t.refusal? = none) :
    t.perform = ofExcept t.answer >>= fun r => pure (.int r) := by
  cases t with
  | neg a | add a b | sub a b | mul a b => rfl
  | abs a =>
    show ofExcept (checked "abs" a.toInt.natAbs) >>= (fun r => pure (Value.int r)) = _
    rw [Int.natCast_natAbs]
    rfl
  | floorDiv a b => rw [← floorDiv_eq]; rfl
  | mod a b =>
    have ordinary : ¬ (a = Int64.minValue ∧ b = -1) := by
      intro hab
      rw [refusal?, if_pos hab] at h
      cases h
    rw [← floorMod_eq a b ordinary]; rfl
  | pow a b =>
    have ordinary : b.toInt < 2 ^ 32 := by
      by_contra hb
      rw [refusal?, if_pos (Int.not_lt.1 hb)] at h
      cases h
    rw [← power_eq a b ordinary]; rfl

theorem run_of_refusal {t : IntTerm} {e : EvalError} (h : t.refusal? = some e) (s : Machine) :
    t.perform.run s = (.error (.error e), s) := by
  cases t with
  | mod a b =>
    simp only [refusal?] at h
    split at h <;> cases h
    rename_i hab
    obtain ⟨rfl, rfl⟩ := hab
    rfl
  | pow a b =>
    simp only [refusal?] at h
    split at h <;> cases h
    rename_i hb
    have size : UInt32.size = 2 ^ 32 := rfl
    have large : b < 0 ∨ UInt32.size ≤ b.toInt.toNat := by omega
    show (ofExcept (power a b) >>= fun r => pure (Value.int r)).run s = _
    simp only [power, if_pos large]
    rfl
  | _ => cases h

theorem run_perform_eq_ok {t : IntTerm} (h : t.refusal? = none) {r : Int64}
    (answer : t.answer = .ok r) (s : Machine) : t.perform.run s = (.ok (.int r), s) := by
  rw [t.perform_eq h, answer]
  rfl

theorem run_perform_eq_error_iff {t : IntTerm} (h : t.refusal? = none) {e : EvalError}
    {s : Machine} : (t.perform.run s).1 = .error (.error e) ↔ t.answer = .error e := by
  rw [t.perform_eq h]
  cases t.answer with
  | ok r => exact ⟨fun h => (by cases h), fun h => (by cases h)⟩
  | error e' => exact ⟨fun h => (by cases h; rfl), fun h => (by cases h; rfl)⟩

variable {t : IntTerm}

theorem answer_of_result? {r : Int64} (h : t.result? = some r.toInt) : t.answer = .ok r := by
  simp only [answer, h, checked_of_toInt rfl]

theorem answer_overflows_iff :
    (∃ op, t.answer = .error (.overflow op)) ↔ ∃ n, t.result? = some n ∧ ¬ InWord n := by
  simp only [answer]
  cases t.result? with
  | none => cases t <;> simp [undefined]
  | some n =>
    by_cases hn : InWord n
    · simp [checked_of_toInt (toInt_ofInt hn), hn]
    · simp [checked, mt fitsWord_iff.1 hn, hn]

/-- Only an undefined result is an error of another kind. -/
theorem answer_eq_error_iff {e : EvalError} (he : ∀ op, e ≠ .overflow op) :
    t.answer = .error e ↔ t.result? = none ∧ t.undefined = e := by
  simp only [answer]
  cases t.result? with
  | none => simp
  | some n =>
    simp only [checked]
    split
    · simp
    · simpa using fun h => he _ h.symm

theorem result?_undefined_iff :
    (t.result? = none ∧ t.undefined = .divisionByZero ↔ t.divisor? = some 0) ∧
      (t.result? = none ∧ t.undefined = .unsupported "negative exponent" ↔
        ∃ e, t.exponent? = some e ∧ e.toInt < 0) := by
  cases t <;> simp [result?, divisor?, exponent?, undefined]

theorem divisor?_of_refusal {e : EvalError} (h : t.refusal? = some e) :
    e ≠ .divisionByZero ∧ t.divisor? ≠ some 0 := by
  cases t with
  | mod a b =>
    simp only [refusal?] at h
    split at h <;> cases h
    rename_i hab
    obtain ⟨rfl, rfl⟩ := hab
    exact ⟨by decide, by decide⟩
  | pow a b =>
    simp only [refusal?] at h
    split at h <;> cases h
    exact ⟨by decide, by simp [divisor?]⟩
  | _ => cases h

end IntTerm

/-- **Results and errors are exact.**  Apart from the refusals, an operator gives its exact result
whenever there is one that fits a word, it overflows exactly if there is one that does not, and a
power reports a negative exponent exactly if it has one.  Always, a division by zero is reported
exactly if the divisor is zero.  The refusals are the remainder of the least word by -1, which
counts as an overflow, and powers with an exponent of more than 32 bits, which is taken for a
negative one. -/
theorem integer_results_exact (t : IntTerm) (s : Machine) :
    (t.refusal? = none →
      (∀ n, t.result? = some n → InWord n →
        ∃ r : Int64, t.perform.run s = (.ok (.int r), s) ∧ r.toInt = n) ∧
      ((∃ op, (t.perform.run s).1 = .error (.error (.overflow op))) ↔
        ∃ n, t.result? = some n ∧ ¬ InWord n) ∧
      ((t.perform.run s).1 = .error (.error (.unsupported "negative exponent")) ↔
        ∃ e, t.exponent? = some e ∧ e.toInt < 0)) ∧
    ((t.perform.run s).1 = .error (.error .divisionByZero) ↔ t.divisor? = some 0) ∧
    ∀ e, t.refusal? = some e → t.perform.run s = (.error (.error e), s) := by
  obtain ⟨zero, negative⟩ := IntTerm.result?_undefined_iff (t := t)
  refine ⟨fun h => ⟨fun n hx hn => ?_, ?_, ?_⟩, ?_, fun e h => IntTerm.run_of_refusal h s⟩
  · have value := toInt_ofInt hn
    have answer := IntTerm.answer_of_result? (hx.trans (congrArg some value.symm))
    exact ⟨Int64.ofInt n, IntTerm.run_perform_eq_ok h answer s, value⟩
  · simp only [IntTerm.run_perform_eq_error_iff h, IntTerm.answer_overflows_iff]
  · rw [IntTerm.run_perform_eq_error_iff h, IntTerm.answer_eq_error_iff (by simp), negative]
  · cases h : t.refusal? with
    | none => rw [IntTerm.run_perform_eq_error_iff h, IntTerm.answer_eq_error_iff (by simp), zero]
    | some e =>
      obtain ⟨he, hd⟩ := IntTerm.divisor?_of_refusal h
      rw [IntTerm.run_of_refusal h]
      simpa [hd] using he

theorem integer_results_exact_limits :
    (∃ op, ((IntTerm.neg Int64.minValue).perform.run {}).1 = .error (.error (.overflow op))) ∧
      ∃ r : Int64, (IntTerm.pow (-2) 63).perform.run {} = (.ok (.int r), {}) ∧
        r.toInt = -2 ^ 63 := by
  have least : ¬ InWord (-Int64.minValue.toInt) := fun h => absurd h.2 (by decide)
  exact ⟨((integer_results_exact (.neg Int64.minValue) {}).1 rfl).2.1.2 ⟨_, rfl, least⟩,
    ((integer_results_exact (.pow (-2) 63) {}).1 rfl).1 _ rfl ⟨by decide, by decide⟩⟩

theorem exact_results_refused :
    (IntTerm.mod Int64.minValue (-1)).result? = some 0 ∧
      (IntTerm.mod Int64.minValue (-1)).perform.run {} = (.error (.error (.overflow "%")), {}) ∧
      (IntTerm.pow 1 (2 ^ 32)).result? = some 1 ∧
      (IntTerm.pow 1 (2 ^ 32)).perform.run {} =
        (.error (.error (.unsupported "negative exponent")), {}) := by
  refine ⟨?_, rfl, ?_, rfl⟩
  · simp only [IntTerm.result?, floor_least_word]
    rfl
  · exact congrArg some (one_pow _)

end FlatClosure

import Mathlib.Algebra.Group.Int.Defs
import Mathlib.Algebra.Group.Nat.Defs
import StackMachine.Arithmetic

namespace StackMachine

/-- The integers that a word holds. -/
def FitsWord (x : Int) : Prop := -2 ^ 63 ≤ x ∧ x < 2 ^ 63

instance (x : Int) : Decidable (FitsWord x) := inferInstanceAs (Decidable (_ ∧ _))

/-- The integer that a word holds in the place of any integer. -/
def wrapWord (x : Int) : Int := x.bmod (2 ^ 64)

theorem wrapWord_of_fits {x : Int} (h : FitsWord x) : wrapWord x = x := by
  obtain ⟨hle, hlt⟩ := h
  rw [wrapWord, Int.bmod_eq_of_le]
  all_goals omega

theorem fits_toInt (v : Int64) : FitsWord v.toInt := ⟨v.le_toInt, v.toInt_lt⟩

theorem lt_zero_iff_toInt {v : Int64} : v < 0 ↔ v.toInt < 0 := by
  rw [Int64.lt_iff_toInt_lt, Int64.toInt_zero]

theorem toInt_ofInt_wrapWord (x : Int) : (Int64.ofInt x).toInt = wrapWord x := Int64.toInt_ofInt

theorem eq_ofInt_of_toInt {v : Int64} {x : Int} (h : v.toInt = wrapWord x) : v = Int64.ofInt x := by
  rw [← Int64.toInt_inj, h, toInt_ofInt_wrapWord]

theorem toInt_maxValue : Int64.maxValue.toInt = 2 ^ 63 - 1 := by decide

theorem toInt_minValue : Int64.minValue.toInt = -2 ^ 63 := by decide

theorem toInt_sub_of_fits {v w : Int64} (h : FitsWord (v.toInt - w.toInt)) : (v - w).toInt = v.toInt - w.toInt := by
  rw [Int64.toInt_sub]
  exact wrapWord_of_fits h

theorem toInt_add_of_fits {v w : Int64} (h : FitsWord (v.toInt + w.toInt)) : (v + w).toInt = v.toInt + w.toInt := by
  rw [Int64.toInt_add]
  exact wrapWord_of_fits h

/-- The bounds of a sum fit on the side where they are used. -/
theorem toInt_bound_sub (a : Int64) :
    (0 < a.toInt → (Int64.maxValue - a).toInt = 2 ^ 63 - 1 - a.toInt) ∧
      (a.toInt < 0 → (Int64.minValue - a).toInt = -2 ^ 63 - a.toInt) := by
  obtain ⟨ha, ha'⟩ := fits_toInt a
  constructor
  · intro hpos
    rw [toInt_sub_of_fits, toInt_maxValue]
    rw [toInt_maxValue]
    exact ⟨by omega, by omega⟩
  · intro hneg
    rw [toInt_sub_of_fits, toInt_minValue]
    rw [toInt_minValue]
    exact ⟨by omega, by omega⟩

/-- The bounds of a difference fit on the side where they are used. -/
theorem toInt_bound_add (a : Int64) :
    (a.toInt < 0 → (Int64.maxValue + a).toInt = 2 ^ 63 - 1 + a.toInt) ∧
      (0 < a.toInt → (Int64.minValue + a).toInt = -2 ^ 63 + a.toInt) := by
  obtain ⟨ha, ha'⟩ := fits_toInt a
  constructor
  · intro hneg
    rw [toInt_add_of_fits, toInt_maxValue]
    rw [toInt_maxValue]
    exact ⟨by omega, by omega⟩
  · intro hpos
    rw [toInt_add_of_fits, toInt_minValue]
    rw [toInt_minValue]
    exact ⟨by omega, by omega⟩

theorem sumOverflows_iff (b a : Int64) : sumOverflows b a = true ↔ ¬ FitsWord (b.toInt + a.toInt) := by
  obtain ⟨hb, hb'⟩ := fits_toInt b
  obtain ⟨hhigh, hlow⟩ := toInt_bound_sub a
  simp only [sumOverflows, Bool.or_eq_true, Bool.and_eq_true, decide_eq_true_eq, Int64.lt_iff_toInt_lt,
    Int64.toInt_zero]
  unfold FitsWord
  rcases Int.lt_trichotomy a.toInt 0 with hneg | hz | hpos
  · rw [hlow hneg]
    omega
  · omega
  · rw [hhigh hpos]
    omega

theorem differenceOverflows_iff (b a : Int64) :
    differenceOverflows b a = true ↔ ¬ FitsWord (b.toInt - a.toInt) := by
  obtain ⟨hb, hb'⟩ := fits_toInt b
  obtain ⟨hhigh, hlow⟩ := toInt_bound_add a
  simp only [differenceOverflows, Bool.or_eq_true, Bool.and_eq_true, decide_eq_true_eq, Int64.lt_iff_toInt_lt,
    Int64.toInt_zero]
  unfold FitsWord
  rcases Int.lt_trichotomy a.toInt 0 with hneg | hz | hpos
  · rw [hhigh hneg]
    omega
  · omega
  · rw [hlow hpos]
    omega

theorem toInt_eq_neg_one_iff {a : Int64} : a = -1 ↔ a.toInt = -1 := by
  rw [← Int64.toInt_inj]
  rfl

theorem toInt_eq_minValue_iff {b : Int64} : b = Int64.minValue ↔ b.toInt = -2 ^ 63 := by
  rw [← Int64.toInt_inj, toInt_minValue]

/-- If a wrapped product divides back to its first factor it has not wrapped, for a remainder below the divisor is too
small to make up for a whole word. -/
theorem fits_mul_of_tdiv {b a : Int} (ha : FitsWord a) (hz : a ≠ 0) (h : (wrapWord (b * a)).tdiv a = b) :
    FitsWord (b * a) := by
  obtain ⟨hle, hlt⟩ := ha
  have hwrap : wrapWord (b * a) = b * a - 2 ^ 64 * (b * a).bdiv (2 ^ 64) := Int.bmod_eq_self_sub_mul_bdiv _ _
  have hfits : FitsWord (wrapWord (b * a)) := by
    have hge : -((2 ^ 64 : Nat) / 2 : Int) ≤ (b * a).bmod (2 ^ 64) := Int.le_bmod (by decide)
    have hlt : (b * a).bmod (2 ^ 64) < ((2 ^ 64 : Nat) + 1) / 2 := Int.bmod_lt (by decide)
    unfold wrapWord FitsWord
    omega
  have hback := Int.mul_tdiv_add_tmod (wrapWord (b * a)) a
  rw [h, Int.mul_comm a b] at hback
  have hrem : ((wrapWord (b * a)).tmod a).natAbs < a.natAbs := by
    rw [Int.natAbs_tmod]
    exact Nat.mod_lt _ (by omega)
  generalize hk : (b * a).bdiv (2 ^ 64) = k at hwrap
  generalize hr : (wrapWord (b * a)).tmod a = r at hback hrem
  have hzero : k = 0 := by omega
  rw [hzero] at hwrap
  rw [hwrap] at hfits
  simpa using hfits

theorem productOverflows_iff (b a : Int64) (hz : a ≠ 0) :
    productOverflows b a = true ↔ ¬ FitsWord (b.toInt * a.toInt) := by
  have hz' : a.toInt ≠ 0 := by
    intro h
    exact hz (Int64.toInt_inj.mp (by rw [h]; rfl))
  simp only [productOverflows, Bool.or_eq_true, Bool.and_eq_true, bne_iff_ne, beq_iff_eq]
  constructor
  · intro hover hfits
    have hquot : b * a / a = b := by
      rw [← Int64.toInt_inj, Int64.toInt_div, Int64.toInt_mul]
      have hprod : (b.toInt * a.toInt).bmod (2 ^ 64) = b.toInt * a.toInt := wrapWord_of_fits hfits
      rw [hprod, Int.mul_tdiv_cancel _ hz']
      exact wrapWord_of_fits (fits_toInt b)
    rcases hover with (hne | ⟨ha, hb⟩) | ⟨hb, ha⟩
    · exact hne hquot
    · rw [ha, hb] at hfits
      exact absurd hfits (by decide)
    · rw [ha, hb] at hfits
      exact absurd hfits (by decide)
  · intro hnot
    apply Decidable.byContradiction
    intro hover
    simp only [not_or, not_and, Decidable.not_not] at hover
    obtain ⟨⟨hquot, hfirst⟩, _⟩ := hover
    apply hnot
    by_cases hone : a = -1
    · -- the product is the negation, which fits unless it is of the least word
      have hmin := hfirst hone
      rw [toInt_eq_minValue_iff] at hmin
      obtain ⟨hle, hlt⟩ := fits_toInt b
      rw [toInt_eq_neg_one_iff.mp hone]
      exact ⟨by omega, by omega⟩
    · apply fits_mul_of_tdiv (fits_toInt a) hz'
      have hint := congrArg Int64.toInt hquot
      rw [Int64.toInt_div_of_ne_right _ _ hone, Int64.toInt_mul] at hint
      exact hint

/-- A quotient fits unless it is that of the least word by minus one. -/
theorem fits_tdiv_iff (b a : Int64) :
    FitsWord (b.toInt.tdiv a.toInt) ↔ ¬ (a = -1 ∧ b = Int64.minValue) := by
  constructor
  · rintro hfits ⟨ha, hb⟩
    rw [ha, hb] at hfits
    exact absurd hfits (by decide)
  · intro hnot
    have hquot : (b / a).toInt = b.toInt.tdiv a.toInt := by
      by_cases ha : a = -1
      · exact Int64.toInt_div_of_ne_left b a fun hb => hnot ⟨ha, hb⟩
      · exact Int64.toInt_div_of_ne_right b a ha
    rw [← hquot]
    exact fits_toInt _

/-- The result of an operation on integers. -/
def BinaryOp.exact (f : BinaryOp) (b a : Int) : Int :=
  match f with
  | .add => b + a
  | .mul => b * a
  | .div => b.tdiv a
  | .sub => b - a
  | .less => if b < a then 1 else 0

/-- Every operation gives its exact result or refuses it. -/
theorem BinaryOp.apply_eq (f : BinaryOp) (b a : Int64) :
    f.apply b a =
      if f = .div ∧ a = 0 then .error (.zeroDivisor b)
      else if FitsWord (f.exact b.toInt a.toInt) then .ok (Int64.ofInt (f.exact b.toInt a.toInt))
      else .error (.overflow b f.symbol a) := by
  cases f with
  | add =>
    have hover := sumOverflows_iff b a
    by_cases hfits : FitsWord (b.toInt + a.toInt)
    · have hno : sumOverflows b a = false := by simpa [hfits] using hover
      simp [BinaryOp.apply, BinaryOp.exact, hno, hfits]
    · have hyes : sumOverflows b a = true := hover.mpr hfits
      simp [BinaryOp.apply, BinaryOp.exact, hyes, hfits]
  | sub =>
    have hover := differenceOverflows_iff b a
    by_cases hfits : FitsWord (b.toInt - a.toInt)
    · have hno : differenceOverflows b a = false := by simpa [hfits] using hover
      simp [BinaryOp.apply, BinaryOp.exact, hno, hfits]
    · have hyes : differenceOverflows b a = true := hover.mpr hfits
      simp [BinaryOp.apply, BinaryOp.exact, hyes, hfits]
  | mul =>
    by_cases hz : a = 0 ∨ b = 0
    · have hzero : b.toInt * a.toInt = 0 := by
        rcases hz with rfl | rfl <;> simp
      have hfits : FitsWord 0 := by decide
      simp [BinaryOp.apply, BinaryOp.exact, hz, hzero, hfits]
    · obtain ⟨ha, hb⟩ := not_or.mp hz
      have hover := productOverflows_iff b a ha
      by_cases hfits : FitsWord (b.toInt * a.toInt)
      · have hno : productOverflows b a = false := by simpa [hfits] using hover
        simp [BinaryOp.apply, BinaryOp.exact, ha, hb, hno, hfits]
      · have hyes : productOverflows b a = true := hover.mpr hfits
        simp [BinaryOp.apply, BinaryOp.exact, ha, hb, hyes, hfits]
  | div =>
    by_cases hz : a = 0
    · simp [BinaryOp.apply, hz]
    · have hquotient : b / a = Int64.ofInt (b.toInt.tdiv a.toInt) := eq_ofInt_of_toInt (Int64.toInt_div b a)
      have hiff := fits_tdiv_iff b a
      by_cases hfits : FitsWord (b.toInt.tdiv a.toInt)
      · have hno := hiff.mp hfits
        simp [BinaryOp.apply, BinaryOp.exact, hz, hno, hfits, hquotient]
      · have hyes : a = -1 ∧ b = Int64.minValue := Decidable.not_not.mp (mt hiff.mpr hfits)
        have htest : (a == -1 && b == Int64.minValue) = true := by simp [hyes]
        simp [BinaryOp.apply, BinaryOp.exact, hz, htest, hfits]
  | less =>
    have hiff : b < a ↔ b.toInt < a.toInt := Int64.lt_iff_toInt_lt
    by_cases hlt : b.toInt < a.toInt
    · have hfits : FitsWord 1 := by decide
      simp [BinaryOp.apply, BinaryOp.exact, hiff, hlt, hfits]
    · have hfits : FitsWord 0 := by decide
      simp [BinaryOp.apply, BinaryOp.exact, hiff, hlt, hfits]

theorem neg_eq_minValue {b : Int64} (h : b * -1 = Int64.minValue) : b = Int64.minValue := by
  obtain ⟨hle, hlt⟩ := fits_toInt b
  rw [toInt_eq_minValue_iff]
  refine Decidable.byContradiction fun hne => ?_
  have hprod : (b * -1).toInt = -b.toInt := by
    rw [Int64.toInt_mul, show (-1 : Int64).toInt = -1 from rfl, Int.mul_neg, Int.mul_one]
    exact wrapWord_of_fits ⟨by omega, by omega⟩
  rw [h, toInt_minValue] at hprod
  omega

/-- The quotient that a product is tested by is that of the integers, whether or not the product wrapped, but for one
pair of factors that is tested for by itself. -/
theorem toInt_mul_div (b a : Int64) :
    (b * a / a).toInt = (b * a).toInt.tdiv a.toInt ∨ a = -1 ∧ b = Int64.minValue := by
  by_cases ha : a = -1
  · by_cases hb : b = Int64.minValue
    · exact .inr ⟨ha, hb⟩
    · refine .inl (Int64.toInt_div_of_ne_left _ _ fun hprod => hb ?_)
      rw [ha] at hprod
      exact neg_eq_minValue hprod
  · exact .inl (Int64.toInt_div_of_ne_right _ _ ha)

/-- The operation gives a word that stands for the integer. -/
def BinaryOp.Gives (f : BinaryOp) (b a : Int64) (x : Int) : Prop := ∃ c, f.apply b a = .ok c ∧ c.toInt = x

/-- The operation is refused for a cause of the kind. -/
def BinaryOp.Refused (f : BinaryOp) (b a : Int64) (kind : Kind) : Prop :=
  ∃ cause, f.apply b a = .error cause ∧ cause.kind = kind

theorem BinaryOp.gives_or_refused {f : BinaryOp} {b a : Int64} (h : ¬ (f = .div ∧ a = 0)) :
    (f.Gives b a (f.exact b.toInt a.toInt) ↔ FitsWord (f.exact b.toInt a.toInt)) ∧
      (f.Refused b a .arithmeticOverflow ↔ ¬ FitsWord (f.exact b.toInt a.toInt)) := by
  have happly := f.apply_eq b a
  rw [if_neg h] at happly
  by_cases hfits : FitsWord (f.exact b.toInt a.toInt)
  · rw [if_pos hfits] at happly
    have hvalue : (Int64.ofInt (f.exact b.toInt a.toInt)).toInt = f.exact b.toInt a.toInt := by
      rw [toInt_ofInt_wrapWord, wrapWord_of_fits hfits]
    refine ⟨⟨fun _ => hfits, fun _ => ⟨_, happly, hvalue⟩⟩, ?_, fun hnot => absurd hfits hnot⟩
    rintro ⟨cause, hcause, -⟩
    rw [happly] at hcause
    cases hcause
  · rw [if_neg hfits] at happly
    refine ⟨⟨?_, fun hyes => absurd hyes hfits⟩, fun _ => hfits, fun _ => ⟨_, happly, rfl⟩⟩
    rintro ⟨c, hc, -⟩
    rw [happly] at hc
    cases hc

/-- Only a division by zero is refused as one. -/
theorem BinaryOp.refused_divideByZero_iff {f : BinaryOp} {b a : Int64} :
    f.Refused b a .divideByZero ↔ f = .div ∧ a = 0 := by
  have happly := f.apply_eq b a
  constructor
  · rintro ⟨cause, hcause, hkind⟩
    refine Decidable.byContradiction fun hnot => ?_
    rw [hcause, if_neg hnot] at happly
    split at happly
    next => cases happly
    next =>
      cases happly
      cases hkind
  · intro hzero
    rw [if_pos hzero] at happly
    exact ⟨_, happly, rfl⟩

/-- Arithmetic is exact or refused. A sum, a difference and a product are given if they fit a word and refused as an
overflow if they do not; a quotient is cut off toward zero, and refused for a zero divisor and for the least word by
minus one. The tests for an overflow are right for all words: the bounds that sums and differences are compared with do
not wrap where they are used, and the quotient that a product is tested by does not either, but for one pair of factors
that is tested for by itself. -/
theorem arithmetic_exact_or_refused (b a : Int64) :
    ((BinaryOp.add.Gives b a (b.toInt + a.toInt) ↔ FitsWord (b.toInt + a.toInt)) ∧
      (BinaryOp.add.Refused b a .arithmeticOverflow ↔ ¬ FitsWord (b.toInt + a.toInt))) ∧
    ((BinaryOp.sub.Gives b a (b.toInt - a.toInt) ↔ FitsWord (b.toInt - a.toInt)) ∧
      (BinaryOp.sub.Refused b a .arithmeticOverflow ↔ ¬ FitsWord (b.toInt - a.toInt))) ∧
    ((BinaryOp.mul.Gives b a (b.toInt * a.toInt) ↔ FitsWord (b.toInt * a.toInt)) ∧
      (BinaryOp.mul.Refused b a .arithmeticOverflow ↔ ¬ FitsWord (b.toInt * a.toInt))) ∧
    ((BinaryOp.div.Refused b a .divideByZero ↔ a.toInt = 0) ∧
      (BinaryOp.div.Refused b a .arithmeticOverflow ↔ a.toInt = -1 ∧ b.toInt = -2 ^ 63) ∧
      (a.toInt ≠ 0 → ¬ (a.toInt = -1 ∧ b.toInt = -2 ^ 63) → BinaryOp.div.Gives b a (b.toInt.tdiv a.toInt))) ∧
    BinaryOp.less.Gives b a (if b.toInt < a.toInt then 1 else 0) ∧
    ((sumOverflows b a = true ↔ ¬ FitsWord (b.toInt + a.toInt)) ∧
      (0 < a.toInt → (Int64.maxValue - a).toInt = 2 ^ 63 - 1 - a.toInt) ∧
      (a.toInt < 0 → (Int64.minValue - a).toInt = -2 ^ 63 - a.toInt)) ∧
    ((differenceOverflows b a = true ↔ ¬ FitsWord (b.toInt - a.toInt)) ∧
      (a.toInt < 0 → (Int64.maxValue + a).toInt = 2 ^ 63 - 1 + a.toInt) ∧
      (0 < a.toInt → (Int64.minValue + a).toInt = -2 ^ 63 + a.toInt)) ∧
    (a.toInt ≠ 0 → (productOverflows b a = true ↔ ¬ FitsWord (b.toInt * a.toInt)) ∧
      ((b * a / a).toInt = (b * a).toInt.tdiv a.toInt ∨ a.toInt = -1 ∧ b.toInt = -2 ^ 63)) := by
  have hzero : a.toInt = 0 ↔ a = 0 := by
    rw [← Int64.toInt_inj]
    rfl
  have hlast : a = -1 ∧ b = Int64.minValue ↔ a.toInt = -1 ∧ b.toInt = -2 ^ 63 :=
    and_congr toInt_eq_neg_one_iff toInt_eq_minValue_iff
  have hquotient := fits_tdiv_iff b a
  rw [hlast] at hquotient
  refine ⟨BinaryOp.gives_or_refused (by simp), BinaryOp.gives_or_refused (by simp),
    BinaryOp.gives_or_refused (by simp), ⟨?_, ?_, ?_⟩, ?_, ⟨sumOverflows_iff b a, toInt_bound_sub a⟩,
    ⟨differenceOverflows_iff b a, toInt_bound_add a⟩, ?_⟩
  · rw [BinaryOp.refused_divideByZero_iff, hzero]
    simp
  · by_cases ha : a = 0
    · -- a zero divisor is refused before anything else is looked at
      have hsmall : ¬ (a.toInt = -1 ∧ b.toInt = -2 ^ 63) := by
        rw [hzero.mpr ha]
        omega
      refine ⟨?_, fun h => absurd h hsmall⟩
      rintro ⟨cause, hcause, hkind⟩
      rw [BinaryOp.apply_eq, if_pos ⟨rfl, ha⟩] at hcause
      cases hcause
      cases hkind
    · have hdiv := (BinaryOp.gives_or_refused (f := .div) (b := b) (a := a) fun h => ha h.2).2
      exact hdiv.trans (Decidable.not_iff_comm.mp hquotient.symm)
  · intro ha hnot
    have hdiv := (BinaryOp.gives_or_refused (f := .div) (b := b) (a := a) fun h => ha (hzero.mpr h.2)).1
    exact hdiv.mpr (hquotient.mpr hnot)
  · have hfits : FitsWord (if b.toInt < a.toInt then 1 else 0) := by
      split
      next => decide
      next => decide
    exact (BinaryOp.gives_or_refused (f := .less) (by simp)).1.mpr hfits
  · intro ha
    have hquot := toInt_mul_div b a
    rw [hlast] at hquot
    exact ⟨productOverflows_iff b a fun h => ha (hzero.mpr h), hquot⟩

/-- The least word by minus one: the product and the quotient are one too large, and the test quotient of the product
has wrapped back to the word. -/
theorem arithmetic_exact_or_refused_least :
    BinaryOp.mul.Refused Int64.minValue (-1) .arithmeticOverflow ∧
      BinaryOp.div.Refused Int64.minValue (-1) .arithmeticOverflow ∧
      productOverflows Int64.minValue (-1) = true ∧ Int64.minValue * -1 / -1 = Int64.minValue ∧
      BinaryOp.div.Gives Int64.minValue 3 (-3074457345618258602) := by
  have hover : ¬ FitsWord (Int64.minValue.toInt * (-1 : Int64).toInt) := by decide
  obtain ⟨-, -, ⟨-, hmul⟩, ⟨-, hdiv, -⟩, -, -, -, htest⟩ := arithmetic_exact_or_refused Int64.minValue (-1)
  obtain ⟨-, -, -, ⟨-, -, hthird⟩, -⟩ := arithmetic_exact_or_refused Int64.minValue 3
  exact ⟨hmul.mpr hover, hdiv.mpr (by decide), (htest (by decide)).1.mpr hover, by decide,
    hthird (by decide) (by decide)⟩

end StackMachine

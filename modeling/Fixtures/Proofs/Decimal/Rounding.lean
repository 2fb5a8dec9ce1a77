import Fixtures.Decimal.Binary64
import Mathlib.Algebra.Order.Field.Power
import Mathlib.Data.Int.Log
import Mathlib.Data.Rat.Floor
import Mathlib.Tactic.GCongr
import Mathlib.Tactic.Positivity

/-!
# Rounding a ratio

The rounded number of a ratio is a matter of its rational value alone. Its last
place is 52 places below the leading one, which is the logarithm of the value,
so a value whose odd part is below 2 ^ 53 is its own number, and one operation
on two such numbers is one rounding.
-/

namespace Fixtures.Binary64

variable {num den num' den' : Nat} {negative : Bool} {e : Int}

def magnitude (x : Binary64) : ℚ := x.mantissa * 2 ^ x.exponent

/-! ## Ratios -/

theorem downBy_pos (h : 0 < den) : 0 < (downBy e num den).2 := by
  cases e with
  | ofNat k => exact Nat.mul_pos h (Nat.pow_pos (by decide))
  | negSucc k => exact h

theorem downBy_div (e : Int) (num den : Nat) :
    ((downBy e num den).1 / (downBy e num den).2 : ℚ) = num / den / 2 ^ e := by
  cases e with
  | ofNat k => simp [downBy, div_div]
  | negSucc k => simp [downBy, zpow_negSucc, mul_div_right_comm]

theorem ratio_div (x : Binary64) : (x.ratio.1 / x.ratio.2 : ℚ) = x.magnitude := by
  rw [ratio, downBy_div, magnitude]
  simp

theorem ratio_pos (x : Binary64) : 0 < x.ratio.2 := downBy_pos Nat.one_pos

theorem mul_eq_mul_of_div_eq (hd : 0 < den) (hd' : 0 < den')
    (h : (num / den : ℚ) = num' / den') : num * den' = num' * den := by
  have hq : (den : ℚ) ≠ 0 := Nat.cast_ne_zero.mpr hd.ne'
  have hq' : (den' : ℚ) ≠ 0 := Nat.cast_ne_zero.mpr hd'.ne'
  exact_mod_cast (div_eq_div_iff hq hq').mp h

/-! ## Rounding to an integer -/

theorem roundDiv_mul_right {k : Nat} (hk : 0 < k) :
    roundDiv (num * k) (den * k) = roundDiv num den := by
  simp only [roundDiv, Nat.mul_div_mul_right _ _ hk, Nat.mul_mod_mul_right, ← Nat.mul_assoc,
    Nat.mul_lt_mul_right hk]

theorem roundDiv_congr (hd : 0 < den) (hd' : 0 < den') (h : (num / den : ℚ) = num' / den') :
    roundDiv num den = roundDiv num' den' := by
  rw [← roundDiv_mul_right hd', mul_eq_mul_of_div_eq hd hd' h, Nat.mul_comm den,
    roundDiv_mul_right hd]

theorem roundDiv_of_div_eq {n : Nat} (hd : 0 < den) (h : (num / den : ℚ) = n) :
    roundDiv num den = n := by
  have hone : (num / den : ℚ) = n / (1 : Nat) := by rw [h, Nat.cast_one, div_one]
  rw [roundDiv_congr hd Nat.one_pos hone]
  simp [roundDiv, Nat.mod_one]

/-! ## The last place -/

/-- The exponent at which a positive value is rounded. -/
def lastPlace (q : ℚ) : Int := max (Int.log 2 q - 52) leastExponent

theorem two_pow_le_iff {q : ℚ} (hq : 0 < q) : (2 : ℚ) ^ e ≤ q ↔ e ≤ Int.log 2 q :=
  Int.zpow_le_iff_le_log (by decide) hq

theorem lt_two_pow_iff {q : ℚ} (hq : 0 < q) : q < (2 : ℚ) ^ e ↔ Int.log 2 q < e :=
  Int.lt_zpow_iff_log_lt (by decide) hq

theorem fits_iff (hn : 0 < num) (hd : 0 < den) :
    Nat.pow 2 52 * (downBy e num den).2 ≤ (downBy e num den).1 ↔
      e ≤ Int.log 2 (num / den : ℚ) - 52 := by
  have hq : (0 : ℚ) < num / den := by positivity
  have hpos : (0 : ℚ) < (downBy e num den).2 := Nat.cast_pos.mpr (downBy_pos hd)
  calc Nat.pow 2 52 * (downBy e num den).2 ≤ (downBy e num den).1
      ↔ ((2 : ℚ) ^ 52 * (downBy e num den).2 ≤ (downBy e num den).1) := by
        exact_mod_cast Iff.rfl
    _ ↔ (2 : ℚ) ^ (52 : Int) ≤ num / den / 2 ^ e := by
        rw [← downBy_div, le_div_iff₀ hpos]
        rfl
    _ ↔ (2 : ℚ) ^ (52 + e) ≤ num / den := by
        rw [le_div_iff₀ (zpow_pos two_pos e), zpow_add₀ two_ne_zero]
    _ ↔ e ≤ Int.log 2 (num / den : ℚ) - 52 := by
        rw [two_pow_le_iff hq]
        omega

theorem log_div (hn : 0 < num) (hd : 0 < den) :
    Int.log 2 (num / den : ℚ) = Int.ofNat num.log2 - Int.ofNat den.log2 ∨
      Int.log 2 (num / den : ℚ) = Int.ofNat num.log2 - Int.ofNat den.log2 - 1 := by
  have hq : (0 : ℚ) < num / den := by positivity
  have hd0 : (0 : ℚ) < den := Nat.cast_pos.mpr hd
  have hnum : (2 : ℚ) ^ num.log2 ≤ num := by exact_mod_cast Nat.log2_self_le hn.ne'
  have hnum' : (num : ℚ) < 2 ^ (num.log2 + 1) := by exact_mod_cast Nat.lt_log2_self
  have hden : (2 : ℚ) ^ den.log2 ≤ den := by exact_mod_cast Nat.log2_self_le hd.ne'
  have hden' : (den : ℚ) < 2 ^ (den.log2 + 1) := by exact_mod_cast Nat.lt_log2_self
  have hlow : (2 : ℚ) ^ ((num.log2 : Int) - (den.log2 + 1 : Nat)) ≤ num / den := by
    rw [zpow_sub₀ two_ne_zero, zpow_natCast, zpow_natCast]
    gcongr
  have hhigh : (num / den : ℚ) < 2 ^ (((num.log2 + 1 : Nat) : Int) - den.log2) := by
    rw [zpow_sub₀ two_ne_zero, zpow_natCast, zpow_natCast]
    gcongr
  rw [two_pow_le_iff hq] at hlow
  rw [lt_two_pow_iff hq] at hhigh
  simp only [Int.ofNat_eq_natCast]
  omega

/-! ## Rounding to a number -/

def placed (negative : Bool) (m : Nat) (e : Int) : Option Binary64 :=
  let x : Binary64 :=
    if m = Nat.pow 2 53 then ⟨negative, Nat.pow 2 52, e + 1⟩ else ⟨negative, m, e⟩
  if x.exponent ≤ greatestExponent then some x else none

theorem ofRatio_eq (hn : 0 < num) (hd : 0 < den) :
    ofRatio negative num den =
      let r := downBy (lastPlace (num / den)) num den
      placed negative (roundDiv r.1 r.2) (lastPlace (num / den)) := by
  have hzero : ¬(num = 0 || den = 0) = true := by simp [hn.ne', hd.ne']
  have hguess : (if decide (Nat.pow 2 52 *
          (downBy (Int.ofNat num.log2 - Int.ofNat den.log2 - 52) num den).2 ≤
        (downBy (Int.ofNat num.log2 - Int.ofNat den.log2 - 52) num den).1) = true
      then Int.ofNat num.log2 - Int.ofNat den.log2 - 52
      else Int.ofNat num.log2 - Int.ofNat den.log2 - 52 - 1) =
        Int.log 2 (num / den : ℚ) - 52 := by
    simp only [decide_eq_true_eq, fits_iff hn hd]
    have hlog := log_div hn hd
    split <;> omega
  rw [ofRatio, if_neg hzero]
  simp only [hguess]
  rfl

/-- **Rounding is a matter of the value.** -/
theorem ofRatio_congr (hd : 0 < den) (hd' : 0 < den') (h : (num / den : ℚ) = num' / den') :
    ofRatio negative num den = ofRatio negative num' den' := by
  rcases Nat.eq_zero_or_pos num with rfl | hn
  · have hn' : num' = 0 := by
      have hmul := mul_eq_mul_of_div_eq hd hd' h
      rw [Nat.zero_mul] at hmul
      exact (Nat.mul_eq_zero.mp hmul.symm).resolve_right hd.ne'
    rw [hn']
    rfl
  · have hn' : 0 < num' := by
      have hmul := mul_eq_mul_of_div_eq hd hd' h
      exact Nat.pos_of_mul_pos_right (hmul ▸ Nat.mul_pos hn hd')
    rw [ofRatio_eq hn hd, ofRatio_eq hn' hd', h]
    generalize lastPlace (num' / den') = e
    have hdown : ((downBy e num den).1 / (downBy e num den).2 : ℚ) =
        (downBy e num' den').1 / (downBy e num' den').2 := by
      rw [downBy_div, downBy_div, h]
    simp only [roundDiv_congr (downBy_pos hd) (downBy_pos hd') hdown]

theorem ofRatio_negative (negative : Bool) (num den : Nat) :
    ofRatio negative num den =
      (ofRatio false num den).map fun x => { x with negative := negative } := by
  rcases Nat.eq_zero_or_pos num with rfl | hn
  · rfl
  rcases Nat.eq_zero_or_pos den with rfl | hd
  · simp [ofRatio, zero]
  · rw [ofRatio_eq hn hd, ofRatio_eq hn hd]
    simp only [placed]
    split
    · split <;> rfl
    · split <;> rfl

/-! ## Exact values -/

theorem ofRatio_exact (negative : Bool) {m : Nat} {j : Int} (hm : 0 < m) (hlt : m < 2 ^ 53)
    (hlow : leastExponent ≤ j) (hhigh : j ≤ greatestExponent) (hd : 0 < den)
    (h : (num / den : ℚ) = m * 2 ^ j) :
    ∃ x, ofRatio negative num den = some x ∧ x.negative = negative ∧ x.magnitude = m * 2 ^ j := by
  have hq : (0 : ℚ) < m * 2 ^ j := by positivity
  have hn : 0 < num := by
    rcases Nat.eq_zero_or_pos num with rfl | hn
    · rw [← h, Nat.cast_zero, zero_div] at hq
      exact absurd hq (lt_irrefl 0)
    · exact hn
  rw [ofRatio_eq hn hd, h]
  have hlog : Int.log 2 (m * 2 ^ j : ℚ) < 53 + j := by
    rw [← lt_two_pow_iff hq, zpow_add₀ two_ne_zero]
    have hcast : (m : ℚ) < 2 ^ (53 : Int) := by exact_mod_cast hlt
    gcongr
  have hplace : lastPlace (m * 2 ^ j) ≤ j := by
    rw [lastPlace]
    omega
  have hwide : (m * 2 ^ j : ℚ) < 2 ^ (53 + lastPlace (m * 2 ^ j)) := by
    rw [lt_two_pow_iff hq, lastPlace]
    omega
  generalize lastPlace (m * 2 ^ j) = e at hplace hwide
  obtain ⟨k, rfl⟩ : ∃ k : Nat, j = k + e := ⟨(j - e).toNat, by omega⟩
  have hvalue : (m * 2 ^ ((k : Int) + e) : ℚ) = (m * 2 ^ k : Nat) * 2 ^ e := by
    rw [zpow_add₀ two_ne_zero, zpow_natCast, ← mul_assoc]
    norm_cast
  have hround : roundDiv (downBy e num den).1 (downBy e num den).2 = m * 2 ^ k := by
    refine roundDiv_of_div_eq (downBy_pos hd) ?_
    rw [downBy_div, h, hvalue, mul_div_cancel_right₀ _ (by positivity)]
  have hsmall : m * 2 ^ k < Nat.pow 2 53 := by
    rw [hvalue, zpow_add₀ two_ne_zero] at hwide
    exact_mod_cast lt_of_mul_lt_mul_right hwide (by positivity)
  refine ⟨⟨negative, m * 2 ^ k, e⟩, ?_, rfl, hvalue.symm⟩
  have hexponent : e ≤ greatestExponent := by omega
  simp only [hround, placed, if_neg hsmall.ne, if_pos hexponent]

theorem mul_eq {x y : Binary64} (hd : 0 < den) (h : (num / den : ℚ) = x.magnitude * y.magnitude) :
    x.mul y = ofRatio (x.negative != y.negative) num den := by
  refine ofRatio_congr (Nat.mul_pos x.ratio_pos y.ratio_pos) hd ?_
  rw [h, ← ratio_div, ← ratio_div, div_mul_div_comm, Nat.cast_mul, Nat.cast_mul]

theorem div_eq {x y : Binary64} (hzero : y.magnitude ≠ 0) (hd : 0 < den)
    (h : (num / den : ℚ) = x.magnitude / y.magnitude) :
    x.div y = ofRatio (x.negative != y.negative) num den := by
  have hy : 0 < y.ratio.1 := by
    refine Nat.pos_of_ne_zero fun hy => hzero ?_
    rw [← ratio_div, hy, Nat.cast_zero, zero_div]
  refine ofRatio_congr (Nat.mul_pos x.ratio_pos hy) hd ?_
  rw [h, ← ratio_div, ← ratio_div, div_div_div_eq, Nat.cast_mul, Nat.cast_mul]

end Fixtures.Binary64

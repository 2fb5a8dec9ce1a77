import Fixtures.Json.Numeral
import Fixtures.Proofs.Decimal.Rounding
import Mathlib.Tactic.NormNum

/-!
# Real numbers of few digits

A significand below 2 ^ 53 is a number without rounding, and so is a power of ten
up to 22. One operation on the two is then all the rounding there is, and the
numeral is the number nearest to its decimal.
-/

namespace Fixtures

namespace Binary64

variable {n k : Nat} {e : Int}

theorem isZero_eq_false {x : Binary64} (h : x.magnitude ≠ 0) : x.isZero = false := by
  rw [isZero, beq_eq_false_iff_ne]
  intro hm
  rw [magnitude, hm, Nat.cast_zero, zero_mul] at h
  exact h rfl

theorem ofNat_exact (hn : 0 < n) (hlt : n < 2 ^ 53) :
    ∃ x, ofNat n = some x ∧ x.negative = false ∧ x.magnitude = n := by
  have hvalue : (n / (1 : Nat) : ℚ) = n * 2 ^ (0 : Int) := by simp
  have h := ofRatio_exact false hn hlt (by decide) (by decide) Nat.one_pos hvalue
  rwa [zpow_zero, mul_one] at h

theorem ofNat_ten_pow (hk : k ≤ 22) :
    ∃ y, ofNat (Nat.pow 10 k) = some y ∧ y.negative = false ∧ y.magnitude = 10 ^ k := by
  have hodd : 5 ^ k < 2 ^ 53 :=
    (Nat.pow_le_pow_right (by decide) hk).trans_lt (by decide : 5 ^ 22 < 2 ^ 53)
  have hten : ((5 ^ k : Nat) * 2 ^ (k : Int) : ℚ) = 10 ^ k := by
    rw [zpow_natCast, Nat.cast_pow, ← mul_pow]
    norm_num
  have hvalue : ((Nat.pow 10 k : Nat) / (1 : Nat) : ℚ) = (5 ^ k : Nat) * 2 ^ (k : Int) := by
    rw [hten]
    simp
  have hrange : leastExponent ≤ (k : Int) ∧ (k : Int) ≤ greatestExponent := by
    rw [leastExponent, greatestExponent]
    omega
  have h := ofRatio_exact false (Nat.pow_pos (by decide)) hodd hrange.1 hrange.2
    Nat.one_pos hvalue
  rwa [hten] at h

theorem ofDecimal_ofNat (negative : Bool) (hn : 0 < n) (hk : k ≤ 22) :
    ofDecimal negative n (Int.ofNat k) = ofRatio negative (n * Nat.pow 10 k) 1 := by
  simp only [ofDecimal]
  rw [if_neg hn.ne', if_neg (by rw [Int.ofNat_eq_natCast]; omega),
    if_neg (by simp only [Int.ofNat_eq_natCast]; omega)]

theorem ofDecimal_negSucc (negative : Bool) (hn : 0 < n) (hk : k + 1 ≤ 22) :
    ofDecimal negative n (Int.negSucc k) = ofRatio negative n (Nat.pow 10 (k + 1)) := by
  simp only [ofDecimal]
  rw [if_neg hn.ne', if_neg (by omega), if_neg (by simp only [Int.ofNat_eq_natCast]; omega)]

theorem ofDecimal_negative (negative : Bool) (n : Nat) (e : Int) :
    ofDecimal negative n e =
      (ofDecimal false n e).map fun x => { x with negative := negative } := by
  simp only [ofDecimal]
  split
  · rfl
  split
  · rfl
  split
  · rfl
  · cases e with
    | ofNat k => exact ofRatio_negative negative _ _
    | negSucc k => exact ofRatio_negative negative _ _

end Binary64

namespace Json.Numeral

variable {n : Nat} {e : Int}

def Moderate (e : Int) : Prop := -22 ≤ e ∧ e ≤ 22

/-- A significand below 2 ^ 53 and a moderate power of ten make the number nearest to the
decimal. -/
theorem scale_eq (hn : n < 2 ^ 53) (hm : Moderate e) (steps : Nat) :
    (Binary64.ofNat n).bind (scale · e (steps + 1)) = Binary64.ofDecimal false n e := by
  obtain ⟨hlow, hhigh⟩ := hm
  rcases Nat.eq_zero_or_pos n with rfl | hpos
  · rfl
  obtain ⟨x, hx, hxneg, hxval⟩ := Binary64.ofNat_exact hpos hn
  have hzero : x.isZero = false :=
    Binary64.isZero_eq_false (hxval ▸ Nat.cast_ne_zero.mpr hpos.ne')
  simp only [hx, Option.bind_some, scale, hzero, Bool.false_eq_true, if_false]
  cases e with
  | ofNat k =>
    have hk : k ≤ 22 := by
      rw [Int.ofNat_eq_natCast] at hhigh
      omega
    obtain ⟨y, hy, hyneg, hyval⟩ := Binary64.ofNat_ten_pow hk
    have hvalue : ((n * Nat.pow 10 k : Nat) / (1 : Nat) : ℚ) = x.magnitude * y.magnitude := by
      rw [hxval, hyval]
      simp
    have hmul : x.mul y = Binary64.ofRatio false (n * Nat.pow 10 k) 1 := by
      rw [Binary64.mul_eq Nat.one_pos hvalue, hxneg, hyneg]
      rfl
    rw [Binary64.ofDecimal_ofNat false hpos hk, ← hmul]
    simp only [hy, if_pos (hk.trans (by decide : 22 ≤ 308)), Option.bind_some]
  | negSucc k =>
    have hk : k + 1 ≤ 22 := by omega
    obtain ⟨y, hy, hyneg, hyval⟩ := Binary64.ofNat_ten_pow hk
    have hyzero : y.magnitude ≠ 0 := hyval ▸ pow_ne_zero _ (by norm_num)
    have hpow : 0 < Nat.pow 10 (k + 1) := Nat.pow_pos (by decide)
    have hvalue : (n / (Nat.pow 10 (k + 1) : Nat) : ℚ) = x.magnitude / y.magnitude := by
      rw [hxval, hyval]
      simp
    have hdiv : x.div y = Binary64.ofRatio false n (Nat.pow 10 (k + 1)) := by
      rw [Binary64.div_eq hyzero hpow hvalue, hxneg, hyneg]
      rfl
    rw [Binary64.ofDecimal_negSucc false hpos hk, ← hdiv]
    simp only [hy, if_pos (hk.trans (by decide : 22 ≤ 308)), Option.bind_some]

/-- **One rounding.** A numeral of few digits and a moderate power of ten is the number nearest to its
decimal. -/
theorem real?_eq_ok_iff {neg : Bool} {x : Binary64} (hn : n < 2 ^ 53) (hm : Moderate e) :
    real? neg n e = .ok (.real x) ↔ Binary64.ofDecimal neg n e = some x := by
  rw [real?, scale_eq hn hm 3, Binary64.ofDecimal_negative neg]
  cases Binary64.ofDecimal false n e with
  | none => simp
  | some y => simp

end Json.Numeral

end Fixtures

import Fixtures.Proofs.Json.Real
import Fixtures.Proofs.Relaxed.Plain
import Fixtures.Proofs.Relaxed.Portable

/-!
# Real numbers as plain scalars

A decimal is split at its point and its exponent mark, a numeral is read one
character at a time. Both come to the same digits and the same power of ten
unless digits are dropped or the exponent is out of range, and a short decimal is
far from that.
-/

namespace Fixtures

open Json (Numeral)

/-! ## Decimals, one character at a time -/

namespace Relaxed.Scalar

variable {n m : Nat} {e e' : Int} {c : Char} {cs t : Text}

theorem digits?_nil : digits? 10 n [] = some n := rfl

theorem natural?_cons : natural? 10 (c :: cs) = digits? 10 0 (c :: cs) := rfl

theorem digits?_append (n : Nat) (cs t : Text) :
    digits? 10 n (cs ++ t) = (digits? 10 n cs).bind (digits? 10 · t) := by
  induction cs generalizing n with
  | nil => rfl
  | cons c cs ih =>
    simp only [List.cons_append, digits?]
    split
    · split
      · exact ih _
      · rfl
    · rfl

theorem le_digits? (h : digits? 10 n t = some m) : n ≤ m := by
  induction t generalizing n with
  | nil =>
    cases h
    exact Nat.le_refl _
  | cons c cs ih =>
    rw [digits?] at h
    split at h
    · split at h
      · have hle := ih h
        omega
      · cases h
    · cases h

/-- What the rest of a decimal is after its point: all its digits as one number, and its power of
ten. -/
def fractionFrom (n : Nat) (e : Int) : Text → Option (Nat × Int)
  | [] => some (n, e)
  | c :: cs =>
    match Numeral.digit? c with
    | some d => fractionFrom (10 * n + d) (e - 1) cs
    | none => (exponent? (c :: cs)).map fun p => (n, e + p)

def pointFrom (n : Nat) : Text → Option (Nat × Int)
  | '.' :: cs => fractionFrom n 0 cs
  | t => (exponent? t).map fun p => (n, p)

def wholeFrom (n : Nat) : Text → Option (Nat × Int)
  | [] => some (n, 0)
  | c :: cs =>
    match Numeral.digit? c with
    | some d => wholeFrom (10 * n + d) cs
    | none => pointFrom n (c :: cs)

theorem le_fractionFrom (h : fractionFrom n e t = some (m, e')) : n ≤ m := by
  induction t generalizing n e with
  | nil =>
    cases h
    exact Nat.le_refl _
  | cons c cs ih =>
    rw [fractionFrom] at h
    split at h
    · have hle := ih h
      omega
    · obtain ⟨p, -, hp⟩ := Option.map_eq_some_iff.mp h
      cases hp
      exact Nat.le_refl _

theorem le_pointFrom (h : pointFrom n t = some (m, e')) : n ≤ m := by
  unfold pointFrom at h
  split at h
  · exact le_fractionFrom h
  · obtain ⟨p, -, hp⟩ := Option.map_eq_some_iff.mp h
    cases hp
    exact Nat.le_refl _

theorem le_wholeFrom (h : wholeFrom n t = some (m, e')) : n ≤ m := by
  induction t generalizing n with
  | nil =>
    cases h
    exact Nat.le_refl _
  | cons c cs ih =>
    rw [wholeFrom] at h
    split at h
    · have hle := ih h
      omega
    · exact le_pointFrom h

theorem isDigit_eq_false (h : Numeral.digit? c = none) : c.isDigit = false := by
  unfold Numeral.digit? at h
  split at h
  · cases h
  · rename_i hc
    exact Bool.eq_false_iff.mpr hc

theorem fractionFrom_eq (n : Nat) (e : Int) (t : Text) :
    fractionFrom n e t =
      (digits? 10 n (t.takeWhile Char.isDigit)).bind fun m =>
        (exponent? (t.dropWhile Char.isDigit)).map fun p =>
          (m, e - Int.ofNat (t.takeWhile Char.isDigit).length + p) := by
  induction t generalizing n e with
  | nil => simp [fractionFrom, digits?, exponent?]
  | cons c cs ih =>
    rw [fractionFrom]
    split
    · rename_i d hd
      have hc := Numeral.isDigit_of_digit? hd
      rw [ih, List.takeWhile_cons_of_pos hc, List.dropWhile_cons_of_pos hc, Numeral.digits?_cons hd]
      simp only [List.length_cons, Int.ofNat_eq_natCast, Int.natCast_add, Int.cast_ofNat_Int,
        Int.sub_sub, Int.add_comm 1]
    · rename_i hd
      have hc := Bool.eq_false_iff.mp (isDigit_eq_false hd)
      rw [List.takeWhile_cons_of_neg hc, List.dropWhile_cons_of_neg hc, digits?_nil]
      simp

theorem wholeFrom_eq (n : Nat) (t : Text) :
    wholeFrom n t =
      (digits? 10 n (t.takeWhile Char.isDigit)).bind (pointFrom · (t.dropWhile Char.isDigit)) := by
  induction t generalizing n with
  | nil => rfl
  | cons c cs ih =>
    rw [wholeFrom]
    split
    · rename_i d hd
      have hc := Numeral.isDigit_of_digit? hd
      rw [ih, List.takeWhile_cons_of_pos hc, List.dropWhile_cons_of_pos hc, Numeral.digits?_cons hd]
    · rename_i hd
      have hc := Bool.eq_false_iff.mp (isDigit_eq_false hd)
      rw [List.takeWhile_cons_of_neg hc, List.dropWhile_cons_of_neg hc, digits?_nil]
      rfl

theorem decimal?_eq {negative : Bool} (hsign : sign t = (negative, c :: cs))
    (hc : c.isDigit = true) :
    decimal? t = (wholeFrom 0 (c :: cs)).map fun x => (negative, x.1, x.2) := by
  have hwhole : (c :: cs).takeWhile Char.isDigit = c :: cs.takeWhile Char.isDigit :=
    List.takeWhile_cons_of_pos hc
  rw [wholeFrom_eq]
  simp only [decimal?, hsign, hwhole, List.cons_append, natural?_cons]
  simp only [← List.cons_append, digits?_append]
  generalize (c :: cs).dropWhile Char.isDigit = rest
  cases digits? 10 0 (c :: cs.takeWhile Char.isDigit) with
  | none => rfl
  | some m =>
    simp only [Option.bind_some]
    by_cases hpoint : ∃ r, rest = '.' :: r
    · obtain ⟨r, rfl⟩ := hpoint
      simp only [pointFrom, fractionFrom_eq]
      cases digits? 10 m (r.takeWhile Char.isDigit) with
      | none => rfl
      | some q =>
        cases exponent? (r.dropWhile Char.isDigit) with
        | none => rfl
        | some p =>
          simp only [Option.bind_some, Option.map_some, Option.some.injEq, Prod.mk.injEq, true_and]
          omega
    · have hrest : ∀ r, rest ≠ '.' :: r := fun r hr => hpoint ⟨r, hr⟩
      simp only [pointFrom, digits?_nil]
      cases exponent? rest with
      | none => rfl
      | some p => simp

end Relaxed.Scalar

/-! ## Numerals as decimals -/

namespace Json.Numeral

open Relaxed.Scalar

variable {n n' : Numeral} {neg : Bool} {s m : Nat} {e e' : Int} {c : Char} {cs t : Text}
  {x : Number} {y : Binary64}

theorem after?_vanishing (h : (vanishing neg).after? t = some n') : n' = vanishing neg := by
  induction t with
  | nil =>
    cases h
    rfl
  | cons c cs ih =>
    obtain ⟨k, hk, hafter⟩ := after?_cons.mp h
    simp only [step] at hk
    split at hk
    · cases hk
      exact ih hafter
    · cases hk

theorem value_powerDigits (up : Bool) {p q : Nat}
    (h : (powerDigits neg s e up p).after? t = some n') (hx : n'.value = .ok x)
    (hq : digits? 10 p t = some q) (he : e ≤ 0) (hm : Moderate (if up then e + q else e - q)) :
    real? neg s (if up then e + q else e - q) = .ok x := by
  induction t generalizing p with
  | nil =>
    cases h
    cases hq
    exact hx
  | cons c cs ih =>
    obtain ⟨k, hk, hafter⟩ := after?_cons.mp h
    simp only [step] at hk
    split at hk
    · rename_i d hd
      rw [digits?_cons hd] at hq
      split at hk
      · cases hk
        exact ih hafter hq
      · rename_i hlarge
        have hle := le_digits? hq
        split at hk
        · cases hk
        · rename_i hzero
          cases hk
          rw [after?_vanishing hafter] at hx
          cases hx
          cases up with
          | false =>
            -- so far below the range that the exponent is not moderate
            have hpower : greatestPower = 2147483647 := rfl
            have hlow := hm.1
            simp only [Bool.false_eq_true, if_false] at hlow
            omega
          | true =>
            have hs : s = 0 := by simpa using hzero
            rw [hs]
            rfl
    · cases hk

theorem value_power (up : Bool) {q : Nat} (h : (power neg s e up).after? cs = some n')
    (hx : n'.value = .ok x) (hq : natural? 10 cs = some q) (he : e ≤ 0)
    (hm : Moderate (if up then e + q else e - q)) :
    real? neg s (if up then e + q else e - q) = .ok x := by
  cases cs with
  | nil => cases hq
  | cons c cs =>
    obtain ⟨k, hk, hafter⟩ := after?_cons.mp h
    simp only [step] at hk
    split at hk
    · rename_i d hd
      cases hk
      rw [natural?_cons, digits?_cons hd, Nat.mul_zero, Nat.zero_add] at hq
      exact value_powerDigits up hafter hx hq he hm
    · cases hk

theorem value_mark {p : Int} (h : (mark neg s e).after? cs = some n') (hx : n'.value = .ok x)
    (hp : exponent? (c :: cs) = some p) (he : e ≤ 0) (hm : Moderate (e + p)) :
    real? neg s (e + p) = .ok x := by
  simp only [exponent?] at hp
  split at hp
  · cases cs with
    | nil => cases hp
    | cons d ds =>
      obtain ⟨q, hq, rfl⟩ := Option.map_eq_some_iff.mp hp
      obtain ⟨k, hk, hafter⟩ := after?_cons.mp h
      simp only [step] at hk
      split at hk
      · rename_i hplus
        subst hplus
        cases hk
        exact value_power true hafter hx hq he hm
      · rename_i hplus
        split at hk
        · rename_i hminus
          subst hminus
          cases hk
          exact value_power false hafter hx hq he hm
        · rename_i hminus
          have hsign : Relaxed.Scalar.sign (d :: ds) = (false, d :: ds) := by
            simp [Relaxed.Scalar.sign, hplus, hminus]
          simp only [hsign] at hq hm ⊢
          split at hk
          · rename_i v hv
            cases hk
            rw [natural?_cons, digits?_cons hv, Nat.mul_zero, Nat.zero_add] at hq
            exact value_powerDigits true hafter hx hq he hm
          · cases hk
  · cases hp

theorem value_fraction (h : (fraction neg s e).after? t = some n') (hx : n'.value = .ok x)
    (hd : fractionFrom s e t = some (m, e')) (hlt : m < 2 ^ 53) (he : e ≤ 0) (hm : Moderate e') :
    real? neg m e' = .ok x := by
  induction t generalizing s e with
  | nil =>
    cases h
    cases hd
    exact hx
  | cons c cs ih =>
    obtain ⟨k, hk, hafter⟩ := after?_cons.mp h
    simp only [step] at hk
    rw [fractionFrom] at hd
    cases hdigit : digit? c with
    | some d =>
      simp only [hdigit] at hk hd
      have hfits : 10 * s + d ≤ greatestSignificand :=
        (le_fractionFrom hd).trans (hlt.le.trans (by decide))
      rw [if_pos hfits] at hk
      cases hk
      exact ih hafter hd (by omega)
    | none =>
      simp only [hdigit] at hk hd
      obtain ⟨p, hp, heq⟩ := Option.map_eq_some_iff.mp hd
      cases heq
      split at hk
      · cases hk
        exact value_mark hafter hx hp he hm
      · cases hk

theorem after?_point (h : (point neg s e).after? t = some n') (hx : n'.value = .ok x) :
    (fraction neg s e).after? t = some n' := by
  cases t with
  | nil =>
    cases h
    cases hx
  | cons c cs =>
    obtain ⟨k, hk, hafter⟩ := after?_cons.mp h
    refine after?_cons.mpr ⟨k, ?_, hafter⟩
    simp only [step] at hk ⊢
    cases hd : digit? c with
    | some d =>
      rw [hd] at hk
      exact hk
    | none =>
      rw [hd] at hk
      cases hk

theorem value_point (h : n.after? (c :: cs) = some n') (hx : n'.value = .ok x)
    (hn : ∀ k, n.step c = .ok (some k) →
      (c = '.' ∧ k = point neg s 0) ∨ (isMark c = true ∧ k = mark neg s 0))
    (hd : pointFrom s (c :: cs) = some (m, e')) (hlt : m < 2 ^ 53) (hm : Moderate e') :
    real? neg m e' = .ok x := by
  obtain ⟨k, hk, hafter⟩ := after?_cons.mp h
  rcases hn k hk with ⟨rfl, rfl⟩ | ⟨hmark, rfl⟩
  · exact value_fraction (after?_point hafter hx) hx hd hlt (Int.le_refl 0) hm
  · have hpoint : c ≠ '.' := by
      rintro rfl
      cases hmark
    have hd' : (exponent? (c :: cs)).map (fun p => (s, p)) = some (m, e') := by
      rw [← hd]
      simp [pointFrom, hpoint]
    obtain ⟨p, hp, heq⟩ := Option.map_eq_some_iff.mp hd'
    cases heq
    have hvalue := value_mark hafter hx hp (Int.le_refl 0) (by rwa [Int.zero_add])
    rwa [Int.zero_add] at hvalue

theorem real?_of_integer (h : integer neg s = .ok (.real y)) : real? neg s 0 = .ok (.real y) := by
  unfold integer at h
  split at h
  · cases h
  · rename_i hneg
    have htrue : neg = true := by simpa using hneg
    rw [htrue]
    split at h
    · exact h
    · cases h

theorem value_whole (h : (whole neg s).after? t = some n') (hx : n'.value = .ok (.real y))
    (hd : wholeFrom s t = some (m, e')) (hlt : m < 2 ^ 53) (hm : Moderate e') :
    real? neg m e' = .ok (.real y) := by
  induction t generalizing s with
  | nil =>
    cases h
    cases hd
    exact real?_of_integer hx
  | cons c cs ih =>
    rw [wholeFrom] at hd
    cases hdigit : digit? c with
    | some d =>
      obtain ⟨k, hk, hafter⟩ := after?_cons.mp h
      simp only [step, hdigit] at hk hd
      have hfits : 10 * s + d ≤ greatestSignificand :=
        (le_wholeFrom hd).trans (hlt.le.trans (by decide))
      rw [if_pos hfits] at hk
      cases hk
      exact ih hafter hd
    | none =>
      simp only [hdigit] at hd
      refine value_point h hx (fun k hk => ?_) hd hlt hm
      simp only [step, hdigit] at hk
      split at hk
      · rename_i hpoint
        cases hk
        exact .inl ⟨hpoint, rfl⟩
      · split at hk
        · rename_i hmark
          cases hk
          exact .inr ⟨hmark, rfl⟩
        · cases hk

theorem value_zero (h : (zero neg).after? t = some n') (hx : n'.value = .ok (.real y))
    (hd : wholeFrom 0 t = some (m, e')) (hlt : m < 2 ^ 53) (hm : Moderate e') :
    real? neg m e' = .ok (.real y) := by
  cases t with
  | nil =>
    cases h
    cases hd
    exact real?_of_integer hx
  | cons c cs =>
    obtain ⟨k, hk, -⟩ := after?_cons.mp h
    simp only [step] at hk
    split at hk
    · cases hk
    · rename_i hdigit
      have hnone : digit? c = none := if_neg hdigit
      simp only [wholeFrom, hnone] at hd
      refine value_point h hx (fun k hk => ?_) hd hlt hm
      simp only [step, if_neg hdigit] at hk
      split at hk
      · rename_i hpoint
        cases hk
        exact .inl ⟨hpoint, rfl⟩
      · split at hk
        · rename_i hmark
          cases hk
          exact .inr ⟨hmark, rfl⟩
        · cases hk

theorem value_digits {d : Nat} (hdigit : digit? c = some d)
    (h : (if c = '0' then zero neg else whole neg d).after? cs = some n')
    (hx : n'.value = .ok (.real y)) (hd : wholeFrom 0 (c :: cs) = some (m, e'))
    (hlt : m < 2 ^ 53) (hm : Moderate e') : real? neg m e' = .ok (.real y) := by
  simp only [wholeFrom, hdigit, Nat.mul_zero, Nat.zero_add] at hd
  split at h
  · rename_i hc
    subst hc
    cases hdigit
    exact value_zero h hx hd hlt hm
  · exact value_whole h hx hd hlt hm

end Json.Numeral

namespace Relaxed.Scalar

variable {t : Text} {c : Char} {cs : Text} {n : Nat} {e : Int} {negative : Bool} {x : Binary64}

theorem sign_digits (hc : c.isDigit = true) :
    sign (if negative then '-' :: c :: cs else c :: cs) = (negative, c :: cs) := by
  cases negative with
  | true => rfl
  | false =>
    have hminus : c ≠ '-' := Numeral.ne_of_isDigit hc rfl
    have hplus : c ≠ '+' := Numeral.ne_of_isDigit hc rfl
    simp [sign, hminus, hplus]

theorem hasLeadingZero_of_read? {y : Number} (h : Numeral.read? t = some y) :
    hasLeadingZero t = false := by
  obtain ⟨neg, c, cs, d, k, rfl, hdigit, hafter, hy⟩ := Numeral.exists_digits_of_read? h
  have hc := Numeral.isDigit_of_digit? hdigit
  by_cases hzero : c = '0'
  · subst hzero
    have hcs : (!cs.isEmpty && cs.all Char.isDigit) = false := by
      rw [if_pos rfl] at hafter
      cases cs with
      | nil => rfl
      | cons d ds =>
        obtain ⟨k, hk, -⟩ := Numeral.after?_cons.mp hafter
        simp only [Numeral.step] at hk
        split at hk
        · cases hk
        · rename_i hd
          simp [hd]
    cases neg with
    | true => exact hcs
    | false => exact hcs
  · cases neg with
    | true => simp [hasLeadingZero, hzero]
    | false =>
      have hminus : c ≠ '-' := Numeral.ne_of_isDigit hc rfl
      have hplus : c ≠ '+' := Numeral.ne_of_isDigit hc rfl
      simp [hasLeadingZero, hzero, hminus, hplus]

theorem real?_eq (hc : c.isDigit = true) (ht : t = if negative then '-' :: c :: cs else c :: cs)
    (hd : decimal? t = some (negative, n, e)) :
    real? t = (Binary64.ofDecimal negative n e).map .real := by
  have hplus : c ≠ '+' := Numeral.ne_of_isDigit hc rfl
  have hpoint : '.' ≠ c := (Numeral.ne_of_isDigit hc rfl).symm
  have hminus : c ≠ '-' := Numeral.ne_of_isDigit hc rfl
  subst ht
  cases negative with
  | true =>
    simp only [if_true] at hd ⊢
    simp [real?, hpoint, hd]
  | false =>
    simp only [Bool.false_eq_true, if_false] at hd ⊢
    simp [real?, hpoint, hplus, hminus.symm, hd]

/-- **Short numerals are the same in both notations.** -/
theorem ofPlain?_of_isShort (h : Numeral.read? t = some (.real x)) (hs : isShort t = true) :
    ofPlain? t = some (.real x) := by
  have hleading := hasLeadingZero_of_read? h
  obtain ⟨c', cs', hcons, hstarts, -⟩ := Numeral.starts_of_read? h
  obtain ⟨hnull, hbool⟩ := not_word hstarts
  rw [← hcons] at hnull hbool
  have hempty : t.isEmpty = false := by
    rw [hcons]
    rfl
  obtain ⟨neg, c, cs, d, k, ht, hdigit, hafter, hx⟩ := Numeral.exists_digits_of_read? h
  have hc := Numeral.isDigit_of_digit? hdigit
  have hsign : sign t = (neg, c :: cs) := by
    rw [ht]
    exact sign_digits hc
  have hdecimal := decimal?_eq hsign hc
  obtain ⟨hinteger, hs⟩ := Bool.and_eq_true_iff.mp hs
  cases hwhole : wholeFrom 0 (c :: cs) with
  | none =>
    rw [hdecimal, hwhole] at hs
    cases hs
  | some found =>
    rw [hwhole, Option.map_some] at hdecimal
    simp only [hdecimal, Bool.and_eq_true, decide_eq_true_eq] at hs
    obtain ⟨⟨hlt, hlow⟩, hhigh⟩ := hs
    have hvalue := Numeral.value_digits hdigit hafter hx hwhole hlt ⟨hlow, hhigh⟩
    have hround := (Numeral.real?_eq_ok_iff hlt ⟨hlow, hhigh⟩).mp hvalue
    simp only [ofPlain?, hempty, hnull, hbool, Option.isNone_iff_eq_none.mp hinteger, hleading,
      real?_eq hc ht hdecimal, hround]
    rfl

end Relaxed.Scalar

end Fixtures

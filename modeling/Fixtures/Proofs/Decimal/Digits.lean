import Fixtures.Decimal.Natural

/-!
# Digits of a natural number

The digits of a number are those of its tenth and one more, so what is said of
them is said by induction on the number.
-/

namespace Fixtures.Decimal

theorem digits_of_lt {n : Nat} (h : n < 10) : digits n = [Nat.digitChar n] :=
  Nat.toDigits_of_lt_base h

theorem digits_of_le {n : Nat} (h : 10 ≤ n) :
    digits n = digits (n / 10) ++ [Nat.digitChar (n % 10)] :=
  Nat.toDigits_of_base_le (by decide) h

theorem isDigit_digitChar {d : Nat} (h : d < 10) : (Nat.digitChar d).isDigit = true := by
  rw [Nat.isDigit_digitChar, decide_eq_true h]

theorem digitValue_digitChar {d : Nat} (h : d < 10) : digitValue (Nat.digitChar d) = d := by
  have h48 : '0'.toNat = 48 := rfl
  rw [digitValue, Nat.toNat_digitChar_of_lt_ten h, h48]
  omega

theorem isDigit_of_mem_digits {n : Nat} {c : Char} (h : c ∈ digits n) : c.isDigit = true := by
  induction n using Nat.strongRecOn with
  | ind n ih =>
    rcases Nat.lt_or_ge n 10 with hn | hn
    · rw [digits_of_lt hn] at h
      rw [List.mem_singleton.mp h]
      exact isDigit_digitChar hn
    · rw [digits_of_le hn, List.mem_append] at h
      rcases h with h | h
      · exact ih (n / 10) (by omega) h
      · rw [List.mem_singleton.mp h]
        exact isDigit_digitChar (Nat.mod_lt n (by decide))

theorem digits_ne_nil (n : Nat) : digits n ≠ [] := Nat.toDigits_ne_nil

theorem foldl_digits (n : Nat) : (digits n).foldl (fun n c => 10 * n + digitValue c) 0 = n := by
  induction n using Nat.strongRecOn with
  | ind n ih =>
    rcases Nat.lt_or_ge n 10 with hn | hn
    · rw [digits_of_lt hn, List.foldl_cons, List.foldl_nil, digitValue_digitChar hn]
      omega
    · have hmod : n % 10 < 10 := Nat.mod_lt n (by decide)
      rw [digits_of_le hn, List.foldl_append, ih (n / 10) (by omega), List.foldl_cons,
        List.foldl_nil, digitValue_digitChar hmod]
      omega

theorem nat?_digits (n : Nat) : nat? (digits n) = some n := by
  have hall : (digits n).all Char.isDigit = true :=
    List.all_eq_true.mpr fun c hc => isDigit_of_mem_digits hc
  have hne : (digits n).isEmpty = false := by
    cases h : digits n with
    | nil => exact absurd h (digits_ne_nil n)
    | cons c cs => rfl
  rw [nat?, hall, hne, foldl_digits]
  rfl

theorem unsigned64?_digits {n : Nat} (h : n < Nat.pow 2 64) : unsigned64? (digits n) = some n := by
  unfold unsigned64?
  extract_lets body
  have hbody : body = digits n := by
    unfold body
    split
    · rename_i rest hd
      have hplus : '+' ∈ digits n := by
        rw [hd]
        exact List.mem_cons_self
      have hdigit := isDigit_of_mem_digits hplus
      contradiction
    · rfl
  rw [hbody, nat?_digits]
  exact Option.filter_some_pos (decide_eq_true h)

end Fixtures.Decimal

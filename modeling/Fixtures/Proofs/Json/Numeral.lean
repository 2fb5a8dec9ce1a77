import Fixtures.Proofs.Json.WellFormed
import Fixtures.Proofs.Json.Written

/-!
# The text of a numeral

A numeral starts with a digit or a minus sign and goes on with few characters,
none of which may stand behind it.
-/

namespace Fixtures.Json.Numeral

variable {n n' : Numeral} {c : Char} {t : Text}

def isNumeric (c : Char) : Bool :=
  c.isDigit || c == '-' || c == '+' || c == '.' || c == 'e' || c == 'E'

theorem isNumeric_of_step (h : n.step c = .ok (some n')) : isNumeric c = true := by
  cases hc : isNumeric c with
  | true => rfl
  | false =>
    exfalso
    simp only [isNumeric, Bool.or_eq_false_iff, beq_eq_false_iff_ne] at hc
    obtain ⟨⟨⟨⟨⟨hdigit, hminus⟩, hplus⟩, hpoint⟩, he⟩, hE⟩ := hc
    have hnone : digit? c = none := if_neg (by rw [hdigit]; nofun)
    have hmark : isMark c = false := by
      rw [isMark, Bool.or_eq_false_iff, beq_eq_false_iff_ne, beq_eq_false_iff_ne]
      exact ⟨he, hE⟩
    have hzero : c ≠ '0' := by
      rintro rfl
      cases hdigit
    cases n <;> simp [step, hdigit, hnone, hmark, hpoint, hminus, hplus, hzero] at h

theorem after?_cons :
    n.after? (c :: t) = some n' ↔ ∃ k, n.step c = .ok (some k) ∧ k.after? t = some n' := by
  rw [after?]
  constructor
  · intro h
    split at h
    · rename_i k hk
      exact ⟨k, hk, h⟩
    · cases h
  · rintro ⟨k, hk, h⟩
    rw [hk]
    exact h

theorem isNumeric_of_after? (h : n.after? t = some n') : ∀ c ∈ t, isNumeric c = true := by
  induction t generalizing n with
  | nil => nofun
  | cons c cs ih =>
    obtain ⟨m, hm, hafter⟩ := after?_cons.mp h
    exact List.forall_mem_cons.mpr ⟨isNumeric_of_step hm, ih hafter⟩

theorem exists_of_read? {x : Number} (h : read? t = some x) :
    ∃ (c : Char) (cs : Text) (n n' : Numeral), t = c :: cs ∧ start? c = some n ∧
      n.after? cs = some n' ∧ n'.value = .ok x := by
  cases t with
  | nil => cases h
  | cons c cs =>
    simp only [read?, Option.bind_eq_some_iff] at h
    obtain ⟨n', ⟨n, hn, hafter⟩, hx⟩ := h
    refine ⟨c, cs, n, n', rfl, hn, hafter, ?_⟩
    cases hv : n'.value with
    | ok y =>
      rw [hv] at hx
      cases hx
      rfl
    | error e =>
      rw [hv] at hx
      cases hx

/-- A numeral starts with a digit, or with a minus sign before one. -/
def Starts (c : Char) (cs : Text) : Prop :=
  c.isDigit = true ∨ (c = '-' ∧ ∃ d ds, cs = d :: ds ∧ d.isDigit = true)

theorem isDigit_of_digit? {d : Nat} (h : digit? c = some d) : c.isDigit = true := by
  unfold digit? at h
  split at h
  · assumption
  · cases h

theorem ne_of_isDigit {d : Char} (hc : c.isDigit = true) (hd : d.isDigit = false) : c ≠ d := by
  rintro rfl
  exact Bool.noConfusion (hd.symm.trans hc)

theorem Starts.ne {d : Char} (h : Starts c t) (hd : d.isDigit = false) (hminus : d ≠ '-') :
    c ≠ d := by
  rcases h with h | ⟨rfl, -⟩
  · exact ne_of_isDigit h hd
  · exact hminus.symm

theorem exists_digits_of_read? {x : Number} (h : read? t = some x) :
    ∃ (neg : Bool) (c : Char) (cs : Text) (d : Nat) (n : Numeral),
      t = (if neg then '-' :: c :: cs else c :: cs) ∧ digit? c = some d ∧
        (if c = '0' then zero neg else whole neg d).after? cs = some n ∧ n.value = .ok x := by
  obtain ⟨c, cs, n, n', rfl, hn, hafter, hx⟩ := exists_of_read? h
  unfold start? at hn
  split at hn
  · rename_i hc
    subst hc
    cases hn
    cases cs with
    | nil =>
      cases hafter
      cases hx
    | cons c cs =>
      obtain ⟨k, hk, hafter⟩ := after?_cons.mp hafter
      simp only [step] at hk
      split at hk
      · rename_i hc
        subst hc
        cases hk
        exact ⟨true, '0', cs, 0, n', rfl, rfl, hafter, hx⟩
      · rename_i hc
        split at hk
        · rename_i d hd
          cases hk
          exact ⟨true, c, cs, d, n', rfl, hd, by rwa [if_neg hc], hx⟩
        · cases hk
  split at hn
  · rename_i hc
    subst hc
    cases hn
    exact ⟨false, '0', cs, 0, n', rfl, rfl, hafter, hx⟩
  · rename_i hc
    obtain ⟨d, hd, rfl⟩ := Option.map_eq_some_iff.mp hn
    exact ⟨false, c, cs, d, n', rfl, hd, by rwa [if_neg hc], hx⟩

theorem starts_of_read? {x : Number} (h : read? t = some x) :
    ∃ c cs, t = c :: cs ∧ Starts c cs ∧ ∀ d ∈ t, isNumeric d = true := by
  obtain ⟨neg, c, cs, d, n, rfl, hd, hafter, -⟩ := exists_digits_of_read? h
  have hc := isDigit_of_digit? hd
  have hnumeric : isNumeric c = true := by
    rw [isNumeric, hc]
    rfl
  have hcs : ∀ e ∈ c :: cs, isNumeric e = true :=
    List.forall_mem_cons.mpr ⟨hnumeric, isNumeric_of_after? hafter⟩
  cases neg with
  | true =>
    exact ⟨'-', c :: cs, rfl, .inr ⟨rfl, c, cs, rfl, hc⟩, List.forall_mem_cons.mpr ⟨rfl, hcs⟩⟩
  | false => exact ⟨c, cs, rfl, .inl hc, hcs⟩

def isEnd (c : Char) : Bool := Reader.isSpace c || c == ',' || c == ']' || c == '}'

theorem step_of_isEnd {x : Number} (hn : n.value = .ok x) (hc : isEnd c = true) :
    n.step c = .ok none := by
  simp only [isEnd, Reader.isSpace, Bool.or_eq_true, beq_iff_eq] at hc
  rcases hc with ((((((rfl | rfl) | rfl) | rfl) | rfl) | rfl) | rfl)
  all_goals
    cases n with
    | sign => cases hn
    | point => cases hn
    | mark => cases hn
    | power => cases hn
    | _ => rfl

end Fixtures.Json.Numeral

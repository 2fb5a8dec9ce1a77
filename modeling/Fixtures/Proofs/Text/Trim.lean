import Fixtures.Text.Blank

/-!
# Trimming

White space around a text that has none at its ends is what trimming takes away.
-/

namespace Fixtures.Text

variable {a b t u : Text} {c : Char}

theorem isBlank_of_isDigit (h : c.isDigit = true) : isBlank c = false := by
  have hrange : 48 ≤ c.toNat ∧ c.toNat ≤ 57 := by
    simpa [Char.isDigit, UInt32.le_iff_toNat_le] using h
  simp only [isBlank, blanks, List.any_cons, List.any_nil, Bool.or_false, Bool.or_eq_false_iff,
    Bool.and_eq_false_iff, decide_eq_false_iff_not]
  omega

/-- A text with no white space at either end. -/
structure Tight (t : Text) : Prop where
  first : ∀ c, t.head? = some c → isBlank c = false
  last : ∀ c, t.getLast? = some c → isBlank c = false

theorem tight_nil : Tight [] := ⟨nofun, nofun⟩

theorem tight_of_forall (h : ∀ c ∈ t, isBlank c = false) : Tight t :=
  ⟨fun c hc => h c (List.mem_of_head? hc), fun c hc => h c (List.mem_of_getLast? hc)⟩

theorem tight_of_all (h : t.all (fun c => !isBlank c) = true) : Tight t := by
  apply tight_of_forall
  intro c hc
  exact (Bool.not_eq_true' _).mp (List.all_eq_true.mp h c hc)

theorem Tight.append (ht : Tight t) (hu : Tight u) : Tight (t ++ u) := by
  constructor
  · intro c hc
    rw [List.head?_append, Option.or_eq_some_iff] at hc
    rcases hc with hc | ⟨-, hc⟩
    · exact ht.first c hc
    · exact hu.first c hc
  · intro c hc
    rw [List.getLast?_append, Option.or_eq_some_iff] at hc
    rcases hc with hc | ⟨-, hc⟩
    · exact hu.last c hc
    · exact ht.last c hc

theorem Tight.cons (hc : isBlank c = false) (ht : Tight t) : Tight (c :: t) := by
  have hone : Tight [c] := tight_of_forall fun e he => by rwa [List.mem_singleton.mp he]
  exact hone.append ht

theorem tight_between {d : Char} (hc : isBlank c = false) (hd : isBlank d = false) (t : Text) :
    Tight (c :: (t ++ [d])) := by
  constructor
  · intro e he
    cases he
    exact hc
  · intro e he
    rw [← List.cons_append, List.getLast?_concat] at he
    cases he
    exact hd

theorem trimStart_append (ha : ∀ c ∈ a, isBlank c = true) (t : Text) :
    trimStart (a ++ t) = trimStart t :=
  List.dropWhile_append_of_pos ha

theorem trimStart_eq_self (h : ∀ c, t.head? = some c → isBlank c = false) : trimStart t = t := by
  cases t with
  | nil => rfl
  | cons c t => exact List.dropWhile_cons_of_neg (by rw [h c rfl]; exact Bool.false_ne_true)

theorem trimEnd_append (hb : ∀ c ∈ b, isBlank c = true) (t : Text) :
    trimEnd (t ++ b) = trimEnd t := by
  have h := trimStart_append (fun c hc => hb c (List.mem_reverse.mp hc)) t.reverse
  rw [← List.reverse_append] at h
  exact congrArg List.reverse h

theorem trimEnd_eq_self (h : ∀ c, t.getLast? = some c → isBlank c = false) : trimEnd t = t := by
  have hrev : trimStart t.reverse = t.reverse :=
    trimStart_eq_self (fun c hc => h c (by rwa [List.head?_reverse] at hc))
  exact (congrArg List.reverse hrev).trans t.reverse_reverse

theorem trim_surrounded (ha : ∀ c ∈ a, isBlank c = true) (hb : ∀ c ∈ b, isBlank c = true)
    (ht : Tight t) : trim (a ++ t ++ b) = t := by
  rw [trim, List.append_assoc, trimStart_append ha]
  cases t with
  | nil =>
    have h := trimStart_append hb []
    rw [List.append_nil] at h
    rw [List.nil_append, h]
    rfl
  | cons c t =>
    have hstart : trimStart (c :: t ++ b) = c :: t ++ b := trimStart_eq_self ht.first
    rw [hstart, trimEnd_append hb, trimEnd_eq_self ht.last]

theorem Tight.trim_eq (ht : Tight t) : trim t = t := by
  have h := trim_surrounded (fun _ h => nomatch h) (fun _ h => nomatch h) ht (a := []) (b := [])
  rwa [List.nil_append, List.append_nil] at h

theorem exists_blank_suffix (t : Text) :
    ∃ u b, t = u ++ b ∧ (∀ c ∈ b, isBlank c = true) ∧ ∀ c, u.getLast? = some c → isBlank c = false := by
  induction t with
  | nil => exact ⟨[], [], rfl, nofun, nofun⟩
  | cons c t ih =>
    obtain ⟨u, b, rfl, hb, hu⟩ := ih
    cases u with
    | cons d u =>
      refine ⟨c :: d :: u, b, rfl, hb, ?_⟩
      rwa [List.getLast?_cons_cons]
    | nil =>
      cases hc : isBlank c with
      | true => exact ⟨[], c :: b, rfl, List.forall_mem_cons.mpr ⟨hc, hb⟩, nofun⟩
      | false => exact ⟨[c], b, rfl, hb, fun e he => by cases he; exact hc⟩

end Fixtures.Text

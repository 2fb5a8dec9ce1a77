import Fixtures.Json.Reader
import Fixtures.Path.Lookup
import Fixtures.Proofs.Table.Sorted

/-!
# Values that a reader leaves

What has been read so far, in open containers and in the state of the machine,
is well-formed after every character, so a value that has been read is
well-formed: the fields of its objects are in order and its integers fit into 64
bits.
-/

namespace Fixtures

namespace Table

variable {α : Type} {k : Text} {v : α} {t : Table α}

theorem mem_of_get? (h : get? k t = some v) : (k, v) ∈ t := by
  induction t with
  | nil => cases h
  | cons e rest ih =>
    obtain ⟨j, w⟩ := e
    rw [get?_cons] at h
    split at h
    · rename_i hk
      subst hk
      cases h
      exact List.mem_cons_self
    · exact List.mem_cons_of_mem _ (ih h)

end Table

theorem Number.inRange_iff {n : Int} :
    inRange n = true ↔ -9223372036854775808 ≤ n ∧ n < 18446744073709551616 := by
  have h63 : Int.pow 2 63 = 9223372036854775808 := rfl
  have h64 : Int.pow 2 64 = 18446744073709551616 := rfl
  rw [inRange, Bool.and_eq_true, decide_eq_true_eq, decide_eq_true_eq, h63, h64]

namespace Json

theorem wellFormedItems_iff {items : List Json} :
    WellFormedItems items ↔ ∀ v ∈ items, v.WellFormed := by
  induction items with
  | nil => exact ⟨fun _ => nofun, fun _ => trivial⟩
  | cons v rest ih => rw [WellFormedItems, ih, List.forall_mem_cons]

theorem wellFormedFields_iff {fields : List (Text × Json)} :
    WellFormedFields fields ↔ ∀ e ∈ fields, e.2.WellFormed := by
  induction fields with
  | nil => exact ⟨fun _ => nofun, fun _ => trivial⟩
  | cons e rest ih => rw [WellFormedFields, ih, List.forall_mem_cons]

theorem wellFormed_arr {items : List Json} :
    (arr items).WellFormed ↔ ∀ v ∈ items, v.WellFormed := by
  rw [WellFormed, wellFormedItems_iff]

theorem wellFormed_obj {fields : List (Text × Json)} :
    (obj fields).WellFormed ↔ Table.Sorted fields ∧ ∀ e ∈ fields, e.2.WellFormed := by
  rw [WellFormed, wellFormedFields_iff]

theorem wellFormed_obj_insert {fields : List (Text × Json)} {v : Json} (k : Text)
    (h : (obj fields).WellFormed) (hv : v.WellFormed) :
    (obj (Table.insert k v fields)).WellFormed := by
  rw [wellFormed_obj] at h ⊢
  refine ⟨Table.sorted_insert h.1 k v, ?_⟩
  intro e he
  rcases Table.mem_of_mem_insert he with rfl | he
  · exact hv
  · exact h.2 e he

theorem WellFormed.segment {s : Segment} {v w : Json} (h : v.WellFormed)
    (hs : s.get? v = some w) : w.WellFormed := by
  cases s with
  | field k =>
    cases v with
    | obj t => exact (wellFormed_obj.mp h).2 _ (Table.mem_of_get? hs)
    | _ => cases hs
  | index i =>
    cases v with
    | arr l => exact wellFormed_arr.mp h w (List.mem_of_getElem? hs)
    | _ => cases hs

theorem WellFormed.get? {p : List Segment} {v w : Json} (h : v.WellFormed)
    (hp : v.get? p = some w) : w.WellFormed := by
  induction p generalizing v with
  | nil => cases hp; exact h
  | cons s p ih =>
    simp only [Json.get?, Option.bind_eq_some_iff] at hp
    obtain ⟨u, hu, hp⟩ := hp
    exact ih (h.segment hu) hp

/-! ## Numerals -/

namespace Numeral

def Fits : Numeral → Prop
  | whole _ s => s ≤ greatestSignificand
  | _ => True

theorem digit?_le {c : Char} {d : Nat} (h : digit? c = some d) : d ≤ 9 := by
  unfold digit? at h
  split at h
  · rename_i hc
    cases h
    simp only [Char.isDigit, Bool.and_eq_true, decide_eq_true_eq] at hc
    have hle : c.toNat ≤ 57 := hc.2
    have h48 : '0'.toNat = 48 := rfl
    unfold Decimal.digitValue
    omega
  · cases h

theorem fits_digit {neg : Bool} {c : Char} {d : Nat} (h : digit? c = some d) :
    (whole neg d).Fits := by
  have hd := digit?_le h
  have hg : 9 ≤ greatestSignificand := by decide
  exact Nat.le_trans hd hg

theorem fits_start? {c : Char} {n : Numeral} (h : start? c = some n) : n.Fits := by
  unfold start? at h
  split at h
  · cases h; trivial
  split at h
  · cases h; trivial
  · simp only [Option.map_eq_some_iff] at h
    obtain ⟨d, hd, rfl⟩ := h
    exact fits_digit hd

theorem fits_step {n n' : Numeral} {c : Char} (h : n.step c = .ok (some n')) : n'.Fits := by
  cases n' with
  | whole neg s =>
    cases n with
    | sign =>
      simp only [step] at h
      split at h
      · cases h
      split at h
      · rename_i hd; cases h; exact fits_digit hd
      · cases h
    | whole neg' s' =>
      simp only [step] at h
      split at h
      · split at h
        · rename_i hs; cases h; exact hs
        · cases h
      split at h
      · cases h
      split at h
      · cases h
      · cases h
    | _ =>
      simp only [step] at h
      repeat' split at h
      all_goals cases h
  | _ => trivial

theorem real?_eq {neg : Bool} {s : Nat} {e : Int} {x : Number} (h : real? neg s e = .ok x) :
    ∃ y, x = .real y := by
  unfold real? at h
  split at h
  · cases h; exact ⟨_, rfl⟩
  · cases h

theorem wellFormed_integer {neg : Bool} {s : Nat} {x : Number} (hs : s ≤ greatestSignificand)
    (h : integer neg s = .ok x) : (num x).WellFormed := by
  have hg : greatestSignificand = 18446744073709551615 := rfl
  unfold integer at h
  split at h
  · cases h
    rw [WellFormed, Number.inRange_iff]
    omega
  split at h
  · obtain ⟨y, rfl⟩ := real?_eq h
    trivial
  · rename_i hlow
    cases h
    have h63 : Nat.pow 2 63 = 9223372036854775808 := rfl
    rw [Bool.or_eq_true, not_or, decide_eq_true_eq, decide_eq_true_eq, h63] at hlow
    rw [WellFormed, Number.inRange_iff]
    omega

theorem wellFormed_value {n : Numeral} {x : Number} (hn : n.Fits) (h : n.value = .ok x) :
    (num x).WellFormed := by
  cases n with
  | sign => cases h
  | zero neg => exact wellFormed_integer (Nat.zero_le _) h
  | whole neg s => exact wellFormed_integer hn h
  | point => cases h
  | mark => cases h
  | power => cases h
  | vanishing neg => cases h; trivial
  | _ =>
    obtain ⟨y, rfl⟩ := real?_eq h
    trivial

end Numeral

/-! ## The machine -/

def Frame.WellFormed : Frame → Prop
  | .array items => ∀ v ∈ items, v.WellFormed
  | .object fields _ => (obj fields).WellFormed

def State.WellFormed : State → Prop
  | .done v => v.WellFormed
  | .word _ v => v.WellFormed
  | .numeral n => n.Fits
  | _ => True

namespace Reader

structure WellFormed (r : Reader) : Prop where
  frames : ∀ f ∈ r.frames, f.WellFormed
  state : r.state.WellFormed

variable {r r' : Reader} {c : Char} {v : Json}

theorem wellFormed_start : start.WellFormed := ⟨nofun, trivial⟩

theorem WellFormed.goTo (h : r.WellFormed) {s : State} (hs : s.WellFormed) :
    (r.goTo s).WellFormed :=
  ⟨h.frames, hs⟩

theorem WellFormed.deliver (h : r.WellFormed) (hv : v.WellFormed) :
    (deliver .plain r v).WellFormed := by
  obtain ⟨frames, state, passing⟩ := r
  obtain ⟨hf, -⟩ := h
  cases frames with
  | nil => exact ⟨hf, hv⟩
  | cons f rest =>
    obtain ⟨hf, hrest⟩ := List.forall_mem_cons.mp hf
    cases f with
    | array items =>
      have hitems : Frame.WellFormed (.array (v :: items)) := List.forall_mem_cons.mpr ⟨hv, hf⟩
      exact ⟨List.forall_mem_cons.mpr ⟨hitems, hrest⟩, trivial⟩
    | object fields key =>
      have hfields : Frame.WellFormed (.object (Table.insert key v fields) key) :=
        wellFormed_obj_insert key hf hv
      exact ⟨List.forall_mem_cons.mpr ⟨hfields, hrest⟩, trivial⟩

theorem WellFormed.openFrame (h : r.WellFormed) {f : Frame} {s : State} (hf : f.WellFormed)
    (hs : s.WellFormed) (ho : r.openFrame f s = .ok r') : r'.WellFormed := by
  unfold Reader.openFrame at ho
  split at ho
  · cases ho
    exact ⟨List.forall_mem_cons.mpr ⟨hf, h.frames⟩, hs⟩
  · cases ho

theorem WellFormed.begin (h : r.WellFormed) (hb : r.begin c = .ok r') : r'.WellFormed := by
  unfold Reader.begin at hb
  split at hb
  · cases hb; exact h.goTo trivial
  · have hf : Frame.WellFormed (.array []) := nofun
    exact h.openFrame hf (s := .firstItem) trivial hb
  · have hf : Frame.WellFormed (.object [] []) := ⟨Table.sorted_nil, trivial⟩
    exact h.openFrame hf (s := .firstKey) trivial hb
  · cases hb; exact h.goTo trivial
  · cases hb; exact h.goTo trivial
  · cases hb; exact h.goTo trivial
  · split at hb
    · rename_i hn
      cases hb
      exact h.goTo (Numeral.fits_start? hn)
    · cases hb

theorem settle_plain (r : Reader) : r.settle .plain = r := by
  unfold settle Policy.plain
  rw [Bool.and_false, if_neg Bool.false_ne_true]

theorem WellFormed.close (h : r.WellFormed) : (r.close .plain).WellFormed := by
  obtain ⟨frames, state, passing⟩ := r
  obtain ⟨hf, hs⟩ := h
  cases frames with
  | nil => exact ⟨hf, hs⟩
  | cons f rest =>
    obtain ⟨hf, hrest⟩ := List.forall_mem_cons.mp hf
    cases f with
    | array items =>
      have hitems : (arr items.reverse).WellFormed := by
        rw [wellFormed_arr]
        intro v hv
        exact hf v (List.mem_reverse.mp hv)
      have hr : WellFormed ⟨rest, state, passing⟩ := ⟨hrest, hs⟩
      exact hr.deliver hitems
    | object fields key =>
      have hr : WellFormed ⟨rest, state, passing⟩ := ⟨hrest, hs⟩
      exact hr.deliver hf

theorem WellFormed.follow (h : r.WellFormed) (hf : r.follow .plain c = .ok r') :
    r'.WellFormed := by
  unfold Reader.follow at hf
  split at hf
  · cases hf; exact h
  split at hf
  · cases hf
  · split at hf
    · cases hf; exact h.goTo trivial
    split at hf
    · cases hf; exact h.close
    · cases hf
  · split at hf
    · cases hf; exact h.goTo trivial
    split at hf
    · cases hf; exact h.close
    · cases hf

theorem WellFormed.endString (h : r.WellFormed) (isKey : Bool) (seen : Text) :
    (r.endString .plain isKey seen).WellFormed := by
  unfold Reader.endString
  split
  · rename_i fields key rest hr
    have hf := h.frames
    rw [hr, List.forall_mem_cons] at hf
    exact ⟨List.forall_mem_cons.mpr hf, trivial⟩
  · exact h.deliver trivial

theorem WellFormed.inNumeral (h : r.WellFormed) {n : Numeral} (hn : n.Fits)
    (hi : r.inNumeral .plain n c = .ok r') : r'.WellFormed := by
  unfold Reader.inNumeral at hi
  split at hi
  · rename_i hs
    cases hi
    exact h.goTo (Numeral.fits_step hs)
  · split at hi
    · rename_i hv
      exact (h.deliver (Numeral.wellFormed_value hn hv)).follow hi
    split at hi
    · exact (h.deliver (v := .null) trivial).follow hi
    · cases hi
  · split at hi
    · cases hi; exact h.goTo trivial
    · cases hi

theorem WellFormed.beginKey (h : r.WellFormed) (hb : r.beginKey c = .ok r') :
    r'.WellFormed := by
  unfold Reader.beginKey at hb
  split at hb
  · cases hb; exact h.goTo trivial
  · cases hb

theorem WellFormed.step (h : r.WellFormed) (hs : r.step .plain c = .ok r') : r'.WellFormed := by
  have hstate := h.state
  unfold Reader.step at hs
  split at hs <;> rename_i hr <;> rw [hr] at hstate
  · -- a value
    split at hs
    · cases hs; exact h
    · rw [settle_plain] at hs
      exact h.begin hs
  · -- the first item
    split at hs
    · cases hs; exact h
    split at hs
    · cases hs; exact h.close
    · exact h.begin hs
  · -- another item
    split at hs
    · cases hs; exact h
    split at hs
    · cases hs
    · exact h.begin hs
  · -- the first name
    split at hs
    · cases hs; exact h
    split at hs
    · cases hs; exact h.close
    · exact h.beginKey hs
  · -- another name
    split at hs
    · cases hs; exact h
    split at hs
    · cases hs
    · exact h.beginKey hs
  · -- the colon
    split at hs
    · cases hs; exact h
    split at hs
    · cases hs; exact h.goTo trivial
    · cases hs
  · exact h.follow hs
  · exact h.follow hs
  · cases hs
  · -- the rest of a word
    split at hs
    · cases hs
      split
      · exact h.deliver hstate
      · exact h.goTo hstate
    · cases hs
  · exact h.inNumeral hstate hs
  · -- inside a string
    split at hs
    · cases hs; exact h.endString _ _
    split at hs
    · cases hs
    · cases hs; exact h.goTo trivial

theorem wellFormed_of_finish (h : r.WellFormed) (hf : r.finish = .ok v) : v.WellFormed := by
  have hstate := h.state
  unfold Reader.finish at hf
  split at hf <;> rename_i hr <;> rw [hr] at hstate
  case h_1 => cases hf; exact hstate
  case h_11 =>
    split at hf
    · cases hf
    rename_i hv
    split at hf
    · cases hf; exact Numeral.wellFormed_value hstate hv
    · cases hf
    · cases hf
  case h_10 =>
    split at hf
    · cases hf
    · cases hf
  all_goals cases hf

theorem wellFormed_of_run {t : Text} (h : r.WellFormed) (hr : run .plain r t = .ok v) :
    v.WellFormed := by
  induction t generalizing r with
  | nil =>
    rw [run] at hr
    split at hr
    · rename_i hf
      cases hr
      exact wellFormed_of_finish h hf
    · cases hr
  | cons c t ih =>
    rw [run] at hr
    split at hr
    · cases hr
    rename_i hs
    split at hr
    · rename_i hrest
      cases hr
      exact ih (h.step hs) hrest
    · cases hr

end Reader

theorem wellFormed_of_parse {t : Text} {v : Json} (h : parse t = .ok v) : v.WellFormed := by
  unfold parse Reader.read at h
  split at h
  · rename_i hr
    cases h
    exact Reader.wellFormed_of_run Reader.wellFormed_start hr
  · cases h

end Json

end Fixtures

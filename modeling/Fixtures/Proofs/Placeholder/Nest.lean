import Mathlib.Order.WellFounded
import Fixtures.Proofs.Placeholder.Marker
import Fixtures.Proofs.Placeholder.Rounds

/-!
# Nested placeholders

A placeholder may stand in the interior of another one if its domain is served
earlier. It is then replaced earlier, and as long as nothing brings a brace, the
text of a resolution is at any time that of a tree whose innermost placeholders
are evaluated in part (`Nest.Fills`). When a domain is served, no placeholder of
an earlier one is left, so the interiors of its placeholders are plain and end at
their own closing braces.
-/

namespace Fixtures

def Domain.rank (d : Domain) : Nat := all.idxOf d

theorem Domain.onward_sorted (d : Domain) : d.onward.Pairwise fun c e => c.rank < e.rank := by
  cases d <;> decide

theorem Domain.mem_onward {d e : Domain} (h : d.rank ≤ e.rank) : e ∈ d.onward := by
  cases d <;> cases e <;> revert h <;> decide

/-- A sequence of literals and of placeholders, whose interiors are sequences. -/
inductive Nest
  | nil
  | lit (t : Text) (rest : Nest)
  | hole (d : Domain) (inner rest : Nest)

def Text.Unbraced (inside : Bool) (t : Text) : Prop := '{' ∉ t ∧ (inside = true → '}' ∉ t)

instance (inside : Bool) (t : Text) : Decidable (t.Unbraced inside) :=
  inferInstanceAs (Decidable (_ ∧ _))

namespace Nest

def text : Nest → Text
  | nil => []
  | lit t rest => t ++ rest.text
  | hole d inner rest => d.marker ++ (inner.text ++ '}' :: rest.text)

def size : Nest → Nat
  | nil => 0
  | lit _ rest => rest.size
  | hole _ inner rest => inner.size + rest.size + 1

/-- The text with every placeholder evaluated, innermost first. -/
def eval (s : Sources) : Nest → Except ResolutionError Text
  | nil => .ok []
  | lit t rest => (rest.eval s).map (t ++ ·)
  | hole d inner rest =>
    match (inner.eval s).bind (s.value d) with
    | .error e => .error e
    | .ok v => (rest.eval s).map (v ++ ·)

/-- All placeholders are of domains before the `k`-th, and those in an interior
of domains before that of the interior. -/
def Layered : (k : Nat) → Nest → Prop
  | _, nil => True
  | k, lit _ rest => rest.Layered k
  | k, hole d inner rest => d.rank < k ∧ inner.Layered d.rank ∧ rest.Layered k

/-- No literal and no value of a placeholder brings a brace. -/
def Unbraced (s : Sources) : (inside : Bool) → Nest → Prop
  | _, nil => True
  | inside, lit t rest => t.Unbraced inside ∧ rest.Unbraced s inside
  | inside, hole d inner rest =>
    inner.Unbraced s true ∧ rest.Unbraced s inside ∧
      ∀ i v, inner.eval s = .ok i → s.value d i = .ok v → v.Unbraced inside

def Holds (d : Domain) : Nest → Prop
  | nil => False
  | lit _ rest => rest.Holds d
  | hole e inner rest => e = d ∨ inner.Holds d ∨ rest.Holds d

/-- The first placeholder of a domain, whose interior is plain, gives way to its
value. -/
inductive Fills (s : Sources) (d : Domain) : Nest → Nest → Prop
  | here {inner rest : Nest} {v : Text} : inner.size = 0 → s.value d inner.text = .ok v →
      Fills s d (hole d inner rest) (lit v rest)
  | lit {t : Text} {rest rest' : Nest} : Fills s d rest rest' → Fills s d (lit t rest) (lit t rest')
  | inner {e : Domain} {inner inner' rest : Nest} : e ≠ d → Fills s d inner inner' →
      Fills s d (hole e inner rest) (hole e inner' rest)
  | rest {e : Domain} {inner rest rest' : Nest} : e ≠ d → ¬ inner.Holds d → Fills s d rest rest' →
      Fills s d (hole e inner rest) (hole e inner rest')

variable {s : Sources} {d e : Domain} {k : Nat} {inside : Bool} {n n' : Nest} {u : Text}

/-! ## Sequences without placeholders -/

theorem eval_of_size (h : n.size = 0) : n.eval s = .ok n.text := by
  induction n with
  | nil => rfl
  | lit t rest ih => rw [eval, ih h]; rfl
  | hole => cases h

theorem unbraced_text (h : n.size = 0) (hu : n.Unbraced s inside) : n.text.Unbraced inside := by
  induction n with
  | nil => exact ⟨List.not_mem_nil, fun _ => List.not_mem_nil⟩
  | lit t rest ih =>
    obtain ⟨ht, hr⟩ := hu
    obtain ⟨hro, hrc⟩ := ih h hr
    simp only [Text.Unbraced, text, List.mem_append, not_or]
    exact ⟨⟨ht.1, hro⟩, fun hi => ⟨ht.2 hi, hrc hi⟩⟩
  | hole => cases h

theorem not_holds_of_size (h : n.size = 0) (d : Domain) : ¬ n.Holds d := by
  induction n with
  | nil => exact id
  | lit t rest ih => exact ih h
  | hole => cases h

theorem exists_holds (h : n.size ≠ 0) : ∃ d, n.Holds d := by
  induction n with
  | nil => exact absurd rfl h
  | lit t rest ih => exact ih h
  | hole d inner rest => exact ⟨d, .inl rfl⟩

theorem skips_text (h : ¬ n.Holds d) (hu : n.Unbraced s inside) : d.Skips n.text := by
  induction n generalizing inside with
  | nil => exact d.skips_nil
  | lit t rest ih => exact (Domain.skips_of_no_brace hu.1.1).append (ih h hu.2)
  | hole e inner rest ihi ihr =>
    simp only [Holds, not_or] at h
    have hrest := d.skips_close.append (ihr h.2.2 hu.2.1)
    exact (Domain.skips_marker h.1).append ((ihi h.2.1 hu.1).append hrest)

/-! ## One placeholder gives way -/

namespace Fills

theorem size (h : Fills s d n n') : n.size = n'.size + 1 := by
  induction h with
  | here hi _ => simp only [Nest.size, hi]; omega
  | lit _ ih => exact ih
  | inner _ _ ih => simp only [Nest.size, ih]; omega
  | rest _ _ _ ih => simp only [Nest.size, ih]; omega

theorem eval (h : Fills s d n n') : n.eval s = n'.eval s := by
  induction h with
  | here hi hv =>
    have hb : (Except.ok _ : Except ResolutionError Text).bind (s.value d) = .ok _ := hv
    simp only [Nest.eval, eval_of_size hi, hb]
  | lit _ ih => simp only [Nest.eval, ih]
  | inner _ _ ih => simp only [Nest.eval, ih]
  | rest _ _ _ ih => simp only [Nest.eval, ih]

theorem holds (h : Fills s d n n') (he : n'.Holds e) : n.Holds e := by
  induction h with
  | here _ _ => exact .inr (.inr he)
  | lit _ ih => exact ih he
  | inner _ _ ih => exact he.imp_right (.imp_left ih)
  | rest _ _ _ ih => exact he.imp_right (.imp_right ih)

theorem layered (h : Fills s d n n') (hl : n.Layered k) : n'.Layered k := by
  induction h generalizing k with
  | here _ _ => exact hl.2.2
  | lit _ ih => exact ih hl
  | inner _ _ ih => exact ⟨hl.1, ih hl.2.1, hl.2.2⟩
  | rest _ _ _ ih => exact ⟨hl.1, hl.2.1, ih hl.2.2⟩

theorem unbraced (h : Fills s d n n') (hu : n.Unbraced s inside) : n'.Unbraced s inside := by
  induction h generalizing inside with
  | here hi hv => exact ⟨hu.2.2 _ _ (eval_of_size hi) hv, hu.2.1⟩
  | lit _ ih => exact ⟨hu.1, ih hu.2⟩
  | inner _ hf ih => exact ⟨ih hu.1, hu.2.1, fun i v hi => hu.2.2 i v (hf.eval.trans hi)⟩
  | rest _ _ _ ih => exact ⟨hu.1, ih hu.2.1, hu.2.2⟩

theorem text (h : Fills s d n n') (hu : n.Unbraced s inside) :
    ∃ a i b v, n.text = a ++ (d.marker ++ (i ++ '}' :: b)) ∧ d.Skips a ∧ '}' ∉ i ∧
      s.value d i = .ok v ∧ n'.text = a ++ (v ++ b) := by
  induction h generalizing inside with
  | @here inner rest v hi hv =>
    exact ⟨[], inner.text, rest.text, v, rfl, d.skips_nil, (unbraced_text hi hu.1).2 rfl, hv, rfl⟩
  | @lit t _ _ _ ih =>
    obtain ⟨a, i, b, v, ht, ha, hi, hv, ht'⟩ := ih hu.2
    refine ⟨t ++ a, i, b, v, ?_, (Domain.skips_of_no_brace hu.1.1).append ha, hi, hv, ?_⟩
    · rw [Nest.text, ht, List.append_assoc]
    · rw [Nest.text, ht', List.append_assoc]
  | @inner e _ _ rest he _ ih =>
    obtain ⟨a, i, b, v, ht, ha, hi, hv, ht'⟩ := ih hu.1
    refine ⟨e.marker ++ a, i, b ++ '}' :: rest.text, v, ?_,
      (Domain.skips_marker he).append ha, hi, hv, ?_⟩
    · rw [Nest.text, ht]; simp
    · rw [Nest.text, ht']; simp
  | @rest e inner _ _ he hno _ ih =>
    obtain ⟨a, i, b, v, ht, ha, hi, hv, ht'⟩ := ih hu.2.1
    refine ⟨e.marker ++ (inner.text ++ (['}'] ++ a)), i, b, v, ?_, ?_, hi, hv, ?_⟩
    · rw [Nest.text, ht]; simp
    · exact (Domain.skips_marker he).append ((skips_text hno hu.1).append (d.skips_close.append ha))
    · rw [Nest.text, ht']; simp

end Fills

theorem rank_lt_of_holds (hl : n.Layered k) (hd : n.Holds d) : d.rank < k := by
  induction n generalizing k with
  | nil => exact hd.elim
  | lit t rest ih => exact ih hl hd
  | hole e inner rest ihi ihr =>
    obtain ⟨hek, hli, hlr⟩ := hl
    rcases hd with rfl | hd | hd
    · exact hek
    · exact Nat.lt_trans (ihi hli hd) hek
    · exact ihr hlr hd

theorem eval_hole {inner rest : Nest} (he : (hole e inner rest).eval s = .ok u) :
    ∃ i v w, inner.eval s = .ok i ∧ s.value e i = .ok v ∧ rest.eval s = .ok w := by
  simp only [eval] at he
  cases hi : inner.eval s with
  | error _ => rw [hi] at he; cases he
  | ok i =>
    cases hv : s.value e i with
    | error _ => simp only [hi, Except.bind, hv] at he; cases he
    | ok v =>
      cases hw : rest.eval s with
      | error _ => simp only [hi, Except.bind, hv, hw] at he; cases he
      | ok w => exact ⟨i, v, w, rfl, hv, rfl⟩

theorem exists_fills (hl : n.Layered k) (he : n.eval s = .ok u)
    (hmin : ∀ e, n.Holds e → d.rank ≤ e.rank) (hd : n.Holds d) : ∃ n', Fills s d n n' := by
  induction n generalizing k u with
  | nil => exact hd.elim
  | lit t rest ih =>
    cases hr : rest.eval s with
    | error _ => rw [eval, hr] at he; cases he
    | ok w =>
      obtain ⟨rest', hf⟩ := ih hl hr hmin hd
      exact ⟨_, hf.lit⟩
  | hole e inner rest ihi ihr =>
    obtain ⟨hek, hli, hlr⟩ := hl
    obtain ⟨i, v, w, hi, hv, hw⟩ := eval_hole he
    by_cases hed : e = d
    · subst hed
      -- what the interior holds would be of an earlier domain
      have hz : inner.size = 0 := by
        by_contra hne
        obtain ⟨c, hc⟩ := exists_holds hne
        have hlt := rank_lt_of_holds hli hc
        have hle := hmin c (.inr (.inl hc))
        omega
      rw [eval_of_size hz] at hi
      cases hi
      exact ⟨_, .here hz hv⟩
    · by_cases hdi : inner.Holds d
      · obtain ⟨inner', hf⟩ := ihi hli hi (fun c hc => hmin c (.inr (.inl hc))) hdi
        exact ⟨_, hf.inner hed⟩
      · have hdr : rest.Holds d := (hd.resolve_left hed).resolve_left hdi
        obtain ⟨rest', hf⟩ := ihr hlr hw (fun c hc => hmin c (.inr (.inr hc))) hdr
        exact ⟨_, hf.rest hed hdi⟩

/-! ## The whole tree -/

theorem next?_of_size (h : n.size = 0) (hu : n.Unbraced s inside) (ds : List Domain) :
    Occurrence.next? n.text ds = .ok none := by
  refine Occurrence.next?_eq_none.mpr fun d _ => ?_
  rw [Text.has, (skips_text (not_holds_of_size h d) hu).cut?_eq_none]
  rfl

theorem Fills.next? (h : Fills s d n n') (hu : n.Unbraced s inside)
    (hmin : ∀ e, n.Holds e → d.rank ≤ e.rank) {ds : List Domain}
    (hds : ds.Pairwise fun c e => c.rank < e.rank) (hd : d ∈ ds) (ds' : List Domain) :
    ∃ a i b v, Occurrence.next? n.text (ds ++ ds') =
        (Placeholder.ofInterior d i).map (fun p => some ⟨a, p, b⟩) ∧
      s.value d i = .ok v ∧ n'.text = a ++ (v ++ b) := by
  induction ds with
  | nil => cases hd
  | cons c ds ih =>
    rw [List.pairwise_cons] at hds
    rw [List.cons_append, Occurrence.next?]
    by_cases hcd : c = d
    · subst hcd
      obtain ⟨a, i, b, v, ht, ha, hi, hv, ht'⟩ := h.text hu
      refine ⟨a, i, b, v, ?_, hv, ht'⟩
      rw [ht, Occurrence.first?_of_skips ha hi]
      cases Placeholder.ofInterior c i <;> rfl
    · have hmem : d ∈ ds := (List.mem_cons.mp hd).resolve_left (Ne.symm hcd)
      have hlt := hds.1 d hmem
      have hc : ¬ n.Holds c := fun hc => by
        have hle := hmin c hc
        omega
      rw [Occurrence.first?_eq_none_of_skips (skips_text hc hu)]
      exact ih hds.2 hmem

theorem exists_earliest (h : n.size ≠ 0) : ∃ d, n.Holds d ∧ ∀ e, n.Holds e → d.rank ≤ e.rank := by
  have hwf : WellFounded (InvImage (· < ·) Domain.rank) := InvImage.wf _ Nat.lt_wfRel.wf
  obtain ⟨d, hd, hmin⟩ := hwf.has_min {d | n.Holds d} (exists_holds h)
  exact ⟨d, hd, fun e he => Nat.le_of_not_lt (hmin e he)⟩

theorem serve_of_size (limit : Nat) (h : n.size = 0) (hu : n.Unbraced s inside) (d : Domain)
    (left : Nat) : s.serve limit d left n.text = .ok n.text := by
  rw [s.serve_eq, next?_of_size h hu]

theorem serve_nest (limit : Nat) {left : Nat} (hl : n.Layered k) (hu : n.Unbraced s false)
    (he : n.eval s = .ok u) (hn : n.size ≤ left) (hd : ∀ e, n.Holds e → d.rank ≤ e.rank) :
    (s.serve limit d left n.text).result = .ok u := by
  induction left generalizing n d with
  | zero =>
    have hz : n.size = 0 := by omega
    rw [serve_of_size limit hz hu, ← he, eval_of_size hz]
    rfl
  | succ left ih =>
    by_cases hz : n.size = 0
    · rw [serve_of_size limit hz hu, ← he, eval_of_size hz]
      rfl
    · obtain ⟨c, hc, hmin⟩ := exists_earliest hz
      obtain ⟨n', hf⟩ := exists_fills hl he hmin hc
      obtain ⟨a, i, b, v, hnext, hv, ht⟩ :=
        hf.next? hu hmin d.onward_sorted (Domain.mem_onward (hd c hc)) Domain.all
      rw [s.result_serve limit hnext hv]
      simp only
      rw [← ht]
      have hsize := hf.size
      exact ih (hf.layered hl) (hf.unbraced hu) (hf.eval ▸ he) (by omega) fun e hh =>
        hmin e (hf.holds hh)

/-- **Nested placeholders are evaluated innermost first**, if each of them finds
its value and the limit allows for all of them. -/
theorem resolve_nest (s : Sources) (limit : Nat) (n : Nest) (u : Text)
    (hl : n.Layered Domain.all.length) (hu : n.Unbraced s false) (he : n.eval s = .ok u)
    (hn : n.size ≤ limit) : (s.resolve limit n.text).result = .ok u := by
  rw [s.resolve_eq_serve]
  exact serve_nest limit hl hu he hn fun e _ => Nat.zero_le e.rank

def layers : Sources where
  property n := if n = ['a'] then some ['e'] else none
  stored k := if k = ['t', 'e'] then some ['t', 'h'] else none
  addresses i := if i = ['e', 't', 'h'] then some [.v4 1 2 3 4] else none

def holeOfA (rest : Nest) : Nest := hole .property (lit ['a'] nil) rest

def layered : Nest :=
  lit ['['] (hole .code (lit ['I', 'P', '.'] (holeOfA (hole .stored (lit ['t'] (holeOfA nil)) nil)))
    (lit [']'] nil))

theorem resolve_layered :
    (layers.resolve 4 layered.text).result = .ok ['[', '1', '.', '2', '.', '3', '.', '4', ']'] := by
  have ha {rest : Nest} (hr : rest.Unbraced layers true) : (holeOfA rest).Unbraced layers true := by
    refine ⟨⟨by decide, trivial⟩, hr, ?_⟩
    rintro i v ⟨⟩ ⟨⟩
    decide
  have hkey : (hole .stored (lit ['t'] (holeOfA nil)) nil).Unbraced layers true := by
    refine ⟨⟨by decide, ha trivial⟩, trivial, ?_⟩
    rintro i v ⟨⟩ ⟨⟩
    decide
  refine resolve_nest layers 4 layered _ ?_ ?_ rfl (by decide)
  · simp only [layered, holeOfA, Layered]
    decide
  · refine ⟨by decide, ⟨⟨by decide, ha hkey⟩, ⟨by decide, trivial⟩, ?_⟩⟩
    rintro i v ⟨⟩ ⟨⟩
    decide

end Nest

end Fixtures

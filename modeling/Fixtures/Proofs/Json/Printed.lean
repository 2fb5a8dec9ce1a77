import Fixtures.Proofs.Json.Record
import Fixtures.Proofs.Table.Sorted
import Mathlib.Data.List.Perm.Basic

/-!
# Printed text as a way to write

A value is printed in one of the ways to write it: without blanks, with the short escapes, and
a record with all of its fields, in the order of their names.
-/

namespace Fixtures.Json

/-! ## Strings and numbers -/

theorem exists_piece (c : Char) : ∃ q : Piece, q.value = c ∧ q.text = escape c := by
  unfold escape
  split
  · exact ⟨.escape '"' '"' rfl, rfl, rfl⟩
  · exact ⟨.escape '\\' '\\' rfl, rfl, rfl⟩
  · exact ⟨.escape 'b' '\x08' rfl, rfl, rfl⟩
  · exact ⟨.escape 't' '\t' rfl, rfl, rfl⟩
  · exact ⟨.escape 'n' '\n' rfl, rfl, rfl⟩
  · exact ⟨.escape 'f' '\x0c' rfl, rfl, rfl⟩
  · exact ⟨.escape 'r' '\r' rfl, rfl, rfl⟩
  rename_i hquote hslash _ _ _ _ _
  split
  · rename_i hc
    let digit (d : Nat) (hd : d < 16) : HexDigit := ⟨hexDigit d, d, Reader.hexValue?_hexDigit d hd⟩
    let n : Code := ⟨digit 0 (by decide), digit 0 (by decide), digit (c.toNat / 16) (by omega),
      digit (c.toNat % 16) (by omega)⟩
    have hn : n.value = c.toNat := by
      show 16 * (16 * (16 * 0 + 0) + c.toNat / 16) + c.toNat % 16 = c.toNat
      omega
    refine ⟨.code n ?_ ?_, ?_, rfl⟩
    · simp only [hn, Reader.isLeading, Bool.and_eq_false_iff, decide_eq_false_iff_not]
      omega
    · simp only [hn, Reader.isTrailing, Bool.and_eq_false_iff, decide_eq_false_iff_not]
      omega
    · rw [Piece.value, hn, Char.ofNat_toNat]
  · rename_i hc
    refine ⟨.char c ?_, rfl, rfl⟩
    simp only [isRaw, Bool.and_eq_true, bne_iff_ne, decide_eq_true_eq]
    exact ⟨⟨hquote, hslash⟩, Nat.le_of_not_lt hc⟩

theorem exists_pieces (t : Text) : ∃ ps, stringOf ps = t ∧ bodyOf ps = t.flatMap escape := by
  induction t with
  | nil => exact ⟨[], rfl, rfl⟩
  | cons c t ih =>
    obtain ⟨q, hvalue, htext⟩ := exists_piece c
    obtain ⟨ps, hvalues, htexts⟩ := ih
    refine ⟨q :: ps, ?_, ?_⟩
    · rw [stringOf_cons, hvalue, hvalues]
    · rw [bodyOf_cons, htext, htexts, List.flatMap_cons]

namespace Written

theorem exists_string (t : Text) : ∃ w, IsString t w ∧ w.text = (Json.str t).render := by
  obtain ⟨ps, hvalue, htext⟩ := exists_pieces t
  refine ⟨.string ps, ?_, ?_⟩
  · rw [IsString, value, hvalue]
  · rw [text, htext, render, quote]

theorem blanks_eq_nil {g : Blanks} (h : ∀ c ∈ g.text, c.isDigit = true) : g.text = [] := by
  refine List.eq_nil_iff_forall_not_mem.mpr fun c hc => ?_
  have hspace := g.blank c hc
  have hdigit := h c hc
  simp only [Reader.isSpace, Bool.or_eq_true, beq_iff_eq] at hspace
  rcases hspace with ((rfl | rfl) | rfl) | rfl <;> exact absurd hdigit (by decide)

theorem exists_nat {n : Nat} (hn : n < Nat.pow 2 64) :
    ∃ w, IsNat n w ∧ w.text = (nat n).render := by
  have hparse : parse (nat n).render = .ok (nat n) := by
    refine parse_render ?_ rfl (Nat.zero_le _)
    have h64 : Nat.pow 2 64 = 18446744073709551616 := rfl
    rw [nat, WellFormed, Number.inRange_iff]
    omega
  obtain ⟨⟨before, root, after, _⟩, htext, hvalue⟩ := exists_written_of_parse hparse
  refine ⟨root, hvalue, ?_⟩
  have hdigits : before.text ++ (root.text ++ after.text) = Decimal.digits n := htext
  have hbefore : before.text = [] := blanks_eq_nil fun c hc =>
    Decimal.isDigit_of_mem_digits (hdigits ▸ List.mem_append_left _ hc)
  have hafter : after.text = [] := blanks_eq_nil fun c hc =>
    Decimal.isDigit_of_mem_digits (hdigits ▸ List.mem_append_right _ (List.mem_append_right _ hc))
  rw [hbefore, hafter, List.append_nil, List.nil_append] at hdigits
  exact hdigits

/-! ## Arrays and objects -/

variable {α : Type} {f : α → Json} {P : α → Written → Prop}

theorem exists_nullable {o : Option α} (h : ∀ a ∈ o, ∃ w, P a w ∧ w.text = (f a).render) :
    ∃ w, IsNullable P o w ∧ w.text = (orNull f o).render := by
  cases o with
  | none => exact ⟨.null, rfl, rfl⟩
  | some a => exact h a rfl

def noBlanks : Blanks := ⟨[], by simp⟩

theorem exists_items {v : Json} {w : Written} {vs : List Json} {ws : List Written}
    (hw : w.text = v.render) (h : List.Forall₂ (fun v w => Written.text w = v.render) vs ws) :
    ∃ items : WrittenItems, items.toList = w :: ws ∧
      items.text ++ [']'] = v.render ++ renderItems vs := by
  induction h generalizing v w with
  | nil =>
    refine ⟨.last noBlanks w noBlanks, rfl, ?_⟩
    simp [WrittenItems.text, noBlanks, hw, renderItems]
  | @cons v' w' vs ws hw' _ ih =>
    obtain ⟨items, hitems, htext⟩ := ih hw'
    refine ⟨.cons noBlanks w noBlanks items, by rw [WrittenItems.toList, hitems], ?_⟩
    simp [WrittenItems.text, noBlanks, hw, renderItems, htext]

theorem exists_array {vs : List Json} {ws : List Written}
    (h : List.Forall₂ (fun v w => Written.text w = v.render) vs ws) :
    ∃ w, items? w = some ws ∧ w.text = (Json.arr vs).render := by
  cases h with
  | nil => exact ⟨.emptyArray noBlanks, rfl, rfl⟩
  | cons hw h =>
    obtain ⟨items, hitems, htext⟩ := exists_items hw h
    refine ⟨.array items, by rw [items?, hitems], ?_⟩
    rw [text, htext, render]

theorem exists_list {as : List α} (h : ∀ a ∈ as, ∃ w, P a w ∧ w.text = (f a).render) :
    ∃ w, IsList P as w ∧ w.text = (Json.arr (as.map f)).render := by
  have hall : ∃ ws, List.Forall₂ P as ws ∧
      List.Forall₂ (fun v w => Written.text w = v.render) (as.map f) ws := by
    induction as with
    | nil => exact ⟨[], .nil, .nil⟩
    | cons a as ih =>
      obtain ⟨w, hw, htext⟩ := h a List.mem_cons_self
      obtain ⟨ws, hws, htexts⟩ := ih fun a ha => h a (List.mem_cons_of_mem _ ha)
      exact ⟨w :: ws, .cons hw hws, .cons htext htexts⟩
  obtain ⟨ws, hws, htexts⟩ := hall
  obtain ⟨w, hw, htext⟩ := exists_array htexts
  exact ⟨w, ⟨ws, hw, hws⟩, htext⟩

def PrintsField (v : Text × Json) (e : Text × Written) : Prop :=
  e.1 = v.1 ∧ e.2.text = v.2.render

theorem exists_name (k : Text) (t : Text) : ∃ name : WrittenName,
    stringOf name.name = k ∧ name.text ++ t = quote k ++ ':' :: t := by
  obtain ⟨ps, hvalue, htext⟩ := exists_pieces k
  refine ⟨⟨noBlanks, ps, noBlanks, noBlanks⟩, hvalue, ?_⟩
  simp [WrittenName.text, noBlanks, htext, quote]

theorem exists_fields {v : Text × Json} {e : Text × Written} {vs : List (Text × Json)}
    {es : List (Text × Written)} (he : PrintsField v e) (h : List.Forall₂ PrintsField vs es) :
    ∃ fields : WrittenFields, fields.toList = e :: es ∧
      fields.text ++ ['}'] = quote v.1 ++ ':' :: (v.2.render ++ renderFields vs) := by
  induction h generalizing v e with
  | nil =>
    obtain ⟨name, hname, htext⟩ := exists_name v.1 (v.2.render ++ ['}'])
    refine ⟨.last name e.2 noBlanks, ?_, ?_⟩
    · rw [WrittenFields.toList, hname, ← he.1]
    · simp [WrittenFields.text, noBlanks, he.2, renderFields, htext]
  | @cons v' e' vs es he' _ ih =>
    obtain ⟨fields, hfields, hrest⟩ := ih he'
    obtain ⟨name, hname, htext⟩ := exists_name v.1 (v.2.render ++ renderFields (v' :: vs))
    refine ⟨.cons name e.2 noBlanks fields, ?_, ?_⟩
    · rw [WrittenFields.toList, hname, ← he.1, hfields]
    · rw [← htext]
      simp [WrittenFields.text, noBlanks, he.2, renderFields, hrest]

theorem exists_object {vs : List (Text × Json)} {es : List (Text × Written)}
    (h : List.Forall₂ PrintsField vs es) :
    ∃ w, entries? w = some es ∧ w.text = (Json.obj vs).render := by
  cases h with
  | nil => exact ⟨.emptyObject noBlanks, rfl, rfl⟩
  | cons he h =>
    obtain ⟨fields, hfields, htext⟩ := exists_fields he h
    refine ⟨.object fields, by rw [entries?, hfields], ?_⟩
    rw [text, htext, render]

theorem exists_record (fields : List (String × Json × Written))
    (h : ∀ e ∈ fields, e.2.2.text = e.2.1.render) (hnames : (fields.map (·.1)).Nodup) :
    ∃ w, IsRecord (fields.map fun e => (e.1, some e.2.2)) w ∧
      w.text = (Json.obj (Table.ofList (fields.map fun e => (e.1.toList, e.2.1)))).render := by
  have hkeys : ((fields.map fun e => (e.1.toList, e.2.1)).map (·.1)).Nodup := by
    simp only [List.Nodup, List.pairwise_map] at hnames ⊢
    exact hnames.imp fun hne h => hne (String.toList_inj.mp h)
  have hpresent : present (fields.map fun e => (e.1, some e.2.2)) =
      fields.map fun e => (e.1.toList, e.2.2) := by
    rw [present, List.filterMap_map]
    exact congrFun List.filterMap_eq_map fields
  have hfields : List.Forall₂ PrintsField (fields.map fun e => (e.1.toList, e.2.1))
      (fields.map fun e => (e.1.toList, e.2.2)) := by
    rw [List.forall₂_map_left_iff, List.forall₂_map_right_iff, List.forall₂_same]
    exact fun e he => ⟨rfl, h e he⟩
  obtain ⟨es, hes, hknown⟩ := List.perm_comp_forall₂ (Table.perm_ofList hkeys) hfields
  obtain ⟨w, hw, htext⟩ := exists_object hes
  have hnone : ∀ e ∈ ([] : List (Text × Written)),
      ∀ f ∈ fields.map (fun e => (e.1, some e.2.2)), e.1 ≠ f.1.toList := by simp
  refine ⟨w, .object [] hw ?_ hnone, htext⟩
  rw [List.append_nil, hpresent]
  exact hknown

end Written

end Fixtures.Json

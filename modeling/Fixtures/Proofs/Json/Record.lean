import Fixtures.Proofs.Json.Exact
import Mathlib.Data.List.Forall2

/-!
# Records as they are written

A record is written as an object that holds its known fields among others, in any order, or
as an array of the known values without the last few. What is read at its shape has each of
the known values, read at its own shape; whatever the unknown fields hold makes no difference.
-/

namespace Fixtures.Json

/-! ## Items and fields -/

def WrittenItems.toList : WrittenItems → List Written
  | .last _ v _ => [v]
  | .cons _ v _ rest => v :: rest.toList

def WrittenFields.toList : WrittenFields → List (Text × Written)
  | .last k v _ => [(stringOf k.name, v)]
  | .cons k v _ rest => (stringOf k.name, v) :: rest.toList

namespace Written

def items? : Written → Option (List Written)
  | .emptyArray _ => some []
  | .array items => some items.toList
  | _ => none

def entries? : Written → Option (List (Text × Written))
  | .emptyObject _ => some []
  | .object fields => some fields.toList
  | _ => none

/-- A value as it is read where all the fields of an object are kept. -/
def readIn (known : Option Shape) (w : Written) : Json :=
  w.readAs (fun k v fields => fields ++ [(k, v)]) known

end Written

theorem mapM_of_forall₂ {α β : Type} {f : α → Option β} {as : List α} {bs : List β}
    (h : List.Forall₂ (fun a b => f a = some b) as bs) : as.mapM f = some bs := by
  induction h with
  | nil => rfl
  | cons hab _ ih => rw [List.mapM_cons, hab, ih]; rfl

theorem mapIdx_map_some {α β : Type} (f : Nat → α → β) (l : List α) :
    (l.map some).mapIdx (fun i o => o.map (f i)) = (l.mapIdx f).map some := by
  refine List.ext_getElem? fun i => ?_
  simp only [List.getElem?_mapIdx, List.getElem?_map, Option.map_map]
  rfl

theorem mapIdx_replicate_none {α β : Type} (f : Nat → α → β) (n : Nat) :
    (List.replicate n none).mapIdx (fun i o => o.map (f i)) = List.replicate n none := by
  refine List.ext_getElem? fun i => ?_
  rw [List.getElem?_mapIdx, List.getElem?_replicate, List.getElem?_replicate]
  split
  · rfl
  · rfl

variable {sh : Shape} {d : Nat} {w : Written}

theorem WrittenItems.readAs_eq : ∀ (n : Nat) (items : WrittenItems),
    items.readAs (fun k v fields => fields ++ [(k, v)]) (some sh) n =
      items.toList.mapIdx fun i v => v.readIn (some (sh.item (n + i)))
  | n, .last _ v _ => rfl
  | n, .cons _ v _ rest => by
    have hindex (i : Nat) : n + 1 + i = n + (i + 1) := by omega
    rw [readAs, toList, List.mapIdx_cons, rest.readAs_eq]
    simp only [hindex]
    rfl

theorem WrittenFields.readAs_eq : ∀ (before : List (Text × Json)) (fields : WrittenFields),
    fields.readAs (fun k v fields => fields ++ [(k, v)]) (some sh) before =
      before ++ fields.toList.map fun e => (e.1, e.2.readIn (sh.field? e.1))
  | before, .last k v _ => by
    rw [readAs, Option.isSome_some, stringAs_true]
    rfl
  | before, .cons k v _ rest => by
    rw [readAs, Option.isSome_some, stringAs_true, rest.readAs_eq, List.append_assoc]
    rfl

theorem WrittenItems.depthIn_le : ∀ (items : WrittenItems) (n : Nat),
    (∀ (i : Nat) (v : Written), items.toList[i]? = some v → v.depthIn (sh.item (n + i)) ≤ d) →
      items.depthIn sh n ≤ d
  | .last _ v _, n, h => h 0 v rfl
  | .cons _ v _ rest, n, h => by
    refine Nat.max_le.mpr ⟨h 0 v rfl, rest.depthIn_le (n + 1) ?_⟩
    intro i u hu
    have hnext := h (i + 1) u hu
    rwa [show n + (i + 1) = n + 1 + i by omega] at hnext

theorem WrittenFields.depthIn_le : ∀ fields : WrittenFields,
    (∀ e ∈ fields.toList, ∀ s, sh.field? e.1 = some s → e.2.depthIn s ≤ d) →
      fields.depthIn sh ≤ d
  | .last k v _, h => by
    have hfirst := h _ List.mem_cons_self
    unfold depthIn
    cases hs : sh.field? (stringOf k.name) with
    | none => exact Nat.zero_le d
    | some s => exact hfirst s hs
  | .cons k v _ rest, h => by
    have hfirst := h _ List.mem_cons_self
    have hrest := rest.depthIn_le fun e he => h e (List.mem_cons_of_mem _ he)
    unfold depthIn
    cases hs : sh.field? (stringOf k.name) with
    | none => exact Nat.max_le.mpr ⟨Nat.zero_le d, hrest⟩
    | some s => exact Nat.max_le.mpr ⟨hfirst s hs, hrest⟩

namespace Written

theorem readIn_of_items {vs : List Written} (h : w.items? = some vs) :
    w.readIn (some sh) = .arr (vs.mapIdx fun i v => v.readIn (some (sh.item i))) := by
  cases w with
  | emptyArray inside =>
    cases h
    rfl
  | array items =>
    cases h
    rw [readIn, readAs, items.readAs_eq]
    simp only [Nat.zero_add]
  | _ => cases h

theorem depthIn_of_items {vs : List Written} (h : w.items? = some vs)
    (hd : ∀ (i : Nat) (v : Written), vs[i]? = some v → v.depthIn (sh.item i) ≤ d) :
    w.depthIn sh ≤ d + 1 := by
  cases w with
  | emptyArray inside => exact Nat.le_add_left 1 d
  | array items =>
    cases h
    refine Nat.succ_le_succ (items.depthIn_le 0 ?_)
    intro i v hv
    rw [Nat.zero_add]
    exact hd i v hv
  | _ => cases h

theorem readIn_of_entries {es : List (Text × Written)} (h : w.entries? = some es) :
    w.readIn (some sh) = .obj (es.map fun e => (e.1, e.2.readIn (sh.field? e.1))) := by
  cases w with
  | emptyObject inside =>
    cases h
    rfl
  | object fields =>
    cases h
    rw [readIn, readAs, fields.readAs_eq, List.nil_append]
  | _ => cases h

theorem depthIn_of_entries {es : List (Text × Written)} (h : w.entries? = some es)
    (hd : ∀ e ∈ es, ∀ s, sh.field? e.1 = some s → e.2.depthIn s ≤ d) : w.depthIn sh ≤ d + 1 := by
  cases w with
  | emptyObject inside => exact Nat.le_add_left 1 d
  | object fields =>
    cases h
    exact Nat.succ_le_succ (fields.depthIn_le hd)
  | _ => cases h

end Written

/-! ## Records -/

def present (known : List (String × Option Written)) : List (Text × Written) :=
  known.filterMap fun e => e.2.map (e.1.toList, ·)

/-- A record whose known fields are written so, of which some are left out. -/
inductive Written.IsRecord (known : List (String × Option Written)) (w : Written) : Prop
  | object {entries : List (Text × Written)} (unknown : List (Text × Written))
      (hw : w.entries? = some entries)
      (hperm : entries.Perm (present known ++ unknown))
      (hunknown : ∀ e ∈ unknown, ∀ f ∈ known, e.1 ≠ f.1.toList)
  | array {items : List Written} (missing : Nat) (hw : w.items? = some items)
      (hknown : known.map (·.2) = items.map some ++ List.replicate missing none)

section
variable {known : List (String × Option Written)} {e : String × Option Written}
  {entries unknown : List (Text × Written)}

theorem mem_present {x : Text × Written} :
    x ∈ present known ↔ ∃ f ∈ known, f.2 = some x.2 ∧ f.1.toList = x.1 := by
  simp only [present, List.mem_filterMap, Option.map_eq_some_iff]
  constructor
  · rintro ⟨f, hf, v, hv, rfl⟩
    exact ⟨f, hf, hv, rfl⟩
  · rintro ⟨f, hf, hv, hk⟩
    exact ⟨f, hf, x.2, hv, by rw [hk]⟩

theorem filter_present (hnames : (known.map (·.1)).Nodup) (he : e ∈ known) :
    (present known).filter (·.1 == e.1.toList) = (e.2.map (e.1.toList, ·)).toList := by
  induction known with
  | nil => cases he
  | cons f rest ih =>
    rw [List.map_cons, List.nodup_cons] at hnames
    have hsplit : present (f :: rest) = (f.2.map (f.1.toList, ·)).toList ++ present rest := by
      rw [present, List.filterMap_cons]
      cases f.2 with
      | none => rfl
      | some v => rfl
    rw [hsplit, List.filter_append]
    rcases List.mem_cons.mp he with rfl | he'
    · have hrest : (present rest).filter (·.1 == e.1.toList) = [] := by
        rw [List.filter_eq_nil_iff]
        intro x hx hname
        obtain ⟨g, hg, -, hk⟩ := mem_present.mp hx
        have hsame : g.1 = e.1 := String.toList_inj.mp (hk.trans (eq_of_beq hname))
        exact hnames.1 (hsame ▸ List.mem_map_of_mem hg)
      rw [hrest, List.append_nil]
      cases e.2 with
      | none => rfl
      | some v => simp
    · have hne : f.1 ≠ e.1 := by
        intro h
        exact hnames.1 (h ▸ List.mem_map_of_mem he')
      have hfirst : (f.2.map (f.1.toList, ·)).toList.filter (·.1 == e.1.toList) = [] := by
        cases f.2 with
        | none => rfl
        | some v => simp [String.toList_inj, hne]
      rw [hfirst, ih hnames.2 he', List.nil_append]

theorem only?_of_perm (hnames : (known.map (·.1)).Nodup)
    (hperm : entries.Perm (present known ++ unknown))
    (hunknown : ∀ x ∈ unknown, ∀ f ∈ known, x.1 ≠ f.1.toList) (he : e ∈ known)
    (g : Text × Written → Json) :
    only? e.1.toList (entries.map fun x => (x.1, g x)) =
      some (e.2.map fun v => g (e.1.toList, v)) := by
  have hnone : unknown.filter (·.1 == e.1.toList) = [] := by
    rw [List.filter_eq_nil_iff]
    intro x hx hname
    exact hunknown x hx e he (eq_of_beq hname)
  have hfilter := hperm.filter (·.1 == e.1.toList)
  rw [List.filter_append, hnone, List.append_nil, filter_present hnames he] at hfilter
  have hmap : (entries.map fun x => (x.1, g x)).filter (·.1 == e.1.toList) =
      (entries.filter (·.1 == e.1.toList)).map fun x => (x.1, g x) := List.filter_map
  rw [only?, hmap]
  cases hv : e.2 with
  | none =>
    rw [hv] at hfilter
    rw [hfilter.eq_nil]
    rfl
  | some v =>
    rw [hv] at hfilter
    rw [List.perm_singleton.mp hfilter]
    rfl

theorem Shape.field?_of_mem {fs : List (String × Shape)} (hnames : (fs.map (·.1)).Nodup)
    {f : String × Shape} (hf : f ∈ fs) : (Shape.record fs).field? f.1.toList = some f.2 := by
  induction fs with
  | nil => cases hf
  | cons g rest ih =>
    rw [List.map_cons, List.nodup_cons] at hnames
    rcases List.mem_cons.mp hf with rfl | hf'
    · simp [Shape.field?]
    · have hne : g.1 ≠ f.1 := by
        intro h
        exact hnames.1 (h ▸ List.mem_map_of_mem hf')
      have hskip : (Shape.record (g :: rest)).field? f.1.toList =
          (Shape.record rest).field? f.1.toList := by
        simp [Shape.field?, String.toList_inj, hne]
      rw [hskip, ih hnames.2 hf']

structure Shape.HasFields (sh : Shape) (fs : List (String × Shape)) : Prop where
  eq_record : sh = .record fs
  nodup : (fs.map (·.1)).Nodup

variable {fs : List (String × Shape)}

theorem Shape.HasFields.exists_field (hsh : sh.HasFields fs)
    (hknown : known.map (·.1) = fs.map (·.1)) {i : Nat} (hi : known[i]? = some e) :
    ∃ f, (f, e) ∈ fs.zip known ∧ fs[i]? = some f ∧ sh.item i = f.2 ∧
      sh.field? e.1.toList = some f.2 := by
  obtain ⟨rfl, hnames⟩ := hsh
  have hname : (fs.map (·.1))[i]? = some e.1 := by
    rw [← hknown, List.getElem?_map, hi, Option.map_some]
  obtain ⟨f, hf, hfe⟩ := Option.map_eq_some_iff.mp ((List.getElem?_map).symm.trans hname)
  have hzip : (fs.zip known)[i]? = some (f, e) := List.getElem?_zip_eq_some.mpr ⟨hf, hi⟩
  refine ⟨f, List.mem_of_getElem? hzip, hf, ?_, ?_⟩
  · rw [Shape.item, hf]
    rfl
  · rw [← hfe, Shape.field?_of_mem hnames (List.mem_of_getElem? hf)]

theorem Shape.HasFields.field?_eq_none (hsh : sh.HasFields fs)
    (hknown : known.map (·.1) = fs.map (·.1)) {name : Text}
    (h : ∀ f ∈ known, name ≠ f.1.toList) : sh.field? name = none := by
  obtain ⟨rfl, -⟩ := hsh
  rw [Shape.field?, Option.map_eq_none_iff, List.find?_eq_none]
  intro f hf hname
  have hmem : f.1 ∈ known.map (·.1) := hknown ▸ List.mem_map_of_mem hf
  obtain ⟨g, hg, hgf⟩ := List.mem_map.mp hmem
  exact h g hg (hgf ▸ (eq_of_beq hname).symm)

namespace Written

theorem IsRecord.fields?_eq_map (h : w.IsRecord known) (hsh : sh.HasFields fs)
    (hknown : known.map (·.1) = fs.map (·.1)) :
    (w.readIn (some sh)).fields? sh =
      some (known.map fun e => e.2.map (readIn (sh.field? e.1.toList))) := by
  have hnames : sh.names = known.map (·.1) := by
    rw [hsh.eq_record, hknown]
    rfl
  cases h with
  | object unknown hw hperm hunknown =>
    rw [readIn_of_entries hw, Json.fields?, hnames, List.mapM_map]
    refine mapM_of_forall₂ (List.forall₂_map_right_iff.mpr (List.forall₂_same.mpr ?_))
    intro e he
    exact only?_of_perm (hknown ▸ hsh.nodup) hperm hunknown he _
  | @array items missing hw hitems =>
    have hlength : (known.map (·.1)).length = items.length + missing := by
      rw [List.length_map, ← List.length_map, hitems]
      simp
    have hall : (items.mapIdx fun i v => v.readIn (some (sh.item i))).map some ++
        List.replicate missing none =
          (known.map (·.2)).mapIdx fun i o => o.map (readIn (some (sh.item i))) := by
      rw [hitems, List.mapIdx_append, mapIdx_map_some, mapIdx_replicate_none]
    rw [readIn_of_items hw, Json.fields?, hnames, List.length_mapIdx, hlength,
      if_pos (Nat.le_add_right _ _), Nat.add_sub_cancel_left, hall, Option.some.injEq]
    refine List.ext_getElem? fun i => ?_
    rw [List.getElem?_mapIdx, List.getElem?_map, List.getElem?_map]
    cases hi : known[i]? with
    | none => rfl
    | some e =>
      obtain ⟨f, -, -, hitem, hfield⟩ := hsh.exists_field hknown hi
      rw [Option.map_some, Option.map_some, Option.map_some, hitem, hfield]

/-- **A record is read with its known values, each at its own shape.** -/
theorem IsRecord.fields?_readIn (h : w.IsRecord known) (hsh : sh.HasFields fs)
    (hknown : known.map (·.1) = fs.map (·.1)) :
    (w.readIn (some sh)).fields? sh =
      some (List.zipWith (fun f e => e.2.map (readIn (some f.2))) fs known) := by
  rw [h.fields?_eq_map hsh hknown, Option.some.injEq]
  refine List.ext_getElem? fun i => ?_
  rw [List.getElem?_map, List.getElem?_zipWith]
  cases hi : known[i]? with
  | none => cases fs[i]? <;> rfl
  | some e =>
    obtain ⟨f, -, hf, -, hfield⟩ := hsh.exists_field hknown hi
    rw [hf, Option.map_some, hfield]

theorem IsRecord.depthIn_le (h : w.IsRecord known) (hsh : sh.HasFields fs)
    (hknown : known.map (·.1) = fs.map (·.1))
    (hd : List.Forall₂ (fun f e => ∀ v ∈ e.2, v.depthIn f.2 ≤ d) fs known) :
    w.depthIn sh ≤ d + 1 := by
  cases h with
  | object unknown hw hperm hunknown =>
    refine depthIn_of_entries hw fun x hx s hs => ?_
    rcases List.mem_append.mp (hperm.mem_iff.mp hx) with hx | hx
    · obtain ⟨e, he, hv, hname⟩ := mem_present.mp hx
      obtain ⟨i, hi⟩ := List.mem_iff_getElem?.mp he
      obtain ⟨f, hzip, -, -, hfield⟩ := hsh.exists_field hknown hi
      rw [← hname, hfield] at hs
      cases hs
      exact List.forall₂_zip hd hzip x.2 hv
    · rw [hsh.field?_eq_none hknown (hunknown x hx)] at hs
      cases hs
  | @array items missing hw hitems =>
    refine depthIn_of_items hw fun i v hi => ?_
    have hsome : (known.map (·.2))[i]? = some (some v) := by
      rw [hitems, List.getElem?_append_left, List.getElem?_map, hi, Option.map_some]
      rw [List.length_map]
      exact (List.getElem?_eq_some_iff.mp hi).1
    obtain ⟨e, he, hv⟩ := Option.map_eq_some_iff.mp ((List.getElem?_map).symm.trans hsome)
    obtain ⟨f, hzip, -, hitem, -⟩ := hsh.exists_field hknown he
    rw [hitem]
    exact List.forall₂_zip hd hzip v hv

end Written

end

/-! ## Values -/

namespace Written

variable {α : Type} {f : Json → Option α} {P : α → Written → Prop} {a : α}

def IsString (t : Text) (w : Written) : Prop := w.value = .str t

def IsNat (n : Nat) (w : Written) : Prop := w.value = nat n

def IsNullable (P : α → Written → Prop) : Option α → Written → Prop
  | none, w => w = .null
  | some a, w => P a w

def IsList (P : α → Written → Prop) (as : List α) (w : Written) : Prop :=
  ∃ vs, w.items? = some vs ∧ List.Forall₂ P as vs

/-- A field with a default may be left out where it has that value. -/
def IsField (P : α → Written → Prop) (default a : α) : Option Written → Prop
  | none => a = default
  | some w => P a w

/-- What a decoder makes of a value as it is read at a shape, and how deep it nests there. -/
structure Gives (f : Json → Option α) (sh : Shape) (d : Nat) (a : α) (w : Written) : Prop where
  decode : f (w.readIn (some sh)) = some a
  depth : w.depthIn sh ≤ d

theorem Gives.depth_some (h : w.Gives f sh d a) : ∀ v ∈ some w, v.depthIn sh ≤ d := by
  intro v hv
  cases hv
  exact h.depth

theorem IsString.gives {t : Text} (h : w.IsString t) : w.Gives text? .any d t := by
  unfold IsString at h
  cases w with
  | string ps =>
    cases h
    refine ⟨?_, Nat.zero_le d⟩
    rw [readIn, readAs, Option.isSome_some, stringAs_true, text?]
  | _ => cases h

theorem IsNat.gives {n : Nat} (h : w.IsNat n) (hn : n < Nat.pow 2 64) : w.Gives nat? .any d n := by
  unfold IsNat at h
  cases w with
  | number x =>
    have hx : x.number = .int n := Json.num.inj h
    refine ⟨?_, Nat.zero_le d⟩
    rw [readIn, readAs, hx]
    exact if_pos hn
  | _ => cases h

theorem IsNullable.gives {o : Option α} (h : w.IsNullable P o) (hnull : f .null = none)
    (hP : ∀ a ∈ o, P a w → w.Gives f sh d a) : w.Gives (nullable? f) sh d o := by
  cases o with
  | none =>
    cases h
    exact ⟨rfl, Nat.zero_le d⟩
  | some a =>
    obtain ⟨hdecode, hdepth⟩ := hP a rfl h
    refine ⟨?_, hdepth⟩
    cases hv : w.readIn (some sh) with
    | null =>
      rw [hv, hnull] at hdecode
      cases hdecode
    | _ => rw [nullable?, ← hv, hdecode, Option.map_some]; nofun

theorem IsList.gives {as : List α} {sh' : Shape} (h : w.IsList P as) (hsh : ∀ i, sh'.item i = sh)
    (hP : ∀ a ∈ as, ∀ v, P a v → v.Gives f sh d a) : w.Gives (list? f) sh' (d + 1) as := by
  obtain ⟨vs, hw, hvs⟩ := h
  have hall : List.Forall₂ (fun v a => v.Gives f sh d a) vs as := by
    refine List.Forall₂.flip (((List.forall₂_and_left as vs).mpr ⟨fun a ha => ha, hvs⟩).imp ?_)
    rintro a v ⟨ha, hv⟩
    exact hP a ha v hv
  constructor
  · have hitems : (vs.mapIdx fun i v => v.readIn (some (sh'.item i))) =
        vs.map (readIn (some sh)) := by
      refine List.ext_getElem? fun i => ?_
      rw [List.getElem?_mapIdx, List.getElem?_map, hsh]
    rw [readIn_of_items hw, hitems]
    exact mapM_of_forall₂ (List.forall₂_map_left_iff.mpr (hall.imp fun v a h => h.decode))
  · refine depthIn_of_items hw fun i v hi => ?_
    have hdepth : ∀ v ∈ vs, v.depthIn sh ≤ d :=
      ((List.forall₂_and_left vs as).mp (hall.imp fun v a h => ⟨h.depth, h⟩)).1
    rw [hsh]
    exact hdepth v (List.mem_of_getElem? hi)

theorem IsField.gives {default : α} {o : Option Written} (h : IsField P default a o)
    (hP : ∀ w, P a w → w.Gives f sh d a) :
    orDefault? default f (o.map (readIn (some sh))) = some a ∧ ∀ v ∈ o, v.depthIn sh ≤ d := by
  cases o with
  | none => exact ⟨congrArg some (Eq.symm h), by simp⟩
  | some w =>
    have hw := hP w h
    exact ⟨hw.decode, hw.depth_some⟩

end Written

theorem parseAs_text (hd : w.depthIn sh ≤ Reader.depthLimit) (before after : Blanks) :
    parseAs sh (before.text ++ (w.text ++ after.text)) = .ok (w.readIn (some sh)) := by
  have hrun := Reader.run_text (p := sh.policy) (fun frames => rfl) hd before after
  rw [parseAs, Reader.read, hrun]
  rfl

end Fixtures.Json

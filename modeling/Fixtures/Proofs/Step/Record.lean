import Fixtures.Proofs.Json.Printed
import Fixtures.Step.Record

/-!
# Reading steps

A step is read back from every way to write it as a record: as an object or as an array at
each level, with unknown fields, and without the fields that have a default where they hold it.
-/

namespace Fixtures

open Json (Written Blanks Shape)

/-! ## How steps are written -/

namespace Json.Written

def IsRow (r : Row) (w : Written) : Prop :=
  ∃ comments cells line,
    IsField (IsList IsString) [] r.comments comments ∧ cells.IsList IsString r.cells ∧
    IsField (IsNullable IsNat) none r.line line ∧
    w.IsRecord [("comments", comments), ("cells", some cells), ("line", line)]

def IsDocBlock (d : DocBlock) (w : Written) : Prop :=
  ∃ contentType content line,
    IsField (IsNullable IsString) none d.contentType contentType ∧ content.IsString d.content ∧
    line.IsNat d.line ∧
    w.IsRecord [("contentType", contentType), ("content", some content), ("line", some line)]

def IsStep (s : Step) (w : Written) : Prop :=
  ∃ keyword text line comments rows docString,
    keyword.IsString s.keyword ∧ text.IsString s.text ∧ line.IsNat s.line ∧
    IsField (IsList IsString) [] s.comments comments ∧
    IsField (IsNullable (IsList IsRow)) none s.rows rows ∧
    IsField (IsNullable IsDocBlock) none s.docBlock docString ∧
    w.IsRecord [("keyword", some keyword), ("text", some text), ("line", some line),
      ("comments", comments), ("rows", rows), ("docString", docString)]

end Json.Written

/-! ## What is read -/

def Row.InRange (r : Row) : Prop := ∀ n ∈ r.line, n < Nat.pow 2 64

def DocBlock.InRange (d : DocBlock) : Prop := d.line < Nat.pow 2 64

structure Step.InRange (s : Step) : Prop where
  line : s.line < Nat.pow 2 64
  rows : ∀ rows ∈ s.rows, ∀ r ∈ rows, r.InRange
  docBlock : ∀ d ∈ s.docBlock, d.InRange

namespace Json.Written

variable {w : Written} {d : Nat}

theorem gives_texts {ts : List Text} (h : w.IsList IsString ts) :
    w.Gives (list? text?) .any (d + 1) ts :=
  h.gives (fun _ => rfl) fun _ _ _ hv => hv.gives

theorem IsRow.gives {r : Row} (h : w.IsRow r) (hr : r.InRange) :
    w.Gives Row.ofJson? Row.shape (d + 2) r := by
  obtain ⟨comments, cells, line, hcomments, hcells, hline, hw⟩ := h
  have hfields : Row.shape.HasFields _ := ⟨rfl, by decide⟩
  have hnumber (w : Written) (h : w.IsNullable IsNat r.line) :
      w.Gives (nullable? nat?) .any (d + 1) r.line :=
    h.gives rfl fun n hn hw => hw.gives (hr n hn)
  obtain ⟨hcomments, hdcomments⟩ := hcomments.gives fun _ => gives_texts (d := d)
  have hcells := gives_texts (d := d) hcells
  obtain ⟨hline, hdline⟩ := hline.gives hnumber
  constructor
  · have hread : (w.readIn (some Row.shape)).fields? Row.shape = some
        [comments.map (readIn (some .any)), some (cells.readIn (some .any)),
          line.map (readIn (some .any))] := hw.fields?_readIn hfields rfl
    simp only [Row.ofJson?, hread, hcomments, hcells.decode, hline, Option.bind_some]
    rfl
  · exact hw.depthIn_le hfields rfl
      (.cons hdcomments (.cons hcells.depth_some (.cons hdline .nil)))

theorem IsDocBlock.gives {b : DocBlock} (h : w.IsDocBlock b) (hb : b.InRange) :
    w.Gives DocBlock.ofJson? DocBlock.shape (d + 1) b := by
  obtain ⟨contentType, content, line, hcontentType, hcontent, hline, hw⟩ := h
  have hfields : DocBlock.shape.HasFields _ := ⟨rfl, by decide⟩
  have hmarker (w : Written) (h : w.IsNullable IsString b.contentType) :
      w.Gives (nullable? text?) .any d b.contentType :=
    h.gives rfl fun _ _ hw => hw.gives
  obtain ⟨hcontentType, hdcontentType⟩ := hcontentType.gives hmarker
  have hcontent := hcontent.gives (d := d)
  have hline := hline.gives (d := d) hb
  constructor
  · have hread : (w.readIn (some DocBlock.shape)).fields? DocBlock.shape = some
        [contentType.map (readIn (some .any)), some (content.readIn (some .any)),
          some (line.readIn (some .any))] := hw.fields?_readIn hfields rfl
    simp only [DocBlock.ofJson?, hread, hcontentType, hcontent.decode, hline.decode,
      Option.bind_some]
    rfl
  · exact hw.depthIn_le hfields rfl
      (.cons hdcontentType (.cons hcontent.depth_some (.cons hline.depth_some .nil)))

theorem IsStep.gives {s : Step} (h : w.IsStep s) (hs : s.InRange) :
    w.Gives Step.ofJson? Step.shape 4 s := by
  obtain ⟨keyword, text, line, comments, rows, docString, hkeyword, htext, hline, hcomments,
    hrows, hdoc, hw⟩ := h
  have hfields : Step.shape.HasFields _ := ⟨rfl, by decide⟩
  have htable (w : Written) (h : w.IsNullable (IsList IsRow) s.rows) :
      w.Gives (nullable? (list? Row.ofJson?)) (.list Row.shape) 3 s.rows :=
    h.gives rfl fun rows hr hw =>
      hw.gives (fun _ => rfl) fun r hm _ hv => hv.gives (hs.rows rows hr r hm)
  have hblock (w : Written) (h : w.IsNullable IsDocBlock s.docBlock) :
      w.Gives (nullable? DocBlock.ofJson?) DocBlock.shape 3 s.docBlock :=
    h.gives rfl fun b hb hw => hw.gives (hs.docBlock b hb)
  have hkeyword := hkeyword.gives (d := 3)
  have htext := htext.gives (d := 3)
  have hline := hline.gives (d := 3) hs.line
  obtain ⟨hcomments, hdcomments⟩ := hcomments.gives fun _ => gives_texts (d := 2)
  obtain ⟨hrows, hdrows⟩ := hrows.gives htable
  obtain ⟨hdoc, hddoc⟩ := hdoc.gives hblock
  constructor
  · have hread : (w.readIn (some Step.shape)).fields? Step.shape = some
        [some (keyword.readIn (some .any)), some (text.readIn (some .any)),
          some (line.readIn (some .any)), comments.map (readIn (some .any)),
          rows.map (readIn (some (.list Row.shape))),
          docString.map (readIn (some DocBlock.shape))] := hw.fields?_readIn hfields rfl
    simp only [Step.ofJson?, hread, hkeyword.decode, htext.decode, hline.decode, hcomments, hrows,
      hdoc, Option.bind_some]
    rfl
  · exact hw.depthIn_le hfields rfl
      (.cons hkeyword.depth_some (.cons htext.depth_some (.cons hline.depth_some
        (.cons hdcomments (.cons hdrows (.cons hddoc .nil))))))

/-! ## What is printed -/

theorem exists_texts (ts : List Text) :
    ∃ w, IsList IsString ts w ∧ w.text = (texts ts).render :=
  exists_list fun t _ => exists_string t

theorem exists_row {r : Row} (hr : r.InRange) : ∃ w, IsRow r w ∧ w.text = r.toJson.render := by
  obtain ⟨comments, hcomments, hcommentsText⟩ := exists_texts r.comments
  obtain ⟨cells, hcells, hcellsText⟩ := exists_texts r.cells
  obtain ⟨line, hline, hlineText⟩ := exists_nullable (P := IsNat) (f := nat) (o := r.line)
    fun n hn => exists_nat (hr n hn)
  obtain ⟨w, hw, htext⟩ := exists_record
    [("comments", texts r.comments, comments), ("cells", texts r.cells, cells),
      ("line", orNull nat r.line, line)]
    (by simp [hcommentsText, hcellsText, hlineText]) (by simp)
  exact ⟨w, ⟨some comments, cells, some line, hcomments, hcells, hline, hw⟩, htext⟩

theorem exists_docBlock {b : DocBlock} (hb : b.InRange) :
    ∃ w, IsDocBlock b w ∧ w.text = b.toJson.render := by
  obtain ⟨contentType, hcontentType, hmarkerText⟩ :=
    exists_nullable (P := IsString) (f := .str) (o := b.contentType) fun t _ => exists_string t
  obtain ⟨content, hcontent, hcontentText⟩ := exists_string b.content
  obtain ⟨line, hline, hlineText⟩ := exists_nat hb
  obtain ⟨w, hw, htext⟩ := exists_record
    [("contentType", orNull .str b.contentType, contentType), ("content", .str b.content, content),
      ("line", nat b.line, line)]
    (by simp [hmarkerText, hcontentText, hlineText]) (by simp)
  exact ⟨w, ⟨some contentType, content, line, hcontentType, hcontent, hline, hw⟩, htext⟩

theorem exists_step {s : Step} (hs : s.InRange) : ∃ w, IsStep s w ∧ w.text = s.toJson.render := by
  obtain ⟨keyword, hkeyword, hkeywordText⟩ := exists_string s.keyword
  obtain ⟨text, htext, htextText⟩ := exists_string s.text
  obtain ⟨line, hline, hlineText⟩ := exists_nat hs.line
  obtain ⟨comments, hcomments, hcommentsText⟩ := exists_texts s.comments
  obtain ⟨rows, hrows, hrowsText⟩ := exists_nullable (P := IsList IsRow)
    (f := fun rows => .arr (rows.map Row.toJson)) (o := s.rows)
    fun rows hr => exists_list fun r hm => exists_row (hs.rows rows hr r hm)
  obtain ⟨docString, hdoc, hdocText⟩ := exists_nullable (P := IsDocBlock) (f := DocBlock.toJson)
    (o := s.docBlock) fun b hb => exists_docBlock (hs.docBlock b hb)
  obtain ⟨w, hw, hprinted⟩ := exists_record
    [("keyword", .str s.keyword, keyword), ("text", .str s.text, text), ("line", nat s.line, line),
      ("comments", texts s.comments, comments),
      ("rows", orNull (fun rows => .arr (rows.map Row.toJson)) s.rows, rows),
      ("docString", orNull DocBlock.toJson s.docBlock, docString)]
    (by simp [hkeywordText, htextText, hlineText, hcommentsText, hrowsText, hdocText]) (by simp)
  exact ⟨w, ⟨keyword, text, line, some comments, some rows, some docString, hkeyword, htext, hline,
    hcomments, hrows, hdoc, hw⟩, hprinted⟩

end Json.Written

namespace Step

theorem parse?_of_isStep {s : Step} (hs : s.InRange) {w : Written} (hw : w.IsStep s)
    (before after : Blanks) : parse? (before.text ++ (w.text ++ after.text)) = some s := by
  obtain ⟨hdecode, hdepth⟩ := hw.gives hs
  rw [parse?, Json.parseAs_text (Nat.le_trans hdepth (by decide))]
  exact hdecode

/-- **A step is read back from its printed text, and from every other way to write it.** -/
theorem reads_every_form (s : Step) (hs : s.InRange) :
    parse? s.toJson.render = some s ∧
      ∀ (w : Written) (before after : Blanks), w.IsStep s →
        parse? (before.text ++ (w.text ++ after.text)) = some s := by
  refine ⟨?_, fun w before after hw => parse?_of_isStep hs hw before after⟩
  obtain ⟨w, hw, htext⟩ := Json.Written.exists_step hs
  have hparse := parse?_of_isStep hs hw Json.Written.noBlanks Json.Written.noBlanks
  rw [htext] at hparse
  simpa [Json.Written.noBlanks] using hparse

open Json.Written (noBlanks)

def mixedStep : Step :=
  ⟨['G'], ['w'], 18446744073709551615, [], some [⟨[], [['x']], none⟩], some ⟨none, ['y'], 2⟩⟩

def letter (c : Char) (h : Json.isRaw c = true) : Written := .string [.char c h]

def greatestLine : Written :=
  .number ⟨"18446744073709551615".toList, .int 18446744073709551615, by decide +kernel⟩

def cellsForm : Written := .array (.last noBlanks (letter 'x' rfl) noBlanks)

def rowForm : Written :=
  .array (.cons noBlanks (.emptyArray noBlanks) noBlanks (.last noBlanks cellsForm noBlanks))

def blockLine : Written := .number ⟨['2'], .int 2, by decide +kernel⟩

def blockForm : Written :=
  .array (.cons noBlanks .null noBlanks
    (.cons noBlanks (letter 'y' rfl) noBlanks (.last noBlanks blockLine noBlanks)))

def nameOf (t : Text) (h : t.all Json.isRaw = true) : Json.WrittenName :=
  ⟨noBlanks, t.attach.map fun c => .char c.1 (List.all_eq_true.mp h c.1 c.2), noBlanks, noBlanks⟩

def mixedForm : Written :=
  .object
    (.cons (nameOf "more".toList rfl) (.emptyObject noBlanks) noBlanks
    (.cons (nameOf "text".toList rfl) (letter 'w' rfl) noBlanks
    (.cons (nameOf "keyword".toList rfl) (letter 'G' rfl) noBlanks
    (.cons (nameOf "line".toList rfl) greatestLine noBlanks
    (.cons (nameOf "rows".toList rfl) (.array (.last noBlanks rowForm noBlanks)) noBlanks
    (.last (nameOf "docString".toList rfl) blockForm noBlanks))))))

theorem isStep_mixedForm : mixedForm.IsStep mixedStep := by
  refine ⟨letter 'G' rfl, letter 'w' rfl, greatestLine, none,
    some (.array (.last noBlanks rowForm noBlanks)), some blockForm, rfl, rfl, rfl, rfl,
    ⟨_, rfl, .cons ?row .nil⟩, ?block, .object [("more".toList, .emptyObject noBlanks)] rfl ?order ?unknown⟩
  case row =>
    exact ⟨some (.emptyArray noBlanks), cellsForm, none, ⟨_, rfl, .nil⟩, ⟨_, rfl, .cons rfl .nil⟩,
      rfl, .array 1 rfl rfl⟩
  case block =>
    exact ⟨some .null, letter 'y' rfl, blockLine, rfl, rfl, rfl, .array 0 rfl rfl⟩
  case order =>
    exact ((List.Perm.swap _ _ _).cons _).trans (List.perm_append_singleton _ _).symm
  case unknown => simp

theorem reads_mixedForm :
    mixedStep.InRange ∧ mixedForm.IsStep mixedStep ∧
      mixedForm.text =
        "\x7b\"more\":\x7b\x7d,\"text\":\"w\",\"keyword\":\"G\",".toList ++
          "\"line\":18446744073709551615,\"rows\":[[[],[\"x\"]]],".toList ++
            "\"docString\":[null,\"y\",2]\x7d".toList ∧
      parse? mixedForm.text = some mixedStep := by
  have hrange : mixedStep.InRange := ⟨by decide, by simp [mixedStep, Row.InRange], by
    simp [mixedStep, DocBlock.InRange]⟩
  have hparse := (reads_every_form mixedStep hrange).2 mixedForm noBlanks noBlanks isStep_mixedForm
  refine ⟨hrange, isStep_mixedForm, rfl, ?_⟩
  simpa [noBlanks] using hparse

end Step

end Fixtures

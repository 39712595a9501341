import SchemaModels.Proofs.Go.BlankLines
import SchemaModels.Proofs.Go.CanonicalFiles
import SchemaModels.Proofs.Go.DraftLines

/-!
# The lines of a struct that is laid out

A field's line consists of its name, its type and its tag, each name and each type padded to the
width of the longest, and of what trails the tag (`linesOf_fields`). All other lines but the first
one follow from the names of the struct and of its table (`exists_layout_shapes`). So the text of a
struct without its comments is a function of the struct without its comments
(`isWrittenIn_of_render`).
-/

namespace SchemaModels.Go

namespace Format

/-! ### Columns in which every row has a cell to pad -/

/-- The greatest of some widths. -/
def greatest (ws : List Nat) : Nat := ws.foldl max 0

/-- A text with blanks behind it, one more than it takes to fill the width. -/
def padded (width : Nat) (t : Text) : Text := t ++ List.replicate (width - t.length + 1) ' '

theorem runWidths_map_some (seen : Nat) (ws : List Nat) :
    runWidths seen (ws.map some) =
      (List.replicate ws.length (ws.foldl max seen), ws.foldl max seen) := by
  induction ws generalizing seen with
  | nil => rfl
  | cons w ws ih =>
      rw [List.map_cons, runWidths, ih]
      rfl

section Padded

variable {α : Type} (cell : α → Text) (tail : α → Row) (as : List α)
  (htail : ∀ a ∈ as, tail a ≠ [])

include htail

theorem zipWith_putCell (width : Nat) (rests : List Text) :
    List.zipWith (fun row p => putCell row p.1 p.2) (as.map fun a => cell a :: tail a)
        ((List.replicate as.length width).zip rests) =
      List.zipWith (fun a rest => padded width (cell a) ++ rest) as rests := by
  induction as generalizing rests with
  | nil => rfl
  | cons a as ih =>
      cases rests with
      | nil => rfl
      | cons rest rests =>
          obtain ⟨next, row, hrow⟩ := List.exists_cons_of_ne_nil (htail a List.mem_cons_self)
          rw [List.map_cons, List.length_cons, List.replicate_succ, List.zip_cons_cons,
            List.zipWith_cons_cons, List.zipWith_cons_cons,
            ih fun b hb => htail b (List.mem_cons_of_mem a hb), hrow]
          rfl

/-- Where another cell follows the first one in every row, all rows share the width of the
column. -/
theorem alignColumns_padded (n : Nat) :
    alignColumns (n + 1) (as.map fun a => cell a :: tail a) =
      List.zipWith
        (fun a rest => padded (greatest (as.map fun a => (cell a).length)) (cell a) ++ rest)
        as (alignColumns n (as.map tail)) := by
  have hleading : (as.map fun a => cell a :: tail a).map leadingWidth =
      (as.map fun a => (cell a).length).map some := by
    rw [List.map_map, List.map_map]
    refine List.map_congr_left fun a ha => ?_
    obtain ⟨next, row, hrow⟩ := List.exists_cons_of_ne_nil (htail a ha)
    simp [hrow, leadingWidth]
  have htails : (as.map fun a => cell a :: tail a).map List.tail = as.map tail := by
    rw [List.map_map]
    rfl
  rw [alignColumns, hleading, runWidths_map_some, htails, List.length_map]
  exact zipWith_putCell cell tail as htail _ _

end Padded

/-! ### Lines without columns -/

theorem linesOf_cons {n : Nat} {shape : Shape} (h : shape.cells = []) (shapes : List Shape) :
    linesOf n (shape :: shapes) = shape.text [] :: linesOf n shapes := by
  have hcells : alignColumns n ([] :: shapes.map Shape.cells) =
      [] :: alignColumns n (shapes.map Shape.cells) := by
    have hnil : alignColumns n [] = [] := List.eq_nil_of_length_eq_zero (length_alignColumns n [])
    rw [← List.nil_append ([] :: shapes.map Shape.cells), alignColumns_append, hnil]
    rfl
  unfold linesOf
  rw [List.map_cons, h, hcells]
  rfl

/-- A line without cells parts the lines above it from those below it. -/
theorem linesOf_append_cons {n : Nat} {shape : Shape} (h : shape.cells = [])
    (shapes shapes' : List Shape) :
    linesOf n (shapes ++ shape :: shapes') = linesOf n shapes ++ linesOf n (shape :: shapes') := by
  have hlength : shapes.length = (alignColumns n (shapes.map Shape.cells)).length := by
    rw [length_alignColumns, List.length_map]
  have hcells : (shapes ++ shape :: shapes').map Shape.cells =
      shapes.map Shape.cells ++ [] :: shapes'.map Shape.cells := by simp [h]
  rw [linesOf_cons h]
  unfold linesOf
  rw [hcells, alignColumns_append, List.zipWith_append hlength]
  rfl

end Format

open Format

/-! ### The lines of the fields -/

/-- What may stand behind the tag of a field: nothing, or a comment with blanks before it. -/
inductive IsTrailing : Text → Prop
  | nil : IsTrailing []
  | comment (blanks : Nat) {t : Text} (ht : '\n' ∉ t) :
    IsTrailing (List.replicate (blanks + 1) ' ' ++ '/' :: '/' :: t)

theorem IsTrailing.newline_not_mem {e : Text} (h : IsTrailing e) : '\n' ∉ e := by
  cases h with
  | nil => exact List.not_mem_nil
  | comment blanks ht => simp [ht]

/-- The line of a field up to the end of its tag, with the name and the type filled to their
widths. -/
def Field.codeLine (nameWidth typeWidth : Nat) (f : Field) : Text :=
  '\t' :: (padded nameWidth f.name ++ (padded typeWidth f.type ++ ('\x60' :: f.tag ++ ['\x60'])))

/-- The lines of fields up to the ends of their tags. -/
def codeLines (fs : List Field) : List Text :=
  fs.map (Field.codeLine (greatest (fs.map (·.name.length))) (greatest (fs.map (·.type.length))))

/-- The cells of a field behind its type. -/
def Field.tagRow (f : Field) : Row := ('\x60' :: f.tag ++ ['\x60']) :: f.commentRow

theorem isTrailing_of_spaced {f : Field} (hf : f.IsRegular) {line : Text}
    (h : Spaced f.tagRow line) :
    ∃ ending, line = ('\x60' :: f.tag ++ ['\x60']) ++ ending ∧ IsTrailing ending := by
  unfold Field.tagRow Field.commentRow at h
  cases hc : f.comment with
  | none =>
      rw [hc] at h
      exact ⟨[], by rw [List.append_nil]; exact h, .nil⟩
  | some c =>
      rw [hc] at h
      obtain ⟨n, rest, rfl, hrest⟩ := h
      have hcell : Text.trimEnd ('/' :: '/' :: ' ' :: c) = '/' :: '/' :: Text.trimEnd (' ' :: c) :=
        Text.trimEnd_append_cons (by decide) ['/'] (' ' :: c)
      have hline : '\n' ∉ Text.trimEnd (' ' :: c) := by
        intro hmem
        obtain hmem | hmem := List.mem_cons.1 ((Text.isPrefix_trimEnd _).mem hmem)
        · cases hmem
        · exact hf.comment c hc hmem
      rw [show rest = _ from hrest, hcell, List.append_assoc]
      exact ⟨_, rfl, .comment n hline⟩

/-- Lines of tags and comments are tags with what trails them. -/
theorem exists_endings {fs : List Field} (hfs : ∀ f ∈ fs, f.IsRegular) {texts : List Text}
    (hlength : texts.length = fs.length)
    (h : ∀ (i : Nat) f, fs[i]? = some f → ∃ line, texts[i]? = some line ∧ Spaced f.tagRow line) :
    ∃ endings : List Text, endings.length = fs.length ∧ (∀ e ∈ endings, IsTrailing e) ∧
      texts = List.zipWith (fun f e => ('\x60' :: f.tag ++ ['\x60']) ++ e) fs endings := by
  induction fs generalizing texts with
  | nil => exact ⟨[], rfl, nofun, List.eq_nil_of_length_eq_zero hlength⟩
  | cons f fs ih =>
      cases texts with
      | nil => cases hlength
      | cons text texts =>
          obtain ⟨line, hline, hspaced⟩ := h 0 f rfl
          cases hline
          obtain ⟨ending, rfl, hending⟩ := isTrailing_of_spaced (hfs f List.mem_cons_self) hspaced
          obtain ⟨endings, hcount, htrailing, rfl⟩ :=
            ih (fun g hg => hfs g (List.mem_cons_of_mem f hg)) (Nat.succ.inj hlength)
              fun i g hg => h (i + 1) g hg
          refine ⟨ending :: endings, congrArg (· + 1) hcount, ?_, rfl⟩
          intro e he
          obtain rfl | he := List.mem_cons.1 he
          · exact hending
          · exact htrailing e he

/-- The shape of a field's line. -/
def Field.shape (f : Field) : Shape := .field 1 f.row

theorem zipWith_text {fs : List Field} {endings : List Text} {nameWidth typeWidth : Nat}
    (hcount : endings.length = fs.length) :
    List.zipWith (fun s aligned => s.text aligned) (fs.map Field.shape)
        (List.zipWith (fun f rest => padded nameWidth f.name ++ rest) fs
          (List.zipWith (fun f rest => padded typeWidth f.type ++ rest) fs
            (List.zipWith (fun f e => ('\x60' :: f.tag ++ ['\x60']) ++ e) fs endings))) =
      (List.zipWith (· ++ ·) (fs.map (Field.codeLine nameWidth typeWidth)) endings).map some := by
  induction fs generalizing endings with
  | nil => rfl
  | cons f fs ih =>
      cases endings with
      | nil => cases hcount
      | cons e endings =>
          simp only [List.map_cons, List.zipWith_cons_cons]
          rw [ih (Nat.succ.inj hcount)]
          simp [Field.shape, Shape.text, Field.codeLine]

/-- A field's line is its code with what trails it. -/
theorem linesOf_fields {n : Nat} {fs : List Field} (hfs : ∀ f ∈ fs, f.IsRegular)
    (hn : ∀ f ∈ fs, f.row.length ≤ n) :
    ∃ endings : List Text, endings.length = fs.length ∧ (∀ e ∈ endings, IsTrailing e) ∧
      linesOf n (fs.map Field.shape) =
        (List.zipWith (· ++ ·) (codeLines fs) endings).map some := by
  by_cases hnil : fs = []
  · subst hnil
    exact ⟨[], rfl, nofun, rfl⟩
  obtain ⟨f, hf⟩ := List.exists_mem_of_ne_nil fs hnil
  obtain ⟨n, rfl⟩ : ∃ m, n = m + 2 := by
    have hlength := hn f hf
    rw [Field.row, List.length_cons, List.length_cons] at hlength
    exact ⟨n - 2, by omega⟩
  have htags : ∀ g ∈ fs, g.tagRow.length ≤ n := by
    intro g hg
    have hlength := hn g hg
    rw [Field.row, List.length_cons, List.length_cons] at hlength
    have htagRow : g.tagRow.length = (('\x60' :: g.tag ++ ['\x60']) :: g.commentRow).length := rfl
    omega
  have hlength : (alignColumns n (fs.map Field.tagRow)).length = fs.length := by
    rw [length_alignColumns, List.length_map]
  obtain ⟨endings, hcount, htrailing, hlines⟩ := exists_endings hfs hlength fun i g hg =>
    spaced_alignColumns (by simp [hg]) (htags g (List.mem_of_getElem? hg))
  refine ⟨endings, hcount, htrailing, ?_⟩
  have hcells : (fs.map Field.shape).map Shape.cells =
      fs.map fun g => g.name :: g.type :: g.tagRow := by
    rw [List.map_map]
    rfl
  have htypes := alignColumns_padded Field.type Field.tagRow fs
    (fun _ _ => List.cons_ne_nil _ _) n
  have hnames := alignColumns_padded Field.name (fun g => g.type :: g.tagRow) fs
    (fun _ _ => List.cons_ne_nil _ _) (n + 1)
  unfold linesOf
  rw [hcells, hnames, htypes, hlines]
  exact zipWith_text hcount

/-! ### The lines of a struct -/

namespace Struct

variable {s : Struct}

/-- The comment's line. -/
def commentLine (s : Struct) : Text := '/' :: '/' :: Text.trimEnd (' ' :: s.comment)

/-- The shapes of the lines behind the one that closes the body of the struct. -/
def methodShapes (s : Struct) : List Shape :=
  if s.hasTableName then
    [.blank, .code 0 "// TableName .", .code 0 s.methodLine,
      .code 1 ("return " ++ quoted s.tableName), .code 0 ['}'], .blank]
  else [.blank]

/-- The shapes of the lines of a struct. -/
def shapes (s : Struct) : List Shape :=
  .code 0 s.commentLine :: .code 0 s.typeLine ::
    (s.fields.map Field.shape ++ .code 0 ['}'] :: s.methodShapes)

theorem trim_commentLine (s : Struct) :
    Text.trim ('/' :: '/' :: ' ' :: s.comment) = s.commentLine := by
  rw [Text.trim, Text.trimStart_cons (by decide)]
  exact Text.trimEnd_append_cons (by decide) ['/'] (' ' :: s.comment)

theorem trim_methodLine (s : Struct) : Text.trim s.methodLine = s.methodLine := by
  have hstart : Text.trimStart s.methodLine = s.methodLine :=
    Text.trimStart_cons (c := 'f') (by decide) ("unc (m *" ++ s.name ++ ") TableName() string \x7b")
  have hsplit : s.methodLine = ("func (m *" ++ s.name ++ ") TableName() string ") ++ '{' :: [] := by
    unfold methodLine
    rw [List.append_assoc, List.append_assoc]
    rfl
  rw [Text.trim, hstart, hsplit]
  exact Text.trimEnd_append_cons (by decide) _ []

theorem trim_returnLine (s : Struct) :
    Text.trim s.returnLine = "return " ++ quoted s.tableName := by
  have hstart : Text.trimStart s.returnLine = "return " ++ quoted s.tableName :=
    Text.trimStart_cons (c := 'r') (by decide) ("eturn " ++ quoted s.tableName)
  have hsplit : ("return " : Text) ++ quoted s.tableName =
      ("return " ++ '"' :: s.tableName.flatMap escapedChar) ++ '"' :: [] := by
    unfold quoted
    rw [List.append_assoc]
    rfl
  rw [Text.trim, hstart, hsplit]
  exact Text.trimEnd_append_cons (by decide) _ []

theorem runs_fields {fs : List Field} (hfs : ∀ f ∈ fs, f.IsRegular)
    (htags : ∀ f ∈ fs, IsRaw f.tag) (hids : ∀ f ∈ fs, isIdentifier f.name = true) :
    Runs inBody (fs.map Field.line) (fs.map Field.shape) inBody := by
  induction fs with
  | nil => exact .nil _
  | cons f fs ih =>
      have hf := hfs f List.mem_cons_self
      have htag := htags f List.mem_cons_self
      have hrow := fieldCells_line hf htag (hids f List.mem_cons_self)
      exact .cons (scanLine_field hf htag) (hasShape_field hf hrow)
        (ih (fun g hg => hfs g (List.mem_cons_of_mem f hg))
          (fun g hg => htags g (List.mem_cons_of_mem f hg))
          fun g hg => hids g (List.mem_cons_of_mem f hg))

theorem runs_methodLines (hs : s.IsRegular) : Runs .start s.methodLines s.methodShapes .start := by
  have hblank : Runs .start [[]] [.blank] .start := runs_blank rfl
  have hcomment : Leads .start "// TableName ." .start := by
    unfold Leads State.start
    exact congrArg (· >>= endLine) (scanLine_comment [] [] " TableName .")
  have hcommentShape : HasShape .start "// TableName ." (.code 0 "// TableName .") :=
    .code rfl (by decide) (by decide)
  have hmethodShape : HasShape .start s.methodLine (.code 0 s.methodLine) := by
    have hfunc : 'f' ∈ s.methodLine :=
      List.mem_append_left _ (List.mem_append_left s.name (by decide))
    exact hasShape_outside rfl rfl (trim_methodLine s) hfunc (by decide)
  have hreturnShape :
      HasShape inMethod s.returnLine (.code 1 ("return " ++ quoted s.tableName)) := by
    have hreturn : 'r' ∈ s.returnLine := List.mem_append_left (quoted s.tableName) (by decide)
    exact hasShape_outside rfl rfl (trim_returnLine s) hreturn (by decide)
  have hclosing : HasShape inMethod ['}'] (.code 0 ['}']) := .code rfl (by decide) (by decide)
  unfold methodLines methodShapes
  split
  · exact hblank.append (.cons hcomment hcommentShape (.cons (leads_methodLine hs) hmethodShape
      (.cons (leads_returnLine s _) hreturnShape (.cons rfl hclosing hblank))))
  · exact hblank

/-- A struct whose tags are raw and whose fields are named by identifiers is laid out in its
shapes. -/
theorem render_eq_layout (hs : s.IsRegular) (htags : ∀ f ∈ s.fields, IsRaw f.tag)
    (hids : ∀ f ∈ s.fields, isIdentifier f.name = true) : s.render = .ok (layout s.shapes) := by
  have hcomment : Leads .start ('/' :: '/' :: ' ' :: s.comment) .start := by
    unfold Leads State.start
    rw [scanLine_comment]
    rfl
  have hcommentShape :
      HasShape .start ('/' :: '/' :: ' ' :: s.comment) (.code 0 s.commentLine) :=
    hasShape_outside rfl rfl (trim_commentLine s) List.mem_cons_self (by decide)
  have htypeShape : HasShape .start s.typeLine (.code 0 s.typeLine) := by
    have htype : 't' ∈ s.typeLine :=
      List.mem_append_left _ (List.mem_append_left s.name (by decide))
    exact hasShape_outside rfl rfl (trim_typeLine s) htype (by decide)
  have hclosing : HasShape inBody ['}'] (.code 0 ['}']) := .code rfl (by decide) (by decide)
  have hclosed : Leads inBody ['}'] .start := rfl
  have hruns := Runs.cons hcomment hcommentShape (.cons (scanLine_typeLine hs) htypeShape
    ((runs_fields hs.fields htags hids).append (.cons hclosed hclosing (runs_methodLines hs))))
  unfold render
  rw [← splitOn_struct hs htags] at hruns
  exact format_eq_ok_iff.2 ⟨s.shapes, .start, hruns, rfl, rfl⟩

/-- The lines behind the body, without the last line break. -/
def methodTail (s : Struct) : List Text :=
  if s.hasTableName then [[], "// TableName .", s.methodLine, s.returnLine, ['}']] else []

theorem methodLines_eq (s : Struct) : s.methodLines = s.methodTail ++ [[]] := by
  unfold methodLines methodTail
  split <;> rfl

theorem reduce_methodShapes (n : Nat) :
    reduce id [] true false (linesOf n s.methodShapes) = s.methodTail := by
  unfold methodShapes methodTail
  split
  · rw [linesOf_cons rfl, linesOf_cons rfl, linesOf_cons rfl, linesOf_cons rfl, linesOf_cons rfl,
      linesOf_cons rfl]
    rfl
  · rw [linesOf_cons rfl]
    rfl

/-- The text of a struct is this one but for what stands in its comments: the line in front of it
and what trails the tags. -/
def IsWrittenIn (s : Struct) (text : Text) : Prop :=
  ∃ (comment : Text) (endings : List Text), endings.length = s.fields.length ∧
    (∀ e ∈ endings, IsTrailing e) ∧
    Text.splitOn '\n' text = ('/' :: '/' :: comment) :: s.typeLine ::
      (List.zipWith (· ++ ·) (codeLines s.fields) endings ++ ['}'] :: s.methodLines)

/-- The lines of the shapes of a struct, without the line break at the end. -/
theorem exists_layout_shapes (hs : s.IsRegular) : ∃ endings : List Text,
    endings.length = s.fields.length ∧ (∀ e ∈ endings, IsTrailing e) ∧
      layout s.shapes = (s.commentLine :: s.typeLine ::
        (List.zipWith (· ++ ·) (codeLines s.fields) endings ++ ['}'] :: s.methodTail)).flatMap
          (· ++ ['\n']) := by
  have hrows : ∀ f ∈ s.fields, f.row.length ≤ columnsOf s.shapes := by
    intro f hf
    have hmem : f.row ∈ s.shapes.map Shape.cells :=
      List.mem_map.2 ⟨f.shape, by simp [shapes, List.mem_map_of_mem hf], rfl⟩
    exact length_cells_le hmem
  obtain ⟨endings, hcount, htrailing, hlines⟩ := linesOf_fields hs.fields hrows
  refine ⟨endings, hcount, htrailing, ?_⟩
  let lines := s.commentLine :: s.typeLine ::
    (List.zipWith (· ++ ·) (codeLines s.fields) endings ++ [['}']])
  have hall : linesOf (columnsOf s.shapes) s.shapes =
      lines.map some ++ linesOf (columnsOf s.shapes) s.methodShapes := by
    generalize columnsOf s.shapes = n at hlines ⊢
    unfold shapes
    rw [linesOf_cons rfl, linesOf_cons rfl, linesOf_append_cons rfl, linesOf_cons rfl, hlines]
    simp [lines, Shape.text]
  have hmap : (lines.map some).map id = lines.map some := List.map_id _
  rw [layout_eq_of_le (Nat.le_refl _), hall, reduce_append hmap (List.cons_ne_nil _ _),
    reduce_methodShapes]
  simp [lines]

theorem newline_not_mem_codeLines (hs : s.IsRegular) (htags : ∀ f ∈ s.fields, IsRaw f.tag)
    {line : Text} (h : line ∈ codeLines s.fields) : '\n' ∉ line := by
  obtain ⟨f, hf, rfl⟩ := List.mem_map.1 h
  have hname := newline_not_mem_word (hs.fields f hf).name
  have htype := newline_not_mem_word (hs.fields f hf).type
  simp [Field.codeLine, padded, hname, htype, (htags f hf).2]

theorem newline_not_mem_methodTail (hs : s.IsRegular) : ∀ t ∈ s.methodTail, '\n' ∉ t := by
  unfold methodTail
  split
  · simp only [List.forall_mem_cons]
    exact ⟨nofun, by decide, newline_not_mem_methodLine hs, newline_not_mem_returnLine s,
      by decide, nofun⟩
  · exact nofun

theorem newline_not_mem_commentLine (hs : s.IsRegular) : '\n' ∉ s.commentLine := by
  intro hmem
  rw [← trim_commentLine] at hmem
  have hmem' := Text.mem_of_mem_trim hmem
  simp [hs.comment] at hmem'

/-- A struct that is laid out is written in its text. -/
theorem isWrittenIn_of_render (hs : s.IsRegular) (htags : ∀ f ∈ s.fields, IsRaw f.tag)
    {text : Text} (h : s.render = .ok text) : s.IsWrittenIn text := by
  have hids := (exists_render_iff hs htags).1 ⟨text, h⟩
  rw [render_eq_layout hs htags hids] at h
  cases h
  obtain ⟨endings, hcount, htrailing, hlayout⟩ := exists_layout_shapes hs
  have hfields : ∀ t ∈ List.zipWith (· ++ ·) (codeLines s.fields) endings, '\n' ∉ t := by
    intro t ht
    obtain ⟨i, hi, rfl⟩ := List.mem_iff_getElem.1 ht
    rw [List.getElem_zipWith, List.mem_append, not_or]
    exact ⟨newline_not_mem_codeLines hs htags (List.getElem_mem _),
      (htrailing _ (List.getElem_mem _)).newline_not_mem⟩
  have hlines : ∀ t ∈ s.commentLine :: s.typeLine ::
      (List.zipWith (· ++ ·) (codeLines s.fields) endings ++ ['}'] :: s.methodTail), '\n' ∉ t := by
    simp only [List.forall_mem_cons, List.forall_mem_append]
    exact ⟨newline_not_mem_commentLine hs, newline_not_mem_typeLine hs, hfields, by decide,
      newline_not_mem_methodTail hs⟩
  refine ⟨Text.trimEnd (' ' :: s.comment), endings, hcount, htrailing, ?_⟩
  rw [hlayout, Text.splitOn_lines hlines, methodLines_eq]
  simp [commentLine]

end Struct

end SchemaModels.Go

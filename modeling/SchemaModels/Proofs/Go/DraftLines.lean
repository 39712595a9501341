import SchemaModels.Proofs.Go.FieldRows
import SchemaModels.Proofs.Go.LineRuns
import SchemaModels.Proofs.Go.StringLiterals
import SchemaModels.Proofs.Go.StructReading

/-!
# When a struct can be laid out

The draft of a struct is taken line by line (`splitOn_struct`). Where its names and types are words,
its comments stand on one line each and its tags are raw, each of its lines leads where the next one
is expected, and none is refused but that of a field whose name is no identifier
(`formats_field`). So the struct is laid out exactly if the names of its fields are identifiers
(`exists_render_iff`).
-/

namespace SchemaModels.Go

namespace Format

/-! ### Lines that run to an end -/

/-- The lines run from the state to one in which a text may end. -/
def Formats (s : State) (ts : List Text) : Prop :=
  ∃ shapes final, Runs s ts shapes final ∧ endText final = .ok ()

theorem exists_format_iff {source : Text} :
    (∃ text, format source = .ok text) ↔ Formats .start (Text.splitOn '\n' source) := by
  constructor
  · rintro ⟨text, h⟩
    obtain ⟨shapes, final, hruns, hend, -⟩ := format_eq_ok_iff.1 h
    exact ⟨shapes, final, hruns, hend⟩
  · rintro ⟨shapes, final, hruns, hend⟩
    exact ⟨_, format_eq_ok_iff.2 ⟨shapes, final, hruns, hend, rfl⟩⟩

theorem Formats.exists_shape {s : State} {t : Text} {ts : List Text} (h : Formats s (t :: ts)) :
    ∃ shape, HasShape s t shape := by
  obtain ⟨_, _, hruns, -⟩ := h
  cases hruns with
  | cons _ hshape _ => exact ⟨_, hshape⟩

theorem formats_cons {s s' : State} {t : Text} {ts : List Text} {shape : Shape}
    (hleads : Leads s t s') (hshape : HasShape s t shape) :
    Formats s (t :: ts) ↔ Formats s' ts := by
  constructor
  · rintro ⟨_, final, hruns, hend⟩
    cases hruns with
    | cons hleads' _ h =>
        obtain rfl := Except.ok.inj (hleads.symm.trans hleads')
        exact ⟨_, final, h, hend⟩
  · rintro ⟨shapes, final, hruns, hend⟩
    exact ⟨shape :: shapes, final, .cons hleads hshape hruns, hend⟩

/-- A line that is not blank has the shape of code where no struct is open. -/
theorem hasShape_outside {s : State} {t trimmed : Text} {c : Char} (hs : s.mode = .code)
    (houtside : s.stack.head?.any (·.isStruct) = false) (htrim : Text.trim t = trimmed) (hc : c ∈ t)
    (hblank : Text.isBlank c = false) : HasShape s t (.code (s.indent trimmed) trimmed) := by
  subst htrim
  refine .code ?_ (Text.trim_ne_nil hc hblank) ?_
  · simp [State.isInside, hs]
  · simp [State.isField, houtside]

theorem formats_nil_cons {s : State} {ts : List Text} (hs : s.mode = .code) :
    Formats s ([] :: ts) ↔ Formats s ts := by
  have hinside : s.isInside = false := by simp [State.isInside, hs]
  exact formats_cons (leads_nil hs) (.blank hinside rfl)

theorem formats_comment (t : Text) (ts : List Text) :
    Formats .start (('/' :: '/' :: t) :: ts) ↔ Formats .start ts := by
  have hleads : Leads .start ('/' :: '/' :: t) .start := by
    unfold Leads State.start
    rw [scanLine_comment]
    rfl
  exact formats_cons hleads (hasShape_outside rfl rfl rfl List.mem_cons_self (by decide))

end Format

open Format

/-! ### The line of a field -/

/-- A word begins neither a tag nor a comment. -/
theorem start_of_word {w : Text} (hw : w.all isWordChar = true) :
    w.head? ≠ some '\x60' ∧ startsComment w = false := by
  have hback : '\x60' ∉ w := Text.not_mem_of_all hw (by decide)
  have hslash : '/' ∉ w := Text.not_mem_of_all hw (by decide)
  refine ⟨fun h => hback (List.mem_of_head? h), Bool.eq_false_iff.2 fun h => ?_⟩
  obtain ⟨u, rfl⟩ := startsComment_iff.1 h
  exact hslash List.mem_cons_self

/-- The cell of a field's comment, if it has one. -/
def Field.commentRow (f : Field) : Row :=
  match f.comment with
  | some c => [Text.trimEnd ('/' :: '/' :: ' ' :: c)]
  | none => []

/-- The cells of a field. -/
def Field.row (f : Field) : Row := f.name :: f.type :: ('\x60' :: f.tag ++ ['\x60']) :: f.commentRow

theorem commentCell_ending (f : Field) :
    commentCell f.name (Text.trimStart (Text.trimEnd f.ending)) = .ok f.commentRow := by
  unfold Field.ending Field.commentRow
  cases f.comment with
  | none => rfl
  | some c =>
      have hblank : Text.isBlank '/' = false := by decide
      have hslashes : (" // " : Text) ++ c = [' ', '/'] ++ '/' :: ' ' :: c := rfl
      have hstart : ∀ t, Text.trimStart ([' ', '/'] ++ t) = '/' :: t := fun _ => rfl
      have hcell : Text.trimEnd ('/' :: '/' :: ' ' :: c) = '/' :: '/' :: Text.trimEnd (' ' :: c) :=
        Text.trimEnd_append_cons hblank ['/'] (' ' :: c)
      have hcomment : commentCell f.name (Text.trimEnd ('/' :: '/' :: ' ' :: c)) =
          .ok [Text.trimEnd (Text.trimEnd ('/' :: '/' :: ' ' :: c))] := if_pos (by rw [hcell]; rfl)
      dsimp only
      rw [hslashes, Text.trimEnd_append_cons hblank, hstart, ← hcell, hcomment,
        Text.trimEnd_trimEnd]

/-- The line of a field without the blanks around it. -/
theorem trim_line {f : Field} (hf : f.IsRegular) (hne : f.name ≠ []) : Text.trim f.line =
    f.name ++ ' ' :: (f.type ++ ' ' :: '\x60' :: (f.tag ++ '\x60' :: Text.trimEnd f.ending)) := by
  have htrim : Text.trim f.line = _ :=
    trim_fieldText hf.name hf.type hf.type_ne (f.tag ++ '\x60' :: f.ending)
  rw [if_neg hne, Text.trimEnd_append_cons (by decide), List.append_assoc] at htrim
  exact htrim

/-- A field whose name is an identifier is cut into its cells. -/
theorem fieldCells_line {f : Field} (hf : f.IsRegular) (htag : IsRaw f.tag)
    (hid : isIdentifier f.name = true) : fieldCells (Text.trim f.line) = .ok f.row := by
  have hback : ∀ t, Text.trimStart ('\x60' :: t) = '\x60' :: t := fun _ => rfl
  have hne : f.name ≠ [] := by
    intro hnil
    rw [hnil] at hid
    cases hid
  have hfirst : splitBlank (Text.trim f.line) =
      (f.name, f.type ++ ' ' :: '\x60' :: (f.tag ++ '\x60' :: Text.trimEnd f.ending)) := by
    rw [trim_line hf hne, splitBlank_word hf.name, trimStart_word hf.type hf.type_ne]
  have hsecond := splitBlank_word hf.type ('\x60' :: (f.tag ++ '\x60' :: Text.trimEnd f.ending))
  rw [hback] at hsecond
  have htail : tagCells f.name ('\x60' :: (f.tag ++ '\x60' :: Text.trimEnd f.ending)) =
      .ok (('\x60' :: f.tag ++ ['\x60']) :: f.commentRow) := by
    rw [tagCells_backquote htag.1, commentCell_ending]
    rfl
  obtain ⟨hhead, hstart⟩ := start_of_word hf.type
  exact fieldCells_eq_ok_iff.2 ⟨f.name, _, f.type, _, _, hfirst, hsecond, hid, hf.type_ne,
    hhead, hstart, htail, rfl⟩

theorem exists_fieldCells_iff {f : Field} (hf : f.IsRegular) (htag : IsRaw f.tag) :
    (∃ row, fieldCells (Text.trim f.line) = .ok row) ↔ isIdentifier f.name = true := by
  constructor
  · rintro ⟨row, hrow⟩
    obtain ⟨hne, -⟩ := of_fieldCells_fieldText hf.name hf.type hf.type_ne
      (w := f.tag ++ '\x60' :: f.ending) hrow
    obtain ⟨name, rest, _, _, _, hsplit, -, hid, -⟩ := fieldCells_eq_ok_iff.1 hrow
    rw [trim_line hf hne, splitBlank_word hf.name] at hsplit
    cases hsplit
    exact hid
  · exact fun hid => ⟨f.row, fieldCells_line hf htag hid⟩

/-- A line with the cells of a field has their shape in the body of a struct. -/
theorem hasShape_field {f : Field} (hf : f.IsRegular) {row : Row}
    (hrow : fieldCells (Text.trim f.line) = .ok row) : HasShape inBody f.line (.field 1 row) := by
  obtain ⟨c, u, htrim, hc⟩ := trim_fieldText_cons hf.name hf.type hf.type_ne
    (f.tag ++ '\x60' :: f.ending)
  have hline : Text.trim f.line = c :: u := htrim
  have hmarks : c ∉ ['/', '}'] := Text.not_mem_of_any hc (by decide)
  simp only [List.mem_cons, List.not_mem_nil, or_false, not_or] at hmarks
  have hstart : startsComment (c :: u) = false := by
    refine Bool.eq_false_iff.2 fun hstarts => ?_
    obtain ⟨v, hv⟩ := startsComment_iff.1 hstarts
    exact hmarks.1 (List.cons.inj hv).1
  have hfield : inBody.isField (Text.trim f.line) = true := by
    simp [State.isField, inBody, hline, hstart, hmarks.2]
  exact .field rfl (by simp [hline]) hfield hrow

/-- A field is refused only for its name. -/
theorem formats_field {f : Field} (hf : f.IsRegular) (htag : IsRaw f.tag) (ts : List Text) :
    Formats inBody (f.line :: ts) ↔ isIdentifier f.name = true ∧ Formats inBody ts := by
  obtain ⟨c, u, htrim, hc⟩ := trim_fieldText_cons hf.name hf.type hf.type_ne
    (f.tag ++ '\x60' :: f.ending)
  have hleads : Leads inBody f.line inBody := scanLine_field hf htag
  rw [← exists_fieldCells_iff hf htag]
  constructor
  · intro h
    obtain ⟨shape, hshape⟩ := h.exists_shape
    obtain ⟨row, hrow, -⟩ := shape_inBody (n := 0) (shape_eq_ok_iff.2 hshape) htrim hc
    exact ⟨⟨row, hrow⟩, (formats_cons hleads hshape).1 h⟩
  · rintro ⟨⟨row, hrow⟩, h⟩
    exact (formats_cons hleads (hasShape_field hf hrow)).2 h

theorem formats_fields {fs : List Field} (hfs : ∀ f ∈ fs, f.IsRegular)
    (htags : ∀ f ∈ fs, IsRaw f.tag) (ts : List Text) :
    Formats inBody (fs.map Field.line ++ ts) ↔
      (∀ f ∈ fs, isIdentifier f.name = true) ∧ Formats inBody ts := by
  induction fs with
  | nil => simp
  | cons f fs ih =>
      have hrest := ih (fun g hg => hfs g (List.mem_cons_of_mem f hg))
        fun g hg => htags g (List.mem_cons_of_mem f hg)
      rw [List.map_cons, List.cons_append, formats_field (hfs f List.mem_cons_self)
        (htags f List.mem_cons_self), hrest, List.forall_mem_cons, and_assoc]

/-! ### The lines of a struct -/

namespace Struct

variable {s : Struct}

/-- The line that opens the body of the method. -/
def methodLine (s : Struct) : Text := "func (m *" ++ s.name ++ ") TableName() string \x7b"

/-- The only line in the body of the method. -/
def returnLine (s : Struct) : Text := "\treturn " ++ quoted s.tableName

/-- The lines behind the one that closes the body of the struct. -/
def methodLines (s : Struct) : List Text :=
  if s.hasTableName then [[], "// TableName .", s.methodLine, s.returnLine, "\x7d", []] else [[]]

theorem newline_not_mem_methodLine (hs : s.IsRegular) : '\n' ∉ s.methodLine := by
  have hfront : '\n' ∉ ("func (m *" : Text) := by decide
  have hbehind : '\n' ∉ (") TableName() string \x7b" : Text) := by decide
  unfold methodLine
  rw [List.mem_append, List.mem_append]
  exact fun h => h.elim (fun h => h.elim hfront (newline_not_mem_word hs.name)) hbehind

theorem newline_not_mem_returnLine (s : Struct) : '\n' ∉ s.returnLine := by
  have hfront : '\n' ∉ ("\treturn " : Text) := by decide
  intro h
  exact (List.mem_append.1 h).elim hfront (newline_not_mem_quoted s.tableName)

theorem splitOn_methodText (hs : s.IsRegular) :
    Text.splitOn '\n' s.methodText = s.methodLines := by
  have hcomment : ("\n// TableName .\n" : Text) = '\n' :: "// TableName ." ++ ['\n'] := rfl
  have hmethod : (") TableName() string \x7b\n" : Text) =
      ") TableName() string \x7b" ++ ['\n'] := rfl
  have hclosing : ("\n\x7d\n" : Text) = '\n' :: "\x7d" ++ ['\n'] := rfl
  have hlines : s.tableNameMethod = [[], "// TableName .", s.methodLine, s.returnLine,
      ("\x7d" : Text)].flatMap (· ++ ['\n']) := by
    unfold tableNameMethod methodLine returnLine
    rw [hcomment, hmethod, hclosing]
    simp
  have hnone : ∀ t ∈ [[], ("// TableName ." : Text), s.methodLine, s.returnLine, "\x7d"],
      '\n' ∉ t := by
    simp only [List.forall_mem_cons]
    exact ⟨nofun, by decide, newline_not_mem_methodLine hs, newline_not_mem_returnLine s,
      by decide, nofun⟩
  unfold methodText methodLines
  split
  · rw [hlines, Text.splitOn_lines hnone]
    rfl
  · rfl

theorem splitOn_fields {fs : List Field} (hfs : ∀ f ∈ fs, f.IsRegular)
    (htags : ∀ f ∈ fs, IsRaw f.tag) (rest : Text) :
    Text.splitOn '\n' (fs.flatMap Field.draft ++ rest) =
      fs.map Field.line ++ Text.splitOn '\n' rest := by
  induction fs with
  | nil => rfl
  | cons f fs ih =>
      have hrest := ih (fun g hg => hfs g (List.mem_cons_of_mem f hg))
        fun g hg => htags g (List.mem_cons_of_mem f hg)
      rw [List.flatMap_cons, List.append_assoc, splitOn_draft (hfs f List.mem_cons_self)
        (htags f List.mem_cons_self), hrest]
      rfl

/-- The lines of a draft. -/
theorem splitOn_struct (hs : s.IsRegular) (htags : ∀ f ∈ s.fields, IsRaw f.tag) :
    Text.splitOn '\n' s.draft = ('/' :: '/' :: ' ' :: s.comment) :: s.typeLine ::
      (s.fields.map Field.line ++ ['}'] :: s.methodLines) := by
  have hcomment : '\n' ∉ '/' :: '/' :: ' ' :: s.comment := by simp [hs.comment]
  have hclosing : '\n' ∉ ['}'] := by decide
  rw [draft_eq_lines, Text.splitOn_append, Text.splitOn_of_not_mem hcomment, Text.splitOn_append,
    Text.splitOn_of_not_mem (newline_not_mem_typeLine hs), splitOn_fields hs.fields htags,
    Text.splitOn_append, Text.splitOn_of_not_mem hclosing, splitOn_methodText hs]
  rfl

/-! ### All lines -/

/-- What is open inside the body of the method. -/
def inMethod : State := ⟨.code, [⟨.curly, false⟩]⟩

theorem leads_methodLine (hs : s.IsRegular) : Leads .start s.methodLine inMethod := by
  have hfront : ("func (m *" : Text) = "func " ++ '(' :: "m *" := rfl
  have hbehind : (") TableName() string \x7b" : Text) =
      ')' :: (" TableName" ++ '(' :: ')' :: (" string " ++ ['{'])) := rfl
  have hsplit : s.methodLine = "func " ++ '(' :: (("m *" ++ s.name) ++
      ')' :: (" TableName" ++ '(' :: ')' :: (" string " ++ ['{']))) := by
    unfold methodLine
    rw [hfront, hbehind]
    simp only [List.append_assoc, List.cons_append]
  have hname : ("m *" ++ s.name : Text).all isQuiet = true := by
    have hreceiver : ("m *" : Text).all isQuiet = true := by decide
    rw [List.all_append, hreceiver, all_isQuiet hs.name]
    rfl
  have hopen : ∀ before next, step before ⟨.code, []⟩ '(' next =
      .ok ⟨.code, [⟨.round, false⟩]⟩ := fun _ _ => rfl
  have hclose : ∀ before next, step before ⟨.code, [⟨.round, false⟩]⟩ ')' next =
      .ok ⟨.code, []⟩ := fun _ _ => rfl
  have hbody : ∀ before, step (" string ".toList.reverse ++ before) ⟨.code, []⟩ '{' none =
      .ok inMethod := fun _ => rfl
  unfold Leads State.start
  rw [hsplit, scanLine_quiet _ _ (by decide), scanLine_of_step (hopen _ _),
    scanLine_quiet _ _ hname, scanLine_of_step (hclose _ _), scanLine_quiet _ _ (by decide),
    scanLine_of_step (hopen _ _), scanLine_of_step (hclose _ _), scanLine_quiet _ _ (by decide),
    scanLine_of_step (hbody _)]
  rfl

theorem leads_returnLine (s : Struct) (stack : List Open) :
    Leads ⟨.code, stack⟩ s.returnLine ⟨.code, stack⟩ := by
  have hquiet : ("\treturn " : Text).all isQuiet = true := by decide
  unfold Leads returnLine
  rw [← List.append_nil (quoted s.tableName), scanLine_quiet _ _ hquiet, scanLine_quoted]
  rfl

theorem formats_methodLines (hs : s.IsRegular) : Formats .start s.methodLines := by
  have hend : Formats .start [[]] := (formats_nil_cons rfl).2 ⟨[], .start, .nil _, rfl⟩
  unfold methodLines
  split
  · have hfunc : 'f' ∈ s.methodLine :=
      List.mem_append_left _ (List.mem_append_left s.name (by decide))
    have hreturn : 'r' ∈ s.returnLine := List.mem_append_left (quoted s.tableName) (by decide)
    have hreturns : Leads inMethod s.returnLine inMethod := leads_returnLine s _
    have hclosing : Leads inMethod ['}'] .start := rfl
    rw [formats_nil_cons rfl]
    refine (formats_comment _ _).2 ?_
    rw [formats_cons (leads_methodLine hs) (hasShape_outside rfl rfl rfl hfunc (by decide)),
      formats_cons hreturns (hasShape_outside rfl rfl rfl hreturn (by decide))]
    exact (formats_cons hclosing (hasShape_outside rfl rfl rfl List.mem_cons_self (by decide))).2 hend
  · exact hend

/-- A struct is laid out exactly if the names of its fields are identifiers. -/
theorem exists_render_iff (hs : s.IsRegular) (htags : ∀ f ∈ s.fields, IsRaw f.tag) :
    (∃ text, s.render = .ok text) ↔ ∀ f ∈ s.fields, isIdentifier f.name = true := by
  have htype : 't' ∈ s.typeLine :=
    List.mem_append_left _ (List.mem_append_left s.name (by decide))
  have hclosing : Leads inBody ['}'] .start := rfl
  have hshape : HasShape inBody ['}'] (.code 0 ['}']) := .code rfl (by decide) (by decide)
  unfold render
  rw [exists_format_iff, splitOn_struct hs htags, formats_comment,
    formats_cons (scanLine_typeLine hs) (hasShape_outside rfl rfl rfl htype (by decide)),
    formats_fields hs.fields htags, formats_cons hclosing hshape]
  exact and_iff_left (formats_methodLines hs)

end Struct

end SchemaModels.Go

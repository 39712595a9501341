import SchemaModels.Proofs.Go.FieldLines
import SchemaModels.Proofs.Go.Layout

/-!
# Reading a struct

The body of a struct is read line by line: the first word of a line is a field's name, the second
one its type, and the text between its first two backquotes its tag. A struct that has been laid out
reads back exactly if no tag closes early (`readFields_eq_iff`). A tag that does need not fail the
layout, and then lines are read that no field stands for.
-/

namespace SchemaModels.Go

open Format

/-! ### Reading -/

/-- The text between the first two backquotes of a line. -/
def literal? (line : Text) : Option Text :=
  match line.dropWhile (· ≠ '\x60') with
  | [] => none
  | _ :: t => if '\x60' ∈ t then some (t.takeWhile (· ≠ '\x60')) else none

/-- What a line says of a field. -/
structure FieldReading where
  name : Text
  type : Text
  tag : Text
  deriving DecidableEq, Repr

def readField (line : Text) : Option FieldReading := do
  let tag ← literal? line
  let (name, rest) := splitBlank (Text.trimStart line)
  return ⟨name, (splitBlank rest).1, tag⟩

def Field.reading (f : Field) : FieldReading := ⟨f.name, f.type, f.tag⟩

/-- The lines between the one that opens a struct, which comments may precede, and the one that
closes it. -/
def bodyLines (text : Text) : List Text :=
  (((Text.splitOn '\n' text).dropWhile startsComment).drop 1).takeWhile (· ≠ ['}'])

def readFields (text : Text) : Option (List FieldReading) := (bodyLines text).mapM readField

theorem isRaw_of_literal? {line tag : Text} (hline : '\n' ∉ line) (h : literal? line = some tag) :
    IsRaw tag := by
  unfold literal? at h
  split at h
  · cases h
  · rename_i c t hdrop
    split at h
    · cases h
      have hmem : ∀ d ∈ t, d ∈ line := fun d hd =>
        (List.dropWhile_suffix _).mem (hdrop ▸ List.mem_cons_of_mem c hd)
      constructor
      · exact Text.not_mem_of_all List.all_takeWhile (by decide)
      · exact fun hm => hline (hmem _ ((List.takeWhile_sublist _).mem hm))
    · cases h

theorem exists_of_mapM {α β : Type} {f : α → Option β} {as : List α} {bs : List β}
    (h : as.mapM f = some bs) {b : β} (hb : b ∈ bs) : ∃ a ∈ as, f a = some b := by
  induction as generalizing bs with
  | nil =>
      cases h
      cases hb
  | cons a as ih =>
      rw [List.mapM_cons] at h
      obtain ⟨b', hb', h⟩ := Option.bind_eq_some_iff.1 h
      obtain ⟨bs', hbs', h⟩ := Option.bind_eq_some_iff.1 h
      cases h
      obtain rfl | hb := List.mem_cons.1 hb
      · exact ⟨a, List.mem_cons_self, hb'⟩
      · obtain ⟨a', ha', hab⟩ := ih hbs' hb
        exact ⟨a', List.mem_cons_of_mem a ha', hab⟩

/-- A tag that has been read holds neither backquotes nor line breaks. -/
theorem isRaw_of_readFields {text : Text} {rs : List FieldReading} (h : readFields text = some rs)
    {r : FieldReading} (hr : r ∈ rs) : IsRaw r.tag := by
  obtain ⟨line, hline, hread⟩ := exists_of_mapM h hr
  obtain ⟨tag, htag, hread⟩ := Option.bind_eq_some_iff.1 hread
  cases hread
  have hbody := (List.takeWhile_sublist _).mem hline
  have hmem : line ∈ Text.splitOn '\n' text :=
    (List.dropWhile_suffix _).mem ((List.drop_suffix 1 _).mem hbody)
  exact isRaw_of_literal? (Text.not_mem_of_mem_splitOn hmem) htag

theorem IsRaw.not_closesEarly {tag : Text} (h : IsRaw tag) : ¬ ClosesEarly tag := by
  rintro ⟨before, behind, rfl, -⟩
  exact h.1 (List.mem_append_right before List.mem_cons_self)

/-! ### The line of a field -/

theorem literal?_append {front tag : Text} (hfront : '\x60' ∉ front) (htag : '\x60' ∉ tag)
    (ending : Text) : literal? (front ++ '\x60' :: (tag ++ '\x60' :: ending)) = some tag := by
  unfold literal?
  rw [Text.dropWhile_first (Text.all_ne hfront) (by decide)]
  dsimp only
  rw [if_pos (by simp), Text.takeWhile_first (Text.all_ne htag) (by decide)]

theorem splitBlank_spaced {word : Text} (hword : word.all isWordChar = true) {n : Nat} {next : Text}
    (hnext : next.all isWordChar = true) (hne : next ≠ []) (t : Text) :
    splitBlank (word ++ List.replicate (n + 1) ' ' ++ (next ++ t)) = (word, next ++ t) := by
  have hblanks : (List.replicate n ' ').all Text.isBlank = true := by
    simp [show Text.isBlank ' ' = true by decide]
  rw [List.replicate_succ, List.append_assoc, List.cons_append, splitBlank_word hword,
    Text.trimStart_append hblanks, trimStart_word hnext hne]

/-- The line of a field reads back. -/
theorem readField_spaced {name type tag line : Text} {comment : Row}
    (hname : name.all isWordChar = true) (hne : name ≠ []) (htype : type.all isWordChar = true)
    (htypeNe : type ≠ []) (htag : '\x60' ∉ tag)
    (h : Spaced (name :: type :: ('\x60' :: tag ++ ['\x60']) :: comment) line) :
    readField ('\t' :: line) = some ⟨name, type, tag⟩ := by
  obtain ⟨n, afterName, rfl, m, afterType, rfl, hspaced⟩ := h
  obtain ⟨ending, rfl⟩ := hspaced.head
  have hback : ∀ {w : Text}, w.all isWordChar = true → '\x60' ∉ w := fun hw =>
    Text.not_mem_of_all hw (by decide)
  have hliteral : literal? ('\t' :: (name ++ List.replicate (n + 1) ' ' ++ (type ++
      List.replicate (m + 1) ' ' ++ ('\x60' :: tag ++ ['\x60'] ++ ending)))) = some tag := by
    have hfront : '\x60' ∉ '\t' :: (name ++ List.replicate (n + 1) ' ' ++ (type ++
        List.replicate (m + 1) ' ')) := by
      simp [hback hname, hback htype]
    simpa using literal?_append hfront htag ending
  have hwords : ∀ behind, splitBlank (Text.trimStart ('\t' :: (name ++ List.replicate (n + 1) ' ' ++
      (type ++ List.replicate (m + 1) ' ' ++ behind)))) =
      (name, type ++ (List.replicate (m + 1) ' ' ++ behind)) := by
    intro behind
    have htab : ∀ t, Text.trimStart ('\t' :: t) = Text.trimStart t := fun _ => rfl
    rw [htab, List.append_assoc name, trimStart_word hname hne, List.append_assoc type,
      ← List.append_assoc name, splitBlank_spaced hname htype htypeNe]
  have hsecond : ∀ behind, (splitBlank (type ++ (List.replicate (m + 1) ' ' ++ behind))).1 =
      type := by
    intro behind
    rw [List.replicate_succ, List.cons_append, splitBlank_word htype]
  unfold readField
  rw [hliteral, hwords]
  exact congrArg (fun t => some (FieldReading.mk name t tag)) (hsecond _)

theorem newline_not_mem_spaced {row : Row} {line : Text} (h : Spaced row line)
    (hrow : ∀ cell ∈ row, '\n' ∉ cell) : '\n' ∉ line := by
  intro hm
  obtain hblank | ⟨cell, hcell, hc⟩ := h.mem hm
  · exact absurd hblank (by decide)
  · exact hrow cell hcell hc

/-! ### The lines of a struct -/

/-- The fields of a struct read back from the lines that they are laid out in. -/
theorem Format.HasShapes.fields {fs : List Field} (hfs : ∀ f ∈ fs, f.IsRegular)
    (hopen : ∀ f ∈ fs, ¬ ClosesEarly f.tag) {n : Nat} {rest : Text} {shapes : List Shape}
    {lines : List (Option Text)}
    (h : HasShapes inBody n (Text.splitOn '\n' (fs.flatMap Field.draft ++ rest)) shapes)
    (hlaid : IsLaidOut shapes lines) :
    ∃ (texts : List Text) (n' : Nat) (shapes' : List Shape) (lines' : List (Option Text)),
      lines = texts.map some ++ lines' ∧
      texts.mapM readField = some (fs.map Field.reading) ∧
      (∀ t ∈ texts, '\n' ∉ t ∧ t ≠ ['}']) ∧
      HasShapes inBody n' (Text.splitOn '\n' rest) shapes' ∧ IsLaidOut shapes' lines' := by
  induction fs generalizing n shapes lines with
  | nil => exact ⟨[], n, shapes, lines, rfl, rfl, nofun, h, hlaid⟩
  | cons f fs ih =>
      have hf := hfs f List.mem_cons_self
      rw [List.flatMap_cons, List.append_assoc] at h
      obtain ⟨hname, hraw, comment, shapes', rfl, hcomment, hrest⟩ :=
        h.field hf (hopen f List.mem_cons_self)
      obtain ⟨aligned, lines', rfl, hspaced, hlaid'⟩ := hlaid
      obtain ⟨texts, n', shapes'', lines'', rfl, hread, htexts, hshapes, hlaid''⟩ :=
        ih (fun g hg => hfs g (List.mem_cons_of_mem f hg))
          (fun g hg => hopen g (List.mem_cons_of_mem f hg)) hrest hlaid'
      have hline := readField_spaced hf.name hname hf.type hf.type_ne hraw.1 hspaced
      have hcells : ∀ cell ∈ f.name :: f.type :: ('\x60' :: f.tag ++ ['\x60']) :: comment,
          '\n' ∉ cell := by
        intro cell hcell
        simp only [List.mem_cons] at hcell
        rcases hcell with rfl | rfl | rfl | hcell
        · exact newline_not_mem_word hf.name
        · exact newline_not_mem_word hf.type
        · simp [hraw.2]
        · exact hcomment cell hcell
      refine ⟨('\t' :: aligned) :: texts, n', shapes'', lines'', rfl, ?_, fun t ht => ?_, hshapes,
        hlaid''⟩
      · rw [List.mapM_cons, hline, hread]
        rfl
      · obtain rfl | ht := List.mem_cons.1 ht
        · exact ⟨by simp [newline_not_mem_spaced hspaced hcells], nofun⟩
        · exact htexts t ht

namespace Struct

/-- The name of a struct and its fields' names and types are words, and its comments stand on one
line each. -/
structure IsRegular (s : Struct) : Prop where
  name : s.name.all isWordChar = true
  comment : '\n' ∉ s.comment
  fields : ∀ f ∈ s.fields, f.IsRegular

/-- The line that opens the body of a struct. -/
def typeLine (s : Struct) : Text := "type " ++ s.name ++ " struct \x7b"

theorem typeLine_eq (s : Struct) : s.typeLine = "type " ++ s.name ++ " struct \x7b" := rfl

/-- What is behind the line that closes the body of a struct. -/
def methodText (s : Struct) : Text := if s.hasTableName then s.tableNameMethod else []

theorem draft_eq_lines (s : Struct) : s.draft = ('/' :: '/' :: ' ' :: s.comment) ++ '\n' ::
    (s.typeLine ++ '\n' :: (s.fields.flatMap Field.draft ++ (['}'] ++ '\n' :: s.methodText))) := by
  have hslashes : ("// " : Text) = ['/', '/', ' '] := rfl
  have htype : ("\ntype " : Text) = '\n' :: "type " := rfl
  have hstruct : (" struct \x7b\n" : Text) = " struct \x7b" ++ ['\n'] := rfl
  have hclosing : ("\x7d\n" : Text) = ['}', '\n'] := rfl
  unfold draft methodText
  rw [typeLine_eq, hslashes, htype, hstruct, hclosing]
  generalize (if s.hasTableName then s.tableNameMethod else []) = behind
  simp only [List.append_assoc, List.cons_append, List.nil_append]

theorem draft_eq (s : Struct) : ∃ behind, s.draft = ('/' :: '/' :: ' ' :: s.comment) ++ '\n' ::
    (s.typeLine ++ '\n' :: (s.fields.flatMap Field.draft ++ (['}'] ++ '\n' :: behind))) :=
  ⟨s.methodText, s.draft_eq_lines⟩

theorem scanLine_typeLine {s : Struct} (hs : s.IsRegular) :
    scanLine [] .start s.typeLine >>= endLine = .ok inBody := by
  let front : Text := "type " ++ s.name ++ " struct "
  have hsplit : s.typeLine = front ++ ['{'] := by
    simp only [typeLine_eq, front, List.append_assoc]
    rfl
  have hquiet : front.all isQuiet = true := by
    have htype : ("type " : Text).all isQuiet = true := by decide
    have hstruct : (" struct " : Text).all isQuiet = true := by decide
    rw [List.all_append, List.all_append, htype, hstruct, all_isQuiet hs.name]
    rfl
  have hends : endsInStruct front.reverse = true := by
    rw [List.reverse_append]
    rfl
  have hopen : step (front.reverse ++ []) .start '{' none = .ok inBody := by
    simp [step, State.start, bracket, Bracket.opened?, hends, inBody, Mode.after, codeMode, bind,
      Except.bind, pure, Except.pure]
  rw [hsplit, State.start, scanLine_quiet _ _ hquiet, ← State.start, scanLine_of_step hopen]
  rfl

theorem trim_typeLine (s : Struct) : Text.trim s.typeLine = s.typeLine := by
  have hsplit : s.typeLine = ("type " ++ s.name ++ " struct ") ++ '{' :: [] := by
    simp only [typeLine_eq, List.append_assoc]
    rfl
  have hstart : Text.trimStart s.typeLine = s.typeLine :=
    Text.trimStart_cons (c := 't') (by decide) ("ype " ++ s.name ++ " struct \x7b")
  rw [Text.trim, hstart, hsplit, Text.trimEnd_append_cons (by decide)]
  rfl

theorem shape_code {l : Line} {shape : Shape} (h : l.shape = .ok shape)
    (hverbatim : l.isVerbatim = false) (hfield : l.isField = false) (hne : Text.trim l.text ≠ []) :
    shape = .code (if (Text.trim l.text).head?.any isClosing then l.depth - 1 else l.depth)
      (Text.trim l.text) := by
  unfold Line.shape at h
  dsimp only at h
  rw [if_neg (by simp [hverbatim]), if_neg hne, if_neg (by simp [hfield])] at h
  exact (Except.ok.inj h).symm

/-- A comment in front of a struct is laid out as it is, without the blanks at its end. -/
theorem shapes_comment {n : Nat} {t : Text} {ts : List Text} {shapes : List Shape}
    (h : HasShapes .start n (('/' :: '/' :: t) :: ts) shapes) :
    ∃ shapes', shapes = .code 0 ('/' :: '/' :: Text.trimEnd t) :: shapes' ∧
      HasShapes .start (n + 1) ts shapes' := by
  obtain ⟨s', shape, shapes', hscan, hshape, hrest, rfl⟩ := h.cons
  rw [State.start, scanLine_comment] at hscan
  cases hscan
  have htrim : Text.trim ('/' :: '/' :: t) = '/' :: '/' :: Text.trimEnd t := by
    rw [Text.trim, Text.trimStart_cons (by decide)]
    exact Text.trimEnd_append_cons (by decide) ['/'] t
  have hcode := shape_code hshape rfl rfl (by rw [Line.at, htrim]; exact List.cons_ne_nil _ _)
  rw [Line.at, htrim] at hcode
  exact ⟨shapes', hcode ▸ rfl, hrest⟩

theorem shapes_typeLine {s : Struct} (hs : s.IsRegular) {n : Nat} {ts : List Text}
    {shapes : List Shape} (h : HasShapes .start n (s.typeLine :: ts) shapes) :
    ∃ shapes', shapes = .code 0 s.typeLine :: shapes' ∧ HasShapes inBody (n + 1) ts shapes' := by
  obtain ⟨s', shape, shapes', hscan, hshape, hrest, rfl⟩ := h.cons
  rw [scanLine_typeLine hs] at hscan
  cases hscan
  have hcode := shape_code hshape rfl rfl
    (by rw [Line.at, trim_typeLine]; exact List.cons_ne_nil _ _)
  rw [Line.at, trim_typeLine] at hcode
  exact ⟨shapes', hcode ▸ rfl, hrest⟩

theorem shapes_closing {n : Nat} {ts : List Text} {shapes : List Shape}
    (h : HasShapes inBody n (['}'] :: ts) shapes) :
    ∃ shapes', shapes = .code 0 ['}'] :: shapes' := by
  obtain ⟨s', shape, shapes', -, hshape, -, rfl⟩ := h.cons
  exact ⟨shapes', shape_code hshape rfl rfl (List.cons_ne_nil _ _) ▸ rfl⟩

theorem newline_not_mem_typeLine {s : Struct} (hs : s.IsRegular) : '\n' ∉ s.typeLine := by
  have htype : '\n' ∉ ("type " : Text) := by decide
  have hstruct : '\n' ∉ (" struct \x7b" : Text) := by decide
  rw [typeLine_eq, List.mem_append, List.mem_append]
  exact fun h => h.elim (fun h => h.elim htype (newline_not_mem_word hs.name)) hstruct

/-- The lines of a struct that is laid out: its comment, the line that opens the body, the lines of
its fields, and the line that closes it. -/
theorem lines_of_render {s : Struct} (hs : s.IsRegular)
    (hopen : ∀ f ∈ s.fields, ¬ ClosesEarly f.tag) {text : Text} (h : s.render = .ok text) :
    ∃ (comment : Text) (texts behind : List Text), Text.splitOn '\n' text =
        ('/' :: '/' :: comment) :: s.typeLine :: (texts ++ ['}'] :: behind) ∧
      texts.mapM readField = some (s.fields.map Field.reading) ∧
      ∀ t ∈ texts, t ≠ ['}'] := by
  obtain ⟨shapes, hshapes, rfl⟩ := exists_hasShapes h
  obtain ⟨lines, hlayout, hlaid⟩ := isLaidOut_layout shapes
  obtain ⟨behind, hdraft⟩ := s.draft_eq
  have hcomment : '\n' ∉ '/' :: '/' :: ' ' :: s.comment := by simp [hs.comment]
  have htype := newline_not_mem_typeLine hs
  rw [hdraft, Text.splitOn_append, Text.splitOn_append, Text.splitOn_of_not_mem hcomment,
    Text.splitOn_of_not_mem htype] at hshapes
  obtain ⟨shapes₁, rfl, hshapes₁⟩ := shapes_comment hshapes
  obtain ⟨lines₁, rfl, hlaid₁⟩ := hlaid.code
  obtain ⟨shapes₂, rfl, hshapes₂⟩ := shapes_typeLine hs hshapes₁
  obtain ⟨lines₂, rfl, hlaid₂⟩ := hlaid₁.code
  obtain ⟨texts, n, shapes₃, lines₃, rfl, hread, htexts, hshapes₃, hlaid₃⟩ :=
    HasShapes.fields hs.fields hopen hshapes₂ hlaid₂
  rw [Text.splitOn_append] at hshapes₃
  obtain ⟨shapes₄, rfl⟩ := shapes_closing hshapes₃
  obtain ⟨lines₄, rfl, -⟩ := hlaid₃.code
  let comment := Text.trimEnd (' ' :: s.comment)
  have hall : ∀ t ∈ ('/' :: '/' :: comment) :: (s.typeLine :: texts ++ [['}']]), '\n' ∉ t := by
    intro t ht
    simp only [List.mem_append, List.mem_cons, List.not_mem_nil, or_false] at ht
    rcases ht with rfl | (rfl | ht) | rfl
    · intro hm
      have hmem : '\n' ∈ Text.trimEnd (' ' :: s.comment) := by simpa [comment] using hm
      exact hcomment (by simpa using (Text.isPrefix_trimEnd _).mem hmem)
    · exact htype
    · exact (htexts t ht).1
    · decide
  have hlines := splitOn_putLines hall false lines₄
  refine ⟨comment, texts, Text.splitOn '\n' (putLines true false lines₄), ?_, hread,
    fun t ht => (htexts t ht).2⟩
  rw [hlayout]
  simpa [comment] using hlines

/-- The fields of a struct that is laid out read back exactly if no tag closes early. -/
theorem readFields_eq_iff {s : Struct} (hs : s.IsRegular) {text : Text} (h : s.render = .ok text) :
    readFields text = some (s.fields.map Field.reading) ↔
      ∀ f ∈ s.fields, ¬ ClosesEarly f.tag := by
  constructor
  · intro hread f hf
    have hraw : IsRaw f.reading.tag := isRaw_of_readFields hread (List.mem_map_of_mem hf)
    exact hraw.not_closesEarly
  · intro hopen
    obtain ⟨comment, texts, behind, hlines, hread, htexts⟩ := lines_of_render hs hopen h
    have hbody : bodyLines text = texts := by
      have hcomment : startsComment ('/' :: '/' :: comment) = true := rfl
      have htype : startsComment s.typeLine = false := rfl
      have htaken : ∀ t ∈ texts, decide (t ≠ ['}']) = true := fun t ht =>
        decide_eq_true (htexts t ht)
      rw [bodyLines, hlines, List.dropWhile_cons_of_pos hcomment,
        List.dropWhile_cons_of_neg (by simp [htype]), List.drop_one, List.tail_cons,
        List.takeWhile_append_of_pos htaken, List.takeWhile_cons_of_neg (by simp), List.append_nil]
    rw [readFields, hbody, hread]

end Struct

end SchemaModels.Go

import SchemaModels.Go.Struct
import SchemaModels.Proofs.Go.Scanning
import SchemaModels.Proofs.Text.Characters
import SchemaModels.Proofs.Text.Ends

/-!
# The line of a field

A field is written on a line of its own: its name, its type, its tag between backquotes and its
comment. The name and the type are words, so the line is taken for a field whatever the tag is. It
is refused unless the tag goes on to the last backquote, or ends before it where nothing but a
comment is behind it on the line (`ClosesEarly`).
-/

namespace SchemaModels.Go

open Format

/-! ### Words -/

/-- A character of a field's name or type. -/
def isWordChar (c : Char) : Bool := Text.isLetter c || c.isDigit || c == '*' || c == '.'

theorem isBlank_of_isWordChar {c : Char} (h : isWordChar c = true) : Text.isBlank c = false := by
  simp only [isWordChar, Text.isLetter, Bool.or_eq_true, beq_iff_eq] at h
  rcases h with ((h | h) | rfl) | rfl
  · exact Text.isBlank_of_isAlpha h
  · exact Text.isBlank_of_isDigit h
  · decide
  · decide

theorem isQuiet_of_isWordChar {c : Char} (h : isWordChar c = true) : isQuiet c = true :=
  isQuiet_of_not_mem (Text.not_mem_of_any h (by decide))

theorem all_isQuiet {w : Text} (hw : w.all isWordChar = true) : w.all isQuiet = true :=
  List.all_eq_true.2 fun c hc => isQuiet_of_isWordChar (List.all_eq_true.1 hw c hc)

theorem all_not_isBlank {w : Text} (hw : w.all isWordChar = true) :
    w.all (!Text.isBlank ·) = true :=
  List.all_eq_true.2 fun c hc => by
    rw [isBlank_of_isWordChar (List.all_eq_true.1 hw c hc)]
    rfl

theorem splitBlank_word {w : Text} (hw : w.all isWordChar = true) (t : Text) :
    splitBlank (w ++ ' ' :: t) = (w, Text.trimStart t) := by
  have hwords := all_not_isBlank hw
  rw [splitBlank, Text.takeWhile_first hwords (by decide), Text.dropWhile_first hwords (by decide)]
  rfl

theorem trimStart_word {w : Text} (hw : w.all isWordChar = true) (hne : w ≠ []) (t : Text) :
    Text.trimStart (w ++ t) = w ++ t := by
  cases w with
  | nil => exact absurd rfl hne
  | cons c w =>
      have hc := List.all_eq_true.1 hw c List.mem_cons_self
      exact Text.trimStart_cons (isBlank_of_isWordChar hc) (w ++ t)

/-! ### What is behind the type -/

theorem startsComment_iff {t : Text} : startsComment t = true ↔ ∃ u, t = '/' :: '/' :: u := by
  rw [startsComment, List.isPrefixOf_iff_prefix]
  exact ⟨fun ⟨u, hu⟩ => ⟨u, hu.symm⟩, fun ⟨u, hu⟩ => ⟨u, hu.symm⟩⟩

theorem of_commentCell {field rest : Text} {row : Row} (h : commentCell field rest = .ok row) :
    (startsComment rest = true ∨ rest = []) ∧ ∀ cell ∈ row, ∀ c ∈ cell, c ∈ rest := by
  unfold commentCell at h
  split at h
  · rename_i hstarts
    cases h
    refine ⟨Or.inl hstarts, fun cell hcell c hc => ?_⟩
    rw [List.mem_singleton.1 hcell] at hc
    exact (Text.isPrefix_trimEnd rest).mem hc
  · split at h
    · rename_i hnil
      cases h
      exact ⟨Or.inr hnil, nofun⟩
    · cases h

/-- A tag is taken up to the next backquote, and only a comment may follow it. -/
theorem of_tagCells {field w : Text} {row : Row} (h : tagCells field ('\x60' :: w) = .ok row) :
    ∃ tag rest comment, w = tag ++ '\x60' :: rest ∧ '\x60' ∉ tag ∧
      row = ('\x60' :: tag ++ ['\x60']) :: comment ∧
      (startsComment (Text.trimStart rest) = true ∨ Text.trimStart rest = []) ∧
      ∀ cell ∈ comment, ∀ c ∈ cell, c ∈ rest := by
  obtain hall | ⟨tag, c, rest, rfl, htag, hc⟩ := Text.all_or_exists_first (· ≠ '\x60') w
  · simp only [tagCells, Text.dropWhile_of_all hall] at h
    cases h
  · have hback : '\x60' ∉ tag := Text.not_mem_of_all htag (by decide)
    have hc' : c = '\x60' := by simpa using hc
    simp only [tagCells, Text.dropWhile_first htag hc, Text.takeWhile_first htag hc] at h
    obtain ⟨comment, hcomment, h⟩ := exists_of_bind_ok h
    cases h
    obtain ⟨hrest, hmem⟩ := of_commentCell hcomment
    refine ⟨tag, rest, comment, by rw [hc'], hback, rfl, hrest, fun cell hcell d hd => ?_⟩
    exact (List.dropWhile_suffix Text.isBlank).mem (hmem cell hcell d hd)

/-! ### The cells of a line -/

/-- When a line has the cells of a field. -/
theorem fieldCells_eq_ok_iff {line : Text} {row : Row} : fieldCells line = .ok row ↔
    ∃ name rest type rest' tail, splitBlank line = (name, rest) ∧ splitBlank rest = (type, rest') ∧
      isIdentifier name = true ∧ type ≠ [] ∧ type.head? ≠ some '\x60' ∧
      startsComment type = false ∧ tagCells name rest' = .ok tail ∧ row = name :: type :: tail := by
  constructor
  · intro h
    unfold fieldCells at h
    dsimp only at h
    split at h
    · rename_i hid
      split at h
      · cases h
      · rename_i htype
        obtain ⟨tail, htail, h⟩ := exists_of_bind_ok h
        cases h
        rw [not_or, not_or] at htype
        exact ⟨_, _, _, _, tail, rfl, rfl, hid, htype.1, htype.2.1, Bool.eq_false_iff.2 htype.2.2,
          htail, rfl⟩
    · cases h
  · rintro ⟨name, rest, type, rest', tail, hfirst, hsecond, hid, hne, hhead, hstart, htail, rfl⟩
    have htype : ¬ (type = [] ∨ type.head? = some '\x60' ∨ startsComment type = true) := by
      simp [hne, hhead, hstart]
    unfold fieldCells
    dsimp only
    rw [hfirst]
    dsimp only
    rw [if_pos hid, hsecond]
    dsimp only
    rw [if_neg htype]
    change (tagCells name rest' >>= _) = _
    rw [htail]
    rfl

section Cells

variable {name type : Text} (hname : name.all isWordChar = true)
  (htype : type.all isWordChar = true) (htypeNe : type ≠ [])

include hname htype htypeNe

theorem trim_fieldText (w : Text) :
    Text.trim ('\t' :: name ++ ' ' :: type ++ ' ' :: '\x60' :: w) =
      (if name = [] then type else name ++ ' ' :: type) ++ ' ' :: '\x60' :: Text.trimEnd w := by
  have htab : ∀ t, Text.trimStart ('\t' :: t) = Text.trimStart t := fun _ => rfl
  have hblank : ∀ t, Text.trimStart (' ' :: t) = Text.trimStart t := fun _ => rfl
  have hback : Text.isBlank '\x60' = false := by decide
  rw [Text.trim, List.cons_append, List.cons_append, htab]
  split
  · rename_i hnil
    subst hnil
    rw [List.nil_append, List.cons_append, hblank, trimStart_word htype htypeNe]
    have hend := Text.trimEnd_append_cons hback (type ++ [' ']) w
    simpa using hend
  · rename_i hne
    rw [List.append_assoc, trimStart_word hname hne]
    have hend := Text.trimEnd_append_cons hback (name ++ ' ' :: type ++ [' ']) w
    simpa using hend

theorem trim_fieldText_cons (w : Text) : ∃ c u,
    Text.trim ('\t' :: name ++ ' ' :: type ++ ' ' :: '\x60' :: w) = c :: u ∧
      isWordChar c = true := by
  have hcons : ∀ v : Text, v.all isWordChar = true → v ≠ [] → ∀ t : Text, ∃ c u,
      v ++ t = c :: u ∧ isWordChar c = true := by
    intro v hv hne t
    cases v with
    | nil => exact absurd rfl hne
    | cons c v => exact ⟨c, v ++ t, rfl, List.all_eq_true.1 hv c List.mem_cons_self⟩
  rw [trim_fieldText hname htype htypeNe]
  split
  · exact hcons type htype htypeNe _
  · rename_i hne
    rw [List.append_assoc]
    exact hcons name hname hne _

/-- A line with a word for a name and one for a type is that of a field, unless the name is missing:
then the tag stands for the type. -/
theorem of_fieldCells_fieldText {w : Text} {row : Row}
    (h : fieldCells (Text.trim ('\t' :: name ++ ' ' :: type ++ ' ' :: '\x60' :: w)) = .ok row) :
    name ≠ [] ∧ ∃ cells, tagCells name ('\x60' :: Text.trimEnd w) = .ok cells ∧
      row = name :: type :: cells := by
  have hback : ∀ t, Text.trimStart ('\x60' :: t) = '\x60' :: t := fun _ => rfl
  obtain ⟨name', rest, type', rest', cells, hfirst, hsecond, -, -, hhead, -, hcells, rfl⟩ :=
    fieldCells_eq_ok_iff.1 h
  rw [trim_fieldText hname htype htypeNe] at hfirst
  split at hfirst
  · rw [splitBlank_word htype, hback] at hfirst
    cases hfirst
    have hquoted : (splitBlank ('\x60' :: Text.trimEnd w)).1.head? = some '\x60' := rfl
    rw [hsecond] at hquoted
    exact absurd hquoted hhead
  · rename_i hne
    rw [List.append_assoc, List.cons_append, splitBlank_word hname,
      trimStart_word htype htypeNe] at hfirst
    cases hfirst
    rw [splitBlank_word htype, hback] at hsecond
    cases hsecond
    exact ⟨hne, cells, hcells, rfl⟩

end Cells

/-! ### The end of a tag -/

/-- Only blanks come before a line break or a comment. -/
def EndsLine (t : Text) : Prop := ∃ blanks rest, t = blanks ++ rest ∧
  (∀ c ∈ blanks, Text.isBlank c = true ∧ c ≠ '\n') ∧
  (startsComment rest = true ∨ rest.head? = some '\n')

/-- A backquote in the tag stands where its line could end. -/
def ClosesEarly (tag : Text) : Prop := ∃ before behind, tag = before ++ '\x60' :: behind ∧
  '\x60' ∉ before ∧ '\n' ∉ before ∧ EndsLine behind

/-- The tag can stand between backquotes on a line. -/
def IsRaw (tag : Text) : Prop := '\x60' ∉ tag ∧ '\n' ∉ tag

instance (tag : Text) : Decidable (IsRaw tag) := inferInstanceAs (Decidable (_ ∧ _))

/-- A backquote behind a text is no part of a comment's beginning. -/
theorem startsComment_of_isPrefix {t tail u : Text} (h : u <+: t ++ '\x60' :: tail)
    (hu : startsComment u = true) : startsComment t = true := by
  obtain ⟨v, rfl⟩ := startsComment_iff.1 hu
  obtain ⟨w, hw⟩ := h
  rcases t with _ | ⟨c, _ | ⟨d, t⟩⟩
  · cases hw
  · cases hw
  · simp only [List.cons_append, List.cons.injEq] at hw
    obtain ⟨rfl, rfl, -⟩ := hw
    rfl

/-- If the line goes on with a comment or ends, so it does within the text behind a backquote, which
another backquote follows. -/
theorem endsLine_of_trim {t tail w : Text} (hw : (t ++ '\x60' :: tail).takeWhile (· ≠ '\n') = w)
    (h : startsComment (Text.trimStart (Text.trimEnd w)) = true ∨
      Text.trimStart (Text.trimEnd w) = []) : EndsLine t := by
  subst hw
  obtain hall | ⟨s, c, u, rfl, hs, hc⟩ :=
    Text.all_or_exists_first (fun c => Text.isBlank c && c != '\n') t
  · -- The text is blank, and the backquote behind it neither ends the line nor begins a comment.
    have hblank : t.all Text.isBlank = true := by simp_all
    have hline : '\n' ∉ t := Text.not_mem_of_all hall (by decide)
    rw [Text.takeWhile_append_of_not_mem hline, List.takeWhile_cons_of_pos (by decide),
      Text.trimStart_trimEnd hblank (by decide)] at h
    obtain h | h := h
    · obtain ⟨v, hv⟩ := startsComment_iff.1 h
      cases hv
    · cases h
  · have hblanks : ∀ d ∈ s, Text.isBlank d = true ∧ d ≠ '\n' := by simpa using hs
    have hblank : s.all Text.isBlank = true := by simp_all
    have hline : '\n' ∉ s := Text.not_mem_of_all hs (by decide)
    refine ⟨s, c :: u, rfl, hblanks, ?_⟩
    by_cases hbreak : c = '\n'
    · exact Or.inr (congrArg some hbreak)
    · have hc' : Text.isBlank c = false := by simpa [hbreak] using hc
      rw [List.append_assoc, List.cons_append, Text.takeWhile_append_of_not_mem hline,
        List.takeWhile_cons_of_pos (by simpa using hbreak),
        Text.trimStart_trimEnd hblank hc'] at h
      have hrest : c :: Text.trimEnd ((u ++ '\x60' :: tail).takeWhile (· ≠ '\n')) <+:
          c :: u ++ '\x60' :: tail :=
        List.cons_prefix_cons.2 ⟨rfl, (Text.isPrefix_trimEnd _).trans (List.takeWhile_prefix _)⟩
      obtain h | h := h
      · exact Or.inl (startsComment_of_isPrefix hrest h)
      · cases h

theorem eq_of_append_backquote {s t u v : Text} (hs : '\x60' ∉ s) (ht : '\x60' ∉ t)
    (h : s ++ '\x60' :: u = t ++ '\x60' :: v) : s = t ∧ u = v := by
  have htake := congrArg (List.takeWhile fun c => decide (c ≠ '\x60')) h
  rw [Text.takeWhile_first (Text.all_ne hs) (by decide),
    Text.takeWhile_first (Text.all_ne ht) (by decide)] at htake
  subst htake
  exact ⟨rfl, (List.cons.inj (List.append_cancel_left h)).2⟩

/-- A tag that does not close early is a cell of its line as it is. -/
theorem isRaw_of_tagCells {field tag tail : Text} {cells : Row} (hopen : ¬ ClosesEarly tag)
    (h : tagCells field ('\x60' :: Text.trimEnd ((tag ++ '\x60' :: tail).takeWhile (· ≠ '\n'))) =
      .ok cells) :
    IsRaw tag ∧ ∃ comment, cells = ('\x60' :: tag ++ ['\x60']) :: comment ∧
      ∀ cell ∈ comment, '\n' ∉ cell := by
  have hback : Text.isBlank '\x60' = false := by decide
  obtain ⟨before, rest, comment, heq, hbefore, rfl, hrest, hmem⟩ := of_tagCells h
  obtain hall | ⟨s, c, u, rfl, hs, hc⟩ :=
    Text.all_or_exists_first (fun c => c != '\x60' && c != '\n') tag
  · have hraw : IsRaw tag := by
      constructor <;> exact Text.not_mem_of_all hall (by decide)
    rw [Text.takeWhile_append_of_not_mem hraw.2, List.takeWhile_cons_of_pos (by decide),
      Text.trimEnd_append_cons hback] at heq
    obtain ⟨rfl, rfl⟩ := eq_of_append_backquote hraw.1 hbefore heq
    refine ⟨hraw, comment, rfl, fun cell hcell hline => ?_⟩
    have htail := (Text.isPrefix_trimEnd _).mem (hmem cell hcell '\n' hline)
    exact Text.not_mem_of_all List.all_takeWhile (by decide) htail
  · have hs' : '\x60' ∉ s := Text.not_mem_of_all hs (by decide)
    have hline : '\n' ∉ s := Text.not_mem_of_all hs (by decide)
    rw [List.append_assoc, Text.takeWhile_append_of_not_mem hline] at heq
    obtain rfl | rfl : c = '\x60' ∨ c = '\n' := by
      refine Decidable.or_iff_not_imp_left.2 ?_
      simpa using hc
    · rw [List.cons_append, List.takeWhile_cons_of_pos (by decide),
        Text.trimEnd_append_cons hback] at heq
      obtain ⟨rfl, rfl⟩ := eq_of_append_backquote hs' hbefore heq
      exact absurd ⟨s, u, rfl, hs', hline, endsLine_of_trim rfl hrest⟩ hopen
    · -- The line ends inside the tag, with no backquote before.
      rw [List.cons_append, List.takeWhile_cons_of_neg (by decide), List.append_nil] at heq
      have hmem : '\x60' ∈ Text.trimEnd s := by rw [heq]; simp
      exact absurd ((Text.isPrefix_trimEnd s).mem hmem) hs'

/-! ### A field on its line -/

/-- What is open inside the body of a struct. -/
def inBody : State := ⟨.code, [⟨.curly, true⟩]⟩

/-- The name and the type of a field are words, and its comment stands on one line. -/
structure Field.IsRegular (f : Field) : Prop where
  name : f.name.all isWordChar = true
  type : f.type.all isWordChar = true
  type_ne : f.type ≠ []
  comment : ∀ c, f.comment = some c → '\n' ∉ c

/-- What is behind the tag on the line of a field. -/
def Field.ending (f : Field) : Text :=
  match f.comment with
  | some c => " // " ++ c
  | none => []

def Field.line (f : Field) : Text :=
  '\t' :: f.name ++ ' ' :: f.type ++ ' ' :: '\x60' :: (f.tag ++ '\x60' :: f.ending)

theorem Field.draft_eq (f : Field) : f.draft = f.line ++ ['\n'] := by
  unfold Field.draft Field.line Field.ending
  cases f.comment <;> simp

theorem shape_inBody {n : Nat} {t u : Text} {c : Char} {shape : Shape}
    (h : (Line.at inBody n t).shape = .ok shape) (ht : Text.trim t = c :: u)
    (hc : isWordChar c = true) :
    ∃ row, fieldCells (Text.trim t) = .ok row ∧ shape = .field 1 row := by
  have hcomment : startsComment (c :: u) = false := by
    refine Bool.eq_false_iff.2 fun hstarts => ?_
    obtain ⟨v, hv⟩ := startsComment_iff.1 hstarts
    cases hv
    exact absurd hc (by decide)
  have hclosing : c ≠ '}' := by
    rintro rfl
    exact absurd hc (by decide)
  have hfield : (Line.at inBody n t).isField = true := by
    simp [Line.isField, Line.at, ht, hcomment, hclosing, inBody]
  have hverbatim : (Line.at inBody n t).isVerbatim = false := rfl
  have hblank : Text.trim (Line.at inBody n t).text ≠ [] := by simp [Line.at, ht]
  unfold Line.shape at h
  rw [if_neg (by simp [hverbatim]), if_neg hblank, if_pos hfield] at h
  obtain ⟨row, hrow, rfl⟩ := map_eq_ok_iff.1 h
  exact ⟨row, mapError_eq_ok_iff.1 hrow, rfl⟩

/-- The line of a field ends in the body in which it begins, if its tag is raw. -/
theorem scanLine_field {f : Field} (hf : f.IsRegular) (htag : IsRaw f.tag) :
    scanLine [] inBody f.line >>= endLine = .ok inBody := by
  have hquiet : ('\t' :: f.name ++ ' ' :: f.type ++ [' ']).all isQuiet = true := by
    have htab : isQuiet '\t' = true := by decide
    have hblank : isQuiet ' ' = true := by decide
    simp [htab, hblank, List.all_append, all_isQuiet hf.name, all_isQuiet hf.type]
  have hline : f.line =
      ('\t' :: f.name ++ ' ' :: f.type ++ [' ']) ++ ('\x60' :: f.tag ++ '\x60' :: f.ending) := by
    simp [Field.line]
  rw [hline, inBody, scanLine_quiet _ _ hquiet, scanLine_backquoted _ _ htag.1, Field.ending]
  cases f.comment with
  | none => rfl
  | some c =>
      have hblank : (" // " : Text) ++ c = [' '] ++ '/' :: '/' :: ' ' :: c := rfl
      dsimp only
      rw [hblank, scanLine_quiet _ _ (by decide), scanLine_comment]
      rfl

theorem newline_not_mem_word {w : Text} (hw : w.all isWordChar = true) : '\n' ∉ w :=
  Text.not_mem_of_all hw (by decide)

/-- A field whose tag is raw stands on one line. -/
theorem splitOn_draft {f : Field} (hf : f.IsRegular) (htag : IsRaw f.tag) (rest : Text) :
    Text.splitOn '\n' (f.draft ++ rest) = f.line :: Text.splitOn '\n' rest := by
  have hending : '\n' ∉ f.ending := by
    unfold Field.ending
    split
    · rename_i c hc
      simp [hf.comment c hc]
    · exact List.not_mem_nil
  have hline : '\n' ∉ f.line := by
    simp [Field.line, newline_not_mem_word hf.name, newline_not_mem_word hf.type, htag.2, hending]
  rw [f.draft_eq, List.append_assoc, List.singleton_append, Text.splitOn_append,
    Text.splitOn_of_not_mem hline]
  rfl

/-- A field in the body of a struct is laid out as it is, unless its tag closes early. -/
theorem Format.HasShapes.field {f : Field} (hf : f.IsRegular) (hopen : ¬ ClosesEarly f.tag)
    {n : Nat} {rest : Text} {shapes : List Shape}
    (h : HasShapes inBody n (Text.splitOn '\n' (f.draft ++ rest)) shapes) :
    f.name ≠ [] ∧ IsRaw f.tag ∧ ∃ comment shapes',
      shapes = .field 1 (f.name :: f.type :: ('\x60' :: f.tag ++ ['\x60']) :: comment) :: shapes' ∧
      (∀ cell ∈ comment, '\n' ∉ cell) ∧
      HasShapes inBody (n + 1) (Text.splitOn '\n' rest) shapes' := by
  -- Until the tag is known to be raw, the line may end anywhere behind the first backquote.
  have hfirst : (f.draft ++ rest).takeWhile (· ≠ '\n') = '\t' :: f.name ++ ' ' :: f.type ++ ' ' ::
      '\x60' :: (f.tag ++ '\x60' :: (f.ending ++ '\n' :: rest)).takeWhile (· ≠ '\n') := by
    have hfront : '\n' ∉ '\t' :: f.name ++ ' ' :: f.type ++ [' ', '\x60'] := by
      simp [newline_not_mem_word hf.name, newline_not_mem_word hf.type]
    have hdraft : f.draft ++ rest = ('\t' :: f.name ++ ' ' :: f.type ++ [' ', '\x60']) ++
        (f.tag ++ '\x60' :: (f.ending ++ '\n' :: rest)) := by
      simp [f.draft_eq, Field.line]
    rw [hdraft, Text.takeWhile_append_of_not_mem hfront]
    simp
  obtain ⟨parts, hparts⟩ := Text.splitOn_eq_cons '\n' (f.draft ++ rest)
  rw [hparts] at h
  obtain ⟨s', shape, shapes', hscan, hshape, hrest, rfl⟩ := h.cons
  rw [hfirst] at hshape
  obtain ⟨c, u, htrim, hc⟩ := trim_fieldText_cons hf.name hf.type hf.type_ne
    ((f.tag ++ '\x60' :: (f.ending ++ '\n' :: rest)).takeWhile (· ≠ '\n'))
  obtain ⟨row, hrow, rfl⟩ := shape_inBody hshape htrim hc
  obtain ⟨hname, cells, hcells, rfl⟩ := of_fieldCells_fieldText hf.name hf.type hf.type_ne hrow
  obtain ⟨hraw, comment, rfl, hcomment⟩ := isRaw_of_tagCells hopen hcells
  rw [splitOn_draft hf hraw] at hparts
  obtain ⟨hline, rfl⟩ := List.cons.inj hparts
  rw [← hline, scanLine_field hf hraw] at hscan
  cases hscan
  exact ⟨hname, hraw, comment, shapes', rfl, hcomment, hrest⟩

end SchemaModels.Go

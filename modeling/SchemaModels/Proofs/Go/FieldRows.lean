import SchemaModels.Proofs.Go.FieldLines
import SchemaModels.Proofs.Go.Layout
import SchemaModels.Proofs.Go.Respacing

/-!
# The cells of a field's line

A field's line is cut into its cells, and its cells are put on a line again: the new line differs
from the old one only in the blanks between them (`respaced_of_fieldCells`), and is cut into the
same cells (`fieldCells_spaced`).
-/

namespace SchemaModels.Go.Format

/-! ### What cells are like -/

/-- A text without blanks. -/
def IsWord (t : Text) : Prop := t.all (!Text.isBlank ·) = true

/-- The cells behind a tag: that of a comment, if there is one. -/
inductive IsEnding : Row → Prop
  | nil : IsEnding []
  | comment {t : Text} (hstart : startsComment t = true) (hend : Text.trimEnd t = t) : IsEnding [t]

/-- The cells behind a type. -/
inductive IsTail : Row → Prop
  | ending {row : Row} (h : IsEnding row) : IsTail row
  | tagged {tag : Text} {row : Row} (htag : '\x60' ∉ tag) (h : IsEnding row) :
    IsTail (('\x60' :: tag ++ ['\x60']) :: row)

/-- The cells of a field. -/
structure IsFieldRow (name type : Text) (tail : Row) : Prop where
  identifier : isIdentifier name = true
  nameWord : IsWord name
  typeWord : IsWord type
  typeNe : type ≠ []
  typeHead : type.head? ≠ some '\x60'
  typeStart : startsComment type = false
  isTail : IsTail tail

/-! ### Cutting a line -/

/-- A line is cut at its first blanks. -/
theorem splitBlank_cases {t word rest : Text} (h : splitBlank t = (word, rest)) :
    IsWord word ∧ (t = word ∧ rest = [] ∨
      ∃ s, t = word ++ (s ++ rest) ∧ s.all Text.isBlank = true ∧ s ≠ []) := by
  cases h
  refine ⟨List.all_takeWhile, ?_⟩
  obtain hall | ⟨w, c, u, rfl, hw, hc⟩ := Text.all_or_exists_first (!Text.isBlank ·) t
  · refine Or.inl ⟨(Text.takeWhile_of_all hall).symm, ?_⟩
    rw [Text.dropWhile_of_all hall]
    rfl
  · have hblank : Text.isBlank c = true := by simpa using hc
    obtain ⟨s, hs, hall⟩ := Text.exists_trimStart u
    refine Or.inr ⟨c :: s, ?_, by rw [List.all_cons, hblank, hall]; rfl, List.cons_ne_nil c s⟩
    have hstart : Text.trimStart (c :: u) = Text.trimStart u := List.dropWhile_cons_of_pos hblank
    rw [Text.takeWhile_first hw hc, Text.dropWhile_first hw hc, hstart, List.cons_append, ← hs]

theorem splitBlank_word_gap {word s rest : Text} (hword : IsWord word)
    (hs : s.all Text.isBlank = true) (hne : s ≠ []) (hrest : Text.trimStart rest = rest) :
    splitBlank (word ++ (s ++ rest)) = (word, rest) := by
  cases s with
  | nil => exact absurd rfl hne
  | cons c s =>
      have hc : (!Text.isBlank c) = false := by
        rw [List.all_eq_true.1 hs c List.mem_cons_self]
        rfl
      rw [splitBlank, List.cons_append, Text.takeWhile_first hword hc,
        Text.dropWhile_first hword hc, ← List.cons_append, Text.trimStart_append hs, hrest]

theorem splitBlank_of_isWord {word : Text} (hword : IsWord word) :
    splitBlank word = (word, []) := by
  rw [splitBlank, Text.takeWhile_of_all hword,
    Text.dropWhile_of_all hword]
  rfl

/-! ### From a line to its cells -/

variable {field : Text}

theorem respaced_of_commentCell {rest : Text} {row : Row} (h : commentCell field rest = .ok row) :
    IsEnding row ∧ ∀ line, Spaced row line → Respaced rest line := by
  unfold commentCell at h
  split at h
  · rename_i hstart
    cases h
    obtain ⟨u, rfl⟩ := startsComment_iff.1 hstart
    have htrim : Text.trimEnd ('/' :: '/' :: u) = '/' :: '/' :: Text.trimEnd u :=
      Text.trimEnd_append_cons (by decide) ['/'] u
    refine ⟨.comment (by rw [htrim]; rfl) (Text.trimEnd_trimEnd _), ?_⟩
    rintro line rfl
    obtain ⟨s, hs, hblank⟩ := Text.exists_trimEnd ('/' :: '/' :: u)
    have hrespaced := (Respaced.trailing hblank).append_left (Text.trimEnd ('/' :: '/' :: u))
    rwa [← hs, List.append_nil] at hrespaced
  · split at h
    · rename_i hnil
      cases h
      refine ⟨.nil, ?_⟩
      rintro line rfl
      rw [hnil]
      exact .trailing rfl
    · cases h

theorem tagCells_backquote {tag : Text} (htag : '\x60' ∉ tag) (rest : Text) :
    tagCells field ('\x60' :: (tag ++ '\x60' :: rest)) =
      (commentCell field (Text.trimStart rest)).map (('\x60' :: tag ++ ['\x60']) :: ·) := by
  have hall := Text.all_ne htag
  have hback : decide ('\x60' ≠ '\x60') = false := by decide
  simp only [tagCells, Text.dropWhile_first hall hback, Text.takeWhile_first hall hback]
  cases commentCell field (Text.trimStart rest) <;> rfl

theorem tagCells_of_head {t : Text} (h : t.head? ≠ some '\x60') :
    tagCells field t = commentCell field t := by
  unfold tagCells
  split
  · exact absurd rfl h
  · rfl

theorem replicate_blanks (n : Nat) : (List.replicate n ' ').all Text.isBlank = true := by
  simp [show Text.isBlank ' ' = true by decide]

theorem respaced_of_tagCells {t : Text} {row : Row} (h : tagCells field t = .ok row) :
    IsTail row ∧ ∀ line, Spaced row line → Respaced t line := by
  by_cases hhead : t.head? = some '\x60'
  · obtain ⟨w, rfl⟩ := List.head?_eq_some_iff.1 hhead
    obtain ⟨tag, rest, -, rfl, htag, -⟩ := of_tagCells h
    rw [tagCells_backquote htag] at h
    obtain ⟨comment, hcomment, rfl⟩ := map_eq_ok_iff.1 h
    obtain ⟨hending, hrespaced⟩ := respaced_of_commentCell hcomment
    refine ⟨.tagged htag hending, fun line hline => ?_⟩
    obtain ⟨s, hs, hblank⟩ := Text.exists_trimStart rest
    have hfront : ∀ u : Text, '\x60' :: (tag ++ '\x60' :: u) = ('\x60' :: tag) ++ '\x60' :: u :=
      fun _ => rfl
    rw [hfront]
    cases hending with
    | nil =>
        have hall : rest.all Text.isBlank = true := by
          rw [hs, List.all_append, hblank, (hrespaced [] rfl).all_isBlank]
          rfl
        rw [show line = '\x60' :: tag ++ ['\x60'] from hline]
        exact ((Respaced.trailing hall).cons '\x60').append_left _
    | comment hstart hend =>
        obtain ⟨n, cell, rfl, hcell⟩ := hline
        have hbehind := hrespaced cell hcell
        rw [List.append_assoc, List.append_assoc, List.singleton_append]
        refine Respaced.append_left ?_ _
        cases s with
        | nil =>
            rw [hs]
            exact .backquote (replicate_blanks _) hbehind
        | cons c s =>
            rw [hs]
            exact (Respaced.gap hblank (List.cons_ne_nil c s) (replicate_blanks (n + 1)) nofun
              hbehind).cons '\x60'
  · rw [tagCells_of_head hhead] at h
    obtain ⟨hending, hrespaced⟩ := respaced_of_commentCell h
    exact ⟨.ending hending, hrespaced⟩

theorem mem_of_tagCells {t : Text} {row : Row} (h : tagCells field t = .ok row) {cell : Text}
    (hcell : cell ∈ row) {c : Char} (hc : c ∈ cell) : c ∈ t := by
  by_cases hhead : t.head? = some '\x60'
  · obtain ⟨w, rfl⟩ := List.head?_eq_some_iff.1 hhead
    obtain ⟨tag, rest, comment, rfl, -, rfl, -, hcomment⟩ := of_tagCells h
    obtain rfl | hcell := List.mem_cons.1 hcell
    · have hprefix : '\x60' :: tag ++ ['\x60'] <+: '\x60' :: (tag ++ '\x60' :: rest) :=
        ⟨rest, by simp⟩
      exact hprefix.mem hc
    · have hrest := hcomment cell hcell c hc
      simp [hrest]
  · rw [tagCells_of_head hhead] at h
    exact (of_commentCell h).2 cell hcell c hc

theorem splitBlank_suffix (t : Text) : (splitBlank t).2 <:+ t :=
  (List.dropWhile_suffix _).trans (List.dropWhile_suffix _)

/-- The cells of a line hold characters of the line only. -/
theorem mem_of_fieldCells {t : Text} {row : Row} (h : fieldCells t = .ok row) {cell : Text}
    (hcell : cell ∈ row) {c : Char} (hc : c ∈ cell) : c ∈ t := by
  obtain ⟨name, rest, type, rest', tail, hfirst, hsecond, -, -, -, -, htail, rfl⟩ :=
    fieldCells_eq_ok_iff.1 h
  have hrest := splitBlank_suffix t
  have hrest' := splitBlank_suffix rest
  cases hfirst
  cases hsecond
  rw [List.mem_cons, List.mem_cons] at hcell
  obtain rfl | rfl | hcell := hcell
  · exact (List.takeWhile_prefix _).mem hc
  · exact hrest.mem ((List.takeWhile_prefix _).mem hc)
  · exact hrest.mem (hrest'.mem (mem_of_tagCells htail hcell hc))

/-- A line that is put together from the cells of a line differs from it in blanks only. -/
theorem respaced_of_fieldCells {t : Text} {row : Row} (h : fieldCells t = .ok row) :
    ∃ name type tail, row = name :: type :: tail ∧ IsFieldRow name type tail ∧
      ∀ line, Spaced row line → Respaced t line := by
  obtain ⟨name, rest, type, rest', tail, hfirst, hsecond, hid, hne, hhead, hstart, htail, rfl⟩ :=
    fieldCells_eq_ok_iff.1 h
  obtain ⟨hname, hfirst⟩ := splitBlank_cases hfirst
  obtain ⟨htype, hsecond⟩ := splitBlank_cases hsecond
  obtain ⟨hcells, hrespaced⟩ := respaced_of_tagCells htail
  refine ⟨name, type, tail, rfl, ⟨hid, hname, htype, hne, hhead, hstart, hcells⟩, ?_⟩
  have hbehind : ∀ line, Spaced (type :: tail) line → Respaced rest line := by
    intro line hline
    obtain ⟨rfl, rfl⟩ | ⟨s, rfl, hblank, hs⟩ := hsecond
    · cases htail
      rw [show line = rest from hline]
      exact .refl rest
    · cases tail with
      | nil =>
          rw [show line = type from hline]
          have hall : (s ++ rest').all Text.isBlank = true := by
            rw [List.all_append, hblank, (hrespaced [] rfl).all_isBlank]
            rfl
          have hleft := (Respaced.trailing hall).append_left type
          rwa [List.append_nil] at hleft
      | cons cell tail =>
          obtain ⟨n, line', rfl, hline'⟩ := hline
          rw [List.append_assoc]
          exact (Respaced.gap hblank hs (replicate_blanks (n + 1)) nofun
            (hrespaced line' hline')).append_left type
  intro line hline
  obtain ⟨n, line', rfl, hline'⟩ := hline
  obtain ⟨-, rfl⟩ | ⟨s, rfl, hblank, hs⟩ := hfirst
  · obtain ⟨htype, -⟩ | ⟨s, htype, -⟩ := hsecond
    · exact absurd htype.symm hne
    · exact absurd (List.append_eq_nil_iff.1 htype.symm).1 hne
  · rw [List.append_assoc]
    exact (Respaced.gap hblank hs (replicate_blanks (n + 1)) nofun
      (hbehind line' hline')).append_left name

/-! ### From cells to a line -/

theorem commentCell_spaced (field : Text) {row : Row} (h : IsEnding row) {line : Text}
    (hline : Spaced row line) :
    commentCell field line = .ok row ∧ Text.trimStart line = line ∧ line.head? ≠ some '\x60' := by
  cases h with
  | nil =>
      rw [show line = [] from hline]
      exact ⟨rfl, rfl, nofun⟩
  | comment hstart hend =>
      rw [show line = _ from hline]
      have hcell : commentCell field _ = _ := if_pos hstart
      rw [hend] at hcell
      obtain ⟨u, rfl⟩ := startsComment_iff.1 hstart
      exact ⟨hcell, Text.trimStart_cons (by decide) _, nofun⟩

theorem tagCells_spaced (field : Text) {row : Row} (h : IsTail row) {line : Text}
    (hline : Spaced row line) :
    tagCells field line = .ok row ∧ Text.trimStart line = line := by
  cases h with
  | ending h =>
      obtain ⟨hcell, htrim, hhead⟩ := commentCell_spaced field h hline
      exact ⟨(tagCells_of_head hhead).trans hcell, htrim⟩
  | @tagged tag comment htag h =>
      have hback : ∀ u : Text, Text.trimStart ('\x60' :: u) = '\x60' :: u := fun _ => rfl
      have hrest : ∃ rest, line = '\x60' :: (tag ++ '\x60' :: rest) ∧
          Spaced comment (Text.trimStart rest) := by
        cases comment with
        | nil =>
            refine ⟨[], ?_, rfl⟩
            exact hline
        | cons cell comment =>
            obtain ⟨n, rest, rfl, hspaced⟩ := hline
            refine ⟨List.replicate (n + 1) ' ' ++ rest, by simp, ?_⟩
            obtain ⟨-, htrim, -⟩ := commentCell_spaced field h hspaced
            rwa [Text.trimStart_append (replicate_blanks (n + 1)), htrim]
      obtain ⟨rest, rfl, hspaced⟩ := hrest
      obtain ⟨hcell, -⟩ := commentCell_spaced field h hspaced
      exact ⟨by rw [tagCells_backquote htag, hcell]; rfl, hback _⟩

theorem trimStart_word_append {word : Text} (hword : IsWord word) (hne : word ≠ []) (t : Text) :
    Text.trimStart (word ++ t) = word ++ t := by
  cases word with
  | nil => exact absurd rfl hne
  | cons c word =>
      have hc := List.all_eq_true.1 hword c List.mem_cons_self
      exact Text.trimStart_cons (by simpa using hc) (word ++ t)

/-- The line that the cells of a field are put on is cut into the same cells. -/
theorem fieldCells_spaced {name type : Text} {tail : Row} (h : IsFieldRow name type tail)
    {line : Text} (hline : Spaced (name :: type :: tail) line) :
    fieldCells line = .ok (name :: type :: tail) := by
  obtain ⟨n, rest, rfl, hrest⟩ := hline
  obtain ⟨u, hu⟩ := hrest.head
  have htrim : Text.trimStart rest = rest := by
    rw [hu]
    exact trimStart_word_append h.typeWord h.typeNe u
  have hfirst : splitBlank (name ++ List.replicate (n + 1) ' ' ++ rest) = (name, rest) := by
    rw [List.append_assoc]
    exact splitBlank_word_gap h.nameWord (replicate_blanks (n + 1)) nofun htrim
  have hsecond : ∃ rest', splitBlank rest = (type, rest') ∧ tagCells name rest' = .ok tail := by
    cases tail with
    | nil =>
        rw [show rest = type from hrest]
        exact ⟨[], splitBlank_of_isWord h.typeWord, rfl⟩
    | cons cell tail =>
        obtain ⟨m, rest', rfl, hrest'⟩ := hrest
        obtain ⟨hcells, htrim'⟩ := tagCells_spaced name h.isTail hrest'
        refine ⟨rest', ?_, hcells⟩
        rw [List.append_assoc]
        exact splitBlank_word_gap h.typeWord (replicate_blanks (m + 1)) nofun htrim'
  obtain ⟨rest', hsecond, htail⟩ := hsecond
  exact fieldCells_eq_ok_iff.2 ⟨name, rest, type, rest', tail, hfirst, hsecond, h.identifier,
    h.typeNe, h.typeHead, h.typeStart, htail, rfl⟩

end SchemaModels.Go.Format

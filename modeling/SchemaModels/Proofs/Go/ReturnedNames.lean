import Mathlib.Data.Bool.AllAny
import SchemaModels.Proofs.Go.CanonicalFiles
import SchemaModels.Proofs.Go.KeptLiterals
import SchemaModels.Proofs.Go.LiteralValues
import SchemaModels.Proofs.Go.StructLines

/-!
# What the method returns

The last line in the body of a struct's method returns the name of the table as a literal. If no
comment begins in the name of the struct, what is open behind the method's first line is the body of
a function and not that of a struct (`of_leads_opening`), so the line is laid out as it is, and the
text of the struct ends in the method (`isSuffix_of_render`). With a comment in the name the line
may be taken for that of a field, and the literal for its cells (`literal_taken_for_cells`).
-/

namespace SchemaModels

namespace Text

/-! ### Ends of texts -/

/-- The last part is what stands behind the last separator. -/
theorem exists_splitOn_append {sep : Char} (s : Text) {t : Text} (ht : sep ∉ t) :
    ∃ parts last, splitOn sep (s ++ t) = parts ++ [last ++ t] ∧ last <:+ s := by
  by_cases hs : sep ∈ s
  · obtain ⟨last, front, hsplit, hlast⟩ := List.eq_append_cons_of_mem (List.mem_reverse.2 hs)
    have hparts : s = front.reverse ++ sep :: last.reverse := by
      rw [← List.reverse_reverse s, hsplit]
      simp
    have hnone : sep ∉ last.reverse ++ t := by simp [hlast, ht]
    refine ⟨splitOn sep front.reverse, last.reverse, ?_, ⟨front.reverse ++ [sep], ?_⟩⟩
    · rw [hparts, List.append_assoc, List.cons_append, splitOn_append, splitOn_of_not_mem hnone]
    · rw [hparts, List.append_assoc]
      rfl
  · exact ⟨[], s, splitOn_of_not_mem (by simp [hs, ht]), List.suffix_refl s⟩

/-- A text that begins and ends with characters that are not blank is not touched when the blanks
around a longer one are left out. -/
theorem isSuffix_trim {c d : Char} (hc : isBlank c = false) (hd : isBlank d = false) {u t : Text}
    (h : c :: (u ++ [d]) <:+ t) : c :: (u ++ [d]) <:+ trim t := by
  obtain ⟨w, rfl⟩ := h
  have hend : ∀ v : Text, trimEnd (v ++ c :: (u ++ [d])) = v ++ c :: (u ++ [d]) := by
    intro v
    have hsplit : v ++ c :: (u ++ [d]) = (v ++ c :: u) ++ d :: [] := by simp
    rw [hsplit]
    exact trimEnd_append_cons hd _ []
  obtain hw | ⟨s, b, v, rfl, hs, hb⟩ := all_or_exists_first isBlank w
  · have htrim : trim (w ++ c :: (u ++ [d])) = c :: (u ++ [d]) := by
      rw [trim, trimStart_append hw, trimStart_cons hc]
      exact hend []
    exact htrim.symm ▸ List.suffix_rfl
  · have htrim := hend (b :: v)
    rw [List.cons_append] at htrim
    rw [trim, List.append_assoc, trimStart_append hs, List.cons_append, trimStart_cons hb, htrim]
    exact List.suffix_append (b :: v) _

theorem isInfix_trim (t : Text) : trim t <:+: t := by
  obtain ⟨s, u, ht, -⟩ := exists_trim t
  exact ⟨s, u, by rw [List.append_assoc]; exact ht.symm⟩

/-- A text lies in front of what holds none of its characters. -/
theorem isInfix_left {u s t : Text} (hu : u ≠ []) (ht : ∀ c ∈ u, c ∉ t) (h : u <:+: s ++ t) :
    u <:+: s := by
  obtain ⟨a, b, hab⟩ := h
  obtain ⟨x, rfl, -⟩ | ⟨x, hx, rfl⟩ := List.append_eq_append_iff.1 hab
  · exact ⟨a, x, rfl⟩
  · obtain rfl | ⟨y, d, rfl⟩ := List.eq_nil_or_concat' x
    · exact ⟨a, [], by simpa using hx⟩
    · -- The last character of the text would lie in what holds none of its characters.
      rw [← List.dropLast_concat_getLast hu, ← List.append_assoc, ← List.append_assoc] at hx
      have hd : [u.getLast hu] = [d] := List.append_inj_right' hx rfl
      refine absurd ?_ (ht (u.getLast hu) (List.getLast_mem hu))
      rw [List.singleton_inj.1 hd]
      simp

theorem isInfix_right {u s t : Text} (hu : u ≠ []) (hs : ∀ c ∈ u, c ∉ s) (h : u <:+: s ++ t) :
    u <:+: t := by
  have hreverse : u.reverse <:+: t.reverse ++ s.reverse := by
    rw [← List.reverse_append, List.reverse_infix]
    exact h
  refine List.reverse_infix.1 (isInfix_left (by simpa using hu) (fun c hc => ?_) hreverse)
  rw [List.mem_reverse]
  exact hs c (List.mem_reverse.1 hc)

end Text

namespace Go

namespace Format

/-! ### Lines from one end to the other -/

theorem IsLaidOut.exists_of_append {shapes shapes' : List Shape} {lines : List (Option Text)}
    (h : IsLaidOut (shapes ++ shapes') lines) :
    ∃ front lines', lines = front ++ lines' ∧ IsLaidOut shapes' lines' := by
  induction shapes generalizing lines with
  | nil => exact ⟨[], lines, rfl, h⟩
  | cons shape shapes ih =>
      obtain ⟨aligned, rest, rfl, -, hrest⟩ := h
      obtain ⟨front, lines', rfl, hlaid⟩ := ih hrest
      exact ⟨shape.text aligned :: front, lines', rfl, hlaid⟩

theorem exists_putLines_append (front : List (Option Text)) (t : Text) (lines : List (Option Text))
    (started pending : Bool) : ∃ u, putLines started pending (front ++ some t :: lines) =
      u ++ (t ++ '\n' :: putLines true false lines) := by
  induction front generalizing started pending with
  | nil => exact ⟨if pending then ['\n'] else [], by simp [putLines]⟩
  | cons line front ih =>
      cases line with
      | none => exact ih started started
      | some s =>
          obtain ⟨u, hu⟩ := ih true false
          exact ⟨(if pending then ['\n'] else []) ++ s ++ '\n' :: u, by simp [putLines, hu]⟩

/-- The last lines of a text, of which the very last one is left empty. -/
theorem isSuffix_of_layout {opening returned closing empty : Shape} {t u v : Text}
    (hopening : ∀ aligned, ∃ w, opening.text aligned = some w ∧ t <:+ w)
    (hreturned : ∀ aligned, returned.text aligned = some u)
    (hclosing : ∀ aligned, closing.text aligned = some v)
    (hempty : ∀ aligned, empty.text aligned = none) (shapes : List Shape) :
    t ++ '\n' :: (u ++ '\n' :: (v ++ ['\n'])) <:+
      layout (shapes ++ [opening, returned, closing, empty]) := by
  obtain ⟨lines, hlayout, hlaid⟩ := isLaidOut_layout
    (shapes ++ [opening, returned, closing, empty])
  obtain ⟨front, last, rfl, hlast⟩ := hlaid.exists_of_append
  obtain ⟨a, lines₁, rfl, -, b, lines₂, rfl, -, c, lines₃, rfl, -, d, lines₄, rfl, -, hnil⟩ := hlast
  obtain ⟨w, hw, before, rfl⟩ := hopening a
  rw [hw, hreturned, hclosing, hempty, show lines₄ = [] from hnil] at hlayout
  obtain ⟨written, hwritten⟩ := exists_putLines_append front (before ++ t) _ false false
  rw [hlayout, hwritten]
  exact ⟨written ++ before, by simp [putLines]⟩

/-! ### Comments -/

theorem of_after_lineComment {m : Mode} {c : Char} {next : Option Char} (hm : m ≠ .lineComment)
    (h : m.after c next = .lineComment) : c = '/' ∧ next = some '/' := by
  cases m with
  | code =>
      have hcode : codeMode c next = .lineComment := h
      unfold codeMode at hcode
      split_ifs at hcode with _ _ _ hslashes
      exact hslashes
  | literal q escaped =>
      cases escaped with
      | true => cases h
      | false =>
          change (if c = '\\' then _ else if c = q.char then _ else _) = _ at h
          split_ifs at h
  | rawString =>
      change (if c = '\x60' then _ else _) = _ at h
      split_ifs at h
  | lineComment => exact absurd rfl hm
  | opening => cases h
  | blockComment =>
      change (if c = '*' ∧ next = some '/' then _ else _) = _ at h
      split_ifs at h
  | closing => cases h

/-- Two slashes begin a comment. -/
theorem lineMode_ne_lineComment {m : Mode} {t : Text} (hm : m ≠ .lineComment)
    (ht : ¬ "//".toList <:+: t) : lineMode m t ≠ .lineComment := by
  induction t generalizing m with
  | nil => exact hm
  | cons c t ih =>
      refine ih (fun h => ht ?_) fun h => ht (h.trans (List.suffix_cons c t).isInfix)
      obtain ⟨rfl, hnext⟩ := of_after_lineComment hm h
      obtain ⟨u, rfl⟩ := List.head?_eq_some_iff.1 hnext
      exact ⟨[], u, rfl⟩

/-! ### The line that opens the body of a function -/

/-- What a scanner knows before the last characters of a line. -/
theorem exists_of_scanLine_append {before t u : Text} {s x : State}
    (h : scanLine before s (t ++ u) = .ok x) :
    ∃ y, scanLine (t.reverse ++ before) y u = .ok x := by
  induction t generalizing before s with
  | nil => exact ⟨s, h⟩
  | cons c t ih =>
      obtain ⟨y, -, h⟩ := exists_of_bind_ok h
      obtain ⟨z, hz⟩ := ih h
      exact ⟨z, by simpa using hz⟩

/-- A line that ends in a brace leads into it, unless it ends in a comment, or in a raw string. -/
theorem of_leads_brace {s s' : State} {t : Text} (hs : s.mode.IsSettled)
    (hcomment : ¬ "//".toList <:+: t ++ [' ', '{'])
    (hstruct : endsInStruct (' ' :: t.reverse) = false) (h : Leads s (t ++ [' ', '{']) s') :
    s'.isInside = true ∨ ∃ stack, s' = ⟨.code, ⟨.curly, false⟩ :: stack⟩ := by
  obtain ⟨x, hscan, hend⟩ := exists_of_bind_ok h
  have hmode : x.mode ≠ .lineComment := by
    rw [mode_of_scanLine hscan]
    refine lineMode_ne_lineComment (fun hs' => ?_) hcomment
    rcases hs with h | h | h <;> rw [hs'] at h <;> cases h
  obtain ⟨⟨mode, stack⟩, hlast⟩ := exists_of_scanLine_append hscan
  rw [List.append_nil, scanLine_of_step (step_of_isBlank (by decide) _ _ _)] at hlast
  obtain ⟨x', hstep, hlast⟩ := exists_of_bind_ok hlast
  cases hlast
  have hcode : ∀ next, step (' ' :: t.reverse) ⟨.code, stack⟩ '{' next =
      .ok ⟨.code, ⟨.curly, false⟩ :: stack⟩ := fun next => by rw [← hstruct]; rfl
  -- Only a literal that is not ended, and a comment up to the end of the line, are left out.
  cases mode with
  | code | closing =>
      cases (hcode _).symm.trans hstep
      cases hend
      exact Or.inr ⟨stack, rfl⟩
  | literal q escaped =>
      cases q <;> cases hstep <;> cases hend
  | lineComment =>
      cases hstep
      exact absurd rfl hmode
  | rawString | blockComment | opening =>
      cases hstep
      cases hend
      exact Or.inl rfl

/-! ### A line that is no field -/

theorem Woven.exists_last {row : Row} {t cell : Text} (h : Woven row t)
    (hcell : row.getLast? = some cell) :
    ∃ front gap, t = front ++ (cell ++ gap) ∧ gap.all Text.isBlank = true := by
  induction h with
  | nil => cases hcell
  | @cons first gap t row _ hgap _ h ih =>
      cases row with
      | nil =>
          cases hcell
          cases h
          exact ⟨[], gap, by simp, hgap⟩
      | cons next row =>
          obtain ⟨front, gap', rfl, hgap'⟩ := ih (by simpa using hcell)
          exact ⟨first ++ (gap ++ front), gap', by simp, hgap'⟩

theorem Woven.of_pair {name type t : Text} (h : Woven [name, type] t) : ∃ gap gap',
    t = (name ++ gap) ++ type ++ gap' ∧ gap.all Text.isBlank = true ∧
      gap'.all Text.isBlank = true := by
  cases h with
  | @cons _ gap _ _ _ hgap _ h =>
      cases h with
      | @cons _ gap' _ _ _ hgap' _ h =>
          cases h
          exact ⟨gap, gap', by simp, hgap, hgap'⟩

/-- The end of the line that opens the body of the method. -/
def methodOpening : Text := ") TableName() string \x7b"

/-- What a line that ends in the brace is like in front of the blanks at its end. -/
theorem eq_nil_of_brace {w front gap : Text} (h : w ++ ['{'] = front ++ gap)
    (hgap : gap.all Text.isBlank = true) : gap = [] := by
  obtain rfl | ⟨blanks, c, rfl⟩ := List.eq_nil_or_concat' gap
  · rfl
  · rw [← List.append_assoc] at h
    have hc : ['{'] = [c] := List.append_inj_right' h rfl
    cases hc
    rw [List.all_append, Bool.and_eq_true] at hgap
    cases hgap.2

/-- A row of which the line ends in a brace ends in its last cell. -/
theorem Woven.exists_last_of_brace {row : Row} {w cell : Text} (h : Woven row (w ++ ['{']))
    (hcell : row.getLast? = some cell) : ∃ front, w ++ ['{'] = front ++ cell := by
  obtain ⟨front, gap, ht, hgap⟩ := h.exists_last hcell
  rw [← List.append_assoc] at ht
  cases eq_nil_of_brace ht hgap
  exact ⟨front, by rw [ht, List.append_nil]⟩

/-- A name and a type do not end as the line does. -/
theorem false_of_name_type {w name gap type : Text} (hname : isIdentifier name = true)
    (hgap : gap.all Text.isBlank = true) (htype : IsWord type)
    (h : w ++ "() string \x7b" = (name ++ gap) ++ type) : False := by
  have hblank : ∀ {x : Text}, type ≠ x ++ "() string \x7b" := by
    rintro x rfl
    have hmem : ' ' ∈ x ++ "() string \x7b" := List.mem_append_right x (by decide)
    exact Text.not_mem_of_all htype (by decide) hmem
  have hround : '(' ∉ name ++ gap := by
    intro hmem
    obtain hmem | hmem := List.mem_append.1 hmem
    · exact Text.not_mem_of_all (all_isQuiet_of_isIdentifier hname) (by decide) hmem
    · exact Text.not_mem_of_all hgap (by decide) hmem
  obtain ⟨x, hx, hopening⟩ | ⟨x, -, hx⟩ := List.append_eq_append_iff.1 h
  · cases x with
    | nil => exact hblank (x := []) hopening.symm
    | cons c x =>
        cases (List.cons.inj hopening).1
        exact hround (hx ▸ List.mem_append_right w List.mem_cons_self)
  · exact hblank hx

/-- The line that opens the body of the method is not taken for that of a field. -/
theorem not_fieldCells_of_opening {t : Text} {row : Row} (hopening : methodOpening <:+ t)
    (hcomment : ¬ "//".toList <:+: t) : fieldCells t ≠ .ok row := by
  intro h
  obtain ⟨name, type, tail, rfl, hrow, -⟩ := respaced_of_fieldCells h
  have hwoven := woven_of_fieldCells h
  obtain ⟨w, rfl⟩ := hopening
  have hbrace : w ++ methodOpening = (w ++ ") TableName() string ") ++ ['{'] := by
    rw [List.append_assoc]
    rfl
  rw [hbrace] at hwoven hcomment
  have hnoComment : ∀ {cell : Text}, (name :: type :: tail).getLast? = some cell →
      ¬ startsComment cell = true := by
    intro cell hcell hstart
    obtain ⟨u, rfl⟩ := startsComment_iff.1 hstart
    obtain ⟨front, ht⟩ := hwoven.exists_last_of_brace hcell
    exact hcomment ⟨front, u, by rw [ht]; simp⟩
  cases hrow.isTail with
  | ending hending =>
      cases hending with
      | nil =>
          obtain ⟨gap, gap', ht, hgap, hgap'⟩ := hwoven.of_pair
          cases eq_nil_of_brace ht hgap'
          refine false_of_name_type (w := w ++ ") TableName") hrow.identifier hgap hrow.typeWord ?_
          rw [List.append_nil] at ht
          rw [← ht, List.append_assoc, List.append_assoc]
          rfl
      | comment hstart hend => exact hnoComment rfl hstart
  | @tagged tag _ htag hending =>
      cases hending with
      | nil =>
          obtain ⟨front, ht⟩ := hwoven.exists_last_of_brace
            (show _ = some ('\x60' :: tag ++ ['\x60']) from rfl)
          rw [← List.append_assoc] at ht
          cases (List.append_inj_right' ht rfl : ['{'] = ['\x60'])
      | comment hstart hend => exact hnoComment rfl hstart

/-- The line that opens the body of the method is kept to its end. -/
theorem HasShape.exists_text_of_opening {s : State} {t : Text} {shape : Shape}
    (h : HasShape s t shape) (hopening : methodOpening <:+ t) (hcomment : ¬ "//".toList <:+: t)
    (aligned : Text) : ∃ u, shape.text aligned = some u ∧ methodOpening <:+ u := by
  have htrim : methodOpening <:+ Text.trim t :=
    Text.isSuffix_trim (u := " TableName() string ") (c := ')') (d := '{') (by decide) (by decide)
      hopening
  cases h with
  | verbatim _ => exact ⟨t, rfl, hopening⟩
  | blank _ hblank =>
      rw [hblank, List.suffix_nil] at htrim
      cases htrim
  | code _ _ _ => exact ⟨_, rfl, htrim.trans (List.suffix_append _ _)⟩
  | field _ _ _ hrow =>
      refine absurd hrow (not_fieldCells_of_opening htrim fun hpiece => hcomment ?_)
      exact hpiece.trans (Text.isInfix_trim t)

end Format

open Format

/-! ### The lines of the method -/

namespace Struct

/-- Inside of what the method's first line opens, the next one is kept as it is. -/
theorem text_of_returnLine {s : Struct} {x x' : State} {shape : Shape}
    (hx : x.isInside = true ∨ ∃ stack, x = ⟨.code, ⟨.curly, false⟩ :: stack⟩)
    (hleads : Leads x s.returnLine x') (hshape : HasShape x s.returnLine shape)
    (hstack : ∃ o, x' = ⟨.code, [o]⟩) (aligned : Text) :
    shape.text aligned = some s.returnLine := by
  obtain hinside | ⟨stack, rfl⟩ := hx
  · cases hshape with
    | verbatim _ => rfl
    | blank houtside _ | field houtside _ _ _ | code houtside _ _ =>
        rw [hinside] at houtside
        cases houtside
  · obtain ⟨o, rfl⟩ := hstack
    cases (leads_returnLine s _).symm.trans hleads
    cases hshape with
    | verbatim hinside => cases hinside
    | blank _ hblank =>
        rw [trim_returnLine] at hblank
        cases hblank
    | field _ _ hfield _ => cases hfield
    | code _ _ _ =>
        rw [trim_returnLine]
        rfl

/-- The line that closes the body leads out of one bracket. -/
theorem eq_of_leads_closing {x : State} (hx : x.mode.IsSettled) (h : Leads x ['}'] .start) :
    ∃ o, x = ⟨.code, [o]⟩ := by
  obtain ⟨mode, stack⟩ := x
  rcases hx with hmode | hmode | hmode <;> cases hmode
  · cases stack with
    | nil => cases h
    | cons o os =>
        obtain ⟨bracket, isStruct⟩ := o
        cases bracket <;> cases h
        exact ⟨_, rfl⟩
  · cases h
  · cases h

theorem text_of_closing {x : State} {shape : Shape} (hx : ∃ o, x = ⟨.code, [o]⟩)
    (hshape : HasShape x ['}'] shape) (aligned : Text) : shape.text aligned = some ['}'] := by
  obtain ⟨o, rfl⟩ := hx
  cases hshape with
  | verbatim hinside => cases hinside
  | blank _ hblank => cases hblank
  | field _ _ hfield _ =>
      have htrim : Text.trim ['}'] = ['}'] := by decide
      rw [htrim] at hfield
      simp [State.isField] at hfield
  | code _ _ _ => rfl

theorem text_of_end {shape : Shape} (hshape : HasShape .start [] shape) (aligned : Text) :
    shape.text aligned = none := by
  cases hshape with
  | verbatim hinside => cases hinside
  | blank _ _ => rfl
  | field _ hne _ _ | code _ hne _ => exact absurd rfl hne

theorem exists_lines_of_method {s : Struct} (hmethod : s.hasTableName = true) :
    ∃ front last, last <:+ ("func (m *" ++ s.name : Text) ∧ Text.splitOn '\n' s.draft =
      front ++ [last ++ methodOpening, s.returnLine, ['}'], []] := by
  have hcomment : ("\n// TableName .\n" : Text) = "\n// TableName ." ++ ['\n'] := rfl
  have hopening : (") TableName() string \x7b\n" : Text) = methodOpening ++ ['\n'] := rfl
  have hclosing : ("\n\x7d\n" : Text) = '\n' :: ['}'] ++ ['\n'] := rfl
  obtain ⟨front, hdraft⟩ : ∃ front, s.draft = front ++ '\n' :: ((("func (m *" ++ s.name) ++
      methodOpening) ++ '\n' :: (s.returnLine ++ '\n' :: (['}'] ++ '\n' :: []))) := by
    refine ⟨"// " ++ s.comment ++ "\ntype " ++ s.name ++ " struct \x7b\n" ++
      s.fields.flatMap Field.draft ++ "\x7d\n" ++ "\n// TableName .", ?_⟩
    unfold draft tableNameMethod returnLine
    rw [if_pos hmethod, hcomment, hopening, hclosing]
    simp only [List.append_assoc, List.cons_append, List.nil_append]
  have hnone : '\n' ∉ methodOpening := by decide
  obtain ⟨parts, last, hparts, hlast⟩ := Text.exists_splitOn_append ("func (m *" ++ s.name) hnone
  refine ⟨Text.splitOn '\n' front ++ parts, last, hlast, ?_⟩
  rw [hdraft, Text.splitOn_append, Text.splitOn_append, hparts, Text.splitOn_append,
    Text.splitOn_of_not_mem (newline_not_mem_returnLine s)]
  simp [Text.splitOn]

theorem opening_without_comment {s : Struct} {last : Text} (hname : ¬ "//".toList <:+: s.name)
    (hlast : last <:+ "func (m *" ++ s.name) : ¬ "//".toList <:+: last ++ methodOpening := by
  intro h
  have hpiece := Text.isInfix_left (by decide) (List.all_iff_forall_prop.1 (by decide)) h
  exact hname (Text.isInfix_right (by decide) (List.all_iff_forall_prop.1 (by decide))
    (hpiece.trans hlast.isInfix))

theorem of_leads_opening {last : Text} {x x' : State} (hx : x.mode.IsSettled)
    (hcomment : ¬ "//".toList <:+: last ++ methodOpening) (h : Leads x (last ++ methodOpening) x') :
    x'.isInside = true ∨ ∃ stack, x' = ⟨.code, ⟨.curly, false⟩ :: stack⟩ := by
  have hsplit : last ++ methodOpening = (last ++ ") TableName() string") ++ [' ', '{'] := by
    rw [List.append_assoc]
    rfl
  rw [hsplit] at hcomment h
  refine of_leads_brace hx hcomment ?_ h
  rw [List.reverse_append]
  rfl

/-- The text of a struct ends in the method that returns the name of the table. -/
theorem isSuffix_of_render {s : Struct} {text : Text} (hmethod : s.hasTableName = true)
    (hname : ¬ "//".toList <:+: s.name) (h : s.render = .ok text) :
    methodOpening ++ '\n' :: (s.returnLine ++ '\n' :: ['}', '\n']) <:+ text := by
  obtain ⟨shapes, final, hruns, hend, rfl⟩ := format_eq_ok_iff.1 h
  obtain ⟨front, last, hlast, hlines⟩ := exists_lines_of_method hmethod
  rw [hlines] at hruns
  obtain ⟨x, shapes, _, rfl, hfront, hruns⟩ := hruns.exists_of_append
  obtain ⟨x₁, opening, _, rfl, hleads, hopening, hruns⟩ := hruns.exists_of_cons
  obtain ⟨x₂, returned, _, rfl, hleads₁, hreturned, hruns⟩ := hruns.exists_of_cons
  obtain ⟨x₃, closing, _, rfl, hleads₂, hclosing, hruns⟩ := hruns.exists_of_cons
  obtain ⟨x₄, empty, _, rfl, hleads₃, hempty, hruns⟩ := hruns.exists_of_cons
  cases hruns
  -- The states behind the last lines, from the end back.
  have hx := hfront.isSettled (Or.inl rfl)
  have hx₁ := hleads.isSettled hx
  have hx₂ := hleads₁.isSettled hx₁
  have hx₃ := hleads₂.isSettled hx₂
  have hfinal : x₃ = .start := by
    rw [← eq_of_blank hx₃ rfl hleads₃]
    exact eq_start_of_endText (hleads₃.isSettled hx₃) hend
  subst hfinal
  have hbody := eq_of_leads_closing hx₂ hleads₂
  have hcomment := opening_without_comment hname hlast
  exact isSuffix_of_layout
    (fun _ => hopening.exists_text_of_opening (List.suffix_append last _) hcomment _)
    (text_of_returnLine (of_leads_opening hx hcomment hleads) hleads₁ hreturned hbody)
    (text_of_closing hbody hclosing) (text_of_end hempty) shapes

end Struct

open Struct in
/-- A name is quoted to a literal on one line. A scanner is inside of it from its first character to
its last one, and its value is the name again. Where no comment begins in the name of a struct, its
method returns that literal. -/
theorem tableName_is_returned :
    (∀ t : Text, '\n' ∉ quoted t ∧ literalValue? (quoted t) = some t ∧
      ∀ before stack, Passes before ⟨.code, stack⟩ (quoted t) ⟨.code, stack⟩ ∧
        ∀ p q, quoted t = p ++ q → p ≠ [] → q ≠ [] →
          ∃ escaped, Passes before ⟨.code, stack⟩ p ⟨.literal .double escaped, stack⟩) ∧
    Function.Injective quoted ∧
    ∀ (s : Struct) (text : Text), s.hasTableName = true → ¬ "//".toList <:+: s.name →
      s.render = .ok text →
      (") TableName() string \x7b\n\treturn " ++ quoted s.tableName ++ "\n\x7d\n" : Text) <:+
        text := by
  refine ⟨fun t => ⟨newline_not_mem_quoted t, literalValue?_quoted t, fun before stack =>
    ⟨scanLine_quoted before stack t, fun p q => passes_of_isPrefix_quoted before stack⟩⟩,
    fun t u => quoted_inj, fun s text hmethod hname h => ?_⟩
  have hbody := isSuffix_of_render hmethod hname h
  have hlines : methodOpening ++ '\n' :: (s.returnLine ++ '\n' :: ['}', '\n']) =
      (") TableName() string \x7b\n\treturn " ++ quoted s.tableName ++ "\n\x7d\n" : Text) := by
    have hreturn : (") TableName() string \x7b\n\treturn " : Text) =
        methodOpening ++ '\n' :: "\treturn " := rfl
    have hclosing : ("\n\x7d\n" : Text) = ['\n', '}', '\n'] := rfl
    unfold returnLine
    rw [hreturn, hclosing]
    simp only [List.append_assoc, List.cons_append]
  rwa [← hlines]

/-- A struct without fields for a table whose name holds quotes, comments and a line break. -/
def oddStruct : Struct where
  name := "T"
  tableName := "a\"\\  // ` \x7b\n"
  comment := "T ."
  fields := []
  hasTableName := true

theorem tableName_is_returned_of_oddStruct :
    (∃ escaped, Passes [] ⟨.code, []⟩ "\"a\\" ⟨.literal .double escaped, []⟩) ∧
    ∃ text, oddStruct.render = .ok text ∧ (") TableName() string \x7b
\treturn \"a\\\"\\\\  // ` \x7b\\n\"\n\x7d\n" : Text) <:+ text := by
  obtain ⟨hquoted, -, hbody⟩ := tableName_is_returned
  have hsplit : quoted oddStruct.tableName = "\"a\\" ++ "\"\\\\  // ` \x7b\\n\"" := by decide
  refine ⟨((hquoted oddStruct.tableName).2.2 [] []).2 _ _ hsplit (by decide) (by decide), ?_⟩
  obtain ⟨text, htext⟩ := Option.isSome_iff_exists.1
    (show oddStruct.render.toOption.isSome = true by decide +kernel)
  have hrender := eq_ok_of_toOption htext
  exact ⟨text, hrender, hbody oddStruct text rfl (by decide) hrender⟩

/-- A struct in whose name a comment begins behind the body of another one. -/
def commentedStruct : Struct where
  name := "` struct \x7b //"
  tableName := "a   // b"
  comment := "c"
  fields := []
  hasTableName := true

/-- The blanks in the literal are taken for those between the cells of a field. -/
theorem literal_taken_for_cells : ∃ text, commentedStruct.render = .ok text ∧
    ("\treturn \"a // b\"\n\x7d\n" : Text) <:+ text ∧
      ¬ quoted commentedStruct.tableName <:+: text := by
  obtain ⟨text, htext⟩ := Option.isSome_iff_exists.1
    (show commentedStruct.render.toOption.isSome = true by decide +kernel)
  refine ⟨text, eq_ok_of_toOption htext, ?_⟩
  have hends : ∀ text ∈ commentedStruct.render.toOption,
      ("\treturn \"a // b\"\n\x7d\n" : Text) <:+ text ∧
        ¬ quoted commentedStruct.tableName <:+: text := by
    decide +kernel
  exact hends text htext

end Go

end SchemaModels

import SchemaModels.Proofs.Go.Paragraphs
import SchemaModels.Proofs.Go.Reformatting

/-!
# What formatting keeps

A line that is laid out holds the characters of the line that it was made from, but for blanks
(`HasShape.withoutBlanks_eq`). Blank lines apart, a formatted text has a line for each line of its
source, in paragraphs that one empty line parts (`format_keeps_lines`).
-/

namespace SchemaModels

namespace Text

/-! ### Texts without their blanks -/

/-- The characters of a text that are not blank. -/
def withoutBlanks (t : Text) : Text := t.filter (!isBlank ·)

theorem withoutBlanks_append (t u : Text) :
    withoutBlanks (t ++ u) = withoutBlanks t ++ withoutBlanks u :=
  List.filter_append _ _

theorem withoutBlanks_eq_nil_iff {t : Text} : withoutBlanks t = [] ↔ t.all isBlank = true := by
  simp [withoutBlanks, List.filter_eq_nil_iff]

theorem withoutBlanks_trim (t : Text) : withoutBlanks (trim t) = withoutBlanks t := by
  obtain ⟨s, u, ht, hs, hu⟩ := exists_trim t
  rw [← withoutBlanks_eq_nil_iff] at hs hu
  have hall := congrArg withoutBlanks ht
  rw [withoutBlanks_append, withoutBlanks_append, hs, hu, List.nil_append, List.append_nil] at hall
  exact hall.symm

/-- Of the lines of a text nothing but their ends is deleted. -/
theorem withoutBlanks_splitOn (t : Text) :
    withoutBlanks t = (splitOn '\n' t).flatMap withoutBlanks := by
  induction t with
  | nil => rfl
  | cons c t ih =>
      have hcons : withoutBlanks (c :: t) = withoutBlanks [c] ++ withoutBlanks t :=
        withoutBlanks_append [c] t
      by_cases hc : c = '\n'
      · subst hc
        rw [hcons, ih, splitOn, if_pos rfl]
        rfl
      · rw [hcons, ih, splitOn, if_neg hc]
        cases hs : splitOn '\n' t with
        | nil => exact absurd hs (splitOn_ne_nil '\n' t)
        | cons part parts =>
            rw [List.flatMap_cons, ← List.append_assoc, ← withoutBlanks_append]
            rfl

end Text

namespace Go

namespace Format

theorem Respaced.withoutBlanks_eq {t t' : Text} (h : Respaced t t') :
    Text.withoutBlanks t' = Text.withoutBlanks t := by
  have hblanks : ∀ {s : Text}, s.all Text.isBlank = true → Text.withoutBlanks s = [] := fun hs =>
    Text.withoutBlanks_eq_nil_iff.2 hs
  induction h with
  | trailing hs => rw [hblanks hs]; rfl
  | cons c h ih =>
      rw [← List.singleton_append, Text.withoutBlanks_append, ih, ← Text.withoutBlanks_append]
      rfl
  | gap hs hne hs' hne' h ih =>
      rw [Text.withoutBlanks_append, Text.withoutBlanks_append, hblanks hs, hblanks hs', ih]
  | @backquote s t t' hs h ih =>
      rw [← List.singleton_append, Text.withoutBlanks_append, Text.withoutBlanks_append, hblanks hs,
        ih, List.nil_append, ← Text.withoutBlanks_append]
      rfl

/-- A line that is laid out differs in blanks only from the one that it was made from. -/
theorem HasShape.withoutBlanks_eq {s : State} {t text aligned : Text} {shape : Shape}
    (h : HasShape s t shape) (haligned : Spaced shape.cells aligned)
    (htext : shape.text aligned = some text) :
    Text.withoutBlanks text = Text.withoutBlanks t := by
  have htabs : ∀ n, Text.withoutBlanks (List.replicate n '\t') = [] := fun n =>
    Text.withoutBlanks_eq_nil_iff.2 (tabs_blank n)
  cases h with
  | verbatim hinside =>
      cases htext
      rfl
  | blank hinside hblank => cases htext
  | code hinside hne hfield =>
      cases htext
      rw [Text.withoutBlanks_append, htabs, List.nil_append, Text.withoutBlanks_trim]
  | field hinside hne hfield hrow =>
      cases htext
      obtain ⟨name, type, tail, rfl, -, hrespaced⟩ := respaced_of_fieldCells hrow
      rw [Text.withoutBlanks_append, htabs, List.nil_append,
        (hrespaced _ haligned).withoutBlanks_eq, Text.withoutBlanks_trim]

/-! ### Lines -/

/-- A line of nothing but blanks that does not begin inside a raw string or a comment. -/
def Line.isBlank (l : Line) : Bool := !l.isVerbatim && l.text.all Text.isBlank

/-- How a line is written that is not blank: on one line again, with the same characters but for
blanks, and as it is if it begins inside a raw string or a comment. -/
structure IsWritten (l : Line) (u : Text) : Prop where
  newline_not_mem : '\n' ∉ u
  withoutBlanks_eq : Text.withoutBlanks u = Text.withoutBlanks l.text
  verbatim : l.isVerbatim = true → u = l.text

/-- A line is left out if it is blank, and written if not. -/
def WrittenAs (l : Line) (out : Option Text) : Prop :=
  (l.isBlank = true ∧ out = none) ∨ (l.isBlank = false ∧ ∃ u, out = some u ∧ IsWritten l u)

theorem isBlank_at (s : State) (n : Nat) (t : Text) :
    (Line.at s n t).isBlank = (!s.isInside && t.all Text.isBlank) := rfl

theorem HasShape.isBlank_iff {s : State} {n : Nat} {t : Text} {shape : Shape}
    (h : HasShape s t shape) : (Line.at s n t).isBlank = true ↔ shape = .blank := by
  have hne : Text.trim t ≠ [] → t.all Text.isBlank = false := fun h =>
    Bool.eq_false_iff.2 (mt Text.trim_eq_nil_iff.2 h)
  rw [isBlank_at]
  cases h with
  | verbatim hinside => simp [hinside]
  | blank hinside hblank => simp [hinside, Text.trim_eq_nil_iff.1 hblank]
  | code hinside hnil hfield => simp [hne hnil]
  | field hinside hnil hfield hrow => simp [hne hnil]

theorem HasShape.isWritten {s : State} {n : Nat} {t text aligned : Text} {shape : Shape}
    (h : HasShape s t shape) (ht : '\n' ∉ t) (haligned : Spaced shape.cells aligned)
    (htext : shape.text aligned = some text) : IsWritten (Line.at s n t) text := by
  refine ⟨h.newline_not_mem ht haligned htext, h.withoutBlanks_eq haligned htext, fun hinside => ?_⟩
  have hinside' : s.isInside = true := hinside
  cases h with
  | verbatim _ =>
      cases htext
      rfl
  | blank hinside _ => rw [hinside'] at hinside; cases hinside
  | code hinside _ _ => rw [hinside'] at hinside; cases hinside
  | field hinside _ _ _ => rw [hinside'] at hinside; cases hinside

/-- The lines of a layout are those that are not blank, as they are written. -/
theorem Runs.forall₂_written {s final : State} {ts : List Text} {shapes : List Shape}
    {outs : List (Option Text)} (h : Runs s ts shapes final) (hts : ∀ t ∈ ts, '\n' ∉ t)
    (hlaid : IsLaidOut shapes outs) {n : Nat} {lines : List Line}
    (hlines : Format.scanLines s n ts = .ok (lines, final)) :
    lines.map (·.text) = ts ∧ List.Forall₂ WrittenAs lines outs := by
  induction h generalizing n lines outs with
  | nil s =>
      cases hlines
      rw [show outs = [] from hlaid]
      exact ⟨rfl, .nil⟩
  | @cons s s' final t ts shape shapes hleads hshape h ih =>
      obtain ⟨aligned, outs', rfl, haligned, hlaid'⟩ := hlaid
      obtain ⟨s'', lines', rfl, hleads', hlines'⟩ := of_scanLines_cons hlines
      obtain rfl : s' = s'' := Except.ok.inj (hleads.symm.trans hleads')
      obtain ⟨htexts, hwritten⟩ := ih (fun u hu => hts u (List.mem_cons_of_mem t hu)) hlaid' hlines'
      refine ⟨congrArg (t :: ·) htexts, .cons ?_ hwritten⟩
      obtain rfl | hfilled := eq_blank_or_filled shape
      · exact Or.inl ⟨hshape.isBlank_iff.2 rfl, rfl⟩
      · obtain ⟨u, hu⟩ := Shape.exists_text hfilled aligned
        refine Or.inr ⟨Bool.eq_false_iff.2 fun hblank => ?_, u, hu,
          hshape.isWritten (hts t List.mem_cons_self) haligned hu⟩
        rw [hshape.isBlank_iff.1 hblank] at hfilled
        cases hfilled

/-! ### The first line and the last one -/

/-- Where a text begins in code, its first line that is not blank holds more than blanks. -/
theorem first_of_scanLines {s final : State} {n : Nat} {ts : List Text} {lines : List Line}
    (h : scanLines s n ts = .ok (lines, final)) (hs : s.mode = .code) {l : Line}
    (hl : (lines.filter (!·.isBlank)).head? = some l) : l.text.all Text.isBlank = false := by
  induction ts generalizing s n lines with
  | nil =>
      cases h
      cases hl
  | cons t ts ih =>
      obtain ⟨s', lines', rfl, hleads, hlines⟩ := of_scanLines_cons h
      have hinside : s.isInside = false := by simp [State.isInside, hs]
      cases ht : t.all Text.isBlank with
      | true =>
          obtain rfl := eq_of_blank (Or.inl hs) ht hleads
          rw [List.filter_cons_of_neg (by simp [isBlank_at, hinside, ht])] at hl
          exact ih hlines hs hl
      | false =>
          rw [List.filter_cons_of_pos (by simp [isBlank_at, ht])] at hl
          cases hl
          exact ht

/-- What begins inside a raw string or a comment goes on with a line that counts. -/
theorem filter_ne_nil_of_isInside {s final : State} {n : Nat} {ts : List Text} {lines : List Line}
    (h : scanLines s n ts = .ok (lines, final)) (hs : s.isInside = true)
    (hfinal : final.mode = .code) : lines.filter (!·.isBlank) ≠ [] := by
  cases ts with
  | nil =>
      cases h
      simp [State.isInside, hfinal] at hs
  | cons t ts =>
      obtain ⟨s', lines', rfl, -, -⟩ := of_scanLines_cons h
      rw [List.filter_cons_of_pos (by simp [isBlank_at, hs])]
      exact List.cons_ne_nil _ _

/-- Where a text ends in code, its last line that is not blank holds more than blanks. -/
theorem last_of_scanLines {s final : State} {n : Nat} {ts : List Text} {lines : List Line}
    (h : scanLines s n ts = .ok (lines, final)) (hs : s.mode.IsSettled)
    (hfinal : final.mode = .code) {l : Line}
    (hl : (lines.filter (!·.isBlank)).getLast? = some l) : l.text.all Text.isBlank = false := by
  induction ts generalizing s n lines with
  | nil =>
      cases h
      cases hl
  | cons t ts ih =>
      obtain ⟨s', lines', rfl, hleads, hlines⟩ := of_scanLines_cons h
      have hs' := hleads.isSettled hs
      by_cases hrest : lines'.filter (!·.isBlank) = []
      · -- The line is the last one that counts, so it does not go on with what it begins inside of.
        refine Bool.eq_false_iff.2 fun hall => ?_
        cases hinside : s.isInside with
        | true =>
            rw [List.filter_cons_of_pos (by simp [isBlank_at, hinside]), hrest,
              List.getLast?_singleton] at hl
            cases hl
            obtain rfl := eq_of_blank hs hall hleads
            exact filter_ne_nil_of_isInside hlines hinside hfinal hrest
        | false =>
            cases ht : t.all Text.isBlank with
            | true =>
                rw [List.filter_cons_of_neg (by simp [isBlank_at, hinside, ht]), hrest] at hl
                cases hl
            | false =>
                rw [List.filter_cons_of_pos (by simp [isBlank_at, ht]), hrest,
                  List.getLast?_singleton] at hl
                cases hl
                exact absurd hall (Bool.eq_false_iff.1 ht)
      · have hlast : ((Line.at s n t :: lines').filter (!·.isBlank)).getLast? =
            (lines'.filter (!·.isBlank)).getLast? := by
          rw [List.filter_cons]
          split
          · rw [List.getLast?_cons_of_ne_nil hrest]
          · rfl
        rw [hlast] at hl
        exact ih hlines hs' hl

/-! ### Formatted texts -/

/-- The lines of a formatted text, in paragraphs like those of its source: one empty line parts two
of them, and none is in front of the first or behind the last. -/
structure KeepsLines (lines : List Line) (written : List Text) : Prop where
  paragraphs : ∃ ps, List.Forall₂ (List.Forall₂ IsWritten) (Format.paragraphs Line.isBlank lines) ps ∧
    written = [[]].intercalate ps
  first : ∀ u, written.head? = some u → u.all Text.isBlank = false
  last : ∀ u, written.getLast? = some u → u.all Text.isBlank = false

theorem IsWritten.all_isBlank {l : Line} {u : Text} (h : IsWritten l u) :
    u.all Text.isBlank = l.text.all Text.isBlank := by
  rw [Bool.eq_iff_iff, ← Text.withoutBlanks_eq_nil_iff, ← Text.withoutBlanks_eq_nil_iff,
    h.withoutBlanks_eq]

/-- The lines that are not blank, as they are written. -/
theorem forall₂_filterMap {lines : List Line} {outs : List (Option Text)}
    (h : List.Forall₂ WrittenAs lines outs) :
    List.Forall₂ IsWritten (lines.filter (!·.isBlank)) (outs.filterMap id) := by
  induction h with
  | nil => exact .nil
  | cons hout _ ih =>
      obtain ⟨hblank, hnone⟩ | ⟨hblank, u, hsome, hu⟩ := hout
      · rw [List.filter_cons_of_neg (by simp [hblank]), List.filterMap_cons_none hnone]
        exact ih
      · rw [List.filter_cons_of_pos (by simp [hblank]), List.filterMap_cons_some hsome]
        exact .cons hu ih

theorem flatMap_withoutBlanks {lines : List Line} {outs : List (Option Text)}
    (h : List.Forall₂ WrittenAs lines outs) :
    (outs.filterMap id).flatMap Text.withoutBlanks =
      (lines.map (·.text)).flatMap Text.withoutBlanks := by
  induction h with
  | nil => rfl
  | cons hout _ ih =>
      rw [List.map_cons, List.flatMap_cons, ← ih]
      obtain ⟨hblank, hnone⟩ | ⟨-, u, hsome, hu⟩ := hout
      · have hall := (Bool.and_eq_true_iff.1 hblank).2
        rw [List.filterMap_cons_none hnone, Text.withoutBlanks_eq_nil_iff.2 hall, List.nil_append]
      · rw [List.filterMap_cons_some hsome, List.flatMap_cons, hu.withoutBlanks_eq]

theorem exists_of_head? {lines : List Line} {us : List Text} (h : List.Forall₂ IsWritten lines us)
    {u : Text} (hu : us.head? = some u) : ∃ l, lines.head? = some l ∧ IsWritten l u := by
  cases h with
  | nil => cases hu
  | cons hfirst _ =>
      cases hu
      exact ⟨_, rfl, hfirst⟩

theorem exists_of_getLast? {lines : List Line} {us : List Text}
    (h : List.Forall₂ IsWritten lines us) {u : Text} (hu : us.getLast? = some u) :
    ∃ l, lines.getLast? = some l ∧ IsWritten l u := by
  rw [← List.head?_reverse] at hu ⊢
  exact exists_of_head? (List.rel_reverse h) hu

end Format

open Format

/-- Formatting changes nothing but blanks. The lines of a source that are not blank are the lines of
the formatted text, but for single empty lines in place of blank ones between them; it begins and
ends with none of these. A line that begins inside a raw string or a comment stays as it is. -/
theorem format_keeps_lines {source text : Text} (h : format source = .ok text) :
    Text.withoutBlanks text = Text.withoutBlanks source ∧
    ∃ lines written, scan source = .ok lines ∧
      lines.map (·.text) = Text.splitOn '\n' source ∧
      Text.splitOn '\n' text = written ++ [[]] ∧ KeepsLines lines written := by
  obtain ⟨lines, shapes, final, hscan, hlines, hend, hshapes, rfl⟩ := exists_of_format h
  obtain ⟨outs, hlayout, hlaid⟩ := isLaidOut_layout shapes
  have hruns := runs_of_scanLines hlines hshapes
  have hts : ∀ t ∈ Text.splitOn '\n' source, '\n' ∉ t := fun _ => Text.not_mem_of_mem_splitOn
  obtain ⟨-, hnewline, hsettled⟩ := hruns.reduced (Or.inl rfl) hts hlaid false false nofun
  have hfinal := mode_of_endText hsettled hend
  obtain ⟨htexts, hwritten⟩ := hruns.forall₂_written hts hlaid hlines
  have hsplit : Text.splitOn '\n' (layout shapes) = reduce id [] false false outs ++ [[]] := by
    rw [hlayout, putLines_eq, Text.splitOn_lines hnewline]
  refine ⟨?_, lines, reduce id [] false false outs, hscan, htexts, hsplit, ?_, ?_, ?_⟩
  · rw [Text.withoutBlanks_splitOn, hsplit, List.flatMap_append, flatMap_reduce rfl,
      flatMap_withoutBlanks hwritten, htexts, ← Text.withoutBlanks_splitOn]
    exact List.append_nil _
  · exact ⟨_, forall₂_paragraphs hwritten, reduce_eq_intercalate outs⟩
  · intro u hu
    rw [head?_reduce] at hu
    obtain ⟨l, hl, hlu⟩ := exists_of_head? (forall₂_filterMap hwritten) hu
    rw [hlu.all_isBlank]
    exact first_of_scanLines hlines rfl hl
  · intro u hu
    rw [getLast?_reduce] at hu
    obtain ⟨l, hl, hlu⟩ := exists_of_getLast? (forall₂_filterMap hwritten) hu
    rw [hlu.all_isBlank]
    exact last_of_scanLines hlines (Or.inl rfl) hfinal hl

theorem format_untidyText : format untidyText = .ok tidyText :=
  eq_ok_of_toOption (by decide +kernel)

/-- What `format_keeps_lines` says of a text with blank lines inside a raw string and outside. -/
theorem format_keeps_lines_of_untidyText :
    format untidyText = .ok tidyText ∧
    Text.withoutBlanks tidyText = Text.withoutBlanks untidyText ∧
    ∃ lines written, scan untidyText = .ok lines ∧
      lines.map (·.text) = Text.splitOn '\n' untidyText ∧
      Text.splitOn '\n' tidyText = written ++ [[]] ∧ KeepsLines lines written :=
  ⟨format_untidyText, format_keeps_lines format_untidyText⟩

end Go

end SchemaModels

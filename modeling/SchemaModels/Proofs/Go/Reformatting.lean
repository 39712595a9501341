import SchemaModels.Proofs.Go.BlankLines
import SchemaModels.Proofs.Go.FieldRows

/-!
# Formatting a formatted text

A line that is laid out leads from the state in which it begins to the one to which the line it was
made from leads, and it has the shape of that line (`HasShape.again`). So the lines of a layout run
as the lines of its source do, but for surplus blank lines, which change nothing, and a formatted
text stays as it is when it is formatted again (`format_format`).
-/

namespace SchemaModels.Go.Format

/-! ### The line of some cells -/

theorem Spaced.trimEnd {row : Row} {line : Text} (h : Spaced row line) (hne : row ≠ [])
    (hlast : ∀ cell, row.getLast? = some cell → cell ≠ [] ∧ Text.trimEnd cell = cell) :
    line ≠ [] ∧ Text.trimEnd line = line := by
  induction row generalizing line with
  | nil => exact absurd rfl hne
  | cons cell row ih =>
      cases row with
      | nil =>
          rw [show line = cell from h]
          exact hlast cell rfl
      | cons next row =>
          obtain ⟨n, rest, rfl, hrest⟩ := h
          have hlast' : ∀ cell', (next :: row).getLast? = some cell' →
              cell' ≠ [] ∧ Text.trimEnd cell' = cell' := fun cell' h' =>
            hlast cell' (by rw [List.getLast?_cons_cons, h'])
          obtain ⟨hrestNe, htrim⟩ := ih hrest (List.cons_ne_nil next row) hlast'
          constructor
          · exact fun hnil => hrestNe (List.append_eq_nil_iff.1 hnil).2
          · rw [Text.trimEnd_append_left (by rw [htrim]; exact hrestNe), htrim]

theorem trimEnd_of_isWord {word : Text} (hword : IsWord word) : Text.trimEnd word = word := by
  obtain ⟨s, hs, hblank⟩ := Text.exists_trimEnd word
  cases s with
  | nil => exact (hs.trans (List.append_nil _)).symm
  | cons c s =>
      have hmem : c ∈ word := by
        rw [hs]
        exact List.mem_append_right _ List.mem_cons_self
      have hc := List.all_eq_true.1 hword c hmem
      rw [List.all_eq_true.1 hblank c List.mem_cons_self] at hc
      cases hc

theorem IsEnding.last {row : Row} (h : IsEnding row) {cell : Text} (hcell : row.getLast? = some cell) :
    cell ≠ [] ∧ Text.trimEnd cell = cell := by
  cases h with
  | nil => cases hcell
  | comment hstart hend =>
      cases hcell
      refine ⟨?_, hend⟩
      rintro rfl
      cases hstart

theorem IsFieldRow.last {name type : Text} {tail : Row} (h : IsFieldRow name type tail) {cell : Text}
    (hcell : (name :: type :: tail).getLast? = some cell) :
    cell ≠ [] ∧ Text.trimEnd cell = cell := by
  rw [List.getLast?_cons_cons] at hcell
  cases h.isTail with
  | ending hending =>
      cases tail with
      | nil =>
          cases hcell
          exact ⟨h.typeNe, trimEnd_of_isWord h.typeWord⟩
      | cons first tail =>
          rw [List.getLast?_cons_cons] at hcell
          exact hending.last hcell
  | @tagged tag row htag hending =>
      rw [List.getLast?_cons_cons] at hcell
      cases row with
      | nil =>
          cases hcell
          exact ⟨List.cons_ne_nil _ _, Text.trimEnd_append_cons (by decide) ('\x60' :: tag) []⟩
      | cons first row =>
          rw [List.getLast?_cons_cons] at hcell
          exact hending.last hcell

/-- The line of a field begins with a letter, so it is no comment and closes nothing, and it ends
with its last cell. -/
theorem IsFieldRow.line {name type : Text} {tail : Row} (h : IsFieldRow name type tail)
    {line : Text} (hline : Spaced (name :: type :: tail) line) :
    line ≠ [] ∧ Text.trim line = line ∧ startsComment line = false ∧ line.head? ≠ some '}' := by
  obtain ⟨hne, htrimEnd⟩ := hline.trimEnd (List.cons_ne_nil _ _) fun _ => h.last
  obtain ⟨rest, rfl⟩ := hline.head
  have hid := h.identifier
  have hword := h.nameWord
  cases name with
  | nil => cases hid
  | cons c name =>
      have hletter : startsIdentifier c = true := (Bool.and_eq_true_iff.1 hid).1
      have hmarks : c ∉ ['/', '}'] := Text.not_mem_of_any hletter (by decide +kernel)
      simp only [List.mem_cons, List.not_mem_nil, or_false, not_or] at hmarks
      refine ⟨hne, ?_, ?_, fun hhead => hmarks.2 (Option.some.inj hhead)⟩
      · rw [Text.trim, trimStart_word_append hword (List.cons_ne_nil c name), htrimEnd]
      · refine Bool.eq_false_iff.2 fun hstarts => ?_
        obtain ⟨u, hu⟩ := startsComment_iff.1 hstarts
        exact hmarks.1 (List.cons.inj hu).1

/-! ### One line -/

theorem tabs_blank (n : Nat) : (List.replicate n '\t').all Text.isBlank = true := by
  simp [show Text.isBlank '\t' = true by decide]

theorem trim_indented (n : Nat) {t : Text} (ht : Text.trim t = t) :
    Text.trim (List.replicate n '\t' ++ t) = t := by
  have htrim := Text.trim_blanks (tabs_blank n) (u := []) rfl t
  rwa [List.append_nil, ht] at htrim

theorem mode_eq_code {s : State} (hs : s.mode.IsSettled) (hinside : s.isInside = false) :
    s.mode = .code := by
  rcases hs with h | h | h
  · exact h
  · simp [State.isInside, h] at hinside
  · simp [State.isInside, h] at hinside

/-- A line of code leads where its text leads, in whatever blanks it is put. -/
theorem leads_indented {s s' : State} {t u : Text} (hs : s.mode = .code)
    (h : Respaced (Text.trim t) u) (n : Nat) (hleads : Leads s t s') :
    Leads s (List.replicate n '\t' ++ u) s' := by
  obtain ⟨v, w, ht, hv, hw⟩ := Text.exists_trim t
  rw [ht] at hleads
  exact (leads_respaced hs (h.append_blanks hw) hv (tabs_blank n)).1 hleads

/-- A line that is laid out has the shape that it was laid out in, and leads where the line leads
that it was made from. -/
theorem HasShape.again {s s' : State} {t text aligned : Text} {shape : Shape}
    (h : HasShape s t shape) (hs : s.mode.IsSettled) (hleads : Leads s t s')
    (haligned : Spaced shape.cells aligned) (htext : shape.text aligned = some text) :
    HasShape s text shape ∧ Leads s text s' := by
  cases h with
  | verbatim hinside =>
      cases htext
      exact ⟨.verbatim hinside, hleads⟩
  | blank hinside hblank => cases htext
  | code hinside hne hfield =>
      cases htext
      have htrim := trim_indented (s.indent (Text.trim t)) (Text.trim_trim t)
      constructor
      · have hshape : HasShape s (List.replicate (s.indent (Text.trim t)) '\t' ++ Text.trim t) _ :=
          .code hinside (by rw [htrim]; exact hne) (by rw [htrim]; exact hfield)
        rwa [htrim] at hshape
      · exact leads_indented (mode_eq_code hs hinside) (.refl _) _ hleads
  | field hinside hne hfield hrow =>
      cases htext
      obtain ⟨name, type, tail, rfl, hcells, hrespaced⟩ := respaced_of_fieldCells hrow
      obtain ⟨hlineNe, hlineTrim, hstarts, hcloses⟩ := hcells.line haligned
      have htrim := trim_indented s.stack.length hlineTrim
      have hstruct : s.stack.head?.any (·.isStruct) = true := by
        unfold State.isField at hfield
        rw [Bool.and_eq_true_iff, Bool.and_eq_true_iff] at hfield
        exact hfield.1.1
      constructor
      · refine .field hinside (by rw [htrim]; exact hlineNe) ?_ ?_
        · rw [htrim, State.isField, hstruct, hstarts, bne_iff_ne.2 hcloses]
          rfl
        · rw [htrim]
          exact fieldCells_spaced hcells haligned
      · exact leads_indented (mode_eq_code hs hinside) (hrespaced _ haligned) _ hleads

/-- A line of blanks leads nowhere, whatever it begins inside of. -/
theorem eq_of_blank {s s' : State} {t : Text} (hs : s.mode.IsSettled)
    (ht : t.all Text.isBlank = true) (h : Leads s t s') : s' = s := by
  have hend : Leads s t s' ↔ endLine s = .ok s' := by
    rw [Leads, scanLine_trailing ht [] (hs.awaits t.head?)]
  have hstays : endLine s = .ok s := by
    obtain ⟨mode, stack⟩ := s
    rcases hs with h | h | h <;> cases h <;> rfl
  exact (Except.ok.inj (hstays.symm.trans (hend.1 h))).symm

/-! ### All lines -/

theorem HasShape.newline_not_mem {s : State} {t text aligned : Text} {shape : Shape}
    (h : HasShape s t shape) (ht : '\n' ∉ t) (haligned : Spaced shape.cells aligned)
    (htext : shape.text aligned = some text) : '\n' ∉ text := by
  have htabs : ∀ n, '\n' ∉ List.replicate n '\t' := by simp
  have htrim : '\n' ∉ Text.trim t := fun hmem => ht (Text.mem_of_mem_trim hmem)
  cases h with
  | verbatim hinside =>
      cases htext
      exact ht
  | blank hinside hblank => cases htext
  | code hinside hne hfield =>
      cases htext
      exact fun hmem => (List.mem_append.1 hmem).elim (htabs _) htrim
  | field hinside hne hfield hrow =>
      cases htext
      intro hmem
      obtain hmem | hmem := List.mem_append.1 hmem
      · exact htabs _ hmem
      · obtain hspace | ⟨cell, hcell, hmem⟩ := haligned.mem hmem
        · cases hspace
        · exact htrim (mem_of_fieldCells hrow hcell hmem)

/-- The lines that are left when blank ones are reduced run like all lines, and stay lines. -/
theorem Runs.reduced {s final : State} {ts : List Text} {shapes : List Shape}
    {lines : List (Option Text)} (h : Runs s ts shapes final) (hs : s.mode.IsSettled)
    (hts : ∀ t ∈ ts, '\n' ∉ t) (hlaid : IsLaidOut shapes lines) (started pending : Bool)
    (hpending : pending = true → s.mode = .code) :
    Runs s (reduce id [] started pending lines)
        (reduce Shape.filled? .blank started pending shapes) final ∧
      (∀ t ∈ reduce id [] started pending lines, '\n' ∉ t) ∧ final.mode.IsSettled := by
  induction h generalizing lines started pending with
  | nil s =>
      rw [show lines = [] from hlaid]
      exact ⟨.nil s, nofun, hs⟩
  | @cons s s' final t ts shape shapes hleads hshape h ih =>
      obtain ⟨aligned, lines', rfl, haligned, hlaid'⟩ := hlaid
      have ht := hts t List.mem_cons_self
      have hts' : ∀ u ∈ ts, '\n' ∉ u := fun u hu => hts u (List.mem_cons_of_mem t hu)
      have hs' := hleads.isSettled hs
      obtain rfl | hfilled := eq_blank_or_filled shape
      · cases hshape with
        | blank hinside hblank =>
            have hcode := mode_eq_code hs hinside
            obtain rfl := eq_of_blank hs (Text.trim_eq_nil_iff.1 hblank) hleads
            have hnone : id (Shape.blank.text aligned) = none := rfl
            rw [reduce_none hnone, reduce_none rfl]
            exact ih hs' hts' hlaid' started started fun _ => hcode
      · obtain ⟨text, htext⟩ := Shape.exists_text hfilled aligned
        have hsome : id (shape.text aligned) = some text := htext
        obtain ⟨hagain, hleads'⟩ := hshape.again hs hleads haligned htext
        have hline := hshape.newline_not_mem ht haligned htext
        obtain ⟨hruns, hlines, hfinal⟩ := ih hs' hts' hlaid' true false nofun
        have hrest := Runs.cons hleads' hagain hruns
        rw [reduce_some hsome, reduce_some hfilled]
        cases pending with
        | true =>
            refine ⟨(runs_blank (hpending rfl)).append hrest, ?_, hfinal⟩
            simpa [hline] using hlines
        | false =>
            refine ⟨hrest, ?_, hfinal⟩
            simpa [hline] using hlines

/-- A text ends in code. -/
theorem mode_of_endText {s : State} (hs : s.mode.IsSettled) (hend : endText s = .ok ()) :
    s.mode = .code := by
  obtain ⟨mode, stack⟩ := s
  rcases hs with h | h | h
  · exact h
  · cases h
    cases hend
  · cases h
    cases hend

end Format

/-- A formatted text stays as it is when it is formatted. -/
theorem format_format {source text : Text} (h : format source = .ok text) :
    format text = .ok text := by
  obtain ⟨shapes, final, hruns, hend, rfl⟩ := Format.format_eq_ok_iff.1 h
  obtain ⟨lines, hlayout, hlaid⟩ := Format.isLaidOut_layout shapes
  obtain ⟨hreduced, hlines, hfinal⟩ := hruns.reduced (Or.inl rfl)
    (fun t => Text.not_mem_of_mem_splitOn) hlaid false false nofun
  have hcode := Format.mode_of_endText hfinal hend
  refine Format.format_eq_ok_iff.2 ⟨_, final, ?_, hend, (Format.layout_reduced shapes).symm⟩
  rw [hlayout, Format.putLines_eq, Text.splitOn_lines hlines]
  exact hreduced.append (Format.runs_blank hcode)

/-- A text with runs of blank lines and other blanks, a struct in a struct, a type that looks like a
string with a comment's beginning, and lines that begin inside a raw string or a comment. -/
def untidyText : Text :=
  "type  A  struct \x7b\r\n\n\n a  x\"/*\"  `t`// c \n\n  \nBc\tstruct\x7b\n dd\t\u00A0int\n\x7d\n\x7d
var r = `u\n\n \x7b  v`\n/* w\n  \x7d */ \n\n"

def tidyText : Text :=
  "type  A  struct \x7b\n\n\ta x\"/*\" `t` // c\n\n\tBc struct\x7b\n\t\tdd int\n\t\x7d\n\x7d
var r = `u\n\n \x7b  v`\n/* w\n  \x7d */ \n"

theorem format_tidyText : format untidyText = .ok tidyText ∧ format tidyText = .ok tidyText := by
  have htidy : format untidyText = .ok tidyText := eq_ok_of_toOption (by decide +kernel)
  exact ⟨htidy, format_format htidy⟩

end SchemaModels.Go

import SchemaModels.Proofs.Go.Literals

/-!
# What formatting makes of literals

A line is written with its cells as they are and other blanks between them. Where a cell ends inside
a literal, the blanks behind it are part of that literal, so it stays the same only if they do
(`KeepsGaps`). There are no other literals that change, and these change in their blanks only
(`literals_of_format`).
-/

namespace SchemaModels.Go

namespace Format

/-! ### Cells and the blanks behind them -/

/-- The text begins with a character that is not blank. -/
def BeginsFilled (t : Text) : Prop := ∃ c u, t = c :: u ∧ Text.isBlank c = false

/-- The text consists of the cells with blanks behind each of them. There are some between two cells,
but for cells that end in a backquote. -/
inductive Woven : Row → Text → Prop
  | nil : Woven [] []
  | cons {cell gap t : Text} {row : Row} (hcell : BeginsFilled cell)
    (hgap : gap.all Text.isBlank = true)
    (hjoins : gap ≠ [] ∨ t = [] ∨ cell.getLast? = some '\x60') (h : Woven row t) :
    Woven (cell :: row) (cell ++ (gap ++ t))

theorem BeginsFilled.append {t : Text} (h : BeginsFilled t) (u : Text) : BeginsFilled (t ++ u) := by
  obtain ⟨c, v, rfl, hc⟩ := h
  exact ⟨c, v ++ u, rfl, hc⟩

theorem BeginsFilled.trimStart_eq {t : Text} (h : BeginsFilled t) : Text.trimStart t = t := by
  obtain ⟨c, u, rfl, hc⟩ := h
  exact Text.trimStart_cons hc u

theorem Woven.eq_nil_or_beginsFilled {row : Row} {t : Text} (h : Woven row t) :
    t = [] ∨ BeginsFilled t := by
  cases h with
  | nil => exact Or.inl rfl
  | cons hcell _ _ _ => exact Or.inr (hcell.append _)

theorem Woven.append_blanks {row : Row} {t : Text} (h : Woven row t) (hne : row ≠ []) {s : Text}
    (hs : s.all Text.isBlank = true) : Woven row (t ++ s) := by
  induction h with
  | nil => exact absurd rfl hne
  | @cons cell gap t row hcell hgap hjoins h ih =>
      rw [List.append_assoc, List.append_assoc]
      cases h with
      | nil =>
          rw [List.nil_append, ← List.append_nil (gap ++ s)]
          exact .cons hcell (by rw [List.all_append, hgap, hs]; rfl) (Or.inr (Or.inl rfl)) .nil
      | cons hcell' hgap' hjoins' h' =>
          refine .cons hcell hgap ?_ (ih (List.cons_ne_nil _ _))
          exact hjoins.imp_right (Or.imp_left fun hnil => by
            obtain ⟨c, u, rfl, -⟩ := hcell'
            cases hnil)

theorem Woven.of_spaced {row : Row} {line : Text} (hrow : ∀ cell ∈ row, BeginsFilled cell)
    (h : Spaced row line) : Woven row line := by
  induction row generalizing line with
  | nil =>
      rw [show line = [] from h]
      exact .nil
  | cons cell row ih =>
      obtain ⟨hcell, hrow'⟩ := List.forall_mem_cons.1 hrow
      cases row with
      | nil =>
          rw [show line = cell ++ ([] ++ []) from h.trans (List.append_nil cell).symm]
          exact .cons hcell rfl (Or.inr (Or.inl rfl)) .nil
      | cons next row =>
          obtain ⟨n, rest, rfl, hrest⟩ := h
          rw [List.append_assoc]
          exact .cons hcell (replicate_blanks (n + 1)) (Or.inl nofun) (ih hrow' hrest)

theorem Woven.beginsFilled {row : Row} {t : Text} (h : Woven row t) :
    ∀ cell ∈ row, BeginsFilled cell := by
  induction h with
  | nil => nofun
  | cons hcell _ _ _ ih => exact List.forall_mem_cons.2 ⟨hcell, ih⟩

/-! ### The cells of a field -/

theorem beginsFilled_of_isWord {word : Text} (hword : IsWord word) (hne : word ≠ []) :
    BeginsFilled word := by
  cases word with
  | nil => exact absurd rfl hne
  | cons c u =>
      have hc := List.all_eq_true.1 hword c List.mem_cons_self
      exact ⟨c, u, rfl, by simpa using hc⟩

variable {field : Text}

theorem woven_of_commentCell {t : Text} {row : Row} (h : commentCell field t = .ok row) :
    Woven row t := by
  unfold commentCell at h
  split at h
  · rename_i hstart
    cases h
    obtain ⟨s, hs, hblank⟩ := Text.exists_trimEnd t
    have hcell : BeginsFilled (Text.trimEnd t) := by
      obtain ⟨u, rfl⟩ := startsComment_iff.1 hstart
      exact ⟨'/', _, Text.trimEnd_append_cons (by decide) ['/'] u, by decide⟩
    have hwoven : Woven [Text.trimEnd t] (Text.trimEnd t ++ (s ++ [])) :=
      .cons hcell hblank (Or.inr (Or.inl rfl)) .nil
    rwa [List.append_nil, ← hs] at hwoven
  · split at h
    · rename_i hnil
      cases h
      rw [hnil]
      exact .nil
    · cases h

theorem woven_of_tagCells {t : Text} {row : Row} (h : tagCells field t = .ok row) :
    Woven row t := by
  by_cases hhead : t.head? = some '\x60'
  · obtain ⟨w, rfl⟩ := List.head?_eq_some_iff.1 hhead
    obtain ⟨tag, rest, -, rfl, htag, -⟩ := of_tagCells h
    rw [tagCells_backquote htag] at h
    obtain ⟨comment, hcomment, rfl⟩ := map_eq_ok_iff.1 h
    obtain ⟨s, hs, hblank⟩ := Text.exists_trimStart rest
    have hwoven := woven_of_commentCell hcomment
    have htagged : '\x60' :: (tag ++ '\x60' :: rest) =
        ('\x60' :: tag ++ ['\x60']) ++ (s ++ Text.trimStart rest) := by
      rw [← hs]
      simp
    rw [htagged]
    exact .cons ⟨'\x60', _, rfl, by decide⟩ hblank (Or.inr (Or.inr List.getLast?_concat)) hwoven
  · rw [tagCells_of_head hhead] at h
    exact woven_of_commentCell h

/-- The line of a field consists of its cells and blanks. -/
theorem woven_of_fieldCells {t : Text} {row : Row} (h : fieldCells t = .ok row) : Woven row t := by
  obtain ⟨name, rest, type, rest', tail, hfirst, hsecond, hid, hne, -, -, htail, rfl⟩ :=
    fieldCells_eq_ok_iff.1 h
  obtain ⟨hname, hfirst⟩ := splitBlank_cases hfirst
  obtain ⟨htype, hsecond⟩ := splitBlank_cases hsecond
  have hnameNe : name ≠ [] := by
    rintro rfl
    cases hid
  have hbehind : Woven (type :: tail) rest := by
    have hcell := beginsFilled_of_isWord htype hne
    obtain ⟨rfl, rfl⟩ | ⟨s, rfl, hblank, hs⟩ := hsecond
    · cases htail
      have hwoven : Woven [rest] (rest ++ ([] ++ [])) := .cons hcell rfl (Or.inr (Or.inl rfl)) .nil
      rwa [List.append_nil, List.append_nil] at hwoven
    · exact .cons hcell hblank (Or.inl hs) (woven_of_tagCells htail)
  obtain ⟨-, rfl⟩ | ⟨s, rfl, hblank, hs⟩ := hfirst
  · obtain ⟨hnil, -⟩ | ⟨s, hnil, -⟩ := hsecond
    · exact absurd hnil.symm hne
    · exact absurd (List.append_eq_nil_iff.1 hnil.symm).1 hne
  · exact .cons (beginsFilled_of_isWord hname hnameNe) hblank (Or.inl hs) hbehind

/-! ### Seams -/

section TakeWhile

variable {α : Type} {p : α → Bool} {s s' t t' : List α}

theorem takeWhile_append_of_head? (hs : s.all p = true) (ht : t.head?.any p = false) :
    (s ++ t).takeWhile p = s := by
  rw [List.takeWhile_append_of_pos (List.all_eq_true.1 hs)]
  cases t with
  | nil => exact List.append_nil s
  | cons a t =>
      have ha : p a = false := ht
      rw [List.takeWhile_cons_of_neg (by simp [ha]), List.append_nil]

/-- A list is parted in one way only into elements of a kind and what begins with another one. -/
theorem append_inj_of_head? (hs : s.all p = true) (hs' : s'.all p = true)
    (ht : t.head?.any p = false) (ht' : t'.head?.any p = false) :
    s ++ t = s' ++ t' ↔ s = s' ∧ t = t' := by
  constructor
  · intro h
    obtain rfl : s = s' := by
      rw [← takeWhile_append_of_head? hs ht, h, takeWhile_append_of_head? hs' ht']
    exact ⟨rfl, List.append_cancel_left h⟩
  · rintro ⟨rfl, rfl⟩
    rfl

end TakeWhile

/-! ### The blanks inside literals -/

/-- Where a cell ends inside a literal, the same blanks stand behind it on both lines, which begin
with the cells in the mode. -/
def KeepsGaps : Mode → Row → Text → Text → Prop
  | _, [], _, _ => True
  | m, cell :: row, t, u =>
    ((lineMode m cell).quote? ≠ none → (t.drop cell.length).takeWhile Text.isBlank =
      (u.drop cell.length).takeWhile Text.isBlank) ∧
    KeepsGaps (lineMode m cell).blank row (Text.trimStart (t.drop cell.length))
      (Text.trimStart (u.drop cell.length))

theorem takeWhile_gap {row : Row} {gap t : Text} (hgap : gap.all Text.isBlank = true)
    (h : Woven row t) : (gap ++ t).takeWhile Text.isBlank = gap := by
  refine takeWhile_append_of_head? hgap ?_
  obtain rfl | ⟨c, u, rfl, hc⟩ := h.eq_nil_or_beginsFilled
  · rfl
  · exact hc

theorem trimStart_gap {row : Row} {gap t : Text} (hgap : gap.all Text.isBlank = true)
    (h : Woven row t) : Text.trimStart (gap ++ t) = t := by
  rw [Text.trimStart_append hgap]
  obtain rfl | hfilled := h.eq_nil_or_beginsFilled
  · rfl
  · exact hfilled.trimStart_eq

theorem keepsGaps_cons_iff {m : Mode} {cell gap gap' t u : Text} {row : Row}
    (hgap : gap.all Text.isBlank = true) (hgap' : gap'.all Text.isBlank = true)
    (ht : Woven row t) (hu : Woven row u) :
    KeepsGaps m (cell :: row) (cell ++ (gap ++ t)) (cell ++ (gap' ++ u)) ↔
      ((lineMode m cell).quote? ≠ none → gap = gap') ∧
        KeepsGaps (lineMode m cell).blank row t u := by
  rw [KeepsGaps, List.drop_left, List.drop_left, takeWhile_gap hgap ht, takeWhile_gap hgap' hu,
    trimStart_gap hgap ht, trimStart_gap hgap' hu]

/-- The marks of a cell, of the blanks behind it and of the other cells. -/
theorem lineMarks_cell {cell gap t : Text} {row : Row} (hgap : gap.all Text.isBlank = true)
    (hjoins : gap ≠ [] ∨ t = [] ∨ cell.getLast? = some '\x60') (h : Woven row t) (m : Mode) :
    lineMarks m (cell ++ (gap ++ t)) = lineMarks m cell ++
      (gapMarks (lineMode m cell) gap ++ lineMarks (lineMode m cell).blank t) := by
  by_cases hne : gap = []
  · subst hne
    rw [gapMarks_nil, List.nil_append, List.nil_append]
    obtain hgap | rfl | hlast := hjoins
    · exact absurd rfl hgap
    · rw [lineMarks_append (joins_nil cell)]
      rfl
    · rw [lineMarks_append (joins_backquote hlast t), blank_lineMode hlast]
  · rw [lineMarks_append (joins_blanks cell hgap hne t), lineMarks_append (joins_of_blanks hgap t),
      lineMarks_gap hgap, lineMode_gap hgap hne]

/-! ### Gaps -/

/-- The mark of a blank in a literal, but for the end of a line. -/
def Mark.isGap : Mark → Bool
  | .holds c => Text.isBlank c && c != '\n'
  | _ => false

theorem gapMarks_append_inj {m : Mode} {gap gap' : Text} {xs xs' : List Mark}
    (hgap : gap.all Text.isBlank = true) (hgap' : gap'.all Text.isBlank = true)
    (hline : '\n' ∉ gap) (hline' : '\n' ∉ gap')
    (hxs : m.quote? ≠ none → xs.head?.any Mark.isGap = false)
    (hxs' : m.quote? ≠ none → xs'.head?.any Mark.isGap = false) :
    gapMarks m gap ++ xs = gapMarks m gap' ++ xs' ↔
      (m.quote? ≠ none → gap = gap') ∧ xs = xs' := by
  have hmarks : ∀ {s : Text}, s.all Text.isBlank = true → '\n' ∉ s →
      (s.map Mark.holds).all Mark.isGap = true := by
    intro s hs hline
    rw [List.all_map, List.all_eq_true]
    intro c hc
    have hne : c ≠ '\n' := fun h => hline (h ▸ hc)
    simp [Mark.isGap, List.all_eq_true.1 hs c hc, hne]
  have hinj : Function.Injective Mark.holds := fun c d h => Mark.holds.inj h
  rw [gapMarks, gapMarks]
  cases hm : m.quote? with
  | none => simp
  | some q =>
      have hin : m.quote? ≠ none := by simp [hm]
      have hboth := append_inj_of_head? (hmarks hgap hline) (hmarks hgap' hline') (hxs hin)
        (hxs' hin)
      rw [(List.map_injective_iff.2 hinj).eq_iff] at hboth
      simpa using hboth

/-- In a literal, the other cells of a line do not begin with a blank. -/
theorem head?_lineMarks {row : Row} {t : Text} (h : Woven row t) {m : Mode} (hm : m.quote? ≠ none)
    {xs : List Mark} (hxs : xs.head?.any Mark.isGap = false) :
    (lineMarks m t ++ xs).head?.any Mark.isGap = false := by
  obtain rfl | ⟨c, u, rfl, hc⟩ := h.eq_nil_or_beginsFilled
  · exact hxs
  · obtain ⟨q, hq⟩ := Option.ne_none_iff_exists'.1 hm
    rw [lineMarks, markOf, hq]
    cases (m.after c u.head?).quote? with
    | none => rfl
    | some q' => simp [Mark.isGap, hc]

/-- Lines of the same cells have the same marks, with what follows them, if the blanks that stand
inside of literals are the same. -/
theorem lineMarks_append_inj {row : Row} {t u : Text} (ht : Woven row t) (hu : Woven row u)
    (hline : '\n' ∉ t) (hline' : '\n' ∉ u) {xs xs' : List Mark}
    (hxs : xs.head?.any Mark.isGap = false) (hxs' : xs'.head?.any Mark.isGap = false) (m : Mode) :
    lineMarks m t ++ xs = lineMarks m u ++ xs' ↔ KeepsGaps m row t u ∧ xs = xs' := by
  induction ht generalizing u m with
  | nil =>
      cases hu
      exact (and_iff_right trivial).symm
  | @cons cell gap t row hcell hgap hjoins ht ih =>
      cases hu with
      | @cons _ gap' u _ _ hgap' hjoins' hu =>
          simp only [List.mem_append, not_or] at hline hline'
          have hin : (lineMode m cell).quote? ≠ none → (lineMode m cell).blank.quote? ≠ none := by
            rw [quote?_blank]
            exact id
          rw [lineMarks_cell hgap hjoins ht, lineMarks_cell hgap' hjoins' hu, List.append_assoc,
            List.append_assoc, List.append_assoc, List.append_assoc, List.append_right_inj,
            gapMarks_append_inj hgap hgap' hline.2.1 hline'.2.1
              (fun h => head?_lineMarks ht (hin h) hxs) (fun h => head?_lineMarks hu (hin h) hxs'),
            ih hu hline.2.2 hline'.2.2, keepsGaps_cons_iff hgap hgap' ht hu, and_assoc]

theorem filter_gapMarks {gap : Text} (hgap : gap.all Text.isBlank = true) (m : Mode) :
    (gapMarks m gap).filter Mark.isFilled = [] := by
  rw [List.filter_eq_nil_iff, gapMarks]
  intro x hx
  split at hx
  · obtain ⟨c, hc, rfl⟩ := List.mem_map.1 hx
    simp [Mark.isFilled, List.all_eq_true.1 hgap c hc]
  · cases hx

/-- Lines of the same cells have the same marks but for those of blanks. -/
theorem filter_lineMarks {row : Row} {t u : Text} (ht : Woven row t) (hu : Woven row u) (m : Mode) :
    (lineMarks m t).filter Mark.isFilled = (lineMarks m u).filter Mark.isFilled := by
  induction ht generalizing u m with
  | nil =>
      cases hu
      rfl
  | cons hcell hgap hjoins ht ih =>
      cases hu with
      | cons _ hgap' hjoins' hu =>
          rw [lineMarks_cell hgap hjoins ht, lineMarks_cell hgap' hjoins' hu]
          simp only [List.filter_append, filter_gapMarks hgap, filter_gapMarks hgap', ih hu]

/-! ### One line -/

/-- The blanks that a line has inside of literals are those of the line it is made from, where its
cells have been laid out. -/
def Shape.KeepsBlanks (t aligned : Text) : Shape → Prop
  | .code _ u => KeepsGaps .code [u] (Text.trimStart t) u
  | .field _ cells => KeepsGaps .code cells (Text.trimStart t) aligned
  | _ => True

theorem beginsFilled_trim {t : Text} (hne : Text.trim t ≠ []) : BeginsFilled (Text.trim t) := by
  obtain ⟨v, hv⟩ := Text.isPrefix_trimEnd (Text.trimStart t)
  have hhead := List.head?_dropWhile_not Text.isBlank t
  cases ht : Text.trim t with
  | nil => exact absurd ht hne
  | cons c u =>
      rw [← Text.trim, ht] at hv
      rw [← Text.trimStart, ← hv] at hhead
      exact ⟨c, u, rfl, by simpa using hhead⟩

/-- The blanks at the end of a line stand behind its last cell. -/
theorem Woven.trimStart {row : Row} {t : Text} (h : Woven row (Text.trim t))
    (hne : Text.trim t ≠ []) : Woven row (Text.trimStart t) := by
  obtain ⟨s, hs, hblank⟩ := Text.exists_trimEnd (Text.trimStart t)
  rw [hs, ← Text.trim]
  refine h.append_blanks ?_ hblank
  rintro rfl
  generalize Text.trim t = u at h hne
  cases h
  exact hne rfl

/-- A line is kept, or it is code, and both it and the line that it is made from have the same
cells. -/
theorem HasShape.woven {s : State} {t text aligned : Text} {shape : Shape} (h : HasShape s t shape)
    (hs : s.mode.IsSettled) (haligned : Spaced shape.cells aligned)
    (htext : shape.text aligned = some text) :
    (text = t ∧ shape.KeepsBlanks t aligned) ∨
    (s.mode = .code ∧ ∃ row n u, text = List.replicate n '\t' ++ u ∧
      Woven row (Text.trimStart t) ∧ Woven row u ∧
      (shape.KeepsBlanks t aligned ↔ KeepsGaps .code row (Text.trimStart t) u)) := by
  cases h with
  | verbatim hinside =>
      cases htext
      exact Or.inl ⟨rfl, trivial⟩
  | blank hinside hblank => cases htext
  | code hinside hne hfield =>
      cases htext
      have htrim := Woven.of_spaced (List.forall_mem_singleton.2 (beginsFilled_trim hne)) rfl
      exact Or.inr ⟨mode_eq_code hs hinside, _, _, _, rfl, htrim.trimStart hne, htrim, Iff.rfl⟩
  | field hinside hne hfield hrow =>
      cases htext
      have hwoven := woven_of_fieldCells hrow
      exact Or.inr ⟨mode_eq_code hs hinside, _, _, _, rfl, hwoven.trimStart hne,
        .of_spaced hwoven.beginsFilled haligned, Iff.rfl⟩

/-- Outside of literals, blanks have no marks. -/
theorem lineMarks_code_append {s : Text} (hs : s.all Text.isBlank = true) (t : Text) :
    lineMarks .code (s ++ t) = lineMarks .code t := by
  rw [lineMarks_append (joins_of_blanks hs t), lineMarks_gap hs]
  by_cases hne : s = []
  · subst hne
    rfl
  · rw [lineMode_gap hs hne]
    rfl

theorem lineMarks_trimStart (t : Text) : lineMarks .code (Text.trimStart t) = lineMarks .code t := by
  obtain ⟨s, hs, hblank⟩ := Text.exists_trimStart t
  calc lineMarks .code (Text.trimStart t)
      = lineMarks .code (s ++ Text.trimStart t) := (lineMarks_code_append hblank _).symm
    _ = lineMarks .code t := by rw [← hs]

section Line

variable {s : State} {t text aligned : Text} {shape : Shape}

/-- A line has the marks of the line it is made from, but for those of blanks. -/
theorem HasShape.filter_lineMarks (h : HasShape s t shape) (hs : s.mode.IsSettled)
    (haligned : Spaced shape.cells aligned) (htext : shape.text aligned = some text) :
    (lineMarks s.mode t).filter Mark.isFilled = (lineMarks s.mode text).filter Mark.isFilled := by
  obtain ⟨rfl, -⟩ | ⟨hcode, row, n, u, rfl, ht, hu, -⟩ := h.woven hs haligned htext
  · rfl
  · rw [hcode, lineMarks_code_append (tabs_blank n), ← lineMarks_trimStart t,
      Format.filter_lineMarks ht hu]

/-- A line has all of them if it keeps the blanks in its literals. -/
theorem HasShape.lineMarks_append_inj (h : HasShape s t shape) (hs : s.mode.IsSettled)
    (ht : '\n' ∉ t) (haligned : Spaced shape.cells aligned)
    (htext : shape.text aligned = some text) {xs xs' : List Mark}
    (hxs : xs.head?.any Mark.isGap = false) (hxs' : xs'.head?.any Mark.isGap = false) :
    lineMarks s.mode t ++ xs = lineMarks s.mode text ++ xs' ↔
      shape.KeepsBlanks t aligned ∧ xs = xs' := by
  have hline := h.newline_not_mem ht haligned htext
  obtain ⟨rfl, hkeeps⟩ | ⟨hcode, row, n, u, rfl, htrim, hu, hkeeps⟩ := h.woven hs haligned htext
  · rw [List.append_right_inj, and_iff_right hkeeps]
  · have htrimLine : '\n' ∉ Text.trimStart t := fun hmem =>
      ht ((List.dropWhile_suffix Text.isBlank).subset hmem)
    have huLine : '\n' ∉ u := fun hmem => hline (List.mem_append_right _ hmem)
    rw [hcode, lineMarks_code_append (tabs_blank n), ← lineMarks_trimStart t, hkeeps,
      Format.lineMarks_append_inj htrim hu htrimLine huLine hxs hxs']

end Line

/-! ### All lines -/

/-- Behind a line comes the mark of its end or one that no literal is open at. -/
theorem head?_newlineMarks (m : Mode) (ts : List Text) :
    (newlineMarks m ++ textMarks m ts).head?.any Mark.isGap = false := by
  have hfits := fits_textMarks m ts
  rw [newlineMarks]
  cases hm : m.quote? with
  | some q => rfl
  | none =>
      rw [hm, Option.isSome_none] at hfits
      generalize textMarks m ts = marks, (textMode m ts).quote?.isSome = b at hfits
      cases hfits with
      | nil => rfl
      | opens q h => rfl

theorem textMarks_pending {m : Mode} {pending : Bool} (hpending : pending = true → m = .code)
    (ts : List Text) : textMarks m ((if pending then [[]] else []) ++ ts) = textMarks m ts := by
  cases pending with
  | false => rfl
  | true =>
      rw [hpending rfl]
      rfl

/-- What a layout does to the marks of all lines follows from what it does to those of each line. -/
theorem Runs.textMarks_reduce {s final : State} {ts : List Text} {shapes : List Shape}
    {aligned : List Text} (h : Runs s ts shapes final) (hs : s.mode.IsSettled)
    (hts : ∀ t ∈ ts, '\n' ∉ t)
    (haligned : List.Forall₂ (fun shape line => Spaced shape.cells line) shapes aligned)
    (started pending : Bool) (hpending : pending = true → s.mode = .code) :
    (textMarks s.mode ts).filter Mark.isFilled =
        (textMarks s.mode (reduce id [] started pending
          (List.zipWith (fun shape line => shape.text line) shapes aligned))).filter Mark.isFilled ∧
      (textMarks s.mode ts = textMarks s.mode (reduce id [] started pending
          (List.zipWith (fun shape line => shape.text line) shapes aligned)) ↔
        ∀ x ∈ ts.zip (shapes.zip aligned), x.2.1.KeepsBlanks x.1 x.2.2) := by
  induction h generalizing aligned started pending with
  | nil s =>
      cases haligned
      exact ⟨rfl, iff_of_true rfl nofun⟩
  | @cons s s' final t ts shape shapes hleads hshape h ih =>
      cases haligned with
      | @cons _ line _ aligned hline haligned =>
          obtain ⟨ht, hts'⟩ := List.forall_mem_cons.1 hts
          have hs' := hleads.isSettled hs
          rw [List.zipWith_cons_cons, List.zip_cons_cons, List.zip_cons_cons, List.forall_mem_cons]
          obtain rfl | hfilled := eq_blank_or_filled shape
          · cases hshape with
            | blank hinside hblank =>
                have hcode := mode_eq_code hs hinside
                have hall := Text.trim_eq_nil_iff.1 hblank
                obtain rfl := eq_of_blank hs hall hleads
                obtain ⟨hfilter, hiff⟩ := ih hs' hts' haligned started started fun _ => hcode
                have hmarks : textMarks s'.mode (t :: ts) = textMarks s'.mode ts := by
                  rw [hleads.textMarks_cons, hcode, lineMarks_gap hall]
                  rfl
                have hnone : id (Shape.blank.text line) = none := rfl
                rw [reduce_none hnone, hmarks, hiff]
                exact ⟨hfilter, (and_iff_right trivial).symm⟩
          · obtain ⟨text, htext⟩ := Shape.exists_text hfilled line
            have hsome : id (shape.text line) = some text := htext
            obtain ⟨hagain, hleads'⟩ := hshape.again hs hleads hline htext
            obtain ⟨hfilter, hiff⟩ := ih hs' hts' haligned true false nofun
            rw [reduce_some hsome, textMarks_pending hpending, hleads.textMarks_cons,
              hleads'.textMarks_cons]
            constructor
            · simp only [List.filter_append, hfilter, hshape.filter_lineMarks hs hline htext]
            · rw [hshape.lineMarks_append_inj hs ht hline htext (head?_newlineMarks _ _)
                (head?_newlineMarks _ _), List.append_right_inj, hiff]

/-- Every line of a text keeps the blanks that it has inside of literals. -/
def KeepsBlanks (ts : List Text) (shapes : List Shape) : Prop :=
  ∀ x ∈ ts.zip (shapes.zip (align (shapes.map Shape.cells))), x.2.1.KeepsBlanks x.1 x.2.2

end Format

open Format

/-- Formatting keeps the literals of a text, but for blanks in them. It keeps these, too, if every
line has the same blanks behind each of its cells that ends inside a literal: they are those between
the cells of a field and those at the end of a line of code. -/
theorem literals_of_format {source text : Text} (h : format source = .ok text) :
    (literals text).map Literal.withoutBlanks = (literals source).map Literal.withoutBlanks ∧
    ∃ lines shapes, scan source = .ok lines ∧ lines.mapM Line.shape = .ok shapes ∧
      (literals text = literals source ↔ KeepsBlanks (Text.splitOn '\n' source) shapes) := by
  obtain ⟨lines, shapes, final, hscan, hlines, hend, hshapes, rfl⟩ := exists_of_format h
  have hruns := runs_of_scanLines hlines hshapes
  have hts : ∀ t ∈ Text.splitOn '\n' source, '\n' ∉ t := fun _ => Text.not_mem_of_mem_splitOn
  have hspaced := forall₂_align shapes
  obtain ⟨hreduced, hnewline, hsettled⟩ := hruns.reduced (Or.inl rfl) hts
    (isLaidOut_zipWith hspaced) false false nofun
  obtain ⟨hfilter, hiff⟩ := hruns.textMarks_reduce (Or.inl rfl) hts hspaced false false nofun
  have hfinal := mode_of_endText hsettled hend
  have hlayout : layout shapes = _ := putLines_eq false false _
  generalize reduce id [] false false _ = written at hlayout hreduced hnewline hfilter hiff
  have hliterals : literals (layout shapes) = literalsOf (textMarks .code written) := by
    rw [literals, hlayout, Text.splitOn_lines hnewline, textMarks_append,
      hreduced.textMode_start hfinal]
    exact congrArg literalsOf (List.append_nil _)
  refine ⟨?_, lines, shapes, hscan, hshapes, ?_⟩
  · rw [hliterals, literals, ← literalsOf_filter, ← literalsOf_filter]
    exact congrArg literalsOf hfilter.symm
  · rw [hliterals, literals, literalsOf_inj (hreduced.fits hfinal) (hruns.fits hfinal), eq_comm]
    exact hiff

/-- What `literals_of_format` says of a text with literals in code, in a field and over some lines. -/
theorem literals_of_format_untidyText :
    format untidyText = .ok tidyText ∧
    (literals tidyText).map Literal.withoutBlanks =
      (literals untidyText).map Literal.withoutBlanks ∧
    ∃ lines shapes, scan untidyText = .ok lines ∧ lines.mapM Line.shape = .ok shapes ∧
      (literals tidyText = literals untidyText ↔
        KeepsBlanks (Text.splitOn '\n' untidyText) shapes) :=
  ⟨format_untidyText, literals_of_format format_untidyText⟩

/-- A raw string that goes on over the end of a line of code loses its blanks there. -/
theorem rawString_loses_blanks :
    format "var r = `a  \nb`\n" = .ok "var r = `a\nb`\n".toList ∧
    literals "var r = `a  \nb`\n" = [⟨'\x60', "a  \nb"⟩] ∧
    literals "var r = `a\nb`\n" = [⟨'\x60', "a\nb"⟩] ∧
    literals "var r = `a\nb`\n" ≠ literals "var r = `a  \nb`\n" := by
  refine ⟨eq_ok_of_toOption (by decide +kernel), ?_, ?_, ?_⟩
  all_goals decide +kernel

/-- So does a string that goes on over the end of a field's cell. -/
example :
    (format "type T struct \x7b\n\ta x\"  // b\"\n\x7d\n").toOption.map literals =
      some [⟨'"', " // b"⟩] ∧
    literals "type T struct \x7b\n\ta x\"  // b\"\n\x7d\n" = [⟨'"', "  // b"⟩] := by
  decide +kernel

end SchemaModels.Go

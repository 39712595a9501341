import SchemaModels.Proofs.Go.Scanning

/-!
# Line after line

A source text is formatted line by line: each line leads from the state in which it begins to the
one in which the next line begins, and has a shape. What its number is matters only where something
is wrong with it, so a run of lines (`Runs`) goes without numbers. A text is formatted exactly if
its lines run from the start to a state in which a text may end, and then it is laid out in their
shapes (`format_eq_ok_iff`).
-/

namespace SchemaModels.Go.Format

/-! ### Shapes -/

/-- Inside a raw string or a block comment. -/
def State.isInside (s : State) : Bool := s.mode = .rawString || s.mode = .blockComment

/-- Whether the text of a line, without the blanks around it, is that of a field. -/
def State.isField (s : State) (t : Text) : Bool :=
  s.stack.head?.any (·.isStruct) && !startsComment t && t.head? != some '}'

/-- The indentation of a line of code. -/
def State.indent (s : State) (t : Text) : Nat :=
  if t.head?.any isClosing then s.stack.length - 1 else s.stack.length

/-- The shape that a line has where it begins in the state. -/
inductive HasShape (s : State) (t : Text) : Shape → Prop
  | verbatim (hinside : s.isInside = true) : HasShape s t (.verbatim t)
  | blank (hinside : s.isInside = false) (hblank : Text.trim t = []) : HasShape s t .blank
  | field {row : Row} (hinside : s.isInside = false) (hne : Text.trim t ≠ [])
    (hfield : s.isField (Text.trim t) = true) (hrow : fieldCells (Text.trim t) = .ok row) :
    HasShape s t (.field s.stack.length row)
  | code (hinside : s.isInside = false) (hne : Text.trim t ≠ [])
    (hfield : s.isField (Text.trim t) = false) :
    HasShape s t (.code (s.indent (Text.trim t)) (Text.trim t))

theorem shape_eq_ok_iff {s : State} {n : Nat} {t : Text} {shape : Shape} :
    (Line.at s n t).shape = .ok shape ↔ HasShape s t shape := by
  have hshape : (Line.at s n t).shape =
      if s.isInside then .ok (.verbatim t)
      else if Text.trim t = [] then .ok .blank
      else if s.isField (Text.trim t) then
        (onLine n (fieldCells (Text.trim t))).map (.field s.stack.length)
      else .ok (.code (s.indent (Text.trim t)) (Text.trim t)) := rfl
  rw [hshape]
  constructor
  · intro h
    split at h
    · rename_i hinside
      cases h
      exact .verbatim hinside
    · rename_i hinside
      split at h
      · rename_i hblank
        cases h
        exact .blank (Bool.eq_false_iff.2 hinside) hblank
      · rename_i hne
        split at h
        · rename_i hfield
          obtain ⟨row, hrow, rfl⟩ := map_eq_ok_iff.1 h
          exact .field (Bool.eq_false_iff.2 hinside) hne hfield (mapError_eq_ok_iff.1 hrow)
        · rename_i hfield
          cases h
          exact .code (Bool.eq_false_iff.2 hinside) hne (Bool.eq_false_iff.2 hfield)
  · intro h
    cases h with
    | verbatim hinside => rw [if_pos hinside]
    | blank hinside hblank => rw [if_neg (by simp [hinside]), if_pos hblank]
    | field hinside hne hfield hrow =>
        rw [if_neg (by simp [hinside]), if_neg hne, if_pos hfield]
        exact map_eq_ok_iff.2 ⟨_, mapError_eq_ok_iff.2 hrow, rfl⟩
    | code hinside hne hfield =>
        rw [if_neg (by simp [hinside]), if_neg hne, if_neg (by simp [hfield])]

/-! ### Runs -/

/-- The line leads from one state to the other. -/
def Leads (s : State) (t : Text) (s' : State) : Prop := scanLine [] s t >>= endLine = .ok s'

/-- The lines lead from one state to the other and have the shapes. -/
inductive Runs : State → List Text → List Shape → State → Prop
  | nil (s : State) : Runs s [] [] s
  | cons {s s' final : State} {t : Text} {ts : List Text} {shape : Shape} {shapes : List Shape}
    (hleads : Leads s t s') (hshape : HasShape s t shape) (h : Runs s' ts shapes final) :
    Runs s (t :: ts) (shape :: shapes) final

/-- What is scanned of a line and of the lines behind it. -/
theorem of_scanLines_cons {s final : State} {n : Nat} {t : Text} {ts : List Text}
    {lines : List Line} (h : scanLines s n (t :: ts) = .ok (lines, final)) :
    ∃ s' lines', lines = Line.at s n t :: lines' ∧ Leads s t s' ∧
      scanLines s' (n + 1) ts = .ok (lines', final) := by
  obtain ⟨s', hline, h⟩ := exists_of_bind_ok h
  obtain ⟨⟨lines', final'⟩, hlines, h⟩ := exists_of_bind_ok h
  cases h
  exact ⟨s', lines', rfl, mapError_eq_ok_iff.1 hline, hlines⟩

theorem runs_of_scanLines {s final : State} {n : Nat} {ts : List Text} {scanned : List Line}
    {shapes : List Shape} (h : scanLines s n ts = .ok (scanned, final))
    (hshapes : scanned.mapM Line.shape = .ok shapes) : Runs s ts shapes final := by
  induction ts generalizing s n scanned shapes with
  | nil =>
      cases h
      cases hshapes
      exact .nil _
  | cons t ts ih =>
      obtain ⟨s', scanned', rfl, hleads, hlines⟩ := of_scanLines_cons h
      rw [List.mapM_cons] at hshapes
      obtain ⟨shape, hshape, hshapes⟩ := exists_of_bind_ok hshapes
      obtain ⟨shapes', hrest, hshapes⟩ := exists_of_bind_ok hshapes
      cases hshapes
      exact .cons hleads (shape_eq_ok_iff.1 hshape) (ih hlines hrest)

theorem Runs.scanLines {s final : State} {ts : List Text} {shapes : List Shape}
    (h : Runs s ts shapes final) (n : Nat) : ∃ scanned,
      Format.scanLines s n ts = .ok (scanned, final) ∧ scanned.mapM Line.shape = .ok shapes := by
  induction h generalizing n with
  | nil s => exact ⟨[], rfl, rfl⟩
  | @cons s s' final t ts shape shapes hleads hshape h ih =>
      obtain ⟨scanned, hlines, hshapes⟩ := ih (n + 1)
      have hline : onLine n (scanLine [] s t >>= endLine) = .ok s' := mapError_eq_ok_iff.2 hleads
      refine ⟨Line.at s n t :: scanned, ?_, ?_⟩
      · rw [Format.scanLines, hline]
        change (Format.scanLines s' (n + 1) ts >>= _) = _
        rw [hlines]
        rfl
      · rw [List.mapM_cons, shape_eq_ok_iff.2 hshape]
        change (scanned.mapM Line.shape >>= _) = _
        rw [hshapes]
        rfl

theorem Runs.append {s s' final : State} {ts us : List Text} {shapes shapes' : List Shape}
    (h : Runs s ts shapes s') (h' : Runs s' us shapes' final) :
    Runs s (ts ++ us) (shapes ++ shapes') final := by
  induction h with
  | nil s => exact h'
  | cons hleads hshape _ ih => exact .cons hleads hshape (ih h')

/-- What a run over a line and the lines behind it is made of. -/
theorem Runs.exists_of_cons {s final : State} {t : Text} {ts : List Text} {shapes : List Shape}
    (h : Runs s (t :: ts) shapes final) : ∃ s' shape behind,
      shapes = shape :: behind ∧ Leads s t s' ∧ HasShape s t shape ∧ Runs s' ts behind final := by
  cases h with
  | cons hleads hshape h => exact ⟨_, _, _, rfl, hleads, hshape, h⟩

/-- A run over two stretches of lines comes to a state between them. -/
theorem Runs.exists_of_append {s final : State} {ts us : List Text} {shapes : List Shape}
    (h : Runs s (ts ++ us) shapes final) : ∃ s' before behind,
      shapes = before ++ behind ∧ Runs s ts before s' ∧ Runs s' us behind final := by
  induction ts generalizing s shapes with
  | nil => exact ⟨s, [], shapes, rfl, .nil s, h⟩
  | cons t ts ih =>
      obtain ⟨x, shape, rest, rfl, hleads, hshape, h⟩ := h.exists_of_cons
      obtain ⟨s', before, behind, rfl, hbefore, hbehind⟩ := ih h
      exact ⟨s', shape :: before, behind, rfl, .cons hleads hshape hbefore, hbehind⟩

theorem leads_nil {s : State} (hs : s.mode = .code) : Leads s [] s := by
  obtain ⟨mode, stack⟩ := s
  cases hs
  rfl

theorem runs_blank {s : State} (hs : s.mode = .code) : Runs s [[]] [.blank] s := by
  refine .cons (leads_nil hs) (.blank ?_ rfl) (.nil s)
  simp [State.isInside, hs]

/-- The lines of a text that is formatted, with their shapes. -/
theorem exists_of_format {source text : Text} (h : format source = .ok text) :
    ∃ lines shapes final, scan source = .ok lines ∧
      scanLines .start 1 (Text.splitOn '\n' source) = .ok (lines, final) ∧
      endText final = .ok () ∧ lines.mapM Line.shape = .ok shapes ∧ text = layout shapes := by
  obtain ⟨lines, hscan, h⟩ := exists_of_bind_ok h
  obtain ⟨shapes, hshapes, h⟩ := exists_of_bind_ok h
  cases h
  have hscanned := hscan
  obtain ⟨⟨scanned, final⟩, hlines, hscanned⟩ := exists_of_bind_ok hscanned
  obtain ⟨⟨⟩, hend, hscanned⟩ := exists_of_bind_ok hscanned
  cases hscanned
  exact ⟨lines, shapes, final, hscan, hlines, mapError_eq_ok_iff.1 hend, hshapes, rfl⟩

/-- A text is formatted if its lines run to an end, and it is laid out in their shapes. -/
theorem format_eq_ok_iff {source text : Text} : format source = .ok text ↔
    ∃ shapes final, Runs .start (Text.splitOn '\n' source) shapes final ∧
      endText final = .ok () ∧ text = layout shapes := by
  constructor
  · intro h
    obtain ⟨lines, shapes, final, -, hlines, hend, hshapes, rfl⟩ := exists_of_format h
    exact ⟨shapes, final, runs_of_scanLines hlines hshapes, hend, rfl⟩
  · rintro ⟨shapes, final, hruns, hend, rfl⟩
    obtain ⟨scanned, hlines, hshapes⟩ := hruns.scanLines 1
    have hdone : onLine scanned.length (endText final) = .ok () := mapError_eq_ok_iff.2 hend
    have hscan : scan source = .ok scanned := by
      rw [scan, hlines]
      change (onLine scanned.length (endText final) >>= _) = _
      rw [hdone]
      rfl
    rw [format, hscan]
    change (scanned.mapM Line.shape >>= _) = _
    rw [hshapes]
    rfl

end SchemaModels.Go.Format

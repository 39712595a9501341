import SchemaModels.Go.Format
import SchemaModels.Proofs.Results
import SchemaModels.Proofs.Text.Parts

/-!
# Scanning line by line

What a scanner makes of a stretch of a line: text without quotes, brackets and slashes leaves it in
code, a raw string goes on to its backquote, and a comment to the end of the line. A source text
that is formatted has the shapes of its lines one after the other (`HasShapes`), each decided where
the lines before it end.
-/

namespace SchemaModels.Go.Format

/-! ### Characters of a line -/

theorem step_eq (before : Text) (s : State) (c : Char) (next : Option Char) :
    step before s c next = (if s.mode = .code then bracket before s.stack c else .ok s.stack).map
      (⟨s.mode.after c next, ·⟩) := by
  unfold step
  split
  · cases bracket before s.stack c <;> rfl
  · rfl

/-- A character that means nothing to a scanner in code. -/
def isQuiet (c : Char) : Bool :=
  !(c == '"' || c == '\'' || c == '\x60' || c == '/') && (Bracket.opened? c).isNone && !isClosing c

/-- The characters that mean something to a scanner in code. -/
def marks : List Char := ['"', '\'', '\x60', '/', '(', '[', '{', ')', ']', '}']

theorem isQuiet_of_not_mem {c : Char} (h : c ∉ marks) : isQuiet c = true := by
  simp only [marks, List.mem_cons, List.not_mem_nil, or_false, not_or] at h
  simp [isQuiet, Bracket.opened?, isClosing, h]

theorem step_of_isQuiet {c : Char} (hc : isQuiet c = true) (before : Text) (stack : List Open)
    (next : Option Char) : step before ⟨.code, stack⟩ c next = .ok ⟨.code, stack⟩ := by
  simp only [isQuiet, Bool.and_eq_true, Bool.not_eq_true', Bool.or_eq_false_iff,
    beq_eq_false_iff_ne, ne_eq, Option.isNone_iff_eq_none] at hc
  obtain ⟨⟨⟨⟨⟨hdouble, hsingle⟩, hback⟩, hslash⟩, hopened⟩, hclosing⟩ := hc
  have hbracket : bracket before stack c = .ok stack := by simp [bracket, hopened, hclosing]
  have hmode : codeMode c next = .code := by
    simp [codeMode, hdouble, hsingle, hback, hslash]
  simp [step, hbracket, Mode.after, hmode, bind, Except.bind, pure, Except.pure]

theorem scanLine_of_step {before t : Text} {s s' : State} {c : Char}
    (h : step before s c t.head? = .ok s') :
    scanLine before s (c :: t) = scanLine (c :: before) s' t := by
  rw [scanLine, h]
  rfl

variable (before : Text) (stack : List Open)

theorem scanLine_quiet {s : Text} (hs : s.all isQuiet = true) (t : Text) :
    scanLine before ⟨.code, stack⟩ (s ++ t) = scanLine (s.reverse ++ before) ⟨.code, stack⟩ t := by
  induction s generalizing before with
  | nil => rfl
  | cons c s ih =>
      rw [List.all_cons, Bool.and_eq_true] at hs
      rw [List.cons_append, scanLine_of_step (step_of_isQuiet hs.1 before stack _), ih _ hs.2,
        List.reverse_cons, List.append_assoc, List.singleton_append]

theorem scanLine_rawString {s : Text} (hs : '\x60' ∉ s) (t : Text) :
    scanLine before ⟨.rawString, stack⟩ (s ++ t) =
      scanLine (s.reverse ++ before) ⟨.rawString, stack⟩ t := by
  induction s generalizing before with
  | nil => rfl
  | cons c s ih =>
      have hc : c ≠ '\x60' := fun he => hs (he ▸ List.mem_cons_self)
      have htail := ih (c :: before) fun hm => hs (List.mem_cons_of_mem c hm)
      have hstep : step before ⟨.rawString, stack⟩ c (s ++ t).head? = .ok ⟨.rawString, stack⟩ := by
        simp [step, Mode.after, hc, bind, Except.bind, pure, Except.pure]
      rw [List.cons_append, scanLine_of_step hstep, htail, List.reverse_cons, List.append_assoc,
        List.singleton_append]

theorem scanLine_lineComment (t : Text) :
    scanLine before ⟨.lineComment, stack⟩ t = .ok ⟨.lineComment, stack⟩ := by
  induction t generalizing before with
  | nil => rfl
  | cons c t ih =>
      have hstep : step before ⟨.lineComment, stack⟩ c t.head? = .ok ⟨.lineComment, stack⟩ := rfl
      rw [scanLine_of_step hstep]
      exact ih (c :: before)

theorem scanLine_comment (t : Text) :
    scanLine before ⟨.code, stack⟩ ('/' :: '/' :: t) = .ok ⟨.lineComment, stack⟩ := by
  have hopened : step before ⟨.code, stack⟩ '/' (some '/') = .ok ⟨.lineComment, stack⟩ := rfl
  rw [scanLine_of_step hopened]
  exact scanLine_lineComment ('/' :: before) stack ('/' :: t)

/-- A raw string that ends on its line. -/
theorem scanLine_backquoted {s : Text} (hs : '\x60' ∉ s) (t : Text) :
    scanLine before ⟨.code, stack⟩ ('\x60' :: s ++ '\x60' :: t) =
      scanLine ('\x60' :: s.reverse ++ '\x60' :: before) ⟨.code, stack⟩ t := by
  have hopened : ∀ next, step before ⟨.code, stack⟩ '\x60' next = .ok ⟨.rawString, stack⟩ :=
    fun _ => rfl
  have hclosed : ∀ before next, step before ⟨.rawString, stack⟩ '\x60' next =
      .ok ⟨.code, stack⟩ := fun _ _ => rfl
  rw [List.cons_append, scanLine_of_step (hopened _), scanLine_rawString _ _ hs,
    scanLine_of_step (hclosed _ _)]
  rfl

/-! ### Lines -/

/-- The shapes of the lines of a text from a state and a line number on. -/
def HasShapes (s : State) (n : Nat) (lines : List Text) (shapes : List Shape) : Prop :=
  ∃ scanned final, scanLines s n lines = .ok (scanned, final) ∧
    scanned.mapM Line.shape = .ok shapes

theorem exists_hasShapes {source text : Text} (h : format source = .ok text) :
    ∃ shapes, HasShapes .start 1 (Text.splitOn '\n' source) shapes ∧ text = layout shapes := by
  obtain ⟨lines, hscan, h⟩ := exists_of_bind_ok h
  obtain ⟨shapes, hshapes, h⟩ := exists_of_bind_ok h
  obtain ⟨⟨scanned, final⟩, hlines, hscan⟩ := exists_of_bind_ok hscan
  obtain ⟨-, -, hscan⟩ := exists_of_bind_ok hscan
  cases hscan
  cases h
  exact ⟨shapes, ⟨lines, final, hlines, hshapes⟩, rfl⟩

/-- The first line has its shape, and the others have theirs where it ends. -/
theorem HasShapes.cons {s : State} {n : Nat} {t : Text} {ts : List Text} {shapes : List Shape}
    (h : HasShapes s n (t :: ts) shapes) : ∃ s' shape shapes',
      scanLine [] s t >>= endLine = .ok s' ∧ (Line.at s n t).shape = .ok shape ∧
      HasShapes s' (n + 1) ts shapes' ∧ shapes = shape :: shapes' := by
  obtain ⟨scanned, final, hscanned, hshapes⟩ := h
  obtain ⟨s', hline, hscanned⟩ := exists_of_bind_ok hscanned
  obtain ⟨⟨scanned', final'⟩, hlines, hscanned⟩ := exists_of_bind_ok hscanned
  cases hscanned
  rw [List.mapM_cons] at hshapes
  obtain ⟨shape, hshape, hshapes⟩ := exists_of_bind_ok hshapes
  obtain ⟨shapes', hrest, hshapes⟩ := exists_of_bind_ok hshapes
  cases hshapes
  exact ⟨s', shape, shapes', mapError_eq_ok_iff.1 hline, hshape,
    ⟨scanned', final, hlines, hrest⟩, rfl⟩

end SchemaModels.Go.Format

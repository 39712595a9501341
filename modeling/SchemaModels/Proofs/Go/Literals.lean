import SchemaModels.Proofs.Go.KeptLines

/-!
# The literals of a text

A literal is what a scanner reads between two quotes: an interpreted string, a rune or a raw string,
which may go on over several lines. The characters of a text are marked by what they are for its
literals, and the marks and the literals determine each other (`literalsOf_inj`).
-/

namespace SchemaModels.Go

/-- A literal: the quotes that it stands between tell a string, a rune and a raw string. -/
structure Literal where
  quote : Char
  text : Text
  deriving DecidableEq, Repr

namespace Format

/-! ### Marks -/

/-- What a character is for the literals of a text: a quote that opens one or closes it, or a
character of its text. -/
inductive Mark
  | opens (quote : Char)
  | holds (c : Char)
  | closes
  deriving DecidableEq, Repr

/-- The quote of the literal that a scanner is inside of. -/
def Mode.quote? : Mode → Option Char
  | .literal q _ => some q.char
  | .rawString => some '\x60'
  | _ => none

/-- The mark of a character, given the modes in front of it and behind it. -/
def markOf (m : Mode) (c : Char) (m' : Mode) : List Mark :=
  match m.quote?, m'.quote? with
  | none, some q => [.opens q]
  | some _, some _ => [.holds c]
  | some _, none => [.closes]
  | none, none => []

/-- The mode behind the characters of a line. -/
def lineMode : Mode → Text → Mode
  | m, [] => m
  | m, c :: t => lineMode (m.after c t.head?) t

def lineMarks : Mode → Text → List Mark
  | _, [] => []
  | m, c :: t => markOf m c (m.after c t.head?) ++ lineMarks (m.after c t.head?) t

/-- The mode behind the end of a line. -/
def Mode.endLine : Mode → Mode
  | .lineComment => .code
  | m => m

/-- The end of a line belongs to the literal that goes on over it. -/
def newlineMarks (m : Mode) : List Mark := if m.quote?.isSome then [.holds '\n'] else []

/-- The marks of some lines from a mode on. -/
def textMarks : Mode → List Text → List Mark
  | _, [] => []
  | m, t :: ts =>
    lineMarks m t ++ newlineMarks (lineMode m t) ++ textMarks (lineMode m t).endLine ts

/-- The text of the literal that the marks are inside of. -/
def heldText : List Mark → Text
  | .holds c :: ms => c :: heldText ms
  | _ => []

/-- The literals that are opened. -/
def literalsOf : List Mark → List Literal
  | [] => []
  | .opens q :: ms => ⟨q, heldText ms⟩ :: literalsOf ms
  | _ :: ms => literalsOf ms

end Format

open Format in
/-- The literals of a source text, in their order. -/
def literals (source : Text) : List Literal :=
  literalsOf (textMarks .code (Text.splitOn '\n' source))

namespace Format

/-! ### Marks and literals -/

/-- The marks lead from outside of a literal or from inside of one to outside or inside. -/
inductive Fits : Bool → List Mark → Bool → Prop
  | nil (b : Bool) : Fits b [] b
  | opens {ms : List Mark} {b : Bool} (q : Char) (h : Fits true ms b) : Fits false (.opens q :: ms) b
  | holds {ms : List Mark} {b : Bool} (c : Char) (h : Fits true ms b) : Fits true (.holds c :: ms) b
  | closes {ms : List Mark} {b : Bool} (h : Fits false ms b) : Fits true (.closes :: ms) b

theorem Fits.append {a b c : Bool} {ms ms' : List Mark} (h : Fits a ms b) (h' : Fits b ms' c) :
    Fits a (ms ++ ms') c := by
  induction h with
  | nil b => exact h'
  | opens q _ ih => exact .opens q (ih h')
  | holds d _ ih => exact .holds d (ih h')
  | closes _ ih => exact .closes (ih h')

theorem fits_markOf (m : Mode) (c : Char) (m' : Mode) :
    Fits m.quote?.isSome (markOf m c m') m'.quote?.isSome := by
  unfold markOf
  cases m.quote? with
  | none =>
      cases m'.quote? with
      | none => exact .nil _
      | some q => exact .opens q (.nil _)
  | some q =>
      cases m'.quote? with
      | none => exact .closes (.nil _)
      | some q => exact .holds c (.nil _)

theorem fits_lineMarks (m : Mode) (t : Text) :
    Fits m.quote?.isSome (lineMarks m t) (lineMode m t).quote?.isSome := by
  induction t generalizing m with
  | nil => exact .nil _
  | cons c t ih => exact (fits_markOf m c _).append (ih _)

theorem quote?_endLine (m : Mode) : m.endLine.quote? = m.quote? := by
  cases m <;> rfl

theorem fits_newlineMarks (m : Mode) :
    Fits m.quote?.isSome (newlineMarks m) m.endLine.quote?.isSome := by
  rw [quote?_endLine, newlineMarks]
  cases m.quote? with
  | none => exact .nil _
  | some q => exact .holds '\n' (.nil _)

/-- The mode behind some lines. -/
def textMode : Mode → List Text → Mode
  | m, [] => m
  | m, t :: ts => textMode (lineMode m t).endLine ts

theorem fits_textMarks (m : Mode) (ts : List Text) :
    Fits m.quote?.isSome (textMarks m ts) (textMode m ts).quote?.isSome := by
  induction ts generalizing m with
  | nil => exact .nil _
  | cons t ts ih => exact ((fits_lineMarks m t).append (fits_newlineMarks _)).append (ih _)

theorem textMarks_append (m : Mode) (ts us : List Text) :
    textMarks m (ts ++ us) = textMarks m ts ++ textMarks (textMode m ts) us := by
  induction ts generalizing m with
  | nil => rfl
  | cons t ts ih => simp only [List.cons_append, textMarks, textMode, ih, List.append_assoc]

/-- The marks of a literal's characters. -/
def literalMarks (l : Literal) : List Mark := .opens l.quote :: (l.text.map .holds ++ [.closes])

/-- Marks that lead out of the last literal are those of the literals. -/
theorem Fits.eq_flatMap {b : Bool} {ms : List Mark} (h : Fits b ms false) :
    ms = (if b then (heldText ms).map .holds ++ [.closes] else []) ++
      (literalsOf ms).flatMap literalMarks := by
  generalize hb : false = b' at h
  induction h with
  | nil b =>
      subst hb
      rfl
  | opens q _ ih => exact congrArg (Mark.opens q :: ·) (ih hb)
  | holds c _ ih => exact congrArg (Mark.holds c :: ·) (ih hb)
  | closes _ ih => exact congrArg (Mark.closes :: ·) (ih hb)

theorem literalsOf_inj {ms ms' : List Mark} (h : Fits false ms false) (h' : Fits false ms' false) :
    literalsOf ms = literalsOf ms' ↔ ms = ms' := by
  refine ⟨fun heq => ?_, congrArg literalsOf⟩
  rw [h.eq_flatMap, h'.eq_flatMap, heq]
  rfl

/-! ### Marks of blanks -/

/-- Every mark but that of a blank in a literal. -/
def Mark.isFilled : Mark → Bool
  | .holds c => !Text.isBlank c
  | _ => true

theorem heldText_filter (ms : List Mark) :
    heldText (ms.filter Mark.isFilled) = Text.withoutBlanks (heldText ms) := by
  induction ms with
  | nil => rfl
  | cons x ms ih =>
      cases x with
      | opens q => rfl
      | closes => rfl
      | holds c =>
          have hheld : heldText (.holds c :: ms) = [c] ++ heldText ms := rfl
          rw [hheld, Text.withoutBlanks_append, ← ih]
          cases hc : Text.isBlank c with
          | true =>
              rw [List.filter_cons_of_neg (by simp [Mark.isFilled, hc]),
                Text.withoutBlanks_eq_nil_iff.2 (by simp [hc]), List.nil_append]
          | false =>
              rw [List.filter_cons_of_pos (by simp [Mark.isFilled, hc])]
              simp [heldText, Text.withoutBlanks, hc]

end Format

/-- A literal without the blanks in it. -/
def Literal.withoutBlanks (l : Literal) : Literal := { l with text := Text.withoutBlanks l.text }

namespace Format

/-- Without the marks of blanks, the literals are those without their blanks. -/
theorem literalsOf_filter (ms : List Mark) :
    literalsOf (ms.filter Mark.isFilled) = (literalsOf ms).map Literal.withoutBlanks := by
  induction ms with
  | nil => rfl
  | cons x ms ih =>
      cases x with
      | opens q =>
          rw [List.filter_cons_of_pos rfl, literalsOf, literalsOf, List.map_cons, ih,
            heldText_filter]
          rfl
      | closes => exact ih
      | holds c =>
          rw [List.filter_cons]
          split
          · exact ih
          · exact ih

theorem quote?_blank (m : Mode) : m.blank.quote? = m.quote? := by
  cases m <;> rfl

/-- The marks of blanks. -/
def gapMarks (m : Mode) (gap : Text) : List Mark := if m.quote?.isSome then gap.map .holds else []

theorem markOf_of_isBlank {c : Char} (hc : Text.isBlank c = true) (next : Option Char) (m : Mode) :
    markOf m c (m.after c next) = gapMarks m [c] := by
  rw [after_of_isBlank hc, markOf, quote?_blank, gapMarks]
  cases m.quote? <;> rfl

theorem gapMarks_nil (m : Mode) : gapMarks m [] = [] := by
  unfold gapMarks
  split <;> rfl

theorem gapMarks_cons (m : Mode) (c : Char) (gap : Text) :
    gapMarks m (c :: gap) = gapMarks m [c] ++ gapMarks m.blank gap := by
  rw [gapMarks, gapMarks, gapMarks, quote?_blank]
  split <;> rfl

theorem lineMarks_gap {gap : Text} (hgap : gap.all Text.isBlank = true) (m : Mode) :
    lineMarks m gap = gapMarks m gap := by
  induction gap generalizing m with
  | nil => exact (gapMarks_nil m).symm
  | cons c gap ih =>
      rw [List.all_cons, Bool.and_eq_true] at hgap
      rw [lineMarks, markOf_of_isBlank hgap.1, after_of_isBlank hgap.1, ih hgap.2]
      exact (gapMarks_cons m c gap).symm

theorem lineMode_gap {gap : Text} (hgap : gap.all Text.isBlank = true) (hne : gap ≠ [])
    (m : Mode) : lineMode m gap = m.blank := by
  induction gap generalizing m with
  | nil => exact absurd rfl hne
  | cons c gap ih =>
      rw [List.all_cons, Bool.and_eq_true] at hgap
      rw [lineMode, after_of_isBlank hgap.1]
      cases gap with
      | nil => rfl
      | cons d gap => rw [ih hgap.2 (List.cons_ne_nil d gap), blank_blank]

/-! ### Texts one after another -/

/-- The first text is read alike whether the second one follows it or nothing. -/
def Joins (t u : Text) : Prop :=
  ∀ c, t.getLast? = some c → ∀ m : Mode, m.after c u.head? = m.after c none

theorem Joins.cons {c : Char} {t u : Text} (h : Joins (c :: t) u) (hne : t ≠ []) : Joins t u := by
  intro d hd
  refine h d ?_
  rw [List.getLast?_cons_of_ne_nil hne, hd]

theorem joins_nil (t : Text) : Joins t [] := by
  intro c _ m
  rfl

/-- Blanks are read alike whatever follows them. -/
theorem joins_of_blanks {gap : Text} (hgap : gap.all Text.isBlank = true) (u : Text) :
    Joins gap u := by
  intro c hc m
  have hblank := List.all_eq_true.1 hgap c (List.mem_of_getLast? hc)
  rw [after_of_isBlank hblank, after_of_isBlank hblank]

theorem joins_blanks (t : Text) {gap : Text} (hgap : gap.all Text.isBlank = true) (hne : gap ≠ [])
    (u : Text) : Joins t (gap ++ u) := by
  intro c _ m
  refine after_congr (fun d hd => ?_) m c
  exact iff_of_false (head?_blanks_append hgap hne u hd) (Option.some_ne_none d).symm

/-- A backquote is read alike whatever follows it. -/
theorem joins_backquote {t : Text} (h : t.getLast? = some '\x60') (u : Text) : Joins t u := by
  intro c hc m
  obtain rfl : '\x60' = c := Option.some.inj (h.symm.trans hc)
  cases m with
  | literal q escaped => cases escaped <;> rfl
  | _ => rfl

/-- Behind a backquote a blank changes nothing. -/
theorem blank_lineMode {t : Text} (h : t.getLast? = some '\x60') (m : Mode) :
    (lineMode m t).blank = lineMode m t := by
  induction t generalizing m with
  | nil => cases h
  | cons c t ih =>
      cases t with
      | nil =>
          cases h
          exact isSteady_backquote m none
      | cons d t => exact ih (by rwa [List.getLast?_cons_of_ne_nil (List.cons_ne_nil d t)] at h) _

theorem lineMarks_append {t u : Text} (h : Joins t u) (m : Mode) :
    lineMarks m (t ++ u) = lineMarks m t ++ lineMarks (lineMode m t) u := by
  induction t generalizing m with
  | nil => rfl
  | cons c t ih =>
      rw [List.cons_append, lineMarks, lineMarks, lineMode, List.append_assoc]
      cases t with
      | nil =>
          rw [List.nil_append, h c rfl]
          rfl
      | cons d t =>
          rw [ih (h.cons (List.cons_ne_nil d t))]
          rfl

/-! ### The scanner's modes -/

theorem mode_of_scanLine {before t : Text} {s s' : State} (h : scanLine before s t = .ok s') :
    s'.mode = lineMode s.mode t := by
  induction t generalizing before s with
  | nil =>
      cases h
      rfl
  | cons c t ih =>
      obtain ⟨x, hstep, h⟩ := exists_of_bind_ok h
      rw [lineMode, ← step_mode hstep]
      exact ih h

/-- A line leads to the mode that its end leads to. -/
theorem Leads.mode_eq {s s' : State} {t : Text} (h : Leads s t s') :
    s'.mode = (lineMode s.mode t).endLine := by
  obtain ⟨x, hscan, hend⟩ := exists_of_bind_ok h
  rw [← mode_of_scanLine hscan]
  obtain ⟨mode, stack⟩ := x
  cases mode with
  | literal q escaped => cases q <;> cases hend
  | _ =>
      cases hend
      rfl

theorem Leads.textMarks_cons {s s' : State} {t : Text} (h : Leads s t s') (ts : List Text) :
    textMarks s.mode (t :: ts) =
      lineMarks s.mode t ++ (newlineMarks s'.mode ++ textMarks s'.mode ts) := by
  have hnewline : newlineMarks (lineMode s.mode t) = newlineMarks s'.mode := by
    rw [h.mode_eq, newlineMarks, newlineMarks, quote?_endLine]
  rw [textMarks, hnewline, ← h.mode_eq, List.append_assoc]

theorem Runs.textMode_eq {s final : State} {ts : List Text} {shapes : List Shape}
    (h : Runs s ts shapes final) : textMode s.mode ts = final.mode := by
  induction h with
  | nil s => rfl
  | cons hleads _ _ ih => rw [textMode, ← hleads.mode_eq, ih]

section End

variable {final : State} {ts : List Text} {shapes : List Shape}

theorem Runs.textMode_start (h : Runs .start ts shapes final) (hfinal : final.mode = .code) :
    textMode .code ts = .code :=
  h.textMode_eq.trans hfinal

/-- All literals of a text that is run to its end are closed. -/
theorem Runs.fits (h : Runs .start ts shapes final) (hfinal : final.mode = .code) :
    Fits false (textMarks .code ts) false := by
  have hfits := fits_textMarks .code ts
  rwa [h.textMode_start hfinal] at hfits

end End

end Format

end SchemaModels.Go

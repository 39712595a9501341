import SchemaModels.Proofs.Ddl.Slices
import SchemaModels.Proofs.Ddl.Tokens

/-!
# Blanks and comments before more text

A line break ends every comment that runs to the end of its line, and is a blank itself. So a line
break behind a text changes nothing for what is skipped inside the text (`skip_line`); what lies in
front of the text only moves it (`skip_shift`).
-/

namespace SchemaModels.Ddl.Lexer

def Gap.shift (k : Nat) : Gap → Gap
  | .opening s => .opening (s + k)
  | .block s => .block (s + k)
  | g => g

/-- Where the text of a place ends, or where a comment that is never closed stops. -/
def stopOf : Except Span Place → Nat
  | .ok p => p.stop
  | .error s => s.stop

def shifted (k : Nat) : Except Span Place → Except Span Place
  | .ok p => .ok (p.embed k [])
  | .error s => .error (s.shift k)

theorem skip_blank_cons (o : Nat) (c : Char) (r : Text) : skip .blank o (c :: r) =
    if Text.isBlank c then skip .blank (o + c.utf8Size) r
    else if opensLine c r then skip .line (o + c.utf8Size) r
    else if c = '/' ∧ r.head? = some '*' then skip (.opening o) (o + c.utf8Size) r
    else .ok ⟨o, c :: r⟩ := rfl

theorem skip_block_cons (s o : Nat) (c : Char) (r : Text) : skip (.block s) o (c :: r) =
    skip (if c = '*' ∧ r.head? = some '/' then .closing else .block s) (o + c.utf8Size) r := rfl

theorem stopOf_skip (g : Gap) (o : Nat) (t : Text) :
    stopOf (skip g o t) = o + Text.byteLength t := by
  induction t generalizing g o with
  | nil => cases g <;> rfl
  | cons c t ih =>
      rw [Text.byteLength_cons, ← Nat.add_assoc]
      cases g with
      | blank =>
          rw [skip_blank_cons]
          split
          · exact ih _ _
          · split
            · exact ih _ _
            · split
              · exact ih _ _
              · simp [stopOf, Place.stop, Nat.add_assoc]
      | line => exact ih _ _
      | opening s => exact ih _ _
      | block s => exact ih _ _
      | closing => exact ih _ _

theorem skip_shift (g : Gap) (o k : Nat) (t : Text) :
    skip (g.shift k) (o + k) t = shifted k (skip g o t) := by
  induction t generalizing g o with
  | nil => cases g <;> rfl
  | cons c t ih =>
      have hnext (g : Gap) : skip (g.shift k) (o + k + c.utf8Size) t =
          shifted k (skip g (o + c.utf8Size) t) := by
        rw [Nat.add_right_comm, ih]
      cases g with
      | blank =>
          have hblank := hnext .blank
          have hline := hnext .line
          have hopening := hnext (.opening o)
          simp only [Gap.shift] at hblank hline hopening ⊢
          rw [skip_blank_cons, skip_blank_cons, hblank, hline, hopening]
          split
          · rfl
          · split
            · rfl
            · split
              · rfl
              · simp [shifted, Place.embed]
      | line =>
          by_cases hc : c = '\n'
          · simpa [skip, Gap.shift, hc] using hnext .blank
          · simpa [skip, Gap.shift, hc] using hnext .line
      | opening s => exact hnext (.block s)
      | block s =>
          by_cases hc : c = '*' ∧ t.head? = some '/'
          · simpa [skip, Gap.shift, hc] using hnext .closing
          · simpa [skip, Gap.shift, hc] using hnext (.block s)
      | closing => exact hnext .blank

theorem opensLine_cases {c : Char} {r : Text} (h : opensLine c r = true) :
    c = '#' ∨ c = '-' ∧ ∃ behind, r = '-' :: behind ∧ behind.head?.all Text.isBlank = true := by
  unfold opensLine at h
  rw [Bool.or_eq_true, beq_iff_eq, Bool.and_eq_true, Bool.and_eq_true, beq_iff_eq,
    beq_iff_eq] at h
  obtain rfl | ⟨⟨rfl, hsecond⟩, hblank⟩ := h
  · exact Or.inl rfl
  · obtain ⟨behind, rfl⟩ := List.head?_eq_some_iff.1 hsecond
    exact Or.inr ⟨rfl, behind, rfl, hblank⟩

variable {v : Text}

theorem opensLine_line (c : Char) (r : Text) : opensLine c (r ++ '\n' :: v) = opensLine c r := by
  rcases r with _ | ⟨d, _ | ⟨e, r⟩⟩
  · simp [opensLine]
  · have hblank : Text.isBlank '\n' = true := by decide
    simp [opensLine, hblank]
  · rfl

/-- A line break after a text changes nothing for a token inside the text, and goes with the blanks
and comments where no token is left. -/
theorem skip_line {g : Gap} {o : Nat} {t : Text} {p : Place} (h : skip g o t = .ok p) :
    skip g o (t ++ '\n' :: v) =
      if p.rest = [] then skip .blank (o + Text.byteLength t + 1) v
      else .ok (p.embed 0 ('\n' :: v)) := by
  induction t generalizing g o with
  | nil =>
      cases g with
      | opening s => cases h
      | block s => cases h
      | _ =>
          cases h
          rfl
  | cons c t ih =>
      rw [Text.byteLength_cons, ← Nat.add_assoc, List.cons_append]
      cases g with
      | blank =>
          have hstar := head?_append_iff (detached_line v).severed t (c := '*') (by decide)
          rw [skip_blank_cons] at h ⊢
          rw [opensLine_line]
          simp only [hstar]
          by_cases hblank : Text.isBlank c
          · rw [if_pos hblank] at h ⊢
            exact ih h
          rw [if_neg hblank] at h ⊢
          by_cases hopens : opensLine c t
          · rw [if_pos hopens] at h ⊢
            exact ih h
          rw [if_neg hopens] at h ⊢
          by_cases hblock : c = '/' ∧ t.head? = some '*'
          · rw [if_pos hblock] at h ⊢
            exact ih h
          · rw [if_neg hblock] at h ⊢
            cases h
            simp [Place.embed]
      | line => exact ih h
      | opening s => exact ih h
      | block s =>
          have hslash := head?_append_iff (detached_line v).severed t (c := '/') (by decide)
          rw [skip_block_cons] at h ⊢
          simp only [hslash]
          exact ih h
      | closing => exact ih h

end SchemaModels.Ddl.Lexer

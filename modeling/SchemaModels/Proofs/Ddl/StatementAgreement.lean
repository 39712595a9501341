import SchemaModels.Ddl.Statement.Parser
import SchemaModels.Proofs.Ddl.TableAgreement

/-!
# Agreement of statements

A statement takes the semicolon behind it, where there is one. So the reader of a statement agrees
with itself behind another text, but before more text it goes one token further where its own text
ends.
-/

namespace SchemaModels.Ddl.Parse

open AgreesAt (bind_ok bind_error)

variable {w : Surroundings} {c : Cursor} {defaults : TableDefaults}

/-! ### Behind another text -/

theorem agreesAt_statementEnd (hw : w.SharesEnd) :
    AgreesAt w true statementEnd statementEnd c := by
  refine (agreesAt_acceptSymbol (Or.inl hw)).bind fun _ _ _ => .ite (.pure ()) ?_
  have heof (d : Cursor) : AgreesAt w true (at? .eof) (at? .eof) d :=
    agreesAt_test (f := fun k => decide (k = .eof)) (fun _ => rfl) (Or.inl hw)
  exact (heof _).bind fun _ _ _ => .ite (.pure ()) (agreesAt_refuse _)

theorem agreesAt_otherStatement (hw : w.SharesEnd) :
    AgreesAt w true otherStatement otherStatement c := by
  refine agreesAt_skipStatement.bind fun _ _ _ => ?_
  exact (agreesAt_acceptSymbol (Or.inl hw)).bind fun _ _ _ => .pure Statement.other

theorem agreesAt_createStatement (hw : w.SharesEnd) :
    AgreesAt w true (createStatement defaults) (createStatement defaults) c := by
  refine agreesAt_kind.bind fun k _ _ => .ite ?_ (agreesAt_otherStatement hw)
  refine (agreesAt_table defaults).bind fun t _ _ => ?_
  exact (agreesAt_statementEnd hw).bind fun _ _ _ => .pure (Statement.createTable t)

theorem agreesAt_statement (hw : w.SharesEnd) :
    AgreesAt w true (statement defaults) (statement defaults) c := by
  refine (agreesAt_acceptKeyword _).bind fun _ _ _ => ?_
  exact .ite (agreesAt_createStatement hw) (agreesAt_otherStatement hw)

theorem agreesAt_statement? (hw : w.SharesEnd) :
    AgreesAt w true (statement? defaults) (statement? defaults) c := by
  refine (agreesAt_skipWhile (fun _ => rfl) (Or.inl hw)).bind fun _ _ _ => ?_
  have heof (d : Cursor) : AgreesAt w true (at? .eof) (at? .eof) d :=
    agreesAt_test (f := fun k => decide (k = .eof)) (fun _ => rfl) (Or.inl hw)
  exact (heof _).bind fun _ _ _ => .ite (.pure none) (.map some (agreesAt_statement hw))

/-- What stands in front of a text changes nothing but the positions. -/
theorem agreesAt_statements (hw : w.SharesEnd) :
    AgreesAt w true (statements defaults) (statements defaults) c :=
  agreesAt_many fun _ _ => agreesAt_statement? hw

/-! ### Before more text -/

/-- A reader up to the end of a statement, in a longer text. Where the source text ends, it reads
the semicolon behind that as well. -/
def EndsAt (w : Surroundings) (p : Parse α) (c : Cursor) : Prop :=
  c.Inside → ∀ a d, p c = .ok a d → Reads false c d ∧
    (p (w.cursor c) = .ok a (w.cursor d) ∨
      d.ahead = [] ∧ p (w.cursor c) = .ok a (w.cursor d).advance)

theorem exists_of_bind_ok {p : Parse α} {f : α → Parse β} {b : β} {e : Cursor}
    (h : (p >>= f) c = .ok b e) : ∃ a d, p c = .ok a d ∧ f a d = .ok b e := by
  cases hp : p c with
  | ok a d => exact ⟨a, d, rfl, (bind_ok p f hp).symm.trans h⟩
  | error e' d =>
      rw [bind_error p f hp] at h
      cases h

theorem endsAt_bind {p : Parse α} {f : α → Parse β} (hp : AgreesAt w false p p c)
    (hf : ∀ a d, p c = .ok a d → EndsAt w (f a) d) : EndsAt w (p >>= f) c := by
  intro hc b e h
  obtain ⟨a, d, hpa, hfa⟩ := exists_of_bind_ok h
  have hreads := hp.reads hc hpa
  obtain ⟨hreads', hends⟩ := hf a d hpa (hreads.inside hc) b e hfa
  rw [bind_ok p f (hp.eq_ok hc hpa (Or.inr (Or.inl rfl)))]
  exact ⟨hreads.trans hreads', hends⟩

theorem endsAt_ite {q : Prop} [Decidable q] {p₁ p₂ : Parse α} (h₁ : EndsAt w p₁ c)
    (h₂ : EndsAt w p₂ c) : EndsAt w (if q then p₁ else p₂) c := by
  split
  · exact h₁
  · exact h₂

/-- The end of the text chooses as a semicolon does. -/
theorem endsAt_kind_bind {f : TokenKind → Parse α} (hf : EndsAt w (f c.current.kind) c)
    (hend : f .eof = f (.symbol .semicolon)) : EndsAt w (kind >>= f) c := by
  have hkind : f (w.cursor c).current.kind = f c.current.kind := test_kind (Or.inr hend)
  intro hc a d h
  have hbind : (kind >>= f) (w.cursor c) = f c.current.kind (w.cursor c) := by
    rw [← hkind]
    rfl
  rw [hbind]
  exact hf hc a d h

/-- What ends a statement takes a semicolon, and may be content without one. -/
theorem endsAt_of_eq {p : Parse α} {a : α} {x : Expected} {f : TokenKind → Bool}
    (hp : ∀ e, p e = if e.current.kind = .symbol .semicolon then .ok a e.advance
      else if f e.current.kind then .ok a e else refuse x e)
    (hw : ¬ w.SharesEnd) : EndsAt w p c := by
  intro hc b d h
  rw [hp] at h ⊢
  by_cases hnil : c.ahead = []
  · have hsemicolon := Surroundings.kind_current_of_nil hw hnil
    rw [Cursor.kind_current_of_nil hnil, if_neg nofun] at h
    rw [if_pos hsemicolon]
    by_cases hf : f .eof = true
    · rw [if_pos hf] at h
      cases h
      exact ⟨.refl false c, Or.inr ⟨hnil, rfl⟩⟩
    · rw [if_neg hf] at h
      cases h
  · rw [Surroundings.kind_current (Or.inr hnil)]
    by_cases hsemicolon : c.current.kind = .symbol .semicolon
    · rw [if_pos hsemicolon] at h ⊢
      cases h
      rw [Surroundings.cursor_advance (Or.inr hnil)]
      exact ⟨.advance hnil (by rw [hsemicolon]; exact nofun), Or.inl rfl⟩
    · rw [if_neg hsemicolon] at h ⊢
      by_cases hf : f c.current.kind = true
      · rw [if_pos hf] at h ⊢
        cases h
        exact ⟨.refl false c, Or.inl rfl⟩
      · rw [if_neg hf] at h
        cases h

theorem statementEnd_eq (c : Cursor) : statementEnd c =
    if c.current.kind = .symbol .semicolon then .ok () c.advance
    else if c.current.kind = .eof then .ok () c
    else refuse .statementEnd c := by
  have haccept := accept_eq (.symbol .semicolon) c
  by_cases hsemicolon : c.current.kind = .symbol .semicolon
  · rw [if_pos hsemicolon] at haccept ⊢
    exact bind_ok (acceptSymbol .semicolon) _ haccept
  · rw [if_neg hsemicolon] at haccept ⊢
    have heof : at? .eof c = .ok (decide (c.current.kind = .eof)) c := rfl
    refine (bind_ok (acceptSymbol .semicolon) _ haccept).trans ?_
    refine (bind_ok (at? .eof) _ heof).trans ?_
    by_cases h : c.current.kind = .eof
    · rw [if_pos h, decide_eq_true h]
      rfl
    · rw [if_neg h, decide_eq_false h]
      rfl

theorem endsAt_statementEnd (hw : ¬ w.SharesEnd) (a : α) :
    EndsAt w (do statementEnd; return a) c := by
  refine endsAt_of_eq (a := a) (x := .statementEnd) (f := fun k => decide (k = .eof))
    (fun e => ?_) hw
  have hend := statementEnd_eq e
  by_cases hsemicolon : e.current.kind = .symbol .semicolon
  · rw [if_pos hsemicolon] at hend ⊢
    exact bind_ok statementEnd _ hend
  · rw [if_neg hsemicolon] at hend ⊢
    by_cases heof : e.current.kind = .eof
    · rw [if_pos heof] at hend
      rw [if_pos (decide_eq_true heof)]
      exact bind_ok statementEnd _ hend
    · rw [if_neg heof] at hend
      rw [if_neg (by simpa using heof)]
      exact bind_error statementEnd _ hend

theorem endsAt_otherStatement (hw : ¬ w.SharesEnd) : EndsAt w otherStatement c := by
  refine endsAt_bind agreesAt_skipStatement fun _ _ _ => ?_
  refine endsAt_of_eq (a := Statement.other) (x := .semicolon) (f := fun _ => true)
    (fun e => ?_) hw
  have haccept := accept_eq (.symbol .semicolon) e
  by_cases h : e.current.kind = .symbol .semicolon
  · rw [if_pos h] at haccept ⊢
    exact bind_ok (acceptSymbol .semicolon) _ haccept
  · rw [if_neg h] at haccept ⊢
    exact bind_ok (acceptSymbol .semicolon) _ haccept

theorem endsAt_createStatement (hw : ¬ w.SharesEnd) : EndsAt w (createStatement defaults) c := by
  refine endsAt_kind_bind ?_ rfl
  refine endsAt_ite ?_ (endsAt_otherStatement hw)
  exact endsAt_bind (agreesAt_table defaults) fun t _ _ => endsAt_statementEnd hw _

theorem endsAt_statement (hw : ¬ w.SharesEnd) : EndsAt w (statement defaults) c := by
  refine endsAt_bind (agreesAt_acceptKeyword _) fun create _ _ => ?_
  cases create with
  | true => exact endsAt_createStatement hw
  | false => exact endsAt_otherStatement hw

end SchemaModels.Ddl.Parse

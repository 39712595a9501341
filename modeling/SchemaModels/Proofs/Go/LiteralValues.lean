import SchemaModels.Proofs.Go.StringLiterals
import SchemaModels.Proofs.Go.TagReading

/-!
# Values of string literals

The value of a string literal is what stands between its quotes with the escapes undone. Quoting a
text makes a literal with that value (`literalValue?_quoted`), so texts that are quoted alike are
the same. A scanner is inside of the literal from its first character to its last one
(`passes_of_isPrefix_quoted`).
-/

namespace SchemaModels.Go

open Tag (Unquoting unquote untilQuote)

/-! ### Values -/

/-- The value of an interpreted string literal. -/
def literalValue? : Text → Option Text
  | '"' :: t =>
    match untilQuote t with
    | some (raw, []) => unquote .plain raw
    | _ => none
  | _ => none

namespace Tag

/-- What is unquoted to its end does not depend on what follows. -/
theorem unquote_append {s : Unquoting} {t u : Text} (h : unquote s t = some u) (rest : Text) :
    unquote s (t ++ rest) = (unquote .plain rest).map (u ++ ·) := by
  induction t generalizing s u with
  | nil =>
      cases s with
      | plain =>
          cases h
          exact Option.map_id'.symm
      | escaped => cases h
      | number base left value isByte => cases h
  | cons c t ih =>
      simp only [unquote, bind, Option.bind_eq_some_iff] at h
      obtain ⟨⟨out, s'⟩, hstep, u', hu, h⟩ := h
      cases h
      rw [List.cons_append, unquote, hstep]
      cases hrest : unquote .plain rest <;> simp [ih hu, hrest]

theorem unquote_escapedChar (c : Char) : unquote .plain (Go.escapedChar c) = some [c] := by
  have hnumeral : ∀ n < 0xA0, unquote .plain ("\\u" ++ Text.padded 4 (Text.hexNumeral n)) =
      some [Char.ofNat n] := by
    decide +kernel
  unfold Go.escapedChar
  split
  · rfl
  · rfl
  · rfl
  · rfl
  · rfl
  · rename_i hquote hback hline _ _
    split
    · rename_i hcontrol
      rw [hnumeral _ (toNat_lt_of_isControl hcontrol), Char.ofNat_toNat]
    · have hplain : c ≠ '"' ∧ c ≠ '\\' ∧ c ≠ '\n' := ⟨hquote, hback, hline⟩
      simp [unquote, Unquoting.step, hplain]

theorem unquote_escapes (t : Text) : unquote .plain (t.flatMap Go.escapedChar) = some t := by
  induction t with
  | nil => rfl
  | cons c t ih =>
      rw [List.flatMap_cons, unquote_append (unquote_escapedChar c), ih]
      rfl

/-- A quote that ends a value is looked for behind what is escaped. -/
theorem untilQuote_escaped {s : Text} (hs : IsEscaped s) (t : Text) :
    untilQuote (s ++ t) = (untilQuote t).map fun (raw, rest) => (s ++ raw, rest) := by
  have hplain : ∀ {s : Text}, s.all isPlainInString = true →
      untilQuote (s ++ t) = (untilQuote t).map fun (raw, rest) => (s ++ raw, rest) := by
    intro s hs
    induction s with
    | nil => exact Option.map_id'.symm
    | cons c s ih =>
        rw [List.all_cons, Bool.and_eq_true] at hs
        have hc : (c ≠ '"' ∧ c ≠ '\\') ∧ c ≠ '\n' := by simpa [isPlainInString] using hs.1
        rw [List.cons_append, untilQuote, ih hs.2]
        · simp [Function.comp_def]
        · exact hc.1.1
        · exact fun _ _ h => absurd h hc.1.2
  cases hs with
  | plain hc => exact hplain (by rw [List.all_cons, hc]; rfl)
  | @escape c s hc hs =>
      rw [List.cons_append, List.cons_append, untilQuote, hplain hs]
      simp [Function.comp_def]

theorem untilQuote_escapes (t rest : Text) : untilQuote (t.flatMap Go.escapedChar ++ '"' :: rest) =
    some (t.flatMap Go.escapedChar, rest) := by
  induction t with
  | nil => rfl
  | cons c t ih =>
      rw [List.flatMap_cons, List.append_assoc, untilQuote_escaped (isEscaped_escapedChar c), ih]
      rfl

end Tag

/-- A text is the value of the literal that it is quoted to. -/
theorem literalValue?_quoted (t : Text) : literalValue? (quoted t) = some t := by
  have hsplit : quoted t = '"' :: (t.flatMap escapedChar ++ ['"']) := rfl
  rw [hsplit, literalValue?, Tag.untilQuote_escapes]
  exact Tag.unquote_escapes t

theorem quoted_inj {t u : Text} (h : quoted t = quoted u) : t = u := by
  have hvalue := literalValue?_quoted t
  rw [h, literalValue?_quoted] at hvalue
  exact (Option.some.inj hvalue).symm

/-! ### Inside of a literal -/

namespace Format

/-- Whatever follows the text on its line, a scanner comes over it from one state to the other. -/
def Passes (before : Text) (s : State) (t : Text) (s' : State) : Prop :=
  ∀ rest, scanLine before s (t ++ rest) = scanLine (t.reverse ++ before) s' rest

theorem Passes.append {before t u : Text} {s s' s'' : State} (h : Passes before s t s')
    (h' : Passes (t.reverse ++ before) s' u s'') : Passes before s (t ++ u) s'' := fun rest => by
  rw [List.append_assoc, h, h', List.reverse_append, List.append_assoc]

theorem passes_of_step {before : Text} {s s' : State} {c : Char}
    (h : ∀ next, step before s c next = .ok s') : Passes before s [c] s' := fun _ =>
  scanLine_of_step (h _)

/-- From inside of a string a scanner comes over any beginning of the text without leaving it. -/
def StaysInside (t : Text) : Prop :=
  ∀ before stack, ∀ p, p <+: t → ∃ escaped,
    Passes before ⟨.string, stack⟩ p ⟨.literal .double escaped, stack⟩

theorem staysInside_of_plain {s : Text} (hs : s.all isPlainInString = true) : StaysInside s := by
  rintro before stack p ⟨t, rfl⟩
  rw [List.all_append, Bool.and_eq_true] at hs
  exact ⟨false, scanLine_plain before stack hs.1⟩

theorem staysInside_of_isEscaped {s : Text} (hs : IsEscaped s) : StaysInside s := by
  cases hs with
  | plain hc => exact staysInside_of_plain (by rw [List.all_cons, hc]; rfl)
  | @escape c s hc hs =>
      intro before stack p hp
      have hback : Passes before ⟨.string, stack⟩ ['\\'] ⟨.literal .double true, stack⟩ :=
        passes_of_step fun _ => rfl
      have hnext : Passes ('\\' :: before) ⟨.literal .double true, stack⟩ [c] ⟨.string, stack⟩ :=
        passes_of_step fun _ => rfl
      obtain rfl | ⟨p, rfl, hp'⟩ := List.prefix_cons_iff.1 hp
      · exact ⟨false, fun _ => rfl⟩
      obtain rfl | ⟨p, rfl, hp''⟩ := List.prefix_cons_iff.1 hp'
      · exact ⟨true, hback⟩
      obtain ⟨escaped, hpasses⟩ := staysInside_of_plain hs (c :: '\\' :: before) stack p hp''
      exact ⟨escaped, hback.append (hnext.append hpasses)⟩

theorem staysInside_escapes (text : Text) : StaysInside (text.flatMap escapedChar) := by
  induction text with
  | nil =>
      intro before stack p hp
      rw [List.prefix_nil.1 hp]
      exact ⟨false, fun _ => rfl⟩
  | cons c text ih =>
      intro before stack p hp
      have hc := isEscaped_escapedChar c
      rw [List.flatMap_cons] at hp
      obtain hp' | ⟨p, rfl⟩ := List.prefix_or_prefix_of_prefix hp (List.prefix_append _ _)
      · exact staysInside_of_isEscaped hc before stack p hp'
      · obtain ⟨escaped, hpasses⟩ := ih ((escapedChar c).reverse ++ before) stack p
          ((List.prefix_append_right_inj _).1 hp)
        exact ⟨escaped, Passes.append (scanLine_escaped before stack hc) hpasses⟩

/-- Between the quotes of a literal a scanner is inside of a string. -/
theorem passes_of_isPrefix_quoted (before : Text) (stack : List Open) {text p q : Text}
    (h : quoted text = p ++ q) (hp : p ≠ []) (hq : q ≠ []) : ∃ escaped,
      Passes before ⟨.code, stack⟩ p ⟨.literal .double escaped, stack⟩ := by
  have hsplit : quoted text = '"' :: text.flatMap escapedChar ++ ['"'] := rfl
  have hbefore : p <+: '"' :: text.flatMap escapedChar := by
    rw [hsplit] at h
    rw [← List.dropLast_concat_getLast hq, ← List.append_assoc] at h
    exact ⟨q.dropLast, (List.append_inj_left' h rfl).symm⟩
  obtain rfl | ⟨p, rfl, hp'⟩ := List.prefix_cons_iff.1 hbefore
  · exact absurd rfl hp
  · obtain ⟨escaped, hpasses⟩ := staysInside_escapes text ('"' :: before) stack p hp'
    have hopened : Passes before ⟨.code, stack⟩ ['"'] ⟨.string, stack⟩ :=
      passes_of_step fun _ => rfl
    exact ⟨escaped, hopened.append hpasses⟩

end Format

end SchemaModels.Go

import SchemaModels.Go.Literal
import SchemaModels.Proofs.Go.Scanning
import SchemaModels.Proofs.Text.Characters

/-!
# Scanning string literals

A quoted text is a string literal on one line: inside it a quote or a backslash stands behind a
backslash only, and a line break not at all (`isEscaped_escapedChar`). So a scanner comes out of it
where it ends, in code, as it went in (`scanLine_quoted`).
-/

namespace SchemaModels.Go

/-- A character that a scanner passes over inside a string. -/
def isPlainInString (c : Char) : Bool := c != '"' && c != '\\' && c != '\n'

/-- How a character stands inside a string: as it is or behind a backslash. -/
inductive IsEscaped : Text → Prop
  | plain {c : Char} (hc : isPlainInString c = true) : IsEscaped [c]
  | escape {c : Char} {s : Text} (hc : c ≠ '\n') (hs : s.all isPlainInString = true) :
    IsEscaped ('\\' :: c :: s)

theorem toNat_lt_of_isControl {c : Char} (h : Text.isControl c = true) : c.toNat < 0xA0 := by
  simp only [Text.isControl, Bool.or_eq_true, Bool.and_eq_true, decide_eq_true_eq] at h
  omega

theorem isEscaped_escapedChar (c : Char) : IsEscaped (escapedChar c) := by
  have hnumeral : ∀ n < 0xA0, (Text.padded 4 (Text.hexNumeral n)).all isPlainInString = true := by
    decide +kernel
  unfold escapedChar
  split
  · exact .escape (by decide) rfl
  · exact .escape (by decide) rfl
  · exact .escape (by decide) rfl
  · exact .escape (by decide) rfl
  · exact .escape (by decide) rfl
  · rename_i hquote hback hline _ _
    split
    · rename_i hcontrol
      exact .escape (c := 'u') (by decide) (hnumeral _ (toNat_lt_of_isControl hcontrol))
    · refine .plain ?_
      have hplain : c ≠ '"' ∧ c ≠ '\\' ∧ c ≠ '\n' := ⟨hquote, hback, hline⟩
      simp [isPlainInString, hplain]

theorem IsEscaped.newline_not_mem {s : Text} (h : IsEscaped s) : '\n' ∉ s := by
  have hplain : ∀ {u : Text}, u.all isPlainInString = true → '\n' ∉ u := fun hu =>
    Text.not_mem_of_all hu (by decide)
  cases h with
  | plain hc => exact hplain (by rw [List.all_cons, hc]; rfl)
  | escape hc hs =>
      rw [List.mem_cons, List.mem_cons, not_or, not_or]
      exact ⟨by decide, hc.symm, hplain hs⟩

/-- A string literal stands on one line. -/
theorem newline_not_mem_quoted (t : Text) : '\n' ∉ quoted t := by
  have hquote : '\n' ∉ ("\"" : Text) := by decide
  intro hmem
  obtain hmem | hmem := List.mem_append.1 hmem
  · obtain hmem | hmem := List.mem_cons.1 hmem
    · cases hmem
    · obtain ⟨c, -, hmem⟩ := List.mem_flatMap.1 hmem
      exact (isEscaped_escapedChar c).newline_not_mem hmem
  · exact hquote hmem

namespace Format

variable (before : Text) (stack : List Open)

/-- Inside a string, with no backslash in front. -/
abbrev Mode.string : Mode := .literal .double false

theorem scanLine_plain {s : Text} (hs : s.all isPlainInString = true) (t : Text) :
    scanLine before ⟨.string, stack⟩ (s ++ t) =
      scanLine (s.reverse ++ before) ⟨.string, stack⟩ t := by
  induction s generalizing before with
  | nil => rfl
  | cons c s ih =>
      rw [List.all_cons, Bool.and_eq_true] at hs
      have hplain : (c ≠ '"' ∧ c ≠ '\\') ∧ c ≠ '\n' := by simpa [isPlainInString] using hs.1
      have hstep : step before ⟨.string, stack⟩ c (s ++ t).head? = .ok ⟨.string, stack⟩ := by
        simp [step_eq, Mode.after, Quote.char, hplain, Except.map]
      rw [List.cons_append, scanLine_of_step hstep, ih _ hs.2, List.reverse_cons,
        List.append_assoc, List.singleton_append]

theorem scanLine_escaped {s : Text} (hs : IsEscaped s) (t : Text) :
    scanLine before ⟨.string, stack⟩ (s ++ t) =
      scanLine (s.reverse ++ before) ⟨.string, stack⟩ t := by
  cases hs with
  | plain hc => exact scanLine_plain before stack (by rw [List.all_cons, hc]; rfl) t
  | @escape c s hc hs =>
      -- The character behind a backslash is passed over whatever it is.
      have hback : ∀ next, step before ⟨.string, stack⟩ '\\' next =
          .ok ⟨.literal .double true, stack⟩ := fun _ => rfl
      have hnext : ∀ next, step ('\\' :: before) ⟨.literal .double true, stack⟩ c next =
          .ok ⟨.string, stack⟩ := fun _ => rfl
      rw [List.cons_append, List.cons_append, scanLine_of_step (hback _),
        scanLine_of_step (hnext _), scanLine_plain _ _ hs]
      simp

theorem scanLine_escapes (text t : Text) :
    scanLine before ⟨.string, stack⟩ (text.flatMap escapedChar ++ t) =
      scanLine ((text.flatMap escapedChar).reverse ++ before) ⟨.string, stack⟩ t := by
  induction text generalizing before with
  | nil => rfl
  | cons c text ih =>
      rw [List.flatMap_cons, List.append_assoc,
        scanLine_escaped before stack (isEscaped_escapedChar c), ih, List.reverse_append,
        List.append_assoc]

/-- A scanner comes out of a string literal in code, as it went in. -/
theorem scanLine_quoted (text t : Text) :
    scanLine before ⟨.code, stack⟩ (quoted text ++ t) =
      scanLine ((quoted text).reverse ++ before) ⟨.code, stack⟩ t := by
  have hopened : ∀ next, step before ⟨.code, stack⟩ '"' next = .ok ⟨.string, stack⟩ :=
    fun _ => rfl
  have hclosed : ∀ before next, step before ⟨.string, stack⟩ '"' next = .ok ⟨.code, stack⟩ :=
    fun _ _ => rfl
  have hsplit : quoted text ++ t = '"' :: (text.flatMap escapedChar ++ '"' :: t) := by
    simp [quoted]
  rw [hsplit, scanLine_of_step (hopened _), scanLine_escapes, scanLine_of_step (hclosed _ _)]
  simp [quoted]

end Format

end SchemaModels.Go

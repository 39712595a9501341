import SchemaModels.Proofs.Go.FieldLines
import SchemaModels.Proofs.Model.StructText

/-!
# Names of fields

A field's name consists of letters and digits, so it is an identifier exactly if it begins with a
letter (`isIdentifier_fieldName`). With which kind of character it begins does not depend on the
acronyms, which change the case of letters only (`beginsWithLetter_fieldName_congr`).
-/

namespace SchemaModels.Naming

/-- The name is not empty and begins with a letter. -/
def BeginsWithLetter (name : Text) : Prop := name.head?.any Text.isLetter = true

instance (name : Text) : Decidable (BeginsWithLetter name) := inferInstanceAs (Decidable (_ = _))

/-! ### Identifiers -/

/-- A digit is no letter of any alphabet, so no name begins with it. -/
theorem startsIdentifier_of_isDigit {c : Char} (hc : c.isDigit = true) :
    Go.Format.startsIdentifier c = false := by
  have hrange : 48 ≤ c.toNat ∧ c.toNat ≤ 57 := by
    simpa [Char.isDigit, UInt32.le_iff_toNat_le] using hc
  have halpha := Text.isAlpha_of_isDigit hc
  have hascii : c.toNat < 0x80 := by omega
  have hunderscore : c ≠ '_' := by
    rintro rfl
    exact absurd hc (by decide)
  simp [Go.Format.startsIdentifier, Text.isAlphabetic, hascii, halpha, hunderscore]

theorem isIdentifier_fieldName (a : Acronyms) (column : Text) :
    Go.Format.isIdentifier (fieldName a column) = true ↔
      BeginsWithLetter (fieldName a column) := by
  have hcontinues : (fieldName a column).all Go.Format.continuesIdentifier = true := by
    refine Model.all_fieldName (fun c hc => ?_) (fun c hc => ?_) a column
    · simp [Go.Format.continuesIdentifier, Go.Format.startsIdentifier,
        Text.isAlphabetic_of_isAlpha hc]
    · simp [Go.Format.continuesIdentifier, Text.isNumeric_of_isDigit hc]
  have hkinds : (fieldName a column).all (fun c => Text.isLetter c || c.isDigit) = true := by
    refine Model.all_fieldName (fun c hc => ?_) (fun c hc => ?_) a column
    · simp [hc]
    · simp [hc]
  cases hname : fieldName a column with
  | nil => simp [Go.Format.isIdentifier, BeginsWithLetter]
  | cons c t =>
      rw [hname] at hcontinues hkinds
      rw [List.all_cons, Bool.and_eq_true] at hcontinues
      have hkind := List.all_eq_true.1 hkinds c List.mem_cons_self
      rw [Bool.or_eq_true] at hkind
      rw [Go.Format.isIdentifier, hcontinues.2, Bool.and_true, BeginsWithLetter, List.head?_cons,
        Option.any_some]
      obtain hletter | hdigit := hkind
      · simp [hletter, Go.Format.startsIdentifier, Text.isAlphabetic_of_isAlpha hletter]
      · have hletter : Text.isLetter c = false := Text.isAlpha_of_isDigit hdigit
        rw [startsIdentifier_of_isDigit hdigit, hletter]

/-! ### Acronyms -/

theorem head?_fieldName (a : Acronyms) (column : Text) :
    (fieldName a column).head? = (camel a column).head? := by
  have hid : ∀ t, (capitalizeId t).head? = t.head? := by
    intro t
    fun_cases capitalizeId t <;> rfl
  have hurl : ∀ t, (capitalizeUrl t).head? = t.head? := by
    intro t
    fun_cases capitalizeUrl t <;> rfl
  rw [fieldName, hurl, hid]

theorem map_isLetter_of_letters {w : Text} (hw : ∀ c ∈ w, Text.isLetter c = true) :
    w.map Text.isLetter = List.replicate w.length true := by
  rw [List.eq_replicate_iff]
  simpa using hw

/-- The letters of a word are as many whether it is an acronym or not. -/
theorem map_isLetter_text (a : Acronyms) (w : Text) :
    (Piece.text a (.word w)).map Text.isLetter =
      List.replicate (capitalized w).length true := by
  have hletters : ∀ c ∈ capitalized w, Text.isLetter c = true := fun c =>
    isLetter_of_mem_capitalized
  have hlength : (a.spell (capitalized w)).length = (capitalized w).length := by
    unfold Acronyms.spell Text.upper
    split
    · exact List.length_map _
    · rfl
  rw [← hlength]
  exact map_isLetter_of_letters fun c => isLetter_of_mem_spell hletters

theorem map_isLetter_camel (a b : Acronyms) (name : Text) :
    (camel a name).map Text.isLetter = (camel b name).map Text.isLetter := by
  rw [camel, camel, List.map_flatMap, List.map_flatMap]
  congr 1
  funext piece
  cases piece with
  | word w => rw [map_isLetter_text, map_isLetter_text]
  | mark c => rfl

theorem beginsWithLetter_fieldName_congr (a b : Acronyms) (column : Text) :
    BeginsWithLetter (fieldName a column) ↔ BeginsWithLetter (fieldName b column) := by
  have hhead : ∀ t : Text, t.head?.any Text.isLetter = (t.map Text.isLetter).head?.any id := by
    intro t
    cases t <;> rfl
  unfold BeginsWithLetter
  rw [head?_fieldName, head?_fieldName, hhead, hhead, map_isLetter_camel a b]

end SchemaModels.Naming

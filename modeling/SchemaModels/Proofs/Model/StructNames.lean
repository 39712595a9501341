import SchemaModels.Proofs.Model.FieldNames
import SchemaModels.Proofs.Model.SingleColumns
import SchemaModels.Proofs.Naming.CamelWords
import SchemaModels.Proofs.Text.Ends

/-!
# Names of structs

But for the case of its letters, a name in camel case is what is left of the name when all that is no
letter and no digit is deleted (`upper_camel`). So whether it begins with a letter depends on the
first letter or digit of the name, while the guard on the prefix of a table looks at the first
character behind the prefix, whatever it is: `beginsWithLetter_structOf_iff` says which names are
spoiled when the prefix is taken away.
-/

namespace SchemaModels

namespace Naming

/-! ### The characters that are kept -/

/-- A character that camel case keeps. -/
def isKept (c : Char) : Bool := Text.isLetter c || c.isDigit

theorem isKept_of_isBlank {c : Char} (h : Text.isBlank c = true) : isKept c = false := by
  refine Bool.eq_false_iff.2 fun hkept => ?_
  obtain hletter | hdigit := Bool.or_eq_true_iff.1 hkept
  · rw [Text.isBlank_of_isAlpha hletter] at h
    cases h
  · rw [Text.isBlank_of_isDigit hdigit] at h
    cases h

theorem upper_spell (a : Acronyms) (w : Text) : Text.upper (a.spell w) = Text.upper w := by
  unfold Acronyms.spell
  split
  · simp [Text.upper, Text.toUpper_toUpper]
  · rfl

theorem upper_capitalized (w : Text) :
    Text.upper (capitalized w) = Text.upper (w.filter Text.isLetter) := by
  rw [capitalized_eq]
  split
  · exact upper_capitalize _
  · rfl

theorem upper_word (a : Acronyms) (w : Text) :
    Text.upper (Piece.text a (.word w)) = Text.upper (w.filter Text.isLetter) := by
  rw [Piece.text, upper_spell, upper_capitalized]

theorem text_mark {c : Char} (h : isMark c = true) (a : Acronyms) :
    Piece.text a (.mark c) = [c].filter isKept := by
  cases hdigit : c.isDigit <;> simp [Piece.text, isKept, hdigit, isLetter_of_isMark h]

theorem upper_append (t u : Text) : Text.upper (t ++ u) = Text.upper t ++ Text.upper u :=
  List.map_append

/-- In capitals, what is written for some stretches is what is kept of them. -/
theorem upper_flatMap_pieces (a : Acronyms) (t : Text) :
    Text.upper ((pieces t).flatMap (Piece.text a)) = Text.upper (t.filter isKept) := by
  induction t with
  | nil => rfl
  | cons c t ih =>
      rw [← List.singleton_append, List.filter_append, upper_append, ← ih]
      cases hmark : isMark c with
      | true =>
          rw [List.singleton_append, pieces_mark hmark, List.flatMap_cons, upper_append,
            text_mark hmark]
      | false =>
          have hkept : [c].filter isKept = [c].filter Text.isLetter := by
            have hdigit := (Bool.or_eq_false_iff.1 hmark).1
            simp [isKept, hdigit, List.filter_cons]
          rw [hkept, List.singleton_append, pieces, if_neg (by simpa [isMark] using hmark)]
          split
          · rename_i w ps hpieces
            rw [hpieces, List.flatMap_cons, List.flatMap_cons, upper_append, upper_append,
              upper_word, upper_word, ← List.singleton_append, List.filter_append, upper_append,
              List.append_assoc]
          · rw [List.flatMap_cons, upper_append, upper_word]

/-- But for the case of its letters, a name in camel case is what is kept of the name. -/
theorem upper_camel (a : Acronyms) (name : Text) :
    Text.upper (camel a name) = Text.upper (name.filter isKept) := by
  obtain ⟨s, u, hname, hs, hu⟩ := Text.exists_trim name
  have hblanks : ∀ {v : Text}, v.all Text.isBlank = true → v.filter isKept = [] := by
    intro v hv
    refine List.filter_eq_nil_iff.2 fun c hc => ?_
    rw [isKept_of_isBlank (List.all_eq_true.1 hv c hc)]
    exact Bool.false_ne_true
  have hkept : name.filter isKept = (Text.trim name).filter isKept := by
    rw [hname, List.filter_append, List.filter_append, hblanks hs, hblanks hu, List.nil_append,
      List.append_nil, ← hname]
  rw [camel, upper_flatMap_pieces, hkept]

/-- A name in camel case begins with a letter if the first letter or digit of the name is one. -/
theorem beginsWithLetter_camel_iff (a : Acronyms) (name : Text) :
    BeginsWithLetter (camel a name) ↔ (name.find? isKept).any Text.isLetter = true := by
  have hupper : ∀ t : Text, (Text.upper t).head?.any Text.isLetter = t.head?.any Text.isLetter := by
    intro t
    cases t with
    | nil => rfl
    | cons c t => exact Text.isLetter_toUpper_eq c
  rw [BeginsWithLetter, ← hupper, upper_camel, hupper, List.head?_filter]

end Naming

namespace Model

open Ddl (Table)

/-! ### The prefix of a table -/

/-- The text is what a prefix is taken away for: it begins with a character that is no numeral. -/
def isLeftByPrefix (rest : Text) : Bool := rest.head?.any (!Text.isNumeric ·)

theorem stripTablePrefix_append {tablePrefix : Text} (hne : tablePrefix ≠ []) (rest : Text) :
    stripTablePrefix tablePrefix (tablePrefix ++ rest) =
      (if isLeftByPrefix rest then rest else tablePrefix ++ rest, true) := by
  rw [stripTablePrefix, if_neg hne, Text.after?_append]
  cases rest with
  | nil => rfl
  | cons c t => cases hc : Text.isNumeric c <;> simp [isLeftByPrefix, hc]

theorem stripTablePrefix_of_ne {tablePrefix name : Text}
    (h : tablePrefix = [] ∨ ∀ rest, name ≠ tablePrefix ++ rest) :
    stripTablePrefix tablePrefix name = (name, false) := by
  unfold stripTablePrefix
  split
  · rfl
  · rename_i hne
    have hnone : Text.after? tablePrefix name = none := by
      cases hafter : Text.after? tablePrefix name with
      | none => rfl
      | some rest => exact absurd (Text.eq_append_of_after? hafter) (h.resolve_left hne rest)
    rw [hnone]

/-- The prefix is taken away although what is behind it is no name: of its letters and digits the
first one is a digit, or there are none. -/
def PrefixSpoils (tablePrefix name : Text) : Prop :=
  tablePrefix ≠ [] ∧ ∃ rest, name = tablePrefix ++ rest ∧ isLeftByPrefix rest = true ∧
    (rest.find? Naming.isKept).any Text.isLetter = false

theorem prefixSpoils_append_iff {tablePrefix : Text} (hne : tablePrefix ≠ []) (rest : Text) :
    PrefixSpoils tablePrefix (tablePrefix ++ rest) ↔ isLeftByPrefix rest = true ∧
      (rest.find? Naming.isKept).any Text.isLetter = false := by
  constructor
  · rintro ⟨-, rest', heq, h⟩
    rwa [List.append_cancel_left heq]
  · exact fun h => ⟨hne, rest, rfl, h⟩

theorem name_of_structOf {o : Options} {t : Table} {s : Go.Struct} (h : structOf o t = .ok s) :
    s.name = Naming.camel o.acronyms (stripTablePrefix o.tablePrefix t.name).1 := by
  rw [structOf_eq] at h
  obtain ⟨fields, -, rfl⟩ := map_eq_ok_iff.1 h
  rfl

/-- A table whose whole name begins with a letter in camel case has a struct whose name does so too,
unless the prefix spoils it. -/
theorem beginsWithLetter_structOf_iff {o : Options} {t : Table} {s : Go.Struct}
    (h : structOf o t = .ok s)
    (hname : Naming.BeginsWithLetter (Naming.camel o.acronyms t.name)) :
    Naming.BeginsWithLetter s.name ↔ ¬ PrefixSpoils o.tablePrefix t.name := by
  rw [name_of_structOf h]
  by_cases hmatch : o.tablePrefix ≠ [] ∧ ∃ rest, t.name = o.tablePrefix ++ rest
  · obtain ⟨hne, rest, hrest⟩ := hmatch
    rw [hrest] at hname ⊢
    rw [stripTablePrefix_append hne, prefixSpoils_append_iff hne]
    cases hleft : isLeftByPrefix rest with
    | true =>
        rw [if_pos rfl, Naming.beginsWithLetter_camel_iff]
        simp
    | false =>
        rw [if_neg Bool.false_ne_true]
        exact iff_of_true hname fun hspoils => absurd hspoils.1 Bool.false_ne_true
  · have hkeeps : o.tablePrefix = [] ∨ ∀ rest, t.name ≠ o.tablePrefix ++ rest := by
      by_cases hnil : o.tablePrefix = []
      · exact Or.inl hnil
      · exact Or.inr fun rest hrest => hmatch ⟨hnil, rest, hrest⟩
    rw [stripTablePrefix_of_ne hkeeps]
    refine iff_of_true hname ?_
    rintro ⟨hne, rest, hrest, -⟩
    exact hmatch ⟨hne, rest, hrest⟩

/-- A separator and a character that is dropped stand between the prefix and the first letter. -/
def codesTable : Table where
  name := "t__é-codes2"
  columns := [{ name := "id", type := { dataType := .sized .int none } }]

theorem beginsWithLetter_structOf_codesTable :
    ∃ s, structOf { tablePrefix := "t_" } codesTable = .ok s ∧
      Naming.BeginsWithLetter (Naming.camel .standard codesTable.name) ∧
      ¬ PrefixSpoils "t_" codesTable.name ∧ Naming.BeginsWithLetter s.name := by
  have hok : (structOf { tablePrefix := "t_" } codesTable).toOption.isSome = true := by
    decide +kernel
  have hname : Naming.BeginsWithLetter (Naming.camel .standard codesTable.name) := by decide +kernel
  have hspoils : ¬ PrefixSpoils "t_" codesTable.name := by
    have hname : codesTable.name = "t_".toList ++ "_é-codes2".toList := by decide
    rw [hname, prefixSpoils_append_iff (by decide)]
    decide +kernel
  obtain ⟨s, hs⟩ := Option.isSome_iff_exists.1 hok
  replace hs := eq_ok_of_toOption hs
  exact ⟨s, hs, hname, hspoils, (beginsWithLetter_structOf_iff hs hname).2 hspoils⟩

/-- A prefix without the separator behind it. -/
theorem prefix_leaves_no_letter :
    Naming.BeginsWithLetter (Naming.camel .standard "t_2fa") ∧
      (structOf { tablePrefix := "t" } { codesTable with name := "t_2fa" }).toOption.map (·.name) =
        some ("2Fa" : Text) ∧
      ¬ Naming.BeginsWithLetter "2Fa" ∧
      Naming.BeginsWithLetter (Naming.camel .standard "t_") ∧
      (structOf { tablePrefix := "t" } { codesTable with name := "t_" }).toOption.map (·.name) =
        some ([] : Text) := by
  decide +kernel

end Model

end SchemaModels

import SchemaModels.Model.Tag
import SchemaModels.Proofs.Ddl.ParsedTables
import SchemaModels.Proofs.Ddl.SingleColumn

/-!
# The range of integers

The digits of a number are read before the sign in front of them or the use of the number is known,
as an integer of 64 bits with a sign. So of the integers that a default value can hold all but the
least one are read from their numerals, and of the counters that a table can hold only those of the
lower half (`integers_read_back`).
-/

namespace SchemaModels.Ddl

/-! ### Numerals with a sign -/

theorem spells_signedNumeral {n : Int} (h : -2 ^ 63 < n) (h' : n < 2 ^ 63) :
    Spells (Text.signedNumeral n) (Literal.integer n).kinds := by
  cases n with
  | ofNat n => exact spells_numeral (Int.ofNat_lt.1 h')
  | negSucc n =>
    have hdigits : Spells (Text.numeral (n + 1)) [.integer (n + 1)] := spells_numeral (by omega)
    obtain ⟨c, r, hn, hbegins⟩ := exists_numeral_eq_cons (n + 1)
    have hhyphen : c ≠ '-' := by
      rintro rfl
      exact absurd (hbegins ['-', ' ']).2.1 (by decide)
    intro u hu
    have hbegin : Begins '-' (Text.numeral (n + 1) ++ u) := by
      refine ⟨rfl, ?_, by decide⟩
      simp [Lexer.opensLine, hn, hhyphen]
    have hminus := kindsOf_symbol hbegin (by decide) rfl
    rw [hdigits u hu] at hminus
    exact hminus

/-! ### Default values -/

def bigintColumn (n : Int) : Column where
  name := "c"
  type := { dataType := .sized .bigint none }
  options := [.default (.literal (.integer n))]

theorem parses_sizedWord {w : Text} {k : SizedType} (h : TypeForm.ofWord? w = some (.sized k)) :
    Parses Parse.fieldType [.identifier w] { dataType := .sized k none } BehindType := by
  have htype : Parses Parse.dataType [.identifier w] (.sized k none) EndsType := by
    refine (Parse.parses_name w .dataType).cons ?_
    rw [h]
    have hlength := (Parse.parses_length? none).bind_pure fun w => DataType.sized k w
    exact hlength.mono fun _ hend => hend.1
  exact Parse.parses_fieldTypeOf (t := { dataType := .sized k none }) htype rfl rfl

theorem parse_default (defaults : TableDefaults) {n : Int} (h : -2 ^ 63 < n) (h' : n < 2 ^ 63) :
    parse defaults (singleColumnText ("BIGINT DEFAULT " ++ Text.signedNumeral n) []) =
      .ok [.createTable (singleColumn defaults (bigintColumn n) [])] := by
  have hspells : Spells (("BIGINT" : Text) ++ ' ' :: (Keyword.default.spelling ++
      ' ' :: Text.signedNumeral n)) ([.identifier "BIGINT"] ++ _) :=
    (spells_identifier (by decide) (by decide)).then
      ((spells_keyword .default).then (spells_signedNumeral h h'))
  have hcolumn := Parse.parses_columnOf (c := bigintColumn n)
    (parses_sizedWord (w := "BIGINT") (by decide)) rfl (List.forall_mem_singleton.2 ⟨h, h'⟩)
  refine parse_singleColumn_without_options defaults hspells ?_
  simpa [bigintColumn, ColumnOption.kinds] using hcolumn

/-- A default value that is read as an integer is none below the integers of the lexer. -/
theorem lt_of_parse_default {defaults : TableDefaults} {source : Text} {n : Int}
    (h : parse defaults source = .ok [.createTable (singleColumn defaults (bigintColumn n) [])]) :
    -2 ^ 63 < n ∧ n < 2 ^ 63 := by
  have hparsed := isParsed_of_mem h List.mem_cons_self
  exact (hparsed.columns _ List.mem_cons_self).options _ List.mem_cons_self

/-! ### Counters -/

def counterColumn : Column where
  name := "c"
  type := { dataType := .sized .int none }

theorem kindsOf_counter {n : Nat} (h : n < 2 ^ 63) :
    kindsOf (" AUTO_INCREMENT=" ++ Text.numeral n) =
      [.keyword .autoIncrement, .symbol .equal, .integer n] := by
  have hequal : kindsOf ('=' :: Text.numeral n) = .symbol .equal :: kindsOf (Text.numeral n) :=
    kindsOf_symbol (begins_of_not_mem rfl (by decide) _) (by decide) rfl
  have hword := kindsOf_word (w := Keyword.autoIncrement.spelling) (u := '=' :: Text.numeral n)
    (by decide) (by
      intro d hd
      cases hd
      decide +kernel)
  rw [Keyword.ofText?_spelling, hequal, kindsOf_numeral, if_pos h] at hword
  exact (kindsOf_space _).trans hword

theorem parses_counter {n : Nat} :
    Parses Parse.tableOptions [.keyword .autoIncrement, .symbol .equal, .integer n]
      [.autoIncrement (.ofNat n)] (· = .eof) := by
  have hinteger : Parses Parse.integer [.integer n] n Any :=
    Parse.parses_kind_bind (Parse.parses_advance.cons (.pure n))
  have hequals : Parses Parse.equals [.symbol .equal] () Any :=
    (Parse.parses_accept (.symbol .equal)).cons (.pure ())
  have hoption : Parses Parse.tableOption
      [.keyword .autoIncrement, .symbol .equal, .integer n]
      (some [.autoIncrement (.ofNat n)]) Any := by
    refine (Parse.parses_accept_of_ne (.symbol .comma)).look ?_ fun _ _ => nofun
    refine Parse.parses_kind_bind (Parse.parses_advance.cons (hequals.cons ?_))
    exact hinteger.bind_pure fun n => some [TableOption.autoIncrement (.ofNat n)]
  have hmany := Parse.parses_many (fun n => [.autoIncrement (.ofNat n)])
    (fun n => [.keyword .autoIncrement, .symbol .equal, .integer n]) Any
    (fun m (hm : m ∈ [n]) => by
      rw [List.mem_singleton.1 hm]
      exact hoption) (fun m _ => ⟨_, _, rfl, trivial⟩) Parse.parses_no_tableOption
    fun _ _ => trivial
  exact hmany.bind_pure List.flatten

theorem parse_counter (defaults : TableDefaults) {m : UInt64} (h : m.toNat < 2 ^ 63) :
    parse defaults (singleColumnText "INT" (" AUTO_INCREMENT=" ++ Text.numeral m.toNat)) =
      .ok [.createTable (singleColumn defaults counterColumn [.autoIncrement m])] := by
  have hcolumn := Parse.parses_columnOf (c := counterColumn)
    (parses_sizedWord (w := "INT") (by decide)) rfl nofun
  have hoptions := parses_counter (n := m.toNat)
  rw [UInt64.ofNat_toNat] at hoptions
  exact parse_singleColumn defaults (spells_identifier (by decide) (by decide)) hcolumn
    (kindsOf_counter h) hoptions

theorem lt_of_parse_counter {defaults : TableDefaults} {source : Text} {m : UInt64}
    (h : parse defaults source =
      .ok [.createTable (singleColumn defaults counterColumn [.autoIncrement m])]) :
    m.toNat < 2 ^ 63 :=
  (isParsed_of_mem h List.mem_cons_self).options (.autoIncrement m) List.mem_cons_self

/-! ### Both ranges -/

theorem kind_integer_lt {source : Text} {t : Token} (ht : t ∈ tokens source) {n : Nat}
    (hn : t.kind = .integer n) : n < 2 ^ 63 := by
  obtain ht | ht := List.mem_append.1 ht
  · exact integer_lt_of_mem ht hn
  · rw [List.mem_singleton.1 ht] at hn
    cases hn

theorem ne_minValue_iff (n : Int64) : n ≠ Int64.minValue ↔ -2 ^ 63 < n.toInt := by
  have hle : -2 ^ 63 ≤ n.toInt := Int64.le_toInt n
  have heq : n = Int64.minValue ↔ n.toInt = -2 ^ 63 := Int64.toInt_inj.symm
  rw [Ne, heq]
  omega

/-- Every integer but the least one is read from its numeral as the default of a column, and is
printed as that numeral. A counter is read from its numeral if an integer with a sign can hold it.
Integers of the lexer can be negated and converted without loss. -/
theorem integers_read_back (defaults : TableDefaults) :
    (∀ n : Int64,
      parse defaults (singleColumnText ("BIGINT DEFAULT " ++ Text.signedNumeral n.toInt) []) =
          .ok [.createTable (singleColumn defaults (bigintColumn n.toInt) [])] ↔
        n ≠ Int64.minValue) ∧
    (∀ n : Int64,
      Model.defaultText (.literal (.integer n.toInt)) = Text.signedNumeral n.toInt) ∧
    (∀ m : UInt64,
      parse defaults (singleColumnText "INT" (" AUTO_INCREMENT=" ++ Text.numeral m.toNat)) =
          .ok [.createTable (singleColumn defaults counterColumn [.autoIncrement m])] ↔
        m.toNat < 2 ^ 63) ∧
    ∀ source, ∀ t ∈ tokens source, ∀ n, t.kind = .integer n →
      (-Int64.ofNat n).toInt = -n ∧ (UInt64.ofNat n).toNat = n := by
  refine ⟨fun n => ?_, fun n => rfl, fun m => ?_, fun source t ht n hn => ?_⟩
  · rw [ne_minValue_iff]
    exact ⟨fun h => (lt_of_parse_default h).1, fun h => parse_default defaults h (Int64.toInt_lt n)⟩
  · exact ⟨lt_of_parse_counter, parse_counter defaults⟩
  · have hlt := kind_integer_lt ht hn
    refine ⟨?_, UInt64.toNat_ofNat_of_lt' (Nat.lt_trans hlt (by decide))⟩
    rw [Int64.toInt_neg, Int64.toInt_ofNat_of_lt (by omega),
      Int.bmod_eq_of_le (by omega) (by omega)]

theorem integers_read_back_at_ends :
    parse {} (singleColumnText "BIGINT DEFAULT -9223372036854775807" []) =
        .ok [.createTable (singleColumn {} (bigintColumn (-9223372036854775807)) [])] ∧
      parse {} (singleColumnText "INT" " AUTO_INCREMENT=9223372036854775807") =
        .ok [.createTable
          (singleColumn {} counterColumn [.autoIncrement 9223372036854775807])] := by
  have hall := integers_read_back {}
  have hdefault := (hall.1 (-9223372036854775807)).2 (by decide)
  have hcounter := (hall.2.2.1 9223372036854775807).2 (by decide)
  exact ⟨hdefault, hcounter⟩

/-- The least integer of 64 bits, and the least counter that has no sign to spare. -/
theorem integers_refused_behind_ends :
    parse {} (singleColumnText ("BIGINT DEFAULT " ++ Text.signedNumeral Int64.minValue.toInt) []) =
        .error ⟨.unexpected .number (.fault .integerRange), ⟨34, 53⟩⟩ ∧
      parse {} (singleColumnText "INT" (" AUTO_INCREMENT=" ++ Text.numeral (2 ^ 63))) =
        .error ⟨.unexpected .integer (.fault .integerRange), ⟨38, 57⟩⟩ := by
  decide +kernel

end SchemaModels.Ddl

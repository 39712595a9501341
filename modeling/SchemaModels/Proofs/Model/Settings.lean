import SchemaModels.Model.Tag

/-!
# Settings of a column

The settings under `gorm` are those for a column's name and type, those for its options in their
order, and those that its being a key leads to (`columnSettings_fst`). A setting is a key with or
without a value (`Setting.text_eq`), and the values are the column's name, its type and its defaults
(`value_cases`).
-/

namespace SchemaModels.Model

open Ddl (Column ColumnOption)

/-- The key of a setting, and its value if it has one. -/
def Setting.entry : Setting → Text × Option Text
  | .column n => ("column", some n)
  | .type d => ("type", some d)
  | .primaryKey => ("primary_key", none)
  | .autoIncrement => ("AUTO_INCREMENT", none)
  | .default v => ("default", some v)
  | .unique => ("unique", none)
  | .notNull => ("NOT NULL", none)

/-- The text of a key and a value. -/
def entryText (e : Text × Option Text) : Text :=
  match e.2 with
  | some v => e.1 ++ ':' :: v
  | none => e.1

theorem Setting.text_eq (x : Setting) : x.text = entryText x.entry := by
  cases x <;> rfl

/-- The characters of the keys. -/
def isKeyLetter (c : Char) : Bool := c.isAlpha || c == '_' || c == ' '

theorem Setting.all_key (x : Setting) : x.entry.1.all isKeyLetter = true := by
  cases x <;> rfl

theorem Setting.mem_text {x : Setting} {ch : Char} (h : ch ∈ x.text) :
    isKeyLetter ch = true ∨ ch = ':' ∨ ∃ v, x.entry.2 = some v ∧ ch ∈ v := by
  have hkey : ∀ d ∈ x.entry.1, isKeyLetter d = true := List.all_eq_true.1 x.all_key
  rw [x.text_eq, entryText] at h
  split at h
  · rename_i v hv
    rcases List.mem_append.1 h with h | h
    · exact Or.inl (hkey ch h)
    · rcases List.mem_cons.1 h with rfl | h
      · exact Or.inr (Or.inl rfl)
      · exact Or.inr (Or.inr ⟨v, hv, h⟩)
  · exact Or.inl (hkey ch h)

/-! ### Options -/

theorem mem_keys_optionSettings {name v : Text} {keys : TextSet} {os : List ColumnOption} :
    v ∈ (optionSettings name keys os).2 ↔ v ∈ keys ∨ (v = name ∧ .primaryKey ∈ os) := by
  fun_induction optionSettings name keys os with
  | case1 keys => simp
  | case2 keys os settings after heq ih =>
      rw [heq] at ih
      simp only [ih, TextSet.mem_insert, List.mem_cons, true_or, and_true]
      grind
  | case3 keys o os hne settings after heq ih =>
      rw [heq] at ih
      have ho : o ≠ .primaryKey := hne
      simp only [ih, List.mem_cons, ho.symm, false_or]

theorem mem_optionSettings {name : Text} {keys : TextSet} {os : List ColumnOption} {x : Setting}
    (h : x ∈ (optionSettings name keys os).1) :
    x = .primaryKey ∨ ∃ o ∈ os, settingOf? o = some x := by
  fun_induction optionSettings name keys os with
  | case1 keys => cases h
  | case2 keys os settings after heq ih =>
      rw [heq] at ih
      dsimp only at h
      split at h
      · exact (ih h).imp_right fun ⟨o, ho, hx⟩ => ⟨o, List.mem_cons_of_mem _ ho, hx⟩
      · rcases List.mem_cons.1 h with rfl | h
        · exact Or.inl rfl
        · exact (ih h).imp_right fun ⟨o, ho, hx⟩ => ⟨o, List.mem_cons_of_mem _ ho, hx⟩
  | case3 keys o os hne settings after heq ih =>
      rw [heq] at ih
      rcases List.mem_append.1 h with h | h
      · exact Or.inr ⟨o, List.mem_cons_self, by simpa using h⟩
      · exact (ih h).imp_right fun ⟨o, ho, hx⟩ => ⟨o, List.mem_cons_of_mem _ ho, hx⟩

theorem eq_default_of_settingOf? {o : ColumnOption} {x : Setting} {v : Text}
    (h : settingOf? o = some x) (hv : x.entry.2 = some v) :
    ∃ e, o = .default e ∧ v = defaultText e := by
  cases o <;> simp only [settingOf?, Option.some.injEq, reduceCtorEq] at h
  case autoIncrement =>
    cases h
    cases hv
  case uniqueKey =>
    cases h
    cases hv
  case default e =>
    split at h
    · cases h
    · cases h
      exact ⟨e, rfl, (Option.some.inj hv).symm⟩

/-! ### Columns -/

theorem isNotNull_iff (c : Column) : c.isNotNull = true ↔ .notNull ∈ c.options := by
  unfold Column.isNotNull
  rw [List.any_eq_true]
  constructor
  · rintro ⟨o, ho, hn⟩
    cases o with
    | notNull => exact ho
    | _ => cases hn
  · intro h
    exact ⟨_, h, rfl⟩

/-- The column is a key: its name is among the keys known before it, or an option says so. -/
def IsMarked (keys : TextSet) (c : Column) : Prop := c.name ∈ keys ∨ .primaryKey ∈ c.options

instance (keys : TextSet) (c : Column) : Decidable (IsMarked keys c) :=
  inferInstanceAs (Decidable (_ ∨ _))

variable (c : Column) (keys : TextSet) (withType : Bool)

theorem columnSettings_fst : (columnSettings c keys withType).1 =
    .column c.name :: (if withType then [.type c.type.declaration] else []) ++
      (if c.name ∈ keys then [.primaryKey] else []) ++
      (optionSettings c.name keys c.options).1 ++
      (if .notNull ∈ c.options ∧ ¬ IsMarked keys c then [.notNull] else []) := by
  have hkeys : c.name ∈ (optionSettings c.name keys c.options).2 ↔ IsMarked keys c := by
    simp [mem_keys_optionSettings, IsMarked]
  have hnotNull : (c.isNotNull && decide (c.name ∉ (optionSettings c.name keys c.options).2)) =
      decide (.notNull ∈ c.options ∧ ¬ IsMarked keys c) := by
    rw [Bool.eq_iff_iff, Bool.and_eq_true, isNotNull_iff, decide_eq_true_eq, decide_eq_true_eq,
      hkeys]
  unfold columnSettings
  dsimp only
  rw [hnotNull]
  simp only [decide_eq_true_eq]

variable {c keys withType}

/-- The values of the settings are the column's name, its type and its defaults. -/
theorem value_cases {x : Setting} (hx : x ∈ (columnSettings c keys withType).1) {v : Text}
    (hv : x.entry.2 = some v) :
    v = c.name ∨ (withType = true ∧ v = c.type.declaration) ∨
      ∃ e, .default e ∈ c.options ∧ v = defaultText e := by
  simp only [columnSettings_fst, List.cons_append, List.mem_cons, List.mem_append, or_assoc] at hx
  rcases hx with rfl | hx | hx | hx | hx
  · exact Or.inl (Option.some.inj hv).symm
  · split at hx
    · rename_i htype
      rw [List.mem_singleton.1 hx] at hv
      exact Or.inr (Or.inl ⟨htype, (Option.some.inj hv).symm⟩)
    · cases hx
  · split at hx
    · rw [List.mem_singleton.1 hx] at hv
      cases hv
    · cases hx
  · obtain rfl | ⟨o, ho, hx⟩ := mem_optionSettings hx
    · cases hv
    · obtain ⟨e, rfl, hv⟩ := eq_default_of_settingOf? hx hv
      exact Or.inr (Or.inr ⟨e, ho, hv⟩)
  · split at hx
    · rw [List.mem_singleton.1 hx] at hv
      cases hv
    · cases hx

end SchemaModels.Model

import SchemaModels.Proofs.Go.TagReading
import SchemaModels.Proofs.Model.Fields
import SchemaModels.Proofs.Model.SettingReading

/-!
# Tags read back

A column calls for settings, each a key with or without a value (`calledEntries`). They are what its
settings say (`map_entry_columnSettings`), and they are read back from its tag exactly if no
character of its name, its type and its defaults means something to a reader
(`tag_reads_back_iff`): a tag is written without escapes.
-/

namespace SchemaModels.Model

open Ddl (Column ColumnOption)
open Go.Tag

/-! ### What a column calls for -/

def flag (key : Text) : Text × Option Text := (key, none)

def valued (key value : Text) : Text × Option Text := (key, some value)

/-- The settings that a column's options call for, in their order. A column that is marked as a
primary key is not marked again. -/
def optionEntries : (isMarked : Bool) → List ColumnOption → List (Text × Option Text)
  | _, [] => []
  | isMarked, .primaryKey :: os =>
    (if isMarked then [] else [flag "primary_key"]) ++ optionEntries true os
  | isMarked, .autoIncrement :: os => flag "AUTO_INCREMENT" :: optionEntries isMarked os
  | isMarked, .uniqueKey :: os => flag "unique" :: optionEntries isMarked os
  | isMarked, .default e :: os =>
    (if defaultText e = [] then [] else [valued "default" (defaultText e)]) ++
      optionEntries isMarked os
  | isMarked, _ :: os => optionEntries isMarked os

/-- The settings that a column calls for where some primary keys are known. -/
def calledEntries (c : Column) (keys : TextSet) (withType : Bool) : List (Text × Option Text) :=
  valued "column" c.name ::
    (if withType then [valued "type" c.type.declaration] else []) ++
    (if c.name ∈ keys then [flag "primary_key"] else []) ++
    optionEntries (c.name ∈ keys) c.options ++
    (if .notNull ∈ c.options ∧ ¬ IsMarked keys c then [flag "NOT NULL"] else [])

theorem map_entry_optionSettings (name : Text) (keys : TextSet) (os : List ColumnOption) :
    (optionSettings name keys os).1.map Setting.entry = optionEntries (name ∈ keys) os := by
  have hprimaryKey : Setting.primaryKey.entry = flag "primary_key" := rfl
  fun_induction optionSettings name keys os with
  | case1 keys => rfl
  | case2 keys os settings after heq ih =>
      rw [heq] at ih
      simp only [TextSet.mem_insert, true_or, decide_true] at ih
      by_cases hname : name ∈ keys <;> simp [optionEntries, hname, ih, hprimaryKey]
  | case3 keys o os hne settings after heq ih =>
      rw [heq] at ih
      cases o with
      | primaryKey => exact absurd rfl hne
      | default e =>
          have hdefault : (Setting.default (defaultText e)).entry =
              valued "default" (defaultText e) := rfl
          by_cases he : defaultText e = [] <;>
            simp [optionEntries, settingOf?, he, ih, hdefault]
      | autoIncrement => exact congrArg (flag "AUTO_INCREMENT" :: ·) ih
      | uniqueKey => exact congrArg (flag "unique" :: ·) ih
      | _ => exact ih

variable {c : Column} {keys : TextSet} {withType : Bool}

theorem map_entry_columnSettings : (columnSettings c keys withType).1.map Setting.entry =
    calledEntries c keys withType := by
  have htype : (if withType then [Setting.type c.type.declaration] else []).map Setting.entry =
      if withType then [valued "type" c.type.declaration] else [] := by
    cases withType <;> rfl
  have hkey : (if c.name ∈ keys then [Setting.primaryKey] else []).map Setting.entry =
      if c.name ∈ keys then [flag "primary_key"] else [] := by
    split <;> rfl
  have hnotNull : (if .notNull ∈ c.options ∧ ¬ IsMarked keys c then [Setting.notNull] else []).map
      Setting.entry =
      if .notNull ∈ c.options ∧ ¬ IsMarked keys c then [flag "NOT NULL"] else [] := by
    split <;> rfl
  simp only [columnSettings_fst, List.map_cons, List.map_append, htype, hkey, hnotNull,
    map_entry_optionSettings, calledEntries]
  rfl

theorem settingsText_columnSettings : settingsText (columnSettings c keys withType).1 =
    joinEntries (calledEntries c keys withType) := by
  have htext : Setting.text = entryText ∘ Setting.entry := funext Setting.text_eq
  rw [settingsText, joinEntries, ← map_entry_columnSettings, List.map_map, htext]

theorem default_mem_optionEntries {isMarked : Bool} {os : List ColumnOption} {e : Ddl.Expr}
    (h : .default e ∈ os) (hne : defaultText e ≠ []) :
    valued "default" (defaultText e) ∈ optionEntries isMarked os := by
  fun_induction optionEntries isMarked os with
  | case1 => cases h
  | case2 isMarked os ih => exact List.mem_append_right _ (ih (by simpa using h))
  | case3 isMarked os ih => exact List.mem_cons_of_mem _ (ih (by simpa using h))
  | case4 isMarked os ih => exact List.mem_cons_of_mem _ (ih (by simpa using h))
  | case5 isMarked d os ih =>
      obtain h | h := List.mem_cons.1 h
      · cases h
        rw [if_neg hne]
        exact List.mem_append_left _ List.mem_cons_self
      · exact List.mem_append_right _ (ih h)
  | case6 isMarked o os _ _ _ hother ih =>
      obtain h | h := List.mem_cons.1 h
      · exact absurd h.symm (hother e)
      · exact ih h

/-! ### What can be read back -/

/-- No character of the text ends a value or a setting, or begins an escape. -/
def IsReadable (t : Text) : Prop := ∀ ch ∈ t, isPlain ch = true ∧ ch ≠ ';'

instance (t : Text) : Decidable (IsReadable t) := inferInstanceAs (Decidable (∀ ch ∈ t, _))

/-- The texts of a column that are written into its tag are readable. -/
structure HasReadableTexts (c : Column) (withType : Bool) : Prop where
  name : IsReadable c.name
  type : withType = true → IsReadable c.type.declaration
  default : ∀ e, .default e ∈ c.options → IsReadable (defaultText e)

theorem isReadable_of_isKeyLetter {ch : Char} (h : isKeyLetter ch = true) :
    isPlain ch = true ∧ ch ≠ ';' := by
  refine ⟨?_, ?_⟩
  · simp only [isPlain, Bool.and_eq_true, bne_iff_ne, ne_eq]
    refine ⟨⟨?_, ?_⟩, ?_⟩ <;> (rintro rfl; exact absurd h (by decide))
  · rintro rfl
    exact absurd h (by decide)

theorem isReadable_entryText (h : HasReadableTexts c withType) {e : Text × Option Text}
    (he : e ∈ calledEntries c keys withType) : IsReadable (entryText e) := by
  rw [← map_entry_columnSettings] at he
  obtain ⟨x, hx, rfl⟩ := List.mem_map.1 he
  rw [← x.text_eq]
  intro ch hch
  obtain hkey | rfl | ⟨v, hv, hch⟩ := Setting.mem_text hch
  · exact isReadable_of_isKeyLetter hkey
  · decide
  · obtain rfl | ⟨htype, rfl⟩ | ⟨d, hd, rfl⟩ := value_cases hx hv
    · exact h.name ch hch
    · exact h.type htype ch hch
    · exact h.default d hd ch hch

theorem colon_not_mem_key {e : Text × Option Text} (he : e ∈ calledEntries c keys withType) :
    ':' ∉ e.1 := by
  rw [← map_entry_columnSettings] at he
  obtain ⟨x, -, rfl⟩ := List.mem_map.1 he
  exact Text.not_mem_of_all x.all_key (by decide)

theorem IsReadable.of_valued {key v : Text} (h : IsReadable (entryText (valued key v))) :
    IsReadable v := fun ch hch =>
  h ch (List.mem_append_right key (List.mem_cons_of_mem ':' hch))

theorem hasReadableTexts_iff (keys : TextSet) : HasReadableTexts c withType ↔
    ∀ e ∈ calledEntries c keys withType, IsReadable (entryText e) := by
  refine ⟨fun h e he => isReadable_entryText h he, fun h => ⟨?_, fun htype => ?_, fun e he => ?_⟩⟩
  · exact (h _ List.mem_cons_self).of_valued
  · subst htype
    have hmem : valued "type" c.type.declaration ∈ calledEntries c keys true :=
      List.mem_append_left _ (List.mem_append_left _ (List.mem_append_left _
        (List.mem_cons_of_mem _ List.mem_cons_self)))
    exact (h _ hmem).of_valued
  · by_cases hne : defaultText e = []
    · rw [hne]
      exact nofun
    · have hmem : valued "default" (defaultText e) ∈ calledEntries c keys withType :=
        List.mem_append_left _ (List.mem_append_right _ (default_mem_optionEntries he hne))
      exact (h _ hmem).of_valued

/-! ### The tag -/

/-- What a reader of a tag finds under the two keys. -/
def ReadsAs (tag : Text) (json : Option Text) (entries : List (Text × Option Text)) : Prop :=
  lookup "json" tag = json ∧ (lookup "gorm" tag).map readSettings = some entries

instance (tag : Text) (json : Option Text) (entries : List (Text × Option Text)) :
    Decidable (ReadsAs tag json entries) := inferInstanceAs (Decidable (_ ∧ _))

theorem columnTag_true : columnTag c keys true withType =
    pair "json" c.name ++ ' ' :: pair "gorm" (joinEntries (calledEntries c keys withType)) := by
  rw [← settingsText_columnSettings]
  simp [columnTag, joinTags, tagPairs, Text.join, pair]

theorem columnTag_false : columnTag c keys false withType =
    pair "gorm" (joinEntries (calledEntries c keys withType)) := by
  rw [← settingsText_columnSettings]
  rfl

theorem isPlain_joinEntries (keys : TextSet) (h : HasReadableTexts c withType) :
    (joinEntries (calledEntries c keys withType)).all isPlain = true := by
  refine Text.all_join (by decide) fun t ht => ?_
  obtain ⟨e, he, rfl⟩ := List.mem_map.1 ht
  exact List.all_eq_true.2 fun ch hch => (isReadable_entryText h he ch hch).1

theorem readSettings_calledEntries (h : HasReadableTexts c withType) :
    readSettings (joinEntries (calledEntries c keys withType)) = calledEntries c keys withType := by
  refine readSettings_joinEntries (List.cons_ne_nil _ _) (fun e he => colon_not_mem_key he)
    (fun e he hc => (isReadable_entryText h he _ hc).2 rfl) fun hslash => ?_
  exact Text.not_mem_of_all (isPlain_joinEntries keys h) (by decide) hslash

/-- Settings that are read from their own text have readable texts. -/
theorem hasReadableTexts_of_readSettings
    (hplain : (joinEntries (calledEntries c keys withType)).all isPlain = true)
    (hread : readSettings (joinEntries (calledEntries c keys withType)) =
      calledEntries c keys withType) : HasReadableTexts c withType := by
  have hchars := List.all_eq_true.1 hplain
  have hslash : '\\' ∉ joinEntries (calledEntries c keys withType) :=
    Text.not_mem_of_all hplain (by decide)
  rw [hasReadableTexts_iff keys]
  intro e he ch hch
  refine ⟨hchars ch (Text.mem_join (List.mem_map_of_mem he) hch), ?_⟩
  rintro rfl
  rw [← hread] at he
  exact semicolon_not_mem_of_mem_readSettings hslash he hch

theorem isKey_json : ("json" : Text).all isKeyChar = true := by decide

theorem isKey_gorm : ("gorm" : Text).all isKeyChar = true := by decide

theorem gorm_ne_nil : ("gorm" : Text) ≠ [] := List.cons_ne_nil _ _

theorem json_ne_nil : ("json" : Text) ≠ [] := List.cons_ne_nil _ _

/-- A plain name in front does not get in the way of the settings. -/
theorem lookup_gorm_columnTag {withJson : Bool}
    (hname : withJson = true → c.name.all isPlain = true) :
    lookup "gorm" (columnTag c keys withJson withType) =
      lookup "gorm" (pair "gorm" (joinEntries (calledEntries c keys withType))) := by
  cases withJson with
  | false => rw [columnTag_false]
  | true =>
      rw [columnTag_true, lookup_pair_append "gorm" isKey_json json_ne_nil (hname rfl),
        if_neg (by decide), lookup_blank]

theorem lookup_json_columnTag {withJson : Bool} (h : HasReadableTexts c withType) :
    lookup "json" (columnTag c keys withJson withType) =
      if withJson then some c.name else none := by
  cases withJson with
  | false =>
      have hplain := isPlain_joinEntries keys h
      have hfound := lookup_pair_append "json" isKey_gorm gorm_ne_nil hplain []
      rw [List.append_nil, if_neg (by decide), lookup_nil] at hfound
      rw [columnTag_false, hfound]
      rfl
  | true =>
      have hname : c.name.all isPlain = true :=
        List.all_eq_true.2 fun ch hch => (h.name ch hch).1
      rw [columnTag_true, lookup_pair_append "json" isKey_json json_ne_nil hname, if_pos rfl]
      rfl

theorem readsAs_columnTag {withJson : Bool} (h : HasReadableTexts c withType) :
    ReadsAs (columnTag c keys withJson withType) (if withJson then some c.name else none)
      (calledEntries c keys withType) := by
  have hname : c.name.all isPlain = true := List.all_eq_true.2 fun ch hch => (h.name ch hch).1
  have hplain := isPlain_joinEntries keys h
  have hfound := lookup_pair_append "gorm" isKey_gorm gorm_ne_nil hplain []
  rw [List.append_nil, if_pos rfl] at hfound
  refine ⟨lookup_json_columnTag h, ?_⟩
  rw [lookup_gorm_columnTag fun _ => hname, hfound, Option.map_some, readSettings_calledEntries h]

/-- Settings that are read from a tag are the column's only if its texts are readable. The reader
would have to find as many characters as there are, and no escape gives more than it takes. -/
theorem hasReadableTexts_of_readsAs {withJson : Bool}
    (h : ReadsAs (columnTag c keys withJson withType) (if withJson then some c.name else none)
      (calledEntries c keys withType)) : HasReadableTexts c withType := by
  obtain ⟨hjson, hgorm⟩ := h
  obtain ⟨value, hvalue, hentries⟩ := Option.map_eq_some_iff.1 hgorm
  have hlength := length_joinEntries_readSettings value
  rw [hentries] at hlength
  have hname : withJson = true → c.name.all isPlain = true := by
    rintro rfl
    rw [columnTag_true] at hjson hvalue
    exact isPlain_of_lookup_pairs isKey_json json_ne_nil (by decide) hjson hvalue hlength
  rw [lookup_gorm_columnTag hname] at hvalue
  obtain ⟨rfl, hplain⟩ := isPlain_of_lookup_pair isKey_gorm gorm_ne_nil hvalue hlength
  exact hasReadableTexts_of_readSettings hplain hentries

/-- A column's tag is read back as its name and the settings that it calls for, in their order,
exactly if its texts are readable. -/
theorem tag_reads_back_iff (c : Column) (keys : TextSet) (withJson withType : Bool) :
    ReadsAs (columnTag c keys withJson withType) (if withJson then some c.name else none)
      (calledEntries c keys withType) ↔ HasReadableTexts c withType :=
  ⟨hasReadableTexts_of_readsAs, readsAs_columnTag⟩

/-- A column whose name holds a quote. -/
def quoteColumn : Column where
  name := "a\"b"
  type := { dataType := .sized .int none }

theorem quote_in_name_is_lost :
    columnTag quoteColumn .empty true false = "json:\"a\"b\" gorm:\"column:a\"b\"" ∧
      lookup "json" (columnTag quoteColumn .empty true false) = some ("a" : Text) ∧
      ¬ ReadsAs (columnTag quoteColumn .empty true false) (some quoteColumn.name)
        (calledEntries quoteColumn .empty false) := by
  have htag : columnTag quoteColumn .empty true false =
      "json:\"a\"b\" gorm:\"column:a\"b\"" := by decide +kernel
  have hjson : lookup "json" (columnTag quoteColumn .empty true false) = some ("a" : Text) := by
    rw [htag, lookup]
    rfl
  refine ⟨htag, hjson, fun hreads => ?_⟩
  rw [ReadsAs, hjson] at hreads
  exact absurd hreads.1 (by decide)

end SchemaModels.Model

import SchemaModels.Proofs.Model.Settings
import SchemaModels.Proofs.Text.Parts

/-!
# Reading settings

The value under `gorm` is read at its semicolons, of which a backslash can make one a part of a
setting, and each setting at its first colon. What is read is written in no more characters than it
was read from (`length_joinEntries_readSettings`), and settings without semicolons and backslashes
read back (`readSettings_joinEntries`).
-/

namespace SchemaModels.Model

/-- Puts a character before the first of some parts. -/
def putBefore (c : Char) : List Text → List Text
  | [] => [[c]]
  | part :: parts => (c :: part) :: parts

/-- The parts of a text between the semicolons that have no backslash before them. -/
def splitSettings : Text → List Text
  | [] => [[]]
  | '\\' :: ';' :: t => putBefore ';' (splitSettings t)
  | c :: t => if c = ';' then [] :: splitSettings t else putBefore c (splitSettings t)

/-- The key of a setting, and its value if there is a colon. -/
def readSetting : Text → Text × Option Text
  | [] => ([], none)
  | c :: t => if c = ':' then ([], some t) else (c :: (readSetting t).1, (readSetting t).2)

def readSettings (t : Text) : List (Text × Option Text) := (splitSettings t).map readSetting

theorem entryText_readSetting (t : Text) : entryText (readSetting t) = t := by
  induction t with
  | nil => rfl
  | cons c t ih =>
      unfold readSetting
      split
      · rename_i hc
        exact hc ▸ rfl
      · calc entryText (c :: (readSetting t).1, (readSetting t).2)
            = c :: entryText (readSetting t) := by
              unfold entryText
              dsimp only
              split <;> rfl
          _ = c :: t := by rw [ih]

theorem readSetting_entryText {e : Text × Option Text} (h : ':' ∉ e.1) :
    readSetting (entryText e) = e := by
  obtain ⟨key, value⟩ := e
  dsimp only at h
  induction key with
  | nil =>
      cases value with
      | none => rfl
      | some v => rfl
  | cons c key ih =>
      have hc : c ≠ ':' := fun he => h (he ▸ List.mem_cons_self)
      have hkey := ih fun hm => h (List.mem_cons_of_mem c hm)
      cases value <;> simp_all [entryText, readSetting]

/-! ### Semicolons -/

theorem splitSettings_ne_nil (t : Text) : splitSettings t ≠ [] := by
  fun_induction splitSettings t with
  | case1 => exact List.cons_ne_nil _ _
  | case2 t _ => unfold putBefore; split <;> exact List.cons_ne_nil _ _
  | case3 t _ _ => exact List.cons_ne_nil _ _
  | case4 c t _ _ _ => unfold putBefore; split <;> exact List.cons_ne_nil _ _

theorem splitSettings_eq_splitOn {t : Text} (h : '\\' ∉ t) :
    splitSettings t = Text.splitOn ';' t := by
  induction t with
  | nil => rfl
  | cons c t ih =>
      have hc : c ≠ '\\' := fun he => h (he ▸ List.mem_cons_self)
      have ht := ih fun hm => h (List.mem_cons_of_mem c hm)
      rw [splitSettings, Text.splitOn, ht]
      · rfl
      · exact fun _ hslash => absurd hslash hc

theorem length_join_putBefore (c : Char) {parts : List Text} (h : parts ≠ []) :
    (Text.join ";" (putBefore c parts)).length = (Text.join ";" parts).length + 1 := by
  cases parts with
  | nil => exact absurd rfl h
  | cons part parts => cases parts <;> simp [putBefore, Text.join]

theorem length_join_splitSettings (t : Text) :
    (Text.join ";" (splitSettings t)).length ≤ t.length := by
  fun_induction splitSettings t with
  | case1 => exact Nat.le_refl 0
  | case2 t ih =>
      rw [length_join_putBefore _ (splitSettings_ne_nil t)]
      simp only [List.length_cons]
      omega
  | case3 t _ ih =>
      cases hparts : splitSettings t with
      | nil => exact absurd hparts (splitSettings_ne_nil t)
      | cons part parts =>
          rw [hparts] at ih
          have hjoin : Text.join ";" ([] :: part :: parts) =
              ';' :: Text.join ";" (part :: parts) := rfl
          rw [hjoin, List.length_cons, List.length_cons]
          omega
  | case4 c t _ _ ih =>
      rw [length_join_putBefore _ (splitSettings_ne_nil t)]
      simp only [List.length_cons]
      omega

/-! ### Settings -/

def joinEntries (es : List (Text × Option Text)) : Text := Text.join ";" (es.map entryText)

theorem map_entryText_readSettings (t : Text) :
    (readSettings t).map entryText = splitSettings t := by
  simp [readSettings, entryText_readSetting, Function.comp_def]

theorem length_joinEntries_readSettings (t : Text) :
    (joinEntries (readSettings t)).length ≤ t.length := by
  rw [joinEntries, map_entryText_readSettings]
  exact length_join_splitSettings t

/-- Settings read back where nothing in them is taken for the end of one. -/
theorem readSettings_joinEntries {es : List (Text × Option Text)} (hne : es ≠ [])
    (hkey : ∀ e ∈ es, ':' ∉ e.1) (hsemicolon : ∀ e ∈ es, ';' ∉ entryText e)
    (hslash : '\\' ∉ joinEntries es) : readSettings (joinEntries es) = es := by
  have hsplit : Text.splitOn ';' (joinEntries es) = es.map entryText := by
    refine Text.splitOn_join (by simpa using hne) fun t ht => ?_
    obtain ⟨e, he, rfl⟩ := List.mem_map.1 ht
    exact hsemicolon e he
  have hread : ∀ e ∈ es, readSetting (entryText e) = e := fun e he =>
    readSetting_entryText (hkey e he)
  rw [readSettings, splitSettings_eq_splitOn hslash, hsplit, List.map_map]
  exact (List.map_congr_left hread).trans (List.map_id es)

/-- Nothing that is read from a text without backslashes holds a semicolon. -/
theorem semicolon_not_mem_of_mem_readSettings {t : Text} (hslash : '\\' ∉ t)
    {e : Text × Option Text} (he : e ∈ readSettings t) : ';' ∉ entryText e := by
  have hmem := List.mem_map_of_mem (f := entryText) he
  rw [map_entryText_readSettings, splitSettings_eq_splitOn hslash] at hmem
  exact Text.not_mem_of_mem_splitOn hmem

end SchemaModels.Model

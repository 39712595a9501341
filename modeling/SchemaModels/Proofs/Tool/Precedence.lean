import SchemaModels.Proofs.Tool.SetFlags
import SchemaModels.Proofs.Tool.UpdateGuard

/-!
# The order of profiles and flags

What the settings have for a key depends on the profile's values for that key alone, or on text and
file together (`item_congr`). So what a flag gives is not changed by the profile below it, and what
no flag gives comes from the profile. There is one exception: definitions can be given as a text or
as a file, the text goes before the file, and it does so also where the text is the profile's and
the file is the flag's (`flags_go_before_profile`).
-/

namespace SchemaModels.Tool

open Model (NullStyle)

namespace Key

/-- What the settings have for a key. A text and a file both are the input; the permission to
overwrite all models is no part of the settings. -/
abbrev Item : Key → Type
  | .sql | .file => Input
  | .table => TableFilter
  | .jobs => Option UInt64
  | .charset | .collation => Option Text
  | .nullStyle => NullStyle
  | .acronyms => Naming.Acronyms
  | .output | .tablePrefix | .columnPrefix | .package => Text
  | .jsonTag | .noNullType | .gormType | .forceTableName | .judgeUnsigned | .update => Bool
  | .enforcement => Unit

/-- The keys with the same item. -/
def peers : Key → List Key
  | .sql | .file => [.sql, .file]
  | k => [k]

theorem self_mem_peers (k : Key) : k ∈ k.peers := by cases k <;> decide

theorem peers_eq_singleton {k : Key} (hsql : k ≠ .sql) (hfile : k ≠ .file) : k.peers = [k] := by
  cases k with
  | sql => exact absurd rfl hsql
  | file => exact absurd rfl hfile
  | _ => rfl

end Key

namespace Settings

def item (s : Settings) : (k : Key) → k.Item
  | .sql | .file => s.input
  | .output => s.output
  | .table => s.tables
  | .update => s.update
  | .jobs => s.jobs
  | .charset => s.defaults.charset
  | .collation => s.defaults.collation
  | .jsonTag => s.options.jsonTag
  | .tablePrefix => s.options.tablePrefix
  | .columnPrefix => s.options.columnPrefix
  | .noNullType => s.options.noNullType
  | .nullStyle => s.options.nullStyle
  | .package => s.options.package
  | .gormType => s.options.gormType
  | .forceTableName => s.options.forceTableName
  | .judgeUnsigned => s.options.judgeUnsigned
  | .acronyms => s.options.acronyms
  | .enforcement => ()

/-- The items of the keys are all that there is to settings. -/
theorem ext_item {s t : Settings} (h : ∀ k, s.item k = t.item k) : s = t := by
  obtain ⟨input, output, tables, update, jobs, options, defaults⟩ := s
  obtain ⟨input', output', tables', update', jobs', options', defaults'⟩ := t
  have hdefaults : defaults = defaults' :=
    congr (congrArg Ddl.TableDefaults.mk (h .charset)) (h .collation)
  have hoptions : options = options' := by
    obtain ⟨⟩ := options
    obtain ⟨⟩ := options'
    simp only [Model.Options.mk.injEq]
    exact ⟨h .jsonTag, h .tablePrefix, h .columnPrefix, h .noNullType, h .nullStyle, h .package,
      h .gormType, h .forceTableName, h .judgeUnsigned, h .acronyms⟩
  simp only [Settings.mk.injEq]
  exact ⟨h .sql, h .output, h .table, h .update, h .jobs, hoptions, hdefaults⟩

/-- What settings were made from. -/
theorem exists_of_resolve {p : Profile} {s : Settings} (h : resolve p = .ok s) :
    ∃ i style, inputOf p = .ok i ∧ nullStyleOf p = .ok style ∧ s =
      { input := i
        tables := tablesOf p
        update := isOn (p.get .update)
        output := (p.get .output).getD ("." : Path)
        jobs := (p.get .jobs).map (max 1)
        options := optionsOf p style
        defaults := ⟨p.get .charset, p.get .collation⟩ } := by
  obtain ⟨i, hi, -⟩ := exists_of_bind_ok h
  obtain ⟨hguard, -⟩ := not_isUnguarded_of_resolve h
  rw [resolve_of_not_isUnguarded hguard hi] at h
  obtain ⟨style, hstyle, hs⟩ := map_eq_ok_iff.1 h
  exact ⟨i, style, hi, hstyle, hs.symm⟩

/-- An item depends on the values of its keys alone. -/
theorem item_congr {p q : Profile} {s t : Settings} (hp : resolve p = .ok s)
    (hq : resolve q = .ok t) {k : Key} (h : ∀ k' ∈ k.peers, p.get k' = q.get k') :
    s.item k = t.item k := by
  obtain ⟨i, style, hi, hstyle, rfl⟩ := exists_of_resolve hp
  obtain ⟨i', style', hi', hstyle', rfl⟩ := exists_of_resolve hq
  have hk := h k k.self_mem_peers
  cases k with
  | sql | file =>
      have hinput : inputOf p = inputOf q := by
        simp only [inputOf, h .sql (by decide), h .file (by decide)]
      exact Except.ok.inj (hi.symm.trans (hinput.trans hi'))
  | nullStyle =>
      have hnull : nullStyleOf p = nullStyleOf q := by simp only [nullStyleOf, hk]
      exact Except.ok.inj (hstyle.symm.trans (hnull.trans hstyle'))
  | enforcement => rfl
  | output | tablePrefix | columnPrefix | package | charset | collation =>
      simp only [item, optionsOf, hk]
      rfl
  | _ => simp only [item, optionsOf, tablesOf, hk]

theorem input_eq_of_sql {p : Profile} {s : Settings} (h : resolve p = .ok s) {source : Text}
    (hsql : p.get .sql = some source) : s.input = .sql source := by
  obtain ⟨i, style, hi, -, rfl⟩ := exists_of_resolve h
  simp only [inputOf, hsql, Except.ok.injEq] at hi
  exact hi.symm

theorem input_eq_of_file {p : Profile} {s : Settings} (h : resolve p = .ok s) {path : Path}
    (hsql : p.get .sql = none) (hfile : p.get .file = some path) : s.input = .file path := by
  obtain ⟨i, style, hi, -, rfl⟩ := exists_of_resolve h
  simp only [inputOf, hsql, hfile, Except.ok.injEq] at hi
  exact hi.symm

/-! ### Layers -/

variable {p above : Profile} {s alone : Settings}

theorem file_ne_none_of_resolve (h : resolve above = .ok alone) (hsql : above.get .sql = none) :
    above.get .file ≠ none := by
  obtain ⟨i, -, hi, -⟩ := exists_of_resolve h
  exact ((inputOf_eq_ok_iff above).1 ⟨i, hi⟩).resolve_left (not_not_intro hsql)

/-- A text above a profile goes before everything below it, and a file before everything but a
text. -/
theorem input_eq_iff (hs : resolve (p.merge above) = .ok s) (halone : resolve above = .ok alone) :
    s.input = alone.input ↔ (above.get .sql = none → p.get .sql = none) := by
  cases hsql : above.get .sql with
  | some source =>
      have hmerged : (p.merge above).get .sql = some source := by
        rw [Profile.get_merge, hsql, Option.some_or]
      rw [input_eq_of_sql hs hmerged, input_eq_of_sql halone hsql]
      exact iff_of_true rfl nofun
  | none =>
      obtain ⟨path, hfile⟩ := Option.ne_none_iff_exists'.1 (file_ne_none_of_resolve halone hsql)
      have hbelow : (p.merge above).get .sql = p.get .sql := by
        rw [Profile.get_merge, hsql, Option.none_or]
      rw [input_eq_of_file halone hsql hfile]
      cases hp : p.get .sql with
      | some source =>
          rw [input_eq_of_sql hs (hbelow.trans hp)]
          exact iff_of_false nofun fun h => nomatch h rfl
      | none =>
          have hmerged : (p.merge above).get .file = some path := by
            rw [Profile.get_merge, hfile, Option.some_or]
          rw [input_eq_of_file hs (hbelow.trans hp) hmerged]
          exact iff_of_true rfl fun _ => rfl

/-- What is set above a profile has the value that it has alone. -/
theorem item_eq_of_set (hs : resolve (p.merge above) = .ok s) (halone : resolve above = .ok alone)
    {k : Key} (hk : above.get k ≠ none) (hsql : k ≠ .sql) (hfile : k ≠ .file) :
    s.item k = alone.item k := by
  apply item_congr hs halone
  intro k' hk'
  rw [Key.peers_eq_singleton hsql hfile, List.mem_singleton] at hk'
  subst hk'
  obtain ⟨v, hv⟩ := Option.ne_none_iff_exists'.1 hk
  rw [Profile.get_merge, hv, Option.some_or]

/-- What is not set above a profile comes from the profile. -/
theorem item_eq_of_unset {other : Profile} {t : Settings} (hs : resolve (p.merge above) = .ok s)
    (ht : resolve (p.merge other) = .ok t) {k : Key}
    (h : ∀ k' ∈ k.peers, above.get k' = none ∧ other.get k' = none) : s.item k = t.item k := by
  apply item_congr hs ht
  intro k' hk'
  obtain ⟨habove, hother⟩ := h k' hk'
  simp only [Profile.get_merge, habove, hother]

end Settings

/-- A flag goes before the profile: its item is what the flags alone make of it, unless the flag
gives a file and the profile a text, which is the input then. An item without a flag is what the
profile makes of it, whatever the other flags are. -/
theorem flags_go_before_profile (p : Profile) {args : List Text} {fs : Flags}
    (hargs : Flags.ofArguments args = .ok fs) {s : Settings}
    (hs : Settings.resolve (p.merge fs.overrides) = .ok s) :
    (∀ alone, Settings.resolve (Profile.empty.merge fs.overrides) = .ok alone →
      ∀ k, .setting k ∈ Flag.given args →
        (s.item k = alone.item k ↔
          ¬ (k = .file ∧ .setting .sql ∉ Flag.given args ∧ p.get .sql ≠ none))) ∧
    (∀ source : Text, .setting .sql ∉ Flag.given args → p.get .sql = some source →
      s.input = .sql source) ∧
    ∀ args' fs' t, Flags.ofArguments args' = .ok fs' →
      Settings.resolve (p.merge fs'.overrides) = .ok t →
      ∀ k, (∀ k' ∈ k.peers, .setting k' ∉ Flag.given args ∧ .setting k' ∉ Flag.given args') →
        s.item k = t.item k := by
  refine ⟨fun alone halone k hk => ?_, fun source hsql hp => ?_,
    fun args' fs' t hargs' ht k hk => ?_⟩
  · rw [Profile.empty_merge] at halone
    rw [← get_ne_none_iff_given hargs] at hk ⊢
    have hinput := Settings.input_eq_iff hs halone
    by_cases hsql : k = .sql
    · subst hsql
      exact iff_of_true (hinput.2 fun h => absurd h hk) fun h => nomatch h.1
    · by_cases hfile : k = .file
      · subst hfile
        refine hinput.trans ?_
        simp only [ne_eq, Classical.not_not, true_and, not_and]
      · exact iff_of_true (Settings.item_eq_of_set hs halone hk hsql hfile) fun h => hfile h.1
  · rw [← get_ne_none_iff_given hargs, Classical.not_not] at hsql
    refine Settings.input_eq_of_sql hs ?_
    rw [Profile.get_merge, hsql, Option.none_or]
    exact hp
  · refine Settings.item_eq_of_unset hs ht fun k' hk' => ?_
    obtain ⟨h, h'⟩ := hk k' hk'
    rw [← get_ne_none_iff_given hargs, Classical.not_not] at h
    rw [← get_ne_none_iff_given hargs', Classical.not_not] at h'
    exact ⟨h, h'⟩

def shopProfile : Profile :=
  (Profile.empty.set .file ("shop.sql" : Text)).set .jsonTag true

theorem flags_go_before_shopProfile :
    ∃ fs s alone, Flags.ofArguments ["--file", "schema.sql", "--json=false"] = .ok fs ∧
      Settings.resolve (shopProfile.merge fs.overrides) = .ok s ∧
      Settings.resolve (Profile.empty.merge fs.overrides) = .ok alone ∧
      s.options.jsonTag = alone.options.jsonTag ∧ s.input = alone.input := by
  refine ⟨_, _, _, rfl, rfl, rfl, ?_⟩
  have hargs : Flags.ofArguments ["--file", "schema.sql", "--json=false"] = .ok _ := rfl
  obtain ⟨hflagged, -, -⟩ := flags_go_before_profile shopProfile hargs rfl
  have hjson := (hflagged _ rfl .jsonTag (by decide)).2 (by decide)
  have hfile := (hflagged _ rfl .file (by decide)).2 fun h => h.2.2 rfl
  exact ⟨hjson, hfile⟩

def inlineProfile : Profile := Profile.empty.set .sql ("CREATE TABLE a (id INT)" : Text)

/-- The text of a profile is read although a flag gives a file. -/
theorem file_flag_is_passed_over :
    ∃ fs s alone, Flags.ofArguments ["--file", "schema.sql"] = .ok fs ∧
      .setting .file ∈ Flag.given ["--file", "schema.sql"] ∧
      Settings.resolve (inlineProfile.merge fs.overrides) = .ok s ∧
      Settings.resolve (Profile.empty.merge fs.overrides) = .ok alone ∧
      s.input = .sql "CREATE TABLE a (id INT)" ∧ alone.input = .file "schema.sql" :=
  ⟨_, _, _, rfl, by decide, rfl, rfl, rfl, rfl⟩

end SchemaModels.Tool

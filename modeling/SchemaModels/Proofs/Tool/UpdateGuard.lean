import SchemaModels.Proofs.Tool.GivenFlags
import SchemaModels.Proofs.Tool.ReaderResults
import SchemaModels.Tool.Session

/-!
# Overwriting the models of all tables

No profile of a configuration holds the permission to overwrite the models of all tables
(`get_enforcement_of_select`), so it can only come from the command line. Main statement:
`update_of_all_tables_refused`, without its flag no settings update all tables, and what asks for
that is refused.
-/

namespace SchemaModels.Tool

namespace Config

theorem gives_profileField {k : Key} (hk : k ≠ .enforcement) (name : Text) {p : Profile}
    (hp : p.get .enforcement = none) :
    Json.Gives ((profileField k name).read p) fun q => q.get .enforcement = none := by
  apply Json.gives_after
  intro v
  cases v with
  | none => exact Json.gives_pure hp
  | some v =>
      apply Json.gives_pure
      rw [Profile.get_set_of_ne _ _ hk.symm]
      exact hp

theorem gives_profile : Json.Gives profile fun p => p.get .enforcement = none := by
  apply Json.gives_record
  · rfl
  · intro f hf p hp
    obtain ⟨e, he, rfl⟩ := List.mem_map.1 hf
    exact gives_profileField (not_readable_enforcement e he) _ hp

theorem get_enforcement_of_ofJson {t : Text} {c : Config} (h : ofJson t = .ok c) :
    ∀ e ∈ c.profiles, e.2.get .enforcement = none := by
  refine Json.of_document (P := fun c => ∀ e ∈ c.profiles, e.2.get .enforcement = none) ?_ h
  apply Json.gives_record
  · intro e he
    cases he
  · intro f hf c hc
    simp only [fields, List.mem_cons, List.not_mem_nil, or_false] at hf
    rcases hf with rfl | rfl
    · exact Json.gives_after _ fun name => Json.gives_pure hc
    · exact Json.gives_bind (Json.gives_dictionary gives_profile) fun es hes => Json.gives_pure hes

theorem mem_of_lookup {name : Text} {ps : List (Text × Profile)} {p : Profile}
    (h : ps.lookup name = some p) : (name, p) ∈ ps := by
  induction ps with
  | nil => cases h
  | cons e ps ih =>
      rw [List.lookup_cons] at h
      by_cases hn : name == e.1
      · rw [hn] at h
        rw [eq_of_beq hn, ← Option.some.inj h]
        exact List.mem_cons_self
      · simp only [hn] at h
        exact List.mem_cons_of_mem _ (ih h)

theorem get_enforcement_of_select {t : Text} {c : Config} (hc : ofJson t = .ok c)
    {requested : Option Text} {p : Profile} (hp : c.select requested = .ok p) :
    p.get .enforcement = none := by
  unfold select at hp
  dsimp only at hp
  split at hp
  · rename_i q hq
    cases hp
    exact get_enforcement_of_ofJson hc _ (mem_of_lookup hq)
  · split at hp
    · cases hp
      rfl
    · cases hp

end Config

namespace Settings

/-- The table setting leaves no table out: there is none, no name in it, or a star among its
names. -/
def SelectsAll : Option Text → Prop
  | none => True
  | some t =>
    (∀ n ∈ Text.splitOn ',' t, Text.trim n = []) ∨ ∃ n ∈ Text.splitOn ',' t, Text.trim n = ['*']

theorem ofText_eq_all_iff (t : Text) :
    TableFilter.ofText t = .all ↔
      (∀ n ∈ Text.splitOn ',' t, Text.trim n = []) ∨
        ∃ n ∈ Text.splitOn ',' t, Text.trim n = ['*'] := by
  unfold TableFilter.ofText
  dsimp only
  split
  · rename_i h
    simpa using h
  · rename_i h
    simpa using h

theorem tablesOf_eq_all_iff (p : Profile) : tablesOf p = .all ↔ SelectsAll (p.get .table) := by
  unfold tablesOf
  cases p.get .table with
  | none => exact iff_of_true rfl trivial
  | some t => exact ofText_eq_all_iff t

theorem isOn_eq_true_iff (switch : Option Bool) : isOn switch = true ↔ switch = some true := by
  cases switch <;> simp [isOn]

/-- The settings ask for more than is permitted. -/
def IsUnguarded (p : Profile) : Prop :=
  isOn (p.get .update) = true ∧ tablesOf p = .all ∧ isOn (p.get .enforcement) = false

theorem resolve_of_isUnguarded {p : Profile} (h : IsUnguarded p) {i : Input}
    (hi : inputOf p = .ok i) : resolve p = .error .unguardedUpdate := by
  obtain ⟨hu, ht, he⟩ := h
  simp [resolve, hi, hu, ht, he, bind, Except.bind, throw, throwThe, MonadExceptOf.throw]

theorem resolve_of_not_isUnguarded {p : Profile} (h : ¬ IsUnguarded p) {i : Input}
    (hi : inputOf p = .ok i) :
    resolve p = (nullStyleOf p).map fun style =>
      { input := i
        tables := tablesOf p
        update := isOn (p.get .update)
        output := (p.get .output).getD ("." : Path)
        jobs := (p.get .jobs).map (max 1)
        options := optionsOf p style
        defaults := ⟨p.get .charset, p.get .collation⟩ } := by
  have hc : ¬ (isOn (p.get .update) && tablesOf p = .all && !isOn (p.get .enforcement)) = true := by
    intro hc
    apply h
    simpa [IsUnguarded, and_assoc] using hc
  simp only [resolve, hi, bind, Except.bind, if_neg hc]
  cases nullStyleOf p <;> rfl

theorem inputOf_eq_ok_iff (p : Profile) :
    (∃ i, inputOf p = .ok i) ↔ p.get .sql ≠ none ∨ p.get .file ≠ none := by
  unfold inputOf
  cases p.get .sql with
  | some source => simp
  | none => cases p.get .file <;> simp

theorem resolve_of_no_input {p : Profile} (h : ¬ ∃ i, inputOf p = .ok i) :
    resolve p = .error .noInput := by
  unfold inputOf at h
  simp only [resolve, inputOf]
  split at h
  · exact absurd ⟨_, rfl⟩ h
  · exact absurd ⟨_, rfl⟩ h
  · rfl

theorem nullStyleOf_ne_unguardedUpdate (p : Profile) :
    nullStyleOf p ≠ .error .unguardedUpdate := by
  unfold nullStyleOf
  split
  · exact nofun
  · split
    · exact nofun
    · split <;> exact nofun

theorem isUnguarded_of_resolve {p : Profile} (h : resolve p = .error .unguardedUpdate) :
    (∃ i, inputOf p = .ok i) ∧ IsUnguarded p := by
  by_cases hi : ∃ i, inputOf p = .ok i
  · refine ⟨hi, ?_⟩
    by_cases hg : IsUnguarded p
    · exact hg
    · obtain ⟨i, hi⟩ := hi
      rw [resolve_of_not_isUnguarded hg hi] at h
      cases hn : nullStyleOf p with
      | error e =>
          rw [hn] at h
          cases h
          exact absurd hn (nullStyleOf_ne_unguardedUpdate p)
      | ok style =>
          rw [hn] at h
          cases h
  · rw [resolve_of_no_input hi] at h
    cases h

theorem not_isUnguarded_of_resolve {p : Profile} {s : Settings} (h : resolve p = .ok s) :
    ¬ IsUnguarded p ∧ s.update = isOn (p.get .update) ∧ s.tables = tablesOf p := by
  by_cases hi : ∃ i, inputOf p = .ok i
  · obtain ⟨i, hi⟩ := hi
    by_cases hg : IsUnguarded p
    · rw [resolve_of_isUnguarded hg hi] at h
      cases h
    · rw [resolve_of_not_isUnguarded hg hi] at h
      cases hn : nullStyleOf p with
      | error e =>
          rw [hn] at h
          cases h
      | ok style =>
          rw [hn] at h
          cases h
          exact ⟨hg, rfl, rfl⟩
  · rw [resolve_of_no_input hi] at h
    cases h

end Settings

/-- Without the flag that permits it, no settings overwrite the models of all tables, whatever the
configuration says; where they would, and only there, the error is that of the guard. -/
theorem update_of_all_tables_refused {t : Text} {c : Config} (hc : Config.ofJson t = .ok c)
    {requested : Option Text} {p : Profile} (hp : c.select requested = .ok p) {args : List Text}
    {fs : Flags} (hargs : Flags.ofArguments args = .ok fs)
    (hfree : .setting .enforcement ∉ Flag.given args) :
    (∀ s, Settings.resolve (p.merge fs.overrides) = .ok s → ¬ (s.update = true ∧ s.tables = .all)) ∧
      (Settings.resolve (p.merge fs.overrides) = .error .unguardedUpdate ↔
        ((p.merge fs.overrides).get .sql ≠ none ∨ (p.merge fs.overrides).get .file ≠ none) ∧
          (p.merge fs.overrides).get .update = some true ∧
            Settings.SelectsAll ((p.merge fs.overrides).get .table)) := by
  have hflags : fs.overrides.get .enforcement = none := by
    by_cases hf : fs.overrides.get .enforcement = none
    · exact hf
    · exact absurd (given_of_arguments hargs hf) hfree
  have hclosed : Settings.isOn ((p.merge fs.overrides).get .enforcement) = false := by
    rw [Profile.get_merge, hflags, Config.get_enforcement_of_select hc hp]
    rfl
  refine ⟨?_, ?_⟩
  · rintro s hs ⟨hu, ht⟩
    obtain ⟨hg, hu', ht'⟩ := Settings.not_isUnguarded_of_resolve hs
    exact hg ⟨hu' ▸ hu, ht' ▸ ht, hclosed⟩
  · rw [← Settings.inputOf_eq_ok_iff, ← Settings.tablesOf_eq_all_iff]
    have hon := Settings.isOn_eq_true_iff ((p.merge fs.overrides).get .update)
    constructor
    · intro h
      obtain ⟨hi, hu, ht, -⟩ := Settings.isUnguarded_of_resolve h
      exact ⟨hi, hon.1 hu, ht⟩
    · rintro ⟨⟨i, hi⟩, hu, ht⟩
      exact Settings.resolve_of_isUnguarded ⟨hon.2 hu, ht, hclosed⟩ hi

/-- A configuration that asks for updates. -/
def updatingConfig : Text :=
  "\x7b\"profiles\":\x7b\"default\":\x7b\"sql\":\"\",\"update\":true\x7d\x7d\x7d"

theorem update_of_listed_star_refused :
    ∃ c p fs, Config.ofJson updatingConfig = .ok c ∧ c.select none = .ok p ∧
      Flags.ofArguments ["-v", "-t", "users, *"] = .ok fs ∧
        Settings.resolve (p.merge fs.overrides) = .error .unguardedUpdate := by
  have hread : ((Config.ofJson updatingConfig).toOption.bind fun c =>
      (c.select none).toOption.bind fun p =>
        (Flags.ofArguments ["-v", "-t", "users, *"]).toOption.map
          (β := Option Text × Option Bool × Option Text) fun fs =>
            let merged := p.merge fs.overrides
            (merged.get .sql, merged.get .update, merged.get .table)) =
      some (some ("" : Text), some true, some ("users, *" : Text)) := by
    decide +kernel
  obtain ⟨c, hc, hread⟩ := Option.bind_eq_some_iff.1 hread
  obtain ⟨p, hp, hread⟩ := Option.bind_eq_some_iff.1 hread
  obtain ⟨fs, hfs, hread⟩ := Option.map_eq_some_iff.1 hread
  have hsql : (p.merge fs.overrides).get .sql = some ("" : Text) := congrArg (·.1) hread
  have hupdate : (p.merge fs.overrides).get .update = some true := congrArg (·.2.1) hread
  have htable : (p.merge fs.overrides).get .table = some ("users, *" : Text) :=
    congrArg (·.2.2) hread
  have hc := eq_ok_of_toOption hc
  have hp := eq_ok_of_toOption hp
  have hfs := eq_ok_of_toOption hfs
  have hall : Settings.SelectsAll ((p.merge fs.overrides).get .table) := by
    rw [htable]
    exact Or.inr ⟨" *", by decide, by decide⟩
  refine ⟨c, p, fs, hc, hp, hfs, ?_⟩
  refine (update_of_all_tables_refused hc hp hfs (by decide)).2.2 ⟨Or.inl ?_, hupdate, hall⟩
  rw [hsql]
  exact nofun

end SchemaModels.Tool

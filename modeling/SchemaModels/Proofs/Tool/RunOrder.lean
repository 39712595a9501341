import SchemaModels.Proofs.Tool.ParallelRun

/-!
# Runs in any order

What a run that is over comes to is determined by its invariant: the outcomes are sorted into the
order of the tables, and the files are those of the tables handled one after another
(`run_in_any_order`).
-/

namespace SchemaModels.Tool

open Ddl (Table)

namespace ParallelRun

variable {s : Settings} {ts : List Table} {made : Store} {r : ParallelRun}

/-! ### What a run that is over comes to -/

/-- Outcomes with the numbers of their tables. -/
def numbered (ys : List Outcome) : List (Nat × Outcome) := ys.mapIdx fun i y => (i, y)

theorem map_numbered (ys : List Outcome) : (numbered ys).map (·.2) = ys := by
  apply List.ext_getElem?
  intro i
  simp only [numbered, List.getElem?_map, List.getElem?_mapIdx, Option.map_map]
  cases ys[i]? <;> rfl

theorem pairwise_numbered (ys : List Outcome) :
    (numbered ys).Pairwise fun a b => a.1 < b.1 := by
  rw [List.pairwise_iff_getElem]
  intro i k hi hk hik
  simpa [numbered] using hik

theorem mem_numbered {ys : List Outcome} {i : Nat} {y : Outcome} :
    (i, y) ∈ numbered ys ↔ ys[i]? = some y := by
  rw [List.mem_iff_getElem?]
  simp only [numbered, List.getElem?_mapIdx, Option.map_eq_some_iff, Prod.mk.injEq]
  constructor
  · rintro ⟨k, z, hz, rfl, rfl⟩
    exact hz
  · intro h
    exact ⟨i, y, h, rfl, rfl⟩

/-- Outcomes that are numbered in any order are sorted into the order of their numbers. -/
theorem map_mergeSort_eq {outcomes : List (Nat × Outcome)} {ys : List Outcome}
    (hnodup : (outcomes.map (·.1)).Nodup) (hmem : ∀ i y, (i, y) ∈ outcomes ↔ ys[i]? = some y) :
    (outcomes.mergeSort fun a b => a.1 ≤ b.1).map (·.2) = ys := by
  have hsorted : (outcomes.mergeSort fun a b => a.1 ≤ b.1).Pairwise fun a b => a.1 ≤ b.1 := by
    refine (List.pairwise_mergeSort ?_ ?_ outcomes).imp of_decide_eq_true
    · intro a b c hab hbc
      simp only [decide_eq_true_eq] at hab hbc ⊢
      omega
    · intro a b
      simp only [Bool.or_eq_true, decide_eq_true_eq]
      omega
  have hperm : (outcomes.mergeSort fun a b => a.1 ≤ b.1).Perm (numbered ys) := by
    refine (List.mergeSort_perm outcomes _).trans ?_
    refine (List.perm_ext_iff_of_nodup ?_ ?_).2 fun (i, y) => ?_
    · exact List.Pairwise.of_map (·.1) (fun a b hne he => hne (congrArg (·.1) he)) hnodup
    · exact (pairwise_numbered ys).imp fun hlt he => absurd hlt (by simp [he])
    · rw [hmem, mem_numbered]
  have heq := hperm.eq_of_pairwise ?_ hsorted ((pairwise_numbered ys).imp Nat.le_of_lt)
  · rw [heq, map_numbered]
  · rintro ⟨i, y⟩ ⟨k, z⟩ hy hz hik hki
    have hy' := (hmem i y).1 ((List.mergeSort_perm outcomes _).mem_iff.1 hy)
    have hz' := mem_numbered.1 hz
    have he : i = k := Nat.le_antisymm hik hki
    subst he
    rw [hy'] at hz'
    cases hz'
    rfl

theorem Sound.jobs_of_isOver (h : Sound s ts made r) (hover : r.isOver) :
    r.tasks.map (·.job) = jobsOf s ts ∧ ∀ x ∈ r.tasks, x.stage = .reported := by
  simp only [isOver, Bool.and_eq_true, List.isEmpty_iff, List.all_eq_true,
    decide_eq_true_eq] at hover
  obtain ⟨htables, hall⟩ := hover
  refine ⟨?_, hall⟩
  rw [← h.jobs, htables]
  exact (List.append_nil _).symm

theorem Sound.report_eq (h : Sound s ts made r) (hover : r.isOver) :
    r.report = ⟨(jobsOf s ts).map (Job.expected s made)⟩ := by
  obtain ⟨hjobs, hall⟩ := h.jobs_of_isOver hover
  unfold report
  congr 1
  refine map_mergeSort_eq h.nodup fun i y => ?_
  rw [h.mem_outcomes, ← hjobs, List.map_map, List.getElem?_map, Option.map_eq_some_iff]
  constructor
  · rintro ⟨x, hx, -, rfl⟩
    exact ⟨x, hx, rfl⟩
  · rintro ⟨x, hx, rfl⟩
    exact ⟨x, hx, hall x (List.mem_of_getElem? hx), rfl⟩

theorem Sound.settled (h : Sound s ts made r) (hover : r.isOver) :
    Settled s (jobsOf s ts) made r.store := by
  obtain ⟨hjobs, hall⟩ := h.jobs_of_isOver hover
  refine ⟨h.kept, fun j hj hown => ?_, fun f hf hpaths => ?_⟩
  · rw [← hjobs] at hj
    obtain ⟨x, hx, rfl⟩ := List.mem_map.1 hj
    obtain ⟨i, hi⟩ := List.mem_iff_getElem?.1 hx
    have hseen := (h.task i x hi).seen hown
    rw [Task.rest, hall x hx] at hseen
    exact hseen
  · apply h.others f hf
    intro i x hx hown
    apply hpaths x.job ?_ hown
    exact List.mem_of_getElem? (h.job_mem hx)

end ParallelRun

/-- A table's job has no owner where the table owns its path, and else names the one that does. -/
theorem owner_of_getElem? {s : Settings} {ts : List Table} {i k : Nat} {t u : Table}
    (ht : ts[i]? = some t) (howns : s.Owns ts (s.pathOf t) k u) :
    (jobsOf s ts)[i]? = some ⟨t, s.pathOf t, if k = i then none else some u.name⟩ := by
  rw [getElem?_jobsOf, ht, Option.map_some]
  obtain ⟨hnone, hfree⟩ | ⟨k', u', hk', howns', hsome⟩ := ownerOf?_take_cases s ts i (s.pathOf t)
  · have hk : k = i := by
      rcases Nat.lt_trichotomy k i with hlt | he | hlt
      · exact absurd howns.2.1 (hfree k hlt u howns.1)
      · exact he
      · exact absurd rfl (howns.2.2 i hlt t ht)
    rw [hnone, if_pos hk]
  · obtain ⟨rfl, rfl⟩ := howns.unique howns'
    rw [hsome, if_neg (Nat.ne_of_lt hk')]

/-- Every path of a table has an owner. -/
theorem exists_owns {s : Settings} {ts : List Table} {i : Nat} {t : Table} (ht : ts[i]? = some t) :
    ∃ k u, s.Owns ts (s.pathOf t) k u := by
  obtain ⟨-, hfree⟩ | ⟨k, u, -, howns, -⟩ := ownerOf?_take_cases s ts (i + 1) (s.pathOf t)
  · exact absurd rfl (hfree i (Nat.lt_succ_self i) t ht)
  · exact ⟨k, u, howns⟩

/-- Where the output directory can be made, tables that are handled at once come to the report and
the files of those handled one after another, whatever the order of the turns: one outcome for each
table, in the order of the tables. The first table that leads to a path owns it and comes to what it
comes to on its own; the others name it and do nothing. A run has no more than six turns for each
table, and goes on until it is over. -/
theorem run_in_any_order (s : Settings) {ts : List Table} (hts : ∀ t ∈ ts, '/' ∉ t.name)
    {start made : Store} (hmade : start.makeDirectories s.output = (.ok (), made))
    {permits : Nat} (hpermits : 0 < permits) :
    ∃ report final, (runTables s ts).run Store.handle start = (.ok report, final) ∧
      report.outcomes.length = ts.length ∧
      (∀ (i : Nat) t, ts[i]? = some t → ∃ k u, s.Owns ts (s.pathOf t) k u ∧
        report.outcomes[i]? = some ⟨t.name,
          if k = i then (Job.alone s made ⟨t, s.pathOf t, none⟩).1
          else .failed (.duplicateOutput (s.pathOf t) t.name u.name)⟩) ∧
      ∀ turns r,
        ({ tables := ts, store := made } : ParallelRun).after s permits turns = some r →
          turns.length ≤ 6 * ts.length ∧
          (∀ (i : Nat) t k u, ts[i]? = some t → s.Owns ts (s.pathOf t) k u → k ≠ i →
            .advance i ∉ turns) ∧
          if r.isOver then r.report = report ∧ ∀ l, r.store.node? l = final.node? l
          else ∃ turn, (r.take s permits turn).isSome := by
  obtain ⟨final, hrun, hsettled⟩ := run_sequence s (apart_jobsOf hts) made
  refine ⟨.mk ((jobsOf s ts).map (Job.expected s made)), final, ?_, ?_, ?_, ?_⟩
  · simp only [runTables, Program.run, Store.handle, hmade, Program.run_bind, hrun]
  · simp [jobsOf, assign_eq_mapIdx]
  · intro i t ht
    obtain ⟨k, u, howns⟩ := exists_owns (s := s) ht
    refine ⟨k, u, howns, ?_⟩
    rw [List.getElem?_map, owner_of_getElem? ht howns, Option.map_some]
    by_cases hk : k = i
    · simp only [if_pos hk, Job.expected]
    · have hother : Job.alone s made ⟨t, s.pathOf t, some u.name⟩ =
          (.failed (.duplicateOutput (s.pathOf t) t.name u.name), made) :=
        Job.alone_of_owner s made rfl
      simp only [if_neg hk, Job.expected, hother]
  · intro turns r hr
    have hsound := (ParallelRun.Sound.start s ts made).after hts hr
    refine ⟨?_, ?_, ?_⟩
    · exact ParallelRun.length_le_turnsLeft hr
    · intro i t k u ht howns hk hmem
      obtain ⟨j, hj, hown⟩ := (ParallelRun.Sound.start s ts made).owner_of_advance hts hr hmem
      rw [owner_of_getElem? ht howns, if_neg hk] at hj
      cases hj
      cases hown
    · split
      · rename_i hover
        refine ⟨hsound.report_eq hover, fun l => ?_⟩
        exact (hsound.settled hover).node?_eq hsettled l
      · rename_i hover
        exact ParallelRun.exists_turn hpermits (Bool.eq_false_iff.2 hover)

def prefixedSettings : Settings where
  input := .file "schema.sql"
  output := "models"
  tables := .all
  update := false
  jobs := some 2
  options := { tablePrefix := "t_" }
  defaults := {}

/-- The second table's name without its prefix is that of the first. -/
def collidingTables : List Table := [{ name := "users" }, { name := "t_users" }, { name := "t_" }]

theorem run_of_colliding_tables :
    (∀ t ∈ collidingTables, '/' ∉ t.name) ∧ 0 < 2 ∧
      ∃ made, (Store.mk .empty).makeDirectories prefixedSettings.output = (.ok (), made) ∧
        ∃ report final, (runTables prefixedSettings collidingTables).run Store.handle ⟨.empty⟩ =
            (.ok report, final) ∧
          report.outcomes[1]? = some ⟨"t_users",
            .failed (.duplicateOutput "models/users.go" "t_users" "users")⟩ ∧
          ∀ turns r, ({ tables := collidingTables, store := made } : ParallelRun).after
              prefixedSettings 2 turns = some r → .advance 1 ∉ turns ∧
            if r.isOver then r.report = report ∧ ∀ l, r.store.node? l = final.node? l
            else ∃ turn, (r.take prefixedSettings 2 turn).isSome := by
  have hnames : ∀ t ∈ collidingTables, '/' ∉ t.name := by decide
  have hmade : (Store.mk .empty).makeDirectories prefixedSettings.output =
      (.ok (), ((Store.mk .empty).makeDirectories prefixedSettings.output).2) := by
    rfl
  have howns : prefixedSettings.Owns collidingTables (prefixedSettings.pathOf { name := "t_users" })
      0 { name := "users" } := ⟨rfl, by decide +kernel, nofun⟩
  have hpath : prefixedSettings.pathOf { name := "t_users" } = "models/users.go" := by
    decide +kernel
  obtain ⟨report, final, hrun, -, houtcomes, hturns⟩ :=
    run_in_any_order prefixedSettings hnames hmade (show 0 < 2 from Nat.zero_lt_two)
  obtain ⟨k, u, howns', houtcome⟩ := houtcomes 1 { name := "t_users" } rfl
  obtain ⟨rfl, rfl⟩ := howns.unique howns'
  rw [hpath] at houtcome
  refine ⟨hnames, Nat.zero_lt_two, _, hmade, report, final, hrun, houtcome, fun turns r hr => ?_⟩
  obtain ⟨-, hidle, hend⟩ := hturns turns r hr
  exact ⟨hidle 1 _ 0 _ rfl howns (by decide), hend⟩

end SchemaModels.Tool

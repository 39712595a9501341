import SchemaModels.Proofs.Tool.Turns

/-!
# The invariant of a parallel run

Every turn keeps the invariant of a run (`ParallelRun.Sound`): a task that goes on is sound as
before, and the others do not see it, because their files lie elsewhere.
-/

namespace SchemaModels.Tool

open Ddl (Table)
open Path (IsName)

namespace ParallelRun

/-- What holds of a run at every moment: its tasks are the first jobs, each comes to what its job
comes to on its own, the outcomes that came in are those of the reported tasks, and the files of
tables without a task are as they were. -/
structure Sound (s : Settings) (ts : List Table) (made : Store) (r : ParallelRun) : Prop where
  jobs : r.tasks.map (·.job) ++ Tool.assign s.output s.options.tablePrefix r.claimed r.tables =
    jobsOf s ts
  kept : Store.Kept s.output made r.store
  task : ∀ (i : Nat) (x : Task), r.tasks[i]? = some x → x.Sound s made r.store
  others : ∀ f, IsName f →
    (∀ (i : Nat) (x : Task), r.tasks[i]? = some x → x.job.owner = none →
      x.job.path ≠ Path.join s.output f) →
      r.store.look (Path.join s.output f) = made.look (Path.join s.output f)
  mem_outcomes : ∀ i y, (i, y) ∈ r.outcomes ↔
    ∃ x : Task, r.tasks[i]? = some x ∧ x.stage = .reported ∧ y = x.job.expected s made
  nodup : (r.outcomes.map (·.1)).Nodup

variable {s : Settings} {ts : List Table} {made : Store} {r r' : ParallelRun} {permits : Nat}

namespace Sound

theorem start (s : Settings) (ts : List Table) (made : Store) :
    Sound s ts made { tables := ts, store := made } :=
  ⟨rfl, Store.Kept.refl _ _, fun _ _ h => by simp at h, fun _ _ _ => rfl,
    fun _ _ => by simp, List.nodup_nil⟩

theorem job_mem (h : Sound s ts made r) {i : Nat} {x : Task} (hx : r.tasks[i]? = some x) :
    (jobsOf s ts)[i]? = some x.job := by
  have hi : i < (r.tasks.map (·.job)).length := by
    rw [List.length_map]
    exact (List.getElem?_eq_some_iff.1 hx).1
  rw [← h.jobs, List.getElem?_append_left hi, List.getElem?_map, hx]
  rfl

theorem isName (h : Sound s ts made r) (hts : ∀ t ∈ ts, '/' ∉ t.name) {i : Nat} {x : Task}
    (hx : r.tasks[i]? = some x) : ∃ f, IsName f ∧ x.job.path = Path.join s.output f :=
  (apart_jobsOf hts).isName _ (List.mem_of_getElem? (h.job_mem hx))

theorem path_ne (h : Sound s ts made r) (hts : ∀ t ∈ ts, '/' ∉ t.name) {i k : Nat} {x y : Task}
    (hx : r.tasks[i]? = some x) (hy : r.tasks[k]? = some y) (hik : i ≠ k)
    (hxown : x.job.owner = none) (hyown : y.job.owner = none) : x.job.path ≠ y.job.path := by
  have hpair := List.pairwise_iff_getElem.1 (apart_jobsOf (s := s) hts).ne_path
  obtain ⟨hi, hix⟩ := List.getElem?_eq_some_iff.1 (h.job_mem hx)
  obtain ⟨hk, hky⟩ := List.getElem?_eq_some_iff.1 (h.job_mem hy)
  rcases Nat.lt_or_gt_of_ne hik with hlt | hlt
  · have := hpair i k hi hk hlt
    rw [hix, hky] at this
    exact this hxown hyown
  · have := hpair k i hk hi hlt
    rw [hix, hky] at this
    exact (this hyown hxown).symm

/-- The number of a table that has no task yet stands in no outcome. -/
theorem length_not_mem (h : Sound s ts made r) : r.tasks.length ∉ r.outcomes.map (·.1) := by
  intro hm
  obtain ⟨⟨i, y⟩, hy, hi⟩ := List.mem_map.1 hm
  obtain ⟨x, hx, -, -⟩ := (h.mem_outcomes i y).1 hy
  have hlt := (List.getElem?_eq_some_iff.1 hx).1
  dsimp only at hi
  omega

/-- A task whose outcome has not come in stands in no outcome. -/
theorem not_mem_of_stage (h : Sound s ts made r) {i : Nat} {x : Task} (hx : r.tasks[i]? = some x)
    (hne : x.stage ≠ .reported) : i ∉ r.outcomes.map (·.1) := by
  intro hm
  obtain ⟨⟨k, y⟩, hy, rfl⟩ := List.mem_map.1 hm
  obtain ⟨x', hx', hrep, -⟩ := (h.mem_outcomes k y).1 hy
  rw [hx] at hx'
  cases hx'
  exact hne hrep

theorem getElem?_append_of_some {tasks : List Task} {x y : Task} {i : Nat}
    (h : tasks[i]? = some y) : (tasks ++ [x])[i]? = some y := by
  rw [List.getElem?_append_left (List.getElem?_eq_some_iff.1 h).1, h]

theorem getElem?_append_cases {tasks : List Task} {x y : Task} {i : Nat}
    (h : (tasks ++ [x])[i]? = some y) : tasks[i]? = some y ∨ (i = tasks.length ∧ y = x) := by
  rcases Nat.lt_trichotomy i tasks.length with hlt | rfl | hlt
  · rw [List.getElem?_append_left hlt] at h
    exact Or.inl h
  · simp at h
    exact Or.inr ⟨rfl, h.symm⟩
  · rw [List.getElem?_eq_none (by simp; omega)] at h
    cases h

/-- A table whose path is taken is done at once. -/
theorem assign_of_owner (h : Sound s ts made r) {t : Table} {rest : List Table}
    (htables : r.tables = t :: rest) {owner : Text}
    (howner : ownerOf? r.claimed (s.pathOf t) = some owner) :
    Sound s ts made { r with
      tables := rest
      tasks := r.tasks ++ [⟨⟨t, s.pathOf t, some owner⟩, .reported⟩]
      outcomes := r.outcomes ++ [(r.tasks.length,
        ⟨t.name, .failed (.duplicateOutput (s.pathOf t) t.name owner)⟩)] } := by
  have hexpected : Job.expected s made ⟨t, s.pathOf t, some owner⟩ =
      ⟨t.name, .failed (.duplicateOutput (s.pathOf t) t.name owner)⟩ := by
    rw [Job.expected, Job.alone_of_owner s made rfl]
  refine ⟨?_, h.kept, fun i x hx => ?_, fun f hf hall => ?_, fun i y => ?_, ?_⟩
  · rw [← h.jobs, htables, assign_cons_of_owner howner, List.map_append, List.append_assoc]
    rfl
  · obtain hx | ⟨-, rfl⟩ := getElem?_append_cases hx
    · exact h.task i x hx
    · exact Task.sound_reported_of_owner rfl
  · apply h.others f hf
    intro i x hx
    apply hall i x
    exact getElem?_append_of_some hx
  · constructor
    · intro hm
      rcases List.mem_append.1 hm with hm | hm
      · obtain ⟨x, hx, hrest⟩ := (h.mem_outcomes i y).1 hm
        exact ⟨x, getElem?_append_of_some hx, hrest⟩
      · cases List.mem_singleton.1 hm
        exact ⟨⟨⟨t, s.pathOf t, some owner⟩, .reported⟩, by simp, rfl, hexpected.symm⟩
    · rintro ⟨x, hx, hrep, rfl⟩
      obtain hx | ⟨rfl, rfl⟩ := getElem?_append_cases hx
      · exact List.mem_append_left _ ((h.mem_outcomes i _).2 ⟨x, hx, hrep, rfl⟩)
      · rw [hexpected]
        exact List.mem_append_right _ List.mem_cons_self
  · rw [List.map_append]
    refine List.nodup_append.2 ⟨h.nodup, by simp, fun i hi k hk he => ?_⟩
    cases List.mem_singleton.1 hk
    rw [he] at hi
    exact h.length_not_mem hi

/-- A table whose path is free gets a task; its file is as it was at the start. -/
theorem assign_of_free (h : Sound s ts made r) (hts : ∀ t ∈ ts, '/' ∉ t.name) {t : Table}
    {rest : List Table} (htables : r.tables = t :: rest)
    (hfree : ownerOf? r.claimed (s.pathOf t) = none) :
    Sound s ts made { r with
      tables := rest
      claimed := r.claimed ++ [entryOf s t]
      tasks := r.tasks ++ [⟨⟨t, s.pathOf t, none⟩, .waiting⟩] } := by
  let new : Task := ⟨⟨t, s.pathOf t, none⟩, .waiting⟩
  have hjobs : (r.tasks ++ [new]).map (·.job) ++ Tool.assign s.output s.options.tablePrefix
      (r.claimed ++ [entryOf s t]) rest = jobsOf s ts := by
    rw [← h.jobs, htables, assign_cons_of_free hfree, List.map_append, List.append_assoc]
    rfl
  -- The new job is apart from those before it.
  have hpair := (apart_jobsOf (s := s) hts).ne_path
  rw [← hjobs, List.map_append, List.append_assoc, List.pairwise_append] at hpair
  have hnew : ∀ (i : Nat) (x : Task), r.tasks[i]? = some x → x.job.owner = none →
      x.job.path ≠ new.job.path := by
    intro i x hx hown
    exact hpair.2.2 x.job (List.mem_map_of_mem (List.mem_of_getElem? hx)) new.job
      (List.mem_append_left _ List.mem_cons_self) hown rfl
  obtain ⟨f, hf, hnewf⟩ := (apart_jobsOf (s := s) hts).isName new.job
    (hjobs ▸ by simp)
  refine ⟨hjobs, h.kept, fun i x hx => ?_, fun g hg hall => ?_, fun i y => ?_, h.nodup⟩
  · obtain hx | ⟨-, rfl⟩ := getElem?_append_cases hx
    · exact h.task i x hx
    · refine Task.sound_waiting hf hnewf rfl ?_
      rw [hnewf]
      exact h.others f hf fun i x hx hown => hnewf ▸ hnew i x hx hown
  · apply h.others g hg
    intro i x hx
    apply hall i x
    exact getElem?_append_of_some hx
  · constructor
    · intro hm
      obtain ⟨x, hx, hrest⟩ := (h.mem_outcomes i y).1 hm
      exact ⟨x, getElem?_append_of_some hx, hrest⟩
    · rintro ⟨x, hx, hrep, rfl⟩
      obtain hx | ⟨-, rfl⟩ := getElem?_append_cases hx
      · exact (h.mem_outcomes i _).2 ⟨x, hx, hrep, rfl⟩
      · cases hrep

theorem getElem?_set_cases {tasks : List Task} {y z : Task} {i k : Nat}
    (h : (tasks.set i y)[k]? = some z) : (k = i ∧ z = y) ∨ (k ≠ i ∧ tasks[k]? = some z) := by
  by_cases hk : k = i
  · subst hk
    rw [List.getElem?_set_self'] at h
    obtain ⟨x, -, hz⟩ := Option.map_eq_some_iff.1 h
    exact Or.inl ⟨rfl, hz.symm⟩
  · rw [List.getElem?_set_ne (Ne.symm hk)] at h
    exact Or.inr ⟨hk, h⟩

theorem getElem?_set_of_some {tasks : List Task} {x : Task} {i : Nat} (h : tasks[i]? = some x)
    (y : Task) : (tasks.set i y)[i]? = some y := by
  rw [List.getElem?_set_self (List.getElem?_eq_some_iff.1 h).1]

theorem map_job_set {tasks : List Task} {x : Task} {i : Nat} (h : tasks[i]? = some x)
    (stage : Stage) : (tasks.set i ⟨x.job, stage⟩).map (·.job) = tasks.map (·.job) := by
  apply List.ext_getElem?
  intro k
  rw [List.getElem?_map, List.getElem?_map]
  by_cases hk : k = i
  · rw [hk, getElem?_set_of_some h, h]
    rfl
  · rw [List.getElem?_set_ne (Ne.symm hk)]

/-- A step of one task leaves the paths of all. -/
theorem path_ne_of_set {tasks : List Task} {x : Task} {i : Nat} (hx : tasks[i]? = some x)
    {stage : Stage} {p : Path}
    (hall : ∀ (k : Nat) (y : Task), (tasks.set i ⟨x.job, stage⟩)[k]? = some y →
      y.job.owner = none → y.job.path ≠ p) {k : Nat} {y : Task} (hy : tasks[k]? = some y) :
    y.job.owner = none → y.job.path ≠ p := by
  by_cases hk : k = i
  · subst hk
    rw [hx] at hy
    cases hy
    exact hall k ⟨x.job, stage⟩ (getElem?_set_of_some hx _)
  · exact hall k y (by rw [List.getElem?_set_ne (Ne.symm hk), hy])

/-- A task goes on; no other one sees it. -/
theorem advance (h : Sound s ts made r) (hts : ∀ t ∈ ts, '/' ∉ t.name) {i : Nat} {x : Task}
    (hx : r.tasks[i]? = some x) {step : Program Stage}
    (hstep : x.stage.next? s.options s.update x.job = some step) :
    Sound s ts made { r with
      tasks := r.tasks.set i ⟨x.job, (step.run Store.handle r.store).1⟩
      store := (step.run Store.handle r.store).2 } := by
  have hne : x.stage ≠ .reported := by
    intro he
    rw [he] at hstep
    cases hstep
  have hown := (h.task i x hx).owner_eq_none hne
  have hne' := (Stage.turnsLeft_next? hstep r.store).2
  obtain ⟨f, hf, hpath⟩ := h.isName hts hx
  have habout := Stage.isAbout_next? hstep
  rw [hpath] at habout
  refine ⟨?_, ?_, fun k y hy => ?_, fun g hg hall => ?_, fun k y => ?_, h.nodup⟩
  · rw [map_job_set hx]
    exact h.jobs
  · exact h.kept.trans (Program.kept_run hf habout r.store)
  · obtain ⟨-, rfl⟩ | ⟨hk, hy⟩ := getElem?_set_cases hy
    · exact (h.task i x hx).advance hstep
    · obtain ⟨g, hg, hypath⟩ := h.isName hts hy
      refine (h.task k y hy).of_look_eq hg hypath fun hyown => ?_
      have hpaths := h.path_ne hts hy hx hk hyown hown
      rw [hypath, hpath] at hpaths
      rw [hypath]
      exact Program.look_run_of_ne hf habout hg (fun he => hpaths (he ▸ rfl)) r.store
  · have hpaths := hall i _ (getElem?_set_of_some hx _) hown
    dsimp only at hpaths
    rw [hpath] at hpaths
    dsimp only
    rw [Program.look_run_of_ne hf habout hg (fun he => hpaths (he ▸ rfl)) r.store]
    exact h.others g hg fun k y hy => path_ne_of_set hx hall hy
  · rw [h.mem_outcomes]
    constructor
    · rintro ⟨y', hy', hrep, rfl⟩
      have hk : k ≠ i := by
        rintro rfl
        rw [hx] at hy'
        cases hy'
        exact hne hrep
      exact ⟨y', by rw [List.getElem?_set_ne (Ne.symm hk), hy'], hrep, rfl⟩
    · rintro ⟨y', hy', hrep, rfl⟩
      obtain ⟨-, rfl⟩ | ⟨hk, hy'⟩ := getElem?_set_cases hy'
      · exact absurd hrep hne'
      · exact ⟨y', hy', hrep, rfl⟩

/-- The outcome of a task that has ended comes in. -/
theorem collect (h : Sound s ts made r) {i : Nat} {x : Task} (hx : r.tasks[i]? = some x)
    {status : Status} (hstage : x.stage = .ended status) :
    Sound s ts made { r with
      tasks := r.tasks.set i ⟨x.job, .reported⟩
      outcomes := r.outcomes ++ [(i, ⟨x.job.table.name, status⟩)] } := by
  have hne : x.stage ≠ .reported := by simp [hstage]
  have hexpected : x.job.expected s made = ⟨x.job.table.name, status⟩ := by
    rw [Job.expected, (h.task i x hx).status_eq hstage]
  refine ⟨?_, h.kept, fun k y hy => ?_, fun g hg hall => ?_, fun k y => ?_, ?_⟩
  · rw [map_job_set hx]
    exact h.jobs
  · obtain ⟨-, rfl⟩ | ⟨-, hy⟩ := getElem?_set_cases hy
    · exact (h.task i x hx).collect hstage
    · exact h.task k y hy
  · exact h.others g hg fun k y hy => path_ne_of_set hx hall hy
  · constructor
    · intro hm
      rcases List.mem_append.1 hm with hm | hm
      · obtain ⟨y', hy', hrep, hy⟩ := (h.mem_outcomes k y).1 hm
        have hk : k ≠ i := by
          rintro rfl
          rw [hx] at hy'
          cases hy'
          exact hne hrep
        exact ⟨y', by rw [List.getElem?_set_ne (Ne.symm hk), hy'], hrep, hy⟩
      · cases List.mem_singleton.1 hm
        exact ⟨_, getElem?_set_of_some hx _, rfl, hexpected.symm⟩
    · rintro ⟨y', hy', hrep, rfl⟩
      obtain ⟨rfl, rfl⟩ | ⟨hk, hy'⟩ := getElem?_set_cases hy'
      · rw [show Job.expected s made x.job = _ from hexpected]
        exact List.mem_append_right _ List.mem_cons_self
      · exact List.mem_append_left _ ((h.mem_outcomes k _).2 ⟨y', hy', hrep, rfl⟩)
  · rw [List.map_append]
    refine List.nodup_append.2 ⟨h.nodup, by simp, fun k hk m hm he => ?_⟩
    cases List.mem_singleton.1 hm
    rw [he] at hk
    exact h.not_mem_of_stage hx hne hk

end Sound

/-! ### Runs -/

theorem Sound.take (h : Sound s ts made r) (hts : ∀ t ∈ ts, '/' ∉ t.name) {turn : Turn}
    (hr : r.take s permits turn = some r') : Sound s ts made r' := by
  cases turn with
  | assign =>
      obtain ⟨t, rest, htables, ⟨owner, howner, rfl⟩ | ⟨hfree, rfl⟩⟩ := eq_of_assign hr
      · exact h.assign_of_owner htables howner
      · exact h.assign_of_free hts htables hfree
  | advance i =>
      obtain ⟨x, step, hx, hstep, rfl⟩ := eq_of_advance hr
      exact h.advance hts hx hstep
  | collect i =>
      obtain ⟨x, status, hx, hstage, rfl⟩ := eq_of_collect hr
      exact h.collect hx hstage

theorem Sound.after (h : Sound s ts made r) (hts : ∀ t ∈ ts, '/' ∉ t.name) {turns : List Turn}
    (hr : r.after s permits turns = some r') : Sound s ts made r' := by
  induction turns generalizing r with
  | nil =>
      cases hr
      exact h
  | cons turn turns ih =>
      rw [after_cons] at hr
      obtain ⟨r₁, hturn, hr⟩ := Option.bind_eq_some_iff.1 hr
      exact ih (h.take hts hturn) hr

/-- Only tables that own their path have a task that goes on. -/
theorem Sound.owner_of_advance (h : Sound s ts made r) (hts : ∀ t ∈ ts, '/' ∉ t.name)
    {turns : List Turn} (hr : r.after s permits turns = some r') {i : Nat}
    (hi : .advance i ∈ turns) : ∃ j, (jobsOf s ts)[i]? = some j ∧ j.owner = none := by
  induction turns generalizing r with
  | nil => cases hi
  | cons turn turns ih =>
      rw [after_cons] at hr
      obtain ⟨r₁, hturn, hr⟩ := Option.bind_eq_some_iff.1 hr
      rcases List.mem_cons.1 hi with rfl | hi
      · obtain ⟨x, step, hx, hstep, -⟩ := eq_of_advance hturn
        refine ⟨x.job, h.job_mem hx, (h.task i x hx).owner_eq_none fun he => ?_⟩
        rw [he] at hstep
        cases hstep
      · exact ih (h.take hts hturn) hr hi

end ParallelRun

end SchemaModels.Tool

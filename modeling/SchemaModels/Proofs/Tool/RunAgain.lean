import SchemaModels.Proofs.Tool.ExistingDirectories
import SchemaModels.Proofs.Tool.RunEffects

/-!
# Running again

A job that is run again finds its file as it left it: the same model is put in its place, or the
file is skipped (`Job.alone_again`). So a second run on the files of the first changes nothing and
comes to the report of the first, in which the written tables have become skipped ones unless files
are updated (`run_again`).
-/

namespace SchemaModels.Tool

open Ddl (Table)
open Path (IsName)

/-! ### Directories -/

/-- Programs about one file leave directories where they are. -/
theorem Program.keepsDirectories_run {p : Path} {x : Program α} (hx : x.IsAbout p) (s : Store) :
    Store.KeepsDirectories s (x.run Store.handle s).2 := by
  induction x generalizing s with
  | pure a => exact fun _ hl => hl
  | call r next ih =>
      have hstep : Store.KeepsDirectories s (Store.handle r s).2 := by
        obtain rfl | ⟨content, rfl⟩ := hx.1
        · exact fun _ hl => hl
        · rw [Store.handle_write]
          intro l hl
          obtain ⟨hs, -⟩ | ⟨m, -, hm, hs, -⟩ := s.written_cases p content
          · rw [hs, hl]
          · have hne : l ≠ m := fun he => hm (he ▸ hl)
            rw [hs, s.node?_put_of_ne _ hne, hl]
      exact fun l hl => ih _ (hx.2 _) _ l (hstep l hl)

variable {s : Settings} {js : List Job} {made final : Store}

theorem Settled.keepsDirectories (h : Settled s js made final) (hjs : Apart s.output js) :
    Store.KeepsDirectories made final := by
  intro l hl
  obtain he | ⟨j, hj, -, hw, -⟩ := h.node?_cases l
  · rw [he, hl]
  · -- The job has put a file where a directory would have stayed.
    obtain ⟨f, hf, hpath⟩ := hjs.isName j hj
    have hkeeps : (j.alone s made).2.node? l = some .directory :=
      Program.keepsDirectories_run (j.isAbout_run s.options s.update) made l hl
    obtain ⟨m, -, -, hlook⟩ := hw.look_alone hf hpath
    rw [(Store.locateFile_eq_ok_of_look hlook).2] at hkeeps
    cases hkeeps

/-! ### One job -/

namespace Status

/-- What a table comes to in a second run. -/
def again (update : Bool) : Status → Status
  | .written p => if update then .written p else .skipped p
  | status => status

theorem again_of_ne_written {status : Status} (h : ∀ p, status ≠ .written p) (update : Bool) :
    status.again update = status := by
  cases status with
  | written p => exact absurd rfl (h p)
  | _ => rfl

end Status

namespace Job

/-- A file that is there is skipped unless files are updated. -/
theorem alone_of_present {j : Job} (hown : j.owner = none) (hupdate : s.update = false)
    {l : Location} {n : Node} (h : made.look j.path = .ok (l, some n)) :
    j.alone s made = (.skipped j.path, made) := by
  simp only [alone, run, hown, hupdate, Bool.false_eq_true, if_false, Program.run,
    Store.handle_isPresent, h, Store.presence, Option.isSome_some]

/-- To write what is there already changes nothing. -/
theorem alone_of_same {j : Job} (hown : j.owner = none) (hupdate : s.update = true)
    {m : Model.Module} (hm : Model.generateTable s.options j.table = .ok m) {l : Location}
    (hout : l.isOutside = false)
    (h : made.look j.path = .ok (l, some (.file (some m.render)))) :
    j.alone s made = (.written j.path, made) := by
  obtain ⟨-, hn⟩ := Store.locateFile_eq_ok_of_look h
  have hput : made.written j.path m.render = made := by
    simp only [Store.written, h]
    exact Store.put_eq_self hout hn
  simp only [alone, run, write, hown, hupdate, hm, if_true, Program.run, Store.handle_write, h,
    hput]
  rfl

/-- A job on the files that it has left. -/
theorem alone_again {j : Job} {f : Text} (hf : IsName f) (hj : j.path = Path.join s.output f)
    (made : Store) :
    j.alone s (j.alone s made).2 = ((j.alone s made).1.again s.update, (j.alone s made).2) := by
  cases hown : j.owner with
  | some owner =>
      simp only [j.alone_of_owner s _ hown]
      rfl
  | none =>
      obtain ⟨hidle, hsame⟩ | ⟨l, hw, -⟩ := j.alone_cases s made hown
      · rw [hsame, Status.again_of_ne_written hidle]
        exact Prod.ext rfl hsame
      · obtain ⟨m, hm, hout, hlook⟩ := hw.look_alone hf hj
        obtain ⟨_, -, -, halone⟩ := hw
        cases hupdate : s.update with
        | true =>
            rw [alone_of_same hown hupdate hm hout hlook, halone]
            rfl
        | false =>
            rw [alone_of_present hown hupdate hlook, halone]
            rfl

end Job

/-! ### All jobs -/

/-- What the outcome of a table comes to in a second run. -/
def Outcome.again (update : Bool) (y : Outcome) : Outcome := ⟨y.table, y.status.again update⟩

/-- A job on the files that all jobs have left. -/
theorem Settled.alone_final (h : Settled s js made final) (hjs : Apart s.output js) {j : Job}
    (hj : j ∈ js) : (j.alone s final).1 = (j.alone s made).1.again s.update ∧
      (j.owner = none → (j.alone s final).2.look j.path = final.look j.path) := by
  cases hown : j.owner with
  | some owner =>
      simp only [j.alone_of_owner s _ hown]
      exact ⟨rfl, nofun⟩
  | none =>
      obtain ⟨f, hf, hpath⟩ := hjs.isName j hj
      have howned := h.owned j hj hown
      obtain ⟨hstatus, hlook⟩ := Job.alone_congr hf hpath howned
      rw [Job.alone_again hf hpath made] at hstatus hlook
      exact ⟨hstatus, fun _ => hlook.trans howned.symm⟩

theorem Settled.again (h : Settled s js made final) (hjs : Apart s.output js) :
    Settled s js final final ∧
      js.map (Job.expected s final) = (js.map (Job.expected s made)).map (·.again s.update) := by
  refine ⟨⟨Store.Kept.refl _ _, fun j hj hown => ?_, fun _ _ _ => rfl⟩, ?_⟩
  · exact ((h.alone_final hjs hj).2 hown).symm
  · rw [List.map_map]
    apply List.map_congr_left
    intro j hj
    simp only [Job.expected, Function.comp_apply, Outcome.again, (h.alone_final hjs hj).1]

/-! ### Reports -/

namespace Report

/-- The report of a second run. -/
def again (update : Bool) (r : Report) : Report := ⟨r.outcomes.map (·.again update)⟩

theorem failures_again (update : Bool) (r : Report) : (r.again update).failures = r.failures := by
  obtain ⟨outcomes⟩ := r
  simp only [failures, again]
  induction outcomes with
  | nil => rfl
  | cons y ys ih =>
      obtain ⟨table, status⟩ := y
      cases status with
      | written p => cases update <;> exact ih
      | skipped p => exact ih
      | failed e => exact congrArg (Outcome.mk table (.failed e) :: ·) ih

end Report

/-! ### Runs -/

/-- The runs on some tables, with what they come to and the files that they leave. -/
inductive Runs (s : Settings) (ts : List Table) (start : Store) :
    Except Error Report → Store → Prop
  /-- The tables are handled one after another. -/
  | inOrder {result : Except Error Report} {final : Store}
      (hrun : (runTables s ts).run Store.handle start = (result, final)) :
      Runs s ts start result final
  /-- The tables are handled at once, with any order of turns. -/
  | atOnce {made : Store} (hmade : start.makeDirectories s.output = (.ok (), made)) {permits : Nat}
      {turns : List Turn} {r : ParallelRun}
      (hr : ({ tables := ts, store := made } : ParallelRun).after s permits turns = some r)
      (hover : r.isOver) : Runs s ts start (.ok r.report) r.store

/-- A run ends at once where the output directory cannot be made, and else comes to what every job
comes to on its own. -/
theorem Runs.cases {ts : List Table} (hts : ∀ t ∈ ts, '/' ∉ t.name) {start final : Store}
    {result : Except Error Report} (h : Runs s ts start result final) :
    (∃ e, start.makeDirectories s.output = (.error e, final) ∧ result = .error (.io e)) ∨
      ∃ made, start.makeDirectories s.output = (.ok (), made) ∧
        result = .ok ⟨(jobsOf s ts).map (Job.expected s made)⟩ ∧
          Settled s (jobsOf s ts) made final := by
  cases h with
  | inOrder hrun =>
      cases hmade : start.makeDirectories s.output with
      | mk answer made =>
          cases answer with
          | error e =>
              simp only [runTables, Program.run, Store.handle, hmade] at hrun
              cases hrun
              exact Or.inl ⟨e, rfl, rfl⟩
          | ok _ =>
              obtain ⟨final', hrun', hsettled⟩ := run_sequence s (apart_jobsOf hts) made
              simp only [runTables, Program.run, Store.handle, hmade, Program.run_bind,
                hrun'] at hrun
              cases hrun
              exact Or.inr ⟨made, rfl, rfl, hsettled⟩
  | atOnce hmade hr hover =>
      have hsound := (ParallelRun.Sound.start s ts _).after hts hr
      exact Or.inr ⟨_, hmade, by rw [hsound.report_eq hover], hsound.settled hover⟩

/-- A second run with the same arguments changes no file. It comes to the report of the first, in
which the tables that were written are skipped if files are not updated; the failures are the same.
Where the first could not make the output directory, the second cannot make it either. -/
theorem run_again (s : Settings) {ts : List Table} (hts : ∀ t ∈ ts, '/' ∉ t.name)
    {start middle : Store} {first : Except Error Report} (hfirst : Runs s ts start first middle) :
    (∃ second final, Runs s ts middle second final) ∧
      ∀ second final, Runs s ts middle second final →
        (∀ l, final.node? l = middle.node? l) ∧
          match first with
          | .ok report => second = .ok (report.again s.update) ∧
            (report.again s.update).failures = report.failures
          | .error e => ∃ d d', e = .io d ∧ second = .error (.io d') ∧ Store.FailsAgain d d' := by
  refine ⟨⟨_, _, .inOrder rfl⟩, fun second final hsecond => ?_⟩
  obtain ⟨e, hfail, rfl⟩ | ⟨made, hmade, rfl, hsettled⟩ := hfirst.cases hts
  · obtain ⟨e', hagain, he'⟩ := Store.makeDirectories_again hfail
    obtain ⟨d, hd, rfl⟩ | ⟨_, hmade, -⟩ := hsecond.cases hts
    · cases hagain.symm.trans hd
      exact ⟨fun _ => rfl, e, e', rfl, rfl, he'⟩
    · cases hagain.symm.trans hmade
  · have hapart := apart_jobsOf (s := s) hts
    have hagain := Store.makeDirectories_of_made hmade (hsettled.keepsDirectories hapart)
    obtain ⟨hstays, hstatuses⟩ := hsettled.again hapart
    obtain ⟨d, hd, -⟩ | ⟨_, hmade', rfl, hsettled'⟩ := hsecond.cases hts
    · cases hagain.symm.trans hd
    · cases hagain.symm.trans hmade'
      refine ⟨fun l => hsettled'.node?_eq hstays l, ?_, Report.failures_again s.update _⟩
      rw [hstatuses]
      rfl

theorem run_again_on_mixedTables :
    (∀ t ∈ mixedTables, '/' ∉ t.name) ∧ ∃ report middle,
      Runs guardedSettings mixedTables storeWithOrders (.ok report) middle ∧
        report.outcomes[0]? = some ⟨"users", .written "models/users.go"⟩ ∧
        ∀ second final, Runs guardedSettings mixedTables middle second final →
          (∀ l, final.node? l = middle.node? l) ∧
            second.toOption.map (·.outcomes[0]?) =
              some (some ⟨"users", .skipped "models/users.go"⟩) := by
  have hnames : ∀ t ∈ mixedTables, '/' ∉ t.name := by decide
  have hwritten : ((runTables guardedSettings mixedTables).run Store.handle
      storeWithOrders).1.toOption.map (·.outcomes[0]?) =
        some (some ⟨"users", .written "models/users.go"⟩) := by
    decide +kernel
  cases hrun : (runTables guardedSettings mixedTables).run Store.handle storeWithOrders with
  | mk result middle =>
      rw [hrun] at hwritten
      cases result with
      | error e => cases hwritten
      | ok report =>
          have hfirst := Runs.inOrder hrun
          have husers := Option.some.inj hwritten
          obtain ⟨-, hagain⟩ := run_again guardedSettings hnames hfirst
          refine ⟨hnames, report, middle, hfirst, husers, fun second final hsecond => ?_⟩
          obtain ⟨hsame, rfl, -⟩ := hagain second final hsecond
          refine ⟨hsame, ?_⟩
          simp only [Except.toOption, Option.map_some, Report.again, List.getElem?_map, husers]
          rfl

end SchemaModels.Tool

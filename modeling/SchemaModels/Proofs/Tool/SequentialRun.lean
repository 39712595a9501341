import SchemaModels.Proofs.Tool.FilePrograms
import SchemaModels.Proofs.Tool.Owners

/-!
# Handling tables one after another

The paths of a run lie beside one another in the output directory, and a path is written by the task
of its owner alone. So each table comes to what it comes to on its own in the store at the start,
and the files are those that the owners leave (`run_sequence`); a store with these files is
determined up to where the files are kept (`Settled.node?_eq`).
-/

namespace SchemaModels.Tool

open Model (Options)
open Path (IsName)

/-! ### Jobs on their own -/

namespace Job

theorem isAbout_write (o : Options) (j : Job) : (j.write o).IsAbout j.path := by
  unfold write
  split
  · trivial
  · refine ⟨Or.inr ⟨_, rfl⟩, fun answer => ?_⟩
    cases answer <;> trivial

theorem isAbout_run (o : Options) (update : Bool) (j : Job) :
    (j.run o update).IsAbout j.path := by
  unfold run
  split
  · trivial
  · split
    · exact isAbout_write o j
    · refine ⟨Or.inl rfl, fun answer => ?_⟩
      dsimp only
      split
      · trivial
      · exact isAbout_write o j
      · trivial

/-- What comes of a job on its own, and the store that it leaves. -/
def alone (s : Settings) (made : Store) (j : Job) : Status × Store :=
  (j.run s.options s.update).run Store.handle made

/-- The outcome of a job on its own. -/
def expected (s : Settings) (made : Store) (j : Job) : Outcome :=
  ⟨j.table.name, (j.alone s made).1⟩

theorem run_outcome (s : Settings) (j : Job) (store : Store) :
    (j.outcome s.options s.update).run Store.handle store =
      (j.expected s store, (j.alone s store).2) := by
  rw [outcome, Program.run_bind]
  rfl

variable {s : Settings}

theorem kept_alone {j : Job} {f : Text} (hf : IsName f) (hj : j.path = Path.join s.output f)
    (made : Store) : Store.Kept s.output made (j.alone s made).2 :=
  Program.kept_run hf (hj ▸ isAbout_run s.options s.update j) made

theorem alone_congr {j : Job} {f : Text} (hf : IsName f) (hj : j.path = Path.join s.output f)
    {made made' : Store} (h : made.look j.path = made'.look j.path) :
    (j.alone s made).1 = (j.alone s made').1 ∧
      (j.alone s made).2.look j.path = (j.alone s made').2.look j.path := by
  have habout := isAbout_run s.options s.update j
  rw [hj] at h habout ⊢
  exact Program.run_congr hf habout h

theorem alone_of_owner (s : Settings) (made : Store) {j : Job} {owner : Text}
    (h : j.owner = some owner) :
    j.alone s made = (.failed (.duplicateOutput j.path j.table.name owner), made) := by
  unfold alone run
  rw [h]
  rfl

end Job

theorem Job.look_alone_of_ne {s : Settings} {j : Job} {f g : Text} (hf : IsName f)
    (hj : j.path = Path.join s.output f) (hg : IsName g)
    (hne : j.owner = none → j.path ≠ Path.join s.output g) (made : Store) :
    (j.alone s made).2.look (Path.join s.output g) = made.look (Path.join s.output g) := by
  cases hown : j.owner with
  | some owner => rw [j.alone_of_owner s made hown]
  | none =>
      have hfg : g ≠ f := fun he => hne hown (he ▸ hj)
      exact Program.look_run_of_ne hf (hj ▸ isAbout_run s.options s.update j) hg hfg made

/-! ### All jobs -/

/-- The files after all jobs: at the path of an owner what its job leaves there, and elsewhere what
was there before. -/
structure Settled (s : Settings) (js : List Job) (made final : Store) : Prop where
  kept : Store.Kept s.output made final
  owned : ∀ j ∈ js, j.owner = none → final.look j.path = (j.alone s made).2.look j.path
  others : ∀ f, IsName f → (∀ j ∈ js, j.owner = none → j.path ≠ Path.join s.output f) →
    final.look (Path.join s.output f) = made.look (Path.join s.output f)

theorem Settled.look_eq {s : Settings} {js : List Job} {made a b : Store}
    (ha : Settled s js made a) (hb : Settled s js made b) {f : Text} (hf : IsName f) :
    a.look (Path.join s.output f) = b.look (Path.join s.output f) := by
  by_cases h : ∃ j ∈ js, j.owner = none ∧ j.path = Path.join s.output f
  · obtain ⟨j, hj, hown, hpath⟩ := h
    rw [← hpath, ha.owned j hj hown, hb.owned j hj hown]
  · have hall : ∀ j ∈ js, j.owner = none → j.path ≠ Path.join s.output f :=
      fun j hj hown hpath => h ⟨j, hj, hown, hpath⟩
    rw [ha.others f hf hall, hb.others f hf hall]

theorem Settled.node?_eq {s : Settings} {js : List Job} {made a b : Store}
    (ha : Settled s js made a) (hb : Settled s js made b) (l : Location) :
    a.node? l = b.node? l := by
  by_cases h : ∃ f, IsName f ∧ made.locateFile (Path.join s.output f) = .ok l
  · obtain ⟨f, hf, hl⟩ := h
    have hla := Store.look_of_locateFile ((ha.kept.locateFile_eq f hf).trans hl)
    have hlb := Store.look_of_locateFile ((hb.kept.locateFile_eq f hf).trans hl)
    have he := hla.symm.trans ((ha.look_eq hb hf).trans hlb)
    exact (Prod.mk.inj (Except.ok.inj he)).2
  · have hall : ∀ f, IsName f → made.locateFile (Path.join s.output f) ≠ .ok l :=
      fun f hf hl => h ⟨f, hf, hl⟩
    rw [ha.kept.node?_eq l hall, hb.kept.node?_eq l hall]

/-- Jobs one after another come to what each of them comes to on its own. -/
theorem run_sequence (s : Settings) {js : List Job} (h : Apart s.output js) (made : Store) :
    ∃ final, (Program.sequence (js.map (Job.outcome s.options s.update))).run Store.handle made =
        (js.map (Job.expected s made), final) ∧ Settled s js made final := by
  induction js generalizing made with
  | nil => exact ⟨made, rfl, Store.Kept.refl _ _, nofun, fun _ _ _ => rfl⟩
  | cons j js ih =>
      obtain ⟨f, hf, hjf⟩ := h.isName j List.mem_cons_self
      obtain ⟨hne, htail⟩ := List.pairwise_cons.1 h.ne_path
      have happart : Apart s.output js :=
        ⟨fun i hi => h.isName i (List.mem_cons_of_mem _ hi), htail⟩
      let made' := (j.alone s made).2
      -- The first job changes nothing for the others.
      have hlook : ∀ i ∈ js, i.owner = none → made'.look i.path = made.look i.path := by
        intro i hi hown
        obtain ⟨g, hg, hig⟩ := happart.isName i hi
        rw [hig]
        exact Job.look_alone_of_ne hf hjf hg (fun hj => hig ▸ hne i hi hj hown) made
      have halone : ∀ i ∈ js, i.owner = none → (i.alone s made').1 = (i.alone s made).1 ∧
          (i.alone s made').2.look i.path = (i.alone s made).2.look i.path := by
        intro i hi hown
        obtain ⟨g, hg, hig⟩ := happart.isName i hi
        exact Job.alone_congr hg hig (hlook i hi hown)
      have hexpected : js.map (Job.expected s made') = js.map (Job.expected s made) := by
        apply List.map_congr_left
        intro i hi
        cases hown : i.owner with
        | some owner => simp only [Job.expected, i.alone_of_owner s _ hown]
        | none => simp only [Job.expected, (halone i hi hown).1]
      obtain ⟨final, hrun, hfinal⟩ := ih happart made'
      refine ⟨final, ?_, ?_, ?_, ?_⟩
      · simp only [List.map_cons, Program.sequence, Program.run_bind, Job.run_outcome]
        rw [hrun, hexpected]
        rfl
      · exact (Job.kept_alone hf hjf made).trans hfinal.kept
      · intro i hi hown
        rcases List.mem_cons.1 hi with rfl | hi
        · rw [hjf]
          exact hfinal.others f hf fun k hk hkown => hjf ▸ (hne k hk hown hkown).symm
        · rw [hfinal.owned i hi hown]
          exact (halone i hi hown).2
      · intro g hg hall
        rw [hfinal.others g hg fun k hk => hall k (List.mem_cons_of_mem _ hk)]
        exact Job.look_alone_of_ne hf hjf hg (hall j List.mem_cons_self) made

end SchemaModels.Tool

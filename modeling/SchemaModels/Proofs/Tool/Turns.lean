import Mathlib.Algebra.GroupWithZero.Nat
import SchemaModels.Proofs.Tool.TaskRest

/-!
# Turns of a parallel run

What each turn does to a run (`eq_of_assign`, `eq_of_advance`, `eq_of_collect`). Every turn leaves
less to do (`turnsLeft_take`), and one can be taken until nothing is left (`exists_turn`), so that a
run ends.
-/

namespace SchemaModels.Tool.ParallelRun

variable {s : Settings} {r r' : ParallelRun} {permits : Nat}

theorem eq_of_assign (h : r.assign s = some r') : ∃ t rest, r.tables = t :: rest ∧
    ((∃ owner, ownerOf? r.claimed (s.pathOf t) = some owner ∧ r' = { r with
        tables := rest
        tasks := r.tasks ++ [⟨⟨t, s.pathOf t, some owner⟩, .reported⟩]
        outcomes := r.outcomes ++ [(r.tasks.length,
          ⟨t.name, .failed (.duplicateOutput (s.pathOf t) t.name owner)⟩)] }) ∨
      (ownerOf? r.claimed (s.pathOf t) = none ∧ r' = { r with
        tables := rest
        claimed := r.claimed ++ [entryOf s t]
        tasks := r.tasks ++ [⟨⟨t, s.pathOf t, none⟩, .waiting⟩] })) := by
  unfold ParallelRun.assign at h
  cases htables : r.tables with
  | nil => simp [htables] at h
  | cons t rest =>
      simp only [htables] at h
      refine ⟨t, rest, rfl, ?_⟩
      cases howner : ownerOf? r.claimed (s.pathOf t) with
      | some owner =>
          rw [show ownerOf? r.claimed (outputPath s.output t.name s.options.tablePrefix) =
            some owner from howner] at h
          exact Or.inl ⟨owner, rfl, (Option.some.inj h).symm⟩
      | none =>
          rw [show ownerOf? r.claimed (outputPath s.output t.name s.options.tablePrefix) =
            none from howner] at h
          exact Or.inr ⟨rfl, (Option.some.inj h).symm⟩

theorem eq_of_advance {i : Nat} (h : r.advance s permits i = some r') : ∃ x step,
    r.tasks[i]? = some x ∧ x.stage.next? s.options s.update x.job = some step ∧ r' = { r with
      tasks := r.tasks.set i ⟨x.job, (step.run Store.handle r.store).1⟩
      store := (step.run Store.handle r.store).2 } := by
  obtain ⟨x, hx, h⟩ := Option.bind_eq_some_iff.1 h
  obtain ⟨step, hstep, h⟩ := Option.bind_eq_some_iff.1 h
  refine ⟨x, step, hx, hstep, ?_⟩
  dsimp only at h
  split at h
  · exact (Option.some.inj h).symm
  · cases h

theorem eq_of_collect {i : Nat} (h : r.collect i = some r') : ∃ x status,
    r.tasks[i]? = some x ∧ x.stage = .ended status ∧ r' = { r with
      tasks := r.tasks.set i ⟨x.job, .reported⟩
      outcomes := r.outcomes ++ [(i, ⟨x.job.table.name, status⟩)] } := by
  obtain ⟨x, hx, h⟩ := Option.bind_eq_some_iff.1 h
  split at h
  · rename_i status hstage htables
    exact ⟨x, status, hx, hstage, (Option.some.inj h).symm⟩
  · cases h

theorem after_cons (r : ParallelRun) (turn : Turn) (turns : List Turn) :
    r.after s permits (turn :: turns) =
      (r.take s permits turn).bind fun r => r.after s permits turns := rfl

/-! ### The end of a run -/

/-- The number of turns after which nothing can be left to do. -/
def turnsLeft (r : ParallelRun) : Nat :=
  6 * r.tables.length + (r.tasks.map (·.stage.turnsLeft)).sum

theorem sum_set_lt {ns : List Nat} {i n m : Nat} (h : ns[i]? = some n) (hm : m < n) :
    (ns.set i m).sum < ns.sum := by
  induction ns generalizing i with
  | nil => simp at h
  | cons k ns ih =>
      cases i with
      | zero =>
          cases h
          simp only [List.set_cons_zero, List.sum_cons]
          omega
      | succ i =>
          have := ih h
          simp only [List.set_cons_succ, List.sum_cons]
          omega

theorem turnsLeft_set_lt {tasks : List Task} {i : Nat} {x y : Task} (hx : tasks[i]? = some x)
    (h : y.stage.turnsLeft < x.stage.turnsLeft) :
    ((tasks.set i y).map (·.stage.turnsLeft)).sum < (tasks.map (·.stage.turnsLeft)).sum := by
  rw [List.map_set]
  refine sum_set_lt ?_ h
  rw [List.getElem?_map, hx]
  rfl

theorem turnsLeft_take {turn : Turn} (hr : r.take s permits turn = some r') :
    r'.turnsLeft < r.turnsLeft := by
  unfold turnsLeft
  cases turn with
  | assign =>
      obtain ⟨t, rest, htables, ⟨owner, -, rfl⟩ | ⟨-, rfl⟩⟩ := eq_of_assign hr
      · simp only [htables, List.length_cons, List.map_append, List.sum_append, List.map_cons,
          List.map_nil, List.sum_cons, List.sum_nil, Stage.turnsLeft]
        omega
      · simp only [htables, List.length_cons, List.map_append, List.sum_append, List.map_cons,
          List.map_nil, List.sum_cons, List.sum_nil, Stage.turnsLeft]
        omega
  | advance i =>
      obtain ⟨x, step, hx, hstep, rfl⟩ := eq_of_advance hr
      exact Nat.add_lt_add_left
        (turnsLeft_set_lt hx (Stage.turnsLeft_next? hstep r.store).1) _
  | collect i =>
      obtain ⟨x, status, hx, hstage, rfl⟩ := eq_of_collect hr
      have hlt : Stage.turnsLeft .reported < x.stage.turnsLeft := by
        rw [hstage]
        exact Nat.zero_lt_one
      exact Nat.add_lt_add_left (turnsLeft_set_lt hx hlt) _

theorem length_le_turnsLeft {turns : List Turn} (hr : r.after s permits turns = some r') :
    turns.length ≤ r.turnsLeft := by
  induction turns generalizing r with
  | nil => exact Nat.zero_le _
  | cons turn turns ih =>
      rw [after_cons] at hr
      obtain ⟨r₁, hturn, hr⟩ := Option.bind_eq_some_iff.1 hr
      have hlt := turnsLeft_take hturn
      have hle := ih hr
      rw [List.length_cons]
      omega

theorem isSome_advance {i : Nat} {x : Task} (hx : r.tasks[i]? = some x)
    (hended : ∀ status, x.stage ≠ .ended status) (hreported : x.stage ≠ .reported)
    (hmay : r.mayAdvance permits x.stage) : (r.advance s permits i).isSome := by
  have hnext : (x.stage.next? s.options s.update x.job).isSome :=
    Stage.isSome_next?_of_ne hended hreported
  obtain ⟨step, hstep⟩ := Option.isSome_iff_exists.1 hnext
  unfold ParallelRun.advance
  simp [hx, hstep, hmay]

/-- A run that is not over goes on: a task that may not begin waits for one that may go on. -/
theorem exists_turn (hpermits : 0 < permits) (h : r.isOver = false) :
    ∃ turn, (r.take s permits turn).isSome := by
  cases htables : r.tables with
  | cons t rest =>
      refine ⟨.assign, ?_⟩
      simp only [ParallelRun.take, ParallelRun.assign, htables]
      split <;> rfl
  | nil =>
      simp only [isOver, htables, List.isEmpty_nil, Bool.true_and, List.all_eq_false] at h
      obtain ⟨x, hmem, hstage⟩ := h
      have hreported : x.stage ≠ .reported := by simpa using hstage
      obtain ⟨i, hx⟩ := List.mem_iff_getElem?.1 hmem
      by_cases hended : ∃ status, x.stage = .ended status
      · obtain ⟨status, hstatus⟩ := hended
        exact ⟨.collect i, by simp [ParallelRun.take, ParallelRun.collect, hx, hstatus, htables]⟩
      · have hended : ∀ status, x.stage ≠ .ended status := fun status he => hended ⟨status, he⟩
        by_cases hmay : r.mayAdvance permits x.stage
        · exact ⟨.advance i, isSome_advance hx hended hreported hmay⟩
        · -- No permit is left, so that a task holds one.
          have hactive : 0 < r.tasks.countP (·.stage.isActive) := by
            unfold mayAdvance at hmay
            split at hmay
            · simp only [decide_eq_true_eq] at hmay
              omega
            · exact absurd rfl hmay
          obtain ⟨y, hymem, hyactive⟩ := List.countP_pos_iff.1 hactive
          obtain ⟨k, hy⟩ := List.mem_iff_getElem?.1 hymem
          refine ⟨.advance k, isSome_advance hy ?_ ?_ ?_⟩
          · intro status he
            simp [he, Stage.isActive] at hyactive
          · intro he
            simp [he, Stage.isActive] at hyactive
          · unfold mayAdvance
            split
            · rename_i he
              simp [he, Stage.isActive] at hyactive
            · rfl

end SchemaModels.Tool.ParallelRun

import SchemaModels.Proofs.Tool.DirectoryPaths
import SchemaModels.Tool.Runner

/-!
# Owners of output paths

The first table that leads to a path owns it. A table's job names the owner of its path where that
is another table (`ownerOf?_take_cases`), so that the jobs that write lead to different files of the
output directory (`apart_jobsOf`).
-/

namespace SchemaModels.Tool

open Ddl (Table)
open Path (IsName)

theorem mem_of_mem_fileStem {tablePrefix table : Text} {c : Char}
    (h : c ∈ fileStem tablePrefix table) : c ∈ table := by
  unfold fileStem at h
  split at h
  · rename_i d t ht
    rw [Text.eq_append_of_after? ht]
    exact List.mem_append_right _ h
  · exact h

theorem isName_go {stem : Text} (h : '/' ∉ stem) : IsName (stem ++ ".go") := by
  have hgo : (".go" : Text) = ['.', 'g', 'o'] := rfl
  refine ⟨fun hm => ?_, ?_, ?_, ?_⟩
  · rcases List.mem_append.1 hm with hm | hm
    · exact h hm
    · exact absurd hm (by decide)
  · simp [hgo]
  · intro he
    have := congrArg List.length he
    simp [hgo] at this
  · intro he
    have := congrArg List.length he
    simp [hgo] at this

theorem isName_fileStem {tablePrefix table : Text} (h : '/' ∉ table) :
    IsName (fileStem tablePrefix table ++ ".go") :=
  isName_go fun hm => h (mem_of_mem_fileStem hm)

namespace Settings

/-- The path of a table's file. -/
def pathOf (s : Settings) (t : Table) : Path := outputPath s.output t.name s.options.tablePrefix

/-- The first table that leads to a path, and its number. -/
def Owns (s : Settings) (ts : List Table) (p : Path) (k : Nat) (u : Table) : Prop :=
  ts[k]? = some u ∧ Path.Same (s.pathOf u) p ∧
    ∀ m < k, ∀ v, ts[m]? = some v → ¬ Path.Same (s.pathOf v) p

theorem Owns.unique {s : Settings} {ts : List Table} {p : Path} {k k' : Nat} {u u' : Table}
    (h : s.Owns ts p k u) (h' : s.Owns ts p k' u') : k = k' ∧ u = u' := by
  have hk : k = k' := by
    rcases Nat.lt_trichotomy k k' with hlt | he | hlt
    · exact absurd h.2.1 (h'.2.2 k hlt u h.1)
    · exact he
    · exact absurd h'.2.1 (h.2.2 k' hlt u' h'.1)
  subst hk
  exact ⟨rfl, Option.some.inj (h.1.symm.trans h'.1)⟩

end Settings

/-- A path with the name of its table. -/
def entryOf (s : Settings) (t : Table) : Path × Text := (s.pathOf t, t.name)

theorem ownerOf?_append_of_same {claimed others : List (Path × Text)} {e : Path × Text}
    (h : ownerOf? claimed e.1 ≠ none) (p : Path) :
    ownerOf? (claimed ++ e :: others) p = ownerOf? (claimed ++ others) p := by
  unfold ownerOf? at h ⊢
  rw [List.find?_append, List.find?_append, List.find?_cons]
  by_cases he : Path.Same e.1 p
  · have hc : (claimed.find? fun c => decide (Path.Same c.1 p)) ≠ none := by
      intro hn
      apply h
      rw [Option.map_eq_none_iff, List.find?_eq_none] at *
      intro c hc hcs
      exact hn c hc (decide_eq_true ((of_decide_eq_true hcs : Path.Same c.1 e.1).trans he))
    cases hf : claimed.find? fun c => decide (Path.Same c.1 p) with
    | none => exact absurd hf hc
    | some c => rfl
  · simp [he]

theorem assign_cons_of_owner {s : Settings} {claimed : List (Path × Text)} {t : Table}
    {owner : Text} (h : ownerOf? claimed (s.pathOf t) = some owner) (ts : List Table) :
    assign s.output s.options.tablePrefix claimed (t :: ts) =
      ⟨t, s.pathOf t, some owner⟩ :: assign s.output s.options.tablePrefix claimed ts := by
  unfold Settings.pathOf at h ⊢
  simp only [assign, h]

theorem assign_cons_of_free {s : Settings} {claimed : List (Path × Text)} {t : Table}
    (h : ownerOf? claimed (s.pathOf t) = none) (ts : List Table) :
    assign s.output s.options.tablePrefix claimed (t :: ts) = ⟨t, s.pathOf t, none⟩ ::
      assign s.output s.options.tablePrefix (claimed ++ [entryOf s t]) ts := by
  unfold entryOf
  unfold Settings.pathOf at h ⊢
  simp only [assign, h]

/-- A table's job by the tables before it. -/
theorem assign_eq_mapIdx (s : Settings) (claimed : List (Path × Text)) (ts : List Table) :
    assign s.output s.options.tablePrefix claimed ts = ts.mapIdx fun i t =>
      ⟨t, s.pathOf t, ownerOf? (claimed ++ (ts.take i).map (entryOf s)) (s.pathOf t)⟩ := by
  induction ts generalizing claimed with
  | nil => rfl
  | cons t ts ih =>
      rw [List.mapIdx_cons]
      cases ho : ownerOf? claimed (s.pathOf t) with
      | some owner =>
          have hne : ownerOf? claimed (entryOf s t).1 ≠ none := by
            rw [show ownerOf? claimed (entryOf s t).1 = some owner from ho]
            exact nofun
          rw [assign_cons_of_owner ho, ih claimed]
          simp only [List.take_succ_cons, List.map_cons, ownerOf?_append_of_same hne]
          simp [ho]
      | none =>
          rw [assign_cons_of_free ho, ih]
          simp only [List.take_succ_cons, List.map_cons, List.append_assoc, List.cons_append,
            List.nil_append]
          simp [ho]

theorem getElem?_jobsOf (s : Settings) (ts : List Table) (i : Nat) :
    (jobsOf s ts)[i]? = ts[i]?.map fun t =>
      ⟨t, s.pathOf t, ownerOf? ((ts.take i).map (entryOf s)) (s.pathOf t)⟩ := by
  rw [jobsOf, assign_eq_mapIdx, List.getElem?_mapIdx]
  rfl

/-- The owner among the first tables is the first of them that leads to the path. -/
theorem ownerOf?_take_cases (s : Settings) (ts : List Table) (n : Nat) (p : Path) :
    (ownerOf? ((ts.take n).map (entryOf s)) p = none ∧
        ∀ k < n, ∀ u, ts[k]? = some u → ¬ Path.Same (s.pathOf u) p) ∨
      ∃ k u, k < n ∧ s.Owns ts p k u ∧
        ownerOf? ((ts.take n).map (entryOf s)) p = some u.name := by
  unfold ownerOf?
  rw [List.find?_map]
  cases hf : (ts.take n).find? ((fun c => decide (Path.Same c.1 p)) ∘ entryOf s) with
  | none =>
      refine Or.inl ⟨rfl, fun k hk u hu hsame => ?_⟩
      rw [List.find?_eq_none] at hf
      refine hf u ?_ (decide_eq_true hsame)
      exact List.mem_of_getElem? (by rw [List.getElem?_take_of_lt hk]; exact hu)
  | some u =>
      obtain ⟨hsame, k, hk, hget, hfirst⟩ := List.find?_eq_some_iff_getElem.1 hf
      have hkn : k < n := Nat.lt_of_lt_of_le hk (List.length_take_le n ts)
      have hu : ts[k]? = some u := by
        rw [← List.getElem?_take_of_lt hkn, List.getElem?_eq_getElem hk, hget]
      refine Or.inr ⟨k, u, hkn, ⟨hu, of_decide_eq_true hsame, ?_⟩, rfl⟩
      intro m hm v hv hv'
      have hmn : m < n := Nat.lt_trans hm hkn
      have hlt : m < (ts.take n).length := Nat.lt_trans hm hk
      have hget' : (ts.take n)[m] = v := by
        apply Option.some.inj
        rw [← List.getElem?_eq_getElem hlt, List.getElem?_take_of_lt hmn, hv]
      have := hfirst m hm
      rw [hget'] at this
      simp [entryOf, hv'] at this

/-- Jobs in one directory of which no two own the same path. -/
structure Apart (o : Path) (js : List Job) : Prop where
  isName : ∀ j ∈ js, ∃ f, IsName f ∧ j.path = Path.join o f
  ne_path : js.Pairwise fun i j => i.owner = none → j.owner = none → i.path ≠ j.path

theorem apart_jobsOf {s : Settings} {ts : List Table} (h : ∀ t ∈ ts, '/' ∉ t.name) :
    Apart s.output (jobsOf s ts) := by
  refine ⟨fun j hj => ?_, ?_⟩
  · obtain ⟨i, hi⟩ := List.mem_iff_getElem?.1 hj
    rw [getElem?_jobsOf] at hi
    obtain ⟨t, ht, rfl⟩ := Option.map_eq_some_iff.1 hi
    exact ⟨_, isName_fileStem (h t (List.mem_of_getElem? ht)), rfl⟩
  · rw [List.pairwise_iff_getElem]
    intro i k hi hk hik hiown hkown hpath
    have hti := getElem?_jobsOf s ts i
    have htk := getElem?_jobsOf s ts k
    rw [List.getElem?_eq_getElem hi] at hti
    rw [List.getElem?_eq_getElem hk] at htk
    obtain ⟨t, ht, hjt⟩ := Option.map_eq_some_iff.1 hti.symm
    obtain ⟨u, hu, hju⟩ := Option.map_eq_some_iff.1 htk.symm
    rw [← hjt, ← hju] at hpath
    rw [← hju] at hkown
    obtain ⟨-, hfree⟩ | ⟨m, v, -, -, hv⟩ := ownerOf?_take_cases s ts k (s.pathOf u)
    · exact hfree i hik t ht (congrArg Path.components hpath)
    · rw [hv] at hkown
      cases hkown

end SchemaModels.Tool

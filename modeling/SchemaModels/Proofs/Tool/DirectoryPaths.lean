import SchemaModels.Proofs.Text.Parts
import SchemaModels.Tool.Path

/-!
# Paths of files in a directory

The parts of a path to a file in a directory are those of the directory and the file's name
(`Path.parts_join`).
-/

namespace SchemaModels.Tool.Path

/-- A name that a file in a directory can have. -/
structure IsName (f : Text) : Prop where
  no_slash : '/' ∉ f
  ne_nil : f ≠ []
  ne_dot : f ≠ ['.']
  ne_dots : f ≠ ['.', '.']

theorem isAbsolute_append_slash (p t : Text) :
    isAbsolute (p ++ '/' :: t) = isAbsolute (p ++ ['/']) := by
  cases p <;> rfl

theorem IsName.isAbsolute_eq {f : Text} (hf : IsName f) : isAbsolute f = false := by
  cases f with
  | nil => rfl
  | cons c f =>
      have hc : c ≠ '/' := fun he => hf.no_slash (he ▸ List.mem_cons_self)
      simp [isAbsolute, hc]

theorem parts_append_slash (p : Path) {f : Text} (hf : IsName f) :
    parts (p ++ '/' :: f) = parts (p ++ ['/']) ++ [f] := by
  have hsplit : Text.splitOn '/' f = [f] := Text.splitOn_of_not_mem hf.no_slash
  have hempty : Text.splitOn '/' (p ++ ['/']) = Text.splitOn '/' p ++ [[]] :=
    Text.splitOn_append '/' p []
  unfold parts
  rw [isAbsolute_append_slash, Text.splitOn_append, hsplit, hempty]
  simp [hf.ne_nil]

theorem parts_slash {p : Path} (hp : p ≠ []) : parts (p ++ ['/']) = parts p := by
  have hempty : Text.splitOn '/' (p ++ ['/']) = Text.splitOn '/' p ++ [[]] :=
    Text.splitOn_append '/' p []
  have habs : isAbsolute (p ++ ['/']) = isAbsolute p := by
    cases p with
    | nil => exact absurd rfl hp
    | cons c p => rfl
  unfold parts
  rw [habs, hempty]
  simp

/-- How a file in a directory is written. -/
theorem join_cases (o : Path) {f : Text} (hf : IsName f) :
    (o = [] ∧ join o f = f) ∨ (∃ p, o = p ++ ['/'] ∧ join o f = p ++ '/' :: f) ∨
      (o ≠ [] ∧ join o f = o ++ '/' :: f) := by
  by_cases ho : o = []
  · exact Or.inl ⟨ho, by simp [join, ho]⟩
  · by_cases hlast : o.getLast? = some '/'
    · obtain ⟨p, rfl⟩ := List.getLast?_eq_some_iff.1 hlast
      exact Or.inr (Or.inl ⟨p, rfl, by simp [join, hf.isAbsolute_eq]⟩)
    · exact Or.inr (Or.inr ⟨ho, by simp [join, hf.isAbsolute_eq, ho, hlast]⟩)

theorem parts_join (o : Path) {f : Text} (hf : IsName f) : parts (join o f) = parts o ++ [f] := by
  obtain ⟨rfl, hj⟩ | ⟨p, rfl, hj⟩ | ⟨ho, hj⟩ := join_cases o hf
  · rw [hj]
    simp [parts, hf.isAbsolute_eq, Text.splitOn_of_not_mem hf.no_slash, hf.ne_nil]
    simp [isAbsolute, Text.splitOn]
  · rw [hj, parts_append_slash p hf]
  · rw [hj, parts_append_slash o hf, parts_slash ho]

theorem getLast?_join_ne (o : Path) {f : Text} (hf : IsName f) :
    (join o f).getLast? ≠ some '/' := by
  obtain ⟨x, hx⟩ : ∃ x, f.getLast? = some x := Option.ne_none_iff_exists'.1 (by simp [hf.ne_nil])
  have hne : x ≠ '/' := fun he => hf.no_slash (he ▸ List.mem_of_getLast? hx)
  obtain ⟨-, hj⟩ | ⟨p, -, hj⟩ | ⟨-, hj⟩ := join_cases o hf
  · simp [hj, hx, hne]
  · simp [hj, List.getLast?_append, List.getLast?_cons, hx, hne]
  · simp [hj, List.getLast?_append, List.getLast?_cons, hx, hne]

end SchemaModels.Tool.Path

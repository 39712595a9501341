import SchemaModels.Proofs.Tool.DirectoryPaths

/-!
# Direct children of a directory

A path is a direct child of a directory if it goes one name further (`IsChild`). A text with slashes
leads through a folder, which is what stands up to its last slash. So it names a direct child of a
directory exactly if the folder, seen from the directory, is the directory itself
(`isChild_join_iff`).
-/

namespace SchemaModels.Tool.Path

/-- The path is that of the directory with one name behind it. -/
def IsChild (o p : Path) : Prop := ∃ f, IsName f ∧ components p = components o ++ [f]

/-! ### Folders -/

/-- A text up to its last slash. -/
def folder (t : Text) : Text := (t.reverse.dropWhile (· ≠ '/')).reverse

/-- Behind its folder a text has no slash. -/
theorem folder_cases (t : Text) : ∃ f, '/' ∉ f ∧ t = folder t ++ f ∧
    (folder t = [] ∨ ∃ d, folder t = d ++ ['/']) := by
  unfold folder
  obtain hall | ⟨s, c, u, ht, hs, hc⟩ := Text.all_or_exists_first (· ≠ '/') t.reverse
  · refine ⟨t, fun h => ?_, ?_⟩
    · simpa using List.all_eq_true.1 hall '/' (List.mem_reverse.2 h)
    · rw [Text.dropWhile_of_all hall]
      exact ⟨rfl, Or.inl rfl⟩
  · have hslash : c = '/' := by simpa using hc
    subst hslash
    refine ⟨s.reverse, fun h => ?_, ?_⟩
    · simpa using List.all_eq_true.1 hs '/' (List.mem_reverse.1 h)
    · rw [ht, Text.dropWhile_first hs hc]
      refine ⟨?_, Or.inr ⟨u.reverse, List.reverse_cons⟩⟩
      rw [← List.reverse_append, ← ht, List.reverse_reverse]

theorem folder_of_not_mem {t : Text} (h : '/' ∉ t) : folder t = [] := by
  obtain ⟨f, -, ht, hnil | ⟨d, hd⟩⟩ := folder_cases t
  · exact hnil
  · refine absurd ?_ h
    rw [ht, hd]
    exact List.mem_append_left f (List.mem_append_right d List.mem_cons_self)

/-! ### Components -/

/-- Directories that a name can be put behind as it is. -/
def IsOpen (d : Path) : Prop := d = [] ∨ ∃ p, d = p ++ ['/']

theorem components_append {d : Path} (hd : IsOpen d) {f : Text} (hf : IsName f) :
    components (d ++ f) = components d ++ [f] := by
  have hparts : parts (d ++ f) = parts d ++ [f] := by
    obtain rfl | ⟨p, rfl⟩ := hd
    · simpa [join] using parts_join [] hf
    · rw [List.append_assoc]
      exact parts_append_slash p hf
  unfold components
  rw [hparts]
  cases parts d with
  | nil => rfl
  | cons first others => simp [List.filter_append, hf.ne_dot]

theorem IsOpen.append {d : Path} (hd : IsOpen d) {o : Path} (ho : IsOpen o) : IsOpen (o ++ d) := by
  obtain rfl | ⟨p, rfl⟩ := hd
  · rwa [List.append_nil]
  · exact Or.inr ⟨o ++ p, (List.append_assoc o p _).symm⟩

theorem isAbsolute_append {d : Path} (hd : IsOpen d) {f : Text} (hf : IsName f) :
    isAbsolute (d ++ f) = isAbsolute d := by
  obtain rfl | ⟨p, rfl⟩ := hd
  · exact hf.isAbsolute_eq
  · cases p <;> rfl

/-- A name behind a folder is a name behind the folder's place in a directory. -/
theorem join_append (o : Path) {d : Path} (hd : IsOpen d) {f : Text} (hf : IsName f) :
    join o (d ++ f) = join o d ++ f ∧ IsOpen (join o d) := by
  unfold join
  rw [isAbsolute_append hd hf]
  split
  · exact ⟨rfl, hd⟩
  · split
    · rename_i hlast
      obtain ⟨p, rfl⟩ := List.getLast?_eq_some_iff.1 hlast
      exact ⟨(List.append_assoc _ d f).symm, hd.append (Or.inr ⟨p, rfl⟩)⟩
    · have hslash : IsOpen (o ++ ['/']) := Or.inr ⟨o, rfl⟩
      exact ⟨by simp, by simpa using hd.append hslash⟩

/-- A directory is also its own folder. -/
theorem same_join_nil (o : Path) : Same (join o []) o := by
  by_cases ho : o = []
  · subst ho
    rfl
  · by_cases hlast : o.getLast? = some '/'
    · simp [Same, join, isAbsolute, ho, hlast]
    · simp [Same, join, isAbsolute, ho, hlast, components, parts_slash ho]

/-- A text with an ending that makes names names a direct child of a directory exactly if its
folder leads to the directory. -/
theorem isChild_join_iff (o : Path) {e : Text} (he : ∀ f, '/' ∉ f → IsName (f ++ e)) (t : Text) :
    IsChild o (join o (t ++ e)) ↔ Same (join o (folder t)) o := by
  obtain ⟨f, hslash, ht, hopen⟩ := folder_cases t
  have hname := he f hslash
  obtain ⟨hjoin, hjoined⟩ := join_append o hopen hname
  have hcomponents : components (join o (t ++ e)) = components (join o (folder t)) ++ [f ++ e] := by
    rw [← components_append hjoined hname, ← hjoin, ← List.append_assoc, ← ht]
  unfold IsChild
  rw [hcomponents]
  constructor
  · rintro ⟨g, -, hg⟩
    exact (List.append_inj' hg rfl).1
  · intro hsame
    exact ⟨f ++ e, hname, congrArg (· ++ [f ++ e]) hsame⟩

end SchemaModels.Tool.Path

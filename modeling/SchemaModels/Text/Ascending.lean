import SchemaModels.Text.Basic

/-!
# Sets of texts

A set of texts is the list of its members in ascending order, each once. Texts are ordered by the
code points of their characters. `mem_insert`, `mem_ofList` and `mem_union` say what the operations
do to the members, and `ext` that the members determine the set.
-/

namespace SchemaModels

structure TextSet where
  toList : List Text
  ascending : toList.Pairwise (· < ·) := by simp
  deriving DecidableEq

namespace TextSet

instance : Membership Text TextSet := ⟨fun s t => t ∈ s.toList⟩

theorem mem_def {t : Text} {s : TextSet} : t ∈ s ↔ t ∈ s.toList := Iff.rfl

instance (t : Text) (s : TextSet) : Decidable (t ∈ s) :=
  inferInstanceAs (Decidable (t ∈ s.toList))

def empty : TextSet := ⟨[], .nil⟩

instance : Inhabited TextSet := ⟨empty⟩

@[simp] theorem not_mem_empty (t : Text) : t ∉ empty := by simp [mem_def, empty]

/-- Puts a text at its place in an ascending list. -/
def place (t : Text) : List Text → List Text
  | [] => [t]
  | u :: us => if t < u then t :: u :: us else if t = u then u :: us else u :: place t us

theorem mem_place {t v : Text} {us : List Text} : v ∈ place t us ↔ v = t ∨ v ∈ us := by
  induction us with
  | nil => simp [place]
  | cons u us ih =>
    unfold place
    split
    · simp
    · split
      · simp_all
      · simp only [List.mem_cons, ih]
        grind

theorem pairwise_place {t : Text} {us : List Text} (h : us.Pairwise (· < ·)) :
    (place t us).Pairwise (· < ·) := by
  induction us with
  | nil => simp [place]
  | cons u us ih =>
    rw [List.pairwise_cons] at h
    unfold place
    split
    · rename_i htu
      refine List.pairwise_cons.2 ⟨fun v hv => ?_, List.pairwise_cons.2 h⟩
      rcases List.mem_cons.1 hv with rfl | hv
      · exact htu
      · exact List.lt_trans htu (h.1 v hv)
    · split
      · exact List.pairwise_cons.2 h
      · rename_i htu hne
        refine List.pairwise_cons.2 ⟨fun v hv => ?_, ih h.2⟩
        rcases mem_place.1 hv with rfl | hv
        · rcases List.le_iff_lt_or_eq.1 (List.not_lt.1 htu) with h | h
          · exact h
          · exact absurd h.symm hne
        · exact h.1 v hv

def insert (t : Text) (s : TextSet) : TextSet := ⟨place t s.toList, pairwise_place s.ascending⟩

@[simp] theorem mem_insert {t v : Text} {s : TextSet} : v ∈ insert t s ↔ v = t ∨ v ∈ s :=
  mem_place

def ofList (ts : List Text) : TextSet := ts.foldr insert empty

@[simp] theorem mem_ofList {v : Text} {ts : List Text} : v ∈ ofList ts ↔ v ∈ ts := by
  induction ts with
  | nil => simp [ofList]
  | cons t ts ih => simpa [ofList] using or_congr Iff.rfl ih

def union (s u : TextSet) : TextSet := s.toList.foldr insert u

@[simp] theorem mem_union {v : Text} {s u : TextSet} : v ∈ s.union u ↔ v ∈ s ∨ v ∈ u := by
  rw [mem_def (s := s), union]
  induction s.toList with
  | nil => simp
  | cons t ts ih => simp [ih, or_assoc]

/-- Two ascending lists with the same members are equal. -/
theorem eq_of_mem_iff {ts us : List Text} (ht : ts.Pairwise (· < ·)) (hu : us.Pairwise (· < ·))
    (h : ∀ v, v ∈ ts ↔ v ∈ us) : ts = us := by
  induction ts generalizing us with
  | nil =>
    cases us with
    | nil => rfl
    | cons u us => simpa using h u
  | cons t ts ih =>
    cases us with
    | nil => simpa using h t
    | cons u us =>
      rw [List.pairwise_cons] at ht hu
      have htu : t = u := by
        rcases List.mem_cons.1 ((h t).1 (by simp)) with e | ht'
        · exact e
        · rcases List.mem_cons.1 ((h u).2 (by simp)) with e | hu'
          · exact e.symm
          · exact absurd (List.lt_trans (ht.1 u hu') (hu.1 t ht')) (List.lt_irrefl t)
      subst htu
      refine congrArg (t :: ·) (ih ht.2 hu.2 fun v => ?_)
      constructor
      · intro hv
        rcases List.mem_cons.1 ((h v).1 (by simp [hv])) with rfl | h'
        · exact absurd (ht.1 v hv) (List.lt_irrefl v)
        · exact h'
      · intro hv
        rcases List.mem_cons.1 ((h v).2 (by simp [hv])) with rfl | h'
        · exact absurd (hu.1 v hv) (List.lt_irrefl v)
        · exact h'

@[ext] theorem ext {s u : TextSet} (h : ∀ v, v ∈ s ↔ v ∈ u) : s = u := by
  obtain ⟨ts, ht⟩ := s
  obtain ⟨us, hu⟩ := u
  congr
  exact eq_of_mem_iff ht hu h

end TextSet

end SchemaModels

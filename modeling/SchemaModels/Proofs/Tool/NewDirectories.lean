import SchemaModels.Tool.Store

/-!
# Making directories

To make a directory and those above it puts directories where nothing was, and changes nothing else
(`Store.grows_makeDirectories`). So the files of a store stay as they are, also where the way to the
directory ends halfway.
-/

namespace SchemaModels.Tool.Store

/-- The file at a place: its text, or no text if its bytes are none. -/
def file? (s : Store) (l : Location) : Option (Option Text) :=
  match s.node? l with
  | some (.file text) => some text
  | _ => none

theorem file?_eq_some_iff {s : Store} {l : Location} {text : Option Text} :
    s.file? l = some text ↔ s.node? l = some (.file text) := by
  unfold file?
  split
  · rename_i t ht
    simp [ht]
  · rename_i hn
    exact iff_of_false nofun (hn text)

theorem file?_congr {s t : Store} {l : Location} (h : t.node? l = s.node? l) :
    t.file? l = s.file? l := by
  unfold file?
  rw [h]

/-- Nothing but new directories tells the second store from the first. -/
def Grows (s t : Store) : Prop :=
  ∀ l, t.node? l = s.node? l ∨ (s.node? l = none ∧ t.node? l = some .directory)

theorem Grows.refl (s : Store) : Grows s s := fun _ => Or.inl rfl

theorem Grows.trans {s t u : Store} (h : Grows s t) (h' : Grows t u) : Grows s u := by
  intro l
  rcases h l with hst | ⟨hs, ht⟩
  · rw [← hst]
    exact h' l
  · rcases h' l with htu | ⟨hnone, -⟩
    · exact Or.inr ⟨hs, htu.trans ht⟩
    · rw [ht] at hnone
      cases hnone

theorem Grows.file?_eq {s t : Store} (h : Grows s t) (l : Location) : t.file? l = s.file? l := by
  rcases h l with he | ⟨hs, ht⟩
  · exact file?_congr he
  · simp only [file?, hs, ht]

theorem grows_makeDirectory {s t : Store} {l : Location} (h : s.makeDirectory l = .ok t) :
    Grows s t := by
  unfold makeDirectory at h
  split at h
  · rename_i hn
    cases h
    have hl : l.isOutside = false := Bool.eq_false_iff.2 fun hout => by simp [node?, hout] at hn
    intro m
    by_cases hm : m = l
    · rw [hm]
      exact Or.inr ⟨hn, s.node?_put_self .directory hl⟩
    · exact Or.inl (s.node?_put_of_ne .directory hm)
  · cases h
    exact Grows.refl s
  · cases h

theorem grows_commit {s : Store} {made : Except IoError Store} (h : ∀ t, made = .ok t → Grows s t) :
    Grows s (s.commit made).2 := by
  cases made with
  | error e => exact Grows.refl s
  | ok t => exact h t rfl

theorem grows_makeWay (s : Store) (l : Location) (parts : List Text) :
    Grows s (s.makeWay l parts).2 := by
  induction parts generalizing s l with
  | nil => exact Grows.refl s
  | cons part parts ih =>
      unfold makeWay
      split
      · exact Grows.refl s
      · rename_i l' _
        split
        · exact Grows.refl s
        · rename_i t ht
          exact (grows_makeDirectory ht).trans (ih t l')

theorem grows_makeDirectories (s : Store) (p : Path) : Grows s (s.makeDirectories p).2 := by
  have hmake : ∀ s t : Store, (s.locate p.parts).bind s.makeDirectory = .ok t → Grows s t := by
    intro s t h
    cases hl : s.locate p.parts with
    | error e => simp [hl, Except.bind] at h
    | ok l => exact grows_makeDirectory (by simpa [hl, Except.bind] using h)
  unfold makeDirectories
  dsimp only
  split
  · exact Grows.refl s
  · split
    · have hway := grows_makeWay s (origin p.components.dropLast).1 (origin p.components.dropLast).2
      split
      · rename_i heq
        rw [heq] at hway
        exact hway
      · rename_i t heq
        rw [heq] at hway
        exact hway.trans (grows_commit (hmake t))
    · rename_i made _
      apply grows_commit
      intro t ht
      cases hc : check p with
      | error e => simp [hc, bind, Except.bind] at ht
      | ok _ =>
          apply hmake s t
          simpa [hc, bind, Except.bind] using ht

end SchemaModels.Tool.Store

import SchemaModels.Proofs.Results
import SchemaModels.Proofs.Tool.NewDirectories
import SchemaModels.Proofs.Tool.Siblings

/-!
# Making directories again

A directory that has been made is there as long as directories stay (`Store.KeepsDirectories`), and
then to make it changes nothing (`makeDirectories_of_made`). Where it cannot be made, another try
fails as well and makes nothing more; a file that stands in the way of the first try can be met
earlier by the second (`makeDirectories_again`).
-/

namespace SchemaModels.Tool.Store

variable {s t : Store} {l : Location}

/-- Every directory of the first store is one in the second. -/
def KeepsDirectories (s t : Store) : Prop :=
  ∀ l, s.node? l = some .directory → t.node? l = some .directory

theorem Grows.keepsDirectories (h : Grows s t) : KeepsDirectories s t := by
  intro l hl
  obtain he | ⟨hnone, -⟩ := h l
  · rw [he, hl]
  · rw [hl] at hnone
    cases hnone

/-! ### Walking through directories -/

/-- A step out of a directory fails only at a name that is too long. -/
theorem eq_of_step_error (hl : s.node? l = some .directory) {part : Text} {e : IoError}
    (h : s.step l part = .error e) : e = .invalidFilename := by
  unfold step at h
  rw [hl] at h
  dsimp only at h
  split at h
  · exact (Except.error.inj h).symm
  · split at h
    · cases h
    · split at h <;> cases h

theorem step_eq_of_keepsDirectories (h : KeepsDirectories s t) (hl : s.node? l = some .directory)
    (part : Text) : t.step l part = s.step l part :=
  step_congr ((h l hl).trans hl.symm) part

theorem walk_of_keepsDirectories (h : KeepsDirectories s t) {parts : List Text} {l' : Location}
    (hw : s.walk l parts = .ok l') : t.walk l parts = .ok l' := by
  induction parts generalizing l with
  | nil => exact hw
  | cons part parts ih =>
      obtain ⟨l₁, hstep, hw⟩ := exists_of_bind_ok hw
      have hstep' := (step_eq_of_keepsDirectories h (node?_of_step hstep) part).trans hstep
      simp only [walk, hstep']
      exact ih hw

theorem locate_of_keepsDirectories (h : KeepsDirectories s t) {parts : List Text}
    (hl : s.locate parts = .ok l) : t.locate parts = .ok l :=
  walk_of_keepsDirectories h hl

/-- A walk that begins at no directory fails at its first step, whatever the step is. -/
theorem walk_of_not_directory (hl : s.node? l ≠ some .directory) (part part' : Text)
    (parts parts' : List Text) : s.walk l (part :: parts) = s.walk l (part' :: parts') := by
  simp only [walk, step]
  split
  · rfl
  · rfl
  · exact absurd ‹_› hl

theorem walk_of_file {text : Option Text} (hl : s.node? l = some (.file text)) {parts : List Text}
    (hne : parts ≠ []) : s.walk l parts = .error .notADirectory := by
  obtain ⟨part, parts, rfl⟩ := List.exists_cons_of_ne_nil hne
  simp only [walk, step, hl]
  rfl

theorem step_dot (hl : s.node? l = some .directory) : s.step l ['.'] = .ok l := by
  have hsize : '.'.utf8Size ≤ 255 := by decide
  simp [step, hl, hsize]

/-- Dots do not keep a walk from failing, nor change how it fails. -/
theorem walk_error_of_filter {parts : List Text} {e : IoError}
    (h : s.walk l (parts.filter (· ≠ ['.'])) = .error e) : s.walk l parts = .error e := by
  induction parts generalizing l with
  | nil => exact h
  | cons part parts ih =>
      by_cases hpart : part = ['.']
      · subst hpart
        rw [List.filter_cons_of_neg (by simp)] at h
        have hrest := ih h
        by_cases hl : s.node? l = some .directory
        · simp only [walk, step_dot hl]
          exact hrest
        · cases parts with
          | nil => cases hrest
          | cons part parts => rw [walk_of_not_directory hl _ part _ parts, hrest]
      · rw [List.filter_cons_of_pos (by simpa using hpart)] at h
        simp only [walk] at h ⊢
        cases hstep : s.step l part with
        | error e' =>
            rw [hstep] at h
            exact h
        | ok l₁ =>
            rw [hstep] at h
            exact ih h

/-! ### One directory -/

theorem node?_of_makeDirectory (h : s.makeDirectory l = .ok t) : t.node? l = some .directory := by
  unfold makeDirectory at h
  split at h
  · rename_i hn
    cases h
    have hl : l.isOutside = false := Bool.eq_false_iff.2 fun hout => by simp [node?, hout] at hn
    exact s.node?_put_self .directory hl
  · rename_i hn
    cases h
    exact hn
  · cases h

theorem makeDirectory_eq_self (h : s.node? l = some .directory) : s.makeDirectory l = .ok s := by
  simp only [makeDirectory, h]

theorem of_makeDirectory_error {e : IoError} (h : s.makeDirectory l = .error e) :
    e = .alreadyExists ∧ ∃ text, s.node? l = some (.file text) := by
  unfold makeDirectory at h
  split at h
  · cases h
  · cases h
  · rename_i text hn
    exact ⟨(Except.error.inj h).symm, text, hn⟩

/-! ### The way to a directory -/

theorem node?_origin (s : Store) (parts : List Text) :
    s.node? (origin parts).1 = some .directory := by
  unfold origin
  split <;> rfl

theorem makeWay_again {parts : List Text} (hl : s.node? l = some .directory)
    (h : s.makeWay l parts = (.ok (), t)) : t.makeWay l parts = (.ok (), t) := by
  have hkeeps := (grows_makeWay s l parts).keepsDirectories
  rw [h] at hkeeps
  induction parts generalizing s l with
  | nil => rfl
  | cons part parts ih =>
      unfold makeWay at h ⊢
      rw [step_eq_of_keepsDirectories hkeeps hl]
      split at h
      · cases h
      · rename_i l₁ hstep
        split at h
        · cases h
        · rename_i s₁ hmade
          have hl₁ := node?_of_makeDirectory hmade
          have hkeeps₁ := (grows_makeWay s₁ l₁ parts).keepsDirectories
          rw [h] at hkeeps₁
          rw [makeDirectory_eq_self (hkeeps₁ l₁ hl₁)]
          exact ih hl₁ h hkeeps₁

/-- How another try fails where the first one has failed: it can meet the file that stood in the way
on its way further down. -/
def FailsAgain (e e' : IoError) : Prop := e' = e ∨ e = .alreadyExists ∧ e' = .notADirectory

/-- Where a way could not be made, it cannot be gone either. -/
theorem walk_error_of_makeWay {parts : List Text} {e : IoError} (hl : s.node? l = some .directory)
    (h : s.makeWay l parts = (.error e, t)) (last : Text) :
    ∃ e', t.walk l (parts ++ [last]) = .error e' ∧ e' ≠ .notFound ∧ FailsAgain e e' := by
  have hkeeps := (grows_makeWay s l parts).keepsDirectories
  rw [h] at hkeeps
  induction parts generalizing s l with
  | nil => cases h
  | cons part parts ih =>
      unfold makeWay at h
      rw [List.cons_append]
      simp only [walk]
      rw [step_eq_of_keepsDirectories hkeeps hl]
      split at h
      · rename_i e' hstep
        cases h
        have he := eq_of_step_error hl hstep
        exact ⟨e, by rw [hstep]; rfl, by simp [he], Or.inl rfl⟩
      · rename_i l₁ hstep
        rw [hstep]
        split at h
        · rename_i e' hmade
          cases h
          obtain ⟨rfl, text, hfile⟩ := of_makeDirectory_error hmade
          refine ⟨.notADirectory, ?_, by simp, Or.inr ⟨rfl, rfl⟩⟩
          exact walk_of_file hfile (List.append_ne_nil_of_right_ne_nil _ (List.cons_ne_nil _ _))
        · rename_i s₁ hmade
          have hkeeps₁ := (grows_makeWay s₁ l₁ parts).keepsDirectories
          rw [h] at hkeeps₁
          exact ih (node?_of_makeDirectory hmade) h hkeeps₁

/-- A directory where the others of its path are there. -/
def makeAt (s : Store) (p : Path) : Except IoError Store :=
  (s.locate p.parts).bind s.makeDirectory

/-- The way to the directory above a path. -/
def makeAbove (s : Store) (p : Path) : Except IoError Unit × Store :=
  s.makeWay (origin p.components.dropLast).1 (origin p.components.dropLast).2

variable {p : Path} {e : IoError}

theorem check_ne_notFound (hp : p ≠ []) : check p ≠ .error .notFound := by
  simp only [check, if_neg hp]
  split
  · exact nofun
  · split <;> exact nofun

theorem makeDirectories_of_check (s : Store) (hp : p ≠ []) (hc : check p = .error e) :
    s.makeDirectories p = (.error e, s) := by
  have he : e ≠ .notFound := fun he => check_ne_notFound hp (he ▸ hc)
  simp only [makeDirectories, if_neg hp, hc, bind, Except.bind]
  split
  · exact absurd (Except.error.inj ‹_›) he
  · rfl

theorem makeDirectories_eq (s : Store) (hp : p ≠ []) (hc : check p = .ok ()) :
    s.makeDirectories p = match s.makeAt p with
      | .error .notFound => match s.makeAbove p with
        | (.error e, t) => (.error e, t)
        | (.ok _, t) => t.commit (t.makeAt p)
      | made => s.commit made := by
  simp only [makeDirectories, if_neg hp, hc]
  rfl

theorem makeDirectories_of_makeAt (hp : p ≠ []) (hc : check p = .ok ()) (h : s.makeAt p = .ok t) :
    s.makeDirectories p = (.ok (), t) := by
  rw [makeDirectories_eq s hp hc, h]
  rfl

theorem makeDirectories_of_makeAt_error (hp : p ≠ []) (hc : check p = .ok ()) (he : e ≠ .notFound)
    (h : s.makeAt p = .error e) : s.makeDirectories p = (.error e, s) := by
  rw [makeDirectories_eq s hp hc, h]
  split
  · exact absurd (Except.error.inj ‹_›) he
  · rfl

theorem of_commit_ok {made : Except IoError Store} (h : s.commit made = (.ok (), t)) :
    made = .ok t := by
  cases made with
  | error e => cases h
  | ok u =>
      cases h
      rfl

theorem of_commit_error {made : Except IoError Store} (h : s.commit made = (.error e, t)) :
    made = .error e ∧ t = s := by
  cases made with
  | error e' =>
      cases h
      exact ⟨rfl, rfl⟩
  | ok u => cases h

/-- A directory was made at last where everything else of its path was there. -/
theorem exists_makeAt (hp : p ≠ []) (h : s.makeDirectories p = (.ok (), t)) :
    check p = .ok () ∧ ∃ u : Store, u.makeAt p = .ok t := by
  cases hc : check p with
  | error e =>
      rw [makeDirectories_of_check s hp hc] at h
      cases h
  | ok _ =>
      refine ⟨rfl, ?_⟩
      rw [makeDirectories_eq s hp hc] at h
      split at h
      · split at h
        · cases h
        · exact ⟨_, of_commit_ok h⟩
      · exact ⟨s, of_commit_ok h⟩

/-- To make a directory that has been made changes nothing, as long as directories stay. -/
theorem makeDirectories_of_made {u : Store} (h : s.makeDirectories p = (.ok (), t))
    (hu : KeepsDirectories t u) : u.makeDirectories p = (.ok (), u) := by
  by_cases hp : p = []
  · simp only [makeDirectories, if_pos hp]
  · obtain ⟨hc, v, hmade⟩ := exists_makeAt hp h
    obtain ⟨l, hl, hmade⟩ := exists_of_bind_ok hmade
    have hgrows := (grows_makeDirectory hmade).keepsDirectories
    have hl' := locate_of_keepsDirectories hu (locate_of_keepsDirectories hgrows hl)
    apply makeDirectories_of_makeAt hp hc
    rw [makeAt, hl']
    exact makeDirectory_eq_self (hu l (node?_of_makeDirectory hmade))

/-! ### A directory that cannot be made -/

theorem locate_error_of_components (h : s.locate p.components = .error e) :
    s.locate p.parts = .error e := by
  unfold Path.components at h
  cases hparts : p.parts with
  | nil =>
      rw [hparts] at h
      exact h
  | cons first others =>
      rw [hparts] at h
      dsimp only at h
      by_cases hfirst : first = ['/']
      · subst hfirst
        exact walk_error_of_filter h
      · have horigin : ∀ parts, origin (first :: parts) = ([], first :: parts) := fun parts =>
          origin.eq_2 _ fun _ he => hfirst (List.cons.inj he).1
        unfold locate at h ⊢
        rw [horigin] at h ⊢
        simp only [walk] at h ⊢
        cases hstep : s.step [] first with
        | error e' =>
            rw [hstep] at h
            exact h
        | ok l =>
            rw [hstep] at h
            exact walk_error_of_filter h

/-- Where the way to a directory could not be made, the directory cannot be made either. -/
theorem makeAt_of_makeAbove_error (h : s.makeAbove p = (.error e, t)) :
    ∃ e', t.makeAt p = .error e' ∧ e' ≠ .notFound ∧ FailsAgain e e' := by
  have habove : p.components.dropLast ≠ [] := by
    intro he
    rw [makeAbove, he] at h
    cases h
  have hne : p.components ≠ [] := fun he => habove (by rw [he]; rfl)
  obtain ⟨e', hwalk, he'⟩ := walk_error_of_makeWay (node?_origin s _) h (p.components.getLast hne)
  refine ⟨e', ?_, he'⟩
  have hlocate : t.locate p.components = .error e' := by
    rw [← List.dropLast_concat_getLast hne]
    unfold locate
    rw [origin_append_of_ne_nil habove]
    exact hwalk
  rw [makeAt, locate_error_of_components hlocate]
  rfl

/-- Where a directory cannot be made, another try fails too, and makes nothing more. -/
theorem makeDirectories_again (h : s.makeDirectories p = (.error e, t)) :
    ∃ e', t.makeDirectories p = (.error e', t) ∧ FailsAgain e e' := by
  by_cases hp : p = []
  · simp only [makeDirectories, if_pos hp] at h
    cases h
  · cases hc : check p with
    | error e' =>
        rw [makeDirectories_of_check s hp hc] at h
        cases h
        exact ⟨e, makeDirectories_of_check _ hp hc, Or.inl rfl⟩
    | ok _ =>
        rw [makeDirectories_eq s hp hc] at h
        split at h
        · split at h
          · rename_i e' t' habove
            cases h
            obtain ⟨e', hmade, hne, he'⟩ := makeAt_of_makeAbove_error habove
            exact ⟨e', makeDirectories_of_makeAt_error hp hc hne hmade, he'⟩
          · rename_i u habove
            obtain ⟨hmade, rfl⟩ := of_commit_error h
            refine ⟨e, ?_, Or.inl rfl⟩
            by_cases he : e = .notFound
            · subst he
              have hagain : t.makeAbove p = (.ok (), t) := makeWay_again (node?_origin s _) habove
              rw [makeDirectories_eq t hp hc]
              simp only [hmade, hagain, commit]
            · exact makeDirectories_of_makeAt_error hp hc he hmade
        · rename_i hnot
          obtain ⟨hmade, rfl⟩ := of_commit_error h
          have he : e ≠ .notFound := fun he => hnot (he ▸ hmade)
          exact ⟨e, makeDirectories_of_makeAt_error hp hc he hmade, Or.inl rfl⟩

end SchemaModels.Tool.Store

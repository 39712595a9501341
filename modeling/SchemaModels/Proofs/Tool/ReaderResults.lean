import SchemaModels.Tool.Json.Reader

/-!
# What readers of JSON give

`Gives r P` says that every value that the reader `r` takes off a text has the property `P`. A
record is read from a start value by its fields, so a property of the start value that every field
keeps holds of what is read (`gives_record`); a dictionary holds only values that its reader gives
(`gives_dictionary`).
-/

namespace SchemaModels.Tool.Json

def Gives (r : Reader α) (P : α → Prop) : Prop := ∀ t a t', r t = .ok (a, t') → P a

theorem gives_pure {P : α → Prop} {a : α} (h : P a) : Gives (pure a) P := by
  intro t b t' hb
  cases hb
  exact h

theorem gives_bind {Q : α → Prop} {P : β → Prop} {r : Reader α} {f : α → Reader β}
    (hr : Gives r Q) (hf : ∀ a, Q a → Gives (f a) P) : Gives (r >>= f) P := by
  intro t b t' hb
  simp only [bind, StateT.bind] at hb
  cases ha : r t with
  | error e =>
      rw [ha] at hb
      cases hb
  | ok x =>
      rw [ha] at hb
      exact hf x.1 (hr t x.1 x.2 ha) x.2 b t' hb

theorem gives_true (r : Reader α) : Gives r fun _ => True := fun _ _ _ _ => trivial

/-- The form for steps whose values do not matter. -/
theorem gives_after {P : β → Prop} (r : Reader α) {f : α → Reader β} (hf : ∀ a, Gives (f a) P) :
    Gives (r >>= f) P :=
  gives_bind (gives_true r) fun a _ => hf a

theorem gives_throw (f : Fault) (P : α → Prop) : Gives (throw f : Reader α) P := by
  intro t a t' h
  cases h

/-- A reader that only fails. -/
theorem gives_refuse (P : α → Prop) : Gives (refuse : Reader α) P := by
  apply gives_after
  intro c
  cases c with
  | none => exact gives_throw _ _
  | some c =>
      dsimp only
      split
      · exact gives_after _ fun _ => gives_throw _ _
      · exact gives_after _ fun _ => gives_throw _ _
      · exact gives_after _ fun _ => gives_throw _ _
      · exact gives_after _ fun _ => gives_throw _ _
      · exact gives_throw _ _
      · exact gives_throw _ _
      · split
        · exact gives_after _ fun _ => gives_throw _ _
        · exact gives_throw _ _

theorem gives_repeatFrom {P : σ → Prop} {step : σ → Reader (Option σ)} {s : σ} (hs : P s)
    (hstep : ∀ s, P s → Gives (step s) fun s' => ∀ x ∈ s', P x) : Gives (repeatFrom step s) P := by
  intro t a t' h
  fun_induction repeatFrom step s t with
  | case1 s t f ht => cases h
  | case2 s t r ht =>
      cases h
      exact hs
  | case3 s t s' r ht hlt ih => exact ih (hstep s hs t (some s') r ht s' rfl) h
  | case4 s t s' r ht hlt =>
      rw [← (Prod.mk.inj (Except.ok.inj h)).1]
      exact hstep s hs t (some s') r ht s' rfl

theorem gives_members {P : σ → Prop} {member : Text → σ → Reader σ} {s : σ} (hs : P s)
    (hmember : ∀ name s, P s → Gives (member name s) P) : Gives (members member s) P := by
  refine gives_bind (Q := fun x => P x.2) (gives_repeatFrom hs ?_) fun x hx => gives_pure hx
  rintro ⟨isFirst, s⟩ hs
  apply gives_after
  intro name
  cases name with
  | none => exact gives_pure (by simp)
  | some name => exact gives_bind (hmember name s hs) fun s' hs' => gives_pure (by simpa using hs')

theorem gives_dictionary {P : α → Prop} {value : Reader α} (h : Gives value P) :
    Gives (dictionary value) fun entries => ∀ e ∈ entries, P e.2 := by
  apply gives_after
  intro _
  apply gives_after
  intro isObject
  cases isObject with
  | false => exact gives_refuse _
  | true =>
      rw [if_pos rfl]
      refine gives_members (by simp) ?_
      intro name entries hentries
      refine gives_after _ fun _ => gives_bind h fun v hv => gives_pure ?_
      intro e he
      rcases List.mem_cons.1 he with rfl | he
      · exact hv
      · exact hentries e ((List.mem_filter.1 he).1)

theorem gives_items {P : σ → Prop} {fields : List (Field σ)}
    (hfields : ∀ f ∈ fields, ∀ s, P s → Gives (f.read s) P) (isFirst : Bool) {s : σ} (hs : P s) :
    Gives (items fields isFirst s) P := by
  induction fields generalizing isFirst s with
  | nil => exact gives_after _ fun _ => gives_pure hs
  | cons f fields ih =>
      apply gives_after
      intro more
      cases more with
      | false => exact gives_pure hs
      | true =>
          refine gives_bind (hfields f (by simp) s hs) fun s' hs' => ?_
          exact ih (fun g hg => hfields g (by simp [hg])) false hs'

theorem gives_fieldMember {P : σ → Prop} {fields : List (Field σ)}
    (hfields : ∀ f ∈ fields, ∀ s, P s → Gives (f.read s) P) (name : Text) {x : σ × List Text}
    (hx : P x.1) : Gives (fieldMember fields name x) fun y => P y.1 := by
  obtain ⟨s, seen⟩ := x
  unfold fieldMember
  cases hf : fields.find? (·.name = name) with
  | none => exact gives_throw _ _
  | some f =>
      have hmem : f ∈ fields := List.mem_of_find?_eq_some hf
      dsimp only
      split
      · exact gives_throw _ _
      · refine gives_after _ fun _ => ?_
        exact gives_bind (hfields f hmem s hx) fun s' hs' => gives_pure hs'

theorem gives_record {P : σ → Prop} {fields : List (Field σ)} {s : σ} (hs : P s)
    (hfields : ∀ f ∈ fields, ∀ s, P s → Gives (f.read s) P) : Gives (record fields s) P := by
  apply gives_after
  intro _
  apply gives_after
  intro isArray
  cases isArray with
  | true => exact gives_items hfields true hs
  | false =>
      apply gives_after
      intro isObject
      cases isObject with
      | false => exact gives_refuse _
      | true =>
          refine gives_bind (gives_members (P := fun x => P x.1) hs ?_) fun x hx => gives_pure hx
          exact fun name x hx => gives_fieldMember hfields name hx

theorem of_document {P : α → Prop} {value : Reader α} {t : Text} {a : α} (hvalue : Gives value P)
    (h : document value t = .ok a) : P a := by
  simp only [document, bind, Except.bind] at h
  cases hv : value t with
  | error f =>
      rw [hv] at h
      cases h
  | ok x =>
      rw [hv] at h
      dsimp only at h
      split at h
      · cases h
        exact hvalue t x.1 x.2 hv
      · cases h

end SchemaModels.Tool.Json

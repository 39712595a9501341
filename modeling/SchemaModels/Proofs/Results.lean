/-!
# Results that may fail

What a result that is no error was made from, step by step.
-/

namespace SchemaModels

variable {ε ε' α β : Type}

/-- What a result that is no error was made from. -/
theorem exists_of_bind_ok {x : Except ε α} {f : α → Except ε β} {b : β} (h : x >>= f = .ok b) :
    ∃ a, x = .ok a ∧ f a = .ok b := by
  cases x with
  | error e => cases h
  | ok a => exact ⟨a, rfl, h⟩

theorem map_eq_ok_iff {x : Except ε α} {f : α → β} {b : β} :
    x.map f = .ok b ↔ ∃ a, x = .ok a ∧ f a = b := by
  cases x <;> simp [Except.map]

theorem map_eq_error_iff {x : Except ε α} {f : α → β} {e : ε} :
    x.map f = .error e ↔ x = .error e := by
  cases x <;> simp [Except.map]

theorem mapError_eq_ok_iff {x : Except ε α} {f : ε → ε'} {a : α} :
    x.mapError f = .ok a ↔ x = .ok a := by
  unfold Except.mapError
  cases x <;> simp

/-- A list of results that are no errors holds what its elements were made to. -/
theorem exists_of_mem_mapM {f : α → Except ε β} {as : List α} {bs : List β}
    (h : as.mapM f = .ok bs) {b : β} (hb : b ∈ bs) : ∃ a ∈ as, f a = .ok b := by
  induction as generalizing bs with
  | nil =>
      cases h
      cases hb
  | cons a as ih =>
      rw [List.mapM_cons] at h
      obtain ⟨b', hb', h⟩ := exists_of_bind_ok h
      obtain ⟨bs', hbs', h⟩ := exists_of_bind_ok h
      cases h
      obtain rfl | hb := List.mem_cons.1 hb
      · exact ⟨a, List.mem_cons_self, hb'⟩
      · obtain ⟨a', ha', hfa⟩ := ih hbs' hb
        exact ⟨a', List.mem_cons_of_mem a ha', hfa⟩

/-- A list of results that are no errors consists of the results of its elements. -/
theorem mapM_eq_ok_iff {f : α → Except ε β} {as : List α} {bs : List β} :
    as.mapM f = .ok bs ↔ as.map f = bs.map .ok := by
  induction as generalizing bs with
  | nil => cases bs <;> simp [pure, Except.pure]
  | cons a as ih =>
      rw [List.mapM_cons, List.map_cons]
      constructor
      · intro h
        obtain ⟨b, hb, h⟩ := exists_of_bind_ok h
        obtain ⟨bs', hbs', h⟩ := exists_of_bind_ok h
        cases h
        rw [hb, ih.1 hbs', List.map_cons]
      · intro h
        cases bs with
        | nil => cases h
        | cons b bs =>
            rw [List.map_cons, List.cons.injEq] at h
            rw [h.1, ih.2 h.2]
            rfl

/-- The error of a list of results is that of the first element that has one. -/
theorem mapM_eq_error_iff {f : α → Except ε β} {as : List α} {e : ε} :
    as.mapM f = .error e ↔ ∃ before a behind, as = before ++ a :: behind ∧
      (∀ b ∈ before, ∃ x, f b = .ok x) ∧ f a = .error e := by
  induction as with
  | nil => simp [pure, Except.pure]
  | cons a as ih =>
      rw [List.mapM_cons]
      cases ha : f a with
      | error e' =>
          constructor
          · intro h
            cases h
            exact ⟨[], a, as, rfl, nofun, ha⟩
          · rintro ⟨before, c, behind, heq, hbefore, hc⟩
            cases before with
            | nil =>
                cases heq
                rw [ha] at hc
                cases hc
                rfl
            | cons b before =>
                cases heq
                obtain ⟨x, hx⟩ := hbefore a List.mem_cons_self
                rw [ha] at hx
                cases hx
      | ok x =>
          have hrest : (Except.ok x >>= fun b => as.mapM f >>= fun bs => pure (b :: bs)) =
              .error e ↔ as.mapM f = .error e := by
            cases as.mapM f <;> simp [bind, Except.bind, pure, Except.pure]
          rw [hrest, ih]
          constructor
          · rintro ⟨before, c, behind, rfl, hbefore, hc⟩
            exact ⟨a :: before, c, behind, rfl, List.forall_mem_cons.2 ⟨⟨x, ha⟩, hbefore⟩, hc⟩
          · rintro ⟨before, c, behind, heq, hbefore, hc⟩
            cases before with
            | nil =>
                cases heq
                rw [ha] at hc
                cases hc
            | cons b before =>
                cases heq
                exact ⟨before, c, behind, rfl, (List.forall_mem_cons.1 hbefore).2, hc⟩

theorem eq_ok_of_toOption {x : Except ε α} {a : α} (h : x.toOption = some a) : x = .ok a := by
  cases x with
  | error e => cases h
  | ok b =>
      cases h
      rfl

section Meets

variable {P : α → Prop} {Q : β → Prop} {E : ε → Prop}

/-- A result has the one property, or an error the other. -/
inductive Meets (P : α → Prop) (E : ε → Prop) : Except ε α → Prop
  | ok {a : α} (h : P a) : Meets P E (.ok a)
  | error {e : ε} (h : E e) : Meets P E (.error e)

namespace Meets

variable {x : Except ε α}

theorem of_ok (hx : Meets P E x) {a : α} (h : x = .ok a) : P a := by
  subst h
  cases hx
  assumption

theorem of_error (hx : Meets P E x) {e : ε} (h : x = .error e) : E e := by
  subst h
  cases hx
  assumption

theorem bind (hx : Meets P E x) {f : α → Except ε β} (hf : ∀ a, P a → Meets Q E (f a)) :
    Meets Q E (x >>= f) := by
  cases hx with
  | ok h => exact hf _ h
  | error h => exact .error h

theorem map (hx : Meets P E x) {f : α → β} (hf : ∀ a, P a → Q (f a)) : Meets Q E (x.map f) := by
  cases hx with
  | ok h => exact .ok (hf _ h)
  | error h => exact .error h

theorem mapError (hx : Meets P E x) {E' : ε' → Prop} {f : ε → ε'} (hf : ∀ e, E e → E' (f e)) :
    Meets P E' (x.mapError f) := by
  cases hx with
  | ok h => exact .ok h
  | error h => exact .error (hf _ h)

end Meets

end Meets

end SchemaModels

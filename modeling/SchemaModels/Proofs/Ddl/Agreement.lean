import SchemaModels.Proofs.Ddl.Surroundings

/-!
# Readers that agree in a longer text

`AgreesAt` is kept by everything that readers are made of: one after another, a choice by the kind
of a token, repetition, and the capture of what is read. So a reader of the grammar agrees with
itself because its parts do.
-/

namespace SchemaModels.Ddl

/-- The second reader comes to the same in the longer text: always where that ends with the source
text, and elsewhere where the first one succeeds and has not looked beyond. -/
def AgreesAt (w : Surroundings) (blind : Bool) (p p' : Parse α) (c : Cursor) : Prop :=
  c.Inside →
    match p c with
    | .ok a d => Reads blind c d ∧ (w.Sees blind d → p' (w.cursor c) = .ok a (w.cursor d))
    | .error e d => w.SharesEnd → p' (w.cursor c) = .error (w.error e) (w.cursor d)

variable {w : Surroundings} {blind : Bool} {c : Cursor}

theorem agreesAt_of_ok {p p' : Parse α} {a : α} {d : Cursor} (hp : p c = .ok a d)
    (h : c.Inside → Reads blind c d ∧ (w.Sees blind d → p' (w.cursor c) = .ok a (w.cursor d))) :
    AgreesAt w blind p p' c := by
  intro hc
  rw [hp]
  exact h hc

theorem agreesAt_of_error {p p' : Parse α} {e : ParseError} {d : Cursor} (hp : p c = .error e d)
    (h : w.SharesEnd → p' (w.cursor c) = .error (w.error e) (w.cursor d)) :
    AgreesAt w blind p p' c := by
  intro hc
  rw [hp]
  exact h

namespace AgreesAt

variable {p p' : Parse α} {a : α} {d : Cursor}

theorem reads (h : AgreesAt w blind p p' c) (hc : c.Inside) (hp : p c = .ok a d) :
    Reads blind c d := by
  have h := h hc
  rw [hp] at h
  exact h.1

theorem eq_ok (h : AgreesAt w blind p p' c) (hc : c.Inside) (hp : p c = .ok a d)
    (hd : w.Sees blind d) : p' (w.cursor c) = .ok a (w.cursor d) := by
  have h := h hc
  rw [hp] at h
  exact h.2 hd

theorem eq_error {e : ParseError} (h : AgreesAt w blind p p' c) (hc : c.Inside)
    (hp : p c = .error e d) (hw : w.SharesEnd) :
    p' (w.cursor c) = .error (w.error e) (w.cursor d) := by
  have h := h hc
  rw [hp] at h
  exact h hw

/-- One that does not step over tokens blindly may be used where one that does may. -/
theorem toBlind (h : AgreesAt w blind p p' c) : AgreesAt w true p p' c := by
  intro hc
  cases hp : p c with
  | ok a d =>
      refine ⟨(h.reads hc hp).toBlind, fun hd => h.eq_ok hc hp (hd.imp_right fun hd => ?_)⟩
      exact Or.inr (hd.resolve_left (by decide))
  | error e d => exact h.eq_error hc hp

theorem bind_ok (p : Parse α) (f : α → Parse β) {c d : Cursor} {a : α} (h : p c = .ok a d) :
    (p >>= f) c = f a d := by
  show EStateM.bind p f c = f a d
  rw [EStateM.bind, h]

theorem bind_error (p : Parse α) (f : α → Parse β) {c d : Cursor} {e : ParseError}
    (h : p c = .error e d) : (p >>= f) c = .error e d := by
  show EStateM.bind p f c = .error e d
  rw [EStateM.bind, h]

variable {f f' : α → Parse β}

/-- One reader after another, where what the first one may step over is settled by the second. -/
theorem bind_of_sees {blind' : Bool} (hp : AgreesAt w blind' p p' c)
    (hf : ∀ a d, p c = .ok a d → Reads blind' c d → AgreesAt w blind (f a) (f' a) d)
    (h : ∀ a d b d', p c = .ok a d → f a d = .ok b d' → Reads blind' c d → Reads blind d d' →
      Reads blind c d' ∧ (w.Sees blind d' → w.Sees blind' d)) :
    AgreesAt w blind (p >>= f) (p' >>= f') c := by
  intro hc
  cases hpc : p c with
  | error e d =>
      rw [bind_error p f hpc]
      intro hw
      rw [bind_error p' f' (hp.eq_error hc hpc hw)]
  | ok a d =>
      have hreads := hp.reads hc hpc
      have hf := hf a d hpc hreads
      rw [bind_ok p f hpc]
      cases hfa : f a d with
      | error e d' =>
          intro hw
          rw [bind_ok p' f' (hp.eq_ok hc hpc (Or.inl hw))]
          exact hf.eq_error (hreads.inside hc) hfa hw
      | ok b d' =>
          have hreads' := hf.reads (hreads.inside hc) hfa
          obtain ⟨hall, hsees⟩ := h a d b d' hpc hfa hreads hreads'
          refine ⟨hall, fun hd => ?_⟩
          rw [bind_ok p' f' (hp.eq_ok hc hpc (hsees hd))]
          exact hf.eq_ok (hreads.inside hc) hfa hd

theorem bind_reads (hp : AgreesAt w blind p p' c)
    (hf : ∀ a d, p c = .ok a d → Reads blind c d → AgreesAt w blind (f a) (f' a) d) :
    AgreesAt w blind (p >>= f) (p' >>= f') c :=
  hp.bind_of_sees hf fun _ _ _ _ _ _ hreads hreads' =>
    ⟨hreads.trans hreads', fun hd => hd.of_reads hreads'⟩

protected theorem bind (hp : AgreesAt w blind p p' c)
    (hf : ∀ a d, p c = .ok a d → AgreesAt w blind (f a) (f' a) d) :
    AgreesAt w blind (p >>= f) (p' >>= f') c :=
  hp.bind_reads fun a d h _ => hf a d h

theorem map_ok (f : α → β) (h : p c = .ok a d) : (f <$> p) c = .ok (f a) d := by
  show EStateM.map f p c = .ok (f a) d
  rw [EStateM.map, h]

theorem map_error (f : α → β) {e : ParseError} (h : p c = .error e d) :
    (f <$> p) c = .error e d := by
  show EStateM.map f p c = .error e d
  rw [EStateM.map, h]

theorem map (f : α → β) (hp : AgreesAt w blind p p' c) :
    AgreesAt w blind (f <$> p) (f <$> p') c := by
  intro hc
  cases h : p c with
  | error e d =>
      rw [map_error f h]
      exact fun hw => map_error f (hp.eq_error hc h hw)
  | ok a d =>
      rw [map_ok f h]
      exact ⟨hp.reads hc h, fun hd => map_ok f (hp.eq_ok hc h hd)⟩

/-- A reader may step over tokens blindly where a token has to follow. -/
theorem bind_of_ne (hp : AgreesAt w true p p' c)
    (hf : ∀ a d, p c = .ok a d → AgreesAt w blind (f a) (f' a) d)
    (hne : ∀ a d b d', p c = .ok a d → f a d = .ok b d' → d.ahead ≠ []) :
    AgreesAt w blind (p >>= f) (p' >>= f') c := by
  refine hp.bind_of_sees (fun a d h _ => hf a d h) fun a d b d' h hfa hreads hreads' => ?_
  have hd := hne a d b d' h hfa
  exact ⟨hreads.trans_of_ne hd hreads', fun _ => Or.inr (Or.inr hd)⟩

theorem pure (a : α) : AgreesAt w blind (Pure.pure a) (Pure.pure a) c :=
  agreesAt_of_ok rfl fun _ => ⟨.refl blind c, fun _ => rfl⟩

theorem ite {q : Prop} [Decidable q] {p₁ p₁' p₂ p₂' : Parse α} (h₁ : AgreesAt w blind p₁ p₁' c)
    (h₂ : AgreesAt w blind p₂ p₂' c) :
    AgreesAt w blind (if q then p₁ else p₂) (if q then p₁' else p₂') c := by
  split
  · exact h₁
  · exact h₂

end AgreesAt

end SchemaModels.Ddl

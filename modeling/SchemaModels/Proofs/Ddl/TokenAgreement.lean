import SchemaModels.Proofs.Ddl.Agreement

/-!
# Agreement of single tokens

A reader of one token agrees with itself in a longer text, because the token is the same there.
Where the source text ends and more text follows, a semicolon comes next, and the reader has to
answer for it as for the end of the text.
-/

namespace SchemaModels.Ddl

variable {w : Surroundings} {blind : Bool} {c : Cursor}

namespace Parse

open AgreesAt (bind_ok)

/-! ### One token -/

theorem agreesAt_kind : AgreesAt w true kind kind c := by
  refine agreesAt_of_ok (a := c.current.kind) rfl fun _ => ⟨.refl true c, fun hd => ?_⟩
  have hkind := Surroundings.kind_current (w := w) (hd.imp_right fun hd => hd.resolve_left nofun)
  rw [← hkind]
  rfl

/-- A choice by the kind of the current token: at the end of the text it comes to what it comes to
at a semicolon. -/
theorem agreesAt_kind_bind {f f' : TokenKind → Parse α}
    (hf : AgreesAt w blind (f c.current.kind) (f' c.current.kind) c)
    (hend : c.ahead = [] → ∀ a d, f .eof c = .ok a d →
      f' (.symbol .semicolon) (w.cursor c) = .ok a (w.cursor d)) :
    AgreesAt w blind (kind >>= f) (kind >>= f') c := by
  intro hc
  have hbind : (kind >>= f) c = f c.current.kind c := bind_ok kind f rfl
  have hbind' : (kind >>= f') (w.cursor c) = f' (w.cursor c).current.kind (w.cursor c) :=
    bind_ok kind f' rfl
  rw [hbind, hbind']
  cases h : f c.current.kind c with
  | error e d =>
      intro hw
      rw [Surroundings.kind_current (Or.inl hw)]
      exact hf.eq_error hc h hw
  | ok a d =>
      refine ⟨hf.reads hc h, fun hd => ?_⟩
      rcases Surroundings.end_cases w c with hsame | ⟨hw, hnil⟩
      · rw [Surroundings.kind_current hsame]
        exact hf.eq_ok hc h hd
      · rw [Surroundings.kind_current_of_nil hw hnil]
        rw [Cursor.kind_current_of_nil hnil] at h
        exact hend hnil a d h

theorem agreesAt_advance_blind : AgreesAt w true advance advance c := by
  refine agreesAt_of_ok rfl fun _ => ⟨.drop 1 c, fun hd => ?_⟩
  have hne := hd.of_reads (.drop 1 c)
  rw [Surroundings.cursor_advance (hne.imp_right fun hd => hd.resolve_left nofun)]
  rfl

theorem agreesAt_advance (heof : c.current.kind ≠ .eof) (hfault : ¬ c.current.kind.IsFault) :
    AgreesAt w blind advance advance c := by
  have hne := Cursor.ahead_ne_nil heof
  refine agreesAt_of_ok rfl fun _ => ⟨.advance hne hfault, fun _ => ?_⟩
  rw [Surroundings.cursor_advance (Or.inr hne)]
  rfl

theorem agreesAt_skip (n : Nat) : AgreesAt w true (skip n) (skip n) c := by
  refine agreesAt_of_ok rfl fun _ => ⟨.drop n c, fun hd => ?_⟩
  rw [Surroundings.cursor_drop (n := n) (hd.imp_right fun hd => ?_)]
  · rfl
  · have hd := hd.resolve_left nofun
    rw [Cursor.drop_eq] at hd
    exact Nat.le_of_lt (List.length_lt_of_drop_ne_nil hd)

theorem error_current (hw : w.SharesEnd) (cause : TokenKind → ParseError.Cause) :
    (⟨cause (w.cursor c).current.kind, (w.cursor c).current.span⟩ : ParseError) =
      w.error ⟨cause c.current.kind, c.current.span⟩ := by
  cases w with
  | behind prior =>
      rw [Surroundings.current_behind]
      rfl
  | before later span ts => exact hw.elim

theorem agreesAt_refuse (expected : Expected) :
    AgreesAt w blind (refuse expected : Parse α) (refuse expected) c := by
  refine agreesAt_of_error rfl fun hw => ?_
  rw [← error_current hw fun k => .unexpected expected k]
  rfl

theorem agreesAt_fail (cause : ParseError.Cause) :
    AgreesAt w blind (fail cause : Parse α) (fail cause) c := by
  refine agreesAt_of_error rfl fun hw => ?_
  rw [← error_current hw fun _ => cause]
  rfl

theorem accept_eq (k : TokenKind) (c : Cursor) :
    accept k c = if c.current.kind = k then .ok true c.advance else .ok false c := by
  by_cases h : c.current.kind = k
  · rw [if_pos h]
    simp [accept, at?, kind, advance, h, bind, EStateM.bind, pure, EStateM.pure]
  · rw [if_neg h]
    simp [accept, at?, kind, h, bind, EStateM.bind, pure, EStateM.pure]

theorem acceptWord_eq (words : List Text) (c : Cursor) :
    acceptWord words c =
      if isWord words c.current.kind then .ok true c.advance else .ok false c := by
  by_cases h : isWord words c.current.kind = true
  · rw [if_pos h]
    simp [acceptWord, atWord, kind, advance, h, bind, EStateM.bind, pure, EStateM.pure]
  · rw [if_neg h]
    simp [acceptWord, atWord, kind, h, bind, EStateM.bind, pure, EStateM.pure]

/-- What is asked of the kind of the current token. The end of the text and a semicolon have to
answer alike. -/
theorem test_kind {f : TokenKind → α} (h : w.SharesEnd ∨ f .eof = f (.symbol .semicolon)) :
    f (w.cursor c).current.kind = f c.current.kind := by
  rcases Surroundings.end_cases w c with hsame | ⟨hw, hnil⟩
  · rw [Surroundings.kind_current hsame]
  · rw [Surroundings.kind_current_of_nil hw hnil, Cursor.kind_current_of_nil hnil]
    exact (h.resolve_left hw).symm

theorem agreesAt_test {p : Parse α} {f : TokenKind → α} (hp : ∀ c, p c = .ok (f c.current.kind) c)
    (h : w.SharesEnd ∨ f .eof = f (.symbol .semicolon)) : AgreesAt w blind p p c := by
  refine agreesAt_of_ok (hp c) fun _ => ⟨.refl blind c, fun _ => ?_⟩
  rw [hp, test_kind h]

/-- Reads a token if it passes a test, which a fault does not. -/
theorem agreesAt_take {p : Parse Bool} {f : TokenKind → Bool}
    (hp : ∀ c, p c = if f c.current.kind then .ok true c.advance else .ok false c)
    (heof : f .eof = false) (hfault : ∀ x, f (.fault x) = false)
    (hend : w.SharesEnd ∨ f (.symbol .semicolon) = false) : AgreesAt w blind p p c := by
  have hkind : f (w.cursor c).current.kind = f c.current.kind :=
    test_kind (hend.imp_right fun h => heof.trans h.symm)
  by_cases h : f c.current.kind = true
  · have hne : c.ahead ≠ [] := by
      apply Cursor.ahead_ne_nil
      intro he
      rw [he, heof] at h
      cases h
    have hplain : ¬ c.current.kind.IsFault := by
      rintro ⟨x, hx⟩
      rw [hx, hfault] at h
      cases h
    refine agreesAt_of_ok (a := true) (d := c.advance) ?_ fun _ =>
      ⟨.advance hne hplain, fun _ => ?_⟩
    · rw [hp, if_pos h]
    · rw [hp, hkind, if_pos h, Surroundings.cursor_advance (Or.inr hne)]
  · refine agreesAt_of_ok (a := false) (d := c) ?_ fun _ => ⟨.refl blind c, fun _ => ?_⟩
    · rw [hp, if_neg h]
    · rw [hp, hkind, if_neg h]

theorem agreesAt_accept {k : TokenKind} (heof : k ≠ .eof) (hfault : ¬ k.IsFault)
    (hend : w.SharesEnd ∨ k ≠ .symbol .semicolon) :
    AgreesAt w blind (accept k) (accept k) c := by
  refine agreesAt_take (f := fun k' => decide (k' = k)) (fun c => ?_) ?_ ?_ ?_
  · simp [accept_eq]
  · simpa using heof.symm
  · intro x
    simpa using fun hx => hfault ⟨x, hx.symm⟩
  · simpa using hend.imp_right Ne.symm

theorem agreesAt_acceptKeyword (k : Keyword) :
    AgreesAt w blind (acceptKeyword k) (acceptKeyword k) c :=
  agreesAt_accept nofun nofun (Or.inr nofun)

theorem agreesAt_acceptSymbol {s : Symbol} (h : w.SharesEnd ∨ s ≠ .semicolon) :
    AgreesAt w blind (acceptSymbol s) (acceptSymbol s) c :=
  agreesAt_accept nofun nofun (h.imp_right fun h he => h (TokenKind.symbol.inj he))

theorem agreesAt_acceptWord (words : List Text) :
    AgreesAt w blind (acceptWord words) (acceptWord words) c :=
  agreesAt_take (acceptWord_eq words) rfl (fun _ => rfl) (Or.inr rfl)

theorem agreesAt_atKeyword (k : Keyword) : AgreesAt w blind (atKeyword k) (atKeyword k) c :=
  agreesAt_test (f := fun k' => decide (k' = .keyword k)) (fun _ => rfl) (Or.inr rfl)

theorem agreesAt_atSymbol {s : Symbol} (h : s ≠ .semicolon) :
    AgreesAt w blind (atSymbol s) (atSymbol s) c := by
  refine agreesAt_test (f := fun k => decide (k = .symbol s)) (fun _ => rfl) (Or.inr ?_)
  simpa using h.symm

theorem agreesAt_atWord (words : List Text) :
    AgreesAt w blind (atWord words) (atWord words) c :=
  agreesAt_test (f := isWord words) (fun _ => rfl) (Or.inr rfl)

theorem agreesAt_expectKeyword (k : Keyword) :
    AgreesAt w blind (expectKeyword k) (expectKeyword k) c :=
  (agreesAt_acceptKeyword k).bind fun _ _ _ => .ite (.pure _) (agreesAt_refuse _)

theorem agreesAt_expectSymbol {s : Symbol} (h : w.SharesEnd ∨ s ≠ .semicolon) :
    AgreesAt w blind (expectSymbol s) (expectSymbol s) c :=
  (agreesAt_acceptSymbol h).bind fun _ _ _ => .ite (.pure _) (agreesAt_refuse _)

/-- The word behind the current token; what follows the source text is none. -/
theorem agreesAt_beforeWord (words : List Text) :
    AgreesAt w true (beforeWord words) (beforeWord words) c := by
  refine agreesAt_of_ok rfl fun _ => ⟨.refl true c, fun hd => ?_⟩
  have hadvance := Surroundings.cursor_advance (w := w) (c := c)
    (hd.imp_right fun hd => hd.resolve_left nofun)
  have hword : isWord words (w.cursor c.advance).current.kind =
      isWord words c.advance.current.kind := test_kind (Or.inr rfl)
  rw [hadvance] at hword
  show EStateM.Result.ok (isWord words (w.cursor c).advance.current.kind) (w.cursor c) = _
  rw [hword]
  rfl

/-! ### Names and literals -/

theorem slice_current (hc : c.Inside) (h : w.SharesEnd ∨ c.ahead ≠ []) :
    (w.cursor c).current.span.slice (w.cursor c).source = c.current.span.slice c.source := by
  cases w with
  | behind prior =>
      rw [Surroundings.current_behind]
      exact Span.slice_shift prior c.source c.current.span
  | before later span ts =>
      have hne := h.resolve_left id
      rw [Surroundings.current_before hne]
      refine Span.slice_append_of_le (hc c.current ?_).2 later
      rw [Cursor.ahead_eq_cons hne]
      exact List.mem_cons_self

theorem agreesAt_name? : AgreesAt w blind name? name? c := by
  refine agreesAt_of_ok rfl fun hc => ⟨.refl blind c, fun _ => ?_⟩
  rcases Surroundings.end_cases w c with hsame | ⟨hw, hnil⟩
  · have hslice := slice_current hc hsame
    unfold name?
    rw [Surroundings.kind_current hsame, hslice]
  · unfold name?
    rw [Surroundings.kind_current_of_nil hw hnil, Cursor.kind_current_of_nil hnil]

theorem eq_of_name? {n : Text} {d : Cursor} (h : name? c = .ok (some n) d) :
    d = c ∧ c.current.kind ≠ .eof ∧ ¬ c.current.kind.IsFault := by
  unfold name? at h
  cases hkind : c.current.kind with
  | identifier m =>
      rw [hkind] at h
      cases h
      exact ⟨rfl, nofun, nofun⟩
  | keyword k =>
      rw [hkind] at h
      cases h
      exact ⟨rfl, nofun, nofun⟩
  | _ =>
      rw [hkind] at h
      cases h

theorem agreesAt_name (expected : Expected) :
    AgreesAt w blind (name expected) (name expected) c := by
  refine agreesAt_name?.bind fun n d h => ?_
  cases n with
  | none => exact agreesAt_refuse expected
  | some n =>
      obtain ⟨rfl, heof, hfault⟩ := eq_of_name? h
      exact (agreesAt_advance heof hfault).bind fun _ _ _ => .pure n

/-- Reads a token of which the kind is known, and goes on. -/
theorem agreesAt_advance_bind {k : TokenKind} (hk : c.current.kind = k) (heof : k ≠ .eof)
    (hfault : ¬ k.IsFault) {f f' : Unit → Parse α}
    (hf : AgreesAt w blind (f ()) (f' ()) c.advance) :
    AgreesAt w blind (advance >>= f) (advance >>= f') c := by
  refine (agreesAt_advance (hk ▸ heof) (hk ▸ hfault)).bind fun _ d hd => ?_
  cases hd
  exact hf

theorem agreesAt_string : AgreesAt w blind string string c := by
  refine agreesAt_kind_bind ?_ fun _ _ _ h => by cases h
  split
  · rename_i s hk
    exact agreesAt_advance_bind hk nofun nofun (.pure s)
  · exact agreesAt_refuse _

theorem agreesAt_integer : AgreesAt w blind integer integer c := by
  refine agreesAt_kind_bind ?_ fun _ _ _ h => by cases h
  split
  · rename_i n hk
    exact agreesAt_advance_bind hk nofun nofun (.pure n)
  · exact agreesAt_refuse _

end Parse

end SchemaModels.Ddl

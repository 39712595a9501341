import SchemaModels.Proofs.Ddl.TokenAgreement

/-!
# Agreement of repetitions and of captured text

A repetition agrees because each of its steps does. Captured text is the same in a longer text
because its span is moved with it.
-/

namespace SchemaModels.Ddl.Parse

open AgreesAt (bind_ok bind_error)

variable {w : Surroundings} {blind : Bool} {c : Cursor}

/-! ### Captured text -/

theorem textTo_cursor {d : Cursor} (hc : c.Inside) (h : Reads blind c d) :
    (w.cursor c).textTo (w.cursor d) = c.textTo d := by
  have hlength := h.suffix.length_le
  unfold Cursor.textTo
  cases w with
  | behind prior =>
      have htake : (c.ahead.map (Token.shift (Text.byteLength prior))).take
          (c.ahead.length - d.ahead.length) =
          (c.ahead.take (c.ahead.length - d.ahead.length)).map
            (Token.shift (Text.byteLength prior)) := by
        rw [List.map_take]
      simp only [Surroundings.cursor, List.length_map, htake, List.head?_map, List.getLast?_map]
      cases (c.ahead.take (c.ahead.length - d.ahead.length)).head? with
      | none => rfl
      | some first =>
          cases (c.ahead.take (c.ahead.length - d.ahead.length)).getLast? with
          | none => rfl
          | some last => exact Span.slice_shift prior c.source ⟨first.span.start, last.span.stop⟩
  | before later span ts =>
      simp only [Surroundings.cursor, List.length_append, Nat.add_sub_add_right]
      rw [List.take_append_of_le_length (by omega)]
      cases (c.ahead.take (c.ahead.length - d.ahead.length)).head? with
      | none => rfl
      | some first =>
          cases hlast : (c.ahead.take (c.ahead.length - d.ahead.length)).getLast? with
          | none => rfl
          | some last =>
              have hmem := List.mem_of_mem_take (List.mem_of_getLast? hlast)
              exact Span.slice_append_of_le (s := ⟨first.span.start, last.span.stop⟩)
                (hc last hmem).2 later

theorem withSource_of_ok {p : Parse α} {a : α} {c d : Cursor} (h : p c = .ok a d) :
    withSource p c = .ok (a, c.textTo d) d := by
  unfold withSource
  rw [h]

theorem withSource_of_error {p : Parse α} {e : ParseError} {c d : Cursor}
    (h : p c = .error e d) : withSource p c = .error e d := by
  unfold withSource
  rw [h]

theorem agreesAt_withSource {p p' : Parse α} (h : AgreesAt w blind p p' c) :
    AgreesAt w blind (withSource p) (withSource p') c := by
  intro hc
  cases hp : p c with
  | error e d =>
      rw [withSource_of_error hp]
      exact fun hw => withSource_of_error (h.eq_error hc hp hw)
  | ok a d =>
      have hreads := h.reads hc hp
      rw [withSource_of_ok hp]
      refine ⟨hreads, fun hd => ?_⟩
      rw [withSource_of_ok (h.eq_ok hc hp hd), textTo_cursor hc hreads]

theorem agreesAt_sourceOf {p p' : Parse α} (h : AgreesAt w blind p p' c) :
    AgreesAt w blind (sourceOf p) (sourceOf p') c :=
  (agreesAt_withSource h).bind fun x _ _ => .pure x.2

/-! ### Repetition -/

theorem many_of_none {step : Parse (Option α)} {d : Cursor} (h : step c = .ok none d) :
    many step c = .ok [] d := by
  rw [many, h]

theorem many_of_error {step : Parse (Option α)} {e : ParseError} {d : Cursor}
    (h : step c = .error e d) : many step c = .error e d := by
  rw [many, h]

theorem many_of_some {step : Parse (Option α)} {a : α} {d : Cursor} (h : step c = .ok (some a) d)
    (hlt : d.ahead.length < c.ahead.length) :
    many step c = match many step d with
      | .error e d => .error e d
      | .ok as d => .ok (a :: as) d := by
  rw [many, h]
  exact if_pos hlt

theorem many_of_stuck {step : Parse (Option α)} {a : α} {d : Cursor}
    (h : step c = .ok (some a) d) (hlt : ¬ d.ahead.length < c.ahead.length) :
    many step c = .ok [a] d := by
  rw [many, h]
  exact if_neg hlt

/-- A repetition that succeeds ends with a step that declines or that reads nothing, or it goes on
behind its first step. -/
theorem many_cases {step : Parse (Option α)} {d : Cursor} {as : List α}
    (h : many step c = .ok as d) :
    (step c = .ok none d ∧ as = []) ∨
      (∃ a, step c = .ok (some a) d ∧ ¬ d.ahead.length < c.ahead.length ∧ as = [a]) ∨
      ∃ a e as', step c = .ok (some a) e ∧ e.ahead.length < c.ahead.length ∧
        many step e = .ok as' d ∧ as = a :: as' := by
  cases hs : step c with
  | error e d' =>
    rw [many_of_error hs] at h
    cases h
  | ok x d' =>
    cases x with
    | none =>
      rw [many_of_none hs] at h
      cases h
      exact .inl ⟨rfl, rfl⟩
    | some a =>
      by_cases hlt : d'.ahead.length < c.ahead.length
      · rw [many_of_some hs hlt] at h
        cases hm : many step d' with
        | error e d'' =>
          rw [hm] at h
          cases h
        | ok as' d'' =>
          rw [hm] at h
          cases h
          exact .inr (.inr ⟨a, d', as', rfl, hlt, hm, rfl⟩)
      · rw [many_of_stuck hs hlt] at h
        cases h
        exact .inr (.inl ⟨a, rfl, hlt, rfl⟩)

theorem agreesAt_many {step step' : Parse (Option α)}
    (h : ∀ d, d.ahead.length ≤ c.ahead.length → AgreesAt w blind step step' d) :
    AgreesAt w blind (many step) (many step') c := by
  induction hn : c.ahead.length using Nat.strongRecOn generalizing c with
  | ind n ih =>
      intro hc
      have hstep := h c (Nat.le_refl _)
      cases hs : step c with
      | error e d =>
          rw [many_of_error hs]
          intro hw
          exact many_of_error (hstep.eq_error hc hs hw)
      | ok x d =>
          have hreads := hstep.reads hc hs
          cases x with
          | none =>
              rw [many_of_none hs]
              exact ⟨hreads, fun hd => many_of_none (hstep.eq_ok hc hs hd)⟩
          | some a =>
              by_cases hlt : d.ahead.length < c.ahead.length
              · have hlt' := Surroundings.length_cursor_lt_iff (w := w).2 hlt
                have hrest := ih d.ahead.length (hn ▸ hlt)
                  (fun d' hd' => h d' (Nat.le_of_lt (Nat.lt_of_le_of_lt hd' hlt))) rfl
                have hd := hreads.inside hc
                rw [many_of_some hs hlt]
                cases hm : many step d with
                | error e d' =>
                    intro hw
                    rw [many_of_some (hstep.eq_ok hc hs (Or.inl hw)) hlt',
                      hrest.eq_error hd hm hw]
                | ok as d' =>
                    have hreads' := hrest.reads hd hm
                    refine ⟨hreads.trans hreads', fun hd' => ?_⟩
                    rw [many_of_some (hstep.eq_ok hc hs (hd'.of_reads hreads')) hlt',
                      hrest.eq_ok hd hm hd']
              · rw [many_of_stuck hs hlt]
                refine ⟨hreads, fun hd => many_of_stuck (hstep.eq_ok hc hs hd) ?_⟩
                rw [Surroundings.length_cursor_lt_iff]
                exact hlt

theorem agreesAt_commaSeparated {item item' : Parse α}
    (h : ∀ d, d.ahead.length ≤ c.ahead.length → AgreesAt w blind item item' d) :
    AgreesAt w blind (commaSeparated item) (commaSeparated item') c := by
  refine (h c (Nat.le_refl _)).bind_reads fun first d _ hreads => ?_
  refine (agreesAt_many fun d' hd' => ?_).bind fun others _ _ => .pure (first :: others)
  refine (agreesAt_acceptSymbol (Or.inr (by decide))).bind_reads fun present d'' _ hreads' => ?_
  refine .ite (.map some (h d'' ?_)) (.pure none)
  exact Nat.le_trans hreads'.suffix.length_le (Nat.le_trans hd' hreads.suffix.length_le)

theorem ahead_ne_nil_of_expectSymbol {s : Symbol} {d : Cursor} (h : expectSymbol s c = .ok () d) :
    c.ahead ≠ [] := by
  apply Cursor.ahead_ne_nil
  intro heof
  have hfalse : acceptSymbol s c = .ok false c := by
    rw [acceptSymbol, accept_eq, if_neg (by simp [heof])]
  have hrefuse : expectSymbol s c = refuse (.symbol s) c := bind_ok _ _ hfalse
  rw [hrefuse] at h
  cases h

/-- A closing parenthesis has to follow, so what is inside may be read blindly. -/
theorem agreesAt_parenthesized {content content' : Parse α}
    (h : ∀ d, d.ahead.length ≤ c.ahead.length → AgreesAt w true content content' d) :
    AgreesAt w blind (parenthesized content) (parenthesized content') c := by
  refine (agreesAt_expectSymbol (Or.inr (by decide))).bind_reads fun _ d _ hreads => ?_
  refine (h d hreads.suffix.length_le).bind_of_ne (fun a d' _ => ?_) fun a d' b e _ he => ?_
  · exact (agreesAt_expectSymbol (Or.inr (by decide))).bind fun _ _ _ => .pure a
  · cases hclose : expectSymbol .rightParen d' with
    | error e' d'' =>
        rw [bind_error _ _ hclose] at he
        cases he
    | ok _ d'' => exact ahead_ne_nil_of_expectSymbol hclose

end SchemaModels.Ddl.Parse

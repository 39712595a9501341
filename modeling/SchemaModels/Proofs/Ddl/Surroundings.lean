import SchemaModels.Ddl.Cursor
import SchemaModels.Proofs.Ddl.Lexemes

/-!
# Reading a part of a longer text

A source text may stand behind another one, or before a semicolon and more text. A reader agrees
with another one there (`AgreesAt`) if the second comes to the same in the longer text: behind a
text always, and before more text where the first one succeeds. A reader that steps over tokens
blindly may only promise this where it leaves something unread; one that does not promises besides
that the last token of the text was no fault.
-/

namespace SchemaModels.Ddl

/-- What stands around a source text. -/
inductive Surroundings
  /-- Another text in front. -/
  | behind (prior : Text)
  /-- More text, of which the first token is a semicolon. -/
  | before (later : Text) (span : Span) (tokens : List Token)

/-- The tokens ahead stand within the source text, and none of them is its end. -/
def Cursor.Inside (c : Cursor) : Prop :=
  ∀ t ∈ c.ahead, t.kind ≠ .eof ∧ t.span.stop ≤ Text.byteLength c.source

theorem Cursor.inside_ofSource (source : Text) : (Cursor.ofSource source).Inside := by
  intro t ht
  have hinside := lexemesFrom_inside (p := ⟨0, source⟩) ht
  rwa [Place.stop, Nat.zero_add] at hinside

theorem Cursor.drop_eq (n : Nat) (c : Cursor) : c.drop n = ⟨c.source, c.ahead.drop n⟩ := by
  induction n generalizing c with
  | zero => rfl
  | succ n ih =>
      rw [Cursor.drop, ih]
      simp [Cursor.advance]

theorem Cursor.kind_current_of_nil {c : Cursor} (h : c.ahead = []) : c.current.kind = .eof := by
  rw [Cursor.current, h]
  rfl

theorem Cursor.ahead_ne_nil {c : Cursor} (h : c.current.kind ≠ .eof) : c.ahead ≠ [] :=
  fun hnil => h (Cursor.kind_current_of_nil hnil)

theorem Cursor.Inside.ahead_eq_nil {c : Cursor} (hc : c.Inside) (h : c.current.kind = .eof) :
    c.ahead = [] := by
  obtain ⟨source, _ | ⟨t, ts⟩⟩ := c
  · rfl
  · exact absurd h (hc t List.mem_cons_self).1

theorem Cursor.ahead_eq_cons {c : Cursor} (h : c.ahead ≠ []) :
    c.ahead = c.current :: c.advance.ahead := by
  obtain ⟨source, _ | ⟨t, ts⟩⟩ := c
  · exact absurd rfl h
  · rfl

/-! ### What a reader leaves -/

/-- What holds between the cursors before and behind what is read. -/
structure Reads (blind : Bool) (c d : Cursor) : Prop where
  source_eq : d.source = c.source
  suffix : d.ahead <:+ c.ahead
  plain : blind = false → d.ahead = [] → EndsPlain c.ahead

namespace Reads

variable {blind : Bool} {c d e : Cursor}

theorem refl (blind : Bool) (c : Cursor) : Reads blind c c :=
  ⟨rfl, List.suffix_rfl, fun _ h => h ▸ endsPlain_nil⟩

theorem ahead_ne_nil (h : Reads blind c d) (hd : d.ahead ≠ []) : c.ahead ≠ [] := by
  intro hc
  have hsuffix := h.suffix
  rw [hc, List.suffix_nil] at hsuffix
  exact hd hsuffix

theorem endsPlain (h : Reads blind c d) (hblind : blind = false) (hd : EndsPlain d.ahead) :
    EndsPlain c.ahead := by
  by_cases hnil : d.ahead = []
  · exact h.plain hblind hnil
  · exact hd.of_suffix h.suffix hnil

theorem trans (h : Reads blind c d) (h' : Reads blind d e) : Reads blind c e :=
  ⟨h'.source_eq.trans h.source_eq, h'.suffix.trans h.suffix, fun hblind he =>
    h.endsPlain hblind (h'.plain hblind he)⟩

/-- What leaves something unread may be read blindly. -/
theorem trans_of_ne (h : Reads true c d) (hd : d.ahead ≠ []) (h' : Reads blind d e) :
    Reads blind c e :=
  ⟨h'.source_eq.trans h.source_eq, h'.suffix.trans h.suffix, fun hblind he =>
    (h'.plain hblind he).of_suffix h.suffix hd⟩

theorem toBlind (h : Reads blind c d) : Reads true c d := ⟨h.source_eq, h.suffix, nofun⟩

theorem inside (h : Reads blind c d) (hc : c.Inside) : d.Inside := by
  intro t ht
  rw [h.source_eq]
  exact hc t (h.suffix.mem ht)

/-- One token that is no fault is read. -/
theorem advance (hne : c.ahead ≠ []) (hfault : ¬ c.current.kind.IsFault) :
    Reads blind c c.advance := by
  have hcons := Cursor.ahead_eq_cons hne
  refine ⟨rfl, List.tail_suffix c.ahead, fun _ hnil => ?_⟩
  rw [hcons, hnil]
  intro t ht
  cases ht
  exact hfault

theorem drop (n : Nat) (c : Cursor) : Reads true c (c.drop n) := by
  rw [Cursor.drop_eq]
  exact ⟨rfl, List.drop_suffix n c.ahead, nofun⟩

end Reads

/-! ### Cursors in the longer text -/

namespace Surroundings

variable {w : Surroundings} {c d : Cursor}

def cursor (w : Surroundings) (c : Cursor) : Cursor :=
  match w with
  | .behind prior => ⟨prior ++ c.source, c.ahead.map (Token.shift (Text.byteLength prior))⟩
  | .before later span ts => ⟨c.source ++ later, c.ahead ++ ⟨.symbol .semicolon, span⟩ :: ts⟩

def error (w : Surroundings) (e : ParseError) : ParseError :=
  match w with
  | .behind prior => ⟨e.cause, e.span.shift (Text.byteLength prior)⟩
  | .before .. => e

/-- Whether the source text ends where the longer one does. -/
def SharesEnd : Surroundings → Prop
  | .behind _ => True
  | .before .. => False

/-- Whether nothing beyond the source text counts for a reader that stops at a cursor. -/
def Sees (w : Surroundings) (blind : Bool) (d : Cursor) : Prop :=
  w.SharesEnd ∨ blind = false ∨ d.ahead ≠ []

theorem Sees.of_reads (h : w.Sees blind d) (hreads : Reads blind c d) : w.Sees blind c :=
  h.imp_right fun h => h.imp_right hreads.ahead_ne_nil

theorem length_cursor_lt_iff : (w.cursor d).ahead.length < (w.cursor c).ahead.length ↔
    d.ahead.length < c.ahead.length := by
  cases w with
  | behind prior => simp [cursor]
  | before later span ts => simp [cursor]

theorem endToken_append (prior source : Text) :
    endToken (prior ++ source) = (endToken source).shift (Text.byteLength prior) := by
  simp [endToken, Token.shift, Span.shift, Nat.add_comm]

theorem current_behind (prior : Text) (c : Cursor) :
    ((Surroundings.behind prior).cursor c).current =
      c.current.shift (Text.byteLength prior) := by
  obtain ⟨source, _ | ⟨t, ts⟩⟩ := c
  · exact endToken_append prior source
  · rfl

theorem current_before {later : Text} {span : Span} {ts : List Token} (h : c.ahead ≠ []) :
    ((Surroundings.before later span ts).cursor c).current = c.current := by
  obtain ⟨source, _ | ⟨t, ts⟩⟩ := c
  · exact absurd rfl h
  · rfl

theorem kind_current (h : w.SharesEnd ∨ c.ahead ≠ []) :
    (w.cursor c).current.kind = c.current.kind := by
  cases w with
  | behind prior => rw [current_behind, Token.kind_shift]
  | before later span ts =>
      obtain h | h := h
      · exact h.elim
      · rw [current_before h]

/-- Where the source text ends before more text, a semicolon comes next. -/
theorem kind_current_of_nil (hw : ¬ w.SharesEnd) (h : c.ahead = []) :
    (w.cursor c).current.kind = .symbol .semicolon := by
  cases w with
  | behind prior => exact absurd trivial hw
  | before later span ts =>
      simp only [cursor, Cursor.current, h]
      rfl

/-- Either a cursor stands at the same token in the longer text, or its text ends before more text.
-/
theorem end_cases (w : Surroundings) (c : Cursor) :
    (w.SharesEnd ∨ c.ahead ≠ []) ∨ (¬ w.SharesEnd ∧ c.ahead = []) := by
  by_cases hw : w.SharesEnd
  · exact Or.inl (Or.inl hw)
  · by_cases hnil : c.ahead = []
    · exact Or.inr ⟨hw, hnil⟩
    · exact Or.inl (Or.inr hnil)

theorem cursor_drop (h : w.SharesEnd ∨ n ≤ c.ahead.length) :
    w.cursor (c.drop n) = (w.cursor c).drop n := by
  rw [Cursor.drop_eq, Cursor.drop_eq]
  cases w with
  | behind prior => simp [cursor, List.map_drop]
  | before later span ts =>
      obtain h | h := h
      · exact h.elim
      · simp [cursor, List.drop_append_of_le_length h]

theorem cursor_advance (h : w.SharesEnd ∨ c.ahead ≠ []) :
    w.cursor c.advance = (w.cursor c).advance := by
  refine cursor_drop (n := 1) (h.imp_right fun h => ?_)
  exact List.length_pos_iff.2 h

end Surroundings

end SchemaModels.Ddl

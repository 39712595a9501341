import SchemaModels.Proofs.Ddl.Blanks

/-!
# The tokens of joined texts

A line break ends every comment that runs to the end of its line, and every token that is closed. So
the tokens of a text whose last token is no fault are the first ones of the text that goes on behind
a line break, and the tokens behind it are those of what follows, moved (`lexemesFrom_line`,
`lexemesFrom_shift`).
-/

namespace SchemaModels.Ddl

namespace Lexer

/-! ### Tokens -/

theorem next_shift (k : Nat) (p : Place) :
    next (p.embed k []) = ((next p).1.shift k, (next p).2.embed k []) := by
  have hskip : skip .blank (p.offset + k) p.rest = shifted k (skip .blank p.offset p.rest) :=
    skip_shift .blank p.offset k p.rest
  unfold next
  simp only [Place.embed, List.append_nil]
  rw [hskip]
  rcases skip .blank p.offset p.rest with s | ⟨o, _ | ⟨c, r⟩⟩
  · rfl
  · rfl
  · have htoken := token_append detached_nil o k c r fun _ _ => rfl
    rw [List.append_nil] at htoken
    simp only [shifted, Place.embed, List.append_nil, htoken]
    rfl

/-- A token that is closed is the same when a line break follows. -/
theorem next_line {p : Place} (heof : (next p).1.kind ≠ .eof)
    (hfault : (next p).1.kind.IsFault → (next p).2.rest ≠ []) (v : Text) :
    next (p.embed 0 ('\n' :: v)) = ((next p).1, (next p).2.embed 0 ('\n' :: v)) := by
  unfold next at heof hfault ⊢
  dsimp only [Place.embed, Nat.add_zero] at heof hfault ⊢
  cases hskip : skip .blank p.offset p.rest with
  | error s =>
      rw [hskip] at hfault
      exact absurd rfl (hfault ⟨_, rfl⟩)
  | ok q =>
      obtain ⟨o, _ | ⟨c, r⟩⟩ := q
      · rw [hskip] at heof
        exact absurd rfl heof
      · rw [hskip] at hfault
        have htoken := token_append (detached_line v) o 0 c r fun hf hr =>
          absurd hr (hfault hf)
        rw [skip_line hskip, if_neg (List.cons_ne_nil c r)]
        simp only [Place.embed, Nat.add_zero, List.cons_append] at htoken ⊢
        rw [htoken]

theorem next_line_of_eof {p : Place} (heof : (next p).1.kind = .eof) (v : Text) :
    next (p.embed 0 ('\n' :: v)) = next ⟨p.stop + 1, v⟩ := by
  unfold next at heof ⊢
  dsimp only [Place.embed, Nat.add_zero] at heof ⊢
  cases hskip : skip .blank p.offset p.rest with
  | error s =>
      rw [hskip] at heof
      cases heof
  | ok q =>
      obtain ⟨o, _ | ⟨c, r⟩⟩ := q
      · rw [skip_line hskip, if_pos rfl]
        rfl
      · rw [hskip] at heof
        exact absurd heof (token_ne_eof o c r)

theorem next_stop (p : Place) :
    (next p).2.stop = p.stop ∧ (next p).1.span.stop ≤ p.stop := by
  have hskip := stopOf_skip .blank p.offset p.rest
  unfold next
  rcases hs : skip .blank p.offset p.rest with s | ⟨o', _ | ⟨c, r⟩⟩
  · rw [hs] at hskip
    exact ⟨hskip, Nat.le_of_eq hskip⟩
  · rw [hs] at hskip
    exact ⟨hskip, Nat.le_of_eq hskip⟩
  · rw [hs] at hskip
    have htoken := token_stop o' c r
    refine ⟨htoken.trans hskip, ?_⟩
    refine Nat.le_trans ?_ (Nat.le_of_eq (htoken.trans hskip))
    exact Nat.le_add_right _ _

end Lexer

/-! ### Runs of tokens -/

open Lexer (next next_shift next_line next_line_of_eof next_stop)

theorem lexemesFrom_of_eof {p : Place} (h : (next p).1.kind = .eof) : lexemesFrom p = [] := by
  rw [lexemesFrom]
  simp [h]

theorem lexemesFrom_of_ne_eof {p : Place} (h : (next p).1.kind ≠ .eof) :
    lexemesFrom p = (next p).1 :: lexemesFrom (next p).2 := by
  rw [lexemesFrom]
  simp [h]

theorem lexemesFrom_congr {p q : Place} (h : next p = next q) : lexemesFrom p = lexemesFrom q := by
  by_cases heof : (next q).1.kind = .eof
  · rw [lexemesFrom_of_eof heof, lexemesFrom_of_eof (h ▸ heof)]
  · rw [lexemesFrom_of_ne_eof heof, lexemesFrom_of_ne_eof (h ▸ heof), h]

theorem lexemesFrom_shift (k : Nat) (p : Place) :
    lexemesFrom (p.embed k []) = (lexemesFrom p).map (Token.shift k) := by
  fun_induction lexemesFrom p with
  | case1 p step heof =>
      refine lexemesFrom_of_eof ?_
      rw [next_shift]
      exact heof
  | case2 p step heof ih =>
      rw [lexemesFrom_of_ne_eof (by rw [next_shift]; exact heof), next_shift, ih]
      rfl

theorem lexemesFrom_inside {p : Place} {t : Token} (h : t ∈ lexemesFrom p) :
    t.kind ≠ .eof ∧ t.span.stop ≤ p.stop := by
  fun_induction lexemesFrom p with
  | case1 p step heof => cases h
  | case2 p step heof ih =>
      obtain ⟨hstop, hspan⟩ := next_stop p
      rcases List.mem_cons.1 h with rfl | h
      · exact ⟨heof, hspan⟩
      · exact hstop ▸ ih h

/-- Whether the last of some tokens is no fault. -/
def EndsPlain (ts : List Token) : Prop := ∀ t, ts.getLast? = some t → ¬ t.kind.IsFault

theorem endsPlain_nil : EndsPlain [] := nofun

/-- What is left of some tokens ends as all of them do. -/
theorem EndsPlain.of_suffix {ts us : List Token} (h : EndsPlain us) (hsuffix : us <:+ ts)
    (hne : us ≠ []) : EndsPlain ts := by
  obtain ⟨vs, rfl⟩ := hsuffix
  intro t ht
  rw [List.getLast?_append, List.getLast?_eq_some_getLast hne, Option.some_or] at ht
  exact h t (by rw [List.getLast?_eq_some_getLast hne, ht])

theorem EndsPlain.tail {t : Token} {ts : List Token} (h : EndsPlain (t :: ts)) : EndsPlain ts := by
  intro x hx
  exact h x (by rw [List.getLast?_cons, hx]; rfl)

theorem rest_ne_nil_of_lexemesFrom {p : Place} (h : lexemesFrom p ≠ []) : p.rest ≠ [] := by
  intro hrest
  obtain ⟨o, t⟩ := p
  cases hrest
  exact h (lexemesFrom_of_eof rfl)

theorem lexemesFrom_line {p : Place} (h : EndsPlain (lexemesFrom p)) (v : Text) :
    lexemesFrom (p.embed 0 ('\n' :: v)) = lexemesFrom p ++ lexemesFrom ⟨p.stop + 1, v⟩ := by
  fun_induction lexemesFrom p with
  | case1 p step heof =>
      exact lexemesFrom_congr (next_line_of_eof heof v)
  | case2 p step heof ih =>
      -- A fault is not the last token, so that it leaves something to read.
      have hfault : (next p).1.kind.IsFault → (next p).2.rest ≠ [] := by
        intro hf
        apply rest_ne_nil_of_lexemesFrom
        intro hnil
        refine h step.1 ?_ hf
        rw [show lexemesFrom step.2 = [] from hnil]
        rfl
      have hnext := next_line heof hfault v
      rw [lexemesFrom_of_ne_eof (by rw [hnext]; exact heof), hnext, ih h.tail,
        (next_stop p).1]
      rfl

/-- A semicolon on a line of its own stands between the tokens of the texts around it. -/
theorem lexemes_separated {a : Text} (h : EndsPlain (lexemes a)) (b : Text) :
    lexemes (a ++ "\n;\n" ++ b) = lexemes a ++
      ⟨.symbol .semicolon, ⟨Text.byteLength a + 1, Text.byteLength a + 2⟩⟩ ::
        (lexemes b).map (Token.shift (Text.byteLength a + 3)) := by
  have htext : a ++ "\n;\n" ++ b = a ++ '\n' :: ';' :: '\n' :: b := by simp
  have hline (o : Nat) : lexemesFrom ⟨o, '\n' :: b⟩ = lexemesFrom ⟨o + 1, b⟩ :=
    lexemesFrom_congr (next_line_of_eof (p := ⟨o, []⟩) rfl b)
  have hsemicolon (o : Nat) : lexemesFrom ⟨o, ';' :: '\n' :: b⟩ =
      ⟨.symbol .semicolon, ⟨o, o + 1⟩⟩ :: lexemesFrom ⟨o + 1, '\n' :: b⟩ :=
    lexemesFrom_of_ne_eof nofun
  have hshift : lexemesFrom ⟨Text.byteLength a + 3, b⟩ =
      (lexemes b).map (Token.shift (Text.byteLength a + 3)) := by
    rw [lexemes, ← lexemesFrom_shift]
    simp [Place.embed]
  have hfirst := lexemesFrom_line h (';' :: '\n' :: b)
  simp only [Place.embed, Place.stop, Nat.zero_add, Nat.add_zero] at hfirst
  rw [lexemes, htext, hfirst, hsemicolon, hline, hshift]
  rfl

end SchemaModels.Ddl

import SchemaModels.Proofs.Ddl.Lexemes
import SchemaModels.Proofs.Ddl.Skipping

/-!
# Tokens tile their source

Each step of the lexer skips blanks and comments and reads a piece of text (`next_cases`), so a text
is made up of the pieces that its tokens stand for and of what is skipped in front of each
(`tiles_lexemesFrom`). The spans of the tokens say where the pieces are, in their order
(`Tiles.inside`, `Tiles.ordered`), and between two of them, as in front of the first and behind the
last, nothing else stands (`Tiles.gaps`).
-/

namespace SchemaModels.Ddl

open Lexer (Skippable next)

/-! ### One token -/

namespace Lexer

/-- The text that is left when a token has been read is the one behind the token. -/
theorem exists_text_of_token (o : Nat) (c : Char) (r : Text) :
    ∃ text rest, c :: r = text ++ rest ∧ text ≠ [] ∧
      (token o c r).2 = ⟨o + Text.byteLength text, rest⟩ := by
  have hstop := token_stop o c r
  obtain ⟨s, hs⟩ := token_suffix o c r
  refine ⟨c :: s, (token o c r).2.rest, by rw [List.cons_append, hs], List.cons_ne_nil c s, ?_⟩
  have hlength : Text.byteLength (c :: r) =
      Text.byteLength (c :: s) + Text.byteLength (token o c r).2.rest := by
    rw [← Text.byteLength_append, List.cons_append, hs]
  have hoffset : (token o c r).2.offset = o + Text.byteLength (c :: s) := by
    unfold Place.stop at hstop
    omega
  rw [← hoffset]

/-- Either nothing but blanks and comments is left, or a token stands behind them. -/
theorem next_cases (p : Place) :
    (Skippable p.rest [] ∧ next p = (⟨.eof, ⟨p.stop, p.stop⟩⟩, ⟨p.stop, []⟩)) ∨
      ∃ skipped text rest kind start stop, p.rest = skipped ++ text ++ rest ∧
        Skippable skipped (text ++ rest) ∧ text ≠ [] ∧ kind ≠ .eof ∧
        start = p.offset + Text.byteLength skipped ∧ stop = start + Text.byteLength text ∧
        next p = (⟨kind, ⟨start, stop⟩⟩, ⟨stop, rest⟩) := by
  obtain ⟨o, t⟩ := p
  have hstop := stopOf_skip .blank o t
  obtain ⟨skipped, behind, heq, hskips, hstart, hrest, hunclosed⟩ :=
    (skipsPart .blank o t).exists_skipped rfl
  obtain ⟨hskipped⟩ := hskips
  subst heq
  unfold next
  cases hskip : skip .blank o (skipped ++ behind) with
  | error s =>
      rw [hskip] at hstart hstop
      -- A comment that is never closed goes on to the end of the text.
      refine Or.inr ⟨skipped, behind, [], .fault .openComment, s.start, s.stop,
        (List.append_nil _).symm, ?_, hunclosed s hskip, nofun, hstart, ?_, rfl⟩
      · rwa [List.append_nil]
      · rw [Text.byteLength_append] at hstop
        have hend : s.stop = o + (Text.byteLength skipped + Text.byteLength behind) := hstop
        have hbegin : s.start = o + Text.byteLength skipped := hstart
        omega
  | ok q =>
      rw [hskip] at hstart
      have hbegin : q.offset = o + Text.byteLength skipped := hstart
      obtain rfl : q.rest = behind := hrest q hskip
      obtain ⟨o', _ | ⟨c, r⟩⟩ := q
      · dsimp only [Place.stop] at hbegin ⊢
        rw [List.append_nil, hbegin]
        exact Or.inl ⟨hskipped, rfl⟩
      · obtain ⟨text, rest, htext, hne, hbehind⟩ := exists_text_of_token o' c r
        dsimp only at htext hskipped ⊢
        rw [htext] at hskipped ⊢
        refine Or.inr ⟨skipped, text, rest, (token o' c r).1, o', _,
          (List.append_assoc _ _ _).symm, hskipped, hne, token_ne_eof o' c r, hbegin, rfl, ?_⟩
        rw [hbehind]

end Lexer

/-! ### All tokens -/

/-- From an offset on, the text is made up of what the tokens stand for and of what is skipped in
front of each of them. -/
inductive Tiles : Nat → Text → List Token → Prop
  | ended {o stop : Nat} {t : Text} (h : Skippable t []) (hstop : stop = o + Text.byteLength t) :
    Tiles o t [⟨.eof, ⟨stop, stop⟩⟩]
  | token {o start stop : Nat} {skipped text rest : Text} {kind : TokenKind} {ts : List Token}
    (hskipped : Skippable skipped (text ++ rest)) (htext : text ≠ []) (hkind : kind ≠ .eof)
    (hstart : start = o + Text.byteLength skipped) (hstop : stop = start + Text.byteLength text)
    (h : Tiles stop rest ts) : Tiles o (skipped ++ text ++ rest) (⟨kind, ⟨start, stop⟩⟩ :: ts)

theorem tiles_lexemesFrom (p : Place) :
    Tiles p.offset p.rest (lexemesFrom p ++ [⟨.eof, ⟨p.stop, p.stop⟩⟩]) := by
  fun_induction lexemesFrom p with
  | case1 p step heof =>
      obtain ⟨hskipped, -⟩ | ⟨_, _, _, kind, _, _, -, -, -, hkind, -, -, hnext⟩ :=
        Lexer.next_cases p
      · exact .ended hskipped rfl
      · rw [show step = _ from hnext] at heof
        exact absurd heof hkind
  | case2 p step heof ih =>
      have hstop : step.2.stop = p.stop := (Lexer.next_stop p).1
      obtain ⟨-, hnext⟩ | ⟨skipped, text, rest, kind, start, stop, hrest, hskipped, htext, hkind,
        hstart, hstop', hnext⟩ := Lexer.next_cases p
      · rw [show step = _ from hnext] at heof
        exact absurd rfl heof
      · rw [hstop, show step = _ from hnext] at ih
        rw [hrest, show step = _ from hnext]
        exact .token hskipped htext hkind hstart hstop' ih

/-! ### Where the tokens are -/

/-- The span covers a piece of the text. -/
def Span.IsIn (source : Text) (s : Span) : Prop := ∃ a b c, source = a ++ b ++ c ∧
  s = ⟨Text.byteLength a, Text.byteLength a + Text.byteLength b⟩

namespace Tiles

variable {o : Nat} {t : Text} {ts : List Token}

theorem inside (h : Tiles o t ts) (prior : Text) (ho : o = Text.byteLength prior) {token : Token}
    (htoken : token ∈ ts) : token.span.IsIn (prior ++ t) := by
  induction h generalizing prior with
  | @ended o stop t h hstop =>
      obtain rfl := List.mem_singleton.1 htoken
      refine ⟨prior ++ t, [], [], by simp, ?_⟩
      rw [hstop, ho, Text.byteLength_append]
      rfl
  | @token o start stop skipped text rest kind ts hskipped htext hkind hstart hstop h ih =>
      obtain rfl | htoken := List.mem_cons.1 htoken
      · refine ⟨prior ++ skipped, text, rest, by simp, ?_⟩
        rw [hstop, hstart, ho, Text.byteLength_append]
      · have hrest := ih (prior ++ skipped ++ text)
          (by rw [hstop, hstart, ho]; simp [Nat.add_assoc]) htoken
        simpa using hrest

theorem start_le (h : Tiles o t ts) {token : Token} (htoken : token ∈ ts) :
    o ≤ token.span.start := by
  induction h with
  | ended h hstop =>
      obtain rfl := List.mem_singleton.1 htoken
      exact Nat.le.intro hstop.symm
  | token hskipped htext hkind hstart hstop h ih =>
      obtain rfl | htoken := List.mem_cons.1 htoken
      · exact Nat.le.intro hstart.symm
      · have hbehind := ih htoken
        omega

theorem ordered (h : Tiles o t ts) : ts.Pairwise fun a b => a.span.stop ≤ b.span.start := by
  induction h with
  | ended h hstop => exact List.pairwise_singleton _ _
  | token hskipped htext hkind hstart hstop h ih =>
      exact List.pairwise_cons.2 ⟨fun _ => h.start_le, ih⟩

theorem filled (h : Tiles o t ts) {token : Token} (htoken : token ∈ ts.dropLast) :
    token.kind ≠ .eof ∧ token.span.start < token.span.stop := by
  induction h with
  | ended h hstop => cases htoken
  | @token o start stop skipped text rest kind ts hskipped htext hkind hstart hstop h ih =>
      have hne : ts ≠ [] := by
        rintro rfl
        cases h
      rw [List.dropLast_cons_of_ne_nil hne] at htoken
      obtain rfl | htoken := List.mem_cons.1 htoken
      · have hlength := Text.byteLength_pos htext
        exact ⟨hkind, by dsimp only; omega⟩
      · exact ih htoken

/-- What stands between a token, or the beginning of the text, and the next one is skipped. -/
theorem gaps (h : Tiles o t ts) (prior : Text) (ho : o = Text.byteLength prior) {stop : Nat} {token : Token}
    (htoken : (stop, token) ∈ (o :: ts.map (·.span.stop)).zip ts) :
    ∃ a skipped behind, prior ++ t = a ++ skipped ++ behind ∧ stop = Text.byteLength a ∧
      token.span.start = stop + Text.byteLength skipped ∧ Skippable skipped behind := by
  induction h generalizing prior with
  | @ended o stop t h hstop =>
      rw [List.zip_cons_cons] at htoken
      cases List.mem_singleton.1 htoken
      exact ⟨prior, t, [], by simp, ho, hstop, h⟩
  | @token o start stop skipped text rest kind ts hskipped htext hkind hstart hstop h ih =>
      rw [List.map_cons, List.zip_cons_cons] at htoken
      obtain heq | htoken := List.mem_cons.1 htoken
      · cases heq
        exact ⟨prior, skipped, text ++ rest, by simp, ho, hstart, hskipped⟩
      · have hrest := ih (prior ++ skipped ++ text)
          (by rw [hstop, hstart, ho]; simp [Nat.add_assoc]) htoken
        simpa using hrest

end Tiles

/-- The tokens tile the text. -/
structure IsTiling (source : Text) (ts : List Token) : Prop where
  /-- Every span lies in the text, on the boundaries of characters. -/
  inside : ∀ t ∈ ts, t.span.IsIn source
  ordered : ts.Pairwise fun a b => a.span.stop ≤ b.span.start
  /-- Every token but the last one is a piece of text. -/
  filled : ∀ t ∈ ts.dropLast, t.kind ≠ .eof ∧ t.span.start < t.span.stop
  ended : ts.getLast? = some (endToken source)
  /-- Where no token stands, up to the next one, there are blanks and comments. -/
  gaps : ∀ stop token, (stop, token) ∈ (0 :: ts.map (·.span.stop)).zip ts →
    ∃ a skipped behind, source = a ++ skipped ++ behind ∧ stop = Text.byteLength a ∧
      token.span.start = stop + Text.byteLength skipped ∧ Skippable skipped behind

theorem isTiling_tokens (source : Text) : IsTiling source (tokens source) := by
  have hstop : Place.stop ⟨0, source⟩ = Text.byteLength source := Nat.zero_add _
  have h : Tiles 0 source (tokens source) := by
    have hlexemes := tiles_lexemesFrom ⟨0, source⟩
    rwa [hstop] at hlexemes
  exact {
    inside := fun _ ht => h.inside [] rfl ht
    ordered := h.ordered
    filled := fun _ ht => h.filled ht
    ended := by rw [tokens, List.getLast?_append]; rfl
    gaps := fun _ _ ht => h.gaps [] rfl ht }

/-! ### Call after call -/

/-- The tokens that so many calls give from a place on. -/
def reads : Nat → Place → List Token
  | 0, _ => []
  | n + 1, p => (next p).1 :: reads n (next p).2

theorem reads_eq {n m : Nat} (h : n ≤ m) (p : Place) :
    reads n p = (lexemesFrom p ++ List.replicate m (Token.mk .eof ⟨p.stop, p.stop⟩)).take n := by
  induction n generalizing p with
  | zero => rfl
  | succ n ih =>
      have hrest := ih (Nat.le_of_succ_le h) (next p).2
      rw [(Lexer.next_stop p).1] at hrest
      rw [reads, hrest]
      by_cases heof : (next p).1.kind = .eof
      · obtain ⟨-, hnext⟩ | ⟨_, _, _, kind, _, _, -, -, -, hkind, -, -, hnext⟩ :=
          Lexer.next_cases p
        · have hnil : lexemesFrom (next p).2 = [] := by
            rw [hnext]
            exact lexemesFrom_of_eof rfl
          rw [lexemesFrom_of_eof heof, hnil, hnext, List.nil_append, List.take_replicate,
            List.take_replicate, Nat.min_eq_left h, Nat.min_eq_left (Nat.le_of_succ_le h)]
          rfl
        · rw [hnext] at heof
          exact absurd heof hkind
      · rw [lexemesFrom_of_ne_eof heof]
        rfl

/-- Calls give all tokens, and then the end of the text again and again. -/
theorem reads_source (n : Nat) (source : Text) : reads n ⟨0, source⟩ =
    (tokens source ++ List.replicate n (endToken source)).take n := by
  have hstop : Place.stop ⟨0, source⟩ = Text.byteLength source := Nat.zero_add _
  have hreads := reads_eq (Nat.le_succ n) ⟨0, source⟩
  rw [hstop, List.replicate_succ] at hreads
  rw [hreads, tokens, List.append_assoc]
  rfl

end SchemaModels.Ddl

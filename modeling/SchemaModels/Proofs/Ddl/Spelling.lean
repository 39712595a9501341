import SchemaModels.Ddl.Cursor
import SchemaModels.Proofs.Ddl.Lexemes

/-!
# What keyword tokens stand for

A keyword may be used as a name, which is then the source text of its token. That text spells the
keyword (`spelt_ofSource`), because every token begins where the one before it and the blanks end.
-/

namespace SchemaModels.Ddl

/-- The place begins where some text in front of it ends. -/
def Place.StandsIn (source : Text) (p : Place) : Prop :=
  ∃ prior, source = prior ++ p.rest ∧ p.offset = Text.byteLength prior

theorem Place.StandsIn.of_suffix {source : Text} {p q : Place} (h : p.StandsIn source)
    (hsuffix : q.rest <:+ p.rest) (hstop : q.stop = p.stop) : q.StandsIn source := by
  obtain ⟨prior, hsource, hoffset⟩ := h
  obtain ⟨s, hs⟩ := hsuffix
  refine ⟨prior ++ s, by rw [hsource, ← hs, List.append_assoc], ?_⟩
  have hlength := congrArg Text.byteLength hs
  rw [Text.byteLength_append] at hlength ⊢
  unfold Place.stop at hstop
  omega

/-- The token is what is read where its span begins. -/
def Token.ReadIn (source : Text) (t : Token) : Prop :=
  ∃ prior c r, source = prior ++ c :: r ∧
    t = ⟨(Lexer.token (Text.byteLength prior) c r).1,
      ⟨Text.byteLength prior, (Lexer.token (Text.byteLength prior) c r).2.offset⟩⟩

/-- Each token stands where the source text has it. -/
theorem Lexer.next_standsIn {source : Text} {p : Place} (h : p.StandsIn source) :
    (next p).2.StandsIn source ∧ ((next p).1.kind = .eof ∨ (next p).1.kind = .fault .openComment ∨
      (next p).1.ReadIn source) := by
  have hstop := (next_stop p).1
  have hskip := stopOf_skip .blank p.offset p.rest
  unfold next at hstop ⊢
  rcases hs : skip .blank p.offset p.rest with s | ⟨o, _ | ⟨c, r⟩⟩
  · rw [hs] at hstop
    exact ⟨h.of_suffix List.nil_suffix hstop, Or.inr (Or.inl rfl)⟩
  · rw [hs] at hstop
    exact ⟨h.of_suffix List.nil_suffix hstop, Or.inl rfl⟩
  · rw [hs] at hstop hskip
    have hbegin : (⟨o, c :: r⟩ : Place).StandsIn source := h.of_suffix (skip_suffix hs) hskip
    have hsuffix := (token_suffix o c r).trans (List.suffix_cons c r)
    refine ⟨hbegin.of_suffix hsuffix (token_stop o c r), Or.inr (Or.inr ?_)⟩
    obtain ⟨prior, hsource, ho⟩ := hbegin
    obtain rfl : o = Text.byteLength prior := ho
    exact ⟨prior, c, r, hsource, rfl⟩

/-- Every token is read in the source text, but for a comment without an end. -/
theorem readIn_lexemesFrom {source : Text} {p : Place} (h : p.StandsIn source) {t : Token}
    (ht : t ∈ lexemesFrom p) : t.kind = .fault .openComment ∨ t.ReadIn source := by
  fun_induction lexemesFrom p with
  | case1 p step heof => cases ht
  | case2 p step heof ih =>
      obtain ⟨hrest, hfirst⟩ := Lexer.next_standsIn h
      rcases List.mem_cons.1 ht with rfl | ht
      · exact hfirst.resolve_left heof
      · exact ih hrest ht

theorem readIn_lexemes {source : Text} {t : Token} (ht : t ∈ lexemes source) :
    t.kind = .fault .openComment ∨ t.ReadIn source :=
  readIn_lexemesFrom ⟨[], rfl, rfl⟩ ht

/-- A keyword stands where its source text spells it. -/
def Token.SpeltIn (source : Text) (t : Token) : Prop :=
  ∀ k, t.kind = .keyword k → Keyword.ofText? (t.span.slice source) = some k

open Lexer in
theorem speltIn_word {prior : Text} {c : Char} {r : Text} {o : Nat}
    (ho : o = Text.byteLength prior) :
    Token.SpeltIn (prior ++ c :: r) ⟨(word o (c :: r)).1, ⟨o, (word o (c :: r)).2.offset⟩⟩ := by
  have hname : (c :: r).takeWhile continuesName ++ (c :: r).dropWhile continuesName = c :: r :=
    List.takeWhile_append_dropWhile
  have hslice := Span.slice_append prior ((c :: r).takeWhile continuesName)
    ((c :: r).dropWhile continuesName)
  rw [List.append_assoc, hname] at hslice
  intro k hk
  rw [ho]
  refine (congrArg Keyword.ofText? hslice).trans ?_
  unfold word at hk
  dsimp only at hk
  split at hk
  · rename_i k' hk'
    cases hk
    exact hk'
  · cases hk

theorem Token.ReadIn.speltIn {source : Text} {t : Token} (h : t.ReadIn source) :
    t.SpeltIn source := by
  obtain ⟨prior, c, r, rfl, rfl⟩ := h
  rcases Lexer.token_cases (Text.byteLength prior) c r with hword | hother
  · rw [hword]
    exact speltIn_word rfl
  · exact fun k hk => absurd (Or.inr ⟨k, hk⟩) hother

/-- Every keyword ahead stands where its source text spells it. -/
def Cursor.Spelt (c : Cursor) : Prop := ∀ t ∈ c.ahead, t.SpeltIn c.source

theorem Cursor.spelt_ofSource (source : Text) : (Cursor.ofSource source).Spelt := by
  intro t ht
  rcases readIn_lexemes ht with hfault | hread
  · exact fun k hk => absurd (hfault.symm.trans hk) nofun
  · exact hread.speltIn

end SchemaModels.Ddl

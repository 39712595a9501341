import SchemaModels.Proofs.Ddl.Blanks

/-!
# What is skipped

The text between two tokens is a run of blanks and comments (`Skippable`). A lexer that skips to the
next token, or to a comment that is never closed, has skipped such a run and nothing else
(`skipsPart`), and where such a run stands it skips all of it (`Skippable.skip`).
-/

namespace SchemaModels.Ddl.Lexer

/-- The first text consists of blanks and comments where the second one follows. Two hyphens open a
comment only before a blank or the end of the text, and a comment that a line break ends goes on to
it or to the end of the text. -/
inductive Skippable : Text → Text → Prop
  | nil (behind : Text) : Skippable [] behind
  | blank {c : Char} {t behind : Text} (hc : Text.isBlank c = true) (h : Skippable t behind) :
    Skippable (c :: t) behind
  | line {mark body t behind : Text} (hmark : mark = ['#'] ∨
      mark = ['-', '-'] ∧ (body ++ t ++ behind).head?.all Text.isBlank = true)
    (hbody : '\n' ∉ body) (hend : (t ++ behind).head?.all (· = '\n') = true)
    (h : Skippable t behind) : Skippable (mark ++ body ++ t) behind
  | block {body t behind : Text} (hbody : ¬ ['*', '/'] <:+: body ++ ['*'])
    (h : Skippable t behind) : Skippable (['/', '*'] ++ body ++ ['*', '/'] ++ t) behind

/-- What is skipped where a lexer stands inside a gap. -/
inductive Skips : Gap → Text → Text → Prop
  | blank {t behind : Text} (h : Skippable t behind) : Skips .blank t behind
  | line {body t behind : Text} (hbody : '\n' ∉ body)
    (hend : (t ++ behind).head?.all (· = '\n') = true) (h : Skippable t behind) :
    Skips .line (body ++ t) behind
  | opening {s : Nat} {t behind : Text} (c : Char) (h : Skips (.block s) t behind) :
    Skips (.opening s) (c :: t) behind
  | block {s : Nat} {body t behind : Text} (hbody : ¬ ['*', '/'] <:+: body ++ ['*'])
    (h : Skippable t behind) : Skips (.block s) (body ++ ['*', '/'] ++ t) behind
  | closing {t behind : Text} (c : Char) (h : Skippable t behind) : Skips .closing (c :: t) behind
  | ended : Skips .closing [] []

/-- Where the comment was opened inside which a lexer stands. -/
def Gap.opened? : Gap → Option Nat
  | .opening s | .block s => some s
  | _ => none

/-- Where a lexer stops that skips: before a token or the end of the text, or before a comment that
is never closed. -/
def startOf : Except Span Place → Nat
  | .ok p => p.offset
  | .error s => s.start

/-- The text is what is skipped and what follows it. -/
structure IsSkipOf (g : Gap) (o : Nat) (t skipped behind : Text) (x : Except Span Place) :
    Prop where
  eq : t = skipped ++ behind
  skips : Skips g skipped behind
  start : startOf x = o + Text.byteLength skipped
  rest : ∀ p, x = .ok p → p.rest = behind
  unclosed : ∀ s, x = .error s → behind ≠ []

theorem IsSkipOf.cons {g g' : Gap} {o : Nat} {c : Char} {t skipped behind : Text}
    {x : Except Span Place} (h : IsSkipOf g' (o + c.utf8Size) t skipped behind x)
    (hskips : Skips g' skipped behind → Skips g (c :: skipped) behind) :
    IsSkipOf g o (c :: t) (c :: skipped) behind x := by
  refine ⟨by rw [h.eq]; rfl, hskips h.skips, ?_, h.rest, h.unclosed⟩
  rw [h.start, Text.byteLength_cons, Nat.add_assoc]

theorem isSkipOf_nil {g : Gap} {o : Nat} (h : Skips g [] []) :
    IsSkipOf g o [] [] [] (.ok ⟨o, []⟩) := by
  refine ⟨rfl, h, rfl, fun p hp => ?_, nofun⟩
  cases hp
  rfl

/-- A comment that is opened to the end of its line is skipped with what opens it. -/
theorem skippable_of_line {c : Char} {t behind : Text} (hopens : opensLine c (t ++ behind) = true)
    (h : Skips .line t behind) : Skippable (c :: t) behind := by
  obtain ⟨body, u, hbody, hend, hu, rfl⟩ : ∃ body u, '\n' ∉ body ∧
      (u ++ behind).head?.all (· = '\n') = true ∧ Skippable u behind ∧ t = body ++ u := by
    cases h with
    | line hbody hend hu => exact ⟨_, _, hbody, hend, hu, rfl⟩
  obtain rfl | ⟨rfl, text, htext, hblank⟩ := opensLine_cases hopens
  · exact .line (Or.inl rfl) hbody hend hu
  · -- The second hyphen is no line break, so the comment goes beyond it.
    cases body with
    | nil =>
        rw [List.nil_append] at htext
        rw [htext] at hend
        cases hend
    | cons d body =>
        cases htext
        exact .line (Or.inr ⟨rfl, hblank⟩) (fun hmem => hbody (List.mem_cons_of_mem _ hmem)) hend hu

/-- A comment in asterisks is skipped from its opening on. -/
theorem skippable_of_opening {c : Char} {s : Nat} {t behind : Text}
    (hopens : c = '/' ∧ (t ++ behind).head? = some '*') (h : Skips (.opening s) t behind) :
    Skippable (c :: t) behind := by
  obtain ⟨rfl, hstar⟩ := hopens
  cases h with
  | opening d h =>
      cases hstar
      cases h with
      | block hbody h => exact .block hbody h

theorem skips_line_newline {t behind : Text} (h : Skips .blank t behind) :
    Skips .line ('\n' :: t) behind := by
  cases h with
  | blank h =>
      have hbreak : Skippable ('\n' :: t) behind := .blank (by decide) h
      have hline : Skips .line ([] ++ '\n' :: t) behind := .line nofun rfl hbreak
      exact hline

theorem skips_line_cons {c : Char} {t behind : Text} (hc : c ≠ '\n') (h : Skips .line t behind) :
    Skips .line (c :: t) behind := by
  cases h with
  | line hbody hend h =>
      rw [← List.cons_append]
      exact .line (fun hmem => (List.mem_cons.1 hmem).elim hc.symm hbody) hend h

theorem skips_block_cons {c : Char} {s : Nat} {t behind : Text}
    (hc : ¬ (c = '*' ∧ (t ++ behind).head? = some '/')) (h : Skips (.block s) t behind) :
    Skips (.block s) (c :: t) behind := by
  cases h with
  | @block _ body t _ hbody h =>
      rw [List.append_assoc, ← List.cons_append, ← List.append_assoc]
      refine .block (fun hinfix => ?_) h
      rw [List.cons_append, List.infix_cons_iff] at hinfix
      obtain hprefix | hinfix := hinfix
      · obtain ⟨rfl, hslash⟩ := List.cons_prefix_cons.1 hprefix
        cases body with
        | nil => exact absurd (List.cons_prefix_cons.1 hslash).1 (by decide)
        | cons d body =>
            exact hc ⟨rfl, congrArg some (List.cons_prefix_cons.1 hslash).1.symm⟩
      · exact hbody hinfix

theorem skips_block_closing {s : Nat} {t behind : Text} (ht : (t ++ behind).head? = some '/')
    (h : Skips .closing t behind) : Skips (.block s) ('*' :: t) behind := by
  cases h with
  | closing c h =>
      cases ht
      have hblock : Skips (.block s) ([] ++ ['*', '/'] ++ _) behind := .block (by decide) h
      exact hblock
  | ended => cases ht

/-! ### All that is skipped -/

/-- A lexer that stands in the gap has skipped a part of the text, or else the comment that it
stands in is never closed. -/
def SkipsPart (g : Gap) (o : Nat) (t : Text) : Prop :=
  (∃ s, skip g o t = .error s ∧ g.opened? = some s.start) ∨
    ∃ skipped behind, IsSkipOf g o t skipped behind (skip g o t)

/-- Outside comments in asterisks none is found open. -/
theorem SkipsPart.exists_skipped {g : Gap} {o : Nat} {t : Text} (h : SkipsPart g o t)
    (hg : g.opened? = none) : ∃ skipped behind, IsSkipOf g o t skipped behind (skip g o t) := by
  obtain ⟨s, -, hs⟩ | h := h
  · rw [hg] at hs
    cases hs
  · exact h

section Step

variable {o : Nat} {c : Char} {t : Text} (ih : ∀ g, SkipsPart g (o + c.utf8Size) t)
include ih

theorem skipsPart_blank : SkipsPart .blank o (c :: t) := by
  have hrefl : IsSkipOf .blank o (c :: t) [] (c :: t) (.ok ⟨o, c :: t⟩) := by
    refine ⟨rfl, .blank (.nil _), rfl, fun p hp => ?_, nofun⟩
    cases hp
    rfl
  refine Or.inr ?_
  rw [skip_blank_cons]
  split
  · rename_i hblank
    obtain ⟨skipped, behind, h⟩ := (ih .blank).exists_skipped rfl
    exact ⟨_, behind, h.cons fun | .blank h => .blank (.blank hblank h)⟩
  · split
    · rename_i hopens
      obtain ⟨skipped, behind, h⟩ := (ih .line).exists_skipped rfl
      rw [h.eq] at hopens
      exact ⟨_, behind, h.cons fun hskips => .blank (skippable_of_line hopens hskips)⟩
    · split
      · rename_i hopens
        obtain ⟨s, herror, hs⟩ | ⟨skipped, behind, h⟩ := ih (.opening o)
        · -- The comment that opens here is never closed.
          cases hs
          refine ⟨[], c :: t, rfl, .blank (.nil _), ?_, ?_, fun _ _ => List.cons_ne_nil c t⟩
          · rw [herror]
            rfl
          · rw [herror]
            nofun
        · rw [h.eq] at hopens
          exact ⟨_, behind, h.cons fun hskips => .blank (skippable_of_opening hopens hskips)⟩
      · exact ⟨[], c :: t, hrefl⟩

theorem skipsPart_line : SkipsPart .line o (c :: t) := by
  refine Or.inr ?_
  by_cases hc : c = '\n'
  · subst hc
    obtain ⟨skipped, behind, h⟩ := (ih .blank).exists_skipped rfl
    exact ⟨_, behind, h.cons skips_line_newline⟩
  · obtain ⟨skipped, behind, h⟩ := (ih .line).exists_skipped rfl
    rw [skip, if_neg hc]
    exact ⟨_, behind, h.cons (skips_line_cons hc)⟩

theorem skipsPart_opening (s : Nat) : SkipsPart (.opening s) o (c :: t) := by
  obtain herror | ⟨skipped, behind, h⟩ := ih (.block s)
  · exact Or.inl herror
  · exact Or.inr ⟨_, behind, h.cons (.opening c)⟩

theorem skipsPart_block (s : Nat) : SkipsPart (.block s) o (c :: t) := by
  unfold SkipsPart
  rw [skip_block_cons]
  split
  · rename_i hcloses
    obtain ⟨rfl, hslash⟩ := hcloses
    obtain ⟨skipped, behind, h⟩ := (ih .closing).exists_skipped rfl
    rw [h.eq] at hslash
    exact Or.inr ⟨_, behind, h.cons (skips_block_closing hslash)⟩
  · rename_i hcloses
    obtain herror | ⟨skipped, behind, h⟩ := ih (.block s)
    · exact Or.inl herror
    · rw [h.eq] at hcloses
      exact Or.inr ⟨_, behind, h.cons (skips_block_cons hcloses)⟩

theorem skipsPart_closing : SkipsPart .closing o (c :: t) := by
  obtain ⟨skipped, behind, h⟩ := (ih .blank).exists_skipped rfl
  exact Or.inr ⟨_, behind, h.cons fun | .blank h => .closing c h⟩

end Step

theorem skipsPart (g : Gap) (o : Nat) (t : Text) : SkipsPart g o t := by
  induction t generalizing g o with
  | nil =>
      cases g with
      | blank => exact Or.inr ⟨[], [], isSkipOf_nil (.blank (.nil []))⟩
      | line =>
          have hskips : Skips .line ([] ++ []) [] := .line nofun rfl (.nil [])
          exact Or.inr ⟨[], [], isSkipOf_nil hskips⟩
      | opening s => exact Or.inl ⟨_, rfl, rfl⟩
      | block s => exact Or.inl ⟨_, rfl, rfl⟩
      | closing => exact Or.inr ⟨[], [], isSkipOf_nil .ended⟩
  | cons c t ih =>
      cases g with
      | blank => exact skipsPart_blank fun g => ih g _
      | line => exact skipsPart_line fun g => ih g _
      | opening s => exact skipsPart_opening (fun g => ih g _) s
      | block s => exact skipsPart_block (fun g => ih g _) s
      | closing => exact skipsPart_closing fun g => ih g _

/-! ### Nothing less is skipped -/

theorem skip_line_body {body v : Text} (hbody : '\n' ∉ body)
    (hend : v.head?.all (· = '\n') = true) (o : Nat) :
    skip .line o (body ++ v) = skip .blank (o + Text.byteLength body) v := by
  induction body generalizing o with
  | nil =>
      cases v with
      | nil => rfl
      | cons d v =>
          obtain rfl : d = '\n' := by simpa using hend
          rfl
  | cons c body ih =>
      obtain ⟨hc, hbody⟩ := not_or.1 (mt List.mem_cons.2 hbody)
      rw [List.cons_append, skip, if_neg (Ne.symm hc), ih hbody, Text.byteLength_cons,
        ← Nat.add_assoc]

theorem skip_block_body {body : Text} (hbody : ¬ ['*', '/'] <:+: body ++ ['*']) (s o : Nat)
    (v : Text) : skip (.block s) o (body ++ '*' :: '/' :: v) =
      skip .blank (o + Text.byteLength body + 2) v := by
  induction body generalizing o with
  | nil => rfl
  | cons c body ih =>
      have hcloses : ¬ (c = '*' ∧ (body ++ '*' :: '/' :: v).head? = some '/') := by
        rintro ⟨rfl, hslash⟩
        cases body with
        | nil => cases hslash
        | cons d body =>
            cases hslash
            exact hbody ⟨[], body ++ ['*'], rfl⟩
      have hrest : ¬ ['*', '/'] <:+: body ++ ['*'] :=
        fun hclose => hbody (hclose.trans (List.suffix_cons c _).isInfix)
      rw [List.cons_append, skip_block_cons, if_neg hcloses, ih hrest, Text.byteLength_cons,
        ← Nat.add_assoc]

theorem Skippable.skip {t behind : Text} (h : Skippable t behind) (o : Nat) :
    Lexer.skip .blank o (t ++ behind) = Lexer.skip .blank (o + Text.byteLength t) behind := by
  induction h generalizing o with
  | nil behind => rfl
  | blank hc h ih =>
      rw [List.cons_append, skip_blank_cons, if_pos hc, ih, Text.byteLength_cons, Nat.add_assoc]
  | @line mark body t behind hmark hbody hend h ih =>
      have hline (o : Nat) : Lexer.skip .line o (body ++ (t ++ behind)) =
          Lexer.skip .blank (o + Text.byteLength body + Text.byteLength t) behind := by
        rw [skip_line_body hbody hend, ih]
      rw [List.append_assoc, List.append_assoc, Text.byteLength_append, Text.byteLength_append,
        ← Nat.add_assoc, ← Nat.add_assoc, ← hline]
      obtain rfl | ⟨rfl, hblank⟩ := hmark
      · rfl
      · have hopens : opensLine '-' ('-' :: (body ++ (t ++ behind))) = true := by
          rw [List.append_assoc] at hblank
          exact hblank
        simp only [List.cons_append, List.nil_append]
        rw [skip_blank_cons, if_neg (by decide), if_pos hopens]
        rfl
  | @block body t behind hbody h ih =>
      have hopens (v : Text) : Lexer.skip .blank o ('/' :: '*' :: v) =
          Lexer.skip (.block o) (o + 2) v := rfl
      have hlength : Text.byteLength (['/', '*'] ++ body ++ ['*', '/'] ++ t) =
          2 + Text.byteLength body + 2 + Text.byteLength t := by
        simp only [Text.byteLength_append]
        rfl
      have htext : ['/', '*'] ++ body ++ ['*', '/'] ++ t ++ behind =
          '/' :: '*' :: (body ++ '*' :: '/' :: (t ++ behind)) := by simp
      rw [htext, hopens, skip_block_body hbody, ih, hlength]
      simp only [Nat.add_assoc]

end SchemaModels.Ddl.Lexer

import SchemaModels.Proofs.Ddl.Canonical
import SchemaModels.Proofs.Ddl.Lexemes

/-!
# Texts that spell tokens

A text spells some tokens if these are what the lexer reads of it, whatever stands behind it as long
as that does not go on with the last token. Texts put together spell their tokens one after another.
Names in backquotes and strings in quotes are written so that they spell themselves.
-/

namespace SchemaModels.Ddl

open Lexer (Detached detached_cons token token_append skip opensLine)

def kindsOf (source : Text) : List TokenKind := (lexemes source).map (·.kind)

def Spells (t : Text) (ks : List TokenKind) : Prop :=
  ∀ u, Detached u → kindsOf (t ++ u) = ks ++ kindsOf u

theorem kindsOf_from (o : Nat) (t : Text) : (lexemesFrom ⟨o, t⟩).map (·.kind) = kindsOf t := by
  have hshift := lexemesFrom_shift o ⟨0, t⟩
  rw [Place.embed, Nat.zero_add, List.append_nil] at hshift
  rw [hshift, List.map_map]
  rfl

/-! ### Putting texts together -/

variable {a b : Text} {ks ls : List TokenKind}

theorem spells_nil : Spells [] [] := fun _ _ => rfl

theorem Spells.append (ha : Spells a ks) (hb : Spells b ls) (hdetached : Detached b) :
    Spells (a ++ b) (ks ++ ls) := by
  intro u hu
  have hbu : Detached (b ++ u) := by
    cases b with
    | nil => exact hu
    | cons c b => exact hdetached
  rw [List.append_assoc, ha (b ++ u) hbu, hb u hu, List.append_assoc]

theorem kindsOf_space (t : Text) : kindsOf (' ' :: t) = kindsOf t := by
  rw [← kindsOf_from 1 t]
  exact congrArg (List.map (·.kind))
    (lexemesFrom_congr (p := ⟨0, ' ' :: t⟩) (q := ⟨1, t⟩) rfl)

theorem Spells.space (h : Spells a ks) : Spells (' ' :: a) ks := by
  intro u hu
  rw [← h u hu]
  exact kindsOf_space (a ++ u)

/-- A space may stand between any two texts. -/
theorem Spells.then (ha : Spells a ks) (hb : Spells b ls) : Spells (a ++ ' ' :: b) (ks ++ ls) :=
  ha.append hb.space (detached_cons (by decide) b)

/-! ### One token -/

/-- A character that is neither blank nor the beginning of a comment. -/
def Begins (c : Char) (r : Text) : Prop :=
  Text.isBlank c = false ∧ opensLine c r = false ∧ c ≠ '/'

theorem begins_of_not_mem {c : Char} (hblank : Text.isBlank c = false)
    (hc : c ∉ ['#', '-', '/']) (r : Text) : Begins c r := by
  simp only [List.mem_cons, List.not_mem_nil, or_false, not_or] at hc
  obtain ⟨hhash, hhyphen, hslash⟩ := hc
  exact ⟨hblank, by simp [opensLine, hhash, hhyphen], hslash⟩

theorem next_of_begins {c : Char} {r : Text} (h : Begins c r) (o : Nat) :
    Lexer.next ⟨o, c :: r⟩ =
      (⟨(token o c r).1, ⟨o, (token o c r).2.offset⟩⟩, (token o c r).2) := by
  obtain ⟨hblank, hline, hblock⟩ := h
  have hskip : skip .blank o (c :: r) = .ok ⟨o, c :: r⟩ := by
    rw [Lexer.skip_blank_cons]
    simp [hblank, hline, hblock]
  unfold Lexer.next
  dsimp only
  rw [hskip]

theorem kindsOf_token {c : Char} {r : Text} (h : Begins c r) (hc : (token 0 c r).1 ≠ .eof) :
    kindsOf (c :: r) = (token 0 c r).1 :: kindsOf (token 0 c r).2.rest := by
  have hnext := next_of_begins h 0
  rw [kindsOf, lexemes, lexemesFrom_of_ne_eof (by rw [hnext]; exact hc), hnext, List.map_cons,
    kindsOf_from]

/-- A token is read whole before more text that does not go on with it. -/
theorem spells_token {c : Char} {r : Text} {k : TokenKind} {p : Place} (hc : ∀ r, Begins c r)
    (htoken : token 0 c r = (k, p)) (hrest : p.rest = []) (hfault : ¬ k.IsFault) :
    Spells (c :: r) [k] := by
  intro u hu
  have happend : token 0 c (r ++ u) = (k, p.embed 0 u) := by
    have hplain : ¬ (token 0 c r).1.IsFault := by
      rw [htoken]
      exact hfault
    have h := token_append hu 0 0 c r fun h => absurd h hplain
    rwa [htoken] at h
  have heof := Lexer.token_ne_eof 0 c (r ++ u)
  rw [List.cons_append, kindsOf_token (hc _) heof, happend, Place.embed, hrest]
  rfl

theorem lookup_pairs_of_first {c : Char} (hc : c ∉ Lexer.pairs.map (·.1.1)) (r : Text) :
    (r.head?.bind fun d => Lexer.pairs.lookup (c, d)) = none := by
  cases r with
  | nil => rfl
  | cons d r =>
      refine List.lookup_eq_none_iff.2 fun p hp => ?_
      have hne : (c, d) ≠ p.1 := fun he => hc (List.mem_map.2 ⟨p, hp, (congrArg Prod.fst he).symm⟩)
      simpa using hne

/-- A symbol that begins no longer one is read whole before any text. -/
theorem kindsOf_symbol {c : Char} {r : Text} {s : Symbol} (hc : Begins c r)
    (hfirst : c ∉ Lexer.pairs.map (·.1.1)) (hs : Lexer.singles.lookup c = some s) :
    kindsOf (c :: r) = .symbol s :: kindsOf r := by
  have hsymbol : Lexer.symbol? 0 c r = some (s, ⟨1, r⟩) := by
    unfold Lexer.symbol?
    rw [lookup_pairs_of_first hfirst, hs]
    rfl
  have htoken : token 0 c r = (.symbol s, ⟨1, r⟩) := by
    unfold token
    rw [hsymbol]
  rw [kindsOf_token hc (by rw [htoken]; exact nofun), htoken]

/-- The symbols of canonical texts, apart from the sign of a number. -/
def marks : List (Char × Symbol) :=
  [('(', .leftParen), (')', .rightParen), (',', .comma), ('=', .equal)]

theorem Spells.mark {c : Char} {s : Symbol} (hc : (c, s) ∈ marks) (h : Spells a ks) :
    Spells (c :: a) (.symbol s :: ks) := by
  have hmarks : ∀ m ∈ marks, Text.isBlank m.1 = false ∧ m.1 ∉ ['#', '-', '/'] ∧
      m.1 ∉ Lexer.pairs.map (·.1.1) ∧ Lexer.singles.lookup m.1 = some m.2 := by decide
  obtain ⟨hblank, hcomment, hfirst, hs⟩ := hmarks _ hc
  intro u hu
  rw [List.cons_append, kindsOf_symbol (begins_of_not_mem hblank hcomment _) hfirst hs, h u hu]
  rfl

/-- Before a space a hyphen opens no comment. -/
theorem Spells.minus (h : Spells a ks) : Spells ('-' :: ' ' :: a) (.symbol .minus :: ks) := by
  intro u hu
  have hminus : kindsOf ('-' :: ' ' :: (a ++ u)) = .symbol .minus :: kindsOf (' ' :: (a ++ u)) :=
    kindsOf_symbol ⟨rfl, rfl, by decide⟩ (by decide) rfl
  exact hminus.trans (congrArg (TokenKind.symbol .minus :: ·) (h.space u hu))

/-! ### Names and strings -/

open Lexer (quotedText push)

/-- What is doubled between quotes is read as it was: the quote, and the backslash in a string. -/
theorem quotedText_doubled {quote : Char} {isString : Bool} {special : List Char}
    (hspecial : ∀ c, c ∈ special ↔ c = quote ∨ (isString = true ∧ c = '\\')) {b : Text}
    (hb : b.head? ≠ some quote) (o : Nat) (t : Text) :
    (quotedText quote isString o (doubled special t ++ quote :: b)).1 = some t ∧
      (quotedText quote isString o (doubled special t ++ quote :: b)).2.rest = b := by
  induction t generalizing o with
  | nil =>
      cases b with
      | nil => simp [doubled, quotedText]
      | cons d b =>
          have hd : d ≠ quote := fun h => hb (by rw [h]; rfl)
          simp [doubled, quotedText, hd]
  | cons c t ih =>
      have hne : doubled special t ++ quote :: b ≠ [] := by simp
      have hcons : doubled special (c :: t) ++ quote :: b =
          (if c ∈ special then [c, c] else [c]) ++ (doubled special t ++ quote :: b) := by
        simp [doubled]
      rw [hcons]
      generalize doubled special t ++ quote :: b = rest at ih hne ⊢
      by_cases hquote : c = quote
      · rw [if_pos ((hspecial c).2 (Or.inl hquote)), hquote]
        simp [quotedText, push, ih]
      by_cases hescape : isString = true ∧ c = '\\'
      · rw [if_pos ((hspecial c).2 (Or.inr hescape))]
        obtain ⟨rfl, rfl⟩ := hescape
        simp [quotedText, push, Lexer.unescape, ih, hquote]
      · have hplain : c ∉ special := fun hc => ((hspecial c).1 hc).elim hquote hescape
        obtain ⟨d, r, rfl⟩ := List.exists_cons_of_ne_nil hne
        rw [if_neg hplain]
        simp [quotedText, push, ih, hquote, hescape]

theorem symbol?_eq_none {c : Char} (hfirst : c ∉ Lexer.pairs.map (·.1.1))
    (hc : c ∉ Lexer.singles.map (·.1)) (o : Nat) (r : Text) : Lexer.symbol? o c r = none := by
  have hsingle : Lexer.singles.lookup c = none := by
    refine List.lookup_eq_none_iff.2 fun p hp => ?_
    have hne : c ≠ p.1 := fun he => hc (List.mem_map.2 ⟨p, hp, he.symm⟩)
    simpa using hne
  unfold Lexer.symbol?
  rw [lookup_pairs_of_first hfirst, hsingle]
  rfl

theorem closed_of_some {kind : Text → TokenKind} {f : LexicalFault} {value : Text}
    {x : Option Text × Place} (h : x.1 = some value) :
    Lexer.closed kind f x = (kind value, x.2) := by
  obtain ⟨y, p⟩ := x
  cases h
  rfl

/-- A token between quotes, given how it is read from behind the first one. -/
theorem spells_quoted {q : Char} {isString : Bool} {special : List Char} {kind : Text → TokenKind}
    {f : LexicalFault} (hq : ∀ r, Begins q r)
    (hspecial : ∀ c, c ∈ special ↔ c = q ∨ (isString = true ∧ c = '\\'))
    (htoken : ∀ r, token 0 q r = Lexer.closed kind f (quotedText q isString 1 r))
    (hkind : ∀ t, ¬ (kind t).IsFault) (t : Text) :
    Spells (q :: doubled special t ++ [q]) [kind t] := by
  obtain ⟨hvalue, hrest⟩ := quotedText_doubled hspecial (b := []) nofun 1 t
  exact spells_token hq ((htoken _).trans (closed_of_some hvalue)) hrest (hkind t)

theorem token_backquote (o : Nat) (r : Text) : token o '\x60' r =
    Lexer.closed .identifier .openName (quotedText '\x60' false (o + 1) r) := by
  unfold token
  rw [symbol?_eq_none (by decide) (by decide)]
  rfl

theorem spells_backquoted (name : Text) : Spells (backquoted name) [.identifier name] :=
  spells_quoted (begins_of_not_mem rfl (by decide)) (by simp) (token_backquote 0) (fun _ => nofun)
    name

theorem token_quote (r : Text) : token 0 '\'' r =
    Lexer.closed .string .openString (quotedText '\'' true 1 r) := by
  unfold token
  rw [symbol?_eq_none (by decide) (by decide)]
  rfl

theorem spells_quotedString (s : Text) : Spells (quotedString s) [.string s] :=
  spells_quoted (begins_of_not_mem rfl (by decide)) (by simp) token_quote (fun _ => nofun) s

end SchemaModels.Ddl

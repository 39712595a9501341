import SchemaModels.Proofs.Ddl.Balance
import SchemaModels.Proofs.Ddl.LookAheadTokens
import SchemaModels.Proofs.Ddl.Postconditions
import SchemaModels.Proofs.Ddl.Spelling

/-!
# Captured groups are exact

Which parenthesis closes a group is a matter of counting the parentheses between the two
(`Closes`); the reader of groups follows their depth instead, and finds that one
(`groupLength_of_closes`, `exists_of_groupLength`). Both parentheses are single characters of the
source text (`exists_of_parenthesis`), so that the captured text is theirs and what stands between
them (`slices_of_parentheses`).
-/

namespace SchemaModels.Ddl

open AgreesAt (bind_ok)
open Parse (groupLength_cons)

/-! ### The parenthesis that closes a group -/

/-- How many parentheses some tokens open. -/
def openedBy (ts : List Token) : Nat := ts.countP fun t => t.kind = .symbol .leftParen

/-- How many parentheses some tokens close. -/
def closedBy (ts : List Token) : Nat := ts.countP fun t => t.kind = .symbol .rightParen

/-- The token closes the parenthesis in front of the given tokens: they open as many as they close,
and nowhere among them have they closed more. -/
structure Closes (closing : Token) (within : List Token) : Prop where
  isParenthesis : closing.kind = .symbol .rightParen
  balanced : openedBy within = closedBy within
  nested : ∀ before, before <+: within → closedBy before ≤ openedBy before

theorem openedBy_cons (t : Token) (ts : List Token) :
    openedBy (t :: ts) = openedBy ts + if t.kind = .symbol .leftParen then 1 else 0 := by
  simp [openedBy, List.countP_cons]

theorem closedBy_cons (t : Token) (ts : List Token) :
    closedBy (t :: ts) = closedBy ts + if t.kind = .symbol .rightParen then 1 else 0 := by
  simp [closedBy, List.countP_cons]

theorem forall_prefix_cons {α : Type} {P : List α → Prop} {a : α} {l : List α} (hnil : P []) :
    (∀ before, before <+: a :: l → P before) ↔ ∀ before, before <+: l → P (a :: before) := by
  refine ⟨fun h before hbefore => h _ (List.cons_prefix_cons.2 ⟨rfl, hbefore⟩),
    fun h before hbefore => ?_⟩
  obtain rfl | ⟨rest, rfl, hrest⟩ := List.prefix_cons_iff.1 hbefore
  · exact hnil
  · exact h rest hrest

/-- The depth behind some tokens is a matter of counting, as long as it never falls below zero. -/
theorem depthAfter_eq_some_iff {depth n : Nat} {ts : List Token} :
    depthAfter depth ts = some n ↔ depth + openedBy ts = n + closedBy ts ∧
      ∀ before, before <+: ts → closedBy before ≤ depth + openedBy before := by
  induction ts generalizing depth with
  | nil =>
      rw [depthAfter, Option.some.injEq]
      refine ⟨?_, fun h => h.1⟩
      rintro rfl
      refine ⟨rfl, fun before hbefore => ?_⟩
      rw [List.prefix_nil.1 hbefore]
      exact Nat.zero_le _
  | cons t ts ih =>
      rw [forall_prefix_cons (P := fun before => closedBy before ≤ depth + openedBy before)
        (Nat.zero_le _)]
      simp only [openedBy_cons, closedBy_cons]
      by_cases hopen : t.kind = .symbol .leftParen
      · have hclose : t.kind ≠ .symbol .rightParen := by simp [hopen]
        rw [depthAfter_of_open hopen, ih]
        simp only [if_pos hopen, if_neg hclose]
        exact and_congr (by omega) (forall₂_congr fun _ _ => by omega)
      by_cases hclose : t.kind = .symbol .rightParen
      · simp only [if_neg hopen, if_pos hclose]
        cases depth with
        | zero =>
            rw [depthAfter_cons, if_neg hopen, if_pos hclose, if_pos rfl]
            refine ⟨nofun, fun h => ?_⟩
            have hfirst := h.2 [] List.nil_prefix
            simp [openedBy, closedBy] at hfirst
        | succ depth =>
            rw [depthAfter_of_close hclose, ih]
            exact and_congr (by omega) (forall₂_congr fun _ _ => by omega)
      · rw [depthAfter_of_ne hopen hclose, ih]
        simp only [if_neg hopen, if_neg hclose]
        exact and_congr (by omega) (forall₂_congr fun _ _ => by omega)

theorem balanced_iff {ts : List Token} : Balanced ts ↔ openedBy ts = closedBy ts ∧
    ∀ before, before <+: ts → closedBy before ≤ openedBy before := by
  unfold Balanced
  rw [depthAfter_eq_some_iff]
  simp only [Nat.zero_add]

theorem closes_iff {closing : Token} {within : List Token} :
    Closes closing within ↔ closing.kind = .symbol .rightParen ∧ Balanced within := by
  rw [balanced_iff]
  exact ⟨fun h => ⟨h.isParenthesis, h.balanced, h.nested⟩, fun h => ⟨h.1, h.2.1, h.2.2⟩⟩

theorem groupLength_of_depthAfter {depth : Nat} {ts : List Token} {closing : Token}
    (h : depthAfter depth ts = some 0) (hclosing : closing.kind = .symbol .rightParen)
    (behind : List Token) : groupLength depth (ts ++ closing :: behind) = some (ts.length + 1) := by
  induction ts generalizing depth with
  | nil =>
      cases h
      rw [List.nil_append, groupLength_cons, if_neg (by simp [hclosing]), if_pos hclosing,
        if_pos rfl]
      rfl
  | cons t ts ih =>
      rw [List.cons_append, groupLength_cons]
      by_cases hopen : t.kind = .symbol .leftParen
      · rw [depthAfter_of_open hopen] at h
        rw [if_pos hopen, ih h]
        rfl
      rw [if_neg hopen]
      by_cases hclose : t.kind = .symbol .rightParen
      · rw [if_pos hclose]
        cases depth with
        | zero =>
            rw [depthAfter_cons, if_neg hopen, if_pos hclose, if_pos rfl] at h
            cases h
        | succ depth =>
            rw [depthAfter_of_close hclose] at h
            rw [if_neg (Nat.succ_ne_zero depth), Nat.add_sub_cancel, ih h]
            rfl
      · rw [depthAfter_of_ne hopen hclose] at h
        rw [if_neg hclose, ih h]
        rfl

theorem groupLength_of_closes {within : List Token} {closing : Token} (h : Closes closing within)
    (behind : List Token) :
    groupLength 0 (within ++ closing :: behind) = some (within.length + 1) :=
  groupLength_of_depthAfter (closes_iff.1 h).2 h.isParenthesis behind

/-! ### Parentheses in the source text -/

namespace Lexer

variable {o : Nat} {c : Char} {r : Text} {s : Symbol}

/-- No other reader gives a symbol. -/
theorem symbol?_of_token (h : (token o c r).1 = .symbol s) :
    symbol? o c r = some (s, (token o c r).2) := by
  have htoken := isToken_token o c r
  generalize token o c r = x at h htoken ⊢
  cases htoken with
  | symbol hsymbol =>
      cases h
      exact hsymbol
  | @quoted kind f isString hkind hc =>
      generalize quotedText c isString (o + 1) r = y at h
      obtain ⟨_ | value, p⟩ := y
      · cases h
      · obtain rfl | rfl := hkind <;> cases h
  | blob hc hr =>
      generalize blobBytes (o + 2) (r.drop 1) = y at h
      obtain ⟨_ | bytes, p⟩ := y <;> cases h
  | number hc =>
      unfold number integer at h
      dsimp only at h
      split at h
      · split at h <;> cases h
      · split at h <;> cases h
  | word hc =>
      unfold word at h
      dsimp only at h
      split at h <;> cases h
  | other => cases h

/-- A symbol that is no pair of characters is a single one. -/
theorem mem_singles_of_symbol? {p : Place} (h : symbol? o c r = some (s, p))
    (hs : s ∉ pairs.map (·.2)) : (c, s) ∈ singles ∧ p = ⟨o + 1, r⟩ := by
  unfold symbol? at h
  split at h
  · rename_i hpair
    cases h
    obtain ⟨d, -, hlookup⟩ := Option.bind_eq_some_iff.1 hpair
    exact absurd (List.mem_map.2 ⟨((c, d), s), mem_of_lookup_eq_some hlookup, rfl⟩) hs
  · obtain ⟨s', hlookup, heq⟩ := Option.map_eq_some_iff.1 h
    cases heq
    exact ⟨mem_of_lookup_eq_some hlookup, rfl⟩

end Lexer

/-- Each parenthesis is a single byte. -/
theorem utf8Size_parentheses : '('.utf8Size = 1 ∧ ')'.utf8Size = 1 := by decide

/-- A token for a parenthesis is that character of the source text, in its place. -/
theorem exists_of_parenthesis {source : Text} {t : Token} {s : Symbol} {c : Char}
    (ht : t ∈ lexemes source) (hkind : t.kind = .symbol s)
    (hs : (s, c) ∈ [(.leftParen, '('), (.rightParen, ')')]) :
    ∃ prior r, source = prior ++ c :: r ∧
      t.span = ⟨Text.byteLength prior, Text.byteLength prior + 1⟩ := by
  have hsingle : s ∉ Lexer.pairs.map (·.2) ∧ ∀ p ∈ Lexer.singles, p.2 = s → p.1 = c := by
    have hall : ∀ p ∈ [(Symbol.leftParen, '('), (.rightParen, ')')],
        p.1 ∉ Lexer.pairs.map (·.2) ∧ ∀ q ∈ Lexer.singles, q.2 = p.1 → q.1 = p.2 := by decide
    exact hall (s, c) hs
  obtain hfault | ⟨prior, d, r, rfl, rfl⟩ := readIn_lexemes ht
  · rw [hkind] at hfault
    cases hfault
  · obtain ⟨hmem, hplace⟩ :=
      Lexer.mem_singles_of_symbol? (Lexer.symbol?_of_token hkind) hsingle.1
    obtain rfl : d = c := hsingle.2 (d, s) hmem rfl
    exact ⟨prior, r, rfl, by rw [hplace]⟩

section Slices

variable (front between after : Text)

theorem byteLength_parentheses :
    Text.byteLength ('(' :: between ++ [')']) = 1 + Text.byteLength between + 1 := by
  simp [utf8Size_parentheses, Nat.add_assoc]

theorem slice_parentheses : (⟨Text.byteLength front,
    Text.byteLength front + 1 + Text.byteLength between + 1⟩ : Span).slice
      (front ++ ('(' :: between ++ [')']) ++ after) = '(' :: between ++ [')'] := by
  have hslice := Span.slice_append front ('(' :: between ++ [')']) after
  rwa [byteLength_parentheses, ← Nat.add_assoc, ← Nat.add_assoc] at hslice

theorem slice_between : (⟨Text.byteLength front + 1,
    Text.byteLength front + 1 + Text.byteLength between⟩ : Span).slice
      (front ++ ('(' :: between ++ [')']) ++ after) = between := by
  have hslice := Span.slice_append (front ++ ['(']) between (')' :: after)
  rw [Text.byteLength_append, Text.byteLength_cons, Text.byteLength_nil,
    utf8Size_parentheses.1] at hslice
  simpa using hslice

theorem inside_parentheses : inside ('(' :: between ++ [')']) = Text.trim between := by
  rw [inside, List.cons_append, List.tail_cons, List.dropLast_concat]

end Slices

section Parentheses

variable {source : Text} {opening closing : Token} (hopening : opening ∈ lexemes source)
  (hopen : opening.kind = .symbol .leftParen) (hclosing : closing ∈ lexemes source)
  (hclose : closing.kind = .symbol .rightParen) (hle : opening.span.stop ≤ closing.span.start)

include hopening hopen hclosing hclose hle

/-- Two parentheses of the source text, with some text between them. -/
theorem exists_between :
    ∃ front between after, source = front ++ ('(' :: between ++ [')']) ++ after ∧
      opening.span = ⟨Text.byteLength front, Text.byteLength front + 1⟩ ∧
      closing.span = ⟨Text.byteLength front + 1 + Text.byteLength between,
        Text.byteLength front + 1 + Text.byteLength between + 1⟩ := by
  obtain ⟨front, r, hsource, hspan⟩ := exists_of_parenthesis hopening hopen (c := '(') (by simp)
  obtain ⟨prior, after, hsource', hspan'⟩ :=
    exists_of_parenthesis hclosing hclose (c := ')') (by simp)
  rw [hspan, hspan'] at hle
  have hlength := congrArg Text.byteLength hsource
  have hlength' := congrArg Text.byteLength hsource'
  simp only [Text.byteLength_append, Text.byteLength_cons, utf8Size_parentheses] at hlength hlength'
  -- The text from the closing one on ends what follows the opening one.
  have hsuffix : ')' :: after <:+ r := by
    refine suffix_of_byteLength_le (u := source) ⟨prior, hsource'.symm⟩
      ⟨front ++ ['('], by simp [hsource]⟩ ?_
    rw [Text.byteLength_cons, utf8Size_parentheses.2]
    dsimp only at hle
    omega
  obtain ⟨between, rfl⟩ := hsuffix
  simp only [Text.byteLength_append, Text.byteLength_cons, utf8Size_parentheses] at hlength
  refine ⟨front, between, after, by simp [hsource], hspan, ?_⟩
  rw [hspan', show Text.byteLength prior = Text.byteLength front + 1 + Text.byteLength between by
    omega]

/-- The text from an opening parenthesis up to a closing one, and the text between the two. -/
theorem slices_of_parentheses :
    let group := (⟨opening.span.start, closing.span.stop⟩ : Span).slice source
    let between := (⟨opening.span.stop, closing.span.start⟩ : Span).slice source
    group = '(' :: between ++ [')'] ∧ ∃ front after, source = front ++ group ++ after ∧
      opening.span = ⟨Text.byteLength front, Text.byteLength front + 1⟩ ∧
      closing.span = ⟨Text.byteLength front + 1 + Text.byteLength between,
        Text.byteLength front + 1 + Text.byteLength between + 1⟩ := by
  obtain ⟨front, between, after, hsource, hspan, hspan'⟩ :=
    exists_between hopening hopen hclosing hclose hle
  have hgroup : (⟨opening.span.start, closing.span.stop⟩ : Span).slice source =
      '(' :: between ++ [')'] := by
    rw [hspan, hspan', hsource]
    exact slice_parentheses front between after
  have hbetween : (⟨opening.span.stop, closing.span.start⟩ : Span).slice source = between := by
    rw [hspan, hspan', hsource]
    exact slice_between front between after
  dsimp only
  rw [hgroup, hbetween]
  exact ⟨rfl, front, after, hsource, hspan, hspan'⟩

end Parentheses

namespace Cursor.Lexed

variable {c : Cursor}

theorem mem_lexemes (h : c.Lexed) {t : Token} (ht : t ∈ c.ahead) : t ∈ lexemes c.source :=
  h.subset ht

/-- The tokens behind the current one begin where it ends, or later. -/
theorem stop_le (h : c.Lexed) (hne : c.ahead ≠ []) {t : Token} (ht : t ∈ c.ahead.tail) :
    c.current.span.stop ≤ t.span.start := by
  have hordered := (isTiling_tokens c.source).ordered.sublist
    (h.sublist.trans (List.sublist_append_left _ [endToken c.source]))
  rw [Cursor.ahead_eq_cons hne] at hordered
  exact (List.pairwise_cons.1 hordered).1 t ht

end Cursor.Lexed

/-! ### The reader of groups -/

section Reader

variable {c : Cursor} {opening closing : Token} {within behind : List Token}

/-- The source text of some tokens, from the first one up to the last one. -/
theorem Cursor.textTo_of_ahead (h : c.ahead = opening :: (within ++ closing :: behind)) :
    c.textTo ⟨c.source, behind⟩ =
      (⟨opening.span.start, closing.span.stop⟩ : Span).slice c.source := by
  have hahead : c.ahead = opening :: (within ++ [closing]) ++ behind := by simp [h]
  have hread : c.ahead.take (c.ahead.length - behind.length) =
      opening :: (within ++ [closing]) := by
    rw [hahead, List.length_append, Nat.add_sub_cancel, List.take_left]
  unfold Cursor.textTo
  dsimp only
  rw [hread, List.head?_cons, List.getLast?_cons, List.getLast?_append]
  rfl

namespace Parse

theorem expectSymbol_of_kind {s : Symbol} (h : c.current.kind = .symbol s) :
    expectSymbol s c = .ok () c.advance := by
  refine (bind_ok (acceptSymbol s) _ (a := true) (d := c.advance) ?_).trans rfl
  rw [acceptSymbol, accept_eq, if_pos h]

theorem rawGroup_of_ok {d : Cursor} (hopen : c.current.kind = .symbol .leftParen)
    (h : skipGroup c.advance = .ok () d) : rawGroup c = .ok (c.textTo d) d := by
  have hgroup : (do expectSymbol .leftParen; skipGroup) c = .ok () d :=
    (bind_ok _ _ (expectSymbol_of_kind hopen)).trans h
  exact bind_ok _ _ (withSource_of_ok hgroup)

theorem exists_of_rawGroup {text : Text} {d : Cursor} (hopen : c.current.kind = .symbol .leftParen)
    (h : rawGroup c = .ok text d) : ∃ n, groupLength 0 c.ahead.tail = some n := by
  cases hlength : groupLength 0 c.ahead.tail with
  | some n => exact ⟨n, rfl⟩
  | none =>
      have hgroup := (bind_ok (expectSymbol .leftParen) (fun _ => skipGroup)
        (expectSymbol_of_kind hopen)).trans (skipGroup_of_none hlength)
      obtain ⟨_, _, hread, -⟩ := exists_of_bind_ok h
      rw [withSource_of_error hgroup] at hread
      cases hread

/-- A group is kept from its opening parenthesis up to the one that closes it, and the reader stops
behind that one. -/
theorem rawGroup_of_closes (hopen : c.current.kind = .symbol .leftParen)
    (hahead : c.ahead.tail = within ++ closing :: behind) (hcloses : Closes closing within) :
    rawGroup c = .ok ((⟨c.current.span.start, closing.span.stop⟩ : Span).slice c.source)
      ⟨c.source, behind⟩ := by
  have hne : c.ahead ≠ [] := Cursor.ahead_ne_nil (by simp [hopen])
  have hlength : groupLength 0 c.advance.ahead = some (within.length + 1) := by
    rw [Cursor.ahead_advance, hahead]
    exact groupLength_of_closes hcloses behind
  have hdrop : c.advance.drop (within.length + 1) = ⟨c.source, behind⟩ := by
    rw [Cursor.drop_eq, Cursor.ahead_advance, hahead, List.append_cons,
      List.drop_left' (by simp)]
    rfl
  rw [rawGroup_of_ok hopen (skipGroup_of_some hlength), hdrop,
    Cursor.textTo_of_ahead (by rw [Cursor.ahead_eq_cons hne, Cursor.ahead_advance, hahead])]

end Parse

end Reader

/-- At an opening parenthesis a group is read if and only if some parenthesis behind it closes it.
The group is the source text up to that parenthesis, the reader moves behind it, and the inside of
the group is what stands strictly between the two, without the blanks at its ends. -/
theorem rawGroup_is_exact (c : Cursor) (hc : c.Lexed)
    (hopen : c.current.kind = .symbol .leftParen) :
    ((∃ text d, Parse.rawGroup c = .ok text d) ↔
      ∃ within closing behind, c.ahead.tail = within ++ closing :: behind ∧
        Closes closing within) ∧
    ∀ within closing behind, c.ahead.tail = within ++ closing :: behind → Closes closing within →
      let group := (⟨c.current.span.start, closing.span.stop⟩ : Span).slice c.source
      let between := (⟨c.current.span.stop, closing.span.start⟩ : Span).slice c.source
      Parse.rawGroup c = .ok group ⟨c.source, behind⟩ ∧ group = '(' :: between ++ [')'] ∧
        inside group = Text.trim between ∧
        ∃ front after, c.source = front ++ group ++ after ∧
          c.current.span = ⟨Text.byteLength front, Text.byteLength front + 1⟩ ∧
          closing.span = ⟨Text.byteLength front + 1 + Text.byteLength between,
            Text.byteLength front + 1 + Text.byteLength between + 1⟩ := by
  refine ⟨⟨?_, ?_⟩, ?_⟩
  · rintro ⟨text, d, h⟩
    obtain ⟨n, hn⟩ := Parse.exists_of_rawGroup hopen h
    obtain ⟨within, closing, hahead, hclosing, hdepth⟩ := exists_of_groupLength hn
    exact ⟨within, closing, _, hahead, closes_iff.2 ⟨hclosing, hdepth⟩⟩
  · rintro ⟨within, closing, behind, hahead, hcloses⟩
    exact ⟨_, _, Parse.rawGroup_of_closes hopen hahead hcloses⟩
  · intro within closing behind hahead hcloses
    have hne : c.ahead ≠ [] := Cursor.ahead_ne_nil (by simp [hopen])
    have hmem : closing ∈ c.ahead.tail := by simp [hahead]
    have hcurrent : c.current ∈ c.ahead := by
      rw [Cursor.ahead_eq_cons hne]
      exact List.mem_cons_self
    obtain ⟨hgroup, hplace⟩ := slices_of_parentheses (hc.mem_lexemes hcurrent) hopen
      (hc.mem_lexemes (List.mem_of_mem_tail hmem)) hcloses.isParenthesis (hc.stop_le hne hmem)
    refine ⟨Parse.rawGroup_of_closes hopen hahead hcloses, hgroup, ?_, hplace⟩
    rw [hgroup, inside_parentheses]

/-- The parentheses in a literal and in a comment close nothing. -/
theorem rawGroup_is_exact_of_nested :
    let source : Text := "(a ')' /* ) */ (b) ) x"
    let group : Text := "(a ')' /* ) */ (b) )"
    let c := Cursor.ofSource source
    c.current.kind = .symbol .leftParen ∧ Parse.rawGroup c = .ok group ⟨source, c.ahead.drop 7⟩ ∧
      inside group = "a ')' /* ) */ (b)" := by
  intro source group c
  have hopen : c.current.kind = .symbol .leftParen := by decide +kernel
  have hahead : c.ahead.tail = c.ahead.tail.take 5 ++ ⟨.symbol .rightParen, ⟨19, 20⟩⟩ ::
      c.ahead.drop 7 := by decide +kernel
  have hcloses : Closes ⟨.symbol .rightParen, ⟨19, 20⟩⟩ (c.ahead.tail.take 5) :=
    closes_iff.2 ⟨rfl, by decide +kernel⟩
  have hslice : (⟨c.current.span.start, 20⟩ : Span).slice source = group := by decide +kernel
  obtain ⟨hread, -⟩ := (rawGroup_is_exact c (.ofSource source) hopen).2 _ _ _ hahead hcloses
  refine ⟨hopen, ?_, by decide +kernel⟩
  rw [← hslice]
  exact hread

end SchemaModels.Ddl

import Mathlib.Data.Bool.AllAny
import SchemaModels.Proofs.Ddl.LookAhead
import SchemaModels.Proofs.Text.Characters

/-!
# Tokens in front of a text that changes

A token that ends in front of a text is the same where another text takes its place (`next_same`),
and so are all tokens up to one that ends there or to one that begins there (`lexemesFrom_same`).
The two places in which the lexer looks at less than it would need are left out (`Untouched`).
-/

namespace SchemaModels.Ddl

namespace Lexer

variable {u u' x : Text} {o : Nat} {c : Char} {p : Place}

/-! ### Tokens -/

theorem symbol?_same (hcut : Cut u u')
    (h : ∀ s p, symbol? o c (x ++ u) = some (s, p) → u.length ≤ p.rest.length) :
    (symbol? o c (x ++ u) = none ∧ symbol? o c (x ++ u') = none) ∨
      ∃ s o' y, symbol? o c (x ++ u) = some (s, ⟨o', y ++ u⟩) ∧
        symbol? o c (x ++ u') = some (s, ⟨o', y ++ u'⟩) := by
  have hsingle : ((singles.lookup c).map fun s => (s, (⟨o + 1, x ++ u⟩ : Place))) = none ∧
        ((singles.lookup c).map fun s => (s, (⟨o + 1, x ++ u'⟩ : Place))) = none ∨
      ∃ s o' y, ((singles.lookup c).map fun s => (s, (⟨o + 1, x ++ u⟩ : Place))) =
          some (s, ⟨o', y ++ u⟩) ∧
        ((singles.lookup c).map fun s => (s, (⟨o + 1, x ++ u'⟩ : Place))) =
          some (s, ⟨o', y ++ u'⟩) := by
    cases singles.lookup c with
    | none => exact .inl ⟨rfl, rfl⟩
    | some s => exact .inr ⟨s, o + 1, x, rfl, rfl⟩
  cases x with
  | nil =>
    simp only [List.nil_append] at h hsingle ⊢
    have hu : (u.head?.bind fun d => pairs.lookup (c, d)) = none := by
      refine Option.eq_none_iff_forall_ne_some.2 fun s hs => ?_
      obtain ⟨d, hd, -⟩ := Option.bind_eq_some_iff.1 hs
      obtain ⟨t, rfl⟩ := List.head?_eq_some_iff.1 hd
      exact Nat.not_succ_le_self _ (h s ⟨o + 2, t⟩ (by rw [symbol?, hs]; rfl))
    have hu' : (u'.head?.bind fun d => pairs.lookup (c, d)) = none := by
      have hsecond : ∀ d ∈ pairs.map (·.1.2), ¬ Stops d :=
        List.all_iff_forall_prop.1 (by decide +kernel)
      obtain ⟨d, r, rfl, hd | ⟨hd, -⟩⟩ := hcut.head
      · exact lookup_pairs_eq_none fun hmem => hsecond d hmem hd
      · rwa [hd] at hu
    unfold symbol?
    rw [hu, hu']
    exact hsingle
  | cons d x =>
    simp only [symbol?, List.cons_append, List.head?_cons, Option.bind_some, List.tail_cons]
      at hsingle ⊢
    cases pairs.lookup (c, d) with
    | none => exact hsingle
    | some s => exact .inr ⟨s, o + 2, x, rfl, rfl⟩

theorem token_minus (o : Nat) (u : Text) : (token o '-' u).1 = .symbol .minus := by
  cases u <;> rfl

theorem blob_of_error {z : Except LexicalFault (List UInt8) × Place} {f : LexicalFault}
    (h : z.1 = .error f) : blob z = (.fault f, z.2) := by
  obtain ⟨_, p⟩ := z
  cases h
  rfl

/-- A token that ends in front of a text does not depend on it. -/
theorem token_same (hcut : Cut u u') (h : u.length ≤ (token o c (x ++ u)).2.rest.length)
    (hfault : (token o c (x ++ u)).1.IsFault → ∃ d, u.head? = some d ∧ u'.head? = some d)
    (hsign : ∀ lexeme y, c :: x = lexeme ++ y → (token o c (x ++ u)).2.rest = y ++ u →
      AwaitsSign lexeme y → u'.head? ≠ some '-') :
    SameBefore u u' (token o c (x ++ u)) (token o c (x ++ u')) := by
  unfold token at h hfault hsign ⊢
  obtain ⟨hs, hs'⟩ | ⟨s, o', y, hs, hs'⟩ := symbol?_same hcut
    (fun s p hs => by rw [hs] at h; exact h)
  · rw [hs] at h hfault hsign ⊢
    rw [hs']
    dsimp only at h hfault hsign ⊢
    have hne (hu : ∃ d, u.head? = some d ∧ u'.head? = some d) : u ≠ [] := by
      obtain ⟨d, hd, -⟩ := hu
      rintro rfl
      cases hd
    by_cases hstring : c = '\'' ∨ c = '"'
    · rw [if_pos hstring] at h hfault ⊢
      rw [if_pos hstring]
      refine closed_same hcut (fun d hd => ?_) h (hne ∘ hfault)
      rintro rfl
      exact hd.2 (by rcases hstring with rfl | rfl <;> simp)
    rw [if_neg hstring] at h hfault hsign ⊢
    rw [if_neg hstring]
    by_cases hname : c = '\x60'
    · rw [if_pos hname] at h hfault ⊢
      rw [if_pos hname]
      refine closed_same hcut (fun d hd => ?_) h (hne ∘ hfault)
      rintro rfl
      exact hd.2 (by simp [hname])
    rw [if_neg hname] at h hfault hsign ⊢
    rw [if_neg hname]
    have hquote : (c = 'X' ∨ c = 'x') ∧ (x ++ u).head? = some '\'' ↔
        (c = 'X' ∨ c = 'x') ∧ (x ++ u').head? = some '\'' := by
      cases x with
      | cons d x => rfl
      | nil =>
        refine iff_of_false (fun hblob => ?_)
          fun hblob => hcut.head_ne (by decide +kernel) hblob.2
        obtain ⟨t, rfl⟩ := List.head?_eq_some_iff.1 hblob.2
        rw [if_pos hblob, blob_snd] at h
        exact Nat.not_lt.2 h (Nat.lt_succ_of_le (blobBytes_suffix (o + 2) t).length_le)
    by_cases hblob : (c = 'X' ∨ c = 'x') ∧ (x ++ u).head? = some '\''
    · rw [if_pos hblob] at h hfault ⊢
      rw [if_pos (hquote.1 hblob)]
      cases x with
      | nil => exact absurd (hquote.1 hblob).2 (hcut.head_ne (by decide +kernel))
      | cons d x =>
        rw [blob_snd] at h
        refine blob_same (blobBytes_same h fun f hf => hfault ⟨f, ?_⟩)
        exact congrArg Prod.fst (blob_of_error hf)
    rw [if_neg hblob] at h hfault hsign ⊢
    rw [if_neg (mt hquote.2 hblob)]
    by_cases hdigit : c.isDigit
    · rw [if_pos hdigit] at h hsign ⊢
      rw [if_pos hdigit, ← List.cons_append, ← List.cons_append]
      exact number_same hcut (by simpa using hdigit) h (List.cons_ne_nil c x) hsign
    rw [if_neg hdigit] at h ⊢
    rw [if_neg hdigit]
    by_cases hword : startsName c
    · rw [if_pos hword] at h ⊢
      rw [if_pos hword, ← List.cons_append, ← List.cons_append]
      exact word_same hcut h
    · rw [if_neg hword, if_neg hword]
      exact ⟨_, _, x, rfl, rfl⟩
  · rw [hs, hs']
    exact ⟨_, _, y, rfl, rfl⟩

/-! ### Blanks and comments -/

/-- Inside of a comment something is taken. -/
theorem skip_taking {g : Gap} (hg : g ≠ .blank) (h : skip g o u = .ok p) (hp : p.rest ≠ []) :
    p.rest.length < u.length := by
  cases u with
  | nil =>
    cases g <;> cases h
    · exact absurd rfl hg
    · exact absurd rfl hp
    · exact absurd rfl hp
  | cons c t =>
    have hrest {g : Gap} {o : Nat} (h : skip g o t = .ok p) : p.rest.length < (c :: t).length :=
      Nat.lt_succ_of_le (skip_suffix h).length_le
    cases g with
    | blank => exact absurd rfl hg
    | line => exact hrest h
    | opening s => exact hrest h
    | block s => exact hrest h
    | closing => exact hrest h

theorem eq_of_skip {g : Gap} (h : skip g o u = .ok p) (hp : u.length ≤ p.rest.length) :
    p = ⟨o, u⟩ := by
  obtain ⟨offset, rest⟩ := p
  have hstop := stopOf_skip g o u
  obtain rfl : rest = u := (skip_suffix h).eq_of_length_le hp
  rw [h] at hstop
  obtain rfl : offset = o := Nat.add_right_cancel hstop
  rfl

/-- Where one lexer stops that skips, the next one does. -/
theorem skip_again {g : Gap} (h : skip g o u = .ok p) : skip .blank p.offset p.rest = .ok p := by
  induction u generalizing g o with
  | nil => cases g <;> cases h <;> rfl
  | cons c u ih =>
    cases g with
    | blank =>
      rw [skip_blank_cons] at h
      split at h
      · exact ih h
      · split at h
        · exact ih h
        · split at h
          · exact ih h
          · rename_i hblank hopens hblock
            cases h
            rw [skip_blank_cons, if_neg hblank, if_neg hopens, if_neg hblock]
    | line => exact ih h
    | opening s => exact ih h
    | block s => exact ih h
    | closing => exact ih h

/-- A comment opens in front of a text whatever the text is, unless it takes the text in. -/
theorem opensLine_same (hcut : Cut u u')
    (hends : opensLine c (x ++ u) = true → c = '#' ∨ 2 ≤ x.length)
    (hminus : opensLine c (x ++ u) = false → c = '-' → x = ['-'] →
      u'.head?.all Text.isBlank = false) :
    opensLine c (x ++ u') = opensLine c (x ++ u) := by
  by_cases hc : c = '#'
  · simp [opensLine, hc]
  rcases x with _ | ⟨d, _ | ⟨e, x⟩⟩
  · have hopens : opensLine c u = false := Bool.eq_false_iff.2 fun h => by simpa [hc] using hends h
    rw [List.nil_append, List.nil_append, hopens]
    by_cases hhyphen : c = '-'
    · exact hhyphen ▸ hcut.hyphen
    · simp [opensLine, hc, hhyphen]
  · have hopens : opensLine c ([d] ++ u) = false :=
      Bool.eq_false_iff.2 fun h => by simpa [hc] using hends h
    rw [hopens]
    by_cases hhyphen : c = '-' ∧ d = '-'
    · obtain ⟨rfl, rfl⟩ := hhyphen
      simp [opensLine, hminus hopens rfl rfl]
    · simpa [opensLine, hc] using fun hc hd => absurd ⟨hc, hd⟩ hhyphen
  · rfl

/-- A line comment that ends in front of a text has its whole mark in front of it. -/
theorem mark_of_opensLine (hopens : opensLine c (x ++ u) = true)
    (h : skip .line o (x ++ u) = .ok p) (hu : u.length ≤ p.rest.length) (hp : p.rest ≠ []) :
    c = '#' ∨ 2 ≤ x.length := by
  have htakes {o : Nat} (h : skip .line o u = .ok p) : False :=
    Nat.not_lt.2 hu (skip_taking (show Gap.line ≠ .blank from nofun) h hp)
  obtain hc | ⟨rfl, behind, hbehind, -⟩ := opensLine_cases hopens
  · exact .inl hc
  refine .inr (Nat.not_lt.1 fun hlength => ?_)
  rcases x with _ | ⟨d, _ | ⟨e, x⟩⟩
  · exact htakes h
  · obtain rfl : d = '-' := (List.cons.inj hbehind).1
    exact htakes h
  · simp only [List.length_cons] at hlength
    omega

/-- What is skipped in front of a text does not depend on it. -/
theorem skip_same (hcut : Cut u u') {g : Gap} (h : skip g o (x ++ u) = .ok p)
    (hu : u.length ≤ p.rest.length) (hp : p.rest ≠ [])
    (hminus : p.rest = '-' :: '-' :: u → u'.head?.all Text.isBlank = false) :
    ∃ o' y, p = ⟨o', y ++ u⟩ ∧ (y = [] → skip g o (x ++ u') = skip .blank o' u') ∧
      (y ≠ [] → skip g o (x ++ u') = .ok ⟨o', y ++ u'⟩) := by
  have htakes {g : Gap} {o : Nat} (hg : g ≠ .blank) (h : skip g o u = .ok p) : False :=
    Nat.not_lt.2 hu (skip_taking hg h hp)
  induction x generalizing g o with
  | nil =>
    by_cases hg : g = .blank
    · subst hg
      exact ⟨o, [], eq_of_skip h hu, fun _ => rfl, fun hne => absurd rfl hne⟩
    · exact (htakes hg h).elim
  | cons c x ih =>
    rw [List.cons_append] at h ⊢
    cases g with
    | blank =>
      rw [skip_blank_cons] at h ⊢
      by_cases hblank : Text.isBlank c
      · rw [if_pos hblank] at h ⊢
        exact ih h
      rw [if_neg hblank] at h ⊢
      have hends (hopens : opensLine c (x ++ u) = true) : c = '#' ∨ 2 ≤ x.length := by
        rw [if_pos hopens] at h
        exact mark_of_opensLine hopens h hu hp
      have hstar (h : (x ++ u').head? = some '*') : (x ++ u).head? = some '*' := by
        cases x with
        | nil => exact absurd h (hcut.head_ne (by decide +kernel))
        | cons d x => exact h
      by_cases hopens : opensLine c (x ++ u)
      · rw [if_pos hopens] at h
        rw [opensLine_same hcut hends fun hf => by simp [hf] at hopens, if_pos hopens]
        exact ih h
      rw [if_neg hopens] at h
      by_cases hblock : c = '/' ∧ (x ++ u).head? = some '*'
      · rw [if_pos hblock] at h
        cases x with
        | nil => exact (htakes (g := .opening o) (by simp) h).elim
        | cons d x =>
          have hopens' : ¬ opensLine c (d :: x ++ u') := by simp [opensLine, hblock.1]
          have hblock' : c = '/' ∧ (d :: x ++ u').head? = some '*' := hblock
          rw [if_neg hopens', if_pos hblock']
          exact ih h
      · rw [if_neg hblock] at h
        cases h
        have hsame := opensLine_same hcut hends fun _ hc hx => hminus (by rw [hc, hx]; rfl)
        rw [hsame, if_neg hopens, if_neg fun hb => hblock ⟨hb.1, hstar hb.2⟩]
        exact ⟨o, c :: x, rfl, fun hnil => absurd hnil (List.cons_ne_nil c x), fun _ => rfl⟩
    | line => exact ih h
    | opening s => exact ih h
    | block s =>
      rw [skip_block_cons] at h ⊢
      cases x with
      | nil => exact (htakes (by split <;> simp) h).elim
      | cons d x => exact ih h
    | closing => exact ih h

/-- The next token depends on what is skipped in front of it only. -/
theorem next_congr {p q : Place}
    (h : skip .blank p.offset p.rest = skip .blank q.offset q.rest) : next p = next q := by
  unfold next
  rw [h]

/-- The token of a place that ends in front of a text does not depend on the text. -/
theorem next_same (hcut : Cut u u') (heof : (next ⟨o, x ++ u⟩).1.kind ≠ .eof)
    (h : u.length ≤ (next ⟨o, x ++ u⟩).2.rest.length)
    (hfault : (next ⟨o, x ++ u⟩).1.kind.IsFault → ∃ d, u.head? = some d ∧ u'.head? = some d)
    (hminus : (next ⟨o, x ++ u⟩).1.kind = .symbol .minus →
      (next ⟨o, x ++ u⟩).2.rest = '-' :: u → u'.head?.all Text.isBlank = false)
    (hsign : ∀ s lexeme y, x = s ++ lexeme ++ y →
      (next ⟨o, x ++ u⟩).1.span.start = o + Text.byteLength s →
      (next ⟨o, x ++ u⟩).2.rest = y ++ u → AwaitsSign lexeme y → u'.head? ≠ some '-') :
    SameBefore u u' (next ⟨o, x ++ u⟩) (next ⟨o, x ++ u'⟩) := by
  unfold next at heof h hfault hminus hsign ⊢
  dsimp only at heof h hfault hminus hsign ⊢
  have hstop := stopOf_skip .blank o (x ++ u)
  cases hskip : skip .blank o (x ++ u) with
  | error s =>
    rw [hskip] at h hfault
    obtain ⟨d, hd, -⟩ := hfault ⟨_, rfl⟩
    obtain ⟨t, rfl⟩ := List.head?_eq_some_iff.1 hd
    exact absurd h (Nat.not_succ_le_zero _)
  | ok p =>
    obtain ⟨o₁, _ | ⟨c, t⟩⟩ := p
    · rw [hskip] at heof
      exact absurd rfl heof
    rw [hskip] at h hfault hminus hsign hstop
    dsimp only at h hfault hminus hsign hstop
    have hlength : u.length ≤ t.length := Nat.le_trans h (token_suffix o₁ c t).length_le
    obtain ⟨o', y, hp, -, hskip'⟩ := skip_same hcut hskip (Nat.le_succ_of_le hlength)
      (List.cons_ne_nil c t) fun hp => by
        cases hp
        exact hminus rfl rfl
    cases y with
    | nil =>
      cases hp
      exact absurd hlength (Nat.not_succ_le_self _)
    | cons d y =>
      obtain ⟨rfl, rfl, rfl⟩ : o₁ = o' ∧ c = d ∧ t = y ++ u := by simpa using hp
      obtain ⟨s, hs⟩ := skip_suffix hskip
      have hx : s ++ c :: y = x := List.append_cancel_right (by simpa using hs)
      have ho : o₁ = o + Text.byteLength s := by
        rw [← hx, List.append_assoc, List.cons_append] at hstop
        simp only [stopOf, Place.stop, Text.byteLength_append] at hstop
        omega
      obtain ⟨k, o₂, z, htoken, htoken'⟩ := token_same hcut h hfault fun lexeme mark hl hm =>
        hsign s lexeme mark (by rw [List.append_assoc, ← hl, hx]) ho hm
      rw [hskip' (List.cons_ne_nil c y), List.cons_append]
      dsimp only
      rw [htoken, htoken']
      exact ⟨_, o₂, z, rfl, rfl⟩

theorem next_offset (p : Place) : (next p).2.offset = (next p).1.span.stop := by
  unfold next
  rcases skip .blank p.offset p.rest with s | ⟨o, _ | ⟨c, r⟩⟩ <;> rfl

theorem rest_next_suffix (p : Place) : (next p).2.rest <:+ p.rest := by
  obtain ⟨-, hnext⟩ | ⟨skipped, text, rest, _, _, _, hrest, -, -, -, -, -, hnext⟩ := next_cases p
  · rw [hnext]
    exact List.nil_suffix
  · rw [hnext, hrest]
    exact List.suffix_append _ rest

/-- A character that stands alone in front of a text is no part of a gap. -/
theorem skip_alone (hc : Text.isBlank c = false) (h : skip .blank o (c :: u) = .ok p)
    (hu : u.length ≤ p.rest.length) (hp : p.rest ≠ []) : p = ⟨o, c :: u⟩ := by
  have htakes {g : Gap} {o : Nat} (hg : g ≠ .blank) (h : skip g o u = .ok p) : False :=
    Nat.not_lt.2 hu (skip_taking hg h hp)
  rw [skip_blank_cons, if_neg (by simp [hc])] at h
  split at h
  · exact (htakes (show Gap.line ≠ .blank from nofun) h).elim
  · split at h
    · exact (htakes (show Gap.opening o ≠ .blank from nofun) h).elim
    · cases h
      rfl

/-- Where all behind a character is left, the character is a token of its own. -/
theorem next_alone (hc : Text.isBlank c = false) (heof : (next ⟨o, c :: u⟩).1.kind ≠ .eof)
    (h : u <:+ (next ⟨o, c :: u⟩).2.rest) : next ⟨o, c :: u⟩ =
      (⟨(token o c u).1, ⟨o, o + c.utf8Size⟩⟩, ⟨o + c.utf8Size, u⟩) := by
  unfold next at heof h ⊢
  dsimp only at heof h ⊢
  rcases hskip : skip .blank o (c :: u) with s | ⟨o₁, _ | ⟨d, r⟩⟩
  · rw [hskip] at h
    obtain rfl : u = [] := List.suffix_nil.1 h
    -- One character alone opens no comment in asterisks.
    rw [skip_blank_cons, if_neg (by simp [hc])] at hskip
    split at hskip
    · cases hskip
    · rw [if_neg (by simp)] at hskip
      cases hskip
  · rw [hskip] at heof
    exact absurd rfl heof
  · rw [hskip] at h
    dsimp only at h
    have hlength := Nat.le_trans h.length_le (token_suffix o₁ d r).length_le
    cases skip_alone hc hskip (Nat.le_succ_of_le hlength) (List.cons_ne_nil d r)
    have hsuffix := token_suffix o c u
    have hstop := token_stop o c u
    dsimp only
    generalize token o c u = z at h hsuffix hstop ⊢
    obtain ⟨k, offset, rest⟩ := z
    obtain rfl : rest = u := hsuffix.eq_of_length_le h.length_le
    rw [Place.stop, Text.byteLength_cons, ← Nat.add_assoc] at hstop
    obtain rfl : offset = o + c.utf8Size := Nat.add_right_cancel hstop
    rfl

end Lexer

/-! ### Runs of tokens -/

open Lexer (AwaitsSign Cut next next_alone next_offset next_same next_stop rest_next_suffix
  skip_alone token_minus)

theorem suffix_of_byteLength_le {s t u : Text} (hs : s <:+ u) (ht : t <:+ u)
    (h : Text.byteLength s ≤ Text.byteLength t) : s <:+ t := by
  obtain hst | ⟨w, rfl⟩ := List.suffix_or_suffix_of_suffix hs ht
  · exact hst
  · rw [Text.byteLength_append] at h
    obtain rfl : w = [] := Text.byteLength_eq_zero.1 (by omega)
    exact List.suffix_rfl

theorem eq_of_byteLength_eq {s t u : Text} (hs : s <:+ u) (ht : t <:+ u)
    (h : Text.byteLength s = Text.byteLength t) : s = t :=
  (suffix_of_byteLength_le hs ht (Nat.le_of_eq h)).eq_of_length_le
    (suffix_of_byteLength_le ht hs (Nat.le_of_eq h.symm)).length_le

theorem append_inj_of_byteLength {s t u v : Text} (h : s ++ u = t ++ v)
    (hlength : Text.byteLength s = Text.byteLength t) : s = t ∧ u = v := by
  have hbytes := congrArg Text.byteLength h
  rw [Text.byteLength_append, Text.byteLength_append] at hbytes
  have huv : u = v := eq_of_byteLength_eq (List.suffix_append s u)
    (h ▸ List.suffix_append t v) (by omega)
  subst huv
  exact ⟨List.append_cancel_right h, rfl⟩

theorem offset_le_of_mem {p : Place} {t : Token} (h : t ∈ lexemesFrom p) :
    p.offset ≤ t.span.start ∧ t.span.start < t.span.stop := by
  have htiles := tiles_lexemesFrom p
  refine ⟨htiles.start_le (List.mem_append_left _ h), (htiles.filled ?_).2⟩
  rwa [List.dropLast_concat]

/-- At the offset one token ends or one begins, which parts the tokens. -/
def PartedAt (before after : List Token) (offset : Nat) : Prop :=
  (∃ t, before.getLast? = some t ∧ t.span.stop = offset) ∨
    ∃ t, after.head? = some t ∧ ¬ t.kind.IsFault ∧ t.span.start = offset

section Runs

variable {u u' x : Text} {o b : Nat} {c : Char} {p : Place} {t : Token} {before after : List Token}

theorem PartedAt.tail (h : PartedAt (t :: before) after b) :
    before = [] ∧ t.span.stop = b ∨ PartedAt before after b := by
  obtain ⟨s, hs, hstop⟩ | h := h
  · cases before with
    | nil =>
      cases hs
      exact .inl ⟨rfl, hstop⟩
    | cons r before => exact .inr (.inl ⟨s, by simpa using hs, hstop⟩)
  · exact .inr (.inr h)

/-- The step that gives a token, where the tokens are parted behind it. -/
theorem next_of_parted (h : lexemesFrom p = t :: (before ++ after))
    (hparts : PartedAt (t :: before) after b) :
    (next p).1 = t ∧ lexemesFrom (next p).2 = before ++ after ∧ (next p).1.kind ≠ .eof ∧
      (next p).2.offset ≤ b := by
  have heof : (next p).1.kind ≠ .eof := by
    intro heof
    rw [lexemesFrom_of_eof heof] at h
    cases h
  rw [lexemesFrom_of_ne_eof heof] at h
  obtain ⟨hfirst, hrest⟩ := List.cons.inj h
  refine ⟨hfirst, hrest, heof, ?_⟩
  obtain ⟨-, hstop⟩ | ⟨s, hs, hstop⟩ | ⟨s, hs, -, hstart⟩ := hparts.tail
  · exact Nat.le_of_eq (by rw [next_offset, hfirst, hstop])
  · have hmem : s ∈ lexemesFrom (next p).2 := by
      rw [hrest]
      exact List.mem_append_left _ (List.mem_of_getLast? hs)
    have hle := offset_le_of_mem hmem
    omega
  · have hmem : s ∈ lexemesFrom (next p).2 := by
      rw [hrest]
      exact List.mem_append_right _ (List.mem_of_head? hs)
    have hle := offset_le_of_mem hmem
    omega

/-- What begins at the offset or behind it is still ahead. -/
theorem suffix_of_parted (h : lexemesFrom ⟨o, x ++ u⟩ = t :: (before ++ after))
    (hparts : PartedAt (t :: before) after (o + Text.byteLength x)) :
    u <:+ (next ⟨o, x ++ u⟩).2.rest := by
  obtain ⟨-, -, -, hle⟩ := next_of_parted h hparts
  have hstop := (next_stop ⟨o, x ++ u⟩).1
  simp only [Place.stop, Text.byteLength_append] at hstop
  exact suffix_of_byteLength_le (List.suffix_append _ _) (rest_next_suffix _) (by omega)

/-- Where a token begins with the text, nothing else stands in front of it. -/
theorem skip_of_parted (h : lexemesFrom ⟨o, x ++ u⟩ = after)
    (hparts : PartedAt [] after (o + Text.byteLength x)) : u ≠ [] ∧
    Lexer.skip .blank o (x ++ u) = .ok ⟨o + Text.byteLength x, u⟩ := by
  obtain ⟨_, hs, -⟩ | ⟨t, ht, hfault, hstart⟩ := hparts
  · cases hs
  obtain ⟨ts, rfl⟩ := List.head?_eq_some_iff.1 ht
  have heof : (next ⟨o, x ++ u⟩).1.kind ≠ .eof := by
    intro heof
    rw [lexemesFrom_of_eof heof] at h
    cases h
  rw [lexemesFrom_of_ne_eof heof] at h
  obtain rfl : (next ⟨o, x ++ u⟩).1 = t := (List.cons.inj h).1
  have hstop := Lexer.stopOf_skip .blank o (x ++ u)
  unfold next at hstart heof hfault
  dsimp only at hstart heof hfault
  cases hskip : Lexer.skip .blank o (x ++ u) with
  | error s =>
    rw [hskip] at hfault
    exact absurd ⟨_, rfl⟩ hfault
  | ok p =>
    have hsuffix : p.rest <:+ x ++ u := Lexer.skip_suffix hskip
    rw [hskip] at hstart heof hstop
    obtain ⟨o₁, _ | ⟨c, s⟩⟩ := p
    · exact absurd rfl heof
    obtain rfl : o₁ = o + Text.byteLength x := hstart
    have hstop : o + Text.byteLength x + Text.byteLength (c :: s) =
        o + Text.byteLength (x ++ u) := hstop
    rw [Text.byteLength_append] at hstop
    obtain rfl : u = c :: s := eq_of_byteLength_eq (List.suffix_append x u) hsuffix (by omega)
    exact ⟨List.cons_ne_nil c s, rfl⟩

/-- A character alone between two tokens, or in front of one, is a token. -/
theorem mem_alone (hc : Text.isBlank c = false) (h : lexemesFrom ⟨o, c :: u⟩ = before ++ after)
    (hparts : PartedAt before after (o + c.utf8Size)) :
    ∃ t ∈ before, t.kind = (Lexer.token o c u).1 ∧ t.span = ⟨o, o + c.utf8Size⟩ := by
  cases before with
  | nil =>
    obtain ⟨hne, hskip⟩ := skip_of_parted (x := [c]) h hparts
    have hoffset := congrArg Place.offset (skip_alone hc hskip (Nat.le_refl _) hne)
    have hpos := c.utf8Size_pos
    dsimp only [Text.byteLength_cons, Text.byteLength_nil] at hoffset
    omega
  | cons t before =>
    have hsuffix := suffix_of_parted (x := [c]) h hparts
    obtain ⟨rfl, -, heof, -⟩ := next_of_parted h hparts
    refine ⟨_, List.mem_cons_self, ?_⟩
    rw [next_alone hc heof hsuffix]
    exact ⟨rfl, rfl⟩

/-- What stands in the place of a text does not go on with the tokens in front of it, where these
look at less than they would need. -/
structure Untouched (u u' : Text) (o : Nat) (x : Text) (before : List Token) : Prop where
  fault : ∀ t ∈ before, t.kind.IsFault → ∃ d, u.head? = some d ∧ u'.head? = some d
  /-- No blank makes a comment of two hyphens. -/
  minus : ∀ s ∈ before, ∀ t ∈ before, s.kind = .symbol .minus → t.kind = .symbol .minus →
    s.span.stop = t.span.start → t.span.stop = o + Text.byteLength x →
    u'.head?.all Text.isBlank = false
  /-- No hyphen makes an exponent of a letter. -/
  sign : ∀ s lexeme mark, x = s ++ lexeme ++ mark → AwaitsSign lexeme mark →
    (∃ m ∈ before, m.span =
      ⟨o + Text.byteLength s, o + Text.byteLength s + Text.byteLength lexeme⟩) →
    (∃ t ∈ before, t.span =
      ⟨o + Text.byteLength s + Text.byteLength lexeme, o + Text.byteLength x⟩) →
    u'.head? ≠ some '-'

/-- A backquote or a digit that both texts begin with goes on with nothing. -/
theorem untouched_shared {d : Char} (hd : d = '\x60' ∨ d.isDigit = true) (r r' : Text) (o : Nat)
    (x : Text) (before : List Token) :
    Cut (d :: r) (d :: r') ∧ Untouched (d :: r) (d :: r') o x before := by
  have hd' : Text.isBlank d = false ∧ d ≠ '-' := by
    obtain rfl | hdigit := hd
    · decide
    · refine ⟨Text.isBlank_of_isDigit hdigit, ?_⟩
      rintro rfl
      cases hdigit
  refine ⟨⟨⟨d, r', rfl, .inr ⟨rfl, hd⟩⟩, by simp [Lexer.opensLine, hd'.2]⟩, ?_, ?_, ?_⟩
  · exact fun _ _ _ => ⟨d, rfl, rfl⟩
  · exact fun _ _ _ _ _ _ _ _ => hd'.1
  · exact fun _ _ _ _ _ _ _ hhead => hd'.2 (Option.some.inj hhead)

theorem Untouched.tail {y : Text} (h : Untouched u u' o (x ++ y) (t :: before)) :
    Untouched u u' (o + Text.byteLength x) y before := by
  have hstop : o + Text.byteLength x + Text.byteLength y = o + Text.byteLength (x ++ y) := by
    rw [Text.byteLength_append, Nat.add_assoc]
  refine ⟨fun s hs => h.fault s (List.mem_cons_of_mem t hs), ?_, ?_⟩
  · intro r hr s hs
    rw [hstop]
    exact h.minus r (List.mem_cons_of_mem t hr) s (List.mem_cons_of_mem t hs)
  · rintro s lexeme mark hy hmark ⟨m, hm, hlexeme⟩ ⟨r, hr, hletter⟩
    rw [hstop] at hletter
    refine h.sign (x ++ s) lexeme mark (by rw [hy]; simp) hmark
      ⟨m, List.mem_cons_of_mem t hm, ?_⟩ ⟨r, List.mem_cons_of_mem t hr, ?_⟩
    · rw [Text.byteLength_append, ← Nat.add_assoc]
      exact hlexeme
    · rw [Text.byteLength_append, ← Nat.add_assoc]
      exact hletter

/-- A step in front of a text that changes. -/
theorem next_of_untouched {u' y : Text} (hcut : Cut u u')
    (h : lexemesFrom ⟨o, x ++ y ++ u⟩ = t :: (before ++ after))
    (hparts : PartedAt (t :: before) after (o + Text.byteLength (x ++ y)))
    (huntouched : Untouched u u' o (x ++ y) (t :: before))
    (hplace : (next ⟨o, x ++ y ++ u⟩).2 = ⟨o + Text.byteLength x, y ++ u⟩) :
    next ⟨o, x ++ y ++ u'⟩ = (t, ⟨o + Text.byteLength x, y ++ u'⟩) := by
  obtain ⟨hfirst, hrest, heof, -⟩ := next_of_parted h hparts
  have hstop : t.span.stop = o + Text.byteLength x := by
    rw [← hfirst, ← next_offset, hplace]
  rw [hplace] at hrest
  -- One character that is left in front of the text is the next token.
  have halone (c : Char) (hc : Text.isBlank c = false) (hy : y = [c]) :
      ∃ s ∈ before, s.kind = (Lexer.token (o + Text.byteLength x) c u).1 ∧
        s.span = ⟨o + Text.byteLength x, o + Text.byteLength (x ++ y)⟩ := by
    subst hy
    have hend : o + Text.byteLength (x ++ [c]) = o + Text.byteLength x + c.utf8Size := by
      simp [Nat.add_assoc]
    rw [hend] at hparts ⊢
    refine mem_alone hc hrest (hparts.tail.resolve_left fun hend => ?_)
    have hpos := c.utf8Size_pos
    omega
  have hsame : Lexer.SameBefore u u' (next ⟨o, x ++ y ++ u⟩) (next ⟨o, x ++ y ++ u'⟩) := by
    refine next_same hcut heof ?_ ?_ ?_ ?_
    · rw [hplace, List.length_append]
      exact Nat.le_add_left _ _
    · rw [hfirst]
      exact huntouched.fault t List.mem_cons_self
    · rw [hfirst, hplace]
      intro hminus hy
      obtain ⟨s, hs, hkind, hspan⟩ := halone '-' (by decide) (List.append_cancel_right hy)
      refine huntouched.minus t List.mem_cons_self s (List.mem_cons_of_mem t hs) hminus ?_ ?_ ?_
      · rw [hkind, token_minus]
      · rw [hspan, hstop]
      · rw [hspan]
    · rw [hfirst, hplace]
      intro s lexeme mark hx hstart hy hmark
      obtain rfl : y = mark := List.append_cancel_right hy
      obtain rfl : x = s ++ lexeme := List.append_cancel_right hx
      obtain ⟨r, hr, hspan⟩ : ∃ r ∈ before, r.span = ⟨o + Text.byteLength (s ++ lexeme),
          o + Text.byteLength (s ++ lexeme ++ y)⟩ := by
        obtain hy | hy := hmark.mark
        · obtain ⟨r, hr, -, hspan⟩ := halone 'e' (by decide) hy
          exact ⟨r, hr, hspan⟩
        · obtain ⟨r, hr, -, hspan⟩ := halone 'E' (by decide) hy
          exact ⟨r, hr, hspan⟩
      rw [Text.byteLength_append s, ← Nat.add_assoc] at hspan hstop
      refine huntouched.sign s lexeme y rfl hmark ⟨t, List.mem_cons_self, ?_⟩
        ⟨r, List.mem_cons_of_mem t hr, hspan⟩
      rw [← hstop, ← hstart]
  obtain ⟨t₁, o', z, hnext, hnext'⟩ := hsame
  rw [hnext] at hfirst hplace
  obtain ⟨rfl, hz⟩ : o' = o + Text.byteLength x ∧ z ++ u = y ++ u := by simpa using hplace
  obtain rfl : z = y := List.append_cancel_right hz
  rw [hnext']
  exact congrArg (·, _) hfirst

/-- The tokens in front of a text that changes are the same, and behind them those of the text are
read. -/
theorem lexemesFrom_same {u' : Text} (hcut : Cut u u')
    (h : lexemesFrom ⟨o, x ++ u⟩ = before ++ after)
    (hparts : PartedAt before after (o + Text.byteLength x))
    (huntouched : Untouched u u' o x before) :
    after = lexemesFrom ⟨o + Text.byteLength x, u⟩ ∧
      lexemesFrom ⟨o, x ++ u'⟩ = before ++ lexemesFrom ⟨o + Text.byteLength x, u'⟩ := by
  induction before generalizing o x with
  | nil =>
    rw [List.nil_append] at h ⊢
    obtain ⟨hne, hskip⟩ := skip_of_parted h hparts
    obtain ⟨o', y, hp, hskip', -⟩ := Lexer.skip_same hcut hskip (Nat.le_refl _) hne fun hu => by
      have hlength := congrArg List.length hu
      simp only [List.length_cons] at hlength
      omega
    obtain ⟨rfl, hy⟩ : o + Text.byteLength x = o' ∧ u = y ++ u := by simpa using hp
    obtain rfl : y = [] := by simpa using hy
    refine ⟨?_, lexemesFrom_congr (Lexer.next_congr (hskip' rfl))⟩
    rw [← h]
    exact lexemesFrom_congr (Lexer.next_congr (hskip.trans (Lexer.skip_again hskip).symm))
  | cons t before ih =>
    obtain ⟨y, hy⟩ := suffix_of_parted h hparts
    obtain ⟨s, hs⟩ := rest_next_suffix ⟨o, x ++ u⟩
    have hstop := (next_stop ⟨o, x ++ u⟩).1
    obtain rfl : s ++ y = x := by
      rw [← hy, ← List.append_assoc] at hs
      exact List.append_cancel_right hs
    have hplace : (next ⟨o, s ++ y ++ u⟩).2 = ⟨o + Text.byteLength s, y ++ u⟩ := by
      have hoffset : (next ⟨o, s ++ y ++ u⟩).2.offset = o + Text.byteLength s := by
        simp only [Place.stop, ← hy, Text.byteLength_append] at hstop
        omega
      rw [← hoffset, hy]
    obtain ⟨hfirst, hrest, heof, -⟩ := next_of_parted h hparts
    have hnext := next_of_untouched hcut h hparts huntouched hplace
    have hb : o + Text.byteLength s + Text.byteLength y = o + Text.byteLength (s ++ y) := by
      rw [Text.byteLength_append, Nat.add_assoc]
    have hcons (after : List Token)
        (hafter : lexemesFrom ⟨o + Text.byteLength s, y ++ u'⟩ = before ++ after) :
        lexemesFrom ⟨o, s ++ y ++ u'⟩ = t :: before ++ after := by
      rw [lexemesFrom_of_ne_eof (by rw [hnext, ← hfirst]; exact heof), hnext, hafter]
      rfl
    rw [hplace] at hrest
    obtain ⟨rfl, hend⟩ | hparts := hparts.tail
    · rw [← hfirst, ← next_offset, hplace] at hend
      dsimp only at hend
      obtain rfl : y = [] := Text.byteLength_eq_zero.1 (by omega)
      rw [List.append_nil] at hcons ⊢
      exact ⟨hrest.symm, hcons _ rfl⟩
    · rw [← hb] at hparts ⊢
      obtain ⟨hafter, hbefore⟩ := ih hrest hparts huntouched.tail
      exact ⟨hafter, hcons _ hbefore⟩

end Runs

end SchemaModels.Ddl

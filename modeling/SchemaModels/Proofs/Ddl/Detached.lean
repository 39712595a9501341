import SchemaModels.Ddl.Token.Lexer

/-!
# Text that goes on with no token

A blank, a parenthesis, a comma or a backquote ends every number, word and symbol in front of it:
their readers look at one character behind what they take, and none of these goes on with it. So
each of them reads the same before more text that begins with one of these (`number_append`,
`word_append`, `symbol?_append`). All but the backquote end a quoted name as well.
-/

namespace SchemaModels.Ddl

/-- The place in a text with `k` more bytes in front and with more text behind. -/
def Place.embed (k : Nat) (u : Text) (p : Place) : Place := ⟨p.offset + k, p.rest ++ u⟩

/-- The offset of the end of the text. -/
def Place.stop (p : Place) : Nat := p.offset + Text.byteLength p.rest

def TokenKind.IsFault (k : TokenKind) : Prop := ∃ f, k = .fault f

namespace Lexer

/-- The characters with which no token goes on. -/
def delimiters : List Char := [' ', '\n', '(', ')', ',']

/-- The characters with which no number, word or symbol goes on. -/
def endings : List Char := '\x60' :: delimiters

theorem forall_mem_endings {P : Char → Prop} :
    (∀ d ∈ endings, P d) ↔ P '\x60' ∧ P ' ' ∧ P '\n' ∧ P '(' ∧ P ')' ∧ P ',' := by
  simp [endings, delimiters]

/-- More text that cannot go on with a token. -/
def Detached (u : Text) : Prop := ∀ c, u.head? = some c → c ∈ delimiters

theorem detached_nil : Detached [] := nofun

theorem detached_cons {c : Char} (hc : c ∈ delimiters) (v : Text) : Detached (c :: v) := by
  intro d hd
  cases hd
  exact hc

theorem detached_line (v : Text) : Detached ('\n' :: v) := detached_cons (by decide) v

variable {u : Text}

theorem Detached.cases (hu : Detached u) : u = [] ∨ ∃ d v, u = d :: v ∧ d ∈ delimiters := by
  cases u with
  | nil => exact Or.inl rfl
  | cons d v => exact Or.inr ⟨d, v, rfl, hu d rfl⟩

/-- More text that cannot go on with a number, a word or a symbol. -/
def Severed (u : Text) : Prop := ∀ c, u.head? = some c → c ∈ endings

theorem Detached.severed (hu : Detached u) : Severed u :=
  fun c hc => List.mem_cons_of_mem _ (hu c hc)

theorem Severed.cases (hu : Severed u) : u = [] ∨ ∃ d v, u = d :: v ∧ d ∈ endings := by
  cases u with
  | nil => exact Or.inl rfl
  | cons d v => exact Or.inr ⟨d, v, rfl, hu d rfl⟩

theorem head?_append_iff (hu : Severed u) (r : Text) {c : Char} (hc : c ∉ endings) :
    (r ++ u).head? = some c ↔ r.head? = some c := by
  cases r with
  | nil =>
      have hne : u.head? ≠ some c := fun h => hc (hu c h)
      simp [hne]
  | cons d r => rfl

theorem takeWhile_append (hu : Severed u) {f : Char → Bool} (hf : ∀ c ∈ endings, f c = false)
    (t : Text) : (t ++ u).takeWhile f = t.takeWhile f := by
  induction t with
  | nil =>
      rcases hu.cases with rfl | ⟨d, v, rfl, hd⟩
      · rfl
      · simp [hf d hd]
  | cons c t ih =>
      rw [List.cons_append, List.takeWhile_cons, List.takeWhile_cons]
      cases f c with
      | true => simp [ih]
      | false => rfl

theorem dropWhile_append (hu : Severed u) {f : Char → Bool} (hf : ∀ c ∈ endings, f c = false)
    (t : Text) : (t ++ u).dropWhile f = t.dropWhile f ++ u := by
  induction t with
  | nil =>
      rcases hu.cases with rfl | ⟨d, v, rfl, hd⟩
      · rfl
      · simp [hf d hd]
  | cons c t ih =>
      rw [List.cons_append, List.dropWhile_cons, List.dropWhile_cons]
      cases f c with
      | true => simp [ih]
      | false => rfl

theorem isDigit_of_mem_endings : ∀ d ∈ endings, d.isDigit = false :=
  forall_mem_endings.2 (by decide)

/-! ### Numbers and words -/

theorem fractionPart_of_ne {c : Char} (hc : c ≠ '.') (r : Text) :
    fractionPart (c :: r) = ([], c :: r) := by
  unfold fractionPart
  split
  · rename_i heq
    exact absurd (List.cons.inj heq).1 hc
  · rfl

theorem fractionPart_append (hu : Severed u) (t : Text) :
    fractionPart (t ++ u) = ((fractionPart t).1, (fractionPart t).2 ++ u) := by
  have hpoint : ∀ d ∈ endings, d ≠ '.' := forall_mem_endings.2 (by decide)
  rcases t with _ | ⟨c, t⟩
  · rcases hu.cases with rfl | ⟨d, v, rfl, hd⟩
    · rfl
    · exact fractionPart_of_ne (hpoint d hd) v
  · by_cases hc : c = '.'
    · subst hc
      rcases t with _ | ⟨d, r⟩
      · rcases hu.cases with rfl | ⟨d, v, rfl, hd⟩
        · rfl
        · simp [fractionPart, isDigit_of_mem_endings d hd]
      · simp only [fractionPart, List.cons_append]
        by_cases hd : d.isDigit
        · rw [if_pos hd, if_pos hd, takeWhile_append hu isDigit_of_mem_endings,
            dropWhile_append hu isDigit_of_mem_endings]
        · rw [if_neg hd, if_neg hd]
          rfl
    · rw [List.cons_append, fractionPart_of_ne hc, fractionPart_of_ne hc]
      rfl

theorem exponentPart_append (hu : Severed u) (t : Text) :
    exponentPart (t ++ u) = ((exponentPart t).1, (exponentPart t).2 ++ u) := by
  have hmark : ∀ d ∈ endings, d ≠ 'e' ∧ d ≠ 'E' := forall_mem_endings.2 (by decide)
  have hsign : ∀ d ∈ endings, d ≠ '+' ∧ d ≠ '-' := forall_mem_endings.2 (by decide)
  rcases t with _ | ⟨e, _ | ⟨x, r⟩⟩
  · rcases hu.cases with rfl | ⟨d, v, rfl, hd⟩
    · rfl
    · cases v <;> simp [exponentPart, hmark d hd]
  · rcases hu.cases with rfl | ⟨d, v, rfl, hd⟩
    · rfl
    · simp [exponentPart, hsign d hd, isDigit_of_mem_endings d hd]
  · simp only [exponentPart, List.cons_append]
    split
    · rw [takeWhile_append hu isDigit_of_mem_endings,
        dropWhile_append hu isDigit_of_mem_endings]
    · rfl

theorem number_append (hu : Severed u) (o k : Nat) (t : Text) :
    number (o + k) (t ++ u) = ((number o t).1, (number o t).2.embed k u) := by
  unfold number
  rw [takeWhile_append hu isDigit_of_mem_endings,
    dropWhile_append hu isDigit_of_mem_endings, fractionPart_append hu]
  dsimp only
  rw [exponentPart_append hu]
  simp only [Place.embed, Nat.add_right_comm]

theorem number_stop (o : Nat) (t : Text) : (number o t).2.stop = o + Text.byteLength t := by
  have hwhole : t.takeWhile Char.isDigit ++ t.dropWhile Char.isDigit = t :=
    List.takeWhile_append_dropWhile
  have hfraction := fractionPart_append_rest (t.dropWhile Char.isDigit)
  have hexponent := exponentPart_append_rest (fractionPart (t.dropWhile Char.isDigit)).2
  conv => rhs; rw [← hwhole, ← hfraction, ← hexponent]
  simp only [number, Place.stop, Text.byteLength_append]
  omega

theorem word_append (hu : Severed u) (o k : Nat) (t : Text) :
    word (o + k) (t ++ u) = ((word o t).1, (word o t).2.embed k u) := by
  have hname : ∀ c ∈ endings, continuesName c = false :=
    forall_mem_endings.2 (by decide +kernel)
  unfold word
  rw [takeWhile_append hu hname, dropWhile_append hu hname]
  simp only [Place.embed, Nat.add_right_comm]

theorem word_stop (o : Nat) (t : Text) : (word o t).2.stop = o + Text.byteLength t := by
  have hname : t.takeWhile continuesName ++ t.dropWhile continuesName = t :=
    List.takeWhile_append_dropWhile
  conv => rhs; rw [← hname]
  simp only [word, Place.stop, Text.byteLength_append]
  omega

/-! ### Symbols -/

theorem lookup_pairs_eq_none {c d : Char} (h : d ∉ pairs.map (·.1.2)) :
    pairs.lookup (c, d) = none := by
  rw [List.lookup_eq_none_iff]
  intro p hp
  have hne : (c, d) ≠ p.1 := fun he => h (List.mem_map.2 ⟨p, hp, (congrArg Prod.snd he).symm⟩)
  simpa using hne

theorem symbol?_append (hu : Severed u) (o k : Nat) (c : Char) (r : Text) :
    symbol? (o + k) c (r ++ u) = (symbol? o c r).map fun (s, p) => (s, p.embed k u) := by
  have hsingle (o k : Nat) (r u : Text) :
      ((singles.lookup c).map fun s => (s, (⟨o + k + 1, r ++ u⟩ : Place))) =
        ((singles.lookup c).map fun s => (s, (⟨o + 1, r⟩ : Place))).map
          fun (s, p) => (s, p.embed k u) := by
    rw [Option.map_map, Nat.add_right_comm]
    rfl
  rcases r with _ | ⟨d, r⟩
  · have hnone : (u.head?.bind fun d => pairs.lookup (c, d)) = none := by
      rcases hu.cases with rfl | ⟨d, v, rfl, hd⟩
      · rfl
      · have hsecond : ∀ d ∈ endings, d ∉ pairs.map (·.1.2) :=
          forall_mem_endings.2 (by decide)
        exact lookup_pairs_eq_none (hsecond d hd)
    unfold symbol?
    rw [List.nil_append, hnone]
    exact hsingle o k [] u
  · simp only [symbol?, List.cons_append, List.head?_cons, Option.bind_some, List.tail_cons]
    cases pairs.lookup (c, d) with
    | none => exact hsingle o k (d :: r) u
    | some s =>
        rw [Nat.add_right_comm]
        rfl

theorem mem_of_lookup_eq_some {α β : Type} [BEq α] [LawfulBEq α] {l : List (α × β)} {a : α} {b : β}
    (h : l.lookup a = some b) : (a, b) ∈ l := by
  obtain ⟨l₁, l₂, rfl, -⟩ := List.lookup_eq_some_iff.1 h
  exact List.mem_append_right _ List.mem_cons_self

theorem symbol?_stop {o : Nat} {c : Char} {r : Text} {s : Symbol} {p : Place}
    (h : symbol? o c r = some (s, p)) : p.stop = o + Text.byteLength (c :: r) := by
  unfold symbol? at h
  split at h
  · rename_i s' hs
    cases h
    obtain ⟨d, hd, hpair⟩ := Option.bind_eq_some_iff.1 hs
    obtain ⟨r', rfl⟩ := List.head?_eq_some_iff.1 hd
    have hsizes : ∀ q ∈ pairs, q.1.1.utf8Size = 1 ∧ q.1.2.utf8Size = 1 := by decide
    obtain ⟨hc, hd⟩ := hsizes _ (mem_of_lookup_eq_some hpair)
    simp only [Place.stop, List.tail_cons, Text.byteLength_cons] at hc hd ⊢
    omega
  · obtain ⟨s', hs, h⟩ := Option.map_eq_some_iff.1 h
    cases h
    have hsizes : ∀ q ∈ singles, q.1.utf8Size = 1 := by decide
    have hc := hsizes _ (mem_of_lookup_eq_some hs)
    simp only [Place.stop, Text.byteLength_cons] at hc ⊢
    omega

end Lexer

end SchemaModels.Ddl

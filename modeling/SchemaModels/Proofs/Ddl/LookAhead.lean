import SchemaModels.Proofs.Ddl.Tiling

/-!
# What the lexer looks at behind a token

A reader that leaves a text unread has looked at two of its characters at most. So it reads the same
where another text stands there, if no token goes on with how that begins (`Cut`). In two places the
first character decides although more would be needed: behind two hyphens a blank makes a comment of
them, and behind a number and an exponent mark a hyphen makes an exponent (`AwaitsSign`).
-/

namespace SchemaModels.Ddl.Lexer

/-- The same is read of two texts, up to what stands behind. -/
def SameBefore (u u' : Text) (z z' : α × Place) : Prop :=
  ∃ a o y, z = (a, ⟨o, y ++ u⟩) ∧ z' = (a, ⟨o, y ++ u'⟩)

variable {u u' x : Text} {o : Nat} {c : Char}

theorem SameBefore.mono {z z' : α × Place} {f : α × Place → β × Place}
    (hf : ∀ a, ∃ b, ∀ p, f (a, p) = (b, p)) (h : SameBefore u u' z z') :
    SameBefore u u' (f z) (f z') := by
  obtain ⟨a, o, y, rfl, rfl⟩ := h
  obtain ⟨b, hb⟩ := hf a
  exact ⟨b, o, y, hb _, hb _⟩

/-! ### Text that goes on with no token -/

/-- A character with which nothing goes on. -/
def Stops (d : Char) : Prop :=
  continuesName d = false ∧ d ∉ ['.', '+', '=', '>', '|', '*', '\'', '"', '\x60']

instance : DecidablePred Stops := fun d =>
  inferInstanceAs (Decidable (continuesName d = false ∧ d ∉ _))

theorem Stops.isDigit {d : Char} (h : Stops d) : d.isDigit = false :=
  Bool.eq_false_iff.2 fun hdigit => by
    have hname : continuesName d = true := by
      simp [continuesName, Text.isNumeric_of_isDigit hdigit]
    rw [h.1] at hname
    cases hname

/-- The second text begins with a character that stops, or as the first one does. -/
def Follows (u u' : Text) : Prop := ∃ d r, u' = d :: r ∧ (Stops d ∨ u.head? = some d)

/-- What goes on with neither the first text nor a character that stops goes on with the second
text neither. -/
theorem Follows.exists_head (h : Follows u u') {f : Char → Bool} (hf : ∀ d, Stops d → f d = false)
    (hu : ∀ d, u.head? = some d → f d = false) : ∃ d r, u' = d :: r ∧ f d = false := by
  obtain ⟨d, r, rfl, hd | hd⟩ := h
  · exact ⟨d, r, rfl, hf d hd⟩
  · exact ⟨d, r, rfl, hu d hd⟩

/-- Where a reader leaves the first text unread, the second one may take its place. -/
structure Cut (u u' : Text) : Prop where
  head : ∃ d r, u' = d :: r ∧ (Stops d ∨ u.head? = some d ∧ (d = '\x60' ∨ d.isDigit = true))
  /-- With a hyphen in front it is no comment. -/
  hyphen : opensLine '-' u' = false

theorem Cut.follows (hcut : Cut u u') : Follows u u' := by
  obtain ⟨d, r, hu', hd⟩ := hcut.head
  exact ⟨d, r, hu', hd.imp_right And.left⟩

theorem Cut.head_ne (hcut : Cut u u') (hc : ¬ Stops c ∧ c ≠ '\x60' ∧ c.isDigit = false) :
    u'.head? ≠ some c := by
  obtain ⟨d, r, rfl, hd⟩ := hcut.head
  intro hcd
  obtain rfl : d = c := Option.some.inj hcd
  obtain hd | ⟨-, rfl | hd⟩ := hd
  · exact hc.1 hd
  · exact hc.2.1 rfl
  · rw [hc.2.2] at hd
    cases hd

/-- What leaves all of a text has taken nothing. -/
theorem eq_nil_of_length_le {p q t : Text} (h : p ++ q = t) (hq : t.length ≤ q.length) :
    p = [] ∧ q = t := by
  have hlength := congrArg List.length h
  rw [List.length_append] at hlength
  have hp : p = [] := List.eq_nil_of_length_eq_zero (by omega)
  subst hp
  exact ⟨rfl, h⟩

theorem span_same (hfollows : Follows u u') {f : Char → Bool} (hf : ∀ d, Stops d → f d = false)
    (h : u.length ≤ ((x ++ u).dropWhile f).length) :
    (x ++ u').takeWhile f = (x ++ u).takeWhile f ∧ ∃ y, x = (x ++ u).takeWhile f ++ y ∧
      (x ++ u).dropWhile f = y ++ u ∧ (x ++ u').dropWhile f = y ++ u' := by
  induction x with
  | nil =>
    obtain ⟨htake, hdrop⟩ : u.takeWhile f = [] ∧ u.dropWhile f = u :=
      eq_nil_of_length_le List.takeWhile_append_dropWhile h
    obtain ⟨d, r, rfl, hd⟩ := hfollows.exists_head hf fun d hd => by
      obtain ⟨r, rfl⟩ := List.head?_eq_some_iff.1 hd
      refine Bool.eq_false_iff.2 fun hne => ?_
      rw [List.takeWhile_cons_of_pos hne] at htake
      cases htake
    rw [List.nil_append, List.nil_append, htake, hdrop,
      List.takeWhile_cons_of_neg (by simp [hd]), List.dropWhile_cons_of_neg (by simp [hd])]
    exact ⟨rfl, [], rfl, rfl, rfl⟩
  | cons c x ih =>
    rw [List.cons_append, List.cons_append] at *
    by_cases hc : f c = true
    · rw [List.dropWhile_cons_of_pos hc] at h ⊢
      rw [List.takeWhile_cons_of_pos hc, List.takeWhile_cons_of_pos hc,
        List.dropWhile_cons_of_pos hc]
      obtain ⟨htake, y, hx, hdrop, hdrop'⟩ := ih h
      exact ⟨congrArg _ htake, y, congrArg (c :: ·) hx, hdrop, hdrop'⟩
    · rw [List.takeWhile_cons_of_neg hc, List.takeWhile_cons_of_neg hc,
        List.dropWhile_cons_of_neg hc, List.dropWhile_cons_of_neg hc]
      exact ⟨rfl, c :: x, rfl, rfl, rfl⟩

/-! ### Numbers and words -/

theorem fractionPart_point {v : Text} (hv : ∀ d, v.head? = some d → d.isDigit = false) :
    fractionPart ('.' :: v) = ([], '.' :: v) := by
  cases v with
  | nil => rfl
  | cons d v => simp [fractionPart, hv d rfl]

theorem fractionPart_same (hfollows : Follows u u') (hpoint : u'.head? ≠ some '.')
    (h : u.length ≤ (fractionPart (x ++ u)).2.length) :
    ∃ f y, fractionPart (x ++ u) = (f, y ++ u) ∧ fractionPart (x ++ u') = (f, y ++ u') := by
  match x with
  | [] =>
    obtain ⟨hnil, hrest⟩ := eq_nil_of_length_le (fractionPart_append_rest ([] ++ u)) h
    obtain ⟨d, r, rfl, -⟩ := hfollows
    have hpart : fractionPart (d :: r) = ([], d :: r) :=
      fractionPart_of_ne (fun heq => hpoint (congrArg some heq)) r
    exact ⟨[], [], Prod.ext hnil hrest, hpart⟩
  | c :: x =>
    by_cases hc : c = '.'
    · subst hc
      match x with
      | [] =>
        have hu (d : Char) (hd : u.head? = some d) : d.isDigit = false := by
          obtain ⟨r, rfl⟩ := List.head?_eq_some_iff.1 hd
          refine Bool.eq_false_iff.2 fun hdigit => ?_
          have hle := (List.dropWhile_suffix (l := r) Char.isDigit).length_le
          simp only [List.cons_append, List.nil_append, fractionPart, if_pos hdigit,
            List.length_cons] at h
          omega
        obtain ⟨d, r, rfl, hd⟩ := hfollows.exists_head (fun _ => Stops.isDigit) hu
        refine ⟨[], ['.'], fractionPart_point hu, fractionPart_point fun e he => ?_⟩
        cases he
        exact hd
      | d :: x =>
        simp only [List.cons_append, fractionPart] at h ⊢
        by_cases hd : d.isDigit = true
        · rw [if_pos hd] at h
          obtain ⟨htake, y, -, hdrop, hdrop'⟩ := span_same hfollows (fun _ => Stops.isDigit) h
          rw [if_pos hd, if_pos hd, htake, hdrop, hdrop']
          exact ⟨_, y, rfl, rfl⟩
        · rw [if_neg hd, if_neg hd]
          exact ⟨[], '.' :: d :: x, rfl, rfl⟩
    · rw [List.cons_append, List.cons_append, fractionPart_of_ne hc, fractionPart_of_ne hc]
      exact ⟨[], c :: x, rfl, rfl⟩

theorem fractionPart_cases (t : Text) :
    (fractionPart t).1 = [] ∨
      ∃ ds, (fractionPart t).1 = '.' :: ds ∧ ds.all Char.isDigit = true := by
  unfold fractionPart
  split
  · split
    · rename_i hd
      refine .inr ⟨_, rfl, ?_⟩
      rw [List.all_cons, hd, List.all_takeWhile]
      rfl
    · exact .inl rfl
  · exact .inl rfl

/-- What an exponent goes on with behind its mark. -/
def opensExponent (d : Char) : Bool := d.isDigit || d == '+' || d == '-'

theorem exponentPart_cons_cons (e d : Char) (v : Text) : exponentPart (e :: d :: v) =
    if (e = 'e' ∨ e = 'E') ∧ opensExponent d = true then
      (e :: d :: v.takeWhile Char.isDigit, v.dropWhile Char.isDigit)
    else ([], e :: d :: v) := by
  simp [exponentPart, opensExponent, or_assoc]

theorem exponentPart_of_ne {e : Char} (he : ¬ (e = 'e' ∨ e = 'E')) (v : Text) :
    exponentPart (e :: v) = ([], e :: v) := by
  cases v with
  | nil => rfl
  | cons d v => rw [exponentPart_cons_cons, if_neg (not_and_of_not_left _ he)]

theorem exponentPart_mark {v : Text} (hv : ∀ d, v.head? = some d → opensExponent d = false)
    (e : Char) : exponentPart (e :: v) = ([], e :: v) := by
  cases v with
  | nil => rfl
  | cons d v => rw [exponentPart_cons_cons, if_neg (by simp [hv d rfl])]

theorem mark_mem_exponentPart (t : Text) :
    (exponentPart t).1 = [] ∨ 'e' ∈ (exponentPart t).1 ∨ 'E' ∈ (exponentPart t).1 := by
  unfold exponentPart
  split
  · split
    · rename_i hmark
      obtain ⟨rfl | rfl, -⟩ := hmark
      · exact .inr (.inl List.mem_cons_self)
      · exact .inr (.inr List.mem_cons_self)
    · exact .inl rfl
  · exact .inl rfl

/-- An exponent mark that is left is left with what follows it. -/
theorem exponentPart_cons {e : Char} (h : u.length ≤ (exponentPart (e :: u)).2.length) :
    exponentPart (e :: u) = ([], e :: u) := by
  cases u with
  | nil => rfl
  | cons d u =>
    rw [exponentPart_cons_cons] at h ⊢
    split at h
    · have hle := (List.dropWhile_suffix (l := u) Char.isDigit).length_le
      simp only [List.length_cons] at h
      omega
    · rename_i hmark
      rw [if_neg hmark]

theorem exponentPart_same (hcut : Cut u u') (h : u.length ≤ (exponentPart (x ++ u)).2.length)
    (hmark : x = ['e'] ∨ x = ['E'] → u'.head? ≠ some '-') :
    ∃ f y, exponentPart (x ++ u) = (f, y ++ u) ∧ exponentPart (x ++ u') = (f, y ++ u') := by
  match x with
  | [] =>
    obtain ⟨hnil, hrest⟩ := eq_nil_of_length_le (exponentPart_append_rest ([] ++ u)) h
    obtain ⟨d, r, hu', -⟩ := hcut.head
    have hne : ¬ (d = 'e' ∨ d = 'E') := by
      have he := hcut.head_ne (c := 'e') (by decide +kernel)
      have hE := hcut.head_ne (c := 'E') (by decide +kernel)
      rw [hu'] at he hE
      rintro (rfl | rfl)
      · exact he rfl
      · exact hE rfl
    have hmark' : exponentPart u' = ([], u') := by
      rw [hu']
      exact exponentPart_of_ne hne r
    exact ⟨[], [], Prod.ext hnil hrest, hmark'⟩
  | [e] =>
    refine ⟨[], [e], exponentPart_cons h, ?_⟩
    by_cases he : e = 'e' ∨ e = 'E'
    · have hhyphen := hmark (by simpa using he)
      have hplus := hcut.head_ne (c := '+') (by decide +kernel)
      obtain ⟨d, r, rfl, hd⟩ := hcut.follows.exists_head (fun _ => Stops.isDigit) fun d hd => by
        obtain ⟨r, rfl⟩ := List.head?_eq_some_iff.1 hd
        refine Bool.eq_false_iff.2 fun hdigit => ?_
        have hleft := exponentPart_cons h
        rw [exponentPart_cons_cons, if_pos ⟨he, by simp [opensExponent, hdigit]⟩] at hleft
        cases hleft
      refine exponentPart_mark (fun f hf => ?_) e
      cases hf
      have hne (c : Char) (hc : (d :: r).head? ≠ some c) : d ≠ c := fun heq => hc (heq ▸ rfl)
      simp [opensExponent, hd, hne _ hplus, hne _ hhyphen]
    · exact exponentPart_of_ne he u'
  | e :: d :: x =>
    rw [List.cons_append, List.cons_append, List.cons_append, List.cons_append] at *
    rw [exponentPart_cons_cons] at h ⊢
    rw [exponentPart_cons_cons]
    split at h
    · obtain ⟨htake, y, -, hdrop, hdrop'⟩ := span_same hcut.follows (fun _ => Stops.isDigit) h
      rename_i hpart
      rw [if_pos hpart, if_pos hpart, htake, hdrop, hdrop']
      exact ⟨_, y, rfl, rfl⟩
    · rename_i hpart
      rw [if_neg hpart, if_neg hpart]
      exact ⟨[], e :: d :: x, rfl, rfl⟩

/-- A number without an exponent, and an exponent mark behind it. -/
structure AwaitsSign (lexeme mark : Text) : Prop where
  digit : lexeme.head?.any Char.isDigit = true
  small : 'e' ∉ lexeme
  capital : 'E' ∉ lexeme
  mark : mark = ['e'] ∨ mark = ['E']

theorem number_eq {t f r g v : Text} (hf : fractionPart (t.dropWhile Char.isDigit) = (f, r))
    (hg : exponentPart r = (g, v)) : number o t = (
      if f.isEmpty && g.isEmpty then integer (t.takeWhile Char.isDigit)
      else match Binary64.ofText? (t.takeWhile Char.isDigit ++ f ++ g) with
        | some x => .float x
        | none => .fault .malformedNumber,
      ⟨o + Text.byteLength (t.takeWhile Char.isDigit ++ f ++ g), v⟩) := by
  obtain ⟨rfl, rfl⟩ := Prod.ext_iff.1 hf
  obtain ⟨rfl, rfl⟩ := Prod.ext_iff.1 hg
  rfl

/-- The digits and the fraction of a number that leaves a text unread. -/
theorem number_parts (hfollows : Follows u u') (hpoint : u'.head? ≠ some '.')
    (h : u.length ≤ (number o (x ++ u)).2.rest.length) :
    (x ++ u').takeWhile Char.isDigit = (x ++ u).takeWhile Char.isDigit ∧
      ∃ f z, x = (x ++ u).takeWhile Char.isDigit ++ f ++ z ∧
        fractionPart ((x ++ u).dropWhile Char.isDigit) = (f, z ++ u) ∧
        fractionPart ((x ++ u').dropWhile Char.isDigit) = (f, z ++ u') := by
  have hfraction := congrArg List.length
    (fractionPart_append_rest ((x ++ u).dropWhile Char.isDigit))
  have hexponent := congrArg List.length
    (exponentPart_append_rest (fractionPart ((x ++ u).dropWhile Char.isDigit)).2)
  rw [List.length_append] at hfraction hexponent
  have hrest : (number o (x ++ u)).2.rest =
      (exponentPart (fractionPart ((x ++ u).dropWhile Char.isDigit)).2).2 := rfl
  rw [hrest] at h
  obtain ⟨hwhole, y, hx, hdrop, hdrop'⟩ := span_same hfollows (fun _ => Stops.isDigit)
    (show u.length ≤ ((x ++ u).dropWhile Char.isDigit).length by omega)
  rw [hdrop] at hfraction hexponent h
  obtain ⟨f, z, hf, hf'⟩ := fractionPart_same hfollows hpoint
    (show u.length ≤ (fractionPart (y ++ u)).2.length by omega)
  have hparts := fractionPart_append_rest (y ++ u)
  rw [hf, ← List.append_assoc] at hparts
  have hy : f ++ z = y := List.append_cancel_right hparts
  refine ⟨hwhole, f, z, ?_, by rw [hdrop, hf], by rw [hdrop', hf']⟩
  rw [List.append_assoc, hy]
  exact hx

/-- What of a number stands in front of its exponent holds no letter. -/
theorem plain_of_number {t f r : Text} (hf : fractionPart (t.dropWhile Char.isDigit) = (f, r))
    {c : Char} (hc : c.isDigit = false) (hpoint : c ≠ '.') :
    c ∉ t.takeWhile Char.isDigit ++ f := by
  have hdigits {ds : Text} (hds : ds.all Char.isDigit = true) : c ∉ ds := fun hmem => by
    have hdigit := List.all_eq_true.1 hds c hmem
    rw [hc] at hdigit
    cases hdigit
  intro hmem
  obtain hmem | hmem := List.mem_append.1 hmem
  · exact hdigits List.all_takeWhile hmem
  · obtain hnil | ⟨ds, hcons, hds⟩ := fractionPart_cases (t.dropWhile Char.isDigit)
    · rw [hf] at hnil
      rw [show f = [] from hnil] at hmem
      cases hmem
    · rw [hf] at hcons
      rw [show f = '.' :: ds from hcons] at hmem
      exact (List.mem_cons.1 hmem).elim hpoint (hdigits hds)

theorem number_same (hcut : Cut u u') (hc : (x ++ u).head?.any Char.isDigit = true)
    (h : u.length ≤ (number o (x ++ u)).2.rest.length) (hx : x ≠ [])
    (hsign : ∀ lexeme y, x = lexeme ++ y → (number o (x ++ u)).2.rest = y ++ u →
      AwaitsSign lexeme y → u'.head? ≠ some '-') :
    SameBefore u u' (number o (x ++ u)) (number o (x ++ u')) := by
  obtain ⟨hwhole, f, z, hxz, hf, hf'⟩ :=
    number_parts hcut.follows (hcut.head_ne (by decide +kernel)) h
  have hrest : (number o (x ++ u)).2.rest = (exponentPart (z ++ u)).2 :=
    congrArg (fun p : Text × Text => (exponentPart p.2).2) hf
  rw [hrest] at h hsign
  have hmark : z = ['e'] ∨ z = ['E'] → u'.head? ≠ some '-' := by
    intro hz
    have hdigit : ((x ++ u).takeWhile Char.isDigit ++ f).head?.any Char.isDigit = true := by
      cases x with
      | nil => exact absurd rfl hx
      | cons c x =>
        rw [List.cons_append, List.takeWhile_cons_of_pos (by simpa using hc)]
        simpa using hc
    refine hsign _ z hxz ?_ ⟨hdigit, plain_of_number hf (by decide) (by decide),
      plain_of_number hf (by decide) (by decide), hz⟩
    obtain rfl | rfl := hz
    · rw [List.singleton_append, exponentPart_cons h]
    · rw [List.singleton_append, exponentPart_cons h]
  obtain ⟨g, v, hg, hg'⟩ := exponentPart_same hcut h hmark
  refine ⟨_, _, v, number_eq hf hg, ?_⟩
  rw [number_eq hf' hg', hwhole]

theorem word_same (hcut : Cut u u') (h : u.length ≤ (word o (x ++ u)).2.rest.length) :
    SameBefore u u' (word o (x ++ u)) (word o (x ++ u')) := by
  have hname (d : Char) (hd : Stops d) : continuesName d = false := hd.1
  obtain ⟨htake, y, -, hdrop, hdrop'⟩ := span_same hcut.follows hname h
  unfold word
  rw [htake, hdrop, hdrop']
  exact ⟨_, _, y, rfl, rfl⟩

/-! ### Quoted names and literals -/

theorem SameBefore.push {z z' : Option Text × Place} (cs : Text) (h : SameBefore u u' z z') :
    SameBefore u u' (push cs z) (push cs z') :=
  h.mono fun a => ⟨a.map (cs ++ ·), fun _ => rfl⟩

theorem quotedText_cons_suffix (quote : Char) (isString : Bool) (o : Nat) (c : Char) (t : Text) :
    (quotedText quote isString o (c :: t)).2.rest <:+ t := by
  cases t with
  | nil => exact List.nil_suffix
  | cons d t =>
    rw [quotedText]
    split
    · split
      · exact (quotedText_suffix _ _ _ t).trans (List.suffix_cons d t)
      · exact List.suffix_rfl
    · split
      · exact (quotedText_suffix _ _ _ t).trans (List.suffix_cons d t)
      · exact quotedText_suffix _ _ _ (d :: t)

theorem quotedText_closing {quote : Char} (isString : Bool) {v : Text}
    (hv : v.head? ≠ some quote) :
    quotedText quote isString o (quote :: v) = (some [], ⟨o + quote.utf8Size, v⟩) := by
  cases v with
  | nil => simp [quotedText]
  | cons d v => rw [quotedText, if_pos rfl, if_neg (by simpa using hv)]

variable {quote : Char} {isString : Bool}

theorem eq_nil_of_quotedText
    (h : u.length ≤ (quotedText quote isString o u).2.rest.length) : u = [] := by
  cases u with
  | nil => rfl
  | cons d t =>
    have hlength := (quotedText_cons_suffix quote isString o d t).length_le
    exact absurd h (Nat.not_le.2 (Nat.lt_succ_of_le hlength))

/-- One character stands in front of the text: the closing quote, as all others take of the text. -/
theorem quotedText_cons_same (hcut : Cut u u') (hquote : ∀ d, Stops d → d ≠ quote)
    (h : u.length ≤ (quotedText quote isString o (c :: u)).2.rest.length)
    (hclosed : (quotedText quote isString o (c :: u)).1 = none → u ≠ []) :
    SameBefore u u' (quotedText quote isString o (c :: u))
      (quotedText quote isString o (c :: u')) := by
  have hbehind {d : Char} {t : Text} (hu : u = d :: t) {o : Nat} {cs : Text}
      (h : u.length ≤ (push cs (quotedText quote isString o t)).2.rest.length) : False := by
    rw [hu] at h
    exact Nat.not_lt.2 h (Nat.lt_succ_of_le (quotedText_suffix quote isString o t).length_le)
  by_cases hc : c = quote
  · subst hc
    have hu : u.head? ≠ some c := fun hd => by
      obtain ⟨t, ht⟩ := List.head?_eq_some_iff.1 hd
      rw [ht, quotedText, if_pos rfl, if_pos rfl, ← ht] at h
      exact hbehind ht h
    have hu' : u'.head? ≠ some c := by
      obtain ⟨d, r, rfl, hd⟩ := hcut.follows.exists_head (f := (· == c))
        (fun d hd => by simpa using hquote d hd) fun d hd => by
          simpa using fun heq : d = c => hu (heq ▸ hd)
      simpa using hd
    rw [quotedText_closing isString hu, quotedText_closing isString hu']
    exact ⟨_, _, [], rfl, rfl⟩
  · cases u with
    | nil =>
      rw [quotedText, if_neg hc] at hclosed
      exact absurd rfl (hclosed rfl)
    | cons d t =>
      rw [quotedText, if_neg hc] at h
      split at h
      · exact (hbehind rfl h).elim
      · exact absurd (eq_nil_of_quotedText h) (List.cons_ne_nil d t)

/-- Quoted text that is closed in front of a text does not depend on it. -/
theorem quotedText_same (hcut : Cut u u') (hquote : ∀ d, Stops d → d ≠ quote)
    (h : u.length ≤ (quotedText quote isString o (x ++ u)).2.rest.length)
    (hclosed : (quotedText quote isString o (x ++ u)).1 = none → u ≠ []) :
    SameBefore u u' (quotedText quote isString o (x ++ u))
      (quotedText quote isString o (x ++ u')) := by
  fun_induction quotedText quote isString o x with
  | case1 o x ih =>
    simp only [List.cons_append, quotedText, if_pos, push_fst_eq_none] at h hclosed ⊢
    exact (ih h hclosed).push _
  | case2 o d x hd =>
    simp only [List.cons_append, quotedText, if_pos, if_neg hd]
    exact ⟨_, _, d :: x, rfl, rfl⟩
  | case3 o c d x hc hescape ih =>
    simp only [List.cons_append, quotedText, if_neg hc, if_pos hescape, push_fst_eq_none]
      at h hclosed ⊢
    exact (ih h hclosed).push _
  | case4 o c d x hc hescape ih =>
    simp only [List.cons_append, quotedText, if_neg hc, if_neg hescape, push_fst_eq_none]
      at h hclosed ih ⊢
    exact (ih h hclosed).push _
  | case5 o c => exact quotedText_cons_same hcut hquote h hclosed
  | case6 o =>
    obtain rfl := eq_nil_of_quotedText h
    exact absurd rfl (hclosed rfl)

/-- A quoted token that ends in front of a text does not depend on it. -/
theorem closed_same (hcut : Cut u u') (hquote : ∀ d, Stops d → d ≠ quote)
    {kind : Text → TokenKind} {f : LexicalFault}
    (h : u.length ≤ (closed kind f (quotedText quote isString o (x ++ u))).2.rest.length)
    (hfault : (closed kind f (quotedText quote isString o (x ++ u))).1.IsFault → u ≠ []) :
    SameBefore u u' (closed kind f (quotedText quote isString o (x ++ u)))
      (closed kind f (quotedText quote isString o (x ++ u'))) := by
  rw [closed_snd] at h
  have hclosed (hnone : (quotedText quote isString o (x ++ u)).1 = none) : u ≠ [] :=
    hfault ⟨f, by rw [closed_of_none hnone]⟩
  exact (quotedText_same hcut hquote h hclosed).mono fun a =>
    ⟨a.elim (.fault f) kind, fun _ => by cases a <;> rfl⟩

theorem blob_same {z z' : Except LexicalFault (List UInt8) × Place} (h : SameBefore u u' z z') :
    SameBefore u u' (blob z) (blob z') :=
  h.mono fun a => by cases a <;> exact ⟨_, fun _ => rfl⟩

theorem blobBytes_closing (o : Nat) (v : Text) :
    blobBytes o ('\'' :: v) = (.ok [], ⟨o + 1, v⟩) := by
  cases v <;> simp [blobBytes]

theorem blobBytes_character (hquote : c ≠ '\'') (hhex : Text.isHexDigit c = false) (o : Nat)
    (v : Text) : blobBytes o (c :: v) = (.error .blobCharacter, ⟨o, c :: v⟩) := by
  cases v <;> simp [blobBytes, hquote, hhex]

/-- What leaves all of a text that is there has met a character that is no digit. -/
theorem blobBytes_leaves {d : Char} {v : Text}
    (h : (d :: v).length ≤ (blobBytes o (d :: v)).2.rest.length) :
    d ≠ '\'' ∧ Text.isHexDigit d = false := by
  have hquote : d ≠ '\'' := by
    rintro rfl
    rw [blobBytes_closing] at h
    exact Nat.not_succ_le_self _ h
  refine ⟨hquote, Bool.eq_false_iff.2 fun hhex => ?_⟩
  cases v with
  | nil => simp [blobBytes, hquote, hhex] at h
  | cons e v =>
    have hlength := (blobBytes_suffix (o + 2) v).length_le
    rw [blobBytes, if_neg hquote, if_neg (by simp [hhex])] at h
    split at h
    · exact Nat.not_succ_le_self _ h
    · split at h
      · exact Nat.not_succ_le_self _ h
      · simp only [List.length_cons] at h
        omega

theorem blobBytes_half (hquote : c ≠ '\'') (hhex : Text.isHexDigit c = true) {d : Char}
    (hd : d ≠ '\'' → Text.isHexDigit d = false) (o : Nat) (v : Text) :
    blobBytes o (c :: d :: v) = (.error (if d = '\'' then .oddBlob else .blobCharacter),
      ⟨o + 1, d :: v⟩) := by
  rw [blobBytes, if_neg hquote, if_neg (by simp [hhex])]
  split
  · rfl
  · rename_i hne
    rw [if_pos (by simp [hd hne])]

/-- Half a byte does not depend on the text behind it, where a fault meets the same there. -/
theorem blobBytes_half_same (hquote : c ≠ '\'') (hhex : Text.isHexDigit c = true)
    (h : u.length ≤ (blobBytes o (c :: u)).2.rest.length)
    (hfault : ∀ f, (blobBytes o (c :: u)).1 = .error f →
      ∃ d, u.head? = some d ∧ u'.head? = some d) :
    SameBefore u u' (blobBytes o (c :: u)) (blobBytes o (c :: u')) := by
  cases u with
  | nil =>
    obtain ⟨d, hd, -⟩ := hfault .openBlob (by simp [blobBytes, hquote, hhex])
    cases hd
  | cons d v =>
    have hd (hne : d ≠ '\'') : Text.isHexDigit d = false := by
      refine Bool.eq_false_iff.2 fun hdigit => ?_
      rw [blobBytes, if_neg hquote, if_neg (by simp [hhex]), if_neg hne,
        if_neg (by simp [hdigit])] at h
      have hlength := (blobBytes_suffix (o + 2) v).length_le
      simp only [List.length_cons] at h
      omega
    have hhalf := blobBytes_half hquote hhex hd o
    obtain ⟨e, he, he'⟩ := hfault _ (congrArg Prod.fst (hhalf v))
    cases he
    obtain ⟨v', rfl⟩ := List.head?_eq_some_iff.1 he'
    rw [hhalf v, hhalf v']
    exact ⟨_, _, [], rfl, rfl⟩

/-- Bytes that end in front of a text do not depend on it, where a fault meets the same there. -/
theorem blobBytes_same (h : u.length ≤ (blobBytes o (x ++ u)).2.rest.length)
    (hfault : ∀ f, (blobBytes o (x ++ u)).1 = .error f →
      ∃ d, u.head? = some d ∧ u'.head? = some d) :
    SameBefore u u' (blobBytes o (x ++ u)) (blobBytes o (x ++ u')) := by
  fun_induction blobBytes o x with
  | case1 o d x => exact ⟨_, _, d :: x, rfl, rfl⟩
  | case2 o c d x hquote hc =>
    simp only [List.cons_append, blobBytes, if_neg hquote, if_pos hc]
    exact ⟨_, _, c :: d :: x, rfl, rfl⟩
  | case3 o c x hquote hc =>
    simp only [List.cons_append, blobBytes, if_neg hquote, if_neg hc, if_pos]
    exact ⟨_, _, '\'' :: x, rfl, rfl⟩
  | case4 o c d x hquote hc hquote' hd =>
    simp only [List.cons_append, blobBytes, if_neg hquote, if_neg hc, if_neg hquote', if_pos hd]
    exact ⟨_, _, d :: x, rfl, rfl⟩
  | case5 o c d x hquote hc hquote' hd bytes p hb ih =>
    simp only [List.cons_append, blobBytes, if_neg hquote, if_neg hc, if_neg hquote',
      if_neg hd] at h hfault ⊢
    let byte := UInt8.ofNat (16 * Text.hexDigitValue c + Text.hexDigitValue d)
    refine (ih h fun f hf => hfault f ?_).mono (f := fun z => (z.1.map (byte :: ·), z.2))
      fun a => ⟨_, fun _ => rfl⟩
    rw [hf]
    rfl
  | case6 o =>
    rw [List.singleton_append, List.singleton_append, blobBytes_closing, blobBytes_closing]
    exact ⟨_, _, [], rfl, rfl⟩
  | case7 o c hquote hc =>
    have hhex : Text.isHexDigit c = false := by simpa using hc
    rw [List.singleton_append, List.singleton_append, blobBytes_character hquote hhex,
      blobBytes_character hquote hhex]
    exact ⟨_, _, [c], rfl, rfl⟩
  | case8 o c hquote hc => exact blobBytes_half_same hquote (by simpa using hc) h hfault
  | case9 o =>
    cases u with
    | nil =>
      obtain ⟨d, hd, -⟩ := hfault .openBlob rfl
      cases hd
    | cons d v =>
      obtain ⟨hquote, hhex⟩ := blobBytes_leaves h
      rw [List.nil_append] at hfault ⊢
      obtain ⟨e, he, he'⟩ := hfault _ (congrArg Prod.fst (blobBytes_character hquote hhex o v))
      cases he
      obtain ⟨v', rfl⟩ := List.head?_eq_some_iff.1 he'
      rw [List.nil_append, blobBytes_character hquote hhex, blobBytes_character hquote hhex]
      exact ⟨_, _, [], rfl, rfl⟩

end SchemaModels.Ddl.Lexer

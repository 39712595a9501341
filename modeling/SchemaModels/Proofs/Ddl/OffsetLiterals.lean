import SchemaModels.Proofs.Ddl.Offsets

/-!
# Literals and words by offsets

The readers of quoted names and literals, of numbers and of words, from offsets on. Each gives what
the reader that carries the rest of the text gives (`quoted?_eq`, `blob?_eq`, `number?_eq`,
`word?_eq`).
-/

namespace SchemaModels.Ddl

open Lexer (unescape continuesName)

namespace Offsets

variable {source : Text} {o : Nat} {c : Char} {t : Text}

/-! ### Quoted names and literals -/

/-- What is read, with the offset of the place behind it. -/
def offsetOf {α : Type} (x : α × Place) : α × Nat := (x.1, x.2.offset)

/-- Puts some characters before a text that may be missing. -/
def push (cs : Text) (x : Option Text × Nat) : Option Text × Nat := (x.1.map (cs ++ ·), x.2)

/-- Puts a byte before others, if those could be read. -/
def pushByte (a b : Char) (x : Except LexicalFault (List UInt8) × Nat) :
    Except LexicalFault (List UInt8) × Nat :=
  (x.1.map (UInt8.ofNat (16 * Text.hexDigitValue a + Text.hexDigitValue b) :: ·), x.2)

variable (source)

/-- The text behind an opening quote. -/
def quoted? (quote : Char) (isString : Bool) : (turns : Nat) → Nat → Option (Option Text × Nat)
  | 0, _ => none
  | n + 1, o => do
    match ← ahead? source o with
    | [] => return (none, o)
    | c :: _ =>
      let stop := o + c.utf8Size
      let behind ← ahead? source stop
      if c = quote then
        if behind.head? = some quote then
          push [quote] <$> quoted? quote isString n (stop + quote.utf8Size)
        else return (some [], stop)
      else if isString && c = '\\' then
        match behind.head? with
        | none => return (none, stop)
        | some d => push (unescape d) <$> quoted? quote isString n (stop + d.utf8Size)
      else push [c] <$> quoted? quote isString n stop

/-- The bytes behind `X` and an opening quote. -/
def blob? : (turns : Nat) → Nat → Option (Except LexicalFault (List UInt8) × Nat)
  | 0, _ => none
  | n + 1, o => do
    match ← ahead? source o with
    | [] => return (.error .openBlob, o)
    | a :: _ =>
      if a = '\'' then return (.ok [], o + 1)
      else if !Text.isHexDigit a then return (.error .blobCharacter, o)
      else match ← ahead? source (o + 1) with
        | [] => return (.error .openBlob, o + 1)
        | b :: _ =>
          if b = '\'' then return (.error .oddBlob, o + 1)
          else if !Text.isHexDigit b then return (.error .blobCharacter, o + 1)
          else pushByte a b <$> blob? n (o + 2)

variable {source}

/-- One turn, where a character is left. -/
theorem quoted?_cons {quote : Char} {isString : Bool} {n : Nat}
    (h : Place.StandsIn source ⟨o, c :: t⟩) : quoted? source quote isString (n + 1) o =
      if c = quote then
        if t.head? = some quote then
          (quoted? source quote isString n (o + c.utf8Size + quote.utf8Size)).map (push [quote])
        else some (some [], o + c.utf8Size)
      else if isString && c = '\\' then
        match t.head? with
        | none => some (none, o + c.utf8Size)
        | some d =>
          (quoted? source quote isString n (o + c.utf8Size + d.utf8Size)).map (push (unescape d))
      else (quoted? source quote isString n (o + c.utf8Size)).map (push [c]) := by
  rw [quoted?, ahead?_eq h]
  change (ahead? source (o + c.utf8Size) >>= _) = _
  rw [ahead?_eq (standsIn_step h)]
  rfl

theorem quoted?_nil (quote : Char) (isString : Bool) {n : Nat}
    (h : Place.StandsIn source ⟨o, []⟩) (hn : 0 < n) :
    quoted? source quote isString n o = some (none, o) := by
  cases n with
  | zero => cases hn
  | succ n =>
      rw [quoted?, ahead?_eq h]
      rfl

theorem quoted?_eq (quote : Char) (isString : Bool) {n : Nat} (h : Place.StandsIn source ⟨o, t⟩)
    (hn : t.length < n) :
    quoted? source quote isString n o = some (offsetOf (Lexer.quotedText quote isString o t)) := by
  induction n generalizing o t with
  | zero => cases hn
  | succ n ih =>
      fun_cases Lexer.quotedText quote isString o t with
      | case1 o r =>
          rw [List.length_cons, List.length_cons] at hn
          rw [quoted?_cons h, if_pos rfl, List.head?_cons, if_pos rfl,
            ih (standsIn_step (standsIn_step h)) (by omega)]
          rfl
      | case2 o d r hd =>
          have hquote : ¬ (d :: r).head? = some quote := fun heq => hd (Option.some.inj heq)
          rw [quoted?_cons h, if_pos rfl, if_neg hquote]
          rfl
      | case3 o c d r hc hesc =>
          rw [List.length_cons, List.length_cons] at hn
          rw [quoted?_cons h, if_neg hc, if_pos hesc, List.head?_cons]
          dsimp only
          rw [ih (standsIn_step (standsIn_step h)) (by omega)]
          rfl
      | case4 o c d r hc hesc =>
          rw [quoted?_cons h, if_neg hc, if_neg hesc,
            ih (standsIn_step h) (Nat.lt_of_succ_lt_succ hn)]
          rfl
      | case5 o c =>
          have hend := quoted?_nil quote isString (standsIn_step h) (Nat.lt_of_succ_lt_succ hn)
          rw [quoted?_cons h, hend]
          by_cases hc : c = quote
          · rw [if_pos hc, if_neg nofun, if_pos hc]
            rfl
          · rw [if_neg hc, if_neg hc, List.head?_nil]
            split <;> rfl
      | case6 => exact quoted?_nil quote isString h hn

/-- A digit is one byte long, so the next character begins behind that byte. -/
theorem standsIn_hexDigit (h : Place.StandsIn source ⟨o, c :: t⟩)
    (hc : Text.isHexDigit c = true) : Place.StandsIn source ⟨o + 1, t⟩ := by
  have hstep := standsIn_step h
  rwa [Lexer.utf8Size_of_isHexDigit hc] at hstep

/-- One turn, where a character is left. -/
theorem blob?_cons {n : Nat} (h : Place.StandsIn source ⟨o, c :: t⟩) :
    blob? source (n + 1) o =
      if c = '\'' then some (.ok [], o + 1)
      else if !Text.isHexDigit c then some (.error .blobCharacter, o)
      else match t with
        | [] => some (.error .openBlob, o + 1)
        | d :: _ =>
          if d = '\'' then some (.error .oddBlob, o + 1)
          else if !Text.isHexDigit d then some (.error .blobCharacter, o + 1)
          else (blob? source n (o + 2)).map (pushByte c d) := by
  rw [blob?, ahead?_eq h]
  simp only [Option.bind_eq_bind, Option.bind_some]
  split
  · rfl
  · split
    · rfl
    · rename_i hc
      rw [ahead?_eq (standsIn_hexDigit h (by simpa using hc)), Option.bind_some]
      cases t <;> rfl

theorem blob?_eq {n : Nat} (h : Place.StandsIn source ⟨o, t⟩) (hn : t.length < n) :
    blob? source n o = some (offsetOf (Lexer.blobBytes o t)) := by
  induction n generalizing o t with
  | zero => cases hn
  | succ n ih =>
      fun_cases Lexer.blobBytes o t with
      | case1 o b r => rw [blob?_cons h, if_pos rfl, offsetOf]
      | case2 o a b r hquote ha => rw [blob?_cons h, if_neg hquote, if_pos ha, offsetOf]
      | case3 o a r hquote ha =>
          rw [blob?_cons h, if_neg hquote, if_neg ha]
          rfl
      | case4 o a b r hquote ha hquote' hb =>
          rw [blob?_cons h, if_neg hquote, if_neg ha]
          dsimp only
          rw [if_neg hquote', if_pos hb, offsetOf]
      | case5 o a b r hquote ha hquote' hb bytes p hbytes =>
          have hrest : Place.StandsIn source ⟨o + 2, r⟩ :=
            standsIn_hexDigit (standsIn_hexDigit h (by simpa using ha)) (by simpa using hb)
          rw [List.length_cons, List.length_cons] at hn
          rw [blob?_cons h, if_neg hquote, if_neg ha]
          dsimp only
          rw [if_neg hquote', if_neg hb, ih hrest (by omega), hbytes]
          rfl
      | case6 o => rw [blob?_cons h, if_pos rfl, offsetOf]
      | case7 o a hquote ha => rw [blob?_cons h, if_neg hquote, if_pos ha, offsetOf]
      | case8 o a hquote ha => rw [blob?_cons h, if_neg hquote, if_neg ha, offsetOf]
      | case9 o =>
          rw [blob?, ahead?_eq h]
          rfl

/-! ### Numbers and words -/

variable (source)

/-- The offset behind a point and the digits behind it, if at least one digit follows. -/
def fraction? (turns o : Nat) : Option Nat := do
  match ← ahead? source o with
  | '.' :: d :: _ => if d.isDigit then pass? source Char.isDigit turns (o + 1) else return o
  | _ => return o

/-- The offset behind an exponent mark, a sign and the digits behind them. -/
def exponent? (turns o : Nat) : Option Nat := do
  match ← ahead? source o with
  | e :: x :: _ =>
    if (e = 'e' ∨ e = 'E') ∧ (x.isDigit ∨ x = '+' ∨ x = '-') then
      let behind ← ahead? source (o + 1)
      pass? source Char.isDigit turns (if behind.head?.any Char.isDigit then o + 1 else o + 2)
    else return o
  | _ => return o

def number? (turns start : Nat) : Option (TokenKind × Nat) := do
  let whole ← pass? source Char.isDigit turns start
  let fraction ← fraction? source turns whole
  let stop ← exponent? source turns fraction
  let lexeme ← between? source start stop
  let kind :=
    if stop = whole then Lexer.integer lexeme
    else match Binary64.ofText? lexeme with
      | some x => .float x
      | none => .fault .malformedNumber
  return (kind, stop)

def word? (turns start : Nat) : Option (TokenKind × Nat) := do
  let stop ← pass? source continuesName turns start
  let name ← between? source start stop
  let kind := match Keyword.ofText? name with
    | some k => .keyword k
    | none => .identifier name
  return (kind, stop)

variable {source}

theorem fraction?_eq {n : Nat} (h : Place.StandsIn source ⟨o, t⟩) (hn : t.length < n) :
    fraction? source n o = some (o + Text.byteLength (Lexer.fractionPart t).1) := by
  rw [fraction?, ahead?_eq h]
  simp only [Option.bind_eq_bind, Option.bind_some]
  fun_cases Lexer.fractionPart t with
  | case1 d r hd =>
      have hbehind : Place.StandsIn source ⟨o + 1, d :: r⟩ := standsIn_append (s := ['.']) h
      change (if d.isDigit then pass? source Char.isDigit n (o + 1) else some o) = _
      rw [if_pos hd, pass?_eq Char.isDigit hbehind (Nat.lt_of_succ_lt hn),
        List.takeWhile_cons_of_pos hd, Text.byteLength_cons, Nat.add_assoc]
      rfl
  | case2 d r hd =>
      change (if d.isDigit then pass? source Char.isDigit n (o + 1) else some o) = _
      rw [if_neg hd]
      rfl
  | case3 t hpoint =>
      split
      · exact absurd rfl (hpoint _ _)
      · rfl

theorem exponent?_eq {n : Nat} (h : Place.StandsIn source ⟨o, t⟩) (hn : t.length < n) :
    exponent? source n o = some (o + Text.byteLength (Lexer.exponentPart t).1) := by
  rw [exponent?, ahead?_eq h]
  simp only [Option.bind_eq_bind, Option.bind_some]
  fun_cases Lexer.exponentPart t with
  | case1 e x r hmark =>
      have hsize : e.utf8Size = 1 := by rcases hmark.1 with rfl | rfl <;> rfl
      have hbehind := standsIn_step h
      have hrest := standsIn_step hbehind
      rw [hsize] at hbehind hrest
      rw [List.length_cons, List.length_cons] at hn
      dsimp only
      rw [if_pos hmark, ahead?_eq hbehind, Option.bind_some, Text.byteLength_cons,
        Text.byteLength_cons, hsize, ← Nat.add_assoc, ← Nat.add_assoc, List.head?_cons,
        Option.any_some]
      by_cases hx : x.isDigit = true
      · rw [if_pos hx, pass?_eq Char.isDigit hbehind (by rw [List.length_cons]; omega),
          List.takeWhile_cons_of_pos hx, Text.byteLength_cons, ← Nat.add_assoc]
      · have hsign : x.utf8Size = 1 := by
          rcases hmark.2.resolve_left hx with rfl | rfl <;> rfl
        rw [hsign] at hrest ⊢
        rw [if_neg hx, pass?_eq Char.isDigit hrest (by omega)]
  | case2 e x r hmark =>
      dsimp only
      rw [if_neg hmark]
      rfl
  | case3 t hmark =>
      split
      · exact absurd rfl (hmark _ _ _)
      · rfl

/-- A number that ends behind its first digits is one without the other parts. -/
theorem offset_eq_iff (o : Nat) (fraction exponent : Text) :
    o + Text.byteLength fraction + Text.byteLength exponent = o ↔
      (fraction.isEmpty && exponent.isEmpty) = true := by
  rw [Bool.and_eq_true, List.isEmpty_iff, List.isEmpty_iff, ← Text.byteLength_eq_zero,
    ← Text.byteLength_eq_zero]
  omega

theorem number?_eq {n : Nat} (h : Place.StandsIn source ⟨o, t⟩) (hn : t.length < n) :
    number? source n o = some (offsetOf (Lexer.number o t)) := by
  obtain ⟨whole, r, hwhole, hrest⟩ : ∃ whole r, t.takeWhile Char.isDigit = whole ∧
      t.dropWhile Char.isDigit = r := ⟨_, _, rfl, rfl⟩
  obtain ⟨fraction, r', hfraction⟩ : ∃ f r', Lexer.fractionPart r = (f, r') := ⟨_, _, rfl⟩
  obtain ⟨exponent, r'', hexponent⟩ : ∃ e r'', Lexer.exponentPart r' = (e, r'') := ⟨_, _, rfl⟩
  -- The text consists of the three parts and of what is left.
  have ht : t = whole ++ r := by rw [← hwhole, ← hrest, List.takeWhile_append_dropWhile]
  have hr : r = fraction ++ r' := by
    have happend := Lexer.fractionPart_append_rest r
    rw [hfraction] at happend
    exact happend.symm
  have hr' : r' = exponent ++ r'' := by
    have happend := Lexer.exponentPart_append_rest r'
    rw [hexponent] at happend
    exact happend.symm
  have hlength : r'.length ≤ r.length ∧ r.length ≤ t.length := by
    rw [ht, hr]
    simp
  have hr_in : Place.StandsIn source ⟨o + Text.byteLength whole, r⟩ := standsIn_append (ht ▸ h)
  have hr'_in := standsIn_append (hr ▸ hr_in)
  have hlexeme : between? source o
      (o + Text.byteLength whole + Text.byteLength fraction + Text.byteLength exponent) =
        some (whole ++ fraction ++ exponent) := by
    have hsplit : t = whole ++ fraction ++ exponent ++ r'' := by rw [ht, hr, hr']; simp
    have hbetween := between?_eq (s := whole ++ fraction ++ exponent) (hsplit ▸ h)
    simpa [Nat.add_assoc] using hbetween
  rw [number?, pass?_eq Char.isDigit h hn, hwhole]
  simp only [Option.bind_eq_bind, Option.bind_some]
  rw [fraction?_eq hr_in (by omega), hfraction, Option.bind_some, exponent?_eq hr'_in (by omega),
    hexponent, Option.bind_some, hlexeme, Option.bind_some, Lexer.number]
  dsimp only
  rw [hwhole, hrest, hfraction]
  dsimp only
  rw [hexponent]
  simp only [offset_eq_iff]
  split
  · rename_i hpart
    rw [Bool.and_eq_true, List.isEmpty_iff, List.isEmpty_iff] at hpart
    obtain ⟨rfl, rfl⟩ := hpart
    simp [offsetOf]
  · refine congrArg some (Prod.ext rfl ?_)
    simp [offsetOf, Nat.add_assoc]

theorem word?_eq {n : Nat} (h : Place.StandsIn source ⟨o, t⟩) (hn : t.length < n) :
    word? source n o = some (offsetOf (Lexer.word o t)) := by
  have hname : t.takeWhile continuesName ++ t.dropWhile continuesName = t :=
    List.takeWhile_append_dropWhile
  unfold word?
  rw [pass?_eq continuesName h hn]
  simp only [Option.bind_eq_bind, Option.bind_some]
  rw [between?_eq (t := t.dropWhile continuesName) (by rwa [hname])]
  rfl

end Offsets

end SchemaModels.Ddl

import SchemaModels.Ddl.Token
import SchemaModels.Text.Alphabetic
import SchemaModels.Text.Numeric

/-!
# From a source text to its tokens

A place is a byte offset together with the text from there on; every reader below takes the place
where it begins and gives the place behind what it has read. `next` skips blanks and comments and
reads one token, `tokens` reads them all and adds the end of the text. Main statement:
`next_shortens`, each token other than the end uses up at least one character.
-/

namespace SchemaModels.Ddl

structure Place where
  offset : Nat
  rest : Text
  deriving DecidableEq, Repr, Inhabited

namespace Lexer

/-! ### Blanks and comments -/

/-- What a character that belongs to no token is part of. A comment in asterisks is known by the
offset where it opened. -/
inductive Gap
  | blank
  | line
  /-- The asterisk that opens a comment. -/
  | opening (start : Nat)
  | block (start : Nat)
  /-- The slash that closes a comment. -/
  | closing
  deriving DecidableEq, Repr

/-- Two hyphens open a comment only before a blank or the end of the text. -/
def opensLine (c : Char) (r : Text) : Bool :=
  c == '#' || (c == '-' && r.head? == some '-' && r.tail.head?.all Text.isBlank)

/-- The place of the next token, or the span of a block comment that is never closed. -/
def skip : Gap → Nat → Text → Except Span Place
  | .blank, o, c :: r =>
    if Text.isBlank c then skip .blank (o + c.utf8Size) r
    else if opensLine c r then skip .line (o + c.utf8Size) r
    else if c = '/' ∧ r.head? = some '*' then skip (.opening o) (o + c.utf8Size) r
    else .ok ⟨o, c :: r⟩
  | .line, o, c :: r => skip (if c = '\n' then .blank else .line) (o + c.utf8Size) r
  | .opening s, o, c :: r => skip (.block s) (o + c.utf8Size) r
  | .block s, o, c :: r =>
    skip (if c = '*' ∧ r.head? = some '/' then .closing else .block s) (o + c.utf8Size) r
  | .closing, o, c :: r => skip .blank (o + c.utf8Size) r
  | .opening s, o, [] | .block s, o, [] => .error ⟨s, o⟩
  | .blank, o, [] | .line, o, [] | .closing, o, [] => .ok ⟨o, []⟩

theorem skip_suffix {g : Gap} {o : Nat} {t : Text} {p : Place} (h : skip g o t = .ok p) :
    p.rest <:+ t := by
  induction t generalizing g o with
  | nil => cases g <;> cases h <;> exact List.suffix_rfl
  | cons c r ih =>
    have hrest {g : Gap} {o : Nat} (h : skip g o r = .ok p) : p.rest <:+ c :: r :=
      (ih h).trans (List.suffix_cons c r)
    cases g with
    | blank =>
      unfold skip at h
      split at h
      · exact hrest h
      · split at h
        · exact hrest h
        · split at h
          · exact hrest h
          · cases h
            exact List.suffix_rfl
    | line => exact hrest h
    | opening s => exact hrest h
    | block s => exact hrest h
    | closing => exact hrest h

/-! ### Quoted names and literals -/

/-- Puts some characters before a text that may be missing. -/
def push (cs : Text) : Option Text × Place → Option Text × Place
  | (value, p) => (value.map (cs ++ ·), p)

/-- The characters that a backslash and the given character stand for. The wildcards of patterns
keep their backslash. -/
def unescape : Char → Text
  | 'n' => ['\n']
  | 't' => ['\t']
  | 'r' => ['\r']
  | '0' => ['\x00']
  | 'Z' => ['\x1a']
  | '%' => ['\\', '%']
  | '_' => ['\\', '_']
  | c => [c]

/-- The text behind an opening quote; a doubled quote stands for one. In a string a backslash
escapes the character behind it, in a name it is a character like others. -/
def quotedText (quote : Char) (isString : Bool) : Nat → Text → Option Text × Place
  | o, c :: d :: r =>
    if c = quote then
      if d = quote then
        push [quote] (quotedText quote isString (o + c.utf8Size + d.utf8Size) r)
      else (some [], ⟨o + c.utf8Size, d :: r⟩)
    else if isString && c = '\\' then
      push (unescape d) (quotedText quote isString (o + c.utf8Size + d.utf8Size) r)
    else push [c] (quotedText quote isString (o + c.utf8Size) (d :: r))
  | o, [c] => (if c = quote then some [] else none, ⟨o + c.utf8Size, []⟩)
  | o, [] => (none, ⟨o, []⟩)

/-- The bytes behind `X` and an opening quote, two hexadecimal digits each. A fault leaves what
follows it unread, the closing quote included. -/
def blobBytes : Nat → Text → Except LexicalFault (List UInt8) × Place
  | o, a :: b :: r =>
    if a = '\'' then (.ok [], ⟨o + 1, b :: r⟩)
    else if !Text.isHexDigit a then (.error .blobCharacter, ⟨o, a :: b :: r⟩)
    else if b = '\'' then (.error .oddBlob, ⟨o + 1, b :: r⟩)
    else if !Text.isHexDigit b then (.error .blobCharacter, ⟨o + 1, b :: r⟩)
    else
      let (bytes, p) := blobBytes (o + 2) r
      (bytes.map (UInt8.ofNat (16 * Text.hexDigitValue a + Text.hexDigitValue b) :: ·), p)
  | o, [a] =>
    if a = '\'' then (.ok [], ⟨o + 1, []⟩)
    else if !Text.isHexDigit a then (.error .blobCharacter, ⟨o, [a]⟩)
    else (.error .openBlob, ⟨o + 1, []⟩)
  | o, [] => (.error .openBlob, ⟨o, []⟩)

/-! ### Numbers and words -/

/-- A point and the digits behind it, where at least one digit follows. -/
def fractionPart : Text → Text × Text
  | '.' :: d :: r =>
    if d.isDigit then ('.' :: d :: r.takeWhile Char.isDigit, r.dropWhile Char.isDigit)
    else ([], '.' :: d :: r)
  | t => ([], t)

/-- An exponent mark and what follows it, where that is a digit or a sign. -/
def exponentPart : Text → Text × Text
  | e :: x :: r =>
    if (e = 'e' ∨ e = 'E') ∧ (x.isDigit ∨ x = '+' ∨ x = '-') then
      (e :: x :: r.takeWhile Char.isDigit, r.dropWhile Char.isDigit)
    else ([], e :: x :: r)
  | t => ([], t)

/-- Integers are those of 64 bits with a sign, of which a literal gives the non-negative ones. -/
def integer (digits : Text) : TokenKind :=
  let n := Text.value digits
  if n < 2 ^ 63 then .integer n else .fault .integerRange

def number (o : Nat) (t : Text) : TokenKind × Place :=
  let whole := t.takeWhile Char.isDigit
  let (fraction, r) := fractionPart (t.dropWhile Char.isDigit)
  let (exponent, r) := exponentPart r
  let lexeme := whole ++ fraction ++ exponent
  let kind :=
    if fraction.isEmpty && exponent.isEmpty then integer whole
    else match Binary64.ofText? lexeme with
      | some x => .float x
      | none => .fault .malformedNumber
  (kind, ⟨o + Text.byteLength lexeme, r⟩)

def startsName (c : Char) : Bool := Text.isAlphabetic c || c == '_' || c == '$'

def continuesName (c : Char) : Bool := startsName c || Text.isNumeric c

/-- A name without quotes, or the keyword that it spells. -/
def word (o : Nat) (t : Text) : TokenKind × Place :=
  let name := t.takeWhile continuesName
  let kind := match Keyword.ofText? name with
    | some k => .keyword k
    | none => .identifier name
  (kind, ⟨o + Text.byteLength name, t.dropWhile continuesName⟩)

/-! ### Tokens -/

/-- The symbols of two characters. -/
def pairs : List ((Char × Char) × Symbol) :=
  [(('<', '='), .lessEqual), (('<', '>'), .notEqual), (('>', '='), .greaterEqual),
   (('!', '='), .notEqual), (('|', '|'), .concat)]

/-- The symbols of one character. -/
def singles : List (Char × Symbol) :=
  [('(', .leftParen), (')', .rightParen), (',', .comma), (';', .semicolon), ('.', .dot),
   (':', .colon), ('+', .plus), ('-', .minus), ('*', .star), ('/', .slash), ('%', .percent),
   ('~', .bitNot), ('?', .question), ('@', .at), ('&', .bitAnd), ('=', .equal), ('<', .less),
   ('>', .greater), ('|', .bitOr)]

/-- The symbol that a character begins, the longer one first, and the place behind it. -/
def symbol? (o : Nat) (c : Char) (r : Text) : Option (Symbol × Place) :=
  match r.head?.bind fun d => pairs.lookup (c, d) with
  | some s => some (s, ⟨o + 2, r.tail⟩)
  | none => (singles.lookup c).map fun s => (s, ⟨o + 1, r⟩)

/-- A literal without an end is a fault. -/
def closed (kind : Text → TokenKind) (fault : LexicalFault) :
    Option Text × Place → TokenKind × Place
  | (some value, p) => (kind value, p)
  | (none, p) => (.fault fault, p)

/-- Bytes that cannot be read are a fault. -/
def blob : Except LexicalFault (List UInt8) × Place → TokenKind × Place
  | (.ok bytes, p) => (.blob bytes, p)
  | (.error f, p) => (.fault f, p)

/-- Reads the token that begins with `c`, which no blank and no comment does. -/
def token (o : Nat) (c : Char) (r : Text) : TokenKind × Place :=
  match symbol? o c r with
  | some (s, p) => (.symbol s, p)
  | none =>
    if c = '\'' ∨ c = '"' then closed .string .openString (quotedText c true (o + 1) r)
    else if c = '\x60' then closed .identifier .openName (quotedText c false (o + 1) r)
    else if (c = 'X' ∨ c = 'x') ∧ r.head? = some '\'' then blob (blobBytes (o + 2) (r.drop 1))
    else if c.isDigit then number o (c :: r)
    else if startsName c then word o (c :: r)
    else (.fault (.character c), ⟨o + c.utf8Size, r⟩)

/-- What `token` may give, by the reader that gives it. -/
inductive IsToken (o : Nat) (c : Char) (r : Text) : TokenKind × Place → Prop
  | symbol {s : Symbol} {p : Place} (h : symbol? o c r = some (s, p)) :
    IsToken o c r (.symbol s, p)
  | quoted {kind : Text → TokenKind} (f : LexicalFault) (isString : Bool)
    (hkind : kind = .string ∨ kind = .identifier) (hc : c ∈ ['\'', '"', '\x60']) :
    IsToken o c r (closed kind f (quotedText c isString (o + 1) r))
  | blob (hc : c ∈ ['X', 'x']) (hr : r.head? = some '\'') :
    IsToken o c r (blob (blobBytes (o + 2) (r.drop 1)))
  | number (hc : c.isDigit = true) : IsToken o c r (number o (c :: r))
  | word (hc : startsName c = true) : IsToken o c r (word o (c :: r))
  | other : IsToken o c r (.fault (.character c), ⟨o + c.utf8Size, r⟩)

theorem isToken_token (o : Nat) (c : Char) (r : Text) : IsToken o c r (token o c r) := by
  unfold token
  split
  · rename_i h
    exact .symbol h
  · split
    · rename_i hc
      exact .quoted _ true (Or.inl rfl) (by rcases hc with rfl | rfl <;> simp)
    · split
      · rename_i hc
        exact .quoted _ false (Or.inr rfl) (by simp [hc])
      · split
        · rename_i hc
          exact .blob (by simpa using hc.1) hc.2
        · split
          · rename_i hc
            exact .number hc
          · split
            · rename_i hc
              exact .word hc
            · exact .other

/-- Skips to the next token and reads it. -/
def next (p : Place) : Token × Place :=
  match skip .blank p.offset p.rest with
  | .error s => (⟨.fault .openComment, s⟩, ⟨s.stop, []⟩)
  | .ok ⟨o, []⟩ => (⟨.eof, ⟨o, o⟩⟩, ⟨o, []⟩)
  | .ok ⟨o, c :: r⟩ =>
    let t := token o c r
    (⟨t.1, ⟨o, t.2.offset⟩⟩, t.2)

/-! ### Progress -/

theorem quotedText_suffix (quote : Char) (isString : Bool) (o : Nat) (t : Text) :
    (quotedText quote isString o t).2.rest <:+ t := by
  fun_induction quotedText quote isString o t with
  | case1 o r ih => exact ih.trans ((List.suffix_cons _ r).trans (List.suffix_cons _ _))
  | case2 o d r hd => exact List.suffix_cons _ (d :: r)
  | case3 o c d r _ _ ih => exact ih.trans ((List.suffix_cons d r).trans (List.suffix_cons c _))
  | case4 o c d r _ _ ih => exact ih.trans (List.suffix_cons c (d :: r))
  | case5 o c => exact List.nil_suffix
  | case6 o => exact List.suffix_rfl

theorem blobBytes_suffix (o : Nat) (t : Text) : (blobBytes o t).2.rest <:+ t := by
  fun_induction blobBytes o t with
  | case5 o a b r _ _ _ _ bytes p hb ih =>
    rw [hb] at ih
    exact ih.trans ((List.suffix_cons b r).trans (List.suffix_cons a _))
  | _ => simp

theorem fractionPart_append_rest (t : Text) : (fractionPart t).1 ++ (fractionPart t).2 = t := by
  unfold fractionPart
  split
  · split
    · simp
    · rfl
  · rfl

theorem exponentPart_append_rest (t : Text) : (exponentPart t).1 ++ (exponentPart t).2 = t := by
  unfold exponentPart
  split
  · split
    · simp
    · rfl
  · rfl

theorem number_suffix {c : Char} (hc : c.isDigit = true) (o : Nat) (r : Text) :
    (number o (c :: r)).2.rest <:+ r := by
  have hfraction (t : Text) : (fractionPart t).2 <:+ t := ⟨_, fractionPart_append_rest t⟩
  have hexponent (t : Text) : (exponentPart t).2 <:+ t := ⟨_, exponentPart_append_rest t⟩
  have hwhole : (c :: r).dropWhile Char.isDigit <:+ r := by
    rw [List.dropWhile_cons_of_pos hc]
    exact List.dropWhile_suffix Char.isDigit
  exact (hexponent _).trans ((hfraction _).trans hwhole)

theorem word_suffix {c : Char} (hc : startsName c = true) (o : Nat) (r : Text) :
    (word o (c :: r)).2.rest <:+ r := by
  have hname : continuesName c = true := by simp [continuesName, hc]
  have hrest : (word o (c :: r)).2.rest = r.dropWhile continuesName :=
    List.dropWhile_cons_of_pos hname
  rw [hrest]
  exact List.dropWhile_suffix continuesName

theorem symbol?_suffix {o : Nat} {c : Char} {r : Text} {s : Symbol} {p : Place}
    (h : symbol? o c r = some (s, p)) : p.rest <:+ r := by
  unfold symbol? at h
  split at h
  · cases h
    exact List.tail_suffix r
  · obtain ⟨_, _, h⟩ := Option.map_eq_some_iff.1 h
    cases h
    exact List.suffix_rfl

theorem closed_snd (kind : Text → TokenKind) (f : LexicalFault) (x : Option Text × Place) :
    (closed kind f x).2 = x.2 := by
  obtain ⟨_ | _, _⟩ := x <;> rfl

theorem blob_snd (x : Except LexicalFault (List UInt8) × Place) : (blob x).2 = x.2 := by
  obtain ⟨_ | _, _⟩ := x <;> rfl

theorem token_suffix (o : Nat) (c : Char) (r : Text) : (token o c r).2.rest <:+ r := by
  have h := isToken_token o c r
  generalize token o c r = x at h ⊢
  cases h with
  | symbol h => exact symbol?_suffix h
  | quoted f isString _ _ =>
    rw [closed_snd]
    exact quotedText_suffix c isString (o + 1) r
  | blob _ _ =>
    rw [blob_snd]
    exact (blobBytes_suffix (o + 2) (r.drop 1)).trans (List.drop_suffix 1 r)
  | number hc => exact number_suffix hc o r
  | word hc => exact word_suffix hc o r
  | other => exact List.suffix_rfl

theorem next_shortens {p : Place} (h : (next p).1.kind ≠ .eof) :
    (next p).2.rest.length < p.rest.length := by
  unfold next at h ⊢
  split
  · rename_i hs
    cases hr : p.rest with
    | nil =>
      rw [hr, skip] at hs
      cases hs
    | cons c r => simp
  · rename_i hs
    simp [hs] at h
  · rename_i o c r hs
    have h1 := (skip_suffix hs).length_le
    have h2 := (token_suffix o c r).length_le
    simp only [List.length_cons] at h1
    simp only
    omega

end Lexer

/-- The tokens from a place on, without the end of the text. -/
def lexemesFrom (p : Place) : List Token :=
  let step := Lexer.next p
  if _ : step.1.kind = .eof then [] else step.1 :: lexemesFrom step.2
termination_by p.rest.length
decreasing_by exact Lexer.next_shortens ‹_›

/-- The tokens of a source text, without its end. -/
def lexemes (source : Text) : List Token := lexemesFrom ⟨0, source⟩

/-- The end of a source text. -/
def endToken (source : Text) : Token := ⟨.eof, ⟨Text.byteLength source, Text.byteLength source⟩⟩

def tokens (source : Text) : List Token := lexemes source ++ [endToken source]

theorem next_end (n : Nat) : Lexer.next ⟨n, []⟩ = (⟨.eof, ⟨n, n⟩⟩, ⟨n, []⟩) := rfl

end SchemaModels.Ddl

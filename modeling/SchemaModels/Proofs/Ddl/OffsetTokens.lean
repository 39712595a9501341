import SchemaModels.Proofs.Ddl.OffsetLiterals
import SchemaModels.Proofs.Ddl.Tiling

/-!
# Tokens by offsets

A lexer that knows nothing but an offset gives the tokens of a text (`tokens?_eq`), and so do calls
of it beyond the last one (`reads?_eq`). So no cut is ever made inside a character, and the spans that
are cut out tile the text (`tokens_tile_source`).
-/

namespace SchemaModels.Ddl

open Lexer (pairs singles startsName)

namespace Offsets

variable {source : Text} {o : Nat} {c : Char} {t : Text}

/-! ### Tokens -/

/-- A literal without an end is a fault. -/
def closed (kind : Text → TokenKind) (fault : LexicalFault) (x : Option Text × Nat) :
    TokenKind × Nat := (x.1.elim (.fault fault) kind, x.2)

/-- Bytes that cannot be read are a fault. -/
def blob (x : Except LexicalFault (List UInt8) × Nat) : TokenKind × Nat :=
  (match x.1 with
    | .ok bytes => .blob bytes
    | .error f => .fault f, x.2)

variable (source)

/-- The token that begins with the given character. -/
def token? (turns start : Nat) (c : Char) : Option (TokenKind × Nat) := do
  let behind ← ahead? source (start + c.utf8Size)
  match behind.head?.bind fun d => pairs.lookup (c, d) with
  | some s => return (.symbol s, start + 2)
  | none =>
    match singles.lookup c with
    | some s => return (.symbol s, start + 1)
    | none =>
      if c = '\'' ∨ c = '"' then
        closed .string .openString <$> quoted? source c true turns (start + 1)
      else if c = '\x60' then
        closed .identifier .openName <$> quoted? source c false turns (start + 1)
      else if (c = 'X' ∨ c = 'x') ∧ behind.head? = some '\'' then
        blob <$> blob? source turns (start + 2)
      else if c.isDigit then number? source turns start
      else if startsName c then word? source turns start
      else return (.fault (.character c), start + c.utf8Size)

/-- The next token and the offset behind it. -/
def next? (turns o : Nat) : Option (Token × Nat) := do
  match ← skip? source turns o with
  | .error s => return (⟨.fault .openComment, s⟩, s.stop)
  | .ok start =>
    match ← ahead? source start with
    | [] => return (⟨.eof, ⟨start, start⟩⟩, start)
    | c :: _ => (fun x => (⟨x.1, ⟨start, x.2⟩⟩, x.2)) <$> token? source turns start c

/-- The tokens from an offset on, up to the end of the text. -/
def tokensFrom? : (turns : Nat) → Nat → Option (List Token)
  | 0, _ => none
  | n + 1, o => do
    let (t, stop) ← next? source (n + 1) o
    if t.kind = .eof then return [t] else (t :: ·) <$> tokensFrom? n stop

/-- The tokens that so many calls give. -/
def reads? (turns : Nat) : (calls : Nat) → Nat → Option (List Token)
  | 0, _ => some []
  | n + 1, o => do
    let (t, stop) ← next? source turns o
    (t :: ·) <$> reads? turns n stop

/-- The tokens of the text. No loop needs more turns than there are characters, and one more. -/
def tokens? : Option (List Token) := tokensFrom? source (source.length + 1) 0

variable {source}

theorem offsetOf_closed (kind : Text → TokenKind) (f : LexicalFault) (x : Option Text × Place) :
    offsetOf (Lexer.closed kind f x) = closed kind f (offsetOf x) := by
  obtain ⟨_ | _, _⟩ := x <;> rfl

theorem offsetOf_blob (x : Except LexicalFault (List UInt8) × Place) :
    offsetOf (Lexer.blob x) = blob (offsetOf x) := by
  obtain ⟨_ | _, _⟩ := x <;> rfl

theorem token?_eq {r : Text} {n : Nat} (h : Place.StandsIn source ⟨o, c :: r⟩)
    (hn : (c :: r).length < n) : token? source n o c = some (offsetOf (Lexer.token o c r)) := by
  have hbehind := standsIn_step h
  have hone (cs : List Char) (hc : c ∈ cs) (hcs : cs.all (·.utf8Size = 1) = true) :
      Place.StandsIn source ⟨o + 1, r⟩ := by
    rwa [Lexer.utf8Size_of_mem hc hcs] at hbehind
  have hlength : r.length < n := Nat.lt_of_succ_lt hn
  rw [token?, ahead?_eq hbehind, Lexer.token, Lexer.symbol?]
  simp only [Option.bind_eq_bind, Option.bind_some]
  cases r.head?.bind fun d => pairs.lookup (c, d) with
  | some s => rfl
  | none =>
      cases singles.lookup c with
      | some s => rfl
      | none =>
          dsimp only [Option.map_none]
          by_cases hstring : c = '\'' ∨ c = '"'
          · have hquote := hone ['\'', '"'] (by simpa using hstring) (by decide)
            rw [if_pos hstring, if_pos hstring, quoted?_eq c true hquote hlength, offsetOf_closed]
            rfl
          rw [if_neg hstring, if_neg hstring]
          by_cases hname : c = '\x60'
          · have hquote := hone ['\x60'] (by simpa using hname) (by decide)
            rw [if_pos hname, if_pos hname, quoted?_eq c false hquote hlength, offsetOf_closed]
            rfl
          rw [if_neg hname, if_neg hname]
          by_cases hblob : (c = 'X' ∨ c = 'x') ∧ r.head? = some '\''
          · have hquote := hone ['X', 'x'] (by simpa using hblob.1) (by decide)
            obtain ⟨r, rfl⟩ := List.head?_eq_some_iff.1 hblob.2
            have hbytes : Place.StandsIn source ⟨o + 2, r⟩ := standsIn_step hquote
            rw [if_pos hblob, if_pos hblob, blob?_eq hbytes (Nat.lt_of_succ_lt hlength),
              offsetOf_blob]
            rfl
          rw [if_neg hblob, if_neg hblob]
          by_cases hdigit : c.isDigit = true
          · rw [if_pos hdigit, if_pos hdigit]
            exact number?_eq h hn
          rw [if_neg hdigit, if_neg hdigit]
          by_cases hword : startsName c = true
          · rw [if_pos hword, if_pos hword]
            exact word?_eq h hn
          · rw [if_neg hword, if_neg hword]
            rfl

theorem next?_eq {n : Nat} (h : Place.StandsIn source ⟨o, t⟩) (hn : t.length < n) :
    next? source n o = some (offsetOf (Lexer.next ⟨o, t⟩)) := by
  have hskip := Lexer.stopOf_skip .blank o t
  rw [next?, skip?_eq h hn, Lexer.next]
  simp only [Option.bind_eq_bind, Option.bind_some]
  cases hs : Lexer.skip .blank o t with
  | error s => rfl
  | ok p =>
      rw [hs] at hskip
      have hsuffix : p.rest <:+ t := Lexer.skip_suffix hs
      have hstands : p.StandsIn source := h.of_suffix hsuffix hskip
      have hlength := hsuffix.length_le
      obtain ⟨start, _ | ⟨c, r⟩⟩ := p
      · change (ahead? source start >>= _) = _
        rw [ahead?_eq hstands]
        rfl
      · change (ahead? source start >>= _) = _
        rw [ahead?_eq hstands]
        change _ <$> token? source n start c = _
        rw [token?_eq hstands (Nat.lt_of_le_of_lt hlength hn)]
        rfl

theorem tokensFrom?_eq {n : Nat} (h : Place.StandsIn source ⟨o, t⟩) (hn : t.length < n) :
    tokensFrom? source n o =
      some (lexemesFrom ⟨o, t⟩ ++ [⟨.eof, ⟨o + Text.byteLength t, o + Text.byteLength t⟩⟩]) := by
  induction n generalizing o t with
  | zero => cases hn
  | succ n ih =>
      have hstop : (Lexer.next ⟨o, t⟩).2.offset + Text.byteLength (Lexer.next ⟨o, t⟩).2.rest =
          o + Text.byteLength t := (Lexer.next_stop ⟨o, t⟩).1
      rw [tokensFrom?, next?_eq h hn]
      change (if (Lexer.next ⟨o, t⟩).1.kind = .eof then some [(Lexer.next ⟨o, t⟩).1] else
        ((Lexer.next ⟨o, t⟩).1 :: ·) <$> tokensFrom? source n (Lexer.next ⟨o, t⟩).2.offset) = _
      split
      · rename_i heof
        rw [lexemesFrom_of_eof heof]
        obtain ⟨-, hnext⟩ | ⟨_, _, _, kind, _, _, -, -, -, hkind, -, -, hnext⟩ :=
          Lexer.next_cases ⟨o, t⟩
        · rw [hnext]
          rfl
        · rw [hnext] at heof
          exact absurd heof hkind
      · rename_i heof
        have hrest := (Lexer.next_standsIn h).1
        have hshorter := Lexer.next_shortens heof
        rw [lexemesFrom_of_ne_eof heof, ih hrest (Nat.lt_of_lt_of_le hshorter (Nat.le_of_lt_succ hn)),
          hstop]
        rfl

theorem reads?_eq {turns : Nat} (n : Nat) {p : Place} (h : p.StandsIn source)
    (hturns : p.rest.length < turns) : reads? source turns n p.offset = some (reads n p) := by
  induction n generalizing p with
  | zero => rfl
  | succ n ih =>
      have hrest := (Lexer.next_standsIn h).1
      have hlength : (Lexer.next p).2.rest.length ≤ p.rest.length := by
        obtain ⟨-, hnext⟩ | ⟨skipped, text, rest, _, _, _, htext, -, -, -, -, -, hnext⟩ :=
          Lexer.next_cases p
        · rw [hnext]
          exact Nat.zero_le _
        · rw [hnext, htext, List.length_append]
          exact Nat.le_add_left _ _
      rw [reads?, next?_eq h hturns]
      change (_ <$> reads? source turns n (Lexer.next p).2.offset) = _
      rw [ih hrest (Nat.lt_of_le_of_lt hlength hturns)]
      rfl

/-- Reading by offsets gives the tokens of a text. -/
theorem tokens?_eq (source : Text) : tokens? source = some (tokens source) := by
  have hstart : Place.StandsIn source ⟨0, source⟩ := ⟨[], rfl, rfl⟩
  rw [tokens?, tokensFrom?_eq hstart (Nat.lt_succ_self _), Nat.zero_add]
  rfl

end Offsets

/-- The tokens of a text tile it, and calls beyond the last one give the end of the text again. A
lexer that cuts the text at offsets gives them too, so that none of its cuts fails. -/
theorem tokens_tile_source (source : Text) :
    IsTiling source (tokens source) ∧
      (∀ n, reads n ⟨0, source⟩ =
        (tokens source ++ List.replicate n (endToken source)).take n) ∧
      Offsets.tokens? source = some (tokens source) ∧
      ∀ n, Offsets.reads? source (source.length + 1) n 0 = some (reads n ⟨0, source⟩) := by
  have hstart : Place.StandsIn source ⟨0, source⟩ := ⟨[], rfl, rfl⟩
  exact ⟨isTiling_tokens source, fun n => reads_source n source, Offsets.tokens?_eq source,
    fun n => Offsets.reads?_eq n hstart (Nat.lt_succ_self _)⟩

end SchemaModels.Ddl

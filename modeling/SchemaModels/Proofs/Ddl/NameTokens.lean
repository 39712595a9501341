import SchemaModels.Proofs.Ddl.LookAheadTokens
import SchemaModels.Proofs.Ddl.Spells

/-!
# Names in backquotes among the tokens of a text

The lexer looks no further than to a backquote as long as it leaves that unread. So the tokens in
front of a name in backquotes do not depend on the name (`lexemes_backquoted`), and those behind it
are only moved.
-/

namespace SchemaModels.Ddl

open Lexer (next quotedText quotedText_stop)

variable {n m a b : Text}

theorem next_backquote (o : Nat) (r : Text) : next ⟨o, '\x60' :: r⟩ =
    (⟨(Lexer.token o '\x60' r).1, ⟨o, (Lexer.token o '\x60' r).2.offset⟩⟩,
      (Lexer.token o '\x60' r).2) := rfl

/-- A name in backquotes is read as it was, unless it goes on behind its closing backquote. -/
theorem lexemesFrom_backquoted (hb : b.head? ≠ some '\x60') (o : Nat) (n : Text) :
    lexemesFrom ⟨o, backquoted n ++ b⟩ =
      ⟨.identifier n, ⟨o, o + Text.byteLength (backquoted n)⟩⟩ ::
        (lexemes b).map (Token.shift (o + Text.byteLength (backquoted n))) := by
  have htext : backquoted n ++ b = '\x60' :: (doubled ['\x60'] n ++ '\x60' :: b) := by
    simp [backquoted]
  have hspecial (c : Char) : c ∈ ['\x60'] ↔ c = '\x60' ∨ (false = true ∧ c = '\\') := by simp
  obtain ⟨hvalue, hrest⟩ := quotedText_doubled hspecial hb (o + 1) n
  have hstop := quotedText_stop '\x60' false (o + 1) (doubled ['\x60'] n ++ '\x60' :: b)
  have htoken := token_backquote o (doubled ['\x60'] n ++ '\x60' :: b)
  rw [closed_of_some hvalue] at htoken
  generalize quotedText '\x60' false (o + 1) (doubled ['\x60'] n ++ '\x60' :: b) = z
    at htoken hrest hstop
  obtain ⟨value, offset, rest⟩ := z
  obtain rfl : rest = b := hrest
  have hlength := congrArg Text.byteLength htext
  have hquote : '\x60'.utf8Size = 1 := by decide
  simp only [Text.byteLength_append, Text.byteLength_cons, Place.stop, hquote] at hlength hstop
  obtain rfl : offset = o + Text.byteLength (backquoted n) := by omega
  have hshift := lexemesFrom_shift (o + Text.byteLength (backquoted n)) ⟨0, rest⟩
  rw [Place.embed, Nat.zero_add, List.append_nil] at hshift
  have hnext := next_backquote o (doubled ['\x60'] n ++ '\x60' :: rest)
  rw [htoken] at hnext
  have hne : (next ⟨o, '\x60' :: (doubled ['\x60'] n ++ '\x60' :: rest)⟩).1.kind ≠ .eof := by
    rw [hnext]
    rintro ⟨⟩
  rw [htext, lexemesFrom_of_ne_eof hne, hnext, hshift]
  rfl

theorem doubled_of_not_mem (hm : '\x60' ∉ m) : doubled ['\x60'] m = m := by
  induction m with
  | nil => rfl
  | cons c m ih =>
    obtain ⟨hc, hm⟩ := not_or.1 (mt List.mem_cons.2 hm)
    rw [doubled, List.flatMap_cons, if_neg (by simpa using Ne.symm hc)]
    exact congrArg (c :: ·) (ih hm)

theorem quotedText_plain_append (hm : '\x60' ∉ m) {t : Text} (ht : t ≠ []) (o : Nat) :
    (quotedText '\x60' false o (m ++ t)).1 =
      (quotedText '\x60' false (o + Text.byteLength m) t).1.map (m ++ ·) := by
  induction m generalizing o with
  | nil => simp
  | cons c m ih =>
    obtain ⟨hc, hm⟩ := not_or.1 (mt List.mem_cons.2 hm)
    obtain ⟨d, r, hr⟩ := List.exists_cons_of_ne_nil (List.append_ne_nil_of_right_ne_nil m ht)
    have hrest := ih hm (o + c.utf8Size)
    rw [hr] at hrest
    rw [List.cons_append, hr, quotedText, if_neg (Ne.symm hc), if_neg (by simp),
      Text.byteLength_cons, ← Nat.add_assoc]
    refine (congrArg (Option.map ([c] ++ ·)) hrest).trans ?_
    rw [Option.map_map]
    rfl

/-- A name without backquotes that is read as it is ends with its closing backquote. -/
theorem head?_of_backquoted {o e : Nat} {ts : List Token} (hm : '\x60' ∉ m)
    (h : lexemesFrom ⟨o, backquoted m ++ b⟩ = ⟨.identifier m, ⟨o, e⟩⟩ :: ts) :
    b.head? ≠ some '\x60' := by
  intro hb
  obtain ⟨b, rfl⟩ := List.head?_eq_some_iff.1 hb
  have htext : backquoted m ++ '\x60' :: b = '\x60' :: (m ++ '\x60' :: '\x60' :: b) := by
    simp [backquoted, doubled_of_not_mem hm]
  have heof := Lexer.token_ne_eof o '\x60' (m ++ '\x60' :: '\x60' :: b)
  rw [htext, lexemesFrom_of_ne_eof (by rw [next_backquote]; exact heof), next_backquote,
    token_backquote] at h
  have hvalue := quotedText_plain_append hm (List.cons_ne_nil '\x60' ('\x60' :: b)) (o + 1)
  have hkind := congrArg Token.kind (List.cons.inj h).1
  generalize quotedText '\x60' false (o + 1) (m ++ '\x60' :: '\x60' :: b) = z at hvalue hkind
  obtain ⟨_ | value, p⟩ := z
  · cases hkind
  · cases hkind
    -- The closing backquote would be doubled, and so be a part of the name.
    obtain ⟨w, hw, hmw⟩ := Option.map_eq_some_iff.1 hvalue.symm
    rw [quotedText, if_pos rfl, if_pos rfl] at hw
    obtain ⟨v, -, rfl⟩ := Option.map_eq_some_iff.1 hw
    exact absurd hmw (by simp)

/-- The tokens around a name in backquotes are the same for every name, but for their places. -/
theorem lexemes_backquoted {e : Nat} {before after : List Token} (hm : '\x60' ∉ m)
    (h : lexemes (a ++ backquoted m ++ b) =
      before ++ ⟨.identifier m, ⟨Text.byteLength a, e⟩⟩ :: after) (n : Text) :
    lexemes (a ++ backquoted n ++ b) = before ++
      ⟨.identifier n, ⟨Text.byteLength a, Text.byteLength (a ++ backquoted n)⟩⟩ ::
        (lexemes b).map (Token.shift (Text.byteLength (a ++ backquoted n))) := by
  have hsource (n : Text) : lexemes (a ++ backquoted n ++ b) =
      before ++ lexemesFrom ⟨Text.byteLength a, backquoted n ++ b⟩ := by
    have hbegin : lexemesFrom ⟨0, a ++ '\x60' :: (doubled ['\x60'] m ++ ['\x60'] ++ b)⟩ =
        before ++ ⟨.identifier m, ⟨Text.byteLength a, e⟩⟩ :: after := by
      rw [← h]
      simp [lexemes, backquoted]
    have hname : ¬ (TokenKind.identifier m).IsFault := by
      rintro ⟨f, ⟨⟩⟩
    have hparts : PartedAt before (⟨.identifier m, ⟨Text.byteLength a, e⟩⟩ :: after)
        (0 + Text.byteLength a) := .inr ⟨_, rfl, hname, (Nat.zero_add _).symm⟩
    obtain ⟨hcut, huntouched⟩ := untouched_shared (.inl rfl) (doubled ['\x60'] m ++ ['\x60'] ++ b)
      (doubled ['\x60'] n ++ ['\x60'] ++ b) 0 a before
    obtain ⟨-, hsame⟩ := lexemesFrom_same hcut hbegin hparts huntouched
    rw [Nat.zero_add] at hsame
    rw [lexemes, List.append_assoc]
    exact hsame
  have hhole := List.append_cancel_left ((hsource m).symm.trans h)
  rw [hsource n, lexemesFrom_backquoted (head?_of_backquoted hm hhole), Text.byteLength_append]

end SchemaModels.Ddl

import SchemaModels.Proofs.Ddl.Literals

/-!
# Tokens before more text

A token that is closed where its text ends is the same token when a blank, a parenthesis or a comma
and more text follow (`token_append`): no reader looks past the character behind its token, and none
of these characters goes on with what it reads.
-/

namespace SchemaModels.Ddl.Lexer

variable {u : Text}

theorem token_append (hu : Detached u) (o k : Nat) (c : Char) (r : Text)
    (h : (token o c r).1.IsFault → (token o c r).2.rest = [] → u = []) :
    token (o + k) c (r ++ u) = ((token o c r).1, (token o c r).2.embed k u) := by
  unfold token at h ⊢
  rw [symbol?_append hu.severed]
  cases hsymbol : symbol? o c r with
  | some x => rfl
  | none =>
      rw [hsymbol] at h
      dsimp only [Option.map_none] at h ⊢
      by_cases hstring : c = '\'' ∨ c = '"'
      · rw [if_pos hstring] at h ⊢
        rw [if_pos hstring, Nat.add_right_comm]
        refine closed_append hu ?_ true (o + 1) k r h
        rcases hstring with rfl | rfl
        · decide
        · decide
      rw [if_neg hstring] at h ⊢
      rw [if_neg hstring]
      by_cases hname : c = '\x60'
      · rw [if_pos hname] at h ⊢
        rw [if_pos hname, Nat.add_right_comm]
        refine closed_append hu ?_ false (o + 1) k r h
        rw [hname]
        decide
      rw [if_neg hname] at h ⊢
      rw [if_neg hname]
      have hquote : (r ++ u).head? = some '\'' ↔ r.head? = some '\'' :=
        head?_append_iff hu.severed r (by decide)
      by_cases hblob : (c = 'X' ∨ c = 'x') ∧ r.head? = some '\''
      · rw [if_pos hblob] at h ⊢
        rw [if_pos ⟨hblob.1, hquote.2 hblob.2⟩, Nat.add_right_comm]
        obtain ⟨r, rfl⟩ := List.head?_eq_some_iff.1 hblob.2
        exact blob_append (o + 2) k r h
      rw [if_neg hblob, if_neg fun hu => hblob ⟨hu.1, hquote.1 hu.2⟩]
      by_cases hdigit : c.isDigit
      · rw [if_pos hdigit, if_pos hdigit]
        exact number_append hu.severed o k (c :: r)
      rw [if_neg hdigit, if_neg hdigit]
      by_cases hword : startsName c
      · rw [if_pos hword, if_pos hword]
        exact word_append hu.severed o k (c :: r)
      · rw [if_neg hword, if_neg hword, Nat.add_right_comm]
        rfl

theorem utf8Size_of_mem {c : Char} {cs : List Char} (hc : c ∈ cs)
    (hcs : cs.all (·.utf8Size = 1) = true) : c.utf8Size = 1 := by
  have hsize := List.all_eq_true.1 hcs c hc
  simpa using hsize

theorem token_stop (o : Nat) (c : Char) (r : Text) :
    (token o c r).2.stop = o + Text.byteLength (c :: r) := by
  have h := isToken_token o c r
  generalize token o c r = x at h ⊢
  cases h with
  | symbol h => exact symbol?_stop h
  | quoted f isString _ hc =>
      have hsize := utf8Size_of_mem hc (by decide)
      rw [closed_snd, quotedText_stop, Text.byteLength_cons]
      omega
  | blob hc hr =>
      have hsize := utf8Size_of_mem hc (by decide)
      have hquote : '\''.utf8Size = 1 := by decide
      obtain ⟨r, rfl⟩ := List.head?_eq_some_iff.1 hr
      rw [blob_snd, blobBytes_stop, Text.byteLength_cons, Text.byteLength_cons]
      simp only [List.drop_succ_cons, List.drop_zero]
      omega
  | number _ => exact number_stop o (c :: r)
  | word _ => exact word_stop o (c :: r)
  | other => simp [Place.stop, Nat.add_assoc]

/-- What only the word reader gives, apart from the end of the text, which is given nowhere. -/
def IsWordOrEnd (k : TokenKind) : Prop := k = .eof ∨ ∃ w, k = .keyword w

theorem token_cases (o : Nat) (c : Char) (r : Text) :
    token o c r = word o (c :: r) ∨ ¬ IsWordOrEnd (token o c r).1 := by
  have h := isToken_token o c r
  generalize token o c r = x at h ⊢
  cases h with
  | symbol _ => exact Or.inr nofun
  | quoted f isString hkind _ =>
      obtain ⟨_ | value, p⟩ := quotedText c isString (o + 1) r
      · exact Or.inr nofun
      · rcases hkind with rfl | rfl
        · exact Or.inr nofun
        · exact Or.inr nofun
  | blob _ _ =>
      obtain ⟨_ | bytes, p⟩ := blobBytes (o + 2) (r.drop 1)
      · exact Or.inr nofun
      · exact Or.inr nofun
  | number _ =>
      unfold number integer
      dsimp only
      split
      · split <;> exact Or.inr nofun
      · split <;> exact Or.inr nofun
  | word _ => exact Or.inl rfl
  | other => exact Or.inr nofun

theorem token_ne_eof (o : Nat) (c : Char) (r : Text) : (token o c r).1 ≠ .eof := by
  rcases token_cases o c r with hword | hother
  · rw [hword]
    unfold word
    dsimp only
    split <;> exact nofun
  · exact fun h => hother (Or.inl h)

end SchemaModels.Ddl.Lexer

import SchemaModels.Proofs.Ddl.Spelling

/-!
# Reading by offsets

A text in UTF-8 is read from byte offsets on, and it can be cut only where a character begins. The
readers of `Offsets` know nothing but an offset: each look ahead cuts the text there and fails inside
a character or beyond the end, and so does each cut that takes out a piece of the text. A loop fails
as well when it goes round more often than it is given turns for.

From a place that stands in the text such a reader gives what the one that carries the rest of the
text gives, so that no cut fails: here for blanks and comments (`skip?_eq`).
-/

namespace SchemaModels.Ddl

namespace Offsets

variable (source : Text)

/-- The text from an offset on. -/
abbrev ahead? (o : Nat) : Option Text := Text.dropBytes? o source

/-- The text between two offsets, of which the second may not come first. -/
def between? (start stop : Nat) : Option Text := do
  guard (start ≤ stop)
  let t ← ahead? source start
  Text.takeBytes? (stop - start) t

/-! ### Places -/

variable {source} {o : Nat} {c : Char} {t : Text}

theorem ahead?_eq (h : Place.StandsIn source ⟨o, t⟩) : ahead? source o = some t := by
  obtain ⟨prior, hsource, hoffset⟩ := h
  dsimp only at hsource hoffset
  rw [hsource, hoffset]
  exact Text.dropBytes?_append prior t

theorem standsIn_step (h : Place.StandsIn source ⟨o, c :: t⟩) :
    Place.StandsIn source ⟨o + c.utf8Size, t⟩ :=
  h.of_suffix (List.suffix_cons c t) (by simp [Place.stop, Nat.add_assoc])

theorem standsIn_append {s : Text} (h : Place.StandsIn source ⟨o, s ++ t⟩) :
    Place.StandsIn source ⟨o + Text.byteLength s, t⟩ :=
  h.of_suffix (List.suffix_append s t) (by simp [Place.stop, Nat.add_assoc])

theorem between?_eq {s : Text} (h : Place.StandsIn source ⟨o, s ++ t⟩) :
    between? source o (o + Text.byteLength s) = some s := by
  have hguard : guard (o ≤ o + Text.byteLength s) = some () := if_pos (Nat.le_add_right _ _)
  unfold between?
  rw [hguard, ahead?_eq h, Nat.add_sub_cancel_left]
  exact Text.takeBytes?_append s t

/-! ### Loops over characters -/

variable (source)

/-- The offset behind the next characters with a property. -/
def pass? (p : Char → Bool) : (turns : Nat) → Nat → Option Nat
  | 0, _ => none
  | n + 1, o => do
    match ← ahead? source o with
    | [] => return o
    | c :: _ => if p c then pass? p n (o + c.utf8Size) else return o

variable {source}

theorem pass?_eq (p : Char → Bool) {n : Nat} (h : Place.StandsIn source ⟨o, t⟩)
    (hn : t.length < n) : pass? source p n o = some (o + Text.byteLength (t.takeWhile p)) := by
  induction n generalizing o t with
  | zero => cases hn
  | succ n ih =>
      rw [pass?, ahead?_eq h]
      cases t with
      | nil => rfl
      | cons c t =>
          change (if p c then pass? source p n (o + c.utf8Size) else some o) = _
          split
          · rename_i hc
            rw [List.takeWhile_cons_of_pos hc, Text.byteLength_cons, ← Nat.add_assoc]
            exact ih (standsIn_step h) (Nat.lt_of_succ_lt_succ hn)
          · rename_i hc
            rw [List.takeWhile_cons_of_neg hc]
            rfl

variable (source)

/-- The offset behind the asterisk and the slash that close a comment, or that of the end of the
text with `false`. -/
def closing? : (turns : Nat) → Nat → Option (Bool × Nat)
  | 0, _ => none
  | n + 1, o => do
    match ← ahead? source o with
    | [] => return (false, o)
    | c :: _ =>
      let behind ← ahead? source (o + c.utf8Size)
      if c = '*' ∧ behind.head? = some '/' then return (true, o + c.utf8Size + 1)
      else closing? n (o + c.utf8Size)

variable {source}

theorem closing?_eq (s : Nat) {n : Nat} (h : Place.StandsIn source ⟨o, t⟩) (hn : t.length < n) :
    (closing? source n o = some (false, o + Text.byteLength t) ∧
        Lexer.skip (.block s) o t = .error ⟨s, o + Text.byteLength t⟩) ∨
      ∃ o' r, closing? source n o = some (true, o') ∧ Place.StandsIn source ⟨o', r⟩ ∧
        r.length < t.length ∧ Lexer.skip (.block s) o t = Lexer.skip .blank o' r := by
  induction n generalizing o t with
  | zero => cases hn
  | succ n ih =>
      cases t with
      | nil =>
          rw [closing?, ahead?_eq h]
          exact Or.inl ⟨rfl, rfl⟩
      | cons c t =>
          have hstep := standsIn_step h
          have hturn : closing? source (n + 1) o = if c = '*' ∧ t.head? = some '/' then
              some (true, o + c.utf8Size + 1) else closing? source n (o + c.utf8Size) := by
            rw [closing?, ahead?_eq h]
            change (ahead? source (o + c.utf8Size) >>= _) = _
            rw [ahead?_eq hstep]
            rfl
          rw [hturn, Lexer.skip_block_cons]
          split
          · rename_i hcloses
            obtain ⟨t, rfl⟩ := List.head?_eq_some_iff.1 hcloses.2
            have hlength : t.length < (c :: '/' :: t).length := by
              rw [List.length_cons, List.length_cons]
              omega
            exact Or.inr ⟨_, t, rfl, standsIn_step hstep, hlength, rfl⟩
          · obtain ⟨hclosing, hskip⟩ | ⟨o', r, hclosing, hstands, hlength, hskip⟩ :=
              ih hstep (Nat.lt_of_succ_lt_succ hn)
            · rw [Text.byteLength_cons, ← Nat.add_assoc]
              exact Or.inl ⟨hclosing, hskip⟩
            · exact Or.inr ⟨o', r, hclosing, hstands, Nat.lt_succ_of_lt hlength, hskip⟩

/-! ### Blanks and comments -/

variable (source)

/-- The offset behind a comment, if one begins here, or the span of one that is never closed. -/
def comment? (turns o : Nat) : Option (Except Span (Option Nat)) := do
  match ← ahead? source o with
  | '#' :: _ => (.ok ∘ some) <$> pass? source (· ≠ '\n') turns o
  | '-' :: '-' :: _ =>
    if (← ahead? source (o + 2)).head?.all Text.isBlank then
      (.ok ∘ some) <$> pass? source (· ≠ '\n') turns o
    else return .ok none
  | '/' :: '*' :: _ =>
    match ← closing? source turns (o + 2) with
    | (true, stop) => return .ok (some stop)
    | (false, stop) => return .error ⟨o, stop⟩
  | _ => return .ok none

/-- The offset of the next token, or the span of a comment that is never closed. -/
def skip? : (turns : Nat) → Nat → Option (Except Span Nat)
  | 0, _ => none
  | n + 1, o => do
    let start ← pass? source Text.isBlank (n + 1) o
    match ← comment? source (n + 1) start with
    | .error s => return .error s
    | .ok none => return .ok start
    | .ok (some stop) => skip? n stop

variable {source}

theorem skip_blanks (o : Nat) (t : Text) : Lexer.skip .blank o t =
    Lexer.skip .blank (o + Text.byteLength (t.takeWhile Text.isBlank))
      (t.dropWhile Text.isBlank) := by
  induction t generalizing o with
  | nil => rfl
  | cons c t ih =>
      by_cases hc : Text.isBlank c = true
      · rw [Lexer.skip_blank_cons, if_pos hc, ih, List.takeWhile_cons_of_pos hc,
          List.dropWhile_cons_of_pos hc, Text.byteLength_cons, Nat.add_assoc]
      · rw [List.takeWhile_cons_of_neg hc, List.dropWhile_cons_of_neg hc]
        rfl

theorem skip_comment (o : Nat) (t : Text) : Lexer.skip .line o t =
    Lexer.skip .blank (o + Text.byteLength (t.takeWhile (· ≠ '\n')))
      (t.dropWhile (· ≠ '\n')) := by
  induction t generalizing o with
  | nil => rfl
  | cons c t ih =>
      by_cases hc : c = '\n'
      · subst hc
        rfl
      · rw [Lexer.skip, if_neg hc, ih, List.takeWhile_cons, List.dropWhile_cons,
          if_pos (by simpa using hc), if_pos (by simpa using hc), Text.byteLength_cons,
          Nat.add_assoc]

/-- Where neither a blank nor a comment begins, nothing is skipped. -/
theorem skip_of_opens {o : Nat} {t : Text} (h : ∀ c r, t = c :: r →
    Text.isBlank c = false ∧ Lexer.opensLine c r = false ∧ ¬ (c = '/' ∧ r.head? = some '*')) :
    Lexer.skip .blank o t = .ok ⟨o, t⟩ := by
  cases t with
  | nil => rfl
  | cons c r =>
      obtain ⟨hblank, hline, hblock⟩ := h c r rfl
      rw [Lexer.skip_blank_cons, if_neg (by simp [hblank]), if_neg (by simp [hline]),
        if_neg hblock]

/-- A comment that is opened to the end of its line leaves what follows it. -/
theorem skip_of_opensLine {o : Nat} {c : Char} {r : Text} (hblank : Text.isBlank c = false)
    (hopens : Lexer.opensLine c r = true) : Lexer.skip .blank o (c :: r) =
      Lexer.skip .blank (o + Text.byteLength ((c :: r).takeWhile (· ≠ '\n')))
        ((c :: r).dropWhile (· ≠ '\n')) ∧
      ((c :: r).dropWhile (· ≠ '\n')).length ≤ r.length := by
  have hc : c ≠ '\n' := by
    rintro rfl
    exact absurd hblank (by decide)
  rw [Lexer.skip_blank_cons, if_neg (by simp [hblank]), if_pos hopens, skip_comment,
    List.takeWhile_cons, List.dropWhile_cons, if_pos (by simpa using hc),
    if_pos (by simpa using hc), Text.byteLength_cons, Nat.add_assoc]
  exact ⟨rfl, (List.dropWhile_suffix _).length_le⟩

/-- A comment that is opened to the end of its line ends where the lexer goes on. -/
theorem pass?_of_opensLine {n : Nat} (h : Place.StandsIn source ⟨o, c :: t⟩)
    (hn : (c :: t).length < n) (hblank : Text.isBlank c = false)
    (hopens : Lexer.opensLine c t = true) : ∃ stop r,
      pass? source (· ≠ '\n') n o = some stop ∧ Place.StandsIn source ⟨stop, r⟩ ∧
        r.length < (c :: t).length ∧ Lexer.skip .blank o (c :: t) = Lexer.skip .blank stop r := by
  obtain ⟨hskip, hshorter⟩ := skip_of_opensLine (o := o) hblank hopens
  refine ⟨_, _, pass?_eq _ h hn, standsIn_append ?_, Nat.lt_succ_of_le hshorter, hskip⟩
  rwa [List.takeWhile_append_dropWhile]

/-- What a comment does for the lexer that skips it. -/
theorem comment?_cases {n : Nat} (h : Place.StandsIn source ⟨o, t⟩) (hn : t.length < n)
    (hblank : ∀ c r, t = c :: r → Text.isBlank c = false) :
    (comment? source n o = some (.ok none) ∧ Lexer.skip .blank o t = .ok ⟨o, t⟩) ∨
      (∃ s, comment? source n o = some (.error s) ∧ Lexer.skip .blank o t = .error s) ∨
      ∃ stop r, comment? source n o = some (.ok (some stop)) ∧
        Place.StandsIn source ⟨stop, r⟩ ∧ r.length < t.length ∧
        Lexer.skip .blank o t = Lexer.skip .blank stop r := by
  rw [comment?, ahead?_eq h]
  simp only [Option.bind_eq_bind, Option.bind_some]
  split
  · obtain ⟨stop, r, hpass, hrest⟩ := pass?_of_opensLine h hn rfl rfl
    rw [hpass]
    exact Or.inr (Or.inr ⟨stop, r, rfl, hrest⟩)
  · rename_i r
    have hbehind : Place.StandsIn source ⟨o + 2, r⟩ := standsIn_append (s := ['-', '-']) h
    rw [ahead?_eq hbehind, Option.bind_some]
    split
    · rename_i hends
      obtain ⟨stop, r', hpass, hrest⟩ := pass?_of_opensLine h hn rfl hends
      rw [hpass]
      exact Or.inr (Or.inr ⟨stop, r', rfl, hrest⟩)
    · rename_i hends
      refine Or.inl ⟨rfl, skip_of_opens fun c r' heq => ?_⟩
      cases heq
      exact ⟨rfl, Bool.eq_false_iff.2 hends, nofun⟩
  · rename_i r
    have hbehind : Place.StandsIn source ⟨o + 2, r⟩ := standsIn_append (s := ['/', '*']) h
    have hopening : Lexer.skip .blank o ('/' :: '*' :: r) = Lexer.skip (.block o) (o + 2) r := rfl
    rw [List.length_cons, List.length_cons] at hn
    obtain ⟨hclosing, hskip⟩ | ⟨stop, rest, hclosing, hrest, hshorter, hskip⟩ :=
      closing?_eq o (n := n) hbehind (by omega)
    · rw [hclosing]
      exact Or.inr (Or.inl ⟨_, rfl, hopening.trans hskip⟩)
    · rw [hclosing]
      refine Or.inr (Or.inr ⟨stop, rest, rfl, hrest, ?_, hopening.trans hskip⟩)
      rw [List.length_cons, List.length_cons]
      omega
  · rename_i hsharp hhyphens hopening
    refine Or.inl ⟨rfl, skip_of_opens fun c r heq => ?_⟩
    subst heq
    refine ⟨hblank c r rfl, Bool.eq_false_iff.2 fun hopens => ?_, fun ⟨hslash, hstar⟩ => ?_⟩
    · obtain rfl | ⟨rfl, behind, rfl, -⟩ := Lexer.opensLine_cases hopens
      · exact hsharp r rfl
      · exact hhyphens behind rfl
    · obtain ⟨r, rfl⟩ := List.head?_eq_some_iff.1 hstar
      exact hopening r (by rw [hslash])

theorem skip?_eq {n : Nat} (h : Place.StandsIn source ⟨o, t⟩) (hn : t.length < n) :
    skip? source n o = some ((Lexer.skip .blank o t).map (·.offset)) := by
  induction n generalizing o t with
  | zero => cases hn
  | succ n ih =>
      have hsplit : t.takeWhile Text.isBlank ++ t.dropWhile Text.isBlank = t :=
        List.takeWhile_append_dropWhile
      have hlength := (List.dropWhile_suffix Text.isBlank (l := t)).length_le
      have hblank : ∀ c r, t.dropWhile Text.isBlank = c :: r → Text.isBlank c = false := by
        intro c r heq
        have hhead := List.head?_dropWhile_not Text.isBlank t
        rw [heq] at hhead
        exact hhead
      have hstart := standsIn_append (s := t.takeWhile Text.isBlank) (hsplit.symm ▸ h)
      rw [skip?, pass?_eq Text.isBlank h hn, skip_blanks o t]
      obtain ⟨hcomment, hskip⟩ | ⟨s, hcomment, hskip⟩ | ⟨stop, r, hcomment, hrest, hshorter, hskip⟩ :=
        comment?_cases hstart (Nat.lt_of_le_of_lt hlength hn) hblank
      · rw [hskip]
        change (comment? source (n + 1) _ >>= _) = _
        rw [hcomment]
        rfl
      · rw [hskip]
        change (comment? source (n + 1) _ >>= _) = _
        rw [hcomment]
        rfl
      · rw [hskip]
        change (comment? source (n + 1) _ >>= _) = _
        rw [hcomment]
        exact ih hrest (by omega)

end Offsets

end SchemaModels.Ddl

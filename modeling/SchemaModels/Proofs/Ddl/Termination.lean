import SchemaModels.Proofs.Ddl.Loops

/-!
# Reading comes to an end

No reader depends on a bound. The values inside of a default value are read behind its first token
(`exprWith_of_passes`), and every loop passes a token with each turn. So a source text is read to
its end, with a token for every statement (`parsing_moves_on`).
-/

namespace SchemaModels.Ddl

/-! ### Values inside of values -/

namespace Parse

variable {c : Cursor}

theorem bind_congr_at {p q : Parse α} {f g : α → Parse β} (hp : p c = q c)
    (hf : ∀ a d, p c = .ok a d → f a d = g a d) : (p >>= f) c = (q >>= g) c := by
  cases h : p c with
  | error e d => rw [AgreesAt.bind_error p f h, AgreesAt.bind_error q g (hp ▸ h)]
  | ok a d => rw [AgreesAt.bind_ok p f h, AgreesAt.bind_ok q g (hp ▸ h), hf a d h]

/-- Repetition uses its step from where it begins. -/
theorem many_congr_at {step step' : Parse (Option α)} (hstep : Stepwise step) (hc : c.Lexed)
    (h : ∀ d, Reads true c d → step d = step' d) : many step c = many step' c := by
  induction hn : c.ahead.length using Nat.strongRecOn generalizing c with
  | ind n ih =>
    have hfirst := h c (.refl true c)
    cases hs : step c with
    | error e d => rw [many_of_error hs, many_of_error (hfirst ▸ hs)]
    | ok x d =>
      cases x with
      | none => rw [many_of_none hs, many_of_none (hfirst ▸ hs)]
      | some a =>
        by_cases hlt : d.ahead.length < c.ahead.length
        · have hreads := hstep.reads hc hs
          rw [many_of_some hs hlt, many_of_some (hfirst ▸ hs) hlt,
            ih _ (hn ▸ hlt) (hc.of_reads hreads) (fun e he => h e (hreads.trans he)) rfl]
        · rw [many_of_stuck hs hlt, many_of_stuck (hfirst ▸ hs) hlt]

theorem commaSeparated_congr_at {item item' : Parse α} (hitem : Stepwise item) (hc : c.Lexed)
    (h : ∀ d, Reads true c d → item d = item' d) :
    commaSeparated item c = commaSeparated item' c := by
  refine bind_congr_at (h c (.refl true c)) fun a d ha => ?_
  have hreads := hitem.reads hc ha
  have hcommas : Stepwise (do if ← acceptSymbol .comma then some <$> item else return none) :=
    (Stepwise.accept _).bind fun _ => .ite (hitem.map some) (.pure none)
  refine bind_congr_at (many_congr_at hcommas (hc.of_reads hreads) fun e he => ?_) fun _ _ _ => rfl
  refine bind_congr_at rfl fun present f hf => ?_
  have hreads' := hreads.trans (he.trans
    ((Stepwise.accept _).reads (hc.of_reads (hreads.trans he)) hf))
  cases present with
  | false => rfl
  | true =>
    have hsame := h f hreads'
    show EStateM.map some item f = EStateM.map some item' f
    rw [EStateM.map, EStateM.map, hsame]

theorem arguments_congr_at {argument argument' : Parse Expr} (hargument : Stepwise argument)
    (hc : c.Lexed) (h : ∀ d, Reads true c d → argument d = argument' d) :
    arguments argument c = arguments argument' c := by
  refine bind_congr_at rfl fun _ d hd => bind_congr_at ?_ fun _ _ _ => rfl
  have hreads := (Stepwise.expectSymbol _).reads hc hd
  refine bind_congr_at rfl fun close e he => ?_
  have hreads' := hreads.trans ((Stepwise.at? _).reads (hc.of_reads hreads) he)
  cases close with
  | true => rfl
  | false =>
    exact commaSeparated_congr_at hargument (hc.of_reads hreads') fun f hf =>
      h f (hreads'.trans hf)

theorem wordExpr_congr_at {argument argument' : Parse Expr} {word : Text}
    (hargument : Stepwise argument) (hc : c.Lexed)
    (h : ∀ d, Reads true c d → argument d = argument' d) :
    wordExpr argument word c = wordExpr argument' word c := by
  refine bind_congr_at rfl fun k d hd => ?_
  obtain ⟨-, rfl⟩ : c.current.kind = k ∧ c = d := by
    cases hd
    exact ⟨rfl, rfl⟩
  split
  · rfl
  · exact bind_congr_at (arguments_congr_at hargument hc h) fun _ _ _ => rfl
  · rfl

/-- The values inside of a value are read behind its first token. -/
theorem exprWith_congr_at {argument argument' : Parse Expr} (hargument : Stepwise argument)
    (hc : c.Lexed) (h : ∀ d, c.Passes d → argument d = argument' d) :
    exprWith argument c = exprWith argument' c := by
  have hword (word : Text) (hk : c.current.kind = .identifier word) :
      withSource (do advance; wordExpr argument word) c =
        withSource (do advance; wordExpr argument' word) c := by
    have hpasses : c.Passes c.advance := .advance (by rw [hk]; exact nofun)
    have hsame : (do advance; wordExpr argument word : Parse Expr) c =
        (do advance; wordExpr argument' word : Parse Expr) c :=
      bind_congr_at rfl fun _ d hd => by
        cases hd
        exact wordExpr_congr_at hargument (hc.of_reads hpasses.reads) fun d hd =>
          h d (hpasses.trans_reads hd)
    rw [withSource, withSource, hsame]
  refine bind_congr_at rfl fun k d hd => ?_
  obtain ⟨hk, rfl⟩ : c.current.kind = k ∧ c = d := by
    cases hd
    exact ⟨rfl, rfl⟩
  cases k.literal? with
  | some l => rfl
  | none =>
    dsimp only
    split
    · rfl
    · rfl
    · rfl
    · exact bind_congr_at (hword _ hk) fun _ _ _ => rfl
    · rfl

/-- What reads the values inside of a value matters behind its first token only. -/
theorem exprWith_of_passes {argument : Parse Expr} (hc : c.Lexed)
    (h : ∀ d, c.Passes d → argument d = expr d) : exprWith argument c = expr c := by
  have hsame {argument' : Parse Expr} (h' : ∀ d, c.Passes d → argument' d = expr d) :
      exprWith argument' c = exprWith expr c :=
    (exprWith_congr_at .expr hc fun d hd => (h' d hd).symm).symm
  rw [hsame h, expr_eq]
  exact (hsame fun d hd => if_pos hd.length_lt).symm

/-! ### A whole source text -/

/-- A repetition yields at most as many results as there are tokens. -/
theorem length_le_of_many {step : Parse (Option α)}
    (hpasses : ∀ c, PassesAt step (fun a => a.isSome = true) c) {as : List α} {d : Cursor}
    (hc : c.Lexed) (h : many step c = .ok as d) : as.length ≤ c.ahead.length := by
  induction hn : c.ahead.length using Nat.strongRecOn generalizing c as with
  | ind n ih =>
    obtain ⟨-, rfl⟩ | ⟨a, hs, hstuck, -⟩ | ⟨a, e, as', hs, hlt, hrest, rfl⟩ := many_cases h
    · exact Nat.zero_le n
    · exact absurd (hpasses c hc _ _ hs rfl).length_lt hstuck
    · have hreads := (hpasses c hc _ _ hs rfl).reads
      have hle := ih _ (hn ▸ hlt) (hc.of_reads hreads) hrest rfl
      exact Nat.lt_of_le_of_lt hle (hn ▸ hlt)

end Parse

/-- From the tokens of a source text or the last ones of them, a statement moves forward, and over
one token at least where it succeeds and the text has not ended. Every turn of a loop that goes on
passes a token, so that the loops end without a bound. A default value passes a token, and values
inside of it are read behind its first one. So a source text has at most as many statements as it
has tokens. -/
theorem parsing_moves_on (defaults : TableDefaults) :
    (∀ c : Cursor, c.Lexed →
      (∀ s d, Parse.statement defaults c = .ok s d →
        Reads true c d ∧ (c.current.kind ≠ .eof → c.Passes d)) ∧
      ∀ e d, Parse.statement defaults c = .error e d → Reads true c d) ∧
    (∀ {σ α : Type} (l : Loop σ α), IsLoop defaults l → l.Progresses ∧ l.Ends) ∧
    (∀ c : Cursor, c.Lexed →
      (∀ e d, Parse.expr c = .ok e d → c.Passes d) ∧
      ∀ argument : Parse Expr, (∀ d, c.Passes d → argument d = Parse.expr d) →
        Parse.exprWith argument c = Parse.expr c) ∧
    ∀ source, (∃ n ≤ (lexemes source).length,
        (Loop.repeated (Parse.statement? defaults)).Runs n (.ofSource source, [])
          (Parse.statements defaults (.ofSource source))) ∧
      ∀ ss, parse defaults source = .ok ss → ss.length ≤ (lexemes source).length := by
  have hloops : ∀ {σ α : Type} (l : Loop σ α), IsLoop defaults l → l.Progresses ∧ l.Ends := by
    intro σ α l hl
    obtain ⟨value, hvalue⟩ := hl.keeps
    exact ⟨hvalue.progresses, hvalue.ends⟩
  refine ⟨fun c hc => ⟨fun s d h => ⟨?_, fun heof => ?_⟩, fun e d h => ?_⟩, hloops,
    fun c hc => ⟨fun e d h => ?_, fun argument h => ?_⟩, fun source => ⟨?_, fun ss h => ?_⟩⟩
  · exact (Stepwise.statement defaults).reads hc h
  · exact Parse.passesAt_statement heof hc s d h trivial
  · exact (((Stepwise.statement defaults).blames c).blames hc.inside h).1
  · exact Parse.passesAt_expr hc e d h trivial
  · exact Parse.exprWith_of_passes hc h
  · exact (hloops _ .statements).2 _ (.ofSource source)
  · cases hstatements : Parse.statements defaults (.ofSource source) with
    | error e d =>
      rw [parse, hstatements] at h
      cases h
    | ok ss' d =>
      rw [parse, hstatements] at h
      cases h
      exact Parse.length_le_of_many (fun _ => Parse.passesAt_statement?) (.ofSource source)
        hstatements

/-- A statement that is left out, and a table with calls in a default value. -/
def callText : Text := "DROP t; CREATE TABLE t (a INT DEFAULT f(1, g()))"

theorem parsing_moves_on_callText :
    (Cursor.ofSource callText).Lexed ∧ (Cursor.ofSource callText).current.kind ≠ .eof ∧
      (∃ s d, Parse.statement {} (.ofSource callText) = .ok s d ∧
        (Cursor.ofSource callText).Passes d) ∧
      (Loop.repeated (Parse.statement? {})).Ends ∧
      parse {} callText = .ok [.other, .createTable
        { name := "t", columns := [⟨"a", { dataType := .sized .int none },
          [.default (.call "f" [.literal (.integer 1), .call "g" []])]⟩] }] ∧
      2 ≤ (lexemes callText).length := by
  have hlexed := Cursor.Lexed.ofSource callText
  have heof : (Cursor.ofSource callText).current.kind ≠ .eof := by decide +kernel
  have hok : (match Parse.statement {} (.ofSource callText) with
      | .ok _ _ => true
      | .error _ _ => false) = true := by decide +kernel
  have hparse : parse {} callText = .ok [.other, .createTable
      { name := "t", columns := [⟨"a", { dataType := .sized .int none },
        [.default (.call "f" [.literal (.integer 1), .call "g" []])]⟩] }] := by decide +kernel
  obtain ⟨hstatement, hloops, -, hall⟩ := parsing_moves_on {}
  refine ⟨hlexed, heof, ?_, (hloops _ .statements).2, hparse, (hall callText).2 _ hparse⟩
  cases h : Parse.statement {} (.ofSource callText) with
  | error e d =>
    rw [h] at hok
    cases hok
  | ok s d => exact ⟨s, d, rfl, ((hstatement _ hlexed).1 s d h).2 heof⟩

end SchemaModels.Ddl

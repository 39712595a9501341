import SchemaModels.Proofs.Ddl.StatementRuns

/-!
# Locality of statements

A source text that parses gives the same statements in front of another one, with a semicolon on a
line of its own between them. The statements of the second text, or its error, follow from that text
alone, except that an error stands further behind.
-/

namespace SchemaModels.Ddl

namespace Parse

variable {c d : Cursor} {defaults : TableDefaults} {ss : List Statement}

theorem Run.endsPlain (h : Run defaults c ss) (hc : c.Inside) : EndsPlain c.ahead := by
  induction h with
  | done h => exact h ▸ endsPlain_nil
  | semicolon h rest ih =>
      have hne := Cursor.ahead_ne_nil (by rw [h]; exact nofun)
      have hreads : Reads false _ _ := .advance hne (by rw [h]; exact nofun)
      exact hreads.endsPlain rfl (ih (inside_advance hc))
  | statement heof hsemicolon h rest ih =>
      obtain ⟨hreads, -⟩ := endsAt_statement (w := .before [] default []) id hc _ _ h
      exact hreads.endsPlain rfl (ih (hreads.inside hc))

section Before

variable {later : Text} {span : Span} {ts : List Token}

theorem reads_before (h : Reads true c d) :
    Reads true ((Surroundings.before later span ts).cursor c)
      ((Surroundings.before later span ts).cursor d) := by
  refine ⟨congrArg (· ++ later) h.source_eq, ?_, nofun⟩
  obtain ⟨us, hus⟩ := h.suffix
  exact ⟨us, by simp [Surroundings.cursor, ← hus]⟩

/-- A run goes on behind the semicolon at which its source text ends. -/
theorem Run.before (h : Run defaults c ss) (hc : c.Inside)
    (hlater : ((Surroundings.before later span ts).cursor c).Inside) :
    statements defaults ((Surroundings.before later span ts).cursor c) =
      prepend ss (statements defaults ⟨c.source ++ later, ts⟩) := by
  have hw : ¬ (Surroundings.before later span ts).SharesEnd := id
  induction h with
  | done h =>
      rw [prepend_nil, statements_of_semicolon hlater (Surroundings.kind_current_of_nil hw h)]
      simp [Surroundings.cursor, Cursor.advance, h]
  | semicolon h rest ih =>
      rename_i c ss
      have hne : c.ahead ≠ [] := Cursor.ahead_ne_nil (by simp [h])
      have hkind := Surroundings.kind_current (w := .before later span ts) (Or.inr hne)
      have hadvance := Surroundings.cursor_advance (w := .before later span ts) (Or.inr hne)
      rw [statements_of_semicolon hlater (hkind.trans h), ← hadvance]
      exact ih (inside_advance hc) (hadvance ▸ inside_advance hlater)
  | statement heof hsemicolon h rest ih =>
      rename_i c d s ss
      have hne := Cursor.ahead_ne_nil heof
      have hkind := Surroundings.kind_current (w := .before later span ts) (Or.inr hne)
      obtain ⟨hreads, hstatement⟩ := endsAt_statement hw hc s d h
      have hd := ih (hreads.inside hc) ((reads_before hreads.toBlind).inside hlater)
      have hfirst : statements defaults ((Surroundings.before later span ts).cursor c) =
          prepend [s] (statements defaults ((Surroundings.before later span ts).cursor d)) := by
        obtain hok | ⟨hnil, hok⟩ := hstatement
        · exact statements_of_ok hlater (hkind ▸ heof) (hkind ▸ hsemicolon) hok
        · rw [statements_of_ok hlater (hkind ▸ heof) (hkind ▸ hsemicolon) hok]
          rw [statements_of_semicolon ((reads_before hreads.toBlind).inside hlater)
            (Surroundings.kind_current_of_nil hw hnil)]
      rw [hfirst, hd, prepend_prepend, hreads.source_eq]
      rfl

end Before

end Parse

open Parse

variable {defaults : TableDefaults} {a b : Text} {ss : List Statement}

theorem run_of_parse (h : parse defaults a = .ok ss) : Run defaults (.ofSource a) ss := by
  unfold parse at h
  cases hs : statements defaults (.ofSource a) with
  | error e d =>
      rw [hs] at h
      cases h
  | ok ss' d =>
      rw [hs] at h
      cases h
      exact run_of_statements (Cursor.inside_ofSource a) hs

theorem byteLength_separator (a : Text) :
    Text.byteLength (a ++ "\n;\n") = Text.byteLength a + 3 := by
  rw [Text.byteLength_append]
  rfl

/-- The run of a text that parses goes on with the other text behind the semicolon. -/
theorem statements_separated (h : parse defaults a = .ok ss) (b : Text) :
    statements defaults (.ofSource (a ++ "\n;\n" ++ b)) =
      prepend ss (statements defaults
        ((Surroundings.behind (a ++ "\n;\n")).cursor (.ofSource b))) := by
  have hrun := run_of_parse h
  have hlexemes := lexemes_separated (hrun.endsPlain (Cursor.inside_ofSource a)) b
  let span : Span := ⟨Text.byteLength a + 1, Text.byteLength a + 2⟩
  let ts := (lexemes b).map (Token.shift (Text.byteLength a + 3))
  have hbefore : Cursor.ofSource (a ++ "\n;\n" ++ b) =
      (Surroundings.before ("\n;\n" ++ b) span ts).cursor (.ofSource a) := by
    unfold Cursor.ofSource
    rw [hlexemes, List.append_assoc]
    rfl
  have hbehind : (Surroundings.behind (a ++ "\n;\n")).cursor (.ofSource b) =
      ⟨a ++ ("\n;\n" ++ b), ts⟩ := by
    rw [← List.append_assoc, Surroundings.cursor, byteLength_separator]
    rfl
  rw [hbehind, hbefore]
  exact hrun.before (Cursor.inside_ofSource a) (hbefore ▸ Cursor.inside_ofSource _)

/-- The statements of both texts, or the error of the second one. That error has the same cause, and
so the same message, and only its position is moved by the text in front. -/
theorem parse_separated (h : parse defaults a = .ok ss) :
    parse defaults (a ++ "\n;\n" ++ b) =
      match parse defaults b with
      | .ok ss' => .ok (ss ++ ss')
      | .error e => .error ⟨e.cause,
          ⟨e.span.start + (Text.byteLength a + 3), e.span.stop + (Text.byteLength a + 3)⟩⟩ := by
  have hstatements := statements_separated h b
  have hagrees : AgreesAt (.behind (a ++ "\n;\n")) true (statements defaults) (statements defaults)
      (.ofSource b) := agreesAt_statements trivial
  have hinside := Cursor.inside_ofSource b
  unfold parse
  rw [hstatements]
  cases hb : statements defaults (.ofSource b) with
  | ok ss' d =>
      rw [hagrees.eq_ok hinside hb (Or.inl trivial)]
      rfl
  | error e d =>
      rw [hagrees.eq_error hinside hb trivial, Surroundings.error, byteLength_separator]
      rfl

/-- A comment or a partition clause at the end of the first text does not reach beyond it. -/
theorem parse_separated_of_partition :
    parse {} "CREATE TABLE t (a int) PARTITION BY HASH(a) -- ;" = .ok [.createTable
      { name := "t", columns := [⟨"a", { dataType := .sized .int none }, []⟩],
        options := [.other "PARTITION" "BY HASH(a)"] }] ∧
    parse {} "CREATE TABLE LIKE" = .error ⟨.unexpected (.symbol .leftParen) .eof, ⟨17, 17⟩⟩ ∧
    parse {} ("CREATE TABLE t (a int) PARTITION BY HASH(a) -- ;" ++ "\n;\n" ++
        "CREATE TABLE LIKE") =
      .error ⟨.unexpected (.symbol .leftParen) .eof, ⟨68, 68⟩⟩ := by
  have hfirst : parse {} "CREATE TABLE t (a int) PARTITION BY HASH(a) -- ;" = .ok [.createTable
      { name := "t", columns := [⟨"a", { dataType := .sized .int none }, []⟩],
        options := [.other "PARTITION" "BY HASH(a)"] }] := by decide +kernel
  have hsecond : parse {} "CREATE TABLE LIKE" =
      .error ⟨.unexpected (.symbol .leftParen) .eof, ⟨17, 17⟩⟩ := by decide +kernel
  refine ⟨hfirst, hsecond, ?_⟩
  rw [parse_separated hfirst, hsecond]
  rfl

end SchemaModels.Ddl

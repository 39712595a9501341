import SchemaModels.Proofs.Ddl.ParsedTables
import SchemaModels.Proofs.Ddl.SingleColumn

/-!
# Reported types

The type of a column is reported as text. That text declares the same type again, with truth values
as numbers of one digit, if the members of an enumeration can be read as they are written: only
their quotes are doubled, while the lexer takes a backslash together with the character behind it.
It keeps the two only where that character is a wildcard of patterns (`quotedText_memberText_iff`).
-/

namespace SchemaModels.Ddl

open Lexer (quotedText push unescape)

/-! ### Members -/

/-- Every backslash stands before a wildcard of patterns. -/
def EscapesWildcards (m : Text) : Prop :=
  ∀ a b, m = a ++ '\\' :: b → b.head? = some '%' ∨ b.head? = some '_'

theorem EscapesWildcards.nil : EscapesWildcards [] := by
  intro a b h
  simp at h

theorem escapesWildcards_cons {c : Char} {m : Text} (hc : c ≠ '\\') :
    EscapesWildcards (c :: m) ↔ EscapesWildcards m := by
  constructor
  · intro h a b hm
    exact h (c :: a) b (by rw [hm, List.cons_append])
  · rintro h (_ | ⟨d, a⟩) b hm
    · exact absurd (List.cons.inj hm).1 hc
    · exact h a b (List.cons.inj hm).2

theorem escapesWildcards_escape {d : Char} {m : Text} :
    EscapesWildcards ('\\' :: d :: m) ↔ (d = '%' ∨ d = '_') ∧ EscapesWildcards m := by
  constructor
  · intro h
    refine ⟨by simpa using h [] (d :: m) rfl, fun a b hm => ?_⟩
    exact h ('\\' :: d :: a) b (by rw [hm]; rfl)
  · rintro ⟨hd, h⟩ (_ | ⟨c, _ | ⟨c', a⟩⟩) b hm
    · obtain rfl := (List.cons.inj hm).2
      simpa using hd
    · obtain rfl := (List.cons.inj (List.cons.inj hm).2).1
      simp at hd
    · exact h a b (List.cons.inj (List.cons.inj hm).2).2

theorem not_escapesWildcards_backslash : ¬ EscapesWildcards ['\\'] := by
  intro h
  simpa using h [] [] rfl

section Quoted

variable {o : Nat} {m r u : Text}

theorem quotedText_doubledQuote : quotedText '\'' true o ('\'' :: '\'' :: r) =
    push ['\''] (quotedText '\'' true (o + 1 + 1) r) := by
  simp [quotedText]
  rfl

theorem quotedText_escape {d : Char} : quotedText '\'' true o ('\\' :: d :: r) =
    push (unescape d) (quotedText '\'' true (o + 1 + d.utf8Size) r) := by
  simp [quotedText]
  rfl

theorem quotedText_plain {c : Char} (hquote : c ≠ '\'') (hescape : c ≠ '\\') (hr : r ≠ []) :
    quotedText '\'' true o (c :: r) = push [c] (quotedText '\'' true (o + c.utf8Size) r) := by
  obtain ⟨d, r, rfl⟩ := List.exists_cons_of_ne_nil hr
  simp [quotedText, hquote, hescape]

theorem quotedText_closing (hu : u.head? ≠ some '\'') :
    quotedText '\'' true o ('\'' :: u) = (some [], ⟨o + 1, u⟩) := by
  cases u with
  | nil =>
    simp [quotedText]
    rfl
  | cons d u =>
    have hd : d ≠ '\'' := fun h => hu (by rw [h]; rfl)
    simp [quotedText, hd]
    rfl

/-- The text of a member, from behind its opening quote. -/
def memberText (m u : Text) : Text := doubled ['\''] m ++ '\'' :: u

theorem memberText_quote : memberText ('\'' :: m) u = '\'' :: '\'' :: memberText m u := rfl

theorem memberText_cons {c : Char} (hc : c ≠ '\'') :
    memberText (c :: m) u = c :: memberText m u := by
  simp [memberText, doubled, hc]

theorem memberText_ne_nil : memberText m u ≠ [] := by simp [memberText]

/-- Where backslashes stand before wildcards only, a member is read as it was. -/
theorem quotedText_memberText (hu : u.head? ≠ some '\'') (hm : EscapesWildcards m) :
    (quotedText '\'' true o (memberText m u)).1 = some m ∧
      (quotedText '\'' true o (memberText m u)).2.rest = u := by
  induction hn : m.length using Nat.strongRecOn generalizing m o with
  | ind n ih =>
    subst hn
    cases m with
    | nil =>
      have hclosing : quotedText '\'' true o (memberText [] u) = (some [], ⟨o + 1, u⟩) :=
        quotedText_closing hu
      rw [hclosing]
      exact ⟨rfl, rfl⟩
    | cons c m =>
      by_cases hquote : c = '\''
      · subst hquote
        obtain ⟨hvalue, hrest⟩ := ih m.length (by simp)
          (o := o + 1 + 1) ((escapesWildcards_cons (by decide)).1 hm) rfl
        rw [memberText_quote, quotedText_doubledQuote]
        simp [push, hvalue, hrest]
      by_cases hescape : c = '\\'
      · subst hescape
        cases m with
        | nil => exact absurd hm not_escapesWildcards_backslash
        | cons d m =>
          obtain ⟨hd, hm⟩ := escapesWildcards_escape.1 hm
          have hplain : d ≠ '\'' ∧ unescape d = ['\\', d] := by
            rcases hd with rfl | rfl <;> decide
          obtain ⟨hvalue, hrest⟩ := ih m.length (by simp only [List.length_cons]; omega)
            (o := o + 1 + d.utf8Size) hm rfl
          rw [memberText_cons hquote, memberText_cons hplain.1, quotedText_escape, hplain.2]
          simp [push, hvalue, hrest]
      · obtain ⟨hvalue, hrest⟩ := ih m.length (by simp)
          (o := o + c.utf8Size) ((escapesWildcards_cons hescape).1 hm) rfl
        rw [memberText_cons hquote, quotedText_plain hquote hescape memberText_ne_nil]
        simp [push, hvalue, hrest]

theorem unescape_ne_backslash {d : Char} (hd : d ≠ '\\') (h : d ≠ '%' ∧ d ≠ '_') :
    ∃ e, unescape d = [e] ∧ e ≠ '\\' := by
  unfold unescape
  split
  all_goals first
    | exact ⟨_, rfl, by decide⟩
    | exact absurd rfl h.1
    | exact absurd rfl h.2
    | exact ⟨_, rfl, hd⟩

theorem push_fst_eq_some {cs v : Text} {x : Option Text × Place} :
    (push cs x).1 = some v ↔ ∃ w, x.1 = some w ∧ cs ++ w = v := by
  obtain ⟨y, p⟩ := x
  exact Option.map_eq_some_iff

theorem replicate_append_cons {c : Char} (k : Nat) (t : Text) :
    List.replicate k c ++ c :: t = c :: (List.replicate k c ++ t) := by
  rw [← List.cons_append, ← List.replicate_succ, List.replicate_succ', List.append_assoc]
  rfl

/-- What begins with another character has none of these in front. -/
theorem of_cons_eq_replicate_append {c e : Char} {k : Nat} {t w : Text} (he : e ≠ c)
    (h : e :: w = List.replicate k c ++ e :: t) : k = 0 ∧ w = t := by
  cases k with
  | zero => exact ⟨rfl, (List.cons.inj h).2⟩
  | succ k => exact absurd (List.cons.inj h).1 he

theorem cons_ne_replicate_append {c e : Char} (k : Nat) {t w : Text} (he : e ≠ c) :
    e :: w ≠ List.replicate k c ++ c :: t := by
  rw [replicate_append_cons]
  exact fun h => he (List.cons.inj h).1

/-- A backslash that is read as it was stands before a wildcard. Before another backslash it is
lost, and is made up for only if there is one more in front. -/
theorem backslash_cases {k : Nat}
    (h : (quotedText '\'' true o (memberText ('\\' :: m) u)).1 =
      some (List.replicate k '\\' ++ '\\' :: m)) :
    ∃ d m', m = d :: m' ∧
      ((d = '\\' ∧ (quotedText '\'' true (o + 1 + d.utf8Size) (memberText m' u)).1 =
          some (List.replicate (k + 1) '\\' ++ m')) ∨
        ((d = '%' ∨ d = '_') ∧ k = 0 ∧
          (quotedText '\'' true (o + 1 + d.utf8Size) (memberText m' u)).1 = some m')) := by
  have hlost {e : Char} (he : e ≠ '\\') (w : Text) := cons_ne_replicate_append k (t := m) (w := w) he
  rw [memberText_cons (by decide)] at h
  cases m with
  | nil =>
    have htext : memberText [] u = '\'' :: u := rfl
    rw [htext, quotedText_escape, push_fst_eq_some] at h
    obtain ⟨w, -, heq⟩ := h
    exact absurd heq (hlost (by decide) w)
  | cons d m =>
    refine ⟨d, m, rfl, ?_⟩
    by_cases hd : d = '\''
    · subst hd
      rw [memberText_quote, quotedText_escape, push_fst_eq_some] at h
      obtain ⟨w, -, heq⟩ := h
      exact absurd heq (hlost (by decide) w)
    rw [memberText_cons hd, quotedText_escape, push_fst_eq_some] at h
    obtain ⟨w, hw, heq⟩ := h
    by_cases hbackslash : d = '\\'
    · subst hbackslash
      rw [replicate_append_cons, replicate_append_cons] at heq
      have hrest : w = List.replicate (k + 1) '\\' ++ m := (List.cons.inj heq).2
      exact Or.inl ⟨rfl, hrest ▸ hw⟩
    by_cases hwild : d = '%' ∨ d = '_'
    · have hkept : unescape d = ['\\', d] := by
        rcases hwild with rfl | rfl <;> decide
      rw [hkept, replicate_append_cons] at heq
      obtain ⟨rfl, rfl⟩ := of_cons_eq_replicate_append hbackslash (List.cons.inj heq).2
      exact Or.inr ⟨hwild, rfl, hw⟩
    · obtain ⟨e, he, hne⟩ := unescape_ne_backslash hbackslash (not_or.1 hwild)
      rw [he] at heq
      exact absurd heq (hlost hne w)

/-- A backslash that is lost leaves too few of them, however many stand in front. -/
theorem eq_zero_of_quotedText (hu : u.head? ≠ some '\'') {k : Nat}
    (h : (quotedText '\'' true o (memberText m u)).1 = some (List.replicate k '\\' ++ m)) :
    k = 0 ∧ EscapesWildcards m := by
  induction hn : m.length using Nat.strongRecOn generalizing m o k with
  | ind n ih =>
    subst hn
    cases m with
    | nil =>
      have hclosing : quotedText '\'' true o (memberText [] u) = (some [], ⟨o + 1, u⟩) :=
        quotedText_closing hu
      rw [hclosing] at h
      simpa [EscapesWildcards.nil] using (Option.some.inj h).symm
    | cons c m =>
      by_cases hquote : c = '\''
      · subst hquote
        rw [memberText_quote, quotedText_doubledQuote, push_fst_eq_some] at h
        obtain ⟨w, hw, heq⟩ := h
        obtain ⟨rfl, rfl⟩ := of_cons_eq_replicate_append (by decide) heq
        exact ⟨rfl, (escapesWildcards_cons (by decide)).2 (ih _ (by simp) (k := 0) hw rfl).2⟩
      by_cases hescape : c = '\\'
      · subst hescape
        obtain ⟨d, m, rfl, ⟨rfl, hrest⟩ | ⟨hwild, rfl, hrest⟩⟩ := backslash_cases h
        · have hshorter := ih m.length (Nat.lt_succ_of_lt (Nat.lt_succ_self _)) hrest rfl
          exact absurd hshorter.1 (Nat.succ_ne_zero k)
        · have hshorter :=
            ih m.length (Nat.lt_succ_of_lt (Nat.lt_succ_self _)) (k := 0) hrest rfl
          exact ⟨rfl, escapesWildcards_escape.2 ⟨hwild, hshorter.2⟩⟩
      · rw [memberText_cons hquote, quotedText_plain hquote hescape memberText_ne_nil,
          push_fst_eq_some] at h
        obtain ⟨w, hw, heq⟩ := h
        obtain ⟨rfl, rfl⟩ := of_cons_eq_replicate_append hescape heq
        exact ⟨rfl, (escapesWildcards_cons hescape).2 (ih _ (by simp) (k := 0) hw rfl).2⟩

/-- A member is read as it was exactly if backslashes stand before wildcards only. -/
theorem quotedText_memberText_iff (hu : u.head? ≠ some '\'') :
    (quotedText '\'' true o (memberText m u)).1 = some m ↔ EscapesWildcards m :=
  ⟨fun h => (eq_zero_of_quotedText hu (k := 0) h).2, fun h => (quotedText_memberText hu h).1⟩

end Quoted

theorem member_eq (m : Text) : DataType.member m = '\'' :: memberText m [] := by
  have hdoubled : doubled ['\''] m = m.flatMap fun c => if c = '\'' then ['\'', '\''] else [c] := by
    refine congrArg m.flatMap (funext fun c => ?_)
    by_cases hc : c = '\''
    · rw [hc]
      rfl
    · simp [hc]
  rw [memberText, hdoubled]
  rfl

theorem spells_member {m : Text} (h : EscapesWildcards m) :
    Spells (DataType.member m) [.string m] := by
  obtain ⟨hvalue, hrest⟩ := quotedText_memberText (o := 1) (u := []) nofun h
  have htoken := (token_quote (memberText m [])).trans (closed_of_some hvalue)
  rw [member_eq]
  exact spells_token (begins_of_not_mem rfl (by decide)) htoken hrest nofun

/-- A member that is read as it was has its backslashes before wildcards only. -/
theorem escapesWildcards_of_kindsOf {m u : Text} {ks : List TokenKind} (hu : u.head? ≠ some '\'')
    (h : kindsOf (DataType.member m ++ u) = .string m :: ks) :
    EscapesWildcards m ∧ kindsOf u = ks := by
  have htext : DataType.member m ++ u = '\'' :: memberText m u := by
    rw [member_eq, memberText, memberText, List.cons_append, List.append_assoc]
    rfl
  rw [htext, kindsOf_token (begins_of_not_mem rfl (by decide) _) (Lexer.token_ne_eof 0 _ _),
    token_quote] at h
  obtain ⟨hkind, hrest⟩ := List.cons.inj h
  have hvalue : (quotedText '\'' true 1 (memberText m u)).1 = some m := by
    generalize quotedText '\'' true 1 (memberText m u) = x at hkind
    obtain ⟨_ | value, p⟩ := x
    · cases hkind
    · cases hkind
      rfl
  have hm := (quotedText_memberText_iff hu).1 hvalue
  rw [closed_of_some hvalue, (quotedText_memberText hu hm).2] at hrest
  exact ⟨hm, hrest⟩

theorem escapesWildcards_of_members {ms : List Text} {u : Text} {ks : List TokenKind}
    (hu : u.head? ≠ some '\'')
    (h : kindsOf (Text.join "," (ms.map DataType.member) ++ u) =
      separatedKinds (ms.map fun m => [.string m]) ++ ks) : ∀ m ∈ ms, EscapesWildcards m := by
  induction ms with
  | nil => exact nofun
  | cons m ms ih =>
    cases ms with
    | nil =>
      exact List.forall_mem_singleton.2 (escapesWildcards_of_kindsOf hu h).1
    | cons m' ms =>
      have htext : Text.join "," ((m :: m' :: ms).map DataType.member) ++ u =
          DataType.member m ++ ',' :: (Text.join "," ((m' :: ms).map DataType.member) ++ u) := by
        simp [Text.join]
      rw [htext] at h
      obtain ⟨hm, hrest⟩ := escapesWildcards_of_kindsOf (by simp) h
      have hcomma := kindsOf_symbol (c := ',')
        (begins_of_not_mem rfl (by decide) (Text.join "," ((m' :: ms).map DataType.member) ++ u))
        (by decide) rfl
      rw [hcomma] at hrest
      exact List.forall_mem_cons.2 ⟨hm, ih (List.cons.inj hrest).2⟩

/-! ### Types -/

/-- The members of an enumeration. -/
def DataType.members : DataType → List Text
  | .enum ms | .set ms => ms
  | _ => []

/-- The type that a reported type declares: a truth value is a number of one digit. -/
def DataType.readBack : DataType → DataType
  | .plain .boolean => .sized .tinyint (some 1)
  | t => t

theorem DataType.members_readBack (t : DataType) : t.readBack.members = t.members := by
  cases t with
  | plain k => cases k <;> rfl
  | _ => rfl

/-- The type that a reported type declares: a number filled with zeros has no sign. -/
def FieldType.readBack (t : FieldType) : FieldType where
  dataType := t.dataType.readBack
  unsigned := t.unsigned || t.zerofill
  zerofill := t.zerofill

variable {t : DataType}

theorem DataType.IsParsed.isCanonical_readBack (h : t.IsParsed) (hcustom : ∀ d, t ≠ .custom d) :
    t.readBack.IsCanonical := by
  cases t with
  | sized k w => exact trivial
  | precise k p s => exact h
  | plain k => cases k <;> first | exact trivial | exact nofun
  | enum ms => exact h
  | set ms => exact h
  | custom d => exact absurd rfl (hcustom d)

theorem spells_declaration (h : t.IsParsed) (hcustom : ∀ d, t ≠ .custom d)
    (hmembers : ∀ m ∈ t.members, EscapesWildcards m) :
    Spells t.declaration t.readBack.kinds := by
  have hcanonical := h.isCanonical_readBack hcustom
  cases t with
  | sized k w => exact spells_dataType hcanonical
  | precise k p s => exact spells_dataType hcanonical
  | plain k =>
    have hspells := spells_dataType hcanonical
    cases k with
    | _ => exact hspells
  | enum ms =>
    have henum : Spells ("enum" : Text) [.identifier "enum"] :=
      spells_identifier (by decide) (by decide)
    exact henum.append (spells_group fun m hm => spells_member (hmembers m hm))
      (Lexer.detached_cons (by decide) _)
  | set ms =>
    have hset : Spells ("set" : Text) [.keyword .set] := spells_word (by decide)
    exact hset.append (spells_group fun m hm => spells_member (hmembers m hm))
      (Lexer.detached_cons (by decide) _)
  | custom d => exact absurd rfl (hcustom d)

theorem fieldType_declaration_eq (t : FieldType) : t.declaration = t.dataType.declaration ++
    (if t.unsigned || t.zerofill then ' ' :: "unsigned" else []) ++
    (if t.zerofill then ' ' :: "zerofill" else []) := by
  obtain ⟨dataType, unsigned, zerofill, charset, collation⟩ := t
  cases unsigned <;> cases zerofill <;> simp [FieldType.declaration]

theorem spells_fieldType_declaration {t : FieldType} (h : t.dataType.IsParsed)
    (hcustom : ∀ d, t.dataType ≠ .custom d)
    (hmembers : ∀ m ∈ t.dataType.members, EscapesWildcards m) :
    Spells t.declaration t.readBack.kinds := by
  have hunsigned : Spells ("unsigned" : Text) [.keyword .unsigned] := spells_word (by decide)
  have hzerofill : Spells ("zerofill" : Text) [.keyword .zerofill] := spells_word (by decide)
  have htype := (spells_declaration h hcustom hmembers).append
    (spells_flag hunsigned (t.unsigned || t.zerofill)) (detached_flag _ _)
  rw [fieldType_declaration_eq]
  exact htype.append (spells_flag hzerofill t.zerofill) (detached_flag _ _)

/-! ### Members that are read -/

section Inversion

open Parse
open AgreesAt (bind_ok)

variable {c d : Cursor} {ms : List Text}

theorem kinds_of_current {k : TokenKind} (hk : k ≠ .eof) (h : c.current.kind = k) :
    c.kinds = k :: c.advance.kinds := by
  have hne : c.ahead ≠ [] := Cursor.ahead_ne_nil (h ▸ hk)
  rw [Cursor.kinds, Cursor.ahead_eq_cons hne, List.map_cons, h]
  rfl

theorem kinds_of_string {v : Text} (h : string c = .ok v d) :
    c.kinds = .string v :: d.kinds := by
  obtain ⟨k, _, hk, h⟩ := Parse.exists_of_bind_ok h
  cases hk
  cases hv : c.current.kind with
  | string v' =>
    rw [hv] at h
    cases h
    exact kinds_of_current nofun hv
  | _ =>
    rw [hv] at h
    cases h

theorem kinds_of_comma (h : acceptSymbol .comma c = .ok true d) :
    c.kinds = .symbol .comma :: d.kinds := by
  rw [acceptSymbol, accept_eq] at h
  split at h
  · rename_i hcomma
    cases h
    exact kinds_of_current (by decide) hcomma
  · cases h

theorem kinds_of_nextString {v : Text}
    (h : (do if ← acceptSymbol .comma then some <$> string else return none) c =
      .ok (some v) d) : c.kinds = .symbol .comma :: .string v :: d.kinds := by
  obtain ⟨present, c₁, hpresent, h⟩ := Parse.exists_of_bind_ok h
  cases present with
  | false => cases h
  | true =>
    rw [kinds_of_comma hpresent]
    cases hs : string c₁ with
    | error e c₂ =>
      rw [if_pos rfl, AgreesAt.map_error some hs] at h
      cases h
    | ok v' c₂ =>
      rw [if_pos rfl, AgreesAt.map_ok some hs] at h
      cases h
      rw [kinds_of_string hs]

theorem kinds_of_nextStrings
    (h : many (do if ← acceptSymbol .comma then some <$> string else return none) c = .ok ms d) :
    ∃ ls, c.kinds = ms.flatMap (fun m => [.symbol .comma, .string m]) ++ ls := by
  induction hn : c.ahead.length using Nat.strongRecOn generalizing c ms with
  | ind n ih =>
    obtain ⟨-, rfl⟩ | ⟨m, hm, -, rfl⟩ | ⟨m, c₁, ms', hm, hlt, hrest, rfl⟩ := many_cases h
    · exact ⟨c.kinds, rfl⟩
    · exact ⟨d.kinds, kinds_of_nextString hm⟩
    · obtain ⟨ls, hls⟩ := ih _ (hn ▸ hlt) hrest rfl
      exact ⟨ls, by rw [kinds_of_nextString hm, hls]; rfl⟩

theorem kinds_of_strings (h : commaSeparated string c = .ok ms d) :
    ∃ ls, c.kinds = separatedKinds (ms.map fun m => [.string m]) ++ ls := by
  obtain ⟨first, c₁, hfirst, h⟩ := Parse.exists_of_bind_ok h
  obtain ⟨others, c₂, hothers, h⟩ := Parse.exists_of_bind_ok h
  cases h
  obtain ⟨ls, hls⟩ := kinds_of_nextStrings hothers
  refine ⟨ls, ?_⟩
  rw [kinds_of_string hfirst, hls, List.map_cons, separatedKinds_cons, List.flatMap_map]
  rfl

/-- Only enumerations have members, and these are all that is read behind their word. -/
theorem members_of_typeOfForm {t : DataType} {form : TypeForm} (ht : t.members ≠ [])
    (h : typeOfForm form c = .ok t d) : members c = .ok t.members d := by
  have hnone {α : Type} {p : Parse α} {f : α → DataType} {c : Cursor}
      (hf : ∀ a, (f a).members = []) (h : (do return f (← p)) c = .ok t d) : False := by
    obtain ⟨a, _, -, h⟩ := Parse.exists_of_bind_ok h
    cases h
    exact ht (hf a)
  cases form with
  | enum =>
    obtain ⟨ms, _, hms, h⟩ := Parse.exists_of_bind_ok h
    cases h
    exact hms
  | set =>
    obtain ⟨ms, _, hms, h⟩ := Parse.exists_of_bind_ok h
    cases h
    exact hms
  | sized k => exact (hnone (fun _ => rfl) h).elim
  | precise k => exact (hnone (p := precisionAndScale) (fun _ => rfl) h).elim
  | plain k =>
    cases h
    exact absurd rfl ht
  | double =>
    obtain ⟨_, _, -, h⟩ := Parse.exists_of_bind_ok h
    exact (hnone (p := precisionAndScale) (fun _ => rfl) h).elim
  | character =>
    obtain ⟨_, _, -, h⟩ := Parse.exists_of_bind_ok h
    exact (hnone (fun _ => rfl) h).elim

theorem advance_of_name {n : Text} {expected : Expected} (h : name expected c = .ok n d) :
    d = c.advance := by
  obtain ⟨x, c₁, hx, h⟩ := Parse.exists_of_bind_ok h
  obtain rfl : c = c₁ := by
    cases hx
    rfl
  clear hx
  cases x with
  | none => cases h
  | some n' =>
    cases h
    rfl

/-- The members of an enumeration are the strings behind its opening parenthesis. -/
theorem kinds_of_dataType {t : DataType} {k : TokenKind} {ks : List TokenKind} (hc : c.Spelt)
    (hkinds : c.kinds = k :: .symbol .leftParen :: ks) (ht : t.members ≠ [])
    (h : dataType c = .ok t d) :
    ∃ ls, ks = separatedKinds (t.members.map fun m => [.string m]) ++ ls := by
  obtain ⟨word, c₁, hword, h⟩ := Parse.exists_of_bind_ok h
  have hc₁ : c₁.Spelt := advance_of_name hword ▸ hc.drop 1
  have hkinds₁ : c₁.kinds = [.symbol .leftParen] ++ ks := by
    rw [advance_of_name hword]
    exact Cursor.kinds_drop (show c.kinds = [k] ++ .symbol .leftParen :: ks from hkinds)
  cases hform : TypeForm.ofWord? word with
  | some form =>
    rw [hform] at h
    obtain ⟨c₂, hstrings, -, hkinds₂⟩ := (parses_expectSymbol .leftParen).of_bind_ok hc₁ hkinds₁
      trivial (members_of_typeOfForm ht h)
    obtain ⟨ms, _, hms, hstrings⟩ := Parse.exists_of_bind_ok hstrings
    obtain ⟨_, _, -, hstrings⟩ := Parse.exists_of_bind_ok hstrings
    cases hstrings
    exact hkinds₂ ▸ kinds_of_strings hms
  | none =>
    rw [hform] at h
    obtain ⟨present, _, -, h⟩ := Parse.exists_of_bind_ok h
    cases present with
    | true =>
      obtain ⟨_, _, -, h⟩ := Parse.exists_of_bind_ok h
      cases h
      exact absurd rfl ht
    | false =>
      cases h
      exact absurd rfl ht

end Inversion

theorem exists_word_of_members {t : DataType} (ht : t.members ≠ []) :
    ∃ w k, Spells w [k] ∧
      t.declaration = w ++ '(' :: (Text.join "," (t.members.map DataType.member) ++ [')']) := by
  have henum : Spells ("enum" : Text) [.identifier "enum"] :=
    spells_identifier (by decide) (by decide)
  have hset : Spells ("set" : Text) [.keyword .set] := spells_word (by decide)
  cases t with
  | enum ms => exact ⟨_, _, henum, rfl⟩
  | set ms => exact ⟨_, _, hset, rfl⟩
  | _ => exact absurd rfl ht

/-- If a reported type declares the same members again, their backslashes escape wildcards. -/
theorem escapesWildcards_of_parse {t : FieldType} {table : Table} {col : Column}
    (h : parse {} (singleColumnText t.declaration []) = .ok [.createTable table])
    (hcol : table.columns.head? = some col)
    (hmembers : col.type.dataType.members = t.dataType.members) :
    ∀ m ∈ t.dataType.members, EscapesWildcards m := by
  by_cases ht : t.dataType.members = []
  · rw [ht]
    exact nofun
  obtain ⟨w, k, hw, htext⟩ := exists_word_of_members ht
  obtain ⟨flags, hflags⟩ : ∃ flags, t.declaration = t.dataType.declaration ++ flags :=
    ⟨_, (fieldType_declaration_eq t).trans (List.append_assoc _ _ _)⟩
  let group := Text.join "," (t.dataType.members.map DataType.member) ++ ')' :: (flags ++ [')'])
  have hgroup : kindsOf ('(' :: group) = .symbol .leftParen :: kindsOf group :=
    kindsOf_symbol (begins_of_not_mem rfl (by decide) _) (by decide) rfl
  have hkinds := spells_definition hw ('(' :: group) (Lexer.detached_cons (by decide) _)
  rw [hgroup] at hkinds
  have htail : '(' :: (Text.join "," (t.dataType.members.map DataType.member) ++ [')']) ++ flags ++
      [')'] = '(' :: group := by
    simp [group]
  have hsource := singleColumnText_append w
    ('(' :: (Text.join "," (t.dataType.members.map DataType.member) ++ [')']) ++ flags) []
  rw [htail, ← List.append_assoc w, ← htext, ← hflags] at hsource
  obtain ⟨c, d, hc, hrest, htype⟩ := exists_dataType_of_parse (hsource ▸ hkinds) h hcol
  obtain ⟨ls, hls⟩ := kinds_of_dataType hc hrest (hmembers ▸ ht) htype
  rw [hmembers] at hls
  exact escapesWildcards_of_members (by simp) hls

/-- The type that a column of a parsed table reports declares the same type again. -/
theorem parse_declaration {defaults : TableDefaults} {source : Text} {ss : List Statement}
    {t : Table} {c : Column} (h : parse defaults source = .ok ss) (ht : .createTable t ∈ ss)
    (hc : c ∈ t.columns) (hcustom : ∀ d, c.type.dataType ≠ .custom d) :
    parse {} (singleColumnText c.type.declaration []) =
        .ok [.createTable (singleColumn {} ⟨"c", c.type.readBack, []⟩ [])] ↔
      ∀ m ∈ c.type.dataType.members, EscapesWildcards m := by
  have hparsed := ((isParsed_of_mem h ht).columns c hc).dataType
  constructor
  · intro hread
    exact escapesWildcards_of_parse hread rfl c.type.dataType.members_readBack
  · intro hmembers
    have htype := Parse.parses_fieldType (t := c.type.readBack)
      (hparsed.isCanonical_readBack hcustom) rfl rfl
    have hcolumn := Parse.parses_columnOf (c := ⟨"c", c.type.readBack, []⟩) htype rfl nofun
    rw [List.flatMap_nil, List.append_nil] at hcolumn
    exact parse_singleColumn_without_options {}
      (spells_fieldType_declaration hparsed hcustom hmembers) hcolumn

/-- A quote is doubled in a reported member, and a wildcard keeps its backslash. -/
theorem parse_declaration_of_wildcard :
    parse {} (singleColumnText "set('it''s','50\\%') unsigned zerofill" []) =
      .ok [.createTable (singleColumn {} ⟨"c",
        { dataType := .set ["it's", "50\\%"], unsigned := true, zerofill := true }, []⟩ [])] := by
  let column : Column := ⟨"c", { dataType := .set ["it's", "50\\%"], zerofill := true }, []⟩
  have hparse : parse {} (singleColumnText "SET('it''s', '50\\%') ZEROFILL" []) =
      .ok [.createTable (singleColumn {} column [])] := by decide +kernel
  have hplain : EscapesWildcards "it's" := by
    simp [escapesWildcards_cons, EscapesWildcards.nil]
  have hwildcard : EscapesWildcards "50\\%" := by
    simp [escapesWildcards_cons, escapesWildcards_escape, EscapesWildcards.nil]
  have hmembers : ∀ m ∈ column.type.dataType.members, EscapesWildcards m :=
    List.forall_mem_cons.2 ⟨hplain, List.forall_mem_singleton.2 hwildcard⟩
  have htext : column.type.declaration = "set('it''s','50\\%') unsigned zerofill" := by decide
  rw [← htext]
  exact (parse_declaration hparse List.mem_cons_self (c := column) List.mem_cons_self nofun).2
    hmembers

/-- A backslash at the end of a member is written once, and then takes the closing quote. -/
theorem parse_declaration_of_backslash :
    parse {} (singleColumnText "ENUM('a\\\\')" []) = .ok [.createTable
        (singleColumn {} ⟨"c", { dataType := .enum ["a\\"] }, []⟩ [])] ∧
      parse {} (singleColumnText (FieldType.declaration { dataType := .enum ["a\\"] }) []) =
        .error ⟨.unexpected .stringLiteral (.fault .openString), ⟨23, 29⟩⟩ := by
  decide +kernel

end SchemaModels.Ddl

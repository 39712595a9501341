import SchemaModels.Proofs.Ddl.SpelledWords

/-!
# The tokens of canonical texts

Each part of a canonical text spells the tokens of that part, so the lexer reads the tokens of a
table from its canonical text.
-/

namespace SchemaModels.Ddl

open Lexer (Detached detached_nil detached_cons)

/-! ### Lists -/

theorem spells_join (sep : Text) {text : α → Text} {kinds : α → List TokenKind}
    (hsep : ∀ {b ls}, Spells b ls → Spells (sep ++ b) (.symbol .comma :: ls))
    (hdetached : ∀ b, Detached (sep ++ b)) {items : List α}
    (h : ∀ x ∈ items, Spells (text x) (kinds x)) :
    Spells (Text.join sep (items.map text)) (separatedKinds (items.map kinds)) := by
  induction items with
  | nil => exact spells_nil
  | cons x items ih =>
      have hx := h x List.mem_cons_self
      have hrest := ih fun y hy => h y (List.mem_cons_of_mem x hy)
      cases items with
      | nil => exact hx
      | cons y items =>
          have hall := hx.append (hsep hrest) (hdetached _)
          rw [← List.append_assoc] at hall
          exact hall

/-- In types no spaces stand between the tokens. -/
theorem spells_group {text : α → Text} {kinds : α → List TokenKind} {items : List α}
    (h : ∀ x ∈ items, Spells (text x) (kinds x)) :
    Spells (DataType.group (items.map text)) (groupKinds (items.map kinds)) := by
  have hjoin := spells_join "," (fun hb => hb.mark (by decide))
    (fun b => detached_cons (by decide) b) h
  have hclose := hjoin.append (spells_nil.mark (c := ')') (s := .rightParen) (by decide))
    (detached_cons (by decide) [])
  exact hclose.mark (c := '(') (s := .leftParen) (by decide)

theorem spells_parenthesized {text : α → Text} {kinds : α → List TokenKind} {items : List α}
    (h : ∀ x ∈ items, Spells (text x) (kinds x)) :
    Spells (parenthesizedText (items.map text)) (groupKinds (items.map kinds)) := by
  have hjoin := spells_join " , " (fun hb => (hb.space.mark (by decide)).space)
    (fun b => detached_cons (by decide) (',' :: ' ' :: b)) h
  have hclose := hjoin.then (spells_nil.mark (c := ')') (s := .rightParen) (by decide))
  exact (hclose.space).mark (c := '(') (s := .leftParen) (by decide)

theorem detached_spaced (items : List Text) : Detached (spaced items) := by
  cases items with
  | nil => exact detached_nil
  | cons t items => exact detached_cons (by decide) _

theorem spells_spaced {text : α → Text} {kinds : α → List TokenKind} {items : List α}
    (h : ∀ x ∈ items, Spells (text x) (kinds x)) :
    Spells (spaced (items.map text)) (items.flatMap kinds) := by
  induction items with
  | nil => exact spells_nil
  | cons x items ih =>
      have hx := h x List.mem_cons_self
      have hrest := ih fun y hy => h y (List.mem_cons_of_mem x hy)
      exact hx.space.append hrest (detached_spaced _)

/-! ### Types -/

theorem spells_numbers {p s : Option Nat} (hp : ∀ n ∈ p, n < 2 ^ 63) (hs : ∀ n ∈ s, n < 2 ^ 63) :
    Spells (DataType.numbers p s) (numberKinds p s) := by
  have hgroup (ns : List Nat) (h : ∀ n ∈ ns, n < 2 ^ 63) :
      Spells (DataType.group (ns.map Text.numeral)) (groupKinds (ns.map fun n => [.integer n])) :=
    spells_group fun n hn => spells_numeral (h n hn)
  cases p with
  | none => exact spells_nil
  | some p =>
      cases s with
      | none => exact hgroup [p] (by simpa using hp)
      | some s => exact hgroup [p, s] (by simp_all)

theorem detached_numbers (p s : Option Nat) : Detached (DataType.numbers p s) := by
  cases p with
  | none => exact detached_nil
  | some p => cases s <;> exact detached_cons (by decide) _

theorem lt_of_mem_map {f : α → Nat} {m : Nat} (hf : ∀ x, f x < m) (w : Option α) :
    ∀ n ∈ w.map f, n < m := by
  intro n hn
  obtain ⟨x, -, rfl⟩ := Option.map_eq_some_iff.1 hn
  exact hf x

theorem spells_members (ms : List Text) :
    Spells (DataType.group (ms.map quotedString)) (groupKinds (ms.map fun m => [.string m])) :=
  spells_group fun m _ => spells_quotedString m

theorem spells_dataType {t : DataType} (h : t.IsCanonical) : Spells t.canonicalText t.kinds := by
  cases t with
  | sized k w =>
      have hsize (x : UInt32) : x.toNat < 2 ^ 63 := Nat.lt_of_lt_of_le x.toNat_lt (by decide)
      have hnumbers := spells_numbers (lt_of_mem_map hsize w) (s := none) nofun
      exact (spells_sized k).append hnumbers (detached_numbers _ _)
  | precise k p s =>
      have hsize (x : UInt16) : x.toNat < 2 ^ 63 := Nat.lt_of_lt_of_le x.toNat_lt (by decide)
      have hnumbers := spells_numbers (lt_of_mem_map hsize p) (lt_of_mem_map hsize s)
      exact (spells_precise k).append hnumbers (detached_numbers _ _)
  | plain k => exact spells_plain h
  | enum ms =>
      have henum : Spells ("enum" : Text) [.identifier "enum"] :=
        spells_identifier (by decide) (by decide)
      exact henum.append (spells_members ms) (detached_cons (by decide) _)
  | set ms =>
      have hset : Spells ("set" : Text) [.keyword .set] := spells_word (by decide)
      exact hset.append (spells_members ms) (detached_cons (by decide) _)
  | custom d => exact h.elim

theorem spells_flag {w : Text} {k : TokenKind} (h : Spells w [k]) (flag : Bool) :
    Spells (if flag then ' ' :: w else []) (if flag then [k] else []) := by
  cases flag with
  | true => exact h.space
  | false => exact spells_nil

theorem detached_flag (w : Text) (flag : Bool) : Detached (if flag then ' ' :: w else []) := by
  cases flag with
  | true => exact detached_cons (by decide) w
  | false => exact detached_nil

theorem spells_fieldType {t : FieldType} (h : t.dataType.IsCanonical) :
    Spells t.canonicalText t.kinds := by
  have hunsigned : Spells ("unsigned" : Text) [.keyword .unsigned] := spells_word (by decide)
  have hzerofill : Spells ("zerofill" : Text) [.keyword .zerofill] := spells_word (by decide)
  have htype := (spells_dataType h).append (spells_flag hunsigned t.unsigned) (detached_flag _ _)
  exact htype.append (spells_flag hzerofill t.zerofill) (detached_flag _ _)

/-! ### Columns and constraints -/

theorem spells_literal {l : Literal} (h : l.IsCanonical) : Spells l.canonicalText l.kinds := by
  cases l with
  | integer n =>
      obtain ⟨hlower, hupper⟩ := h
      cases n with
      | ofNat n => exact spells_numeral (Int.ofNat_lt.1 hupper)
      | negSucc n => exact (spells_numeral (by omega)).minus
  | string s => exact spells_quotedString s
  | boolean b =>
      cases b with
      | true => exact spells_keyword .true
      | false => exact spells_keyword .false
  | null => exact spells_keyword .null
  | float x => exact h.elim
  | blob bs => exact h.elim

theorem spells_option {o : ColumnOption} (h : o.IsCanonical) : Spells o.canonicalText o.kinds := by
  cases o with
  | primaryKey => exact (spells_keyword .primary).then (spells_keyword .key)
  | notNull => exact (spells_keyword .not).then (spells_keyword .null)
  | null => exact spells_keyword .null
  | autoIncrement => exact spells_keyword .autoIncrement
  | uniqueKey => exact (spells_keyword .unique).then (spells_keyword .key)
  | default e =>
      cases e with
      | literal l => exact (spells_keyword .default).then (spells_literal h)
      | _ => exact h.elim
  | comment s => exact (spells_keyword .comment).then (spells_quotedString s)
  | _ => exact h.elim

theorem spells_column {c : Column} (h : c.IsCanonical) : Spells c.canonicalText c.kinds := by
  have htype := (spells_backquoted c.name).then (spells_fieldType h.dataType)
  have hoptions := spells_spaced fun o ho => spells_option (h.options o ho)
  exact htype.append hoptions (detached_spaced _)

theorem spells_constraint (k : Constraint) : Spells k.canonicalText k.kinds := by
  have hcolumns : Spells (parenthesizedText (k.columns.map backquoted))
      (groupKinds (k.columns.map fun n => [.identifier n])) :=
    spells_parenthesized fun n _ => spells_backquoted n
  unfold Constraint.canonicalText Constraint.kinds
  by_cases h : k.kind = .primaryKey
  · rw [if_pos h, if_pos h]
    exact (spells_keyword .primary).then ((spells_keyword .key).then hcolumns)
  · rw [if_neg h, if_neg h]
    exact (spells_keyword .unique).then ((spells_keyword .key).then hcolumns)

theorem spells_entry {t : Table} (h : t.IsCanonical) :
    ∀ e ∈ t.entries, Spells e.canonicalText e.kinds := by
  intro e he
  rcases List.mem_append.1 he with he | he
  · obtain ⟨c, hc, rfl⟩ := List.mem_map.1 he
    exact spells_column (h.columns c hc)
  · obtain ⟨k, -, rfl⟩ := List.mem_map.1 he
    exact spells_constraint k

theorem spells_tableOption {t : Table} (h : t.IsCanonical) :
    ∀ o ∈ t.options, Spells o.canonicalText o.kinds := by
  intro o ho
  have hcomment : ∃ s, o = .comment s := by
    obtain hnil | ⟨s, hs⟩ := h.options
    · rw [hnil] at ho
      cases ho
    · rw [hs, List.mem_singleton] at ho
      exact ⟨s, ho⟩
  obtain ⟨s, rfl⟩ := hcomment
  have hvalue := (spells_quotedString s).space.mark (c := '=') (s := .equal) (by decide)
  exact (spells_keyword .comment).then hvalue

theorem spells_table {t : Table} (h : t.IsCanonical) : Spells t.canonicalText t.kinds := by
  have hentries := spells_parenthesized (spells_entry h)
  have hoptions := spells_spaced (spells_tableOption h)
  have hname := (spells_backquoted t.name).then hentries
  have hcreate := (spells_keyword .create).then ((spells_keyword .table).then hname)
  exact hcreate.append hoptions (detached_spaced _)

/-- The lexer reads the tokens of a table from its canonical text. -/
theorem kindsOf_canonicalText {t : Table} (h : t.IsCanonical) :
    kindsOf t.canonicalText = t.kinds := by
  have htable := spells_table h [] detached_nil
  rwa [List.append_nil, kindsOf_nil, List.append_nil] at htable

end SchemaModels.Ddl

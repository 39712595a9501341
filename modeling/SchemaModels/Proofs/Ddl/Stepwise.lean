import SchemaModels.Ddl.Statement.Parser
import SchemaModels.Proofs.Ddl.ColumnAgreement

/-!
# Readers made of the steps of a cursor

Every reader of the grammar is put together from a few steps of a cursor: it looks at the current
token, moves forward over tokens, or fails at the token where it stands (`Stepwise`). Only one
reader looks at the token behind the current one, and only where that is the word `NOT`. What all of
these steps do, and composition keeps, is done by every reader up to the whole source text.
-/

namespace SchemaModels.Ddl

/-- A reader that is put together from the steps of a cursor. -/
inductive Stepwise : {α : Type} → Parse α → Prop
  | pure {α : Type} (a : α) : Stepwise (Pure.pure a)
  | refuse {α : Type} (expected : Expected) : Stepwise (Parse.refuse expected : Parse α)
  | fail {α : Type} {cause : ParseError.Cause}
    (h : ∀ span, ParseError.found? ⟨cause, span⟩ = none) : Stepwise (Parse.fail cause : Parse α)
  | kind : Stepwise Parse.kind
  | name? : Stepwise Parse.name?
  | skip (n : Nat) : Stepwise (Parse.skip n)
  | skipWhile (f : TokenKind → Bool) : Stepwise (Parse.skipWhile f)
  | skipGroup : Stepwise Parse.skipGroup
  | skipBalanced : Stepwise Parse.skipBalanced
  /-- A look behind the word `NOT`. -/
  | notBefore {α : Type} (words : List Text) {p : Bool → Parse α} {q : Parse α}
    (hp : ∀ found, Stepwise (p found)) (hq : Stepwise q) :
    Stepwise (do if ← Parse.atKeyword .not then p (← Parse.beforeWord words) else q)
  | bind {α β : Type} {p : Parse α} {f : α → Parse β} (hp : Stepwise p)
    (hf : ∀ a, Stepwise (f a)) : Stepwise (p >>= f)
  | withSource {α : Type} {p : Parse α} (hp : Stepwise p) : Stepwise (Parse.withSource p)
  | many {α : Type} {step : Parse (Option α)} (hstep : Stepwise step) : Stepwise (Parse.many step)
  /-- A recursion, which ends because the tokens do. -/
  | recursion {α : Type} {p : Parse α} (q : Nat → Parse α) (hq : ∀ n, Stepwise (q n))
    (h : ∀ n c, c.Inside → c.ahead.length < n → p c = q n c) : Stepwise p

namespace Stepwise

theorem map {p : Parse α} (f : α → β) (hp : Stepwise p) : Stepwise (f <$> p) := by
  rw [← bind_pure_comp]
  exact hp.bind fun a => .pure (f a)

theorem ite {q : Prop} [Decidable q] {p₁ p₂ : Parse α} (h₁ : Stepwise p₁) (h₂ : Stepwise p₂) :
    Stepwise (if q then p₁ else p₂) := by
  split
  · exact h₁
  · exact h₂

/-! ### Tokens -/

theorem advance : Stepwise Parse.advance := .skip 1

theorem at? (k : TokenKind) : Stepwise (Parse.at? k) := kind.bind fun _ => .pure _

theorem atWord (words : List Text) : Stepwise (Parse.atWord words) := kind.bind fun _ => .pure _

theorem accept (k : TokenKind) : Stepwise (Parse.accept k) :=
  (at? k).bind fun _ => .ite (advance.bind fun _ => .pure _) (.pure _)

theorem acceptWord (words : List Text) : Stepwise (Parse.acceptWord words) :=
  (atWord words).bind fun _ => .ite (advance.bind fun _ => .pure _) (.pure _)

theorem expectKeyword (k : Keyword) : Stepwise (Parse.expectKeyword k) :=
  (accept (.keyword k)).bind fun _ => .ite (.pure _) (.refuse _)

theorem expectSymbol (s : Symbol) : Stepwise (Parse.expectSymbol s) :=
  (accept (.symbol s)).bind fun _ => .ite (.pure _) (.refuse _)

theorem name (expected : Expected) : Stepwise (Parse.name expected) := by
  refine name?.bind fun n => ?_
  cases n with
  | none => exact .refuse expected
  | some n => exact advance.bind fun _ => .pure n

theorem string : Stepwise Parse.string := by
  refine kind.bind fun k => ?_
  split
  · exact advance.bind fun _ => .pure _
  · exact .refuse _

theorem integer : Stepwise Parse.integer := by
  refine kind.bind fun k => ?_
  split
  · exact advance.bind fun _ => .pure _
  · exact .refuse _

/-! ### Repetition and groups -/

theorem commaSeparated {item : Parse α} (h : Stepwise item) :
    Stepwise (Parse.commaSeparated item) := by
  refine h.bind fun first => ?_
  refine (many ?_).bind fun _ => .pure _
  exact (accept (.symbol .comma)).bind fun _ => .ite (.map some h) (.pure none)

theorem parenthesized {content : Parse α} (h : Stepwise content) :
    Stepwise (Parse.parenthesized content) :=
  (expectSymbol .leftParen).bind fun _ => h.bind fun _ => (expectSymbol .rightParen).bind fun _ =>
    .pure _

theorem sourceOf {p : Parse α} (h : Stepwise p) : Stepwise (Parse.sourceOf p) :=
  h.withSource.bind fun _ => .pure _

theorem rawGroup : Stepwise Parse.rawGroup :=
  sourceOf ((expectSymbol .leftParen).bind fun _ => skipGroup)

/-! ### Default values -/

theorem signedNumber (negative : Bool) : Stepwise (Parse.signedNumber negative) := by
  refine kind.bind fun k => ?_
  split
  · exact advance.bind fun _ => .pure _
  · exact advance.bind fun _ => .pure _
  · exact .refuse _

section Arguments

variable {argument : Parse Expr}

theorem arguments (h : Stepwise argument) : Stepwise (Parse.arguments argument) :=
  parenthesized ((at? _).bind fun _ => .ite (.pure []) (commaSeparated h))

theorem wordExpr (h : Stepwise argument) (word : Text) :
    Stepwise (Parse.wordExpr argument word) := by
  refine kind.bind fun k => ?_
  split
  · exact advance.bind fun _ => .pure _
  · exact (arguments h).bind fun _ => .pure _
  · exact .pure _

theorem exprWith (h : Stepwise argument) : Stepwise (Parse.exprWith argument) := by
  refine kind.bind fun k => ?_
  split
  · exact advance.bind fun _ => .pure _
  · split
    · exact advance.bind fun _ => signedNumber true
    · exact advance.bind fun _ => signedNumber false
    · exact rawGroup.bind fun _ => .pure _
    · exact (withSource (advance.bind fun _ => wordExpr h _)).bind fun _ => .pure _
    · exact .refuse _

end Arguments

/-- Expressions of which the arguments nest up to a depth. -/
def exprWithin : Nat → Parse Expr
  | 0 => Parse.refuse .defaultValue
  | n + 1 => Parse.exprWith (exprWithin n)

theorem cursor_behind_nil (c : Cursor) : (Surroundings.behind []).cursor c = c := by
  have hshift : Token.shift 0 = id := by
    funext t
    simp [Token.shift, Span.shift]
  simp [Surroundings.cursor, hshift]

theorem error_behind_nil (e : ParseError) : (Surroundings.behind []).error e = e := by
  simp [Surroundings.error, Span.shift]

theorem expr_eq_exprWithin (n : Nat) (c : Cursor) (hc : c.Inside) (hn : c.ahead.length < n) :
    Parse.expr c = exprWithin n c := by
  induction n generalizing c with
  | zero => exact absurd hn (Nat.not_lt_zero _)
  | succ n ih =>
    -- Both sides read their arguments at cursors with fewer tokens ahead, where they agree.
    have hargument (d : Cursor) (hd : d.ahead.length < c.ahead.length) :
        AgreesAt (.behind []) true
          (fun d => if d.ahead.length < c.ahead.length then Parse.expr d
            else Parse.refuse .defaultValue d) (exprWithin n) d := by
      intro hin
      have hsame := ih d hin (by omega)
      simp only [if_pos hd, cursor_behind_nil, ← hsame]
      have hexpr := Parse.agreesAt_expr (w := .behind []) (c := d) hin
      simpa only [cursor_behind_nil] using hexpr
    have hagrees := Parse.agreesAt_exprWith hargument hc
    rw [Parse.expr_eq]
    rw [cursor_behind_nil] at hagrees
    split at hagrees
    · rename_i a d h
      rw [h, cursor_behind_nil] at *
      exact (hagrees.2 (Or.inl trivial)).symm
    · rename_i e d h
      rw [h, cursor_behind_nil, error_behind_nil] at *
      exact (hagrees trivial).symm

theorem within (n : Nat) : Stepwise (exprWithin n) := by
  induction n with
  | zero => exact .refuse _
  | succ n ih => exact exprWith ih

theorem expr : Stepwise Parse.expr := .recursion exprWithin within expr_eq_exprWithin

/-! ### Types -/

theorem integerBelow (limit : Nat) {tooLarge : ParseError.Cause}
    (h : ∀ span, ParseError.found? ⟨tooLarge, span⟩ = none) :
    Stepwise (Parse.integerBelow limit tooLarge) := by
  refine kind.bind fun k => ?_
  split
  · exact .ite (advance.bind fun _ => .pure _) (.fail h)
  · exact .refuse _

theorem length? : Stepwise Parse.length? :=
  (at? _).bind fun _ =>
    .ite ((parenthesized (integerBelow _ fun _ => rfl)).bind fun _ => .pure _) (.pure _)

theorem precisionAndScale : Stepwise Parse.precisionAndScale := by
  refine (at? _).bind fun _ => .ite (parenthesized ?_) (.pure _)
  refine (integerBelow _ fun _ => rfl).bind fun _ => (accept _).bind fun _ => .ite ?_ (.pure _)
  exact (integerBelow _ fun _ => rfl).bind fun _ => .pure _

theorem members : Stepwise Parse.members := parenthesized (commaSeparated string)

theorem typeOfForm (form : TypeForm) : Stepwise (Parse.typeOfForm form) := by
  cases form with
  | sized k => exact length?.bind fun _ => .pure _
  | precise k => exact precisionAndScale.bind fun _ => .pure _
  | plain k => exact .pure _
  | double => exact (acceptWord _).bind fun _ => precisionAndScale.bind fun _ => .pure _
  | character => exact (acceptWord _).bind fun _ => length?.bind fun _ => .pure _
  | enum => exact members.bind fun _ => .pure _
  | set => exact members.bind fun _ => .pure _

theorem dataType : Stepwise Parse.dataType := by
  refine (name _).bind fun word => ?_
  cases TypeForm.ofWord? word with
  | some form => exact typeOfForm form
  | none => exact (at? _).bind fun _ => .ite (rawGroup.bind fun _ => .pure _) (.pure _)

theorem typeModifier : Stepwise Parse.typeModifier := by
  refine kind.bind fun k => ?_
  split
  · exact advance.bind fun _ => .pure _
  · exact advance.bind fun _ => .pure _
  · exact advance.bind fun _ => (expectKeyword _).bind fun _ => (name _).bind fun _ => .pure _
  · exact advance.bind fun _ => (name _).bind fun _ => .pure _
  · exact .ite (advance.bind fun _ => .pure _) (.pure none)

theorem fieldType : Stepwise Parse.fieldType :=
  dataType.bind fun _ => (many typeModifier).bind fun _ => .pure _

/-! ### Columns -/

theorem generated : Stepwise Parse.generated := by
  refine (expectKeyword _).bind fun _ => rawGroup.bind fun _ => (accept _).bind fun _ => ?_
  exact .ite (.pure _) ((accept _).bind fun _ => .pure _)

theorem check : Stepwise Parse.check := by
  refine (expectKeyword _).bind fun _ => rawGroup.bind fun group => ?_
  refine .notBefore _ (fun found => ?_) ((acceptWord _).bind fun _ => .pure _)
  exact .ite ((skip 2).bind fun _ => .pure _) (.pure _)

theorem referenceAction : Stepwise Parse.referenceAction := by
  refine (accept _).bind fun _ => .ite advance ?_
  refine (acceptWord _).bind fun _ => .ite advance ?_
  exact name?.bind fun _ => .ite advance (.refuse _)

theorem referenceClause : Stepwise Parse.referenceClause := by
  refine (acceptWord _).bind fun _ => .ite (advance.bind fun _ => .pure _) ?_
  refine (accept _).bind fun _ => .ite ?_ (.pure none)
  have haction : Stepwise (do Parse.referenceAction; return some ()) :=
    referenceAction.bind fun _ => .pure _
  exact (accept _).bind fun _ => .ite haction ((expectKeyword _).bind fun _ => haction)

theorem references : Stepwise Parse.references := by
  refine sourceOf ((expectKeyword _).bind fun _ => (name _).bind fun _ => ?_)
  have hcolumns : Stepwise (do
      if ← Parse.atSymbol .leftParen then let _ ← Parse.rawGroup
      Parse.many Parse.referenceClause) :=
    (at? _).bind fun _ => .ite (rawGroup.bind fun _ => many referenceClause) (many referenceClause)
  exact (accept _).bind fun _ => .ite ((name _).bind fun _ => hcolumns) hcolumns

theorem optionBehind? {k : Keyword} {option : Parse ColumnOption}
    (h : Parse.optionBehind? k = some option) : Stepwise option := by
  have hcheck : Stepwise (do return ColumnOption.check (← Parse.check)) :=
    check.bind fun _ => .pure _
  cases k <;> cases h
  case not => exact (expectKeyword _).bind fun _ => .pure _
  case null | autoIncrement | key => exact .pure _
  case default => exact expr.bind fun _ => .pure _
  case comment => exact string.bind fun _ => .pure _
  case on => exact (expectKeyword _).bind fun _ => expr.bind fun _ => .pure _
  case collate => exact (name _).bind fun _ => .pure _
  case generated => exact (expectKeyword _).bind fun _ => generated
  case primary => exact (expectKeyword _).bind fun _ => .pure _
  case unique => exact (accept _).bind fun _ => .pure _
  case constraint => exact (at? _).bind fun _ => .ite hcheck ((name _).bind fun _ => hcheck)

theorem columnOption : Stepwise Parse.columnOption := by
  refine kind.bind fun k => ?_
  split
  · exact generated.bind fun _ => .pure _
  · exact check.bind fun _ => .pure _
  · exact references.bind fun _ => .pure _
  · rename_i keyword _ _ _
    cases h : Parse.optionBehind? keyword with
    | none => exact .pure none
    | some option => exact advance.bind fun _ => (optionBehind? h).bind fun _ => .pure _
  · refine .ite (advance.bind fun _ => .pure _) ?_
    exact .ite ((skip 2).bind fun _ => .pure _) (.pure none)

theorem column : Stepwise Parse.column :=
  (name _).bind fun _ => fieldType.bind fun _ => (many columnOption).bind fun _ => .pure _

/-! ### Keys and constraints -/

theorem indexAttribute : Stepwise Parse.indexAttribute := by
  refine (acceptWord _).bind fun _ => .ite (advance.bind fun _ => .pure _) ?_
  refine (accept _).bind fun _ => .ite (advance.bind fun _ => .pure _) ?_
  refine (acceptWord _).bind fun _ => .ite ?_ ?_
  · exact (accept _).bind fun _ => advance.bind fun _ => .pure _
  refine (acceptWord _).bind fun _ => .ite ((skip 2).bind fun _ => .pure _) ?_
  exact (acceptWord _).bind fun _ => .ite (.pure _) (.pure none)

theorem indexAttributes : Stepwise Parse.indexAttributes :=
  (many indexAttribute).bind fun _ => .pure _

theorem keyPart : Stepwise Parse.keyPart := by
  refine (at? _).bind fun isExpr => ?_
  have horder (part : Text) :
      Stepwise (do let _ ← Parse.acceptWord ["ASC", "DESC"]; return part) :=
    (acceptWord _).bind fun _ => .pure part
  cases isExpr with
  | true => exact rawGroup.bind fun part => horder part
  | false =>
    refine (name _).bind fun part => (at? _).bind fun _ => .ite ?_ (horder part)
    exact rawGroup.bind fun _ => horder part

theorem keyParts : Stepwise Parse.keyParts := parenthesized (commaSeparated keyPart)

theorem keyOrIndex : Stepwise Parse.keyOrIndex :=
  (accept _).bind fun _ => .ite (.pure _) ((accept _).bind fun _ => .pure _)

theorem constraintKind : Stepwise Parse.constraintKind := by
  have hkey {k : ConstraintKind} :
      Stepwise (do Parse.advance; Parse.expectKeyword .key; return k) :=
    advance.bind fun _ => (expectKeyword _).bind fun _ => .pure _
  have hindex {k : ConstraintKind} : Stepwise (do Parse.advance; Parse.keyOrIndex; return k) :=
    advance.bind fun _ => keyOrIndex.bind fun _ => .pure _
  refine kind.bind fun k => ?_
  split
  · exact hkey
  · exact hindex
  · exact advance.bind fun _ => .pure _
  · exact advance.bind fun _ => .pure _
  · exact hindex
  · exact hindex
  · exact hkey
  · exact .refuse _

theorem atConstraint : Stepwise Parse.atConstraint := by
  refine kind.bind fun k => ?_
  split
  · exact .pure _
  · exact .pure _

theorem constraintName? : Stepwise Parse.constraintName? := by
  refine (accept _).bind fun _ => .ite ?_ (.pure none)
  exact atConstraint.bind fun _ => .ite (.pure none) ((name _).bind fun _ => .pure _)

theorem indexName? (k : ConstraintKind) : Stepwise (Parse.indexName? k) := by
  refine .ite (.pure none) ?_
  refine (at? _).bind fun _ => .ite (.pure none) ?_
  refine (atWord _).bind fun _ => .ite (.pure none) ?_
  exact (name _).bind fun _ => .pure _

theorem constraint : Stepwise Parse.constraint := by
  refine constraintName?.bind fun constraintName => ?_
  refine (at? _).bind fun _ => .ite (check.bind fun _ => .pure _) ?_
  refine constraintKind.bind fun k => (indexName? k).bind fun indexName => ?_
  refine indexAttributes.bind fun _ => keyParts.bind fun columns => ?_
  refine .ite (references.bind fun _ => ?_) ?_
  · exact indexAttributes.bind fun _ => .pure _
  · exact indexAttributes.bind fun _ => .pure _

/-! ### Tables -/

theorem equals : Stepwise Parse.equals := (accept _).bind fun _ => .pure _

theorem optionValue : Stepwise Parse.optionValue := by
  refine kind.bind fun k => ?_
  split
  · exact advance.bind fun _ => .pure _
  · exact advance.bind fun _ => .pure _
  · exact advance.bind fun _ => .pure _
  · exact rawGroup
  · exact name _

theorem balancedTail : Stepwise Parse.balancedTail :=
  skipBalanced.sourceOf.bind fun _ => .pure _

theorem wordOption (word : Text) : Stepwise (Parse.wordOption word) := by
  refine .ite (balancedTail.bind fun _ => .pure _) ?_
  exact equals.bind fun _ => optionValue.bind fun _ => .ite (.pure _) (.pure _)

theorem tableOption : Stepwise Parse.tableOption := by
  have hname (expected : Expected) (f : Text → TableOption) :
      Stepwise (do Parse.equals; return some [f (← Parse.name expected)]) :=
    equals.bind fun _ => (name expected).bind fun _ => .pure _
  refine (accept _).bind fun _ => kind.bind fun k => ?_
  split
  · exact .pure none
  · exact .pure none
  · exact advance.bind fun _ => .pure _
  · exact advance.bind fun _ => (expectKeyword _).bind fun _ => hname _ _
  · exact advance.bind fun _ => hname _ _
  · exact advance.bind fun _ => hname _ _
  · exact advance.bind fun _ => equals.bind fun _ => string.bind fun _ => .pure _
  · exact advance.bind fun _ => equals.bind fun _ => integer.bind fun _ => .pure _
  · exact advance.bind fun _ => (wordOption _).bind fun _ => .pure _
  · exact .refuse _

theorem tableOptions : Stepwise Parse.tableOptions := (many tableOption).bind fun _ => .pure _

theorem ifNotExists : Stepwise Parse.ifNotExists := by
  refine (accept _).bind fun _ => .ite ?_ (.pure _)
  exact (expectKeyword _).bind fun _ => (expectKeyword _).bind fun _ => .pure _

theorem qualifiedName : Stepwise Parse.qualifiedName := by
  refine (name _).bind fun _ => (accept _).bind fun _ => .ite ?_ (.pure _)
  exact (name _).bind fun _ => .pure _

theorem tableEntry : Stepwise Parse.tableEntry := by
  refine atConstraint.bind fun _ => .ite ?_ ?_
  · exact constraint.bind fun _ => .pure _
  · exact column.bind fun _ => .pure _

theorem table (defaults : TableDefaults) : Stepwise (Parse.table defaults) := by
  refine (accept _).bind fun temporary => (expectKeyword _).bind fun _ => ?_
  refine ifNotExists.bind fun exists? => qualifiedName.bind fun names => (at? _).bind fun _ => ?_
  have hentries := parenthesized (commaSeparated tableEntry)
  refine .ite ((fail fun _ => rfl).bind fun _ => ?_) ?_
  · exact hentries.bind fun _ => tableOptions.bind fun _ => .pure _
  · exact hentries.bind fun _ => tableOptions.bind fun _ => .pure _

/-! ### Statements -/

theorem statementEnd : Stepwise Parse.statementEnd := by
  refine (accept _).bind fun _ => .ite (.pure _) ?_
  exact (at? _).bind fun _ => .ite (.pure _) (.refuse _)

theorem skipStatement : Stepwise Parse.skipStatement := by
  refine (skipWhile _).bind fun _ => kind.bind fun k => ?_
  split
  · exact .refuse _
  · exact .pure _

theorem otherStatement : Stepwise Parse.otherStatement :=
  skipStatement.bind fun _ => (accept _).bind fun _ => .pure _

theorem statement (defaults : TableDefaults) : Stepwise (Parse.statement defaults) := by
  refine (accept _).bind fun _ => .ite ?_ otherStatement
  refine kind.bind fun _ => .ite ?_ otherStatement
  exact (table defaults).bind fun _ => statementEnd.bind fun _ => .pure _

theorem statement? (defaults : TableDefaults) : Stepwise (Parse.statement? defaults) :=
  (skipWhile _).bind fun _ => (at? _).bind fun _ => .ite (.pure none) (.map some (statement _))

/-- The reader of a whole source text is made of the steps of a cursor. -/
theorem statements (defaults : TableDefaults) : Stepwise (Parse.statements defaults) :=
  many (statement? defaults)

end Stepwise

end SchemaModels.Ddl

import SchemaModels.Proofs.Ddl.TakenTokens
import SchemaModels.Ddl.Table.Parser

/-!
# The grammar of table definitions

Which tokens a table definition takes, and how: one clause for each reader of the grammar. Names and
literals are told apart by the kinds of their tokens, not by what they say.
-/

namespace SchemaModels.Ddl

open Computability
open Parse (isWord)

theorem isDelimiter_of_isWord {words : List Text} {k : TokenKind} (h : isWord words k = true) :
    isDelimiter k = false := by
  cases k with
  | identifier name => rfl
  | _ => cases h

theorem isDelimiter_of_literal? {k : TokenKind} (h : k.literal?.isSome = true) :
    isDelimiter k = false := by
  cases k with
  | symbol s => cases h
  | _ => rfl

namespace Grammar

open Clause

/-! ### Tokens -/

def exactly (k : TokenKind) (hk : isDelimiter k = false) : Clause :=
  reading (fun k' => decide (k' = k)) fun _ h => (of_decide_eq_true h) ▸ hk

def keyword (k : Keyword) : Clause := exactly (.keyword k) rfl

def symbol (s : Symbol) (hs : isDelimiter (.symbol s) = false) : Clause := exactly (.symbol s) hs

def comma : Clause := symbol .comma rfl

def word (words : List Text) : Clause := reading (isWord words) fun _ => isDelimiter_of_isWord

/-- A token of a kind that is no symbol. -/
def kindOf (test : TokenKind → Bool) (h : ∀ s, test (.symbol s) = false) : Clause :=
  reading test fun k hk => by
    cases k with
    | symbol s => rw [h s] at hk; cases hk
    | _ => rfl

def identifier : Clause := kindOf (fun | .identifier _ => true | _ => false) fun _ => rfl

def name : Clause := kindOf (fun | .identifier _ | .keyword _ => true | _ => false) fun _ => rfl

def string : Clause := kindOf (fun | .string _ => true | _ => false) fun _ => rfl

def integer : Clause := kindOf (fun | .integer _ => true | _ => false) fun _ => rfl

def number : Clause := kindOf (fun | .integer _ | .float _ => true | _ => false) fun _ => rfl

def literal : Clause := reading (fun k => k.literal?.isSome) fun _ => isDelimiter_of_literal?

/-- One item or more, with commas between them. -/
def separated (item : Clause) : Clause := item * (comma * item + 1)∗

/-- A keyword and what stands behind it. -/
def keywordThen (behind : Keyword → Clause) : Clause := anyOf fun k => keyword k * behind k

/-! ### Default values -/

def arguments (argument : Clause) : Clause := group (1 + separated argument)

/-- A value, given what the arguments of calls are. -/
def valueWith (argument : Clause) : Clause :=
  literal + symbol .minus rfl * number + symbol .plus rfl * number + captured +
    identifier * (string + arguments argument + 1)

def valueOfDepth : Nat → Clause
  | 0 => 0
  | n + 1 => valueWith (valueOfDepth n)

/-- A default value, with the calls in it as deep as they are. -/
def value : Clause := anyOf valueOfDepth

/-! ### Types -/

def length? : Clause := group integer + 1

def precisionAndScale : Clause := group (integer * (comma * integer + 1)) + 1

def typeOfForm : TypeForm → Clause
  | .sized _ => length?
  | .precise _ => precisionAndScale
  | .plain _ => 1
  | .double => (word ["PRECISION"] + 1) * precisionAndScale
  | .character => (word ["VARYING"] + 1) * length?
  | .enum | .set => group (separated string)

def dataType : Clause := name * (anyOf typeOfForm + (captured + 1))

def modifierBehind : Keyword → Clause
  | .unsigned | .zerofill => 1
  | .character => keyword .set * name
  | .charset => name
  | _ => 0

def typeModifier : Clause := keywordThen modifierBehind + word ["SIGNED", "BINARY"] + 1

def fieldType : Clause := dataType * typeModifier∗

/-! ### Columns -/

def generated : Clause :=
  keyword .as * (captured * (keyword .stored + (keyword .virtual + 1)))

def check : Clause :=
  keyword .check * (captured * (keyword .not * word ["ENFORCED"] + (word ["ENFORCED"] + 1)))

/-- Behind `SET` and `NO` the next token is dropped. -/
def referenceAction : Clause := keyword .set * dropped + (word ["NO"] * dropped + name)

def referenceClause : Clause :=
  word ["MATCH"] * dropped +
    (keyword .on * (keyword .delete * referenceAction + keyword .update * referenceAction) + 1)

def references : Clause :=
  keyword .references *
    (name * ((symbol .dot rfl * name + 1) * ((captured + 1) * referenceClause∗)))

/-- What stands behind the keyword that begins an option. -/
def optionBehind : Keyword → Clause
  | .null | .autoIncrement | .key => 1
  | .not => keyword .null
  | .default => value
  | .primary => keyword .key
  | .unique => keyword .key + 1
  | .comment => string
  | .on => keyword .update * value
  | .collate => name
  | .generated => keyword .always * generated
  | .constraint => (name + 1) * check
  | _ => 0

def columnOption : Clause :=
  generated + check + references + keywordThen optionBehind + word ["VISIBLE", "INVISIBLE"] +
    word ["COLUMN_FORMAT", "STORAGE", "SRID"] * dropped + 1

def column : Clause := name * (fieldType * columnOption∗)

/-! ### Constraints -/

/-- Every attribute but the visibility drops what stands behind its word. -/
def indexAttribute : Clause :=
  word ["USING"] * dropped + (keyword .comment * dropped +
    (word ["KEY_BLOCK_SIZE"] * ((symbol .equal rfl + 1) * dropped) +
      (word ["WITH"] * (dropped * dropped) + (word ["VISIBLE", "INVISIBLE"] + 1))))

def keyOrder : Clause := word ["ASC", "DESC"] + 1

def keyPart : Clause := captured * keyOrder + name * ((captured + 1) * keyOrder)

def keyParts : Clause := group (separated keyPart)

def keyOrIndex : Clause := keyword .key + (keyword .index + 1)

def kindBehind : Keyword → Clause
  | .key | .index => 1
  | .primary | .foreign => keyword .key
  | .unique | .fulltext | .spatial => keyOrIndex
  | _ => 0

def constraintName? : Clause := keyword .constraint * (name + 1) + 1

def constraint : Clause :=
  constraintName? * (check + keywordThen kindBehind * ((name + 1) * (indexAttribute∗ *
    (keyParts * ((references + 1) * indexAttribute∗)))))

/-! ### Tables -/

def equals : Clause := symbol .equal rfl + 1

def optionValue : Clause := string + number + captured + name

def settingBehind : Keyword → Clause
  | .default => 1
  | .character => keyword .set * (equals * name)
  | .charset | .collate => equals * name
  | .comment => equals * string
  | .autoIncrement => equals * integer
  | _ => 0

def tableOption : Clause :=
  (comma + 1) * (keywordThen settingBehind + word ["PARTITION"] * balanced +
    identifier * (equals * optionValue) + 1)

def ifNotExists : Clause := keyword .if * (keyword .not * keyword .exists) + 1

def qualifiedName : Clause := name * (symbol .dot rfl * name + 1)

def entries : Clause := group (separated (constraint + column))

def table : Clause :=
  (keyword .temporary + 1) *
    (keyword .table * (ifNotExists * (qualifiedName * (entries * tableOption∗))))

def createTable : Clause := keyword .create * table

end Grammar

end SchemaModels.Ddl

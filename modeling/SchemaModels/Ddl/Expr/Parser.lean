import SchemaModels.Ddl.Expr
import SchemaModels.Ddl.Group

/-!
# Reading default values

The value behind `DEFAULT` or `ON UPDATE`: a literal, a number with a sign, a call, or a group in
parentheses that is kept as text. The arguments of a call are such values again; each of them
begins behind the token with which the call began.
-/

namespace SchemaModels.Ddl

/-- The literal that a single token spells. -/
def TokenKind.literal? : TokenKind → Option Literal
  | .integer n => some (.integer n)
  | .float x => some (.float x)
  | .string s => some (.string s)
  | .blob bs => some (.blob bs)
  | .keyword .true => some (.boolean true)
  | .keyword .false => some (.boolean false)
  | .keyword .null => some .null
  | _ => none

namespace Parse

/-- The number behind a sign. -/
def signedNumber (negative : Bool) : Parse Expr := do
  match ← kind with
  | .integer n =>
    advance
    return .literal (.integer (if negative then -n else n))
  | .float x =>
    advance
    return .literal (.float (if negative then x.neg else x))
  | _ => refuse .number

def arguments (argument : Parse Expr) : Parse (List Expr) :=
  parenthesized do
    if ← atSymbol .rightParen then return [] else commaSeparated argument

/-- What a word begins, read from behind it: a string with the name of its charset in front, or a
call. -/
def wordExpr (argument : Parse Expr) (word : Text) : Parse Expr := do
  match ← kind with
  | .string s =>
    advance
    return .literal (.string s)
  | .symbol .leftParen => return .call word (← arguments argument)
  | _ => return .call word []

/-- A string behind the word `b` is a bit value, which is kept as it is written. -/
def bitValue (word source : Text) : Expr → Expr
  | .literal (.string s) =>
    if Text.SameWord word "b" then .raw source else .literal (.string s)
  | e => e

/-- An expression, given how its arguments are read. -/
def exprWith (argument : Parse Expr) : Parse Expr := do
  let first ← kind
  if let some l := first.literal? then
    advance
    return .literal l
  match first with
  | .symbol .minus =>
    advance
    signedNumber true
  | .symbol .plus =>
    advance
    signedNumber false
  | .symbol .leftParen => return .raw (← rawGroup)
  | .identifier word =>
    let (e, source) ← withSource do
      advance
      wordExpr argument word
    return bitValue word source e
  | _ => refuse .defaultValue

def expr : Parse Expr := fun c =>
  exprWith
    (fun d => if d.ahead.length < c.ahead.length then expr d else refuse .defaultValue d) c
termination_by c => c.ahead.length

end Parse

end SchemaModels.Ddl

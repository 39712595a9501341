import SchemaModels.Text.Basic

/-!
# Plurals

English plurals by the form of a word's end. The rules are tried in order, the first that fits
wins; each is tried in capitals, then as written, then without regard to letter case. A word that
no rule changes counts as plural already.
-/

namespace SchemaModels.Naming

/-- How the letters of a rule are compared with those of a word. -/
inductive LetterCase
  | capitals
  | written
  /-- Either case; two letters outside ASCII also stand for `s` and `k`. -/
  | folded
  deriving DecidableEq, Repr

def foldLetter (c : Char) : Char :=
  if c = '\u017f' then 's' else if c = '\u212a' then 'k' else c.toLower

/-- A set of letters in a rule. -/
inductive Letters
  | only (choices : List Char)
  | except (choices : List Char)
  | any

namespace Letters

/-- Whether a character is among some small letters, in the given case. -/
def isAmong (mode : LetterCase) (choices : List Char) (c : Char) : Bool :=
  match mode with
  | .capitals => choices.any (·.toUpper = c)
  | .written => choices.any (· = c)
  | .folded => choices.any (· = foldLetter c)

def allows (mode : LetterCase) (c : Char) : Letters → Bool
  | only cs => isAmong mode cs c
  | except cs => !isAmong mode cs c
  | any => match mode with
    | .capitals => 'A' ≤ c && c ≤ 'Z'
    | .written => 'a' ≤ c && c ≤ 'z'
    | .folded => 'a' ≤ foldLetter c && foldLetter c ≤ 'z'

/-- The letters of a text one by one. -/
def ofText (t : String) : List Letters := t.toList.map fun c => only [c]

end Letters

/-- The end of a word: what the plural keeps and what it drops. -/
structure Ending where
  kept : List Letters
  dropped : List Letters := []

structure PluralRule where
  /-- Whether the ending has to be the whole word. -/
  isWhole : Bool := false
  endings : List Ending
  added : Text

/-- The part of a word that its plural keeps, if the word has the given ending. -/
def Ending.stem? (mode : LetterCase) (isWhole : Bool) (e : Ending) (word : Text) : Option Text :=
  let letters := e.kept ++ e.dropped
  let front := word.take (word.length - letters.length)
  let tail := word.drop (word.length - letters.length)
  let fits := tail.length = letters.length && (tail.zip letters).all fun p => p.2.allows mode p.1
  if fits && (!isWhole || front.isEmpty) then some (word.take (word.length - e.dropped.length))
  else none

namespace PluralRule

def pluralIn? (mode : LetterCase) (r : PluralRule) (word : Text) : Option Text :=
  (r.endings.findSome? (·.stem? mode r.isWhole word)).map
    (· ++ if mode = .capitals then Text.upper r.added else r.added)

def plural? (r : PluralRule) (word : Text) : Option Text :=
  (r.pluralIn? .capitals word).or ((r.pluralIn? .written word).or (r.pluralIn? .folded word))

end PluralRule

/-- Words that are their own plural, in any letter case. -/
def uncountable : List String :=
  ["equipment", "information", "rice", "money", "species", "series", "fish", "sheep", "jeans",
   "police"]

/-- Words with a plural of their own. A longer word that ends in one of them forms its plural in
the same way. -/
def irregular : List (String × String) :=
  [("person", "people"), ("man", "men"), ("child", "children"), ("sex", "sexes"),
   ("move", "moves"), ("mombie", "mombies")]

/-- A word that begins with a capital. -/
def titled : Text → Text
  | [] => []
  | c :: t => c.toUpper :: t

/-- The plural of a word that ends in an irregular one, written in capitals, with a capital at its
beginning, or in small letters. -/
def irregular? (entry : String × String) (word : Text) : Option Text :=
  [Text.upper, titled, id].findSome? fun (style : Text → Text) =>
    let front := word.take (word.length - entry.1.length)
    if front ++ style entry.1 = word then some (front ++ style entry.2) else none

open Letters (ofText) in
/-- The regular rules, the most special one first. -/
def pluralRules : List PluralRule :=
  [⟨false, [⟨ofText "quiz", []⟩], "zes"⟩,
   ⟨true, [⟨ofText "oxen", []⟩], ""⟩,
   ⟨true, [⟨ofText "ox", []⟩], "en"⟩,
   ⟨true, [⟨[.only ['m', 'l']], ofText "ice"⟩], "ice"⟩,
   ⟨true, [⟨[.only ['m', 'l']], ofText "ouse"⟩], "ice"⟩,
   ⟨false, ["matr", "vert", "ind"].map fun t => ⟨ofText t, [.only ['i', 'e'], .only ['x']]⟩,
     "ices"⟩,
   ⟨false, ["x", "ch", "ss", "sh"].map fun t => ⟨ofText t, []⟩, "es"⟩,
   ⟨false, [⟨ofText "qu", ofText "y"⟩, ⟨[.except ['a', 'e', 'i', 'o', 'u', 'y']], ofText "y"⟩],
     "ies"⟩,
   ⟨false, [⟨ofText "hive", []⟩], "s"⟩,
   ⟨false, [⟨[.except ['f']], ofText "fe"⟩, ⟨[.only ['l', 'r']], ofText "f"⟩], "ves"⟩,
   ⟨false, [⟨[], ofText "sis"⟩], "ses"⟩,
   ⟨false, [⟨[.only ['t', 'i']], ofText "a"⟩], "a"⟩,
   ⟨false, [⟨[.only ['t', 'i']], ofText "um"⟩], "a"⟩,
   ⟨false, ["buffal", "tomat"].map fun t => ⟨ofText t, ofText "o"⟩, "oes"⟩,
   ⟨false, [⟨ofText "bu", ofText "s"⟩], "ses"⟩,
   ⟨false, ["alias", "status", "campus"].map fun t => ⟨ofText t, []⟩, "es"⟩,
   ⟨false, ["octop", "vir"].map fun t => ⟨ofText t, ofText "i"⟩, "i"⟩,
   ⟨false, ["octop", "vir"].map fun t => ⟨ofText t, ofText "us"⟩, "i"⟩,
   ⟨true, ["ax", "test"].map fun t => ⟨ofText t, ofText "is"⟩, "es"⟩,
   ⟨false, [⟨[], ofText "s"⟩], "s"⟩,
   ⟨false, [⟨[.any], []⟩], "s"⟩]

def isUncountable (word : Text) : Bool :=
  uncountable.any fun u => word.map foldLetter = u.toList

def pluralize (word : Text) : Text :=
  if isUncountable word then word
  else ((irregular.findSome? (irregular? · word)).or
    (pluralRules.findSome? (·.plural? word))).getD word

def isPlural (word : Text) : Bool := pluralize word = word

end SchemaModels.Naming

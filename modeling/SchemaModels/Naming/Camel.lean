import SchemaModels.Text.Ascending

/-!
# Names of structs and fields

A name is cut into words at separators and at digits; each word begins with a capital, or is all
capitals if it is an acronym. Digits stay where they are, separators and all other characters
vanish. `mem_camel` says that only letters and digits remain.
-/

namespace SchemaModels.Naming

/-! ### Acronyms -/

/-- Acronyms in capitals, none of them empty. -/
structure Acronyms where
  words : TextSet
  deriving DecidableEq, Inhabited

namespace Acronyms

/-- The given words in capitals, without the blanks around them and without the blank ones. -/
def ofList (words : List Text) : Acronyms :=
  ⟨.ofList ((words.map fun w => Text.upper (Text.trim w)).filter (· ≠ []))⟩

/-- Whether a word in any letter case is one of the acronyms. -/
def contains (a : Acronyms) (word : Text) : Bool := Text.upper word ∈ a.words

def standard : Acronyms := ofList ["ID", "IP", "RPC"]

/-- The spelling of a word: capitals for an acronym. -/
def spell (a : Acronyms) (word : Text) : Text :=
  if a.contains word then Text.upper word else word

end Acronyms

/-! ### Camel case -/

def isSeparator (c : Char) : Bool := c == '_' || c == ' ' || c == '-' || c == '.'

/-- A stretch of a name: characters between separators and digits, or one of those. -/
inductive Piece
  | word (chars : Text)
  | mark (c : Char)
  deriving DecidableEq, Repr

def pieces : Text → List Piece
  | [] => []
  | c :: t =>
    if c.isDigit || isSeparator c then .mark c :: pieces t
    else match pieces t with
      | .word w :: ps => .word (c :: w) :: ps
      | ps => .word [c] :: ps

/-- The letters of a stretch. Its first character is made a capital if it is a letter; where
something else comes first, the letters stay as they are. -/
def capitalized : Text → Text
  | [] => []
  | c :: t => (c.toUpper :: t).filter Text.isLetter

def Piece.text (a : Acronyms) : Piece → Text
  | .word w => a.spell (capitalized w)
  | .mark c => if c.isDigit then [c] else []

def camel (a : Acronyms) (name : Text) : Text := (pieces (Text.trim name)).flatMap (Piece.text a)

theorem isLetter_of_mem_capitalized {c : Char} {w : Text} (h : c ∈ capitalized w) :
    Text.isLetter c = true := by
  cases w with
  | nil => simp [capitalized] at h
  | cons d t => exact (List.mem_filter.1 h).2

theorem isLetter_of_mem_spell {a : Acronyms} {c : Char} {w : Text}
    (hw : ∀ d ∈ w, Text.isLetter d = true) (h : c ∈ a.spell w) : Text.isLetter c = true := by
  unfold Acronyms.spell at h
  split at h
  · obtain ⟨d, hd, rfl⟩ := List.mem_map.1 h
    exact Text.isLetter_toUpper (hw d hd)
  · exact hw c h

/-- Only letters and digits make up a name. -/
theorem mem_camel {a : Acronyms} {c : Char} {name : Text} (h : c ∈ camel a name) :
    Text.isLetter c = true ∨ c.isDigit = true := by
  obtain ⟨p, _, hc⟩ := List.mem_flatMap.1 h
  cases p with
  | word w => exact Or.inl (isLetter_of_mem_spell (fun _ => isLetter_of_mem_capitalized) hc)
  | mark d =>
    by_cases hd : d.isDigit = true
    · simp only [Piece.text, hd, if_true, List.mem_singleton] at hc
      exact Or.inr (hc ▸ hd)
    · simp [Piece.text, hd] at hc

/-! ### Fields

Two words are written in capitals wherever they begin, acronym or not. -/

def capitalizeId : Text → Text
  | 'I' :: 'd' :: t => 'I' :: 'D' :: capitalizeId t
  | c :: t => c :: capitalizeId t
  | [] => []

def capitalizeUrl : Text → Text
  | 'U' :: 'r' :: 'l' :: t => 'U' :: 'R' :: 'L' :: capitalizeUrl t
  | c :: t => c :: capitalizeUrl t
  | [] => []

def fieldName (a : Acronyms) (column : Text) : Text :=
  capitalizeUrl (capitalizeId (camel a column))

end SchemaModels.Naming

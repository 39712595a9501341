import SchemaModels.Number.Decimal

/-!
# Reading JSON

Readers take values of a known type off the front of a text. Nothing is read ahead: the first thing
that is wrong decides the fault, be it the form of the text, a value of another type, or the end of
the text where more is needed.
-/

namespace SchemaModels.Tool.Json

inductive Fault
  /-- The text is no JSON. -/
  | malformed
  /-- The text is JSON so far, but not of the shape that is needed. -/
  | misfit
  /-- The text ends inside a value. -/
  | ended
  deriving DecidableEq, Repr, Inhabited

abbrev Reader := StateT Text (Except Fault)

/-! ### Characters -/

def isBlank (c : Char) : Bool := c == ' ' || c == '\n' || c == '\t' || c == '\r'

def skipBlank : Reader Unit := modify (·.dropWhile isBlank)

def peek? : Reader (Option Char) := return (← get).head?

def advance : Reader Unit := modify List.tail

def accept (c : Char) : Reader Bool := do
  let present := (← peek?) = some c
  if present then advance
  return present

/-- Reads the given characters. -/
def literal : Text → Reader Unit
  | [] => return
  | c :: cs => do
    match ← peek? with
    | none => throw .ended
    | some d => if d = c then advance else throw .malformed
    literal cs

/-- Repeats a step with a state until it declines. A step that reads nothing is the last one. -/
def repeatFrom (step : σ → Reader (Option σ)) (s : σ) : Reader σ := fun t =>
  match step s t with
  | .error f => .error f
  | .ok (none, r) => .ok (s, r)
  | .ok (some s', r) => if r.length < t.length then repeatFrom step s' r else .ok (s', r)
termination_by t => t.length

/-! ### Strings -/

/-- Four hexadecimal digits. -/
def hexUnit : Text → Except Fault (Nat × Text)
  | a :: b :: c :: d :: r =>
    if [a, b, c, d].all Text.isHexDigit then
      .ok ([a, b, c, d].foldl (fun n x => 16 * n + Text.hexDigitValue x) 0, r)
    else .error .malformed
  | t => .error (if Text.byteLength t < 4 then .ended else .malformed)

def isHighUnit (n : Nat) : Bool := 0xD800 ≤ n && n ≤ 0xDBFF

def isLowUnit (n : Nat) : Bool := 0xDC00 ≤ n && n ≤ 0xDFFF

/-- The second of the two units that make a character. -/
def lowUnit : Text → Except Fault (Nat × Text)
  | [] | ['\\'] => .error .ended
  | '\\' :: 'u' :: r =>
    match hexUnit r with
    | .ok (n, r) => if isLowUnit n then .ok (n, r) else .error .malformed
    | .error f => .error f
  | _ => .error .malformed

/-- The character behind `\u`. -/
def unicodeEscape (t : Text) : Except Fault (Char × Text) :=
  match hexUnit t with
  | .error f => .error f
  | .ok (high, r) =>
    if isLowUnit high then .error .malformed
    else if isHighUnit high then
      match lowUnit r with
      | .ok (low, r) =>
        .ok (Char.ofNat (0x10000 + (high - 0xD800) * 0x400 + (low - 0xDC00)), r)
      | .error f => .error f
    else .ok (Char.ofNat high, r)

/-- The letters that stand for a character behind a backslash. -/
def escapes : List (Char × Char) :=
  [('"', '"'), ('\\', '\\'), ('/', '/'), ('b', '\x08'), ('f', '\x0c'), ('n', '\n'), ('r', '\r'),
   ('t', '\t')]

/-- The character behind a backslash. -/
def escape : Text → Except Fault (Char × Text)
  | [] => .error .ended
  | c :: r =>
    if c = 'u' then unicodeEscape r
    else match escapes.lookup c with
      | some d => .ok (d, r)
      | none => .error .malformed

theorem length_hexUnit_le {t r : Text} {n : Nat} (h : hexUnit t = .ok (n, r)) :
    r.length ≤ t.length := by
  unfold hexUnit at h
  split at h
  · split at h
    · cases h
      simp only [List.length_cons]
      omega
    · cases h
  · cases h

theorem length_lowUnit_le {t r : Text} {n : Nat} (h : lowUnit t = .ok (n, r)) :
    r.length ≤ t.length := by
  unfold lowUnit at h
  split at h
  · cases h
  · cases h
  · split at h
    · rename_i hn
      have := length_hexUnit_le hn
      split at h
      · cases h
        simp only [List.length_cons]
        omega
      · cases h
    · cases h
  · cases h

theorem length_unicodeEscape_le {t r : Text} {c : Char} (h : unicodeEscape t = .ok (c, r)) :
    r.length ≤ t.length := by
  unfold unicodeEscape at h
  split at h
  · cases h
  · rename_i hn
    have h1 := length_hexUnit_le hn
    split at h
    · cases h
    · split at h
      · split at h
        · rename_i hl
          have h2 := length_lowUnit_le hl
          rw [← (Prod.mk.inj (Except.ok.inj h)).2]
          omega
        · cases h
      · rw [← (Prod.mk.inj (Except.ok.inj h)).2]
        exact h1

theorem length_escape_le {t r : Text} {c : Char} (h : escape t = .ok (c, r)) :
    r.length ≤ t.length := by
  unfold escape at h
  split at h
  · cases h
  · split at h
    · exact Nat.le_succ_of_le (length_unicodeEscape_le h)
    · split at h
      · cases h
        simp
      · cases h

/-- The characters of a string up to the quote that closes it. -/
def stringChars : Text → Except Fault (Text × Text)
  | [] => .error .ended
  | '"' :: r => .ok ([], r)
  | '\\' :: r =>
    match h : escape r with
    | .error f => .error f
    | .ok (c, r') =>
      have := length_escape_le h
      (stringChars r').map fun (cs, rest) => (c :: cs, rest)
  | c :: r =>
    if c.toNat < 0x20 then .error .malformed
    else (stringChars r).map fun (cs, rest) => (c :: cs, rest)
termination_by t => t.length
decreasing_by all_goals simp; try omega

/-- A string from its opening quote on. -/
def quotedString : Reader Text := fun t => stringChars t.tail

/-! ### Numbers -/

/-- At least one digit. -/
def digits : Reader Text := do
  let t ← get
  let ds := t.takeWhile Char.isDigit
  if ds = [] then throw (if t = [] then .ended else .malformed)
  set (t.dropWhile Char.isDigit)
  return ds

/-- The digits before the point; the first of several is not zero. -/
def wholeDigits : Reader Text := do
  let ds ← digits
  if ds.length > 1 && ds.head? = some '0' then throw .malformed
  return ds

def fraction : Reader Text := do
  if ← accept '.' then digits else return []

def exponent? : Reader (Option Int) := do
  let small ← accept 'e'
  let marked ← if small then pure true else accept 'E'
  if marked then
    let negative ← accept '-'
    unless negative do
      let _ ← accept '+'
    let n : Int := Text.value (← digits)
    return some (if negative then -n else n)
  else return none

/-- A number within the range of doubles; its value if it is a natural number of 64 bits. -/
def number : Reader (Option UInt64) := do
  let negative ← accept '-'
  let whole ← wholeDigits
  let fraction ← fraction
  let exponent ← exponent?
  let isWhole := fraction = [] && exponent.isNone
  let n := Text.value whole
  if isWhole && n < 2 ^ 64 then return if negative then none else some (.ofNat n)
  if (Decimal.ofDigits whole fraction (exponent.getD 0)).overflows then throw .malformed
  return none

/-! ### Values -/

/-- Reads as much of a value of another type as shows whether it is one, and fails. -/
def refuse : Reader α := do
  match ← peek? with
  | none => throw .ended
  | some c =>
    match c with
    | 'n' => literal "null"
    | 't' => literal "true"
    | 'f' => literal "false"
    | '"' =>
      let _ ← quotedString
    | '[' | '{' => return ← throw .misfit
    | _ =>
      if c = '-' || c.isDigit then
        let _ ← number
      else throw .malformed
    throw .misfit

def string : Reader Text := do
  skipBlank
  if (← peek?) = some '"' then quotedString else refuse

def switch : Reader Bool := do
  skipBlank
  match ← peek? with
  | some 't' =>
    literal "true"
    return true
  | some 'f' =>
    literal "false"
    return false
  | _ => refuse

def count : Reader UInt64 := do
  skipBlank
  let c ← peek?
  if c.any fun c => c = '-' || c.isDigit then
    match ← number with
    | some n => return n
    | none => throw .misfit
  else refuse

/-- A value that may be `null`. -/
def option (value : Reader α) : Reader (Option α) := do
  skipBlank
  if (← peek?) = some 'n' then
    literal "null"
    return none
  else some <$> value

/-! ### Arrays and objects -/

/-- Moves to the next item of an array, if there is one. -/
def nextItem (isFirst : Bool) : Reader Bool := do
  skipBlank
  match ← peek? with
  | none => throw .ended
  | some ']' =>
    advance
    return false
  | some c =>
    if isFirst then return true
    if c ≠ ',' then throw .malformed
    advance
    skipBlank
    match ← peek? with
    | none => throw .ended
    | some ']' => throw .malformed
    | some _ => return true

/-- Reads the bracket that closes an array of which no more items are wanted. -/
def closeArray : Reader Unit := do
  skipBlank
  match ← peek? with
  | none => throw .ended
  | some ']' => advance
  | some _ => throw .malformed

def array (item : Reader α) : Reader (List α) := do
  skipBlank
  if ← accept '[' then
    let (_, as) ← repeatFrom (fun (isFirst, as) => do
      if ← nextItem isFirst then return some (false, (← item) :: as) else return none) (true, [])
    return as.reverse
  else refuse

/-- The name of the next member of an object, if there is one. -/
def nextName (isFirst : Bool) : Reader (Option Text) := do
  skipBlank
  match ← peek? with
  | none => throw .ended
  | some '}' =>
    advance
    return none
  | some c =>
    unless isFirst do
      if c ≠ ',' then throw .malformed
      advance
      skipBlank
    match ← peek? with
    | none => throw .ended
    | some '"' => some <$> quotedString
    | some _ => throw .malformed

def colon : Reader Unit := do
  skipBlank
  match ← peek? with
  | none => throw .ended
  | some ':' => advance
  | some _ => throw .malformed

/-- The members of an object, from behind its opening brace; `member` is at the colon. -/
def members (member : Text → σ → Reader σ) (s : σ) : Reader σ := do
  let (_, s) ← repeatFrom (fun (isFirst, s) => do
    match ← nextName isFirst with
    | none => return none
    | some name => return some (false, ← member name s)) (true, s)
  return s

/-- An object in which a name that comes again replaces what it stood for. -/
def dictionary (value : Reader α) : Reader (List (Text × α)) := do
  skipBlank
  if ← accept '{' then
    members (fun name entries => do
      colon
      let v ← value
      return (name, v) :: entries.filter (·.1 ≠ name)) []
  else refuse

/-! ### Records -/

/-- A field of a record: its name, and how its value goes into a record. -/
structure Field (σ : Type) where
  name : Text
  read : σ → Reader σ

/-- The fields of a record as an array, in order; the last ones may be missing. -/
def items : List (Field σ) → (isFirst : Bool) → σ → Reader σ
  | [], _, s => do
    closeArray
    return s
  | f :: fs, isFirst, s => do
    if ← nextItem isFirst then items fs false (← f.read s) else return s

/-- A member of a record, which also holds the names that have come already. -/
def fieldMember (fields : List (Field σ)) (name : Text) : σ × List Text → Reader (σ × List Text)
  | (s, seen) => do
    match fields.find? (·.name = name) with
    | none => throw .misfit
    | some f =>
      if name ∈ seen then throw .misfit
      colon
      return (← f.read s, name :: seen)

/-- A record as an object or as an array. Every field may be missing, none may come twice. -/
def record (fields : List (Field σ)) (s : σ) : Reader σ := do
  skipBlank
  if ← accept '[' then items fields true s
  else if ← accept '{' then return (← members (fieldMember fields) (s, [])).1
  else refuse

/-- A text that is one value and nothing else. -/
def document (value : Reader α) (t : Text) : Except Fault α := do
  let (a, r) ← value t
  if r.all isBlank then return a else throw .malformed

end SchemaModels.Tool.Json

import SchemaModels.Proofs.Go.Scanning

/-!
# The regions of a text

A reader that knows nothing of lines goes over a text from its first character on and never looks
ahead. What it is inside of (`Region`) follows from what it has read: a slash, an asterisk or a
backslash is kept in mind until the next character shows what it was for. The brackets that it meets
in code are nested or not (`Nested`), and one of them is the innermost open one (`Innermost`) or
none is.
-/

namespace SchemaModels.Go.Format

/-! ### Regions -/

/-- What a place in a text is inside of. -/
inductive Region
  | code | string | rune | rawString | lineComment | blockComment
  deriving DecidableEq, Repr, Inhabited

/-- What is known behind some characters. `pending` says that the last one may be the first half of
a pair: a slash in code, an asterisk in a block comment, a backslash in a string or a rune. -/
structure Reading where
  region : Region
  pending : Bool
  deriving DecidableEq, Repr, Inhabited

namespace Reading

def start : Reading := ⟨.code, false⟩

/-- One more character of a literal that ends at a quote: a backslash escapes the next character of
its line, and the end of the line is an error. -/
def nextInLiteral (r : Reading) (quote c : Char) : Option Reading :=
  if c = '\n' then none
  else if r.pending then some ⟨r.region, false⟩
  else if c = '\\' then some ⟨r.region, true⟩
  else some ⟨if c = quote then .code else r.region, false⟩

/-- One more character, if it may follow. -/
def next (r : Reading) (c : Char) : Option Reading :=
  match r.region with
  | .code => some (
    if r.pending ∧ c = '/' then ⟨.lineComment, false⟩
    else if r.pending ∧ c = '*' then ⟨.blockComment, false⟩
    else if c = '"' then ⟨.string, false⟩
    else if c = '\'' then ⟨.rune, false⟩
    else if c = '\x60' then ⟨.rawString, false⟩
    else ⟨.code, c = '/'⟩)
  | .string => r.nextInLiteral '"' c
  | .rune => r.nextInLiteral '\'' c
  | .rawString => some ⟨if c = '\x60' then .code else .rawString, false⟩
  | .lineComment => some ⟨if c = '\n' then .code else .lineComment, false⟩
  | .blockComment => some (
    if r.pending ∧ c = '/' then ⟨.code, false⟩ else ⟨.blockComment, c = '*'⟩)

/-- What is known behind some more characters. -/
def behind (r : Reading) (t : Text) : Option Reading := t.foldlM next r

theorem behind_cons (r : Reading) (c : Char) (t : Text) :
    r.behind (c :: t) = (r.next c).bind (·.behind t) :=
  List.foldlM_cons

theorem behind_append (r : Reading) (t u : Text) :
    r.behind (t ++ u) = (r.behind t).bind (·.behind u) :=
  List.foldlM_append

end Reading

/-- What is known behind a text that is read from its beginning; nothing is if a line break stands
in a string or a rune. -/
def reading (t : Text) : Option Reading := Reading.start.behind t

/-- What the end of a text is inside of. -/
def region (t : Text) : Option Region := (reading t).map (·.region)

theorem region_of_reading {t : Text} {r : Reading} (h : reading t = some r) :
    region t = some r.region := by
  rw [region, h, Option.map_some]

theorem reading_concat (t : Text) (c : Char) :
    reading (t ++ [c]) = (reading t).bind (·.next c) := by
  rw [reading, Reading.behind_append]
  refine congrArg (Option.bind _) (funext fun r => ?_)
  rw [Reading.behind_cons]
  exact Option.bind_fun_some (r.next c)

theorem reading_ne_none_of_isPrefix {s t : Text} (h : s <+: t) (ht : reading t ≠ none) :
    reading s ≠ none := by
  obtain ⟨u, rfl⟩ := h
  intro hs
  rw [reading, Reading.behind_append] at ht
  exact ht (congrArg (Option.bind · _) hs)

/-! ### Brackets -/

def Bracket.opening : Bracket → Char
  | .round => '('
  | .square => '['
  | .curly => '{'

def isOpening (c : Char) : Bool := (Bracket.opened? c).isSome

@[simp] theorem opened?_opening (b : Bracket) : Bracket.opened? b.opening = some b := by
  cases b <;> rfl

@[simp] theorem opened?_closing (b : Bracket) : Bracket.opened? b.closing = none := by
  cases b <;> rfl

@[simp] theorem isOpening_opening (b : Bracket) : isOpening b.opening = true := by
  cases b <;> rfl

@[simp] theorem isClosing_opening (b : Bracket) : isClosing b.opening = false := by
  cases b <;> rfl

@[simp] theorem isOpening_closing (b : Bracket) : isOpening b.closing = false := by
  cases b <;> rfl

@[simp] theorem isClosing_closing (b : Bracket) : isClosing b.closing = true := by
  cases b <;> rfl

theorem opening_of_opened? {c : Char} {b : Bracket} (h : Bracket.opened? c = some b) :
    b.opening = c := by
  cases b <;> grind [Bracket.opened?, Bracket.opening]

theorem opened?_of_isClosing {c : Char} (h : isClosing c = true) : Bracket.opened? c = none := by
  simp only [isClosing, Bool.or_eq_true, beq_iff_eq] at h
  obtain (rfl | rfl) | rfl := h <;> rfl

/-- The brackets among some more characters that stand in code. -/
def Reading.brackets : Reading → Text → List Char
  | _, [] => []
  | r, c :: t =>
    (if r.region = .code ∧ (isOpening c || isClosing c) then [c] else []) ++
      (r.next c).elim [] (·.brackets t)

/-- The brackets of a text that stand in code. -/
def brackets (t : Text) : List Char := Reading.start.brackets t

theorem Reading.brackets_append (r : Reading) (t u : Text) :
    r.brackets (t ++ u) = r.brackets t ++ (r.behind t).elim [] (·.brackets u) := by
  induction t generalizing r with
  | nil => rfl
  | cons c t ih =>
      rw [List.cons_append, brackets, brackets, behind_cons, List.append_assoc]
      cases r.next c with
      | none => rfl
      | some r' => exact congrArg _ (ih r')

theorem brackets_concat (t : Text) (c : Char) : brackets (t ++ [c]) =
    brackets t ++ if region t = some .code ∧ (isOpening c || isClosing c) then [c] else [] := by
  rw [brackets, Reading.brackets_append, region, reading]
  refine congrArg (brackets t ++ ·) ?_
  cases Reading.start.behind t with
  | none => rfl
  | some r =>
      simp only [Option.elim_some, Reading.brackets, Option.map_some, Option.some.injEq]
      cases r.next c <;> exact List.append_nil _

theorem brackets_prefix {s t : Text} (h : s <+: t) : brackets s <+: brackets t := by
  obtain ⟨u, rfl⟩ := h
  have happend := Reading.brackets_append .start s u
  exact ⟨_, happend.symm⟩

/-- Brackets that close each other. -/
inductive Nested : List Char → Prop
  | nil : Nested []
  | pair (b : Bracket) {s t : List Char} (hs : Nested s) (ht : Nested t) :
    Nested (b.opening :: (s ++ b.closing :: t))

theorem Nested.append {s t : List Char} (hs : Nested s) (ht : Nested t) : Nested (s ++ t) := by
  induction hs with
  | nil => exact ht
  | pair b hs _ _ ih =>
      rw [List.cons_append, List.append_assoc, List.cons_append]
      exact .pair b hs ih

theorem Nested.count_eq {s : List Char} (h : Nested s) :
    s.countP isClosing = s.countP isOpening := by
  induction h with
  | nil => rfl
  | pair b _ _ hs ht =>
      simp only [List.countP_cons, List.countP_append, isOpening_opening, isClosing_opening,
        isOpening_closing, isClosing_closing, hs, ht, if_true, if_false, Bool.false_eq_true]
      omega

/-! ### Open brackets -/

/-- The brackets that are open behind one more, the innermost one first. A bracket that closes one
has to close the innermost one. -/
def openNext (bs : List Bracket) (c : Char) : Option (List Bracket) :=
  match Bracket.opened? c with
  | some b => some (b :: bs)
  | none =>
    match bs with
    | [] => none
    | b :: bs => if b.closing = c then some bs else none

/-- The brackets that are open behind some more. -/
def openBehind (bs : List Bracket) (cs : List Char) : Option (List Bracket) := cs.foldlM openNext bs

theorem openBehind_append (bs : List Bracket) (s t : List Char) :
    openBehind bs (s ++ t) = (openBehind bs s).bind (openBehind · t) :=
  List.foldlM_append

theorem openBehind_opening (bs : List Bracket) (b : Bracket) (cs : List Char) :
    openBehind bs (b.opening :: cs) = openBehind (b :: bs) cs := by
  have hnext : openNext bs b.opening = some (b :: bs) := by simp [openNext]
  rw [openBehind, List.foldlM_cons, hnext]
  rfl

theorem openBehind_closing (bs : List Bracket) (b : Bracket) (cs : List Char) :
    openBehind (b :: bs) (b.closing :: cs) = openBehind bs cs := by
  have hnext : openNext (b :: bs) b.closing = some bs := by simp [openNext]
  rw [openBehind, List.foldlM_cons, hnext]
  rfl

/-- A bracket that closes another one than the innermost one leaves nothing open. -/
theorem openBehind_concat_eq_none {cs : List Char} {c : Char} (hc : isClosing c = true)
    (h : ∀ b bs, openBehind [] cs = some (b :: bs) → b.closing ≠ c) :
    openBehind [] (cs ++ [c]) = none := by
  rw [openBehind_append]
  cases hbs : openBehind [] cs with
  | none => rfl
  | some bs =>
      have hnext : openNext bs c = none := by
        cases bs with
        | nil => simp [openNext, opened?_of_isClosing hc]
        | cons b bs => simp [openNext, opened?_of_isClosing hc, h b bs hbs]
      rw [Option.bind_some, openBehind, List.foldlM_cons, hnext]
      rfl

/-- Nested brackets leave those around them open. -/
theorem Nested.openBehind_eq {s : List Char} (h : Nested s) (bs : List Bracket) :
    openBehind bs s = some bs := by
  induction h generalizing bs with
  | nil => rfl
  | pair b _ _ hs ht =>
      rw [openBehind_opening, openBehind_append, hs, Option.bind_some, openBehind_closing, ht]

/-- A bracket with nothing but nested ones behind it is the innermost open one. -/
theorem exists_of_openBehind {s t : List Char} (ht : Nested t) {b : Bracket} {bs bs' : List Bracket}
    (h : openBehind bs (s ++ b.opening :: t) = some bs') :
    ∃ os, openBehind bs s = some os ∧ bs' = b :: os := by
  rw [openBehind_append] at h
  obtain ⟨os, hos, h⟩ := Option.bind_eq_some_iff.1 h
  rw [openBehind_opening, ht.openBehind_eq] at h
  cases h
  exact ⟨os, hos, rfl⟩

/-- Nested brackets cannot be cut in two at a bracket that is nowhere closed. -/
theorem Nested.not_unclosed {s t : List Char} {b : Bracket} (ht : Nested t) :
    ¬ Nested (s ++ b.opening :: t) := by
  intro h
  obtain ⟨_, -, heq⟩ := exists_of_openBehind ht (h.openBehind_eq [])
  cases heq

/-- The bracket behind `front` is the innermost one that is open behind `before`: those that follow
it are nested. -/
structure Innermost (before front : Text) (b : Bracket) : Prop where
  isPrefix : front ++ [b.opening] <+: before
  isCode : region front = some .code
  nested : ∃ s, Nested s ∧ brackets before = brackets front ++ b.opening :: s

namespace Innermost

variable {before front front' : Text} {b b' : Bracket}

/-- Nested brackets change nothing. -/
theorem extend (h : Innermost before front b) {t : Text} {s : List Char} (ht : before <+: t)
    (hs : Nested s) (heq : brackets t = brackets before ++ s) : Innermost t front b := by
  obtain ⟨u, hu, hbrackets⟩ := h.nested
  refine ⟨h.isPrefix.trans ht, h.isCode, u ++ s, hu.append hs, ?_⟩
  rw [heq, hbrackets, List.append_assoc, List.cons_append]

theorem brackets_front (h : Innermost before front b) :
    brackets (front ++ [b.opening]) = brackets front ++ [b.opening] := by
  rw [brackets_concat, if_pos ⟨h.isCode, by simp⟩]

theorem not_nested (h : Innermost before front b) : ¬ Nested (brackets before) := by
  obtain ⟨s, hs, hbrackets⟩ := h.nested
  rw [hbrackets]
  exact hs.not_unclosed

/-- Behind an innermost open bracket there is no other one. -/
theorem length_le (h : Innermost before front b) (h' : Innermost before front' b') :
    front'.length ≤ front.length := by
  refine Nat.not_lt.1 fun hlt => ?_
  have hprefix : front ++ [b.opening] <+: front' :=
    List.prefix_of_prefix_length_le h.isPrefix ((List.prefix_append _ _).trans h'.isPrefix)
      (by simpa [Nat.succ_le_iff] using hlt)
  obtain ⟨s, hs, hbrackets⟩ := h.nested
  obtain ⟨s', hs', hbrackets'⟩ := h'.nested
  obtain ⟨w, hw⟩ := brackets_prefix hprefix
  rw [h.brackets_front] at hw
  rw [hbrackets, ← hw, List.append_assoc, List.append_assoc] at hbrackets'
  have hcut : s = w ++ b'.opening :: s' := by simpa using hbrackets'
  exact hs'.not_unclosed (hcut ▸ hs)

theorem unique (h : Innermost before front b) (h' : Innermost before front' b') :
    front = front' ∧ b = b' := by
  have heq := Nat.le_antisymm (h'.length_le h) (h.length_le h')
  have hlength : (front ++ [b.opening]).length = (front' ++ [b'.opening]).length := by
    simpa using heq
  have hbegins : front ++ [b.opening] <+: front' ++ [b'.opening] :=
    List.prefix_of_prefix_length_le h.isPrefix h'.isPrefix (Nat.le_of_eq hlength)
  obtain ⟨hfront, hopening⟩ := List.append_inj (hbegins.eq_of_length hlength) heq
  have hopened := congrArg Bracket.opened? (List.singleton_inj.1 hopening)
  rw [opened?_opening, opened?_opening] at hopened
  exact ⟨hfront, Option.some.inj hopened⟩

end Innermost

end SchemaModels.Go.Format

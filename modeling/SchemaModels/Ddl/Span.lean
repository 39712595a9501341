import SchemaModels.Text.Basic

/-!
# Places in a source text

A span is a range of byte offsets of the UTF-8 form. A slice exists only between character
boundaries; a position counts lines and characters from one.
-/

namespace SchemaModels

namespace Text

/-- The text from a byte offset on, where a character begins or the text ends there. -/
def dropBytes? : Nat → Text → Option Text
  | 0, t => some t
  | _ + 1, [] => none
  | n + 1, c :: t => if c.utf8Size ≤ n + 1 then dropBytes? (n + 1 - c.utf8Size) t else none

/-- The text up to a byte offset, where a character begins or the text ends there. -/
def takeBytes? : Nat → Text → Option Text
  | 0, _ => some []
  | _ + 1, [] => none
  | n + 1, c :: t =>
    if c.utf8Size ≤ n + 1 then (takeBytes? (n + 1 - c.utf8Size) t).map (c :: ·) else none

/-- The characters that end at or before a byte offset. -/
def charsBefore : Nat → Text → Text
  | _, [] => []
  | n, c :: t => if c.utf8Size ≤ n then c :: charsBefore (n - c.utf8Size) t else []

theorem dropBytes?_append (s t : Text) : dropBytes? (byteLength s) (s ++ t) = some t := by
  induction s with
  | nil => cases t <;> rfl
  | cons c s ih =>
    have hc := c.utf8Size_pos
    obtain ⟨k, hk⟩ : ∃ k, byteLength (c :: s) = k + 1 := ⟨byteLength (c :: s) - 1, by simp; omega⟩
    rw [hk, List.cons_append, dropBytes?]
    have hs : k + 1 - c.utf8Size = byteLength s := by simp at hk; omega
    have hle : c.utf8Size ≤ k + 1 := by simp at hk; omega
    simp [hle, hs, ih]

theorem takeBytes?_append (s t : Text) : takeBytes? (byteLength s) (s ++ t) = some s := by
  induction s with
  | nil => cases t <;> rfl
  | cons c s ih =>
    have hc := c.utf8Size_pos
    obtain ⟨k, hk⟩ : ∃ k, byteLength (c :: s) = k + 1 := ⟨byteLength (c :: s) - 1, by simp; omega⟩
    rw [hk, List.cons_append, takeBytes?]
    have hs : k + 1 - c.utf8Size = byteLength s := by simp at hk; omega
    have hle : c.utf8Size ≤ k + 1 := by simp at hk; omega
    simp [hle, hs, ih]

theorem charsBefore_append (s t : Text) : charsBefore (byteLength s) (s ++ t) = s := by
  induction s with
  | nil =>
    cases t with
    | nil => rfl
    | cons c t =>
      have := c.utf8Size_pos
      simp [charsBefore]
      omega
  | cons c s ih => simp [charsBefore, ih]

end Text

namespace Ddl

/-- The bytes from `start` up to and without `stop`. -/
structure Span where
  start : Nat
  stop : Nat
  deriving DecidableEq, Repr, Inhabited

/-- A line and a column, both counted from one. -/
structure Position where
  line : Nat
  column : Nat
  deriving DecidableEq, Repr, Inhabited

/-- The position right after some text. -/
def Position.after (t : Text) : Position :=
  t.foldl (fun p c => if c = '\n' then ⟨p.line + 1, 1⟩ else ⟨p.line, p.column + 1⟩) ⟨1, 1⟩

namespace Span

def length (s : Span) : Nat := s.stop - s.start

/-- The source text that a span covers; nothing where it leaves the text or splits a character. -/
def slice (s : Span) (source : Text) : Text :=
  if s.start ≤ s.stop then
    ((Text.dropBytes? s.start source).bind (Text.takeBytes? s.length)).getD []
  else []

theorem slice_append (a b c : Text) :
    slice ⟨Text.byteLength a, Text.byteLength a + Text.byteLength b⟩ (a ++ b ++ c) = b := by
  simp [slice, length, Text.dropBytes?_append, Text.takeBytes?_append]

/-- Where a span starts. An offset inside a character counts as that character's, one beyond the
text as its end. -/
def position (s : Span) (source : Text) : Position :=
  .after (Text.charsBefore s.start source)

end Span

end Ddl

end SchemaModels

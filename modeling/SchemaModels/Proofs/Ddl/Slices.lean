import SchemaModels.Ddl.Token

/-!
# Slices of a longer text

A span inside a text covers the same characters when more text follows, and so does a span that is
moved by the length of a text that is put in front.
-/

namespace SchemaModels

namespace Text

theorem byteLength_eq_zero {t : Text} : byteLength t = 0 ↔ t = [] := by
  cases t with
  | nil => simp
  | cons c t =>
      have hc := c.utf8Size_pos
      rw [byteLength_cons]
      exact iff_of_false (by omega) (List.cons_ne_nil c t)

theorem byteLength_pos {t : Text} (h : t ≠ []) : 0 < byteLength t :=
  Nat.pos_of_ne_zero (mt byteLength_eq_zero.1 h)

theorem dropBytes?_length_append (s t : Text) (n : Nat) :
    dropBytes? (byteLength s + n) (s ++ t) = dropBytes? n t := by
  induction s with
  | nil => simp
  | cons c s ih =>
      have hc := c.utf8Size_pos
      obtain ⟨k, hk⟩ : ∃ k, byteLength (c :: s) + n = k + 1 :=
        ⟨byteLength (c :: s) + n - 1, by simp; omega⟩
      rw [byteLength_cons] at hk
      rw [byteLength_cons, hk, List.cons_append, dropBytes?, if_pos (by omega), ← ih]
      congr 1
      omega

theorem dropBytes?_append_of_le {s : Text} {n : Nat} (h : n ≤ byteLength s) (t : Text) :
    dropBytes? n (s ++ t) = (dropBytes? n s).map (· ++ t) := by
  induction s generalizing n with
  | nil =>
      obtain rfl : n = 0 := Nat.le_zero.1 h
      cases t <;> rfl
  | cons c s ih =>
      rw [byteLength_cons] at h
      cases n with
      | zero => rfl
      | succ n =>
          rw [List.cons_append, dropBytes?, dropBytes?]
          by_cases hc : c.utf8Size ≤ n + 1
          · rw [if_pos hc, if_pos hc]
            exact ih (by omega)
          · rw [if_neg hc, if_neg hc]
            rfl

theorem takeBytes?_append_of_le {s : Text} {n : Nat} (h : n ≤ byteLength s) (t : Text) :
    takeBytes? n (s ++ t) = takeBytes? n s := by
  induction s generalizing n with
  | nil =>
      obtain rfl : n = 0 := Nat.le_zero.1 h
      cases t <;> rfl
  | cons c s ih =>
      rw [byteLength_cons] at h
      cases n with
      | zero => rfl
      | succ n =>
          rw [List.cons_append, takeBytes?, takeBytes?]
          by_cases hc : c.utf8Size ≤ n + 1
          · rw [if_pos hc, if_pos hc, ih (by omega)]
          · rw [if_neg hc, if_neg hc]

theorem byteLength_of_dropBytes? {s t : Text} {n : Nat} (h : dropBytes? n s = some t) :
    byteLength s = n + byteLength t := by
  induction s generalizing n with
  | nil =>
      cases n with
      | zero =>
          cases h
          rfl
      | succ n => cases h
  | cons c s ih =>
      cases n with
      | zero =>
          cases h
          simp
      | succ n =>
          rw [dropBytes?] at h
          split at h
          · have := ih h
            rw [byteLength_cons]
            omega
          · cases h

end Text

namespace Ddl

def Span.shift (k : Nat) (s : Span) : Span := ⟨s.start + k, s.stop + k⟩

def Token.shift (k : Nat) (t : Token) : Token := ⟨t.kind, t.span.shift k⟩

@[simp] theorem Token.kind_shift (k : Nat) (t : Token) : (t.shift k).kind = t.kind := rfl

@[simp] theorem Token.span_shift (k : Nat) (t : Token) : (t.shift k).span = t.span.shift k := rfl

namespace Span

theorem slice_append_of_le {s : Span} {source : Text} (h : s.stop ≤ Text.byteLength source)
    (later : Text) : s.slice (source ++ later) = s.slice source := by
  unfold slice
  by_cases hle : s.start ≤ s.stop
  · rw [if_pos hle, if_pos hle, Text.dropBytes?_append_of_le (by omega)]
    cases hd : Text.dropBytes? s.start source with
    | none => rfl
    | some t =>
        have hlength := Text.byteLength_of_dropBytes? hd
        rw [Option.map_some, Option.bind_some, Option.bind_some,
          Text.takeBytes?_append_of_le (by unfold length; omega)]
  · rw [if_neg hle, if_neg hle]

theorem slice_shift (prior source : Text) (s : Span) :
    (s.shift (Text.byteLength prior)).slice (prior ++ source) = s.slice source := by
  obtain ⟨start, stop⟩ := s
  simp only [slice, length, shift, Nat.add_sub_add_right]
  by_cases hle : start ≤ stop
  · rw [if_pos hle, if_pos (by omega), Nat.add_comm, Text.dropBytes?_length_append]
  · rw [if_neg hle, if_neg (by omega)]

end Span

end Ddl

end SchemaModels

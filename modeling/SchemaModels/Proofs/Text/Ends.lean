import SchemaModels.Proofs.Text.Parts

/-!
# Blanks at the ends of a text

Trimming takes away no more than the blanks at an end: it stops at the first character that is not
blank, from whichever side it comes. So a text is what is left of it with blanks on both sides
(`exists_trim`), and blanks put there are taken away again (`trim_blanks`).
-/

namespace SchemaModels.Text

theorem trimStart_append {s : Text} (h : s.all isBlank = true) (t : Text) :
    trimStart (s ++ t) = trimStart t :=
  List.dropWhile_append_of_pos (List.all_eq_true.1 h)

theorem trimStart_cons {c : Char} (hc : isBlank c = false) (t : Text) :
    trimStart (c :: t) = c :: t := by
  simp [trimStart, hc]

theorem trimEnd_append_cons {c : Char} (hc : isBlank c = false) (s t : Text) :
    trimEnd (s ++ c :: t) = s ++ c :: trimEnd t := by
  have hstop : ∀ u : Text, (u ++ c :: s.reverse).dropWhile isBlank =
      u.dropWhile isBlank ++ c :: s.reverse := by
    intro u
    induction u with
    | nil => simp [hc]
    | cons d u ih => cases hd : isBlank d <;> simp [hd, ih]
  simp [trimEnd, hstop]

theorem trimStart_trimEnd {s : Text} (hs : s.all isBlank = true) {c : Char} (hc : isBlank c = false)
    (t : Text) : trimStart (trimEnd (s ++ c :: t)) = c :: trimEnd t := by
  rw [trimEnd_append_cons hc, trimStart_append hs, trimStart_cons hc]

theorem isPrefix_trimEnd (t : Text) : trimEnd t <+: t := by
  have hsuffix := List.dropWhile_suffix (l := t.reverse) isBlank
  simpa [trimEnd] using List.reverse_prefix.2 hsuffix

theorem trimStart_of_all {s : Text} (hs : s.all isBlank = true) : trimStart s = [] :=
  dropWhile_of_all hs

theorem trimEnd_append {s : Text} (hs : s.all isBlank = true) (t : Text) :
    trimEnd (t ++ s) = trimEnd t := by
  have hreverse : ∀ c ∈ s.reverse, isBlank c = true := fun c hc =>
    List.all_eq_true.1 hs c (List.mem_reverse.1 hc)
  rw [trimEnd, List.reverse_append, List.dropWhile_append_of_pos hreverse]
  rfl

theorem trimEnd_of_all {s : Text} (hs : s.all isBlank = true) : trimEnd s = [] :=
  trimEnd_append hs []

theorem trimEnd_append_left {t : Text} (h : trimEnd t ≠ []) (s : Text) :
    trimEnd (s ++ t) = s ++ trimEnd t := by
  obtain ht | ⟨v, c, w, rfl, hv, hc⟩ := all_or_exists_first isBlank t
  · exact absurd (trimEnd_of_all ht) h
  · rw [← List.append_assoc, trimEnd_append_cons hc, trimEnd_append_cons hc, List.append_assoc]

theorem exists_trimStart (t : Text) : ∃ s, t = s ++ trimStart t ∧ s.all isBlank = true :=
  ⟨t.takeWhile isBlank, List.takeWhile_append_dropWhile.symm, List.all_takeWhile⟩

theorem exists_trimEnd (t : Text) : ∃ s, t = trimEnd t ++ s ∧ s.all isBlank = true := by
  obtain ⟨s, hs, hblank⟩ := exists_trimStart t.reverse
  refine ⟨s.reverse, ?_, by rw [List.all_reverse, hblank]⟩
  have hreverse := congrArg List.reverse hs
  rwa [List.reverse_reverse, List.reverse_append] at hreverse

theorem trimEnd_trimEnd (t : Text) : trimEnd (trimEnd t) = trimEnd t := by
  obtain ⟨s, ht, hs⟩ := exists_trimEnd t
  have hend := trimEnd_append hs (trimEnd t)
  rw [← ht] at hend
  exact hend.symm

/-- A text is what trimming leaves, with blanks on both sides. -/
theorem exists_trim (t : Text) : ∃ s u, t = s ++ (trim t ++ u) ∧ s.all isBlank = true ∧
    u.all isBlank = true := by
  obtain ⟨s, hs, hstart⟩ := exists_trimStart t
  obtain ⟨u, hu, hend⟩ := exists_trimEnd (trimStart t)
  exact ⟨s, u, hs.trans (congrArg (s ++ ·) hu), hstart, hend⟩

theorem trim_blanks {s u : Text} (hs : s.all isBlank = true) (hu : u.all isBlank = true)
    (t : Text) : trim (s ++ (t ++ u)) = trim t := by
  rw [trim, trimStart_append hs]
  obtain ht | ⟨v, c, w, rfl, hv, hc⟩ := all_or_exists_first isBlank t
  · rw [trim, trimStart_append ht, trimStart_of_all ht, trimStart_of_all hu]
  · rw [trim, List.append_assoc, trimStart_append hv, trimStart_append hv, List.cons_append,
      trimStart_cons hc, trimStart_cons hc, ← List.cons_append, trimEnd_append hu]

theorem trim_trim (t : Text) : trim (trim t) = trim t := by
  obtain ⟨s, u, ht, hs, hu⟩ := exists_trim t
  have htrim := trim_blanks hs hu (trim t)
  rw [← ht] at htrim
  exact htrim.symm

theorem trim_eq_nil_iff {t : Text} : trim t = [] ↔ t.all isBlank = true := by
  constructor
  · intro hnil
    obtain ⟨s, u, ht, hs, hu⟩ := exists_trim t
    rw [hnil, List.nil_append] at ht
    rw [ht, List.all_append, hs, hu]
    rfl
  · intro hblank
    rw [trim, trimStart_of_all hblank]
    rfl

theorem trim_ne_nil {t : Text} {c : Char} (h : c ∈ t) (hc : isBlank c = false) : trim t ≠ [] := by
  intro hnil
  rw [List.all_eq_true.1 (trim_eq_nil_iff.1 hnil) c h] at hc
  cases hc

theorem mem_of_mem_trim {t : Text} {c : Char} (h : c ∈ trim t) : c ∈ t :=
  (List.dropWhile_suffix _).mem ((isPrefix_trimEnd _).mem h)

end SchemaModels.Text

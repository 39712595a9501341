import SchemaModels.Proofs.Text.Characters

/-!
# Parts of a text

The parts of a text between separators, and the texts that parts are joined to: `splitOn_append` for
two texts with a separator between them, `splitOn_join` for any number of them. The first character
that lacks a property also parts a text (`all_or_exists_first`).
-/

namespace SchemaModels.Text

variable {sep : Char}

/-! ### Splitting -/

theorem splitOn_of_not_mem {t : Text} (h : sep ∉ t) : splitOn sep t = [t] := by
  induction t with
  | nil => rfl
  | cons c t ih =>
      have hc : c ≠ sep := fun he => h (he ▸ List.mem_cons_self)
      have ht := ih fun hm => h (List.mem_cons_of_mem _ hm)
      simp only [splitOn, if_neg hc, ht]

theorem splitOn_ne_nil (sep : Char) (t : Text) : splitOn sep t ≠ [] := by
  cases t with
  | nil => exact List.cons_ne_nil _ _
  | cons c t =>
      unfold splitOn
      split
      · exact List.cons_ne_nil _ _
      · split <;> exact List.cons_ne_nil _ _

theorem not_mem_of_mem_splitOn {t part : Text} (h : part ∈ splitOn sep t) : sep ∉ part := by
  induction t generalizing part with
  | nil => exact List.mem_singleton.1 h ▸ List.not_mem_nil
  | cons c t ih =>
      unfold splitOn at h
      split at h
      · obtain rfl | h := List.mem_cons.1 h
        · exact List.not_mem_nil
        · exact ih h
      · rename_i hc
        cases hs : splitOn sep t with
        | nil => exact absurd hs (splitOn_ne_nil sep t)
        | cons p ps =>
            rw [hs] at h ih
            obtain rfl | h := List.mem_cons.1 h
            · have hp := ih List.mem_cons_self
              exact fun hm => (List.mem_cons.1 hm).elim (fun he => hc he.symm) hp
            · exact ih (List.mem_cons_of_mem p h)

theorem splitOn_append (sep : Char) (s t : Text) :
    splitOn sep (s ++ sep :: t) = splitOn sep s ++ splitOn sep t := by
  induction s with
  | nil => simp [splitOn]
  | cons c s ih =>
      by_cases hc : c = sep
      · simp [splitOn, hc, ih]
      · rw [List.cons_append]
        simp only [splitOn, if_neg hc, ih]
        cases hs : splitOn sep s with
        | nil => exact absurd hs (splitOn_ne_nil sep s)
        | cons part parts => rfl

/-- Parts with a separator behind each of them are split off again, and nothing is left behind. -/
theorem splitOn_lines {ts : List Text} (hts : ∀ t ∈ ts, sep ∉ t) :
    splitOn sep (ts.flatMap (· ++ [sep])) = ts ++ [[]] := by
  induction ts with
  | nil => rfl
  | cons t ts ih =>
      have ht := splitOn_of_not_mem (hts t List.mem_cons_self)
      have hrest := ih fun u hu => hts u (List.mem_cons_of_mem t hu)
      rw [List.flatMap_cons, List.append_assoc, List.singleton_append, splitOn_append, ht, hrest]
      rfl

/-- The first part goes up to the first separator. -/
theorem splitOn_eq_cons (sep : Char) (t : Text) :
    ∃ parts, splitOn sep t = t.takeWhile (· ≠ sep) :: parts := by
  induction t with
  | nil => exact ⟨[], rfl⟩
  | cons c t ih =>
      obtain ⟨parts, hparts⟩ := ih
      by_cases hc : c = sep
      · exact ⟨splitOn sep t, by simp [splitOn, hc]⟩
      · exact ⟨parts, by simp [splitOn, hc, hparts]⟩

/-! ### The first character without a property -/

section First

variable {p : Char → Bool} {s : Text}

/-- A text has a property throughout, or up to a first character that has it not. -/
theorem all_or_exists_first (p : Char → Bool) (t : Text) :
    t.all p = true ∨ ∃ s c u, t = s ++ c :: u ∧ s.all p = true ∧ p c = false := by
  induction t with
  | nil => exact Or.inl rfl
  | cons c t ih =>
      cases hc : p c with
      | false => exact Or.inr ⟨[], c, t, rfl, rfl, hc⟩
      | true =>
          obtain ht | ⟨s, d, u, rfl, hs, hd⟩ := ih
          · exact Or.inl (by simp [hc, ht])
          · exact Or.inr ⟨c :: s, d, u, rfl, by simp [hc, hs], hd⟩

theorem all_ne {c : Char} (h : c ∉ s) : s.all (fun d => decide (d ≠ c)) = true :=
  List.all_eq_true.2 fun _ hd => decide_eq_true fun he => h (he ▸ hd)

theorem takeWhile_append_of_not_mem {c : Char} (h : c ∉ s) (t : Text) :
    (s ++ t).takeWhile (· ≠ c) = s ++ t.takeWhile (· ≠ c) :=
  List.takeWhile_append_of_pos (List.all_eq_true.1 (all_ne h))

theorem takeWhile_first (hs : s.all p = true) {c : Char} (hc : p c = false) (t : Text) :
    (s ++ c :: t).takeWhile p = s := by
  rw [List.takeWhile_append_of_pos (List.all_eq_true.1 hs),
    List.takeWhile_cons_of_neg (by simp [hc]), List.append_nil]

theorem dropWhile_first (hs : s.all p = true) {c : Char} (hc : p c = false) (t : Text) :
    (s ++ c :: t).dropWhile p = c :: t := by
  rw [List.dropWhile_append_of_pos (List.all_eq_true.1 hs),
    List.dropWhile_cons_of_neg (by simp [hc])]

theorem dropWhile_of_all (hs : s.all p = true) : s.dropWhile p = [] := by
  have hdrop : (s ++ []).dropWhile p = [].dropWhile p :=
    List.dropWhile_append_of_pos (List.all_eq_true.1 hs)
  simpa using hdrop

theorem takeWhile_of_all (hs : s.all p = true) : s.takeWhile p = s := by
  have htake : (s ++ []).takeWhile p = s ++ [].takeWhile p :=
    List.takeWhile_append_of_pos (List.all_eq_true.1 hs)
  simpa using htake

end First

/-! ### Joining -/

theorem join_cons_cons (sep t u : Text) (ts : List Text) :
    join sep (t :: u :: ts) = t ++ sep ++ join sep (u :: ts) := rfl

/-- Texts without the separator are the parts of the text that they are joined to. -/
theorem splitOn_join {ts : List Text} (hne : ts ≠ []) (h : ∀ t ∈ ts, sep ∉ t) :
    splitOn sep (join [sep] ts) = ts := by
  induction ts with
  | nil => exact absurd rfl hne
  | cons t ts ih =>
      have ht := splitOn_of_not_mem (h t List.mem_cons_self)
      cases ts with
      | nil => exact ht
      | cons u ts =>
          have hts := ih (List.cons_ne_nil u ts) fun v hv => h v (List.mem_cons_of_mem t hv)
          rw [join_cons_cons, List.append_assoc, List.singleton_append, splitOn_append, ht, hts]
          rfl

/-- A text is joined again from its parts. -/
theorem join_splitOn (sep : Char) (t : Text) : join [sep] (splitOn sep t) = t := by
  induction t with
  | nil => rfl
  | cons c t ih =>
      unfold splitOn
      cases hs : splitOn sep t with
      | nil => exact absurd hs (splitOn_ne_nil sep t)
      | cons part parts =>
          rw [hs] at ih
          split
          · rename_i hc
            rw [join_cons_cons, ih, hc]
            rfl
          · cases parts with
            | nil => exact congrArg (c :: ·) ih
            | cons part' parts =>
                rw [join_cons_cons] at ih ⊢
                exact congrArg (c :: ·) ih

theorem mem_join {c : Char} {sep : Text} {ts : List Text} {t : Text} (ht : t ∈ ts) (hc : c ∈ t) :
    c ∈ join sep ts := by
  induction ts with
  | nil => cases ht
  | cons u ts ih =>
      cases ts with
      | nil => exact List.mem_singleton.1 ht ▸ hc
      | cons v ts =>
          rw [join_cons_cons]
          rcases List.mem_cons.1 ht with rfl | ht
          · exact List.mem_append_left _ (List.mem_append_left _ hc)
          · exact List.mem_append_right _ (ih ht)

theorem all_join {p : Char → Bool} {sep : Text} {ts : List Text} (hsep : sep.all p = true)
    (h : ∀ t ∈ ts, t.all p = true) : (join sep ts).all p = true := by
  induction ts with
  | nil => rfl
  | cons t ts ih =>
      have ht := h t List.mem_cons_self
      cases ts with
      | nil => exact ht
      | cons u ts =>
          have hts := ih fun v hv => h v (List.mem_cons_of_mem t hv)
          rw [join_cons_cons, List.all_append, List.all_append, ht, hsep, hts]
          rfl

theorem not_mem_join {c : Char} {sep : Text} {ts : List Text} (hsep : c ∉ sep)
    (h : ∀ t ∈ ts, c ∉ t) : c ∉ join sep ts :=
  not_mem_of_all (all_join (all_ne hsep) fun t ht => all_ne (h t ht)) (by simp)

end SchemaModels.Text

import Mathlib.Data.List.Forall2
import SchemaModels.Proofs.Go.BlankLines

/-!
# Paragraphs

The longest stretches of a list without blanks between them. What is left of a list when its blanks
are reduced is its paragraphs with one blank between neighbours (`reduce_eq_intercalate`).
-/

namespace SchemaModels.Go.Format

section Paragraphs

variable {α β : Type} {isBlank : α → Bool} {f : α → Option β} {blank : β}

/-- The longest stretches of elements that are not blank. -/
def paragraphs (isBlank : α → Bool) (as : List α) : List (List α) :=
  (as.splitOnP isBlank).filter (!·.isEmpty)

theorem intercalate_cons (bs : List β) (ps : List (List β)) :
    [blank].intercalate (bs :: ps) = bs ++ ps.flatMap (blank :: ·) := by
  induction ps generalizing bs with
  | nil => simp
  | cons p ps ih => rw [List.intercalate_cons_cons, ih, List.flatMap_cons]; simp

/-- The values of the paragraphs. -/
def valuesOf (f : α → Option β) (as : List α) : List (List β) :=
  ((as.splitOnP (f · |>.isNone)).map (List.filterMap f)).filter (!·.isEmpty)

/-- A list that is reduced from each of the three states in which a reduction can be: in front of
everything, behind a blank and behind another element, whose paragraph goes on. -/
theorem reduce_eq (as : List α) : ∃ first others,
    (as.splitOnP (f · |>.isNone)).map (List.filterMap f) = first :: others ∧
      reduce f blank true false as =
        first ++ (others.filter (!·.isEmpty)).flatMap (blank :: ·) ∧
      reduce f blank true true as = (valuesOf f as).flatMap (blank :: ·) ∧
      reduce f blank false false as = [blank].intercalate (valuesOf f as) := by
  unfold valuesOf
  induction as with
  | nil => exact ⟨[], [], by simp, rfl, by simp [reduce], by simp [reduce]⟩
  | cons a as ih =>
      obtain ⟨first, others, hsplit, hgoesOn, hbehind, hfront⟩ := ih
      cases ha : f a with
      | none =>
          have hblank : ((a :: as).splitOnP (f · |>.isNone)).map (List.filterMap f) =
              [] :: first :: others := by
            rw [List.splitOnP_cons_eq_if_modifyHead, if_pos (by simp [ha]), List.map_cons, hsplit]
            rfl
          rw [hsplit] at hbehind hfront
          refine ⟨[], first :: others, hblank, ?_, ?_, ?_⟩
          · rw [reduce_none ha, hbehind, List.nil_append]
          · rw [reduce_none ha, hbehind, hblank]
            rfl
          · rw [reduce_none ha, hfront, hblank]
            rfl
      | some b =>
          have hfilled : ((a :: as).splitOnP (f · |>.isNone)).map (List.filterMap f) =
              (b :: first) :: others := by
            rw [List.splitOnP_cons_eq_if_modifyHead, if_neg (by simp [ha])]
            cases hs : as.splitOnP (f · |>.isNone) with
            | nil => rw [hs] at hsplit; cases hsplit
            | cons p ps =>
                rw [hs, List.map_cons, List.cons.injEq] at hsplit
                rw [List.modifyHead_cons, List.map_cons, List.filterMap_cons_some ha, hsplit.1,
                  hsplit.2]
          have hkept : ((b :: first) :: others).filter (!·.isEmpty) =
              (b :: first) :: others.filter (!·.isEmpty) := rfl
          refine ⟨b :: first, others, hfilled, ?_, ?_, ?_⟩
          · rw [reduce_some ha, hgoesOn]
            rfl
          · rw [reduce_some ha, hgoesOn, hfilled, hkept, List.flatMap_cons]
            rfl
          · rw [reduce_some ha, hgoesOn, hfilled, hkept, intercalate_cons]
            rfl

/-- What is left of a list is its paragraphs with one blank between neighbours. -/
theorem reduce_eq_intercalate (as : List α) :
    reduce f blank false false as = [blank].intercalate (valuesOf f as) := by
  obtain ⟨-, -, -, -, -, hfront⟩ := @reduce_eq α β f blank as
  exact hfront

/-- The first value is in front. -/
theorem head?_reduce (as : List α) :
    (reduce f blank false false as).head? = (as.filterMap f).head? := by
  induction as with
  | nil => rfl
  | cons a as ih =>
      cases ha : f a with
      | none => rw [reduce_none ha, ih, List.filterMap_cons_none ha]
      | some b => rw [reduce_some ha, List.filterMap_cons_some ha]; rfl

/-- The last value is at the end. -/
theorem getLast?_reduce (started pending : Bool) (as : List α) :
    (reduce f blank started pending as).getLast? = (as.filterMap f).getLast? := by
  induction as generalizing started pending with
  | nil => rfl
  | cons a as ih =>
      cases ha : f a with
      | none => rw [reduce_none ha, ih, List.filterMap_cons_none ha]
      | some b =>
          rw [reduce_some ha, List.filterMap_cons_some ha, List.getLast?_append, List.getLast?_cons,
            List.getLast?_cons, ih]
          rfl

/-- Blanks that count for nothing leave what the values count for. -/
theorem flatMap_reduce {γ : Type} {g : β → List γ} (hblank : g blank = []) (started pending : Bool)
    (as : List α) :
    (reduce f blank started pending as).flatMap g = (as.filterMap f).flatMap g := by
  induction as generalizing started pending with
  | nil => rfl
  | cons a as ih =>
      cases ha : f a with
      | none => rw [reduce_none ha, ih, List.filterMap_cons_none ha]
      | some b =>
          rw [reduce_some ha, List.filterMap_cons_some ha, List.flatMap_append, List.flatMap_cons,
            List.flatMap_cons, ih]
          cases pending <;> simp [hblank]

theorem forall₂_filter_isEmpty {γ : Type} {R : γ → β → Prop} {ps : List (List γ)}
    {qs : List (List β)} (h : List.Forall₂ (List.Forall₂ R) ps qs) :
    List.Forall₂ (List.Forall₂ R) (ps.filter (!·.isEmpty)) (qs.filter (!·.isEmpty)) := by
  induction h with
  | nil => exact .nil
  | cons hpq _ ih =>
      cases hpq with
      | nil => exact ih
      | cons hcb hrest => exact .cons (.cons hcb hrest) ih

/-- Where the elements that are not blank have values that they are related to, paragraphs are
related to paragraphs. -/
theorem forall₂_paragraphs {γ : Type} {R : γ → β → Prop} {cs : List γ} {isBlank : γ → Bool}
    {as : List α} (h : List.Forall₂ (fun c a =>
      (isBlank c = true ∧ f a = none) ∨ (isBlank c = false ∧ ∃ b, f a = some b ∧ R c b)) cs as) :
    List.Forall₂ (List.Forall₂ R) (paragraphs isBlank cs) (valuesOf f as) := by
  have hsplit : List.Forall₂ (List.Forall₂ R) (cs.splitOnP isBlank)
      ((as.splitOnP (f · |>.isNone)).map (List.filterMap f)) := by
    induction h with
    | nil => simp
    | @cons c a cs as hca _ ih =>
        rw [List.splitOnP_cons_eq_if_modifyHead, List.splitOnP_cons_eq_if_modifyHead]
        obtain ⟨hc, ha⟩ | ⟨hc, b, ha, hR⟩ := hca
        · rw [if_pos hc, if_pos (by simp [ha])]
          exact .cons .nil ih
        · rw [if_neg (by simp [hc]), if_neg (by simp [ha])]
          cases hcs : cs.splitOnP isBlank with
          | nil => exact absurd hcs (List.splitOnP_ne_nil _ _)
          | cons p ps =>
              cases has : as.splitOnP (f · |>.isNone) with
              | nil => exact absurd has (List.splitOnP_ne_nil _ _)
              | cons q qs =>
                  rw [hcs, has] at ih
                  cases ih with
                  | cons hpq hrest =>
                      rw [List.modifyHead_cons, List.modifyHead_cons, List.map_cons,
                        List.filterMap_cons_some ha]
                      exact .cons (.cons hR hpq) hrest
  exact forall₂_filter_isEmpty hsplit

end Paragraphs

end SchemaModels.Go.Format

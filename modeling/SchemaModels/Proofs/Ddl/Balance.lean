import SchemaModels.Proofs.Ddl.GroupAgreement

/-!
# Parentheses that balance

The parentheses of some tokens balance if each one that closes something closes one that is open,
and none stays open (`Balanced`). A group that is captured, up to the parenthesis that closes it,
and the rest of a statement are such tokens (`exists_of_groupLength`,
`balanced_of_balancedLength`).
-/

namespace SchemaModels.Ddl

open Parse (groupLength_cons balancedLength_cons)

/-- The number of open parentheses behind some tokens, where so many are open before them; nothing
if one of them closes what is not open. -/
def depthAfter : (depth : Nat) → List Token → Option Nat
  | depth, [] => some depth
  | depth, t :: ts =>
    match t.kind, depth with
    | .symbol .leftParen, depth => depthAfter (depth + 1) ts
    | .symbol .rightParen, 0 => none
    | .symbol .rightParen, depth + 1 => depthAfter depth ts
    | _, depth => depthAfter depth ts

/-- Every parenthesis that closes has one before it that it closes, and none stays open. -/
def Balanced (ts : List Token) : Prop := depthAfter 0 ts = some 0

instance (ts : List Token) : Decidable (Balanced ts) := inferInstanceAs (Decidable (_ = _))

/-- A parenthesis or a semicolon. -/
def isDelimiter : TokenKind → Bool
  | .symbol .leftParen | .symbol .rightParen | .symbol .semicolon => true
  | _ => false

theorem ne_semicolon_of_isDelimiter {k : TokenKind} (h : isDelimiter k = false) :
    k ≠ .symbol .semicolon := by
  rintro rfl
  cases h

theorem depthAfter_cons (depth : Nat) (t : Token) (ts : List Token) :
    depthAfter depth (t :: ts) =
      if t.kind = .symbol .leftParen then depthAfter (depth + 1) ts
      else if t.kind = .symbol .rightParen then
        if depth = 0 then none else depthAfter (depth - 1) ts
      else depthAfter depth ts := by
  obtain ⟨kind, span⟩ := t
  cases kind with
  | symbol s => cases s <;> cases depth <;> rfl
  | _ => cases depth <;> rfl

theorem depthAfter_of_open {t : Token} (ht : t.kind = .symbol .leftParen) (depth : Nat)
    (ts : List Token) : depthAfter depth (t :: ts) = depthAfter (depth + 1) ts := by
  rw [depthAfter_cons, if_pos ht]

theorem depthAfter_of_close {t : Token} (ht : t.kind = .symbol .rightParen) (depth : Nat)
    (ts : List Token) : depthAfter (depth + 1) (t :: ts) = depthAfter depth ts := by
  rw [depthAfter_cons, if_neg (by simp [ht]), if_pos ht, if_neg (Nat.succ_ne_zero depth)]
  rfl

theorem depthAfter_of_ne {t : Token} (hopen : t.kind ≠ .symbol .leftParen)
    (hclose : t.kind ≠ .symbol .rightParen) (depth : Nat) (ts : List Token) :
    depthAfter depth (t :: ts) = depthAfter depth ts := by
  rw [depthAfter_cons, if_neg hopen, if_neg hclose]

theorem depthAfter_of_plain {t : Token} (ht : isDelimiter t.kind = false) (depth : Nat)
    (ts : List Token) : depthAfter depth (t :: ts) = depthAfter depth ts := by
  refine depthAfter_of_ne (fun h => ?_) (fun h => ?_) depth ts
  · rw [h] at ht
    cases ht
  · rw [h] at ht
    cases ht

theorem depthAfter_append (depth : Nat) (ts us : List Token) :
    depthAfter depth (ts ++ us) = (depthAfter depth ts).bind (depthAfter · us) := by
  induction ts generalizing depth with
  | nil => rfl
  | cons t ts ih =>
      rw [List.cons_append, depthAfter_cons, depthAfter_cons]
      simp only [ih]
      by_cases hopen : t.kind = .symbol .leftParen
      · rw [if_pos hopen, if_pos hopen]
      rw [if_neg hopen, if_neg hopen]
      by_cases hclose : t.kind = .symbol .rightParen
      · rw [if_pos hclose, if_pos hclose]
        by_cases hdepth : depth = 0
        · rw [if_pos hdepth, if_pos hdepth]
          rfl
        · rw [if_neg hdepth, if_neg hdepth]
      · rw [if_neg hclose, if_neg hclose]

/-- More parentheses that are open before stay open. -/
theorem depthAfter_add {depth n : Nat} {ts : List Token} (h : depthAfter depth ts = some n)
    (k : Nat) : depthAfter (depth + k) ts = some (n + k) := by
  induction ts generalizing depth with
  | nil =>
      cases h
      rfl
  | cons t ts ih =>
      rw [depthAfter_cons] at h ⊢
      by_cases hopen : t.kind = .symbol .leftParen
      · rw [if_pos hopen] at h ⊢
        rw [Nat.add_right_comm]
        exact ih h
      rw [if_neg hopen] at h ⊢
      by_cases hclose : t.kind = .symbol .rightParen
      · rw [if_pos hclose] at h ⊢
        by_cases hdepth : depth = 0
        · rw [if_pos hdepth] at h
          cases h
        · rw [if_neg hdepth] at h
          rw [if_neg (by omega), show depth + k - 1 = depth - 1 + k by omega]
          exact ih h
      · rw [if_neg hclose] at h ⊢
        exact ih h

namespace Balanced

variable {ts us : List Token}

theorem nil : Balanced [] := rfl

theorem append (h : Balanced ts) (h' : Balanced us) : Balanced (ts ++ us) := by
  rw [Balanced, depthAfter_append, show depthAfter 0 ts = some 0 from h]
  exact h'

theorem group {o c : Token} (ho : o.kind = .symbol .leftParen) (hc : c.kind = .symbol .rightParen)
    (h : Balanced ts) : Balanced (o :: ts ++ [c]) := by
  rw [Balanced, List.cons_append, depthAfter_of_open ho, depthAfter_append,
    depthAfter_add (show depthAfter 0 ts = some 0 from h)]
  exact depthAfter_of_close hc 0 []

theorem singleton {t : Token} (ht : isDelimiter t.kind = false) : Balanced [t] :=
  depthAfter_of_plain ht 0 []

end Balanced

/-! ### What is not read -/

/-- A group consists of balanced tokens and the parenthesis that closes it. -/
theorem exists_of_groupLength {depth n : Nat} {ts : List Token}
    (h : groupLength depth ts = some n) : ∃ us c, ts = us ++ c :: ts.drop n ∧
      c.kind = .symbol .rightParen ∧ depthAfter depth us = some 0 := by
  induction ts generalizing depth n with
  | nil => cases h
  | cons t ts ih =>
      -- With the next token, the group goes on from another depth.
      have hrest : ∀ {d}, (∀ us, depthAfter depth (t :: us) = depthAfter d us) →
          (groupLength d ts).map (· + 1) = some n →
          ∃ us c, t :: ts = us ++ c :: (t :: ts).drop n ∧ c.kind = .symbol .rightParen ∧
            depthAfter depth us = some 0 := by
        intro d hdepth hd
        obtain ⟨m, hm, rfl⟩ := Option.map_eq_some_iff.1 hd
        obtain ⟨us, c, hts, hc, hus⟩ := ih hm
        exact ⟨t :: us, c, congrArg (t :: ·) hts, hc, (hdepth us).trans hus⟩
      rw [groupLength_cons] at h
      by_cases hopen : t.kind = .symbol .leftParen
      · rw [if_pos hopen] at h
        exact hrest (depthAfter_of_open hopen depth) h
      rw [if_neg hopen] at h
      by_cases hclose : t.kind = .symbol .rightParen
      · rw [if_pos hclose] at h
        cases depth with
        | zero =>
            cases h
            exact ⟨[], t, rfl, hclose, rfl⟩
        | succ depth => exact hrest (depthAfter_of_close hclose depth) h
      · rw [if_neg hclose] at h
        exact hrest (depthAfter_of_ne hopen hclose depth) h

/-- The rest of a statement balances, with no semicolon in it. -/
theorem balanced_of_balancedLength {depth n : Nat} {ts : List Token}
    (h : balancedLength depth ts = (n, none)) : depthAfter depth (ts.take n) = some 0 ∧
      ∀ t ∈ ts.take n, t.kind ≠ .symbol .semicolon := by
  induction ts generalizing depth n with
  | nil =>
      cases depth with
      | zero =>
          cases h
          exact ⟨rfl, nofun⟩
      | succ depth => cases h
  | cons t ts ih =>
      have hrest : ∀ {d}, (∀ us, depthAfter depth (t :: us) = depthAfter d us) →
          t.kind ≠ .symbol .semicolon → (balancedLength d ts).map (· + 1) id = (n, none) →
          depthAfter depth ((t :: ts).take n) = some 0 ∧
            ∀ u ∈ (t :: ts).take n, u.kind ≠ .symbol .semicolon := by
        intro d hdepth ht hd
        obtain ⟨m, rfl⟩ : ∃ m, n = m + 1 := ⟨_, (congrArg Prod.fst hd).symm⟩
        have hnone : (balancedLength d ts).2 = none := congrArg Prod.snd hd
        have hm : balancedLength d ts = (m, none) :=
          Prod.ext (Nat.succ.inj (congrArg Prod.fst hd)) hnone
        obtain ⟨hbalanced, hsemicolon⟩ := ih hm
        rw [List.take_succ_cons, List.forall_mem_cons]
        exact ⟨(hdepth _).trans hbalanced, ht, hsemicolon⟩
      rw [balancedLength_cons] at h
      by_cases hopen : t.kind = .symbol .leftParen
      · rw [if_pos hopen] at h
        exact hrest (depthAfter_of_open hopen depth) (by simp [hopen]) h
      rw [if_neg hopen] at h
      by_cases hclose : t.kind = .symbol .rightParen
      · rw [if_pos hclose] at h
        cases depth with
        | zero => cases h
        | succ depth => exact hrest (depthAfter_of_close hclose depth) (by simp [hclose]) h
      rw [if_neg hclose] at h
      by_cases hsemicolon : t.kind = .symbol .semicolon
      · rw [if_pos hsemicolon] at h
        cases depth with
        | zero =>
            cases h
            exact ⟨rfl, nofun⟩
        | succ depth => cases h
      rw [if_neg hsemicolon] at h
      split at h
      · cases h
      · exact hrest (depthAfter_of_ne hopen hclose depth) hsemicolon h

end SchemaModels.Ddl

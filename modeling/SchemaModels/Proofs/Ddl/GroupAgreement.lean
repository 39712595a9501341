import SchemaModels.Ddl.Group
import SchemaModels.Proofs.Ddl.RepetitionAgreement

/-!
# Agreement of groups that are not read

The groups that are only counted end where a parenthesis or the statement does, so that what comes
behind the source text does not matter for them.
-/

namespace SchemaModels.Ddl.Parse

variable {w : Surroundings} {blind : Bool} {c : Cursor}

/-! ### Groups -/

section Lengths

variable {t : Token} {ts : List Token}

theorem groupLength_cons (depth : Nat) (t : Token) (ts : List Token) :
    groupLength depth (t :: ts) =
      if t.kind = .symbol .leftParen then (groupLength (depth + 1) ts).map (· + 1)
      else if t.kind = .symbol .rightParen then
        if depth = 0 then some 1 else (groupLength (depth - 1) ts).map (· + 1)
      else (groupLength depth ts).map (· + 1) := by
  obtain ⟨kind, span⟩ := t
  cases kind with
  | symbol s => cases s <;> cases depth <;> rfl
  | _ => rfl

theorem groupLength_map (k depth : Nat) (ts : List Token) :
    groupLength depth (ts.map (Token.shift k)) = groupLength depth ts := by
  induction ts generalizing depth with
  | nil => rfl
  | cons t ts ih =>
      rw [List.map_cons, groupLength_cons, groupLength_cons]
      simp only [Token.kind_shift, ih]

/-- A group ends with a parenthesis, whatever follows it. -/
theorem groupLength_append {depth n : Nat} (h : groupLength depth ts = some n) (us : List Token) :
    groupLength depth (ts ++ us) = some n ∧ n ≤ ts.length ∧
      ∃ t, (ts.take n).getLast? = some t ∧ t.kind = .symbol .rightParen := by
  induction ts generalizing depth n with
  | nil => cases h
  | cons t ts ih =>
      have hrest {d : Nat} (h : (groupLength d ts).map (· + 1) = some n) :
          (groupLength d (ts ++ us)).map (· + 1) = some n ∧ n ≤ (t :: ts).length ∧
            ∃ x, ((t :: ts).take n).getLast? = some x ∧ x.kind = .symbol .rightParen := by
        obtain ⟨m, hm, rfl⟩ := Option.map_eq_some_iff.1 h
        obtain ⟨happend, hle, x, hx, hkind⟩ := ih hm
        refine ⟨by rw [happend]; rfl, Nat.succ_le_succ hle, x, ?_, hkind⟩
        rw [List.take_succ_cons, List.getLast?_cons, hx]
        rfl
      rw [groupLength_cons] at h
      rw [List.cons_append, groupLength_cons]
      by_cases hopen : t.kind = .symbol .leftParen
      · rw [if_pos hopen] at h ⊢
        exact hrest h
      rw [if_neg hopen] at h ⊢
      by_cases hclose : t.kind = .symbol .rightParen
      · rw [if_pos hclose] at h ⊢
        by_cases hdepth : depth = 0
        · rw [if_pos hdepth] at h ⊢
          cases h
          exact ⟨rfl, Nat.succ_le_succ (Nat.zero_le _), t, rfl, hclose⟩
        · rw [if_neg hdepth] at h ⊢
          exact hrest h
      · rw [if_neg hclose] at h ⊢
        exact hrest h

end Lengths

/-- Some tokens are read of which the last is no fault. -/
theorem reads_drop {n : Nat} (h : EndsPlain (c.ahead.take n)) : Reads blind c (c.drop n) := by
  rw [Cursor.drop_eq]
  refine ⟨rfl, List.drop_suffix n c.ahead, fun _ hnil => ?_⟩
  rw [List.take_of_length_le (List.drop_eq_nil_iff.1 hnil)] at h
  exact h

theorem skipGroup_of_some {n : Nat} (h : groupLength 0 c.ahead = some n) :
    skipGroup c = .ok () (c.drop n) := by
  unfold skipGroup
  rw [h]
  rfl

theorem skipGroup_of_none (h : groupLength 0 c.ahead = none) :
    skipGroup c = refuse .groupEnd (c.drop c.ahead.length) := by
  unfold skipGroup
  rw [h]

theorem refuse_cursor (hw : w.SharesEnd) (expected : Expected) (n : Nat) (c : Cursor) :
    (refuse expected : Parse α) ((w.cursor c).drop n) =
      .error (w.error ⟨.unexpected expected (c.drop n).current.kind, (c.drop n).current.span⟩)
        (w.cursor (c.drop n)) := by
  rw [← Surroundings.cursor_drop (Or.inl hw), ← error_current hw fun k => .unexpected expected k]
  rfl

theorem agreesAt_skipGroup : AgreesAt w blind skipGroup skipGroup c := by
  cases h : groupLength 0 c.ahead with
  | none =>
      refine agreesAt_of_error (skipGroup_of_none h) fun hw => ?_
      have hnone : groupLength 0 (w.cursor c).ahead = none ∧
          (w.cursor c).ahead.length = c.ahead.length := by
        cases w with
        | behind prior => exact ⟨(groupLength_map _ 0 _).trans h, List.length_map _⟩
        | before later span ts => exact hw.elim
      rw [skipGroup_of_none hnone.1, hnone.2]
      exact refuse_cursor hw .groupEnd _ c
  | some n =>
      obtain ⟨-, hle, t, ht, hkind⟩ := groupLength_append h []
      have hplain : EndsPlain (c.ahead.take n) := by
        intro x hx
        rw [ht] at hx
        cases hx
        rw [hkind]
        exact nofun
      refine agreesAt_of_ok (skipGroup_of_some h) fun _ => ⟨reads_drop hplain, fun _ => ?_⟩
      have hsome : groupLength 0 (w.cursor c).ahead = some n := by
        cases w with
        | behind prior => exact (groupLength_map _ 0 _).trans h
        | before later span ts => exact (groupLength_append h _).1
      rw [skipGroup_of_some hsome, Surroundings.cursor_drop (Or.inr hle)]

theorem agreesAt_rawGroup : AgreesAt w blind rawGroup rawGroup c :=
  agreesAt_sourceOf <|
    (agreesAt_expectSymbol (Or.inr (by decide))).bind fun _ _ _ => agreesAt_skipGroup

/-! ### The rest of a statement -/

section Lengths

variable {t : Token} {ts : List Token}

theorem balancedLength_cons (depth : Nat) (t : Token) (ts : List Token) :
    balancedLength depth (t :: ts) =
      if t.kind = .symbol .leftParen then (balancedLength (depth + 1) ts).map (· + 1) id
      else if t.kind = .symbol .rightParen then
        if depth = 0 then (0, some .semicolon) else (balancedLength (depth - 1) ts).map (· + 1) id
      else if t.kind = .symbol .semicolon then (0, if depth = 0 then none else some .partitionEnd)
      else if t.kind matches .fault _ then (0, some .partitionDefinition)
      else (balancedLength depth ts).map (· + 1) id := by
  obtain ⟨kind, span⟩ := t
  cases kind with
  | symbol s => cases s <;> cases depth <;> rfl
  | _ => cases depth <;> rfl

theorem balancedLength_map (k depth : Nat) (ts : List Token) :
    balancedLength depth (ts.map (Token.shift k)) = balancedLength depth ts := by
  induction ts generalizing depth with
  | nil => rfl
  | cons t ts ih =>
      rw [List.map_cons, balancedLength_cons, balancedLength_cons]
      simp only [Token.kind_shift, ih]

/-- What balances up to the end of a text balances up to a semicolon behind it. -/
theorem balancedLength_append {depth n : Nat} (h : balancedLength depth ts = (n, none)) {u : Token}
    (hu : u.kind = .symbol .semicolon) (us : List Token) :
    balancedLength depth (ts ++ u :: us) = (n, none) ∧ n ≤ ts.length ∧
      ∀ x ∈ ts.take n, ¬ x.kind.IsFault := by
  induction ts generalizing depth n with
  | nil =>
      cases depth with
      | zero =>
          cases h
          exact ⟨by simp [balancedLength_cons, hu], Nat.le_refl _, nofun⟩
      | succ d => cases h
  | cons t ts ih =>
      have hrest {d : Nat} (h : (balancedLength d ts).map (· + 1) id = (n, none))
          (ht : ¬ t.kind.IsFault) :
          (balancedLength d (ts ++ u :: us)).map (· + 1) id = (n, none) ∧
            n ≤ (t :: ts).length ∧ ∀ x ∈ (t :: ts).take n, ¬ x.kind.IsFault := by
        obtain ⟨m, rfl⟩ : ∃ m, n = m + 1 := ⟨_, (congrArg Prod.fst h).symm⟩
        have hnone : (balancedLength d ts).2 = none := congrArg Prod.snd h
        have hm : balancedLength d ts = (m, none) :=
          Prod.ext (Nat.succ.inj (congrArg Prod.fst h)) hnone
        obtain ⟨happend, hle, hplain⟩ := ih hm
        refine ⟨by rw [happend]; rfl, Nat.succ_le_succ hle, fun x hx => ?_⟩
        rw [List.take_succ_cons] at hx
        rcases List.mem_cons.1 hx with rfl | hx
        · exact ht
        · exact hplain x hx
      rw [balancedLength_cons] at h
      rw [List.cons_append, balancedLength_cons]
      by_cases hopen : t.kind = .symbol .leftParen
      · rw [if_pos hopen] at h ⊢
        exact hrest h (by rw [hopen]; exact nofun)
      rw [if_neg hopen] at h ⊢
      by_cases hclose : t.kind = .symbol .rightParen
      · rw [if_pos hclose] at h ⊢
        by_cases hdepth : depth = 0
        · rw [if_pos hdepth] at h
          cases h
        · rw [if_neg hdepth] at h ⊢
          exact hrest h (by rw [hclose]; exact nofun)
      rw [if_neg hclose] at h ⊢
      by_cases hsemicolon : t.kind = .symbol .semicolon
      · rw [if_pos hsemicolon] at h ⊢
        obtain rfl : n = 0 := (congrArg Prod.fst h).symm
        exact ⟨h, Nat.zero_le _, nofun⟩
      rw [if_neg hsemicolon] at h ⊢
      by_cases hfault : t.kind.IsFault
      · obtain ⟨x, hx⟩ := hfault
        simp [hx] at h
      · have hplain : ¬ ((t.kind matches .fault _) = true) := by
          intro hm
          apply hfault
          cases hk : t.kind with
          | fault x => exact ⟨x, rfl⟩
          | _ => simp [hk] at hm
        rw [if_neg hplain] at h ⊢
        exact hrest h hfault

end Lengths

theorem skipBalanced_of_none {n : Nat} (h : balancedLength 0 c.ahead = (n, none)) :
    skipBalanced c = .ok () (c.drop n) := by
  unfold skipBalanced
  rw [h]
  rfl

theorem skipBalanced_of_some {n : Nat} {expected : Expected}
    (h : balancedLength 0 c.ahead = (n, some expected)) :
    skipBalanced c = refuse expected (c.drop n) := by
  unfold skipBalanced
  rw [h]

theorem endsPlain_of_forall {ts : List Token} (h : ∀ t ∈ ts, ¬ t.kind.IsFault) : EndsPlain ts :=
  fun t ht => h t (List.mem_of_getLast? ht)

theorem agreesAt_skipBalanced : AgreesAt w blind skipBalanced skipBalanced c := by
  rcases h : balancedLength 0 c.ahead with ⟨n, _ | expected⟩
  · obtain ⟨-, hle, hplain⟩ := balancedLength_append h (u := ⟨.symbol .semicolon, default⟩) rfl []
    refine agreesAt_of_ok (skipBalanced_of_none h) fun _ =>
      ⟨reads_drop (endsPlain_of_forall hplain), fun _ => ?_⟩
    have hnone : balancedLength 0 (w.cursor c).ahead = (n, none) := by
      cases w with
      | behind prior => exact (balancedLength_map _ 0 _).trans h
      | before later span ts => exact (balancedLength_append h rfl ts).1
    rw [skipBalanced_of_none hnone, Surroundings.cursor_drop (Or.inr hle)]
  · refine agreesAt_of_error (skipBalanced_of_some h) fun hw => ?_
    have hsome : balancedLength 0 (w.cursor c).ahead = (n, some expected) := by
      cases w with
      | behind prior => exact (balancedLength_map _ 0 _).trans h
      | before later span ts => exact hw.elim
    rw [skipBalanced_of_some hsome]
    exact refuse_cursor hw expected n c

theorem agreesAt_balancedTail : AgreesAt w blind balancedTail balancedTail c :=
  (agreesAt_sourceOf agreesAt_skipBalanced).bind fun t _ _ => .pure (Text.trim t)

theorem length_takeWhile_cursor {f : TokenKind → Bool}
    (hend : w.SharesEnd ∨ f (.symbol .semicolon) = false) (c : Cursor) :
    ((w.cursor c).ahead.takeWhile fun t => f t.kind).length =
      (c.ahead.takeWhile fun t => f t.kind).length := by
  cases w with
  | behind prior =>
      simp only [Surroundings.cursor, List.takeWhile_map, List.length_map]
      rfl
  | before later span ts =>
      have hsemicolon := hend.resolve_left id
      simp only [Surroundings.cursor, List.takeWhile_append]
      split
      · rename_i hall
        simp [hsemicolon, hall]
      · rfl

/-- Tokens are read up to one that fails a test, as a fault does, and a semicolon where more text
follows. -/
theorem agreesAt_skipWhile {f : TokenKind → Bool} (hfault : ∀ x, f (.fault x) = false)
    (hend : w.SharesEnd ∨ f (.symbol .semicolon) = false) :
    AgreesAt w blind (skipWhile f) (skipWhile f) c := by
  have hprefix := List.takeWhile_prefix (l := c.ahead) fun t => f t.kind
  have hall := List.all_takeWhile (l := c.ahead) (p := fun t => f t.kind)
  refine agreesAt_of_ok rfl fun _ => ⟨reads_drop (endsPlain_of_forall fun t ht => ?_), fun _ => ?_⟩
  · rw [← List.prefix_iff_eq_take.1 hprefix] at ht
    have htest := List.all_eq_true.1 hall t ht
    rintro ⟨x, hx⟩
    rw [hx, hfault] at htest
    cases htest
  · unfold skipWhile
    rw [length_takeWhile_cursor hend, Surroundings.cursor_drop (Or.inr hprefix.length_le)]

theorem agreesAt_skipStatement : AgreesAt w blind skipStatement skipStatement c := by
  refine (agreesAt_skipWhile (fun _ => rfl) (Or.inr rfl)).bind fun _ d _ => ?_
  refine agreesAt_kind_bind ?_ ?_
  · split
    · exact agreesAt_refuse _
    · exact .pure ()
  · intro _ a d' h
    cases h
    rfl

end SchemaModels.Ddl.Parse

import SchemaModels.Ddl.DataType.Parser
import SchemaModels.Proofs.Ddl.Parses

/-!
# Reading canonical types

A type takes exactly its own tokens where no parenthesis, no name and no modifier follows
(`parses_fieldType`).
-/

namespace SchemaModels.Ddl

/-- What may stand behind a type with its modifiers: an option, or the end of the column. -/
def BehindType (k : TokenKind) : Prop :=
  k ∈ [.symbol .comma, .symbol .rightParen, .keyword .primary, .keyword .not, .keyword .null,
    .keyword .autoIncrement, .keyword .unique, .keyword .default, .keyword .comment]

theorem forall_behindType {P : TokenKind → Prop} : (∀ k, BehindType k → P k) ↔
    P (.symbol .comma) ∧ P (.symbol .rightParen) ∧ P (.keyword .primary) ∧ P (.keyword .not) ∧
      P (.keyword .null) ∧ P (.keyword .autoIncrement) ∧ P (.keyword .unique) ∧
      P (.keyword .default) ∧ P (.keyword .comment) := by
  simp [BehindType]

/-- What does not belong to the word of a type. -/
def EndsType (k : TokenKind) : Prop := k ≠ .symbol .leftParen ∧ ∀ n, k ≠ .identifier n

theorem EndsType.isWord_eq_false {k : TokenKind} (h : EndsType k) (words : List Text) :
    Parse.isWord words k = false := by
  cases k with
  | identifier n => exact absurd rfl (h.2 n)
  | _ => rfl

namespace Parse

open AgreesAt (bind_ok)

/-! ### Types -/

theorem parses_integerBelow {n limit : Nat} (h : n < limit) (tooLarge : ParseError.Cause) :
    Parses (integerBelow limit tooLarge) [.integer n] n Any := by
  refine parses_kind_bind ?_
  dsimp only
  rw [if_pos h]
  exact parses_advance.cons (.pure n)

theorem parses_length? (w : Option UInt32) :
    Parses length? (numberKinds (w.map UInt32.toNat) none) w (· ≠ .symbol .leftParen) := by
  cases w with
  | none => exact (parses_at_of_ne _).look (.pure none) fun _ => id
  | some w =>
      have hnumber := parses_parenthesized
        ((parses_integerBelow w.toNat_lt .lengthTooLarge).mono fun _ _ => trivial)
      have hvalue := hnumber.bind_pure fun n => some (UInt32.ofNat n)
      rw [UInt32.ofNat_toNat] at hvalue
      exact (parses_at (.symbol .leftParen)).look (hvalue.mono fun _ _ => trivial) fun _ _ => rfl

/-- The two numbers of a type, or the first one, with their parentheses. -/
theorem parses_precision (p : UInt16) (s : Option UInt16) :
    Parses (do
      let precision ← integerBelow (2 ^ 16) .precisionTooLarge
      if ← acceptSymbol .comma then
        let scale ← integerBelow (2 ^ 16) .scaleTooLarge
        return (some (UInt16.ofNat precision), some (UInt16.ofNat scale))
      else return (some (UInt16.ofNat precision), none))
      (separatedKinds ([.integer p.toNat] :: s.toList.map fun n => [.integer n.toNat]))
      (some p, s) (· = .symbol .rightParen) := by
  cases s with
  | none =>
      refine (parses_integerBelow p.toNat_lt _).cons ?_
      refine (parses_accept_of_ne (.symbol .comma)).look ?_ fun | _, rfl => nofun
      rw [UInt16.ofNat_toNat]
      exact .pure _
  | some s =>
      refine (parses_integerBelow p.toNat_lt _).cons ?_
      refine (parses_accept (.symbol .comma)).cons ?_
      refine (parses_integerBelow s.toNat_lt _).cons ?_
      rw [UInt16.ofNat_toNat, UInt16.ofNat_toNat]
      exact .pure _

theorem parses_precisionAndScale {p s : Option UInt16} (h : s.isSome → p.isSome) :
    Parses precisionAndScale (numberKinds (p.map UInt16.toNat) (s.map UInt16.toNat)) (p, s)
      (· ≠ .symbol .leftParen) := by
  cases p with
  | none =>
      cases s with
      | some s => exact absurd (h rfl) nofun
      | none => exact (parses_at_of_ne _).look (.pure _) fun _ => id
  | some p =>
      have hgroup : Parses (parenthesized _) _ (some p, s) (· ≠ .symbol .leftParen) :=
        (parses_parenthesized (parses_precision p s)).mono fun _ _ => trivial
      cases s with
      | none => exact (parses_at (.symbol .leftParen)).look hgroup fun _ _ => rfl
      | some s => exact (parses_at (.symbol .leftParen)).look hgroup fun _ _ => rfl

theorem parses_members {ms : List Text} (h : ms ≠ []) :
    Parses members (groupKinds (ms.map fun m => [.string m])) ms Any :=
  parses_group (fun m => [.string m]) h fun m _ => (parses_string m).mono fun _ _ => trivial

theorem parses_sized (k : SizedType) (w : Option UInt32) :
    ∃ form, TypeForm.ofWord? k.name = some form ∧
      Parses (typeOfForm form) (numberKinds (w.map UInt32.toNat) none) (.sized k w) EndsType := by
  have hlength (k : SizedType) :
      Parses (do return .sized k (← length?) : Parse DataType)
        (numberKinds (w.map UInt32.toNat) none) (.sized k w) EndsType :=
    ((parses_length? w).bind_pure fun w => DataType.sized k w).mono fun _ hk => hk.1
  cases k with
  | char =>
      refine ⟨.character, by decide, ?_⟩
      refine (parses_acceptWord_of_not ["VARYING"]).look (hlength .char) fun k hk => ?_
      cases w with
      | none => exact hk.isWord_eq_false _
      | some w => rfl
  | _ => exact ⟨.sized _, by decide, hlength _⟩

theorem parses_precise (k : PreciseType) {p s : Option UInt16} (h : s.isSome → p.isSome) :
    ∃ form, TypeForm.ofWord? k.name = some form ∧
      Parses (typeOfForm form) (numberKinds (p.map UInt16.toNat) (s.map UInt16.toNat))
        (.precise k p s) EndsType := by
  have hnumbers (k : PreciseType) :
      Parses (precisionAndScale >>= fun x => pure (DataType.precise k x.1 x.2))
        (numberKinds (p.map UInt16.toNat) (s.map UInt16.toNat)) (.precise k p s) EndsType :=
    ((parses_precisionAndScale h).bind_pure fun x => DataType.precise k x.1 x.2).mono
      fun _ hk => hk.1
  cases k with
  | double =>
      refine ⟨.double, by decide, ?_⟩
      refine (parses_acceptWord_of_not ["PRECISION"]).look (hnumbers .double) fun k hk => ?_
      rcases p with _ | p
      · exact hk.isWord_eq_false _
      · cases s <;> rfl
  | _ => exact ⟨.precise _, by decide, hnumbers _⟩

theorem ofWord?_of_set {word : Text} (h : Keyword.ofText? word = some .set) :
    TypeForm.ofWord? word = some .set := by
  obtain ⟨e, he, hset⟩ := Option.map_eq_some_iff.1 h
  have hspelling : ∀ e ∈ Keyword.spellings, e.1 = .set → e.2.1 = "SET" := by decide
  have hupper : Text.upper word = "SET".toList := by
    have hword := List.find?_some he
    rw [hspelling e (List.mem_of_find?_eq_some he) hset] at hword
    exact (eq_of_beq hword).symm
  unfold TypeForm.ofWord?
  rw [hupper]
  decide

/-- The word `set` is a keyword, so that as a name it is the text of its token. -/
theorem parses_set {ms : List Text} (h : ms ≠ []) :
    Parses dataType (DataType.set ms).kinds (.set ms) EndsType := by
  intro c rest hc hkinds hrest
  have hkind : c.current.kind = .keyword .set := by
    rw [Cursor.kind_current_eq, hkinds]
    rfl
  have hcons := Cursor.ahead_eq_cons (Cursor.ahead_ne_nil (by rw [hkind]; exact nofun))
  have hspelt := hc c.current (hcons ▸ List.mem_cons_self) .set hkind
  have hname? : name? c = .ok (some (c.current.span.slice c.source)) c := by
    unfold name?
    rw [hkind]
  have hname : name .dataType c = .ok (c.current.span.slice c.source) c.advance :=
    bind_ok name? _ hname?
  have hmembers := (parses_members h).bind_pure fun ms => DataType.set ms
  have hadvance : c.advance.kinds = groupKinds (ms.map fun m => [.string m]) ++ rest := by
    have hdrop : (c.drop [TokenKind.keyword .set].length).kinds = _ := Cursor.kinds_drop hkinds
    exact hdrop
  refine (bind_ok (name .dataType) _ hname).trans ?_
  rw [ofWord?_of_set hspelt]
  exact hmembers c.advance rest (hc.drop 1) hadvance trivial

theorem parses_dataType {t : DataType} (h : t.IsCanonical) :
    Parses dataType t.kinds t EndsType := by
  have hword {word : Text} {form : TypeForm} {ks : List TokenKind}
      (hform : TypeForm.ofWord? word = some form)
      (hrest : Parses (typeOfForm form) ks t EndsType) :
      Parses dataType (.identifier word :: ks) t EndsType := by
    refine (parses_name word .dataType).cons ?_
    rw [hform]
    exact hrest
  cases t with
  | sized k w =>
      obtain ⟨form, hform, hrest⟩ := parses_sized k w
      exact hword hform hrest
  | precise k p s =>
      obtain ⟨form, hform, hrest⟩ := parses_precise k h
      exact hword hform hrest
  | plain k =>
      have hform : k ≠ .boolean → TypeForm.ofWord? k.name = some (.plain k) := by
        cases k <;> decide
      exact hword (hform h) (.pure (DataType.plain k))
  | enum ms =>
      have hmembers := (parses_members h).bind_pure fun ms => DataType.enum ms
      have hform : TypeForm.ofWord? "enum" = some .enum := by decide
      exact hword hform (hmembers.mono fun _ _ => trivial)
  | set ms => exact parses_set h
  | custom d => exact h.elim

/-- The modifiers of a type, in the order in which they are written. -/
def modifiers (t : FieldType) : List TypeModifier :=
  (if t.unsigned then [.unsigned] else []) ++ (if t.zerofill then [.zerofill] else [])

def modifierKinds : TypeModifier → List TokenKind
  | .unsigned => [.keyword .unsigned]
  | .zerofill => [.keyword .zerofill]
  | .charset _ | .idle => []

theorem mem_modifiers {t : FieldType} {m : TypeModifier} (h : m ∈ modifiers t) :
    m = .unsigned ∨ m = .zerofill := by
  rcases List.mem_append.1 h with h | h
  · exact Or.inl (by simpa using (List.mem_ite_nil_right.1 h).2)
  · exact Or.inr (by simpa using (List.mem_ite_nil_right.1 h).2)

theorem parses_typeModifier {m : TypeModifier} (h : m = .unsigned ∨ m = .zerofill) :
    Parses typeModifier (modifierKinds m) (some m) Any := by
  rcases h with rfl | rfl
  · exact parses_kind_bind (parses_advance.cons (.pure _))
  · exact parses_kind_bind (parses_advance.cons (.pure _))

theorem parses_no_typeModifier : Parses typeModifier [] none BehindType :=
  parses_kind_look (forall_behindType.2 ⟨rfl, rfl, rfl, rfl, rfl, rfl, rfl, rfl, rfl⟩)

theorem parses_modifiers (t : FieldType) :
    Parses (many typeModifier) ((modifiers t).flatMap modifierKinds) (modifiers t) BehindType := by
  have hmany := parses_many id modifierKinds Any
    (fun m hm => parses_typeModifier (mem_modifiers (t := t) hm))
    (fun m hm => ?_) parses_no_typeModifier fun _ _ => trivial
  · rwa [List.map_id] at hmany
  · rcases mem_modifiers hm with rfl | rfl
    · exact ⟨_, _, rfl, trivial⟩
    · exact ⟨_, _, rfl, trivial⟩

theorem endsType_of_behindType : ∀ k, BehindType k → EndsType k :=
  forall_behindType.2 (by simp [EndsType])

/-- A type with its modifiers, given how the type alone is read. -/
theorem parses_fieldTypeOf {t : FieldType} {ks : List TokenKind}
    (h : Parses dataType ks t.dataType EndsType) (hcharset : t.charset = none)
    (hcollation : t.collation = none) :
    Parses fieldType (ks ++ (if t.unsigned then [.keyword .unsigned] else []) ++
      (if t.zerofill then [.keyword .zerofill] else [])) t BehindType := by
  obtain ⟨dataType, unsigned, zerofill, charset, collation⟩ := t
  cases hcharset
  cases hcollation
  have hmodifiers := (parses_modifiers ⟨dataType, unsigned, zerofill, none, none⟩).bind_pure
    fun ms => ms.foldl FieldType.modify ⟨dataType, false, false, none, none⟩
  have hall : Parses fieldType _ _ BehindType := h.append hmodifiers fun k hk => ?_
  · cases unsigned <;> cases zerofill <;>
      simpa [modifiers, modifierKinds, FieldType.modify] using hall
  · have hend := endsType_of_behindType k hk
    cases unsigned
    · cases zerofill
      · exact hend
      · simp [EndsType, modifiers, modifierKinds]
    · simp [EndsType, modifiers, modifierKinds]

theorem parses_fieldType {t : FieldType} (h : t.dataType.IsCanonical) (hcharset : t.charset = none)
    (hcollation : t.collation = none) : Parses fieldType t.kinds t BehindType :=
  parses_fieldTypeOf (parses_dataType h) hcharset hcollation

end Parse

end SchemaModels.Ddl

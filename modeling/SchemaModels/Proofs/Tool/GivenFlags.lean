import SchemaModels.Proofs.Results
import SchemaModels.Tool.Flags

/-!
# The flags among some arguments

`Flag.given` lists the flags that arguments spell, without their values. A setting that is read from
arguments has its flag among them (`given_of_arguments`).
-/

namespace SchemaModels.Tool

namespace Flag

/-- The flags of a group of letters; what follows a flag that takes a value is no letter. -/
def ofLetters : Text → List Flag
  | [] => []
  | c :: t =>
    match ofLetter? c with
    | none => []
    | some f =>
      match f.argument, t with
      | .required, _ => [f]
      | .attached, '=' :: _ => [f]
      | _, t => f :: ofLetters t

/-- The flags of one argument. -/
def ofArgument : Text → List Flag
  | '-' :: '-' :: body => (ofName? (body.takeWhile (· ≠ '='))).toList
  | '-' :: c :: t => ofLetters (c :: t)
  | _ => []

def given (args : List Text) : List Flag := args.flatMap ofArgument

theorem mem_ofLetters {c : Char} {f g : Flag} (h : ofLetter? c = some f) (t : Text) (hg : f = g) :
    g ∈ ofLetters (c :: t) := by
  subst hg
  simp only [ofLetters, h]
  split <;> simp

end Flag

namespace Flags

theorem get_give {fs fs' : Flags} {f : Flag} {v : Text} (h : fs.give f v = .ok fs') {k : Key}
    (hk : f ≠ .setting k) : fs'.overrides.get k = fs.overrides.get k := by
  unfold give at h
  split at h
  · obtain ⟨value, -, h⟩ := exists_of_bind_ok h
    cases h
    exact Profile.get_set_of_ne _ _ fun he => hk (by rw [he])
  · split at h
    · cases h
    · obtain ⟨p, -, h⟩ := exists_of_bind_ok h
      cases h
      rfl
  · split at h
    · cases h
    · cases h
      rfl
  · cases h

theorem get_put {fs fs' : Flags} {f : Flag} (h : fs.put f = .ok fs') {k : Key}
    (hk : f ≠ .setting k) : fs'.overrides.get k = fs.overrides.get k := by
  unfold put at h
  split at h
  · split at h <;> cases h
    rfl
  · split at h <;> cases h
    rfl
  · cases h
  · cases h
  · exact get_give h hk

end Flags

namespace FlagReading

/-- The reading has come to a flag of the setting, be it with its value or without. -/
def Holds (r : FlagReading) (k : Key) : Prop :=
  r.flags.overrides.get k ≠ none ∨ ∃ v, r.pending = some (.setting k, v)

theorem holds_of_settle {r : FlagReading} {fs : Flags} (h : r.settle = .ok fs) {k : Key}
    (hk : fs.overrides.get k ≠ none) : r.Holds k := by
  unfold settle at h
  split at h
  · cases h
    exact Or.inl hk
  · cases h
  · rename_i f v hp
    by_cases hf : f = .setting k
    · exact Or.inr ⟨some v, by rw [hp, hf]⟩
    · exact Or.inl (by rwa [Flags.get_give h hf] at hk)

theorem holds_of_give {r r' : FlagReading} {f : Flag} {v : Text} (h : r.give f v = .ok r')
    {k : Key} (hk : r'.Holds k) : r.Holds k ∨ f = .setting k := by
  obtain ⟨fs, hs, h⟩ := exists_of_bind_ok h
  obtain ⟨fs', hg, h⟩ := exists_of_bind_ok h
  cases h
  by_cases hf : f = .setting k
  · exact Or.inr hf
  · rcases hk with hk | ⟨v, hv⟩
    · rw [Flags.get_give hg hf] at hk
      exact Or.inl (holds_of_settle hs hk)
    · cases hv

theorem holds_of_put {r r' : FlagReading} {f : Flag} (h : r.put f = .ok r') {k : Key}
    (hk : r'.Holds k) : r.Holds k ∨ f = .setting k := by
  obtain ⟨fs, hs, h⟩ := exists_of_bind_ok h
  obtain ⟨fs', hg, h⟩ := exists_of_bind_ok h
  cases h
  by_cases hf : f = .setting k
  · exact Or.inr hf
  · rcases hk with hk | ⟨v, hv⟩
    · rw [Flags.get_put hg hf] at hk
      exact Or.inl (holds_of_settle hs hk)
    · cases hv

theorem holds_of_await {r r' : FlagReading} {f : Flag} (h : r.await f = .ok r') {k : Key}
    (hk : r'.Holds k) : r.Holds k ∨ f = .setting k := by
  obtain ⟨fs, hs, h⟩ := exists_of_bind_ok h
  cases h
  rcases hk with hk | ⟨v, hv⟩
  · exact Or.inl (holds_of_settle hs hk)
  · exact Or.inr (Prod.mk.inj (Option.some.inj hv)).1

theorem holds_of_long {r r' : FlagReading} {body : Text} (h : r.long body = .ok r') {k : Key}
    (hk : r'.Holds k) :
    r.Holds k ∨ .setting k ∈ (Flag.ofName? (body.takeWhile (· ≠ '='))).toList := by
  unfold long at h
  split at h
  · cases h
  · rename_i f hf
    rw [hf, Option.mem_toList, Option.some_inj]
    dsimp only at h
    split at h
    · cases h
    · exact holds_of_await h hk
    · exact holds_of_give h hk
    · exact holds_of_put h hk

theorem holds_of_letters {t : Text} {r r' : FlagReading} (h : letters t r = .ok r') {k : Key}
    (hk : r'.Holds k) : r.Holds k ∨ .setting k ∈ Flag.ofLetters t := by
  fun_induction letters t r with
  | case1 r =>
      cases h
      exact Or.inl hk
  | case2 => cases h
  | case3 c r f hf ha =>
      exact (holds_of_await h hk).imp_right (Flag.mem_ofLetters hf _)
  | case4 c r f hf v ha =>
      exact (holds_of_give h hk).imp_right (Flag.mem_ofLetters hf _)
  | case5 c r f hf v ha hv =>
      exact (holds_of_give h hk).imp_right (Flag.mem_ofLetters hf _)
  | case6 c r f hf v ha =>
      exact (holds_of_give h hk).imp_right (Flag.mem_ofLetters hf _)
  | case7 c r f hf t h₁ h₂ h₃ h₄ ih =>
      obtain ⟨r₁, hp, h⟩ := exists_of_bind_ok h
      have ht : Flag.ofLetters (c :: t) = f :: Flag.ofLetters t := by
        simp only [Flag.ofLetters, hf]
      rw [ht]
      rcases ih r₁ h with hr | hr
      · exact (holds_of_put hp hr).imp_right fun he => by simp [he]
      · exact Or.inr (List.mem_cons_of_mem _ hr)

theorem holds_of_argument {r r' : FlagReading} {arg : Text} (h : r.argument arg = .ok r') {k : Key}
    (hk : r'.Holds k) : r.Holds k ∨ .setting k ∈ Flag.ofArgument arg := by
  unfold argument at h
  split at h
  · exact holds_of_long h hk
  · rename_i c t hc
    rw [Flag.ofArgument.eq_2 c t hc]
    exact holds_of_letters h hk
  · unfold plain at h
    split at h
    · rename_i f hp
      cases h
      rcases hk with hk | ⟨v, hv⟩
      · exact Or.inl (Or.inl hk)
      · cases hv
        exact Or.inl (Or.inr ⟨none, hp⟩)
    · cases h

theorem holds_of_arguments {args : List Text} {r : FlagReading} {fs : Flags}
    (h : r.arguments args = .ok fs) {k : Key} (hk : fs.overrides.get k ≠ none) :
    r.Holds k ∨ .setting k ∈ Flag.given args := by
  induction args generalizing r with
  | nil => exact Or.inl (holds_of_settle h hk)
  | cons arg args ih =>
      unfold arguments at h
      split at h
      · split at h
        · exact Or.inl (holds_of_settle h hk)
        · cases h
      · obtain ⟨r₁, h₁, h⟩ := exists_of_bind_ok h
        rw [Flag.given, List.flatMap_cons, List.mem_append]
        rcases ih h with hr | hr
        · exact (holds_of_argument h₁ hr).imp_right Or.inl
        · exact Or.inr (Or.inr hr)

end FlagReading

theorem given_of_arguments {args : List Text} {fs : Flags} (h : Flags.ofArguments args = .ok fs)
    {k : Key} (hk : fs.overrides.get k ≠ none) : .setting k ∈ Flag.given args := by
  rcases FlagReading.holds_of_arguments h hk with (hr | ⟨v, hv⟩) | hr
  · exact absurd rfl hr
  · cases hv
  · exact hr

end SchemaModels.Tool

import SchemaModels.Proofs.Tool.GivenFlags

/-!
# The settings of given flags

A flag that is given is not lost while the other arguments are read: a reading that has come to a
flag of a setting holds the setting from then on (`FlagReading.Holds`). So the settings that are
read from arguments are exactly those whose flags are given (`get_ne_none_iff_given`).
-/

namespace SchemaModels.Tool

variable {k : Key}

namespace Flag

theorem ofLetters_required {c : Char} {f : Flag} (h : ofLetter? c = some f)
    (hf : f.argument = .required) (t : Text) : ofLetters (c :: t) = [f] := by
  simp only [ofLetters, h, hf]

theorem ofLetters_attached {c : Char} {f : Flag} (h : ofLetter? c = some f)
    (hf : f.argument = .attached) (v : Text) : ofLetters (c :: '=' :: v) = [f] := by
  simp only [ofLetters, h, hf]

end Flag

namespace Flags

theorem get_give_self {fs fs' : Flags} {v : Text} (h : fs.give (.setting k) v = .ok fs') :
    fs'.overrides.get k ≠ none := by
  obtain ⟨value, -, h⟩ := exists_of_bind_ok h
  cases h
  simp

theorem get_give_ne_none {fs fs' : Flags} {f : Flag} {v : Text} (h : fs.give f v = .ok fs')
    (hk : fs.overrides.get k ≠ none ∨ f = .setting k) : fs'.overrides.get k ≠ none := by
  by_cases hf : f = .setting k
  · subst hf
    exact get_give_self h
  · rw [get_give h hf]
    exact hk.resolve_right hf

theorem get_put_ne_none {fs fs' : Flags} {f : Flag} (h : fs.put f = .ok fs')
    (hk : fs.overrides.get k ≠ none ∨ f = .setting k) : fs'.overrides.get k ≠ none := by
  by_cases hf : f = .setting k
  · subst hf
    exact get_give_self h
  · rw [get_put h hf]
    exact hk.resolve_right hf

end Flags

namespace FlagReading

theorem get_settle_ne_none {r : FlagReading} {fs : Flags} (h : r.settle = .ok fs)
    (hk : r.Holds k) : fs.overrides.get k ≠ none := by
  unfold settle at h
  split at h
  · rename_i hp
    cases h
    obtain hset | ⟨v, hv⟩ := hk
    · exact hset
    · rw [hp] at hv
      cases hv
  · cases h
  · rename_i f v hp
    refine Flags.get_give_ne_none h (hk.imp_right fun ⟨w, hw⟩ => ?_)
    rw [hp] at hw
    exact (Prod.mk.inj (Option.some.inj hw)).1

variable {r r' : FlagReading}

theorem holds_give {f : Flag} {v : Text} (h : r.give f v = .ok r')
    (hk : r.Holds k ∨ f = .setting k) : r'.Holds k := by
  obtain ⟨fs, hs, h⟩ := exists_of_bind_ok h
  obtain ⟨fs', hg, h⟩ := exists_of_bind_ok h
  cases h
  exact Or.inl (Flags.get_give_ne_none hg (hk.imp_left (get_settle_ne_none hs)))

theorem holds_put {f : Flag} (h : r.put f = .ok r') (hk : r.Holds k ∨ f = .setting k) :
    r'.Holds k := by
  obtain ⟨fs, hs, h⟩ := exists_of_bind_ok h
  obtain ⟨fs', hg, h⟩ := exists_of_bind_ok h
  cases h
  exact Or.inl (Flags.get_put_ne_none hg (hk.imp_left (get_settle_ne_none hs)))

theorem holds_await {f : Flag} (h : r.await f = .ok r') (hk : r.Holds k ∨ f = .setting k) :
    r'.Holds k := by
  obtain ⟨fs, hs, h⟩ := exists_of_bind_ok h
  cases h
  rcases hk with hk | rfl
  · exact Or.inl (get_settle_ne_none hs hk)
  · exact Or.inr ⟨none, rfl⟩

theorem holds_long {body : Text} (h : r.long body = .ok r')
    (hk : r.Holds k ∨ .setting k ∈ (Flag.ofName? (body.takeWhile (· ≠ '='))).toList) :
    r'.Holds k := by
  unfold long at h
  split at h
  · cases h
  · rename_i f hf
    rw [hf, Option.mem_toList, Option.some_inj] at hk
    dsimp only at h
    split at h
    · cases h
    · exact holds_await h hk
    · exact holds_give h hk
    · exact holds_put h hk

theorem holds_letters {t : Text} (h : letters t r = .ok r')
    (hk : r.Holds k ∨ .setting k ∈ Flag.ofLetters t) : r'.Holds k := by
  fun_induction letters t r with
  | case1 r =>
      cases h
      simpa [Flag.ofLetters] using hk
  | case2 => cases h
  | case3 c r f hf ha =>
      rw [Flag.ofLetters_required hf ha, List.mem_singleton] at hk
      exact holds_await h (hk.imp_right Eq.symm)
  | case4 c r f hf v ha =>
      rw [Flag.ofLetters_required hf ha, List.mem_singleton] at hk
      exact holds_give h (hk.imp_right Eq.symm)
  | case5 c r f hf v _ _ ha =>
      rw [Flag.ofLetters_required hf ha, List.mem_singleton] at hk
      exact holds_give h (hk.imp_right Eq.symm)
  | case6 c r f hf v ha =>
      rw [Flag.ofLetters_attached hf ha, List.mem_singleton] at hk
      exact holds_give h (hk.imp_right Eq.symm)
  | case7 c r f hf t h₁ h₂ h₃ h₄ ih =>
      obtain ⟨r₁, hp, h⟩ := exists_of_bind_ok h
      have ht : Flag.ofLetters (c :: t) = f :: Flag.ofLetters t := by
        simp only [Flag.ofLetters, hf]
      rw [ht, List.mem_cons, ← or_assoc] at hk
      exact ih r₁ h (hk.imp_left fun hk => holds_put hp (hk.imp_right Eq.symm))

theorem holds_argument {arg : Text} (h : r.argument arg = .ok r')
    (hk : r.Holds k ∨ .setting k ∈ Flag.ofArgument arg) : r'.Holds k := by
  unfold argument at h
  split at h
  · exact holds_long h hk
  · rename_i c t hc
    rw [Flag.ofArgument.eq_2 c t hc] at hk
    exact holds_letters h hk
  · rename_i hlong hletters
    rw [Flag.ofArgument.eq_3 arg hlong hletters] at hk
    unfold plain at h
    split at h
    · rename_i f hp
      cases h
      rcases hk with (hset | ⟨v, hv⟩) | hmem
      · exact Or.inl hset
      · rw [hp] at hv
        cases hv
        exact Or.inr ⟨some arg, rfl⟩
      · cases hmem
    · cases h

theorem get_arguments_ne_none {args : List Text} {fs : Flags} (h : r.arguments args = .ok fs)
    (hk : r.Holds k ∨ .setting k ∈ Flag.given args) : fs.overrides.get k ≠ none := by
  induction args generalizing r with
  | nil => exact get_settle_ne_none h (by simpa [Flag.given] using hk)
  | cons arg args ih =>
      rw [Flag.given, List.flatMap_cons, List.mem_append, ← or_assoc] at hk
      unfold arguments at h
      split at h
      · rename_i harg
        split at h
        · rename_i hargs
          subst harg hargs
          have hempty : Flag.ofArgument ("--" : Text) = [] := by decide
          rw [hempty] at hk
          exact get_settle_ne_none h (by simpa using hk)
        · cases h
      · obtain ⟨r₁, h₁, h⟩ := exists_of_bind_ok h
        exact ih h (hk.imp_left (holds_argument h₁))

end FlagReading

theorem get_ne_none_iff_given {args : List Text} {fs : Flags} (h : Flags.ofArguments args = .ok fs)
    (k : Key) : fs.overrides.get k ≠ none ↔ .setting k ∈ Flag.given args :=
  ⟨given_of_arguments h, fun hk => FlagReading.get_arguments_ne_none h (Or.inr hk)⟩

end SchemaModels.Tool

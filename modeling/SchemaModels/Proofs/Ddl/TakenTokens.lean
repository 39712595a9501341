import Mathlib.Computability.Language
import SchemaModels.Proofs.Ddl.Balance

/-!
# How tokens are taken

A token that is taken is read, or captured with the group in which it stands, or dropped: behind a
few words the next token is passed over whatever it is. A clause of the grammar is a language of
tokens that are taken, in which everything that is not dropped balances and no semicolon is read
(`Clause`). Clauses are made of smaller ones, so every one of them balances because its parts do.
-/

namespace SchemaModels.Ddl

open Computability

inductive Role
  | read
  /-- Within a group that is kept as text. -/
  | captured
  /-- Passed over, whatever it is. -/
  | dropped
  deriving DecidableEq, Repr

structure TakenToken where
  role : Role
  token : Token
  deriving DecidableEq, Repr

def Role.mark (r : Role) (ts : List Token) : List TakenToken := ts.map (⟨r, ·⟩)

def tokensOf (ws : List TakenToken) : List Token := ws.map (·.token)

/-- The tokens that are not dropped. -/
def keptTokens (ws : List TakenToken) : List Token :=
  tokensOf (ws.filter fun w => decide (w.role ≠ .dropped))

theorem tokensOf_append (ws ws' : List TakenToken) :
    tokensOf (ws ++ ws') = tokensOf ws ++ tokensOf ws' := List.map_append

theorem tokensOf_mark (r : Role) (ts : List Token) : tokensOf (r.mark ts) = ts := by
  unfold tokensOf Role.mark
  rw [List.map_map]
  exact List.map_id ts

theorem keptTokens_append (ws ws' : List TakenToken) :
    keptTokens (ws ++ ws') = keptTokens ws ++ keptTokens ws' := by
  unfold keptTokens
  rw [List.filter_append, tokensOf_append]

theorem keptTokens_mark {r : Role} (hr : r ≠ .dropped) (ts : List Token) :
    keptTokens (r.mark ts) = ts := by
  have hall : (r.mark ts).filter (fun w => decide (w.role ≠ .dropped)) = r.mark ts := by
    refine List.filter_eq_self.2 fun w hw => ?_
    obtain ⟨t, -, rfl⟩ := List.mem_map.1 hw
    exact decide_eq_true hr
  rw [keptTokens, hall, tokensOf_mark]

/-- Tokens that are neither parentheses nor semicolons may be dropped. -/
theorem depthAfter_kept {ws : List TakenToken}
    (h : ∀ w ∈ ws, w.role = .dropped → isDelimiter w.token.kind = false) (depth : Nat) :
    depthAfter depth (keptTokens ws) = depthAfter depth (tokensOf ws) := by
  induction ws generalizing depth with
  | nil => rfl
  | cons w ws ih =>
      have hrest := ih fun w' hw' => h w' (List.mem_cons_of_mem w hw')
      have htokens : tokensOf (w :: ws) = w.token :: tokensOf ws := rfl
      rw [htokens]
      by_cases hrole : w.role = .dropped
      · have hkept : keptTokens (w :: ws) = keptTokens ws := by
          unfold keptTokens
          rw [List.filter_cons_of_neg (by simp [hrole])]
        rw [hkept, depthAfter_of_plain (h w List.mem_cons_self hrole), hrest]
      · have hkept : keptTokens (w :: ws) = w.token :: keptTokens ws := by
          unfold keptTokens
          rw [List.filter_cons_of_pos (by simp [hrole])]
          rfl
        rw [hkept, depthAfter_cons, depthAfter_cons]
        simp only [hrest]

/-! ### What balances -/

/-- What is not dropped balances, and no semicolon is read. -/
def IsSound (ws : List TakenToken) : Prop :=
  Balanced (keptTokens ws) ∧ ∀ w ∈ ws, w.role = .read → w.token.kind ≠ .symbol .semicolon

namespace IsSound

theorem nil : IsSound [] := ⟨.nil, nofun⟩

theorem append {ws ws' : List TakenToken} (h : IsSound ws) (h' : IsSound ws') :
    IsSound (ws ++ ws') := by
  refine ⟨?_, fun w hw => (List.mem_append.1 hw).elim (h.2 w) (h'.2 w)⟩
  rw [keptTokens_append]
  exact h.1.append h'.1

theorem flatten {wss : List (List TakenToken)} (h : ∀ ws ∈ wss, IsSound ws) :
    IsSound wss.flatten := by
  induction wss with
  | nil => exact .nil
  | cons ws wss ih =>
      have hrest := ih fun ws' hws' => h ws' (List.mem_cons_of_mem ws hws')
      exact (h ws List.mem_cons_self).append hrest

theorem read {ts : List Token} (h : Balanced ts) (hts : ∀ t ∈ ts, t.kind ≠ .symbol .semicolon) :
    IsSound (Role.read.mark ts) := by
  refine ⟨?_, fun w hw _ => ?_⟩
  · rw [keptTokens_mark (r := .read) nofun]
    exact h
  · obtain ⟨t, ht, rfl⟩ := List.mem_map.1 hw
    exact hts t ht

theorem captured {ts : List Token} (h : Balanced ts) : IsSound (Role.captured.mark ts) := by
  refine ⟨?_, fun w hw hrole => ?_⟩
  · rw [keptTokens_mark (r := .captured) nofun]
    exact h
  · obtain ⟨t, -, rfl⟩ := List.mem_map.1 hw
    cases hrole

theorem dropped (ts : List Token) : IsSound (Role.dropped.mark ts) := by
  have hnone : (Role.dropped.mark ts).filter (fun w => decide (w.role ≠ .dropped)) = [] := by
    refine List.filter_eq_nil_iff.2 fun w hw => ?_
    obtain ⟨t, -, rfl⟩ := List.mem_map.1 hw
    exact nofun
  refine ⟨?_, fun w hw hrole => ?_⟩
  · rw [keptTokens, hnone]
    exact .nil
  · obtain ⟨t, -, rfl⟩ := List.mem_map.1 hw
    cases hrole

/-- Parentheses that are read around what balances. -/
theorem group {o c : Token} {ws : List TakenToken} (ho : o.kind = .symbol .leftParen)
    (hc : c.kind = .symbol .rightParen) (h : IsSound ws) :
    IsSound (⟨.read, o⟩ :: ws ++ [⟨.read, c⟩]) := by
  obtain ⟨hbalanced, hread⟩ := h
  have hkept : keptTokens (⟨.read, o⟩ :: ws ++ [⟨.read, c⟩]) = o :: keptTokens ws ++ [c] := by
    rw [← List.singleton_append, keptTokens_append, keptTokens_append]
    rfl
  refine ⟨?_, fun w hw hrole => ?_⟩
  · rw [hkept]
    exact hbalanced.group ho hc
  · simp only [List.cons_append, List.mem_cons, List.mem_append, List.not_mem_nil,
      or_false] at hw
    rcases hw with rfl | hw | rfl
    · rw [ho]
      exact nofun
    · exact hread w hw hrole
    · rw [hc]
      exact nofun

end IsSound

/-! ### Clauses -/

/-- A way to take tokens, of which all that is not dropped balances. -/
@[ext]
structure Clause where
  language : Language TakenToken
  sound : ∀ ws ∈ language, IsSound ws

namespace Clause

instance : Membership (List TakenToken) Clause := ⟨fun L ws => ws ∈ L.language⟩

instance : Zero Clause := ⟨⟨0, nofun⟩⟩

instance : One Clause where
  one := ⟨1, by
    rintro _ rfl
    exact .nil⟩

instance : Mul Clause where
  mul L M := ⟨L.language * M.language, by
    rintro _ ⟨ws, hws, ws', hws', rfl⟩
    exact (L.sound ws hws).append (M.sound ws' hws')⟩

instance : Add Clause where
  add L M := ⟨L.language + M.language, fun ws hws => hws.elim (L.sound ws) (M.sound ws)⟩

instance : KStar Clause where
  kstar L := ⟨L.language∗, by
    rintro _ ⟨wss, rfl, hwss⟩
    exact .flatten fun ws hws => L.sound ws (hwss ws hws)⟩

theorem optional_mul (L M : Clause) : (L + 1) * M = L * M + M := by
  ext1
  change (L.language + 1) * M.language = L.language * M.language + M.language
  rw [add_mul, one_mul]

protected theorem mul_assoc (L M N : Clause) : L * M * N = L * (M * N) := by
  ext1
  exact mul_assoc L.language M.language N.language

/-- One of several clauses. -/
def anyOf {ι : Type} (L : ι → Clause) : Clause where
  language := {ws | ∃ i, ws ∈ L i}
  sound := fun ws ⟨i, hws⟩ => (L i).sound ws hws

/-- One token that passes a test. -/
def reading (test : TokenKind → Bool) (h : ∀ k, test k = true → isDelimiter k = false) :
    Clause where
  language := {ws | ∃ t : Token, test t.kind = true ∧ ws = Role.read.mark [t]}
  sound := by
    rintro _ ⟨t, ht, rfl⟩
    refine .read (.singleton (h _ ht)) fun u hu => ?_
    rw [List.mem_singleton.1 hu]
    exact ne_semicolon_of_isDelimiter (h _ ht)

/-- The next token, whatever it is, if there is one. -/
def dropped : Clause where
  language := {ws | ∃ ts : List Token, ts.length ≤ 1 ∧ ws = Role.dropped.mark ts}
  sound := by
    rintro _ ⟨ts, -, rfl⟩
    exact .dropped ts

/-- A clause in parentheses. -/
def group (L : Clause) : Clause where
  language := {ws | ∃ (o c : Token) (content : List TakenToken), o.kind = .symbol .leftParen ∧
    c.kind = .symbol .rightParen ∧ content ∈ L ∧ ws = ⟨.read, o⟩ :: content ++ [⟨.read, c⟩]}
  sound := by
    rintro _ ⟨o, c, content, ho, hc, hcontent, rfl⟩
    exact .group ho hc (L.sound content hcontent)

/-- A group in parentheses that is kept as text. -/
def captured : Clause where
  language := {ws | ∃ (o c : Token) (ts : List Token), o.kind = .symbol .leftParen ∧
    c.kind = .symbol .rightParen ∧ Balanced ts ∧ ws = Role.captured.mark (o :: ts ++ [c])}
  sound := by
    rintro _ ⟨o, c, ts, ho, hc, hbalanced, rfl⟩
    exact .captured (hbalanced.group ho hc)

/-- Tokens that balance, with no semicolon between them. -/
def balanced : Clause where
  language := {ws | ∃ ts : List Token, Balanced ts ∧ (∀ t ∈ ts, t.kind ≠ .symbol .semicolon) ∧
    ws = Role.read.mark ts}
  sound := by
    rintro _ ⟨ts, hbalanced, hsemicolon, rfl⟩
    exact .read hbalanced hsemicolon

end Clause

end SchemaModels.Ddl

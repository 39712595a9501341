import SchemaModels.Proofs.Text.Parts
import SchemaModels.Text.Numeral

/-!
# Reading a struct tag

A tag is read by key. Its pairs stand one after the other with blanks between them, and the value of
a pair is a quoted text in which a backslash begins an escape. An escape is longer than the
character it stands for, so a value that is as long as its spelling is spelled without escapes
(`eq_of_unquote_of_length`): where something as long as the value is found under its key, the value
is plain (`isPlain_of_lookup_pair`).
-/

namespace SchemaModels.Go.Tag

/-! ### Escapes -/

/-- What stands before a character of a quoted text. -/
inductive Unquoting
  | plain
  /-- Behind a backslash. -/
  | escaped
  /-- Inside the number of a character or of a byte, with so many digits left. -/
  | number (base left value : Nat) (isByte : Bool)
  deriving DecidableEq, Repr

/-- The escapes of one letter. -/
def escapedChar? : Char → Option Char
  | 'a' => some '\x07'
  | 'b' => some '\x08'
  | 'f' => some '\x0c'
  | 'n' => some '\n'
  | 'r' => some '\r'
  | 't' => some '\t'
  | 'v' => some '\x0b'
  | '\\' => some '\\'
  | '"' => some '"'
  | _ => none

def digit? (base : Nat) (c : Char) : Option Nat :=
  if Text.isHexDigit c && Text.hexDigitValue c < base then some (Text.hexDigitValue c) else none

/-- The character with a number. A byte stands for a character on its own in ASCII only. -/
def numberedChar? (value : Nat) (isByte : Bool) : Option Char :=
  if (if isByte then value < 128 else value.isValidChar) then some (Char.ofNat value) else none

/-- What is behind a character, and the character that is complete with it. -/
def Unquoting.step (c : Char) : Unquoting → Option (Option Char × Unquoting)
  | .plain =>
    if c = '\\' then some (none, .escaped)
    else if c = '"' ∨ c = '\n' then none
    else some (some c, .plain)
  | .escaped =>
    if c = 'x' then some (none, .number 16 2 0 true)
    else if c = 'u' then some (none, .number 16 4 0 false)
    else if c = 'U' then some (none, .number 16 8 0 false)
    else match digit? 8 c with
      | some d => some (none, .number 8 2 d true)
      | none => (escapedChar? c).map fun e => (some e, .plain)
  | .number base left value isByte => do
    let d ← digit? base c
    if left ≤ 1 then (numberedChar? (value * base + d) isByte).map fun e => (some e, .plain)
    else some (none, .number base (left - 1) (value * base + d) isByte)

/-- The text that is quoted. -/
def unquote : Unquoting → Text → Option Text
  | .plain, [] => some []
  | _, [] => none
  | s, c :: t => do
    let (out, s) ← s.step c
    return out.toList ++ (← unquote s t)

/-! ### Pairs -/

/-- The spelling of a value up to the quote that ends it, and what is behind that quote. -/
def untilQuote : Text → Option (Text × Text)
  | [] => none
  | '"' :: t => some ([], t)
  | '\\' :: c :: t => (untilQuote t).map fun (raw, rest) => ('\\' :: c :: raw, rest)
  | c :: t => (untilQuote t).map fun (raw, rest) => (c :: raw, rest)

def isKeyChar (c : Char) : Bool := ' ' < c && c != ':' && c != '"' && c != '\x7f'

/-- The first pair with its value as it is spelled, and what is behind it. -/
def readPair (t : Text) : Option (Text × Text × Text) :=
  if t.takeWhile isKeyChar = [] then none
  else do
    let (raw, rest) ← untilQuote (← Text.after? ":\"" (t.dropWhile isKeyChar))
    return (t.takeWhile isKeyChar, raw, rest)

theorem eq_of_untilQuote {t raw rest : Text} (h : untilQuote t = some (raw, rest)) :
    t = raw ++ '"' :: rest := by
  fun_induction untilQuote t generalizing raw with
  | case1 => cases h
  | case2 t =>
      cases h
      rfl
  | case3 c t ih =>
      obtain ⟨p, hp, hpair⟩ := Option.map_eq_some_iff.1 h
      cases hpair
      simp [ih hp]
  | case4 c t _ _ ih =>
      obtain ⟨p, hp, hpair⟩ := Option.map_eq_some_iff.1 h
      cases hpair
      simp [ih hp]

theorem readPair_eq_some_iff {t key raw rest : Text} :
    readPair t = some (key, raw, rest) ↔ t.takeWhile isKeyChar = key ∧ key ≠ [] ∧
      ∃ after, t.dropWhile isKeyChar = ":\"" ++ after ∧ untilQuote after = some (raw, rest) := by
  unfold readPair
  split
  · rename_i hkey
    simp only [hkey, reduceCtorEq, false_iff]
    rintro ⟨rfl, hne, -⟩
    exact hne rfl
  · rename_i hkey
    constructor
    · intro h
      simp only [bind, Option.bind_eq_some_iff, pure, Option.some.injEq, Prod.mk.injEq] at h
      obtain ⟨after, hafter, ⟨raw', rest'⟩, huntil, rfl, rfl, rfl⟩ := h
      exact ⟨rfl, hkey, after, Text.eq_append_of_after? hafter, huntil⟩
    · rintro ⟨rfl, -, after, hafter, huntil⟩
      rw [hafter, Text.after?_append]
      simp [huntil]

theorem eq_of_readPair {t key raw rest : Text} (h : readPair t = some (key, raw, rest)) :
    t = key ++ ":\"" ++ raw ++ '"' :: rest := by
  obtain ⟨hkey, -, after, hafter, huntil⟩ := readPair_eq_some_iff.1 h
  rw [← List.takeWhile_append_dropWhile (p := isKeyChar) (l := t), hkey, hafter,
    eq_of_untilQuote huntil]
  simp

/-- The value of the first pair with a key. -/
def lookup (key : Text) (tag : Text) : Option Text :=
  match _h : readPair (tag.dropWhile (· = ' ')) with
  | none => none
  | some (k, raw, rest) => if k = key then unquote .plain raw else lookup key rest
termination_by tag.length
decreasing_by
  have hle := (List.dropWhile_suffix (l := tag) (· = ' ')).length_le
  rw [eq_of_readPair _h] at hle
  simp only [List.length_append, List.length_cons] at hle
  omega

/-! ### Values without escapes -/

/-- A character that stands for itself in a quoted text. -/
def isPlain (c : Char) : Bool := c != '"' && c != '\\' && c != '\n'

def pair (key value : Text) : Text := key ++ ":\"" ++ value ++ "\""

theorem step_plain {c : Char} {out : Option Char} {s : Unquoting}
    (h : Unquoting.plain.step c = some (out, s)) :
    out = none ∨ (out = some c ∧ s = .plain ∧ isPlain c = true) := by
  simp only [Unquoting.step] at h
  by_cases hslash : c = '\\'
  · rw [if_pos hslash] at h
    cases h
    exact Or.inl rfl
  · rw [if_neg hslash] at h
    split at h
    · cases h
    · rename_i hspecial
      cases h
      exact Or.inr ⟨rfl, rfl, by simp_all [isPlain]⟩

theorem unquote_of_isPlain {t : Text} (h : t.all isPlain = true) : unquote .plain t = some t := by
  induction t with
  | nil => rfl
  | cons c t ih =>
      simp only [List.all_cons, Bool.and_eq_true, isPlain, bne_iff_ne, ne_eq] at h
      obtain ⟨⟨⟨hquote, hslash⟩, hline⟩, ht⟩ := h
      have hstep : Unquoting.plain.step c = some (some c, .plain) := by
        simp [Unquoting.step, hquote, hslash, hline]
      simp [unquote, hstep, ih ht]

theorem untilQuote_of_isPlain {t : Text} (h : t.all isPlain = true) (rest : Text) :
    untilQuote (t ++ '"' :: rest) = some (t, rest) := by
  induction t with
  | nil => rfl
  | cons c t ih =>
      simp only [List.all_cons, Bool.and_eq_true, isPlain, bne_iff_ne, ne_eq] at h
      obtain ⟨⟨⟨hquote, hslash⟩, -⟩, ht⟩ := h
      rw [List.cons_append, untilQuote, ih ht]
      · rfl
      · exact hquote
      · exact fun _ _ hc => absurd hc hslash

theorem length_le_of_unquote {s : Unquoting} {t v : Text} (h : unquote s t = some v) :
    v.length ≤ t.length := by
  fun_induction unquote s t generalizing v with
  | case1 =>
      cases h
      exact Nat.le_refl 0
  | case2 => cases h
  | case3 s c t ih =>
      simp only [bind, Option.bind_eq_some_iff, pure, Option.some.injEq] at h
      obtain ⟨⟨out, s'⟩, -, w, hw, rfl⟩ := h
      have hout : out.toList.length ≤ 1 := by cases out <;> simp
      have hle := ih s' hw
      simp only [List.length_append, List.length_cons]
      omega

/-- A text that is as long as its spelling is spelled as it is. -/
theorem eq_of_unquote_of_length {t v : Text} (h : unquote .plain t = some v)
    (hlength : t.length ≤ v.length) : v = t ∧ t.all isPlain = true := by
  induction t generalizing v with
  | nil =>
      cases h
      exact ⟨rfl, rfl⟩
  | cons c t ih =>
      simp only [unquote, bind, Option.bind_eq_some_iff, pure, Option.some.injEq] at h
      obtain ⟨⟨out, s⟩, hstep, w, hw, rfl⟩ := h
      obtain rfl | ⟨rfl, rfl, hc⟩ := step_plain hstep
      · -- The character begins an escape, and what is behind it cannot make up for it.
        have hle := length_le_of_unquote hw
        simp only [Option.toList_none, List.nil_append, List.length_cons] at hlength
        omega
      · simp only [Option.toList_some, List.singleton_append, List.length_cons] at hlength
        obtain ⟨rfl, ht⟩ := ih hw (by omega)
        exact ⟨rfl, by simp [hc, ht]⟩

/-! ### Tags of pairs -/

/-- A tag holds the pairs that are found in it. -/
theorem length_le_of_lookup {key tag v : Text} (h : lookup key tag = some v) :
    key.length + v.length + 3 ≤ tag.length := by
  fun_induction lookup key tag with
  | case1 tag hpair => cases h
  | case2 tag raw rest hpair =>
      have hle := (List.dropWhile_suffix (l := tag) (· = ' ')).length_le
      have hv := length_le_of_unquote h
      rw [eq_of_readPair hpair] at hle
      simp at hle
      omega
  | case3 tag k raw rest hpair hk ih =>
      have hle := (List.dropWhile_suffix (l := tag) (· = ' ')).length_le
      have hv := ih h
      rw [eq_of_readPair hpair] at hle
      simp only [List.length_append, List.length_cons] at hle
      omega

theorem readPair_append {key : Text} (hkey : key.all isKeyChar = true) (hne : key ≠ []) (t : Text) :
    readPair (key ++ ":\"" ++ t) = (untilQuote t).map fun p => (key, p) := by
  have hcolon : (":\"" : Text) ++ t = ':' :: '"' :: t := rfl
  have htake : (key ++ (":\"" : Text) ++ t).takeWhile isKeyChar = key := by
    rw [List.append_assoc, hcolon, Text.takeWhile_first hkey (by decide)]
  have hdrop : (key ++ (":\"" : Text) ++ t).dropWhile isKeyChar = ":\"" ++ t := by
    rw [List.append_assoc, hcolon, Text.dropWhile_first hkey (by decide), ← hcolon]
  unfold readPair
  rw [htake, hdrop, if_neg hne, Text.after?_append]
  cases huntil : untilQuote t <;> simp [huntil]

theorem lookup_append {key k : Text} (hkey : k.all isKeyChar = true) (hne : k ≠ []) (t : Text) :
    lookup key (k ++ ":\"" ++ t) = (untilQuote t).bind fun p =>
      if k = key then unquote .plain p.1 else lookup key p.2 := by
  have hdrop : (k ++ (":\"" : Text) ++ t).dropWhile (· = ' ') = k ++ ":\"" ++ t := by
    cases k with
    | nil => exact absurd rfl hne
    | cons c k =>
        have hblank : ' ' ∉ c :: k := Text.not_mem_of_all hkey (by decide)
        have hc : c ≠ ' ' := fun he => hblank (he ▸ List.mem_cons_self)
        simp [hc]
  rw [lookup]
  split
  · rename_i hpair
    rw [hdrop, readPair_append hkey hne, Option.map_eq_none_iff] at hpair
    rw [hpair]
    rfl
  · rename_i k' raw rest hpair
    rw [hdrop, readPair_append hkey hne] at hpair
    obtain ⟨p, hp, hpair⟩ := Option.map_eq_some_iff.1 hpair
    cases hpair
    rw [hp]
    rfl

theorem lookup_nil (key : Text) : lookup key [] = none := by
  rw [lookup]
  rfl

theorem lookup_blank (key tag : Text) : lookup key (' ' :: tag) = lookup key tag := by
  rw [lookup, lookup]
  rfl

section Pairs

variable {k v value : Text}

theorem pair_append (k v rest : Text) :
    pair k v ++ rest = k ++ ":\"" ++ (v ++ '"' :: rest) := by
  simp [pair]

/-- A plain value is found under its key, and does not get in the way of another key. -/
theorem lookup_pair_append (key : Text) (hkey : k.all isKeyChar = true) (hne : k ≠ [])
    (hv : v.all isPlain = true) (rest : Text) :
    lookup key (pair k v ++ rest) = if k = key then some v else lookup key rest := by
  rw [pair_append, lookup_append hkey hne, untilQuote_of_isPlain hv, Option.bind_some,
    unquote_of_isPlain hv]

/-- Nothing that is as long as the value is found unless the value is plain. -/
theorem isPlain_of_lookup_pair (hkey : k.all isKeyChar = true) (hne : k ≠ [])
    (h : lookup k (pair k v) = some value) (hlength : v.length ≤ value.length) :
    value = v ∧ v.all isPlain = true := by
  rw [← List.append_nil (pair k v), pair_append, lookup_append hkey hne] at h
  obtain ⟨⟨raw, rest⟩, huntil, hvalue⟩ := Option.bind_eq_some_iff.1 h
  rw [if_pos rfl] at hvalue
  have heq := eq_of_untilQuote huntil
  have hsum := congrArg List.length heq
  have hle := length_le_of_unquote hvalue
  simp only [List.length_append, List.length_cons, List.length_nil] at hsum hle
  obtain ⟨rfl, hplain⟩ := eq_of_unquote_of_length hvalue (by dsimp only; omega)
  obtain ⟨rfl, -⟩ := List.append_inj heq (by omega)
  exact ⟨rfl, hplain⟩

/-- Of two pairs, the first one is found as it is, and something as long as the second one, only if
the value of the first one is plain. -/
theorem isPlain_of_lookup_pairs {key w : Text} (hkey : k.all isKeyChar = true) (hne : k ≠ [])
    (hkk : k ≠ key) (hfirst : lookup k (pair k v ++ ' ' :: pair key w) = some v)
    (hsecond : lookup key (pair k v ++ ' ' :: pair key w) = some value)
    (hlength : w.length ≤ value.length) : v.all isPlain = true := by
  rw [pair_append, lookup_append hkey hne] at hfirst hsecond
  obtain ⟨⟨raw, rest⟩, huntil, hunquote⟩ := Option.bind_eq_some_iff.1 hfirst
  rw [huntil, Option.bind_some, if_neg hkk] at hsecond
  rw [if_pos rfl] at hunquote
  have heq := eq_of_untilQuote huntil
  have hsum := congrArg List.length heq
  have hraw := length_le_of_unquote hunquote
  have hrest := length_le_of_lookup hsecond
  simp [pair] at hsum hraw hrest
  obtain hv | hv : raw.length = v.length ∨ raw.length = v.length + 1 := by omega
  · obtain ⟨rfl, -⟩ := List.append_inj heq hv.symm
    exact (eq_of_unquote_of_length hunquote (Nat.le_refl _)).2
  · -- The quote behind the value would be escaped, and the blank would have to end it.
    have hblank := congrArg (·[v.length + 1]?) heq
    simp [hv] at hblank

end Pairs

end SchemaModels.Go.Tag

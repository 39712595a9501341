import SchemaModels.Proofs.Ddl.NamePlaces
import SchemaModels.Proofs.Ddl.Spelling

/-!
# A name that stands nowhere else

What a reader takes from a text, a name or a clause as it is written, is a piece of that text. So a
name that does not occur around its place (`Slot.Fresh`) is taken from nowhere else.
-/

namespace SchemaModels

/-! ### Slices -/

namespace Text

theorem suffix_of_dropBytes? {s t : Text} {n : Nat} (h : dropBytes? n s = some t) : t <:+ s := by
  fun_induction dropBytes? n s with
  | case1 s =>
    cases h
    exact List.suffix_rfl
  | case2 n => cases h
  | case3 n c s hc ih => exact (ih h).trans (List.suffix_cons c s)
  | case4 n c s hc => cases h

theorem of_takeBytes? {s t : Text} {n : Nat} (h : takeBytes? n s = some t) :
    t <+: s ∧ byteLength t = n := by
  fun_induction takeBytes? n s generalizing t with
  | case1 s =>
    cases h
    exact ⟨List.nil_prefix, rfl⟩
  | case2 n => cases h
  | case3 n c s hc ih =>
    obtain ⟨u, hu, rfl⟩ := Option.map_eq_some_iff.1 h
    obtain ⟨hstart, hlength⟩ := ih hu
    refine ⟨List.cons_prefix_cons.2 ⟨rfl, hstart⟩, ?_⟩
    rw [byteLength_cons]
    omega
  | case4 n c s hc => cases h

end Text

namespace Ddl

theorem Span.of_slice_ne_nil {s : Span} {source : Text} (h : s.slice source ≠ []) :
    s.slice source <:+: source ∧ Text.byteLength (s.slice source) = s.stop - s.start := by
  unfold Span.slice at h ⊢
  split at h
  · rename_i hle
    rw [if_pos hle]
    cases hdrop : Text.dropBytes? s.start source with
    | none =>
      rw [hdrop] at h
      exact absurd rfl h
    | some t =>
      cases htake : Text.takeBytes? s.length t with
      | none =>
        rw [hdrop, Option.bind_some, htake] at h
        exact absurd rfl h
      | some u =>
        obtain ⟨hstart, hlength⟩ := Text.of_takeBytes? htake
        rw [Option.bind_some, htake]
        exact ⟨hstart.isInfix.trans (Text.suffix_of_dropBytes? hdrop).isInfix, hlength⟩
  · exact absurd rfl h

theorem Span.slice_infix (s : Span) (source : Text) : s.slice source <:+: source := by
  by_cases h : s.slice source = []
  · rw [h]
    exact List.nil_infix
  · exact (Span.of_slice_ne_nil h).1

/-! ### Names among the tokens -/

namespace Lexer

/-- A name without backquotes stands between its quotes as it is. -/
theorem of_quotedText_plain {o : Nat} {t v : Text} {p : Place}
    (h : quotedText '\x60' false o t = (some v, p)) (hv : '\x60' ∉ v) :
    t = v ++ '\x60' :: p.rest := by
  fun_induction quotedText '\x60' false o t generalizing v with
  | case1 o r ih =>
    generalize quotedText '\x60' false _ r = z at h
    obtain ⟨value, q⟩ := z
    obtain ⟨hvalue, -⟩ := Prod.mk.inj h
    obtain ⟨w, -, rfl⟩ := Option.map_eq_some_iff.1 hvalue
    exact absurd List.mem_cons_self hv
  | case2 o d r hd =>
    cases h
    rfl
  | case3 o c d r hc hescape ih => simp at hescape
  | case4 o c d r hc hescape ih =>
    generalize quotedText '\x60' false _ (d :: r) = z at h ih
    obtain ⟨value, q⟩ := z
    obtain ⟨hvalue, rfl⟩ := Prod.mk.inj h
    obtain ⟨w, rfl, rfl⟩ := Option.map_eq_some_iff.1 hvalue
    rw [ih rfl (fun hw => hv (List.mem_cons_of_mem c hw))]
    rfl
  | case5 o c =>
    obtain ⟨hvalue, rfl⟩ := Prod.mk.inj h
    split at hvalue
    · rename_i hc
      cases hvalue
      rw [hc]
      rfl
    · cases hvalue
  | case6 o => cases h

theorem number_ne_identifier (o : Nat) (t v : Text) : (number o t).1 ≠ .identifier v := by
  unfold number integer
  dsimp only
  split
  · split <;> exact nofun
  · split <;> exact nofun

theorem infix_of_quotedText {o : Nat} {r v text : Text} {q : Place}
    (h : quotedText '\x60' false (o + 1) r = (some v, q)) (hv : '\x60' ∉ v)
    (htext : '\x60' :: r = text ++ q.rest) : v <:+: text := by
  have hquoted := of_quotedText_plain h hv
  have hwhole : ('\x60' :: v ++ ['\x60']) ++ q.rest = text ++ q.rest := by
    rw [← htext, hquoted]
    simp
  rw [← List.append_cancel_right hwhole]
  exact ⟨['\x60'], ['\x60'], by simp⟩

theorem takeWhile_eq_of_dropWhile {f : Char → Bool} {r text : Text}
    (htext : r = text ++ r.dropWhile f) : r.takeWhile f = text := by
  have hwhole : r.takeWhile f ++ r.dropWhile f = text ++ r.dropWhile f := by
    rw [List.takeWhile_append_dropWhile]
    exact htext
  exact List.append_cancel_right hwhole

/-- A name without backquotes is a piece of the text of its token. -/
theorem infix_of_token {o : Nat} {c : Char} {r v text : Text} {q : Place}
    (h : token o c r = (.identifier v, q)) (hv : '\x60' ∉ v) (htext : c :: r = text ++ q.rest) :
    v <:+: text := by
  unfold token at h
  split at h
  · cases h
  · split at h
    · generalize quotedText c true (o + 1) r = z at h
      obtain ⟨_ | value, p⟩ := z <;> cases h
    · split at h
      · rename_i hc
        subst hc
        cases hz : quotedText '\x60' false (o + 1) r with
        | mk value p =>
          rw [hz] at h
          cases value with
          | none => cases h
          | some value =>
            cases h
            exact infix_of_quotedText hz hv htext
      · split at h
        · generalize blobBytes (o + 2) (r.drop 1) = z at h
          obtain ⟨_ | bytes, p⟩ := z <;> cases h
        · split at h
          · exact absurd (congrArg Prod.fst h) (number_ne_identifier o (c :: r) v)
          · split at h
            · obtain ⟨hkind, rfl⟩ := Prod.mk.inj h
              rw [← takeWhile_eq_of_dropWhile htext]
              split at hkind
              · cases hkind
              · cases hkind
                exact List.infix_rfl
            · cases h

end Lexer

/-- A name without backquotes stands in the text of its token. -/
theorem infix_of_mem_lexemes {source v : Text} {t : Token} (ht : t ∈ lexemes source)
    (hkind : t.kind = .identifier v) (hv : '\x60' ∉ v) : v <:+: t.span.slice source := by
  obtain hfault | ⟨prior, c, r, rfl, rfl⟩ := readIn_lexemes ht
  · cases hfault.symm.trans hkind
  · obtain ⟨text, rest, htext, -, hbehind⟩ :=
      Lexer.exists_text_of_token (Text.byteLength prior) c r
    have htoken : Lexer.token (Text.byteLength prior) c r =
        (.identifier v, ⟨Text.byteLength prior + Text.byteLength text, rest⟩) :=
      Prod.ext hkind hbehind
    have hslice := Span.slice_append prior text rest
    rw [List.append_assoc, ← htext] at hslice
    rw [htoken]
    refine Eq.mpr (congrArg (v <:+: ·) hslice) ?_
    exact Lexer.infix_of_token htoken hv htext

namespace Slot

variable {s : Slot} {m : Text} {c d : Cursor} {ts us : List Token}

/-- A name that does not occur around its place. -/
structure Fresh (s : Slot) (m : Text) : Prop where
  front : ¬ m <:+: s.front
  back : ¬ m <:+: s.back
  plain : '\x60' ∉ m

theorem Fresh.ne_nil (hm : s.Fresh m) : m ≠ [] := fun hnil => hm.front (hnil ▸ List.nil_infix)

/-- The cursor has the last tokens of the text ahead. -/
def At (s : Slot) (m : Text) (c : Cursor) : Prop :=
  (∃ ts, ts <:+ s.before ∧ c = s.ahead m ts) ∨ ∃ us, us <:+ lexemes s.back ∧ c = s.behind m us

theorem At.lexed (hs : s.Fits) (h : s.At m c) : c.Lexed := by
  obtain ⟨ts, hts, rfl⟩ | ⟨us, hus, rfl⟩ := h
  · exact hs.lexed_ahead hts
  · exact hs.lexed_behind hus

theorem At.of_reads {blind : Bool} (h : s.At m c) (hreads : Reads blind c d) : s.At m d := by
  obtain ⟨ts, hts, rfl⟩ | ⟨us, hus, rfl⟩ := h
  · obtain ⟨us, hus, rfl⟩ | ⟨us, hus, rfl⟩ := cases_of_suffix hreads.source_eq hreads.suffix
    · exact Or.inl ⟨us, hus.trans hts, rfl⟩
    · exact Or.inr ⟨us, hus, rfl⟩
  · obtain ⟨source, left⟩ := d
    obtain rfl : source = s.source m := hreads.source_eq
    obtain ⟨us', hus', rfl⟩ := List.suffix_map_iff.1 hreads.suffix
    exact Or.inr ⟨us', hus'.trans hus, rfl⟩

/-! ### Names -/

theorem Fresh.not_infix_front (hs : s.Fits) (hm : s.Fresh m) {t : Token} (ht : t ∈ s.before)
    (start : Nat) (n : Text) : ¬ m <:+: (⟨start, t.span.stop⟩ : Span).slice (s.source n) := by
  rw [hs.slice_eq ht]
  exact fun h => hm.front (h.trans (Span.slice_infix _ _))

theorem Fresh.not_infix_back (hm : s.Fresh m) (span : Span) (n : Text) :
    ¬ m <:+: (span.shift (Text.byteLength (s.lead n))).slice (s.source n) := by
  unfold source
  rw [Span.slice_shift]
  exact fun h => hm.back (h.trans (Span.slice_infix _ _))

/-- A name that is read without backquotes stands in the text of the current token. -/
theorem infix_of_name? (hc : c.Lexed) {v : Text} (h : Parse.name? c = .ok (some v) d)
    (hv : '\x60' ∉ v) : c.ahead ≠ [] ∧ v <:+: c.current.span.slice c.source := by
  obtain ⟨hname, -⟩ := ok_inj h
  have hne : c.ahead ≠ [] := by
    intro hnil
    rw [Cursor.kind_current_of_nil hnil] at hname
    cases hname
  have hmem : c.current ∈ lexemes c.source :=
    hc.mem (Cursor.ahead_eq_cons hne ▸ List.mem_cons_self)
  refine ⟨hne, ?_⟩
  split at hname
  · rename_i hkind
    cases hname
    exact infix_of_mem_lexemes hmem hkind hv
  · cases hname
    exact List.infix_rfl
  · cases hname

/-- A fresh name is only read in its place. -/
theorem Fresh.eq_ahead_of_name? (hs : s.Fits) (hm : s.Fresh m) (hc : s.At m c)
    (h : Parse.name? c = .ok (some m) d) : c = s.ahead m [] := by
  obtain ⟨hne, hinfix⟩ := infix_of_name? (hc.lexed hs) h hm.plain
  obtain ⟨_ | ⟨t, ts⟩, hts, rfl⟩ | ⟨_ | ⟨t, us⟩, hus, rfl⟩ := hc
  · rfl
  · exact absurd hinfix (hm.not_infix_front hs (hts.mem List.mem_cons_self) _ _)
  · exact absurd rfl hne
  · exact absurd hinfix (hm.not_infix_back _ _)

/-! ### Clauses as they are written -/

theorem exists_of_textTo_ne_nil (h : c.textTo d ≠ []) : ∃ first last,
    (c.ahead.take (c.ahead.length - d.ahead.length)).head? = some first ∧
    (c.ahead.take (c.ahead.length - d.ahead.length)).getLast? = some last ∧
    c.textTo d = (⟨first.span.start, last.span.stop⟩ : Span).slice c.source := by
  unfold Cursor.textTo at h ⊢
  dsimp only at h ⊢
  split at h
  · rename_i first last hfirst hlast
    rw [hfirst, hlast]
    exact ⟨first, last, rfl, rfl, rfl⟩
  · exact absurd rfl h

theorem Fits.start_le (hs : s.Fits) {t : Token} (ht : t ∈ s.before) :
    t.span.start ≤ Text.byteLength s.front := by
  have hmem : t ∈ (tokens (s.source [])).dropLast := by
    rw [tokens, List.dropLast_concat, hs []]
    exact List.mem_append_left _ ht
  have hfilled := ((isTiling_tokens (s.source [])).filled t hmem).2
  exact Nat.le_trans (Nat.le_of_lt hfilled) (hs.stop_le ht)

theorem head_start_le (hs : s.Fits) (hts : ts <:+ s.before) (k : Nat) {first : Token}
    (h : ((s.ahead m ts).ahead.take k).head? = some first) :
    first.span.start ≤ Text.byteLength s.front := by
  obtain ⟨k, rfl⟩ : ∃ j, k = j + 1 := Nat.exists_eq_succ_of_ne_zero (by rintro rfl; cases h)
  cases ts with
  | nil =>
    cases h
    exact Nat.le_refl _
  | cons t ts =>
    cases h
    exact hs.start_le (hts.mem List.mem_cons_self)

theorem stop_ge_of_mem {t : Token} (ht : t ∈ s.token m :: s.after m) :
    Text.byteLength (s.lead m) ≤ t.span.stop := by
  obtain rfl | ht := List.mem_cons.1 ht
  · exact Nat.le_refl _
  · obtain ⟨u, -, rfl⟩ := List.mem_map.1 ht
    exact Nat.le_add_left _ _

/-- What begins in front of the name and ends with it or behind it is longer than the name. -/
theorem byteLength_lead (hm : '\x60' ∉ m) :
    Text.byteLength (s.lead m) = Text.byteLength s.front + Text.byteLength m + 2 := by
  have hquote : '\x60'.utf8Size = 1 := by decide
  simp only [lead, backquoted, doubled_of_not_mem hm, Text.byteLength_append, Text.byteLength_cons,
    hquote, Text.byteLength_nil]
  omega

/-- The last token of a clause that goes over the name is the name or stands behind it. -/
theorem last_mem {k : Nat} (hk : ts.length < k) {last : Token}
    (h : ((s.ahead m ts).ahead.take k).getLast? = some last) : last ∈ s.token m :: s.after m := by
  obtain ⟨j, hj⟩ := Nat.exists_eq_add_of_lt hk
  have hrest : k - ts.length = j + 1 := by omega
  rw [show (s.ahead m ts).ahead = ts ++ s.token m :: s.after m from rfl, List.take_append, hrest,
    List.getLast?_append, List.take_succ_cons,
    List.getLast?_eq_some_getLast (List.cons_ne_nil _ _), Option.some_or] at h
  cases h
  exact List.cons_subset_cons _ (List.take_subset j (s.after m)) (List.getLast_mem _)

/-- A fresh name is no clause of the text. -/
theorem Fresh.ne_textTo (hs : s.Fits) (hm : s.Fresh m) (hc : s.At m c) (hd : s.At m d) :
    c.textTo d ≠ m := by
  intro heq
  obtain ⟨first, last, hfirst, hlast, htext⟩ :=
    exists_of_textTo_ne_nil (c := c) (d := d) (heq ▸ hm.ne_nil)
  have hslice := htext.symm.trans heq
  have hinfix : m <:+: (⟨first.span.start, last.span.stop⟩ : Span).slice c.source := by
    simp only [hslice, List.infix_rfl]
  obtain ⟨ts, hts, rfl⟩ | ⟨us, hus, rfl⟩ := hc
  · obtain ⟨us, hus, rfl⟩ | ⟨us, hus, rfl⟩ := hd
    · -- The clause ends in front of the name.
      have hlength : (s.ahead m ts).ahead.length - (s.ahead m us).ahead.length ≤ ts.length := by
        rw [length_ahead, length_ahead]
        omega
      have hmem : last ∈ ts := by
        have htake : last ∈ (ts ++ s.token m :: s.after m).take
            ((s.ahead m ts).ahead.length - (s.ahead m us).ahead.length) :=
          List.mem_of_getLast? hlast
        rw [List.take_append_of_le_length hlength] at htake
        exact List.mem_of_mem_take htake
      exact hm.not_infix_front hs (hts.mem hmem) _ _ hinfix
    · -- It goes over the name, and so is longer.
      have hlength : ts.length < (s.ahead m ts).ahead.length - (s.behind m us).ahead.length := by
        have hle := hus.length_le
        rw [length_ahead, length_behind]
        omega
      have hstart := head_start_le hs hts _ hfirst
      have hstop := stop_ge_of_mem (last_mem hlength hlast)
      have hlead := byteLength_lead (s := s) hm.plain
      have hbytes := (Span.of_slice_ne_nil (hslice ▸ hm.ne_nil)).2
      rw [hslice] at hbytes
      dsimp only at hbytes
      omega
  · -- It stands behind the name.
    obtain ⟨x, -, rfl⟩ := List.mem_map.1 (List.mem_of_mem_take (List.mem_of_mem_head? hfirst))
    obtain ⟨y, -, rfl⟩ := List.mem_map.1 (List.mem_of_mem_take (List.mem_of_getLast? hlast))
    exact hm.not_infix_back ⟨x.span.start, y.span.stop⟩ m hinfix

end Slot

end Ddl

end SchemaModels

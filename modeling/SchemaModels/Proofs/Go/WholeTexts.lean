import SchemaModels.Proofs.Go.SoundTexts
import SchemaModels.Proofs.Text.Parts

/-!
# Scanning line by line reads the whole text

The scanner takes a text line by line and looks one character ahead on the line; a reader of the
whole text does neither. Where one of them stands the other one stands, too (`Stands`): the mode of
the scanner is what the reader knows, given the next character (`Reading.mode`), and the brackets on
its stack are those that the text leaves open (`Opened`). A character, the end of a line and the end
of the text keep this or meet a fault of the text. So the scanner accepts the sound texts, records
of each line what the text in front of it says, and refuses the others at their first fault
(`scan_reads_whole_text`).
-/

namespace SchemaModels.Go.Format

/-! ### Modes -/

/-- The mode of a scanner that looks ahead: a character that may be the first half of a pair is, or
is not. -/
def Reading.mode (r : Reading) (next : Option Char) : Mode :=
  match r.region with
  | .code =>
    if r.pending ∧ next = some '/' then .lineComment
    else if r.pending ∧ next = some '*' then .opening
    else .code
  | .string => .literal .double r.pending
  | .rune => .literal .single r.pending
  | .rawString => .rawString
  | .lineComment => .lineComment
  | .blockComment => if r.pending ∧ next = some '/' then .closing else .blockComment

theorem mode_code_none (pending : Bool) : Reading.mode ⟨.code, pending⟩ none = .code := by
  simp [Reading.mode]

theorem mode_blockComment_none (pending : Bool) :
    Reading.mode ⟨.blockComment, pending⟩ none = .blockComment := by
  simp [Reading.mode]

theorem exists_next {c : Char} (hc : c ≠ '\n') (r : Reading) : ∃ r', r.next c = some r' := by
  obtain ⟨region, pending⟩ := r
  cases region with
  | string | rune =>
      simp only [Reading.next, Reading.nextInLiteral, if_neg hc]
      split
      · exact ⟨_, rfl⟩
      · split <;> exact ⟨_, rfl⟩
  | _ => exact ⟨_, rfl⟩

/-- A character leads the scanner from the mode of one reading to that of the next. -/
theorem after_mode {c : Char} (hc : c ≠ '\n') {r r' : Reading} (h : r.next c = some r')
    (next : Option Char) : (r.mode (some c)).after c next = r'.mode next := by
  obtain ⟨region, pending⟩ := r
  cases region with
  | code =>
      cases h
      cases pending <;> grind [Reading.mode, Mode.after, codeMode]
  | string | rune =>
      cases pending <;>
        grind [Reading.next, Reading.nextInLiteral, Reading.mode, Mode.after, Quote.char]
  | rawString | lineComment =>
      cases h
      grind [Reading.mode, Mode.after]
  | blockComment =>
      cases h
      cases pending <;> grind [Reading.mode, Mode.after]

theorem region_of_mode {r : Reading} {next : Option Char} (h : r.mode next = .code) :
    r.region = .code := by
  obtain ⟨region, pending⟩ := r
  cases region with
  | code => rfl
  | blockComment =>
      simp only [Reading.mode] at h
      split at h <;> cases h
  | _ => cases h

/-- A bracket is no second half of a pair. -/
theorem mode_of_region {r : Reading} {c : Char} (h : r.region = .code)
    (hc : isOpening c = true ∨ isClosing c = true) : r.mode (some c) = .code := by
  have hslash : c ≠ '/' := by
    rintro rfl
    revert hc
    decide
  have hasterisk : c ≠ '*' := by
    rintro rfl
    revert hc
    decide
  simp [Reading.mode, h, hslash, hasterisk]

/-! ### The line so far -/

/-- What stands on the last line of a text, the last character first. -/
def lineOf (t : Text) : Text := t.reverse.takeWhile (· ≠ '\n')

theorem lineOf_concat (t : Text) {c : Char} (hc : c ≠ '\n') :
    lineOf (t ++ [c]) = c :: lineOf t := by
  rw [lineOf, List.reverse_append, List.reverse_singleton, List.singleton_append,
    List.takeWhile_cons_of_pos (by simpa using hc)]
  rfl

theorem lineOf_eq_nil {t : Text} (h : ∀ c ∈ t.getLast?, c = '\n') : lineOf t = [] := by
  rw [← List.head?_reverse] at h
  unfold lineOf
  cases hreverse : t.reverse with
  | nil => rfl
  | cons c s =>
      obtain rfl : c = '\n' := h c (by simp [hreverse])
      rfl

theorem newline_not_mem_lineOf (t : Text) : '\n' ∉ lineOf t :=
  Text.not_mem_of_all List.all_takeWhile (by simp)

theorem exists_eq_append_lineOf (t : Text) : ∃ front, t = front ++ (lineOf t).reverse := by
  have hreverse : lineOf t ++ t.reverse.dropWhile (· ≠ '\n') = t.reverse :=
    List.takeWhile_append_dropWhile
  refine ⟨(t.reverse.dropWhile (· ≠ '\n')).reverse, ?_⟩
  rw [← List.reverse_append, hreverse, List.reverse_reverse]

theorem endsInStruct_iff (s : Text) : endsInStruct s = true ↔
    ∃ gap rest, s = gap ++ ("tcurts".toList ++ rest) ∧ gap.all Text.isBlank = true := by
  rw [endsInStruct, List.isPrefixOf_iff_prefix]
  constructor
  · rintro ⟨rest, hrest⟩
    refine ⟨s.takeWhile Text.isBlank, rest, ?_, List.all_takeWhile⟩
    rw [hrest, List.takeWhile_append_dropWhile]
  · rintro ⟨gap, rest, rfl, hgap⟩
    rw [List.dropWhile_append_of_pos (List.all_eq_true.1 hgap)]
    exact ⟨rest, rfl⟩

/-- To go back on the line is enough, since neither the word nor the blanks behind it break it. -/
theorem endsInStruct_lineOf (t : Text) : endsInStruct (lineOf t) = true ↔ FollowsStruct t := by
  rw [endsInStruct_iff]
  constructor
  · rintro ⟨gap, rest, hline, hgap⟩
    obtain ⟨front, ht⟩ := exists_eq_append_lineOf t
    refine ⟨front ++ rest.reverse, gap.reverse, ?_, by rw [List.all_reverse, hgap], ?_⟩
    · rw [ht, hline]
      simp
    · rw [List.mem_reverse]
      exact fun hm => newline_not_mem_lineOf t (hline ▸ List.mem_append_left _ hm)
  · rintro ⟨front, gap, rfl, hgap, hnewline⟩
    have hword : (front ++ ("struct".toList ++ gap)).reverse =
        gap.reverse ++ "tcurts".toList ++ front.reverse := by simp
    have hnot : '\n' ∉ gap.reverse ++ "tcurts".toList := by simp [hnewline]
    refine ⟨gap.reverse, lineOf front, ?_, by rw [List.all_reverse, hgap]⟩
    rw [lineOf, hword, Text.takeWhile_append_of_not_mem hnot, List.append_assoc]
    rfl

/-! ### The stack -/

/-- The brackets that a text leaves open, the innermost one first. -/
inductive Opened : Text → List Open → Prop
  | nil {before : Text} (hnested : Nested (brackets before)) : Opened before []
  | cons {before front : Text} {o : Open} {os : List Open} (hfront : Opened front os)
    (hopen : Innermost before front o.bracket)
    (hstruct : o.isStruct = true ↔ o.bracket = .curly ∧ FollowsStruct front) :
    Opened before (o :: os)

namespace Opened

variable {before : Text} {os : List Open}

theorem extend (h : Opened before os) {t : Text} {s : List Char} (ht : before <+: t)
    (hs : Nested s) (heq : brackets t = brackets before ++ s) : Opened t os := by
  cases h with
  | nil hnested => exact .nil (heq ▸ hnested.append hs)
  | cons hfront hopen hstruct => exact .cons hfront (hopen.extend ht hs heq) hstruct

theorem openBehind_eq (h : Opened before os) :
    openBehind [] (brackets before) = some (os.map (·.bracket)) := by
  induction h with
  | nil hnested => exact hnested.openBehind_eq []
  | cons _ hopen _ ih =>
      obtain ⟨s, hs, hbrackets⟩ := hopen.nested
      rw [hbrackets, openBehind_append, ih, Option.bind_some, openBehind_opening, hs.openBehind_eq]
      rfl

/-- As many brackets are open as have been opened and not been closed. -/
theorem length_eq (h : Opened before os) :
    os.length + (brackets before).countP isClosing = (brackets before).countP isOpening := by
  induction h with
  | nil hnested => rw [hnested.count_eq, List.length_nil, Nat.zero_add]
  | @cons before front o os _ hopen _ ih =>
      obtain ⟨s, hs, hbrackets⟩ := hopen.nested
      simp only [hbrackets, List.countP_append, List.countP_cons, isOpening_opening,
        isClosing_opening, hs.count_eq, List.length_cons, if_true, if_false, Bool.false_eq_true]
      omega

/-- The innermost bracket on the stack is the innermost one of the text. -/
theorem head_isStruct_iff (h : Opened before os) : os.head?.any (·.isStruct) = true ↔
    ∃ front, Innermost before front .curly ∧ FollowsStruct front := by
  cases h with
  | nil hnested =>
      refine iff_of_false (by simp) ?_
      rintro ⟨front, hopen, -⟩
      exact hopen.not_nested hnested
  | @cons _ front o os _ hopen hstruct =>
      rw [List.head?_cons, Option.any_some, hstruct]
      constructor
      · rintro ⟨hcurly, hfollows⟩
        exact ⟨front, hcurly ▸ hopen, hfollows⟩
      · rintro ⟨front', hopen', hfollows⟩
        obtain ⟨rfl, hcurly⟩ := hopen.unique hopen'
        exact ⟨hcurly, hfollows⟩

/-- A character of code does to the stack what it does to the brackets of the text, or is the fault
that the scanner reports. -/
theorem bracket (h : Opened before os) (hcode : region before = some .code) (c : Char) :
    Meets (Opened (before ++ [c])) (Fault before (some c))
      (Format.bracket (lineOf before) os c) := by
  have hconcat := brackets_concat before c
  unfold Format.bracket
  cases hopened : Bracket.opened? c with
  | some b =>
      obtain rfl := opening_of_opened? hopened
      rw [if_pos ⟨hcode, by simp⟩] at hconcat
      refine .ok (.cons h ⟨List.prefix_rfl, hcode, [], .nil, hconcat⟩ ?_)
      simp [endsInStruct_lineOf]
  | none =>
      dsimp only
      split
      · rename_i hc
        rw [if_pos ⟨hcode, by simp [hc]⟩] at hconcat
        cases h with
        | nil hnested => exact .error (.unexpectedBracket hcode hc hnested)
        | @cons _ front o os hfront hopen _ =>
            dsimp only
            split
            · rename_i hclosing
              -- The bracket and what it closes are nested behind those that stay open.
              obtain ⟨s, hs, hbrackets⟩ := hopen.nested
              have hprefix : front <+: before ++ [c] :=
                ((List.prefix_append _ _).trans hopen.isPrefix).trans (List.prefix_append _ _)
              refine .ok (hfront.extend hprefix (.pair o.bracket hs .nil) ?_)
              rw [hconcat, hbrackets, hclosing, List.append_assoc, List.cons_append]
            · rename_i hne
              exact .error (.mismatch hcode hc hopen hne)
      · rename_i hc
        rw [if_neg (by simp [isOpening, hopened, hc]), List.append_nil] at hconcat
        exact .ok (h.extend (List.prefix_append _ _) .nil (by rw [hconcat, List.append_nil]))

end Opened

/-! ### Line breaks -/

section LineBreaks

variable {t : Text} (ht : '\n' ∉ t) (before : Text)

include ht

theorem count_line : (before ++ t).count '\n' = before.count '\n' := by
  rw [List.count_append, List.count_eq_zero.2 ht, Nat.add_zero]

theorem count_line_break : (before ++ t ++ ['\n']).count '\n' = before.count '\n' + 1 := by
  rw [List.count_append, count_line ht, List.count_singleton_self]

end LineBreaks

/-! ### Where a scanner stands -/

/-- The scanner is in this state behind a text, with `next` ahead of it on the line. -/
structure Stands (before : Text) (s : State) (next : Option Char) : Prop where
  mode : ∃ r, reading before = some r ∧ s.mode = r.mode next
  stack : Opened before s.stack

namespace Stands

variable {before : Text} {s : State}

theorem isBeginning {next : Option Char} (h : Stands before s next) : IsBeginning before := by
  obtain ⟨r, hr, -⟩ := h.mode
  exact ⟨by simp [hr], by simp [h.stack.openBehind_eq]⟩

theorem firstFault {next : Option Char} (h : Stands before s next) (behind : Text)
    {cause : FormatError.Cause} (hfault : Fault before behind.head? cause) :
    FirstFault (before ++ behind) ⟨before.count '\n' + 1, cause⟩ :=
  ⟨before, behind, rfl, h.isBeginning.faultFree, hfault, rfl⟩

/-- Behind one more character of the line the scanner stands again, if the character is no fault. -/
theorem step {c : Char} (h : Stands before s (some c)) (hc : c ≠ '\n') (next : Option Char) :
    Meets (Stands (before ++ [c]) · next) (Fault before (some c))
      (Format.step (lineOf before) s c next) := by
  obtain ⟨r, hr, hmode⟩ := h.mode
  obtain ⟨r', hr'⟩ := exists_next hc r
  have hnext : reading (before ++ [c]) = some r' := by
    rw [reading_concat, hr, Option.bind_some, hr']
  have hmode' : s.mode.after c next = r'.mode next := by rw [hmode, after_mode hc hr']
  have hregion := region_of_reading hr
  rw [step_eq]
  split
  · rename_i hcode
    rw [hmode] at hcode
    have hmeets := h.stack.bracket (by rw [hregion, region_of_mode hcode]) c
    exact hmeets.map fun os hos => ⟨⟨r', hnext, hmode'⟩, hos⟩
  · rename_i hcode
    -- Where the next character makes a comment of a slash, it is no bracket.
    have hbrackets : brackets (before ++ [c]) = brackets before ++ [] := by
      rw [brackets_concat, if_neg]
      rintro ⟨hin, hc⟩
      rw [hregion, Option.some.injEq] at hin
      exact hcode (hmode.trans (mode_of_region hin (by simpa using hc)))
    exact .ok ⟨⟨r', hnext, hmode'⟩, h.stack.extend (List.prefix_append _ _) .nil hbrackets⟩

/-- The scanner comes to the end of the line, if there is no fault on it. -/
theorem scanLine {t : Text} (h : Stands before s t.head?) (ht : '\n' ∉ t) (behind : Text) :
    Meets (Stands (before ++ t) · none)
      (fun cause => FirstFault (before ++ (t ++ behind)) ⟨before.count '\n' + 1, cause⟩)
      (Format.scanLine (lineOf before) s t) := by
  induction t generalizing before s with
  | nil => exact .ok (by rwa [List.append_nil])
  | cons c t ih =>
      have hc : c ≠ '\n' := fun he => ht (he ▸ List.mem_cons_self)
      have hcount := count_line (t := [c]) (by simpa using hc.symm) before
      rw [Format.scanLine]
      cases hstep : Format.step (lineOf before) s c t.head? with
      | error cause =>
          have hfault := (h.step hc t.head?).of_error hstep
          exact .error (h.firstFault (c :: t ++ behind) hfault)
      | ok s' =>
          have hstands := (h.step hc t.head?).of_ok hstep
          have hline := ih hstands fun hm => ht (List.mem_cons_of_mem c hm)
          rw [hcount, lineOf_concat before hc, ← List.append_cons, ← List.append_cons] at hline
          exact hline

/-- The end of a line is a fault inside a string or a rune, be it the end of the text or not. -/
theorem endLine (h : Stands before s none) :
    Meets (fun s' => ∀ next, Stands (before ++ ['\n']) s' next)
      (fun cause => ∀ next, next = none ∨ next = some '\n' → Fault before next cause)
      (Format.endLine s) := by
  obtain ⟨⟨⟨region, pending⟩, hr, hmode⟩, hstack⟩ := h
  obtain ⟨mode, stack⟩ := s
  dsimp only at hmode hstack
  subst hmode
  have hregion : Format.region before = some region := region_of_reading hr
  have hbrackets : brackets (before ++ ['\n']) = brackets before ++ [] := by
    rw [brackets_concat, if_neg (by rintro ⟨-, hnewline⟩; revert hnewline; decide)]
  have hopened := hstack.extend (List.prefix_append _ _) .nil hbrackets
  have hstands : ∀ {r' : Reading} {mode : Mode}, Reading.next ⟨region, pending⟩ '\n' = some r' →
      (∀ next, mode = r'.mode next) → ∀ next, Stands (before ++ ['\n']) ⟨mode, stack⟩ next :=
    fun hnext hmode next =>
      ⟨⟨_, by rw [reading_concat, hr, Option.bind_some, hnext], hmode next⟩, hopened⟩
  cases region with
  | code =>
      have hnext : Reading.next ⟨.code, pending⟩ '\n' = some ⟨.code, false⟩ := by
        simp [Reading.next]
      rw [mode_code_none]
      exact .ok (hstands hnext fun _ => by simp [Reading.mode])
  | string => exact .error fun _ hnext => .openString hregion hnext
  | rune => exact .error fun _ hnext => .openRune hregion hnext
  | rawString => exact .ok (hstands rfl fun _ => rfl)
  | lineComment => exact .ok (hstands rfl fun _ => rfl)
  | blockComment =>
      have hnext : Reading.next ⟨.blockComment, pending⟩ '\n' = some ⟨.blockComment, false⟩ := by
        simp [Reading.next]
      rw [mode_blockComment_none]
      exact .ok (hstands hnext fun _ => by simp [Reading.mode])

/-- At the end of the text the scanner is content exactly if the text is sound. -/
theorem endText (h : Stands before s none) {s' : State} (hend : Format.endLine s = .ok s') :
    Meets (fun _ => IsSound before) (Fault before none) (Format.endText s') := by
  obtain ⟨⟨⟨region, pending⟩, hr, hmode⟩, hstack⟩ := h
  obtain ⟨mode, stack⟩ := s
  dsimp only at hmode hstack
  subst hmode
  have hregion : Format.region before = some region := region_of_reading hr
  have hcode : Format.region before = some .code ∨ Format.region before = some .lineComment →
      Meets (fun _ => IsSound before) (Fault before none) (Format.endText ⟨.code, stack⟩) := by
    intro hends
    cases hstack with
    | nil hnested => exact .ok ⟨hends, hnested⟩
    | cons _ hopen _ => exact .error (.openBracket hends hopen)
  cases region with
  | code =>
      rw [mode_code_none] at hend
      cases hend
      exact hcode (.inl hregion)
  | string | rune => cases hend
  | rawString =>
      cases hend
      exact .error (.openRawString hregion)
  | lineComment =>
      cases hend
      exact hcode (.inr hregion)
  | blockComment =>
      rw [mode_blockComment_none] at hend
      cases hend
      exact .error (.openComment hregion)

end Stands

/-! ### Lines -/

theorem Stands.records {before : Text} {s : State} (h : Stands before s none) (t : Text) :
    Records before (.at s (before.count '\n' + 1) t) := by
  obtain ⟨⟨⟨region, pending⟩, hr, hmode⟩, hstack⟩ := h
  refine ⟨rfl, hstack.length_eq, ?_, hstack.head_isStruct_iff⟩
  have hregion : Format.region before = some region := region_of_reading hr
  rw [hregion, Line.at, hmode]
  cases region <;> simp [Reading.mode]

theorem Stands.line {before t behind : Text} {s : State} (h : ∀ next, Stands before s next)
    (hline : IsLine (before ++ (t ++ behind)) before t behind) :
    Meets (fun s' => ∃ x, Stands (before ++ t) x none ∧ Format.endLine x = .ok s')
      (FirstFault (before ++ (t ++ behind)))
      (onLine (before.count '\n' + 1) (Format.scanLine [] s t >>= Format.endLine)) := by
  have hscan := (h t.head?).scanLine hline.unbroken behind
  rw [lineOf_eq_nil hline.begins] at hscan
  refine Meets.mapError ?_ fun _ hcause => hcause
  refine hscan.bind fun x hx => ?_
  cases hend : Format.endLine x with
  | ok s' => exact .ok ⟨x, hx, hend⟩
  | error cause =>
      have hnext : behind.head? = none ∨ behind.head? = some '\n' := by
        have hends := hline.ends
        cases behind with
        | nil => exact .inl rfl
        | cons c behind => exact .inr (congrArg some (hends c rfl))
      have hfirst := hx.firstFault behind (hx.endLine.of_error hend _ hnext)
      rw [count_line hline.unbroken, List.append_assoc] at hfirst
      exact .error hfirst

/-- What is scanned of the lines of a text that follow a beginning of it. -/
structure Scans (source before : Text) (lines : List Line) (final : State) : Prop where
  length_eq : before.count '\n' + lines.length = source.count '\n' + 1
  isRecord : ∀ k l, lines[k]? = some l → IsRecord source (before.count '\n' + k) l
  ends : ∃ x, Stands source x none ∧ endLine x = .ok final

theorem Scans.singleton {before t : Text} {l : Line} {x final : State}
    (hl : IsRecord (before ++ t) (before.count '\n') l) (ht : '\n' ∉ t)
    (hx : Stands (before ++ t) x none) (hend : endLine x = .ok final) :
    Scans (before ++ t) before [l] final := by
  refine ⟨?_, fun k l' hl' => ?_, x, hx, hend⟩
  · rw [count_line ht, List.length_singleton]
  · cases k with
    | zero =>
        cases hl'
        exact hl
    | succ k => cases hl'

theorem Scans.cons {source before t : Text} {l : Line} {lines : List Line} {final : State}
    (hl : IsRecord source (before.count '\n') l) (ht : '\n' ∉ t)
    (h : Scans source (before ++ t ++ ['\n']) lines final) :
    Scans source before (l :: lines) final := by
  have hcount := count_line_break ht before
  have hlength := h.length_eq
  rw [hcount] at hlength
  refine ⟨by rw [List.length_cons]; omega, fun k l' hl' => ?_, h.ends⟩
  cases k with
  | zero =>
      cases hl'
      exact hl
  | succ k =>
      have hrecord := h.isRecord k l' hl'
      rwa [hcount, Nat.add_assoc, Nat.add_comm 1 k] at hrecord

/-- The last lines of a text are scanned from where the lines before them have led. -/
theorem Stands.scanLines {ts : List Text} (hne : ts ≠ []) (hts : ∀ t ∈ ts, '\n' ∉ t)
    {before : Text} {s : State} (h : ∀ next, Stands before s next)
    (hbegins : ∀ c ∈ before.getLast?, c = '\n') :
    Meets (fun x => Scans (before ++ Text.join ['\n'] ts) before x.1 x.2)
      (FirstFault (before ++ Text.join ['\n'] ts))
      (Format.scanLines s (before.count '\n' + 1) ts) := by
  induction ts generalizing before s with
  | nil => exact absurd rfl hne
  | cons t ts ih =>
      have ht := hts t List.mem_cons_self
      have hrecords := (h none).records t
      cases ts with
      | nil =>
          have hline : IsLine (before ++ (t ++ [])) before t [] := ⟨rfl, hbegins, ht, nofun⟩
          have hmeets := Stands.line h hline
          rw [List.append_nil] at hline hmeets
          refine hmeets.bind fun s' hs' => ?_
          obtain ⟨x, hx, hend⟩ := hs'
          exact .ok (.singleton ⟨before, [], hline, rfl, hrecords⟩ ht hx hend)
      | cons u us =>
          have hsource : before ++ Text.join ['\n'] (t :: u :: us) =
              before ++ (t ++ '\n' :: Text.join ['\n'] (u :: us)) := by
            rw [Text.join_cons_cons, List.append_assoc, List.singleton_append]
          have hline : IsLine (before ++ (t ++ '\n' :: Text.join ['\n'] (u :: us))) before t
              ('\n' :: Text.join ['\n'] (u :: us)) := ⟨rfl, hbegins, ht, by simp⟩
          rw [hsource]
          refine (Stands.line h hline).bind fun s' hs' => ?_
          obtain ⟨x, hx, hend⟩ := hs'
          have hrest := ih (List.cons_ne_nil u us) (fun v hv => hts v (List.mem_cons_of_mem t hv))
            (hx.endLine.of_ok hend) (by simp)
          have happend : before ++ t ++ ['\n'] ++ Text.join ['\n'] (u :: us) =
              before ++ (t ++ '\n' :: Text.join ['\n'] (u :: us)) := by simp
          rw [count_line_break ht, happend] at hrest
          refine hrest.bind fun lines hlines => .ok ?_
          exact .cons ⟨before, _, hline, rfl, hrecords⟩ ht hlines

/-! ### Texts -/

theorem stands_start (next : Option Char) : Stands [] .start next :=
  ⟨⟨.start, rfl, by simp [Reading.mode, Reading.start, State.start]⟩, .nil .nil⟩

theorem scan_meets (source : Text) :
    Meets (fun lines => IsSound source ∧ lines.length = source.count '\n' + 1 ∧
        ∀ k l, lines[k]? = some l → IsRecord source k l)
      (FirstFault source) (scan source) := by
  have hlines := Stands.scanLines (Text.splitOn_ne_nil '\n' source)
    (fun _ => Text.not_mem_of_mem_splitOn) stands_start nofun
  rw [Text.join_splitOn, List.nil_append] at hlines
  refine hlines.bind fun x hx => ?_
  obtain ⟨lines, final⟩ := x
  obtain ⟨s, hs, hend⟩ := hx.ends
  have hlength : lines.length = source.count '\n' + 1 := by simpa using hx.length_eq
  have hrecord : ∀ k l, lines[k]? = some l → IsRecord source k l := by
    simpa using hx.isRecord
  have htext : Meets (fun _ => IsSound source) (FirstFault source)
      (onLine lines.length (endText final)) := by
    refine (hs.endText hend).mapError fun cause hcause => ?_
    have hfirst := hs.firstFault [] hcause
    rwa [List.append_nil, ← hlength] at hfirst
  exact htext.bind fun _ hsound => .ok ⟨hsound, hlength, hrecord⟩

/-- A text is scanned if and only if it is sound. Then each of its lines has a record of the region
and the brackets in which it begins. An error is the first fault of the text, with its line. -/
theorem scan_reads_whole_text (source : Text) :
    ((∃ lines, scan source = .ok lines) ↔ IsSound source) ∧
    (∀ lines, scan source = .ok lines → lines.length = source.count '\n' + 1 ∧
      ∀ k l, lines[k]? = some l → IsRecord source k l) ∧
    ∀ e, scan source = .error e → FirstFault source e := by
  have hmeets := scan_meets source
  refine ⟨⟨?_, fun hsound => ?_⟩, fun lines h => (hmeets.of_ok h).2, fun e h => hmeets.of_error h⟩
  · rintro ⟨lines, h⟩
    exact (hmeets.of_ok h).1
  · cases hscan : scan source with
    | ok lines => exact ⟨lines, rfl⟩
    | error e =>
        obtain ⟨before, behind, hsource, -, hfault, -⟩ := hmeets.of_error hscan
        exact absurd hfault (hsound.not_fault hsource e.cause)

/-- What `scan_reads_whole_text` says of a struct with a raw string over two of its lines, and of a
bracket that closes another one on the second line. -/
theorem scan_reads_whole_text_of_rawTag :
    let source : Text := "type T struct \x7b\n\ta b \x60(\n\x7b\x60 // )\n\x7d"
    (∃ lines l, scan source = .ok lines ∧ lines.length = 4 ∧ lines[2]? = some l ∧
      l = ⟨3, "\x7b\x60 // )", 1, true, true⟩ ∧ IsRecord source 2 l) ∧ IsSound source ∧
    scan "f(\n]" = .error ⟨2, .mismatch ')' ']'⟩ ∧ FirstFault "f(\n]" ⟨2, .mismatch ')' ']'⟩ := by
  intro source
  obtain ⟨lines, hscan⟩ : ∃ lines, scan source = .ok lines := ⟨_, rfl⟩
  have hfault : scan "f(\n]" = .error ⟨2, .mismatch ')' ']'⟩ := rfl
  obtain ⟨hsound, hlines, -⟩ := scan_reads_whole_text source
  obtain ⟨hlength, hrecord⟩ := hlines lines hscan
  have hline : lines[2]? = some ⟨3, "\x7b\x60 // )", 1, true, true⟩ := by
    cases hscan
    rfl
  exact ⟨⟨lines, _, hscan, hlength, hline, rfl, hrecord 2 _ hline⟩, hsound.1 ⟨lines, hscan⟩, hfault,
    (scan_reads_whole_text "f(\n]").2.2 _ hfault⟩

/-- To end outside of raw strings and block comments with nested brackets is not enough: a text may
not end inside a string, either. -/
theorem open_string_at_end_is_refused :
    let source : Text := "x := \"open"
    ¬ ((∃ lines, scan source = .ok lines) ↔
      (∃ r, region source = some r ∧ r ≠ .rawString ∧ r ≠ .blockComment) ∧
        Nested (brackets source)) := by
  intro source h
  have hregion : region source = some .string := rfl
  have hbrackets : brackets source = [] := rfl
  have hscan : scan source = .error ⟨1, .openString⟩ := rfl
  obtain ⟨lines, hlines⟩ := h.2 ⟨⟨_, hregion, nofun, nofun⟩, hbrackets ▸ .nil⟩
  rw [hscan] at hlines
  cases hlines

end SchemaModels.Go.Format

import SchemaModels.Proofs.Go.JoinedTexts
import SchemaModels.Proofs.Go.StringLiterals

/-!
# Files of formatted parts

A file is put together from a package clause, an import clause and structs, with a blank line before
each part but the first. The clauses are laid out from the beginning, whatever is imported
(`format_packageLine`, `format_importText`), so a file whose structs are formatted is formatted as a
whole (`format_renderFile`).
-/

namespace SchemaModels.Go

namespace Format

/-! ### Identifiers -/

theorem continuesIdentifier_of_mem {name : Text} (h : isIdentifier name = true) {c : Char}
    (hc : c ∈ name) : continuesIdentifier c = true := by
  cases name with
  | nil => cases hc
  | cons d name =>
      obtain ⟨hstarts, hcontinues⟩ := Bool.and_eq_true_iff.1 h
      obtain rfl | hc := List.mem_cons.1 hc
      · simp [continuesIdentifier, hstarts]
      · exact List.all_eq_true.1 hcontinues c hc

theorem isWord_of_isIdentifier {name : Text} (h : isIdentifier name = true) : IsWord name := by
  refine List.all_eq_true.2 fun c hc => ?_
  have hblanks : c ∉ Text.blanks :=
    Text.not_mem_of_any (continuesIdentifier_of_mem h hc) (by decide +kernel)
  rw [Bool.not_eq_true']
  exact Bool.eq_false_iff.2 fun hblank => hblanks (Text.mem_blanks hblank)

theorem all_isQuiet_of_isIdentifier {name : Text} (h : isIdentifier name = true) :
    name.all isQuiet = true := by
  refine List.all_eq_true.2 fun c hc => isQuiet_of_not_mem ?_
  exact Text.not_mem_of_any (continuesIdentifier_of_mem h hc) (by decide +kernel)

/-! ### Lines of code -/

/-- A line of code with its indentation. -/
abbrev CodeLine := Nat × Text

def CodeLine.text (l : CodeLine) : Text := List.replicate l.1 '\t' ++ l.2

def CodeLine.shape (l : CodeLine) : Shape := .code l.1 l.2

theorem putLines_map_some (started : Bool) (ts : List Text) :
    putLines started false (ts.map some) = ts.flatMap (· ++ ['\n']) := by
  induction ts generalizing started with
  | nil => rfl
  | cons t ts ih => rw [List.map_cons, putLines_some, ih]; simp

theorem IsLaidOut.codeLines {ls : List CodeLine} {lines : List (Option Text)}
    (h : IsLaidOut (ls.map CodeLine.shape) lines) : lines = (ls.map CodeLine.text).map some := by
  induction ls generalizing lines with
  | nil => exact h
  | cons l ls ih =>
      obtain ⟨aligned, lines', rfl, -, hlaid⟩ := h
      rw [ih hlaid]
      rfl

theorem layout_codeLines (ls : List CodeLine) :
    layout (ls.map CodeLine.shape) = (ls.map CodeLine.text).flatMap (· ++ ['\n']) := by
  obtain ⟨lines, hlayout, hlaid⟩ := isLaidOut_layout (ls.map CodeLine.shape)
  rw [hlayout, hlaid.codeLines, putLines_map_some]

/-- Lines of code that run to an end are laid out as they are. -/
theorem format_codeLines {ls : List CodeLine} (hne : ls ≠ []) (hls : ∀ l ∈ ls, '\n' ∉ l.text)
    (hruns : Runs .start (ls.map CodeLine.text) (ls.map CodeLine.shape) .start) :
    format (Text.join ['\n'] (ls.map CodeLine.text)) =
      .ok ((ls.map CodeLine.text).flatMap (· ++ ['\n'])) := by
  have hlines : ∀ t ∈ ls.map CodeLine.text, '\n' ∉ t := by
    intro t ht
    obtain ⟨l, hl, rfl⟩ := List.mem_map.1 ht
    exact hls l hl
  have hsplit := Text.splitOn_join (fun hnil => hne (List.map_eq_nil_iff.1 hnil)) hlines
  exact format_eq_ok_iff.2 ⟨_, .start, hsplit.symm ▸ hruns, rfl, (layout_codeLines ls).symm⟩

/-- A line of code has its shape where as many brackets are open as it is indented by. -/
theorem hasShape_codeLine {s : State} {t : Text} (hs : s.mode = .code)
    (houtside : s.stack.head?.any (·.isStruct) = false) (hne : t ≠ []) (htrim : Text.trim t = t) :
    HasShape s (CodeLine.text (s.indent t, t)) (CodeLine.shape (s.indent t, t)) := by
  have htext : Text.trim (CodeLine.text (s.indent t, t)) = t := trim_indented _ htrim
  have hshape : HasShape s (CodeLine.text (s.indent t, t)) _ := .code
    (by simp [State.isInside, hs]) (by rw [htext]; exact hne) (by simp [State.isField, houtside])
  rwa [htext] at hshape

end Format

open Format

/-! ### Clauses -/

/-- The package clause without the end of its line. -/
def packageLine (package : Text) : Text := "package " ++ package

section Package

variable {package : Text} (h : isIdentifier package = true)

include h

theorem trim_packageLine : Text.trim (packageLine package) = packageLine package := by
  have hne : package ≠ [] := by
    rintro rfl
    cases h
  have htrimEnd := trimEnd_of_isWord (isWord_of_isIdentifier h)
  have hstart : Text.trimStart (packageLine package) = packageLine package :=
    Text.trimStart_cons (c := 'p') (by decide) ("ackage " ++ package)
  rw [Text.trim, hstart]
  unfold packageLine
  rw [Text.trimEnd_append_left (by rw [htrimEnd]; exact hne), htrimEnd]

theorem newline_not_mem_packageLine : '\n' ∉ packageLine package := by
  intro hmem
  obtain hmem | hmem := List.mem_append.1 hmem
  · revert hmem
    decide
  · exact Text.not_mem_of_all (isWord_of_isIdentifier h) (by decide) hmem

theorem leads_packageLine : Leads .start (packageLine package) .start := by
  have hpackage : ("package " : Text).all isQuiet = true := by decide
  have hall : (packageLine package).all isQuiet = true := by
    unfold packageLine
    rw [List.all_append]
    exact Bool.and_eq_true_iff.2 ⟨hpackage, all_isQuiet_of_isIdentifier h⟩
  unfold Leads State.start
  rw [← List.append_nil (packageLine package), scanLine_quiet _ _ hall]
  rfl

theorem format_packageLine :
    format (packageLine package) = .ok (packageLine package ++ ['\n']) := by
  have hshape := hasShape_codeLine (s := .start) rfl rfl (List.cons_ne_nil _ _)
    (trim_packageLine h)
  have hruns : Runs .start [packageLine package] [.code 0 (packageLine package)] .start :=
    .cons (leads_packageLine h) hshape (.nil _)
  have hformat := format_codeLines (List.cons_ne_nil (0, packageLine package) [])
    (by simpa [CodeLine.text] using newline_not_mem_packageLine h) hruns
  simpa [CodeLine.text, Text.join] using hformat

end Package

/-- What is open inside an import clause. -/
def inImports : State := ⟨.code, [⟨.round, false⟩]⟩

def pathLine (path : Text) : CodeLine := (1, quoted path)

/-- The lines of an import clause. -/
def importLines (paths : List Text) : List CodeLine :=
  (0, "import (") :: (paths.map pathLine ++ [(0, [')'])])

/-- An import clause without the blank line before it. -/
def importText (paths : List Text) : Text :=
  "import (\n" ++ paths.flatMap importLine ++ ")\n"

theorem importText_eq (paths : List Text) :
    importText paths = ((importLines paths).map CodeLine.text).flatMap (· ++ ['\n']) := by
  have hpaths : ((paths.map pathLine).map CodeLine.text).flatMap (· ++ ['\n']) =
      paths.flatMap importLine := by
    rw [List.map_map, List.flatMap_map]
    rfl
  have hopen : CodeLine.text (0, "import (") ++ ['\n'] = "import (\n" := rfl
  have hclose : [CodeLine.text (0, [')'])].flatMap (· ++ ['\n']) = ")\n" := rfl
  unfold importLines importText
  rw [List.map_cons, List.map_append, List.map_singleton, List.flatMap_cons,
    List.flatMap_append, hpaths, hopen, hclose, List.append_assoc]

theorem trim_quoted (t : Text) : Text.trim (quoted t) = quoted t := by
  have hstart : Text.trimStart (quoted t) = quoted t := Text.trimStart_cons (by decide) _
  rw [Text.trim, hstart]
  exact Text.trimEnd_append_cons (by decide) ('"' :: t.flatMap escapedChar) []

theorem runs_importPaths (paths : List Text) :
    Runs inImports ((paths.map pathLine).map CodeLine.text)
      ((paths.map pathLine).map CodeLine.shape) inImports := by
  induction paths with
  | nil => exact .nil _
  | cons path paths ih =>
      have hleads : Leads inImports ('\t' :: quoted path) inImports := by
        have htab : ∀ s : Text, '\t' :: s = ['\t'] ++ s := fun _ => rfl
        unfold Leads inImports
        rw [← List.append_nil (quoted path), htab, scanLine_quiet _ _ (by decide), scanLine_quoted]
        rfl
      have hshape := hasShape_codeLine (s := inImports) rfl rfl (List.cons_ne_nil _ _)
        (trim_quoted path)
      exact .cons hleads hshape ih

theorem format_importText (paths : List Text) :
    ∃ source, format source = .ok (importText paths) := by
  have hopen : HasShape .start (CodeLine.text (0, "import (")) (CodeLine.shape (0, "import (")) :=
    hasShape_codeLine (s := .start) (t := "import (") rfl rfl (by decide) (by decide)
  have hclose : HasShape inImports (CodeLine.text (0, [')'])) (CodeLine.shape (0, [')'])) :=
    hasShape_codeLine (s := inImports) (t := [')']) rfl rfl (by decide) (by decide)
  have hruns : Runs .start ((importLines paths).map CodeLine.text)
      ((importLines paths).map CodeLine.shape) .start := by
    unfold importLines
    rw [List.map_cons, List.map_cons, List.map_append, List.map_append]
    exact .cons rfl hopen ((runs_importPaths paths).append (.cons rfl hclose (.nil _)))
  have hlines : ∀ l ∈ importLines paths, '\n' ∉ l.text := by
    intro l hl
    obtain rfl | hl := List.mem_cons.1 hl
    · decide
    · obtain hl | hl := List.mem_append.1 hl
      · obtain ⟨path, -, rfl⟩ := List.mem_map.1 hl
        have hquoted := newline_not_mem_quoted path
        simpa [pathLine, CodeLine.text] using hquoted
      · obtain rfl := List.mem_singleton.1 hl
        decide
  have hformat := format_codeLines (List.cons_ne_nil _ _) hlines hruns
  exact ⟨_, importText_eq paths ▸ hformat⟩

/-! ### Files -/

/-- Formatted parts with a blank line before each of them, behind a formatted text. -/
theorem format_parts {source text : Text} (h : format source = .ok text) (hne : text ≠ [])
    {parts : List Text} (hparts : ∀ part ∈ parts, part ≠ [] ∧ ∃ source, format source = .ok part) :
    ∃ source, format source = .ok (text ++ parts.flatMap ('\n' :: ·)) := by
  induction parts generalizing source text with
  | nil => exact ⟨source, by simpa using h⟩
  | cons part parts ih =>
      obtain ⟨hpartNe, source', h'⟩ := hparts part List.mem_cons_self
      have hjoined := format_joined h h' hne hpartNe
      obtain ⟨source'', h''⟩ := ih hjoined (by simp [hne])
        fun part' hpart' => hparts part' (List.mem_cons_of_mem part hpart')
      refine ⟨source'', h''.trans (congrArg _ ?_)⟩
      rw [List.flatMap_cons, List.append_assoc, List.cons_append]

/-- The parts of a file behind its package clause. -/
theorem renderFile_eq (package : Text) (imports structs : List Text) :
    renderFile package imports structs = packageLine package ++ ['\n'] ++
      ((if imports = [] then [] else [importText imports]) ++ structs).flatMap ('\n' :: ·) := by
  have hend : ("\n" : Text) = ['\n'] := rfl
  cases imports with
  | nil =>
      have hnone : importClause [] = [] := rfl
      unfold renderFile packageLine
      rw [hnone, if_pos rfl, hend, List.append_nil, List.nil_append]
  | cons path paths =>
      have himports : importClause (path :: paths) = '\n' :: importText (path :: paths) := rfl
      unfold renderFile packageLine
      rw [himports, if_neg (List.cons_ne_nil path paths), List.flatMap_append,
        List.flatMap_singleton, hend, List.append_assoc]

/-- A file whose structs are formatted is formatted. -/
theorem format_renderFile {package : Text} (hpackage : isIdentifier package = true)
    (imports : List Text) {structs : List Text}
    (hstructs : ∀ text ∈ structs, text ≠ [] ∧ format text = .ok text) :
    format (renderFile package imports structs) = .ok (renderFile package imports structs) := by
  have hparts : ∀ part ∈ (if imports = [] then [] else [importText imports]) ++ structs,
      part ≠ [] ∧ ∃ source, format source = .ok part := by
    intro part hpart
    obtain hpart | hpart := List.mem_append.1 hpart
    · split at hpart
      · cases hpart
      · obtain rfl := List.mem_singleton.1 hpart
        exact ⟨List.cons_ne_nil _ _, format_importText imports⟩
    · exact ⟨(hstructs part hpart).1, part, (hstructs part hpart).2⟩
  obtain ⟨source, hsource⟩ := format_parts (format_packageLine hpackage) (by simp) hparts
  rw [← renderFile_eq] at hsource
  exact format_format hsource

end SchemaModels.Go

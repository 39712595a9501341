import SchemaModels.Proofs.Go.CanonicalFiles
import SchemaModels.Proofs.Go.StructReading
import SchemaModels.Proofs.Model.Imports

/-!
# Modules are formatted

The structs of a module are formatted one by one, and its file is put together from them. What is
written that way is formatted already: formatting the file as a whole changes nothing
(`format_render`).
-/

namespace SchemaModels

namespace Go.Struct

/-- The text of a struct begins with its comment. -/
theorem render_ne_nil {s : Struct} {text : Text} (h : s.render = .ok text) : text ≠ [] := by
  obtain ⟨shapes, hshapes, rfl⟩ := Format.exists_hasShapes h
  obtain ⟨lines, hlayout, hlaid⟩ := Format.isLaidOut_layout shapes
  obtain ⟨parts, hparts⟩ := Text.splitOn_eq_cons '\n' s.draft
  have hfirst : ∃ t, s.draft.takeWhile (· ≠ '\n') = '/' :: '/' :: t := by
    rw [draft_eq_lines, List.cons_append, List.cons_append, List.takeWhile_cons_of_pos (by decide),
      List.takeWhile_cons_of_pos (by decide)]
    exact ⟨_, rfl⟩
  obtain ⟨t, ht⟩ := hfirst
  rw [hparts, ht] at hshapes
  obtain ⟨shapes', rfl, -⟩ := shapes_comment hshapes
  obtain ⟨lines', rfl, -⟩ := hlaid.code
  rw [hlayout, Format.putLines_some]
  simp

end Go.Struct

namespace Model

open Ddl (Statement)

/-- The struct of a table is formatted text. -/
theorem format_generateStruct {o : Options} {t : Ddl.Table} {part : Text × TextSet}
    (h : generateStruct o t = .ok part) : part.1 ≠ [] ∧ Go.format part.1 = .ok part.1 := by
  obtain ⟨s, -, h⟩ := exists_of_bind_ok h
  obtain ⟨text, hrender, h⟩ := exists_of_bind_ok h
  cases h
  have hformat : s.render = .ok text := mapError_eq_ok_iff.1 hrender
  exact ⟨Go.Struct.render_ne_nil hformat, Go.format_format hformat⟩

/-- The file of a module whose package is an identifier stays as it is when it is formatted, from
whatever statements and with whatever options the module is generated. -/
theorem format_render {o : Options} (hpackage : Go.Format.isIdentifier o.package = true)
    {ss : List Statement} {m : Module} (h : generate o ss = .ok m) :
    Go.format m.render = .ok m.render := by
  obtain ⟨parts, hparts, h⟩ := exists_of_bind_ok h
  cases h
  refine Go.format_renderFile hpackage _ fun text htext => ?_
  obtain ⟨part, hpart, rfl⟩ := List.mem_map.1 htext
  obtain ⟨t, -, ht⟩ := exists_of_mem_mapM hparts hpart
  exact format_generateStruct ht

/-- Two structs and three imports, in a package whose name goes beyond ASCII. -/
theorem format_render_of_pricesTable : ∃ m,
    generate { package := "modèle_2" } [.createTable pricesTable, .other, .createTable salesTable] =
        .ok m ∧ m.structs.length = 2 ∧ m.imports.toList.length = 3 ∧
      Go.format m.render = .ok m.render := by
  have hok : ((generate { package := "modèle_2" }
      [.createTable pricesTable, .other, .createTable salesTable]).toOption.map fun m =>
        (m.structs.length, m.imports.toList.length)) = some (2, 3) := by
    decide +kernel
  obtain ⟨m, hm, hlengths⟩ := Option.map_eq_some_iff.1 hok
  obtain ⟨hstructs, himports⟩ := Prod.mk.inj hlengths
  have hgenerate := eq_ok_of_toOption hm
  exact ⟨m, hgenerate, hstructs, himports, format_render (by decide +kernel) hgenerate⟩

end Model

end SchemaModels

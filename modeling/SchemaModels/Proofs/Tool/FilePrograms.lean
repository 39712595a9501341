import SchemaModels.Proofs.Tool.Siblings

/-!
# Programs about one file

A program of which every request is about one file changes nothing for the files beside it
(`Program.look_run_of_ne`), and what comes of it depends only on what is seen of its own file
(`Program.run_congr`).
-/

namespace SchemaModels.Tool

namespace Request

/-- The request looks for the file or writes it. -/
def IsAbout (p : Path) (r : Request) : Prop := r = .isPresent p ∨ ∃ content, r = .write p content

variable {o : Path} {f : Text} {r : Request}

open Path (IsName)

theorem kept_handle (hf : IsName f) (hr : r.IsAbout (Path.join o f)) (s : Store) :
    Store.Kept o s (Store.handle r s).2 := by
  obtain rfl | ⟨content, rfl⟩ := hr
  · exact Store.Kept.refl o s
  · rw [Store.handle_write]
    exact Store.kept_written s hf content

theorem look_handle_of_ne (hf : IsName f) (hr : r.IsAbout (Path.join o f)) {g : Text}
    (hg : IsName g) (hne : g ≠ f) (s : Store) :
    (Store.handle r s).2.look (Path.join o g) = s.look (Path.join o g) := by
  obtain rfl | ⟨content, rfl⟩ := hr
  · rfl
  · rw [Store.handle_write]
    exact Store.look_written_of_ne s hf hg hne content

theorem handle_congr (hf : IsName f) (hr : r.IsAbout (Path.join o f)) {s t : Store}
    (h : s.look (Path.join o f) = t.look (Path.join o f)) :
    (Store.handle r s).1 = (Store.handle r t).1 ∧
      (Store.handle r s).2.look (Path.join o f) = (Store.handle r t).2.look (Path.join o f) := by
  obtain rfl | ⟨content, rfl⟩ := hr
  · rw [Store.handle_isPresent, Store.handle_isPresent, h]
    exact ⟨rfl, rfl⟩
  · rw [Store.handle_write, Store.handle_write, h]
    refine ⟨rfl, ?_⟩
    dsimp only
    rw [Store.look_written_self s hf, Store.look_written_self t hf, h]

end Request

namespace Program

/-- Every request of the program is about the file. -/
def IsAbout (p : Path) : Program α → Prop
  | .pure _ => True
  | .call r next => r.IsAbout p ∧ ∀ answer, (next answer).IsAbout p

variable {o : Path} {f : Text}

open Path (IsName)

theorem kept_run (hf : IsName f) {x : Program α} (hx : x.IsAbout (Path.join o f)) (s : Store) :
    Store.Kept o s (x.run Store.handle s).2 := by
  induction x generalizing s with
  | pure a => exact Store.Kept.refl o s
  | call r next ih =>
      have hstep := Request.kept_handle hf hx.1 s
      exact hstep.trans (ih _ (hx.2 _) _)

/-- A program about one file changes nothing that is seen of another one. -/
theorem look_run_of_ne (hf : IsName f) {x : Program α} (hx : x.IsAbout (Path.join o f)) {g : Text}
    (hg : IsName g) (hne : g ≠ f) (s : Store) :
    (x.run Store.handle s).2.look (Path.join o g) = s.look (Path.join o g) := by
  induction x generalizing s with
  | pure a => rfl
  | call r next ih =>
      have hstep := Request.look_handle_of_ne hf hx.1 hg hne s
      exact (ih _ (hx.2 _) _).trans hstep

/-- What comes of a program about one file depends only on what is seen of the file. -/
theorem run_congr (hf : IsName f) {x : Program α} (hx : x.IsAbout (Path.join o f)) {s t : Store}
    (h : s.look (Path.join o f) = t.look (Path.join o f)) :
    (x.run Store.handle s).1 = (x.run Store.handle t).1 ∧
      (x.run Store.handle s).2.look (Path.join o f) =
        (x.run Store.handle t).2.look (Path.join o f) := by
  induction x generalizing s t with
  | pure a => exact ⟨rfl, h⟩
  | call r next ih =>
      obtain ⟨hanswer, hlook⟩ := Request.handle_congr hf hx.1 h
      simp only [run]
      rw [hanswer]
      exact ih _ (hx.2 _) hlook

end Program

end SchemaModels.Tool

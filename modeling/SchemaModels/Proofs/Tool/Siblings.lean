import SchemaModels.Proofs.Tool.DirectoryPaths
import SchemaModels.Tool.Store

/-!
# Files beside one another

What a request about a file in a directory sees of a store is the way to the directory and what is
at the file itself (`Store.look`). To write one file changes nothing that is seen of another file in
the same directory (`look_written_of_ne`), nor anything at a place that is no file of the directory
(`Store.Kept`).
-/

namespace SchemaModels.Tool.Store

open Path (IsName)

/-! ### Finding a file in a directory -/

theorem walk_append (s : Store) (l : Location) (ps : List Text) (f : Text) :
    s.walk l (ps ++ [f]) = (s.walk l ps).bind fun l' => s.step l' f := by
  induction ps generalizing l with
  | nil =>
      simp only [List.nil_append, walk, bind, Except.bind]
      cases s.step l f <;> rfl
  | cons part ps ih =>
      simp only [List.cons_append, walk, bind]
      cases s.step l part with
      | error e => rfl
      | ok l' => exact ih l'

theorem origin_append_of_ne_nil {parts : List Text} (h : parts ≠ []) (last : Text) :
    origin (parts ++ [last]) = ((origin parts).1, (origin parts).2 ++ [last]) := by
  obtain ⟨first, parts, rfl⟩ := List.exists_cons_of_ne_nil h
  by_cases hfirst : first = ['/']
  · subst hfirst
    rfl
  · rw [List.cons_append, origin.eq_2 _ fun _ he => hfirst (List.cons.inj he).1,
      origin.eq_2 _ fun _ he => hfirst (List.cons.inj he).1]
    rfl

theorem origin_append (ps : List Text) {f : Text} (hf : IsName f) :
    origin (ps ++ [f]) = ((origin ps).1, (origin ps).2 ++ [f]) := by
  by_cases hps : ps = []
  · have hf' : f ≠ ['/'] := fun he => hf.no_slash (he ▸ List.mem_cons_self)
    rw [hps, List.nil_append, origin.eq_2 _ fun _ he => hf' (List.cons.inj he).1]
    rfl
  · exact origin_append_of_ne_nil hps f

theorem locate_append (s : Store) (ps : List Text) {f : Text} (hf : IsName f) :
    s.locate (ps ++ [f]) = (s.locate ps).bind fun l => s.step l f := by
  unfold locate
  rw [origin_append ps hf]
  exact walk_append s _ _ f

theorem locateFile_join (s : Store) (o : Path) {f : Text} (hf : IsName f) :
    s.locateFile (Path.join o f) =
      (check (Path.join o f)).bind fun _ => (s.locate o.parts).bind fun l => s.step l f := by
  unfold locateFile
  have hlast : ((Path.join o f).length > 1 && (Path.join o f).getLast? = some '/') = false := by
    simp [Path.getLast?_join_ne o hf]
  rw [hlast, if_neg Bool.false_ne_true, List.append_nil, Path.parts_join o hf,
    locate_append s _ hf]
  rfl

/-- The place of a file is in the directory that its path leads to. -/
theorem locateFile_join_eq_ok {s : Store} {o : Path} {f : Text} (hf : IsName f) {l : Location}
    (h : s.locateFile (Path.join o f) = .ok l) :
    ∃ d, s.locate o.parts = .ok d ∧ s.node? d = some .directory ∧ l = d ++ [f] := by
  rw [locateFile_join s o hf] at h
  cases hc : check (Path.join o f) with
  | error e => simp [hc, Except.bind] at h
  | ok _ =>
      cases hd : s.locate o.parts with
      | error e => simp [hc, hd, Except.bind] at h
      | ok d =>
          simp only [hc, hd, Except.bind] at h
          unfold step at h
          split at h
          · cases h
          · cases h
          · rename_i hn
            rw [if_neg hf.ne_dot, if_neg hf.ne_dots] at h
            split at h
            · cases h
            · cases h
              exact ⟨d, rfl, hn, rfl⟩

theorem isOutside_append {f : Text} (hf : IsName f) (d : Location) :
    Location.isOutside (d ++ [f]) = false := by
  have hroot : d ++ [f] ≠ Location.root := by
    intro he
    have hmem : f ∈ Location.root := he ▸ List.mem_append_right d List.mem_cons_self
    rw [List.mem_singleton.1 hmem] at hf
    exact hf.no_slash List.mem_cons_self
  simp [Location.isOutside, hroot, hf.ne_dots]

/-! ### Writing a file -/

theorem step_congr {s t : Store} {l : Location} (h : t.node? l = s.node? l) (part : Text) :
    t.step l part = s.step l part := by
  unfold step
  rw [h]

theorem node?_of_step {s : Store} {l l' : Location} {part : Text} (h : s.step l part = .ok l') :
    s.node? l = some .directory := by
  unfold step at h
  split at h
  · cases h
  · cases h
  · assumption

theorem step_put (s : Store) {l m : Location} (n : Node) (hl : s.node? l = some .directory)
    (hm : s.node? m ≠ some .directory) (part : Text) : (s.put m n).step l part = s.step l part := by
  have hne : l ≠ m := fun he => hm (he ▸ hl)
  exact step_congr (s.node?_put_of_ne n hne) part

/-- A way that can be gone passes directories only, so it stays when something else changes. -/
theorem walk_put (s : Store) {m : Location} (n : Node) (hm : s.node? m ≠ some .directory)
    {ps : List Text} {l l' : Location} (h : s.walk l ps = .ok l') :
    (s.put m n).walk l ps = .ok l' := by
  induction ps generalizing l with
  | nil => exact h
  | cons part ps ih =>
      simp only [walk, bind] at h ⊢
      cases hs : s.step l part with
      | error e => simp [hs, Except.bind] at h
      | ok l₁ =>
          rw [step_put s n (node?_of_step hs) hm, hs]
          rw [hs] at h
          exact ih h

/-- What a request about a file sees: where the file is, and what is there. -/
def look (s : Store) (p : Path) : Except IoError (Location × Option Node) :=
  (s.locateFile p).map fun l => (l, s.node? l)

variable {o : Path}

/-- What is left as it was when files are written in a directory: the ways to all files in it, and
whatever is no file in it. -/
structure Kept (o : Path) (s t : Store) : Prop where
  locateFile_eq : ∀ f, IsName f → t.locateFile (Path.join o f) = s.locateFile (Path.join o f)
  node?_eq : ∀ l, (∀ f, IsName f → s.locateFile (Path.join o f) ≠ .ok l) → t.node? l = s.node? l

theorem Kept.refl (o : Path) (s : Store) : Kept o s s := ⟨fun _ _ => rfl, fun _ _ => rfl⟩

theorem Kept.trans {s t u : Store} (h : Kept o s t) (h' : Kept o t u) : Kept o s u := by
  refine ⟨fun f hf => (h'.locateFile_eq f hf).trans (h.locateFile_eq f hf), fun l hl => ?_⟩
  rw [h'.node?_eq l fun f hf => by rw [h.locateFile_eq f hf]; exact hl f hf]
  exact h.node?_eq l hl

theorem kept_put (s : Store) {f : Text} (hf : IsName f) {l : Location}
    (hl : s.locateFile (Path.join o f) = .ok l) (hn : s.node? l ≠ some .directory) (n : Node) :
    Kept o s (s.put l n) := by
  obtain ⟨d, hd, hdir, rfl⟩ := locateFile_join_eq_ok hf hl
  refine ⟨fun g hg => ?_, fun m hm => ?_⟩
  · have hput : (s.put (d ++ [f]) n).locate o.parts = .ok d := walk_put s n hn hd
    rw [locateFile_join _ o hg, locateFile_join _ o hg, hput, hd]
    cases Store.check (Path.join o g) with
    | error e => rfl
    | ok _ => exact step_put s n hdir hn g
  · exact s.node?_put_of_ne n fun he => hm f hf (he ▸ hl)

theorem look_of_locateFile {s : Store} {p : Path} {l : Location} (h : s.locateFile p = .ok l) :
    s.look p = .ok (l, s.node? l) := by
  rw [look, h]
  rfl

theorem locateFile_eq_ok_of_look {s : Store} {p : Path} {l : Location} {n : Option Node}
    (h : s.look p = .ok (l, n)) : s.locateFile p = .ok l ∧ s.node? l = n := by
  unfold look at h
  cases hl : s.locateFile p with
  | error e => simp [hl, Except.map] at h
  | ok l' =>
      simp only [hl, Except.map, Except.ok.injEq, Prod.mk.injEq] at h
      exact ⟨by rw [h.1], by rw [← h.1]; exact h.2⟩

/-- Two names lead to two places. -/
theorem locateFile_join_inj {s : Store} {f g : Text} (hf : IsName f) (hg : IsName g) {l : Location}
    (hl : s.locateFile (Path.join o f) = .ok l) (hm : s.locateFile (Path.join o g) = .ok l) :
    f = g := by
  obtain ⟨d, hd, -, rfl⟩ := locateFile_join_eq_ok hf hl
  obtain ⟨d', hd', -, he⟩ := locateFile_join_eq_ok hg hm
  have hdd : d = d' := Except.ok.inj (hd.symm.trans hd')
  subst hdd
  simpa using he

/-- The answer to a request to write a file, by what is seen of it. -/
def writeAnswer (seen : Except IoError (Location × Option Node)) : Except IoError Unit :=
  seen.bind fun (_, n) => if n = some .directory then .error .isADirectory else .ok ()

/-- What is seen of a file after a request to write it. -/
def seenAfter (content : Text) (seen : Except IoError (Location × Option Node)) :
    Except IoError (Location × Option Node) :=
  seen.map fun (l, n) =>
    if n = some .directory then (l, n) else (l, some (.file (some content)))

/-- The store after a request to write a file, whether it is granted or not. -/
def written (s : Store) (p : Path) (content : Text) : Store :=
  match s.look p with
  | .error _ => s
  | .ok (l, n) => if n = some .directory then s else s.put l (.file (some content))

theorem handle_write (s : Store) (p : Path) (content : Text) :
    handle (.write p content) s = (writeAnswer (s.look p), s.written p content) := by
  simp only [handle, write, written, look, writeAnswer]
  cases s.locateFile p with
  | error e => rfl
  | ok l =>
      by_cases hn : s.node? l = some .directory
      · simp [bind, Except.bind, Except.map, hn, throw, throwThe, MonadExceptOf.throw, commit]
        rfl
      · simp [bind, Except.bind, Except.map, hn, pure, Except.pure, commit]
        rfl

/-- Whether something is there, by what is seen of it. -/
def presence (seen : Except IoError (Location × Option Node)) : Except IoError Bool :=
  match seen with
  | .ok (_, n) => .ok n.isSome
  | .error .notFound => .ok false
  | .error e => .error e

theorem handle_isPresent (s : Store) (p : Path) :
    handle (.isPresent p) s = (presence (s.look p), s) := by
  simp only [handle, isPresent, look]
  cases s.locateFile p with
  | error e => cases e <;> rfl
  | ok l => rfl

/-- Either the store stays, or a file is put where its path leads to. -/
theorem written_cases (s : Store) (p : Path) (content : Text) :
    (s.written p content = s ∧ seenAfter content (s.look p) = s.look p) ∨
      ∃ l, s.locateFile p = .ok l ∧ s.node? l ≠ some .directory ∧
        s.written p content = s.put l (.file (some content)) ∧
          seenAfter content (s.look p) = .ok (l, some (.file (some content))) := by
  unfold written
  cases hl : s.look p with
  | error e => exact Or.inl ⟨rfl, rfl⟩
  | ok x =>
      obtain ⟨l, n⟩ := x
      obtain ⟨hloc, hnode⟩ := locateFile_eq_ok_of_look hl
      by_cases hn : n = some .directory
      · exact Or.inl ⟨by simp [hn], by simp [seenAfter, Except.map, hn]⟩
      · refine Or.inr ⟨l, hloc, hnode ▸ hn, by simp [hn], by simp [seenAfter, Except.map, hn]⟩

theorem kept_written (s : Store) {f : Text} (hf : IsName f) (content : Text) :
    Kept o s (s.written (Path.join o f) content) := by
  obtain ⟨hs, -⟩ | ⟨l, hl, hn, hs, -⟩ := s.written_cases (Path.join o f) content
  · rw [hs]
    exact Kept.refl o s
  · rw [hs]
    exact kept_put s hf hl hn _

theorem look_written_of_ne (s : Store) {f g : Text} (hf : IsName f) (hg : IsName g) (hne : g ≠ f)
    (content : Text) : (s.written (Path.join o f) content).look (Path.join o g) =
      s.look (Path.join o g) := by
  have hkept := (kept_written (o := o) s hf content).locateFile_eq g hg
  obtain ⟨hs, -⟩ | ⟨l, hl, hn, hs, -⟩ := s.written_cases (Path.join o f) content
  · rw [hs]
  · unfold look
    rw [hkept]
    cases hm : s.locateFile (Path.join o g) with
    | error e => rfl
    | ok m =>
        have hlm : m ≠ l := fun he => hne (locateFile_join_inj hg hf hm (he ▸ hl))
        rw [hs]
        simp only [Except.map, s.node?_put_of_ne _ hlm]

theorem look_written_self (s : Store) {f : Text} (hf : IsName f) (content : Text) :
    (s.written (Path.join o f) content).look (Path.join o f) =
      seenAfter content (s.look (Path.join o f)) := by
  have hkept := (kept_written (o := o) s hf content).locateFile_eq f hf
  obtain ⟨hs, hseen⟩ | ⟨l, hl, hn, hs, hseen⟩ := s.written_cases (Path.join o f) content
  · rw [hs, hseen]
  · obtain ⟨d, -, -, rfl⟩ := locateFile_join_eq_ok hf hl
    rw [look_of_locateFile (hkept.trans hl), hs, hseen, s.node?_put_self _ (isOutside_append hf d)]

end SchemaModels.Tool.Store

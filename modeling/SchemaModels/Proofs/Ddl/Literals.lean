import SchemaModels.Proofs.Ddl.Detached

/-!
# Literals before more text

Quoted text and blobs that are closed are the same before more text (`closed_append`,
`blob_append`). Only a literal that the end of the text leaves open depends on what comes next; it
is a fault, and leaves nothing to read.
-/

namespace SchemaModels.Ddl.Lexer

variable {u : Text}

/-! ### Quoted text -/

theorem push_fst_eq_none {cs : Text} {x : Option Text × Place} :
    (push cs x).1 = none ↔ x.1 = none := Option.map_eq_none_iff

theorem quotedText_rest_of_none {quote : Char} {isString : Bool} {o : Nat} {t : Text}
    (h : (quotedText quote isString o t).1 = none) :
    (quotedText quote isString o t).2.rest = [] := by
  fun_induction quotedText quote isString o t with
  | case1 _ _ ih => exact ih (push_fst_eq_none.1 h)
  | case2 => cases h
  | case3 _ _ _ _ _ _ ih => exact ih (push_fst_eq_none.1 h)
  | case4 _ _ _ _ _ _ ih => exact ih (push_fst_eq_none.1 h)
  | case5 => rfl
  | case6 => rfl

theorem quotedText_stop (quote : Char) (isString : Bool) (o : Nat) (t : Text) :
    (quotedText quote isString o t).2.stop = o + Text.byteLength t := by
  fun_induction quotedText quote isString o t with
  | case1 o r ih =>
      refine (show _ = _ from ih).trans ?_
      simp only [Text.byteLength_cons]
      omega
  | case2 => simp [Place.stop, Nat.add_assoc]
  | case3 o c d r _ _ ih =>
      refine (show _ = _ from ih).trans ?_
      simp only [Text.byteLength_cons]
      omega
  | case4 o c d r _ _ ih =>
      refine (show _ = _ from ih).trans ?_
      simp only [Text.byteLength_cons]
      omega
  | case5 => simp [Place.stop]
  | case6 => simp [Place.stop]

theorem quotedText_append (hu : Detached u) {quote : Char} (hquote : quote ∉ delimiters)
    (isString : Bool) (o k : Nat) (t : Text)
    (h : (quotedText quote isString o t).1 = none → u = []) :
    quotedText quote isString (o + k) (t ++ u) =
      ((quotedText quote isString o t).1, (quotedText quote isString o t).2.embed k u) := by
  fun_induction quotedText quote isString o t with
  | case1 o r ih =>
      have hrest := ih fun hn => h (push_fst_eq_none.2 hn)
      rw [List.cons_append, List.cons_append, quotedText, if_pos rfl, if_pos rfl,
        Nat.add_right_comm o k, Nat.add_right_comm _ k, hrest]
      rfl
  | case2 o d r hd =>
      rw [List.cons_append, List.cons_append, quotedText, if_pos rfl, if_neg hd,
        Nat.add_right_comm o k]
      rfl
  | case3 o c d r hc hescape ih =>
      have hrest := ih fun hn => h (push_fst_eq_none.2 hn)
      rw [List.cons_append, List.cons_append, quotedText, if_neg hc, if_pos hescape,
        Nat.add_right_comm o k, Nat.add_right_comm _ k, hrest]
      rfl
  | case4 o c d r hc hescape ih =>
      have hrest := ih fun hn => h (push_fst_eq_none.2 hn)
      rw [List.cons_append, List.cons_append, quotedText, if_neg hc, if_neg hescape,
        Nat.add_right_comm o k]
      rw [List.cons_append] at hrest
      rw [hrest]
      rfl
  | case5 o c =>
      by_cases hc : c = quote
      · subst hc
        rcases hu.cases with rfl | ⟨d, v, rfl, hd⟩
        · simp [quotedText, Place.embed, Nat.add_right_comm]
        · have hne : d ≠ c := fun h => hquote (h ▸ hd)
          simp [quotedText, Place.embed, Nat.add_right_comm, hne]
      · rw [h (by simp [hc])]
        simp [quotedText, Place.embed, Nat.add_right_comm]
  | case6 o =>
      rw [h rfl]
      rfl

/-! ### Blobs -/

theorem utf8Size_of_isHexDigit {c : Char} (h : Text.isHexDigit c = true) : c.utf8Size = 1 := by
  simp only [Text.isHexDigit, Char.isDigit, Bool.or_eq_true, Bool.and_eq_true,
    decide_eq_true_eq] at h
  have hc : c.toNat ≤ 127 := by
    rcases h with (⟨-, h⟩ | ⟨-, h⟩) | ⟨-, h⟩
    · exact Nat.le_trans (UInt32.le_iff_toNat_le.1 h) (by decide)
    · exact Nat.le_trans (UInt32.le_iff_toNat_le.1 h) (by decide)
    · exact Nat.le_trans (UInt32.le_iff_toNat_le.1 h) (by decide)
  exact Char.utf8Size_eq_one_iff.2
    (UInt32.le_iff_toNat_le.2 (show c.val.toNat ≤ (127 : UInt32).toNat from hc))

theorem blobBytes_rest_of_open {o : Nat} {t : Text}
    (h : (blobBytes o t).1 = .error .openBlob) : (blobBytes o t).2.rest = [] := by
  fun_induction blobBytes o t with
  | case5 o a b r _ _ _ _ bytes p hb ih =>
      rw [hb] at ih
      cases bytes with
      | error f => exact ih h
      | ok bs => cases h
  | case8 => rfl
  | case9 => rfl
  | _ => cases h

theorem blobBytes_stop (o : Nat) (t : Text) :
    (blobBytes o t).2.stop = o + Text.byteLength t := by
  fun_induction blobBytes o t with
  | case3 o c r _ hc =>
      have hsize := utf8Size_of_isHexDigit (by simpa using hc)
      simp only [Place.stop, Text.byteLength_cons, hsize]
      omega
  | case4 o c d r _ hc _ _ =>
      have hsize := utf8Size_of_isHexDigit (by simpa using hc)
      simp only [Place.stop, Text.byteLength_cons, hsize]
      omega
  | case5 o c d r _ hc _ hd bytes p hb ih =>
      have hcsize := utf8Size_of_isHexDigit (by simpa using hc)
      have hdsize := utf8Size_of_isHexDigit (by simpa using hd)
      rw [hb] at ih
      simp only [Text.byteLength_cons, hcsize, hdsize]
      dsimp only at ih ⊢
      omega
  | case8 o c _ hc =>
      have hsize := utf8Size_of_isHexDigit (by simpa using hc)
      simp [Place.stop, hsize]
  | case1 o d r =>
      have hsize : '\''.utf8Size = 1 := by decide
      simp only [Place.stop, Text.byteLength_cons, hsize]
      omega
  | case6 o =>
      have hsize : '\''.utf8Size = 1 := by decide
      simp [Place.stop, hsize]
  | _ => rfl

theorem blobBytes_append (o k : Nat) (t : Text)
    (h : (blobBytes o t).1 = .error .openBlob → u = []) :
    blobBytes (o + k) (t ++ u) = ((blobBytes o t).1, (blobBytes o t).2.embed k u) := by
  fun_induction blobBytes o t with
  | case1 o d r => simp [blobBytes, Place.embed, Nat.add_right_comm]
  | case2 o c d r hquote hc =>
      rw [List.cons_append, List.cons_append, blobBytes, if_neg hquote, if_pos hc]
      rfl
  | case3 o c r hquote hc =>
      rw [List.cons_append, List.cons_append, blobBytes, if_neg hquote, if_neg hc, if_pos rfl,
        Nat.add_right_comm]
      rfl
  | case4 o c d r hquote hc hquote' hd =>
      rw [List.cons_append, List.cons_append, blobBytes, if_neg hquote, if_neg hc,
        if_neg hquote', if_pos hd, Nat.add_right_comm]
      rfl
  | case5 o c d r hquote hc hquote' hd bytes p hb ih =>
      rw [hb] at ih
      have hrest := ih fun he => h (by rw [show bytes = _ from he]; rfl)
      rw [List.cons_append, List.cons_append, blobBytes, if_neg hquote, if_neg hc,
        if_neg hquote', if_neg hd, Nat.add_right_comm, hrest]
  | case6 o => cases u <;> simp [blobBytes, Place.embed, Nat.add_right_comm]
  | case7 o c hquote hc => cases u <;> simp [blobBytes, Place.embed, hquote, hc]
  | case8 o c hquote hc =>
      rw [h rfl]
      simp [blobBytes, Place.embed, hquote, hc, Nat.add_right_comm]
  | case9 o =>
      rw [h rfl]
      rfl

theorem closed_of_none {kind : Text → TokenKind} {f : LexicalFault} {x : Option Text × Place}
    (h : x.1 = none) : closed kind f x = (.fault f, x.2) := by
  obtain ⟨value, p⟩ := x
  cases h
  rfl

theorem closed_embed (kind : Text → TokenKind) (f : LexicalFault) (k : Nat)
    (x : Option Text × Place) :
    closed kind f (x.1, x.2.embed k u) = ((closed kind f x).1, (closed kind f x).2.embed k u) := by
  obtain ⟨_ | _, _⟩ := x <;> rfl

theorem closed_append (hu : Detached u) {kind : Text → TokenKind} {f : LexicalFault} {quote : Char}
    (hquote : quote ∉ delimiters) (isString : Bool) (o k : Nat) (r : Text)
    (h : (closed kind f (quotedText quote isString o r)).1.IsFault →
      (closed kind f (quotedText quote isString o r)).2.rest = [] → u = []) :
    closed kind f (quotedText quote isString (o + k) (r ++ u)) =
      ((closed kind f (quotedText quote isString o r)).1,
        (closed kind f (quotedText quote isString o r)).2.embed k u) := by
  rw [quotedText_append hu hquote, closed_embed]
  intro hnone
  rw [closed_of_none hnone] at h
  exact h ⟨f, rfl⟩ (quotedText_rest_of_none hnone)

theorem blob_embed (k : Nat) (x : Except LexicalFault (List UInt8) × Place) :
    blob (x.1, x.2.embed k u) = ((blob x).1, (blob x).2.embed k u) := by
  obtain ⟨_ | _, _⟩ := x <;> rfl

theorem blob_append (o k : Nat) (r : Text)
    (h : (blob (blobBytes o r)).1.IsFault → (blob (blobBytes o r)).2.rest = [] → u = []) :
    blob (blobBytes (o + k) (r ++ u)) =
      ((blob (blobBytes o r)).1, (blob (blobBytes o r)).2.embed k u) := by
  rw [blobBytes_append, blob_embed]
  intro hopen
  have hrest := blobBytes_rest_of_open hopen
  rw [show blobBytes o r = (.error .openBlob, (blobBytes o r).2) by rw [← hopen]] at h
  exact h ⟨_, rfl⟩ hrest

end SchemaModels.Ddl.Lexer

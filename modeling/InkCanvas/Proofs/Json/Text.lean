import InkCanvas.Json.Text

/-! # Strings survive being quoted

Every character is written as one piece, itself or an escape, and that piece spells the character
(`Text.pieces?_written`, `Text.chars?_cons_ofChar`). So a string is read back from between its quotes as it
was (`Text.pieces?_flatMap_written`, `Text.chars?_map_ofChar`). -/

namespace InkCanvas.Json.Text

/-- The piece that a character is written as: a control character that has no letter is given by its
number. -/
def Piece.ofChar (c : Char) : Piece :=
  if c.toNat < 0x20 ∧ c ∉ ['\x08', '\x0c', '\n', '\r', '\t'] then .unit c.toNat else .char c

theorem hexValue?_digitChar {n : Nat} (h : n < 16) : hexValue? (Nat.digitChar n) = some n := by
  decide +revert

theorem pieces?_written (c : Char) (rest : List Char) :
    pieces? (written c ++ rest) = (pieces? rest).map fun (ps, cs) => (.ofChar c :: ps, cs) := by
  fun_cases written c with
  | case8 _ _ _ hb hf hn hr ht hcontrol =>
    have hpiece : Piece.ofChar c = .unit c.toNat := if_pos ⟨hcontrol, by simp_all⟩
    have hzero : hexValue? '0' = some 0 := by decide
    have hhigh := hexValue?_digitChar (show c.toNat / 16 < 16 by omega)
    have hlow := hexValue?_digitChar (show c.toNat % 16 < 16 by omega)
    have hnumber : ((0 * 16 + 0) * 16 + c.toNat / 16) * 16 + c.toNat % 16 = c.toNat := by omega
    simp only [List.cons_append, List.nil_append, pieces?, hzero, hhigh, hlow, hpiece,
      Option.bind_eq_bind, Option.bind_some, hnumber]
    cases pieces? rest <;> rfl
  | case9 _ hquote hslash _ _ _ _ _ hplain =>
    have hpiece : Piece.ofChar c = .char c := if_neg fun h => hplain h.1
    rw [hpiece, List.singleton_append, pieces?]
    · exact if_neg fun h => h.elim hplain hslash
    · exact hquote
    · exact fun _ _ _ _ _ hc _ => hslash hc
    · exact fun _ _ hc _ => hslash hc
  | _ =>
    simp [pieces?, escaped?, Piece.ofChar]
    cases pieces? rest <;> rfl

/-- What is written between quotes is read up to the closing one. -/
theorem pieces?_flatMap_written (cs rest : List Char) :
    pieces? (cs.flatMap written ++ '"' :: rest) = some (cs.map Piece.ofChar, rest) := by
  induction cs with
  | nil => rfl
  | cons c cs ih => rw [List.flatMap_cons, List.append_assoc, pieces?_written, ih]; rfl

theorem chars?_cons_ofChar (c : Char) (ps : List Piece) :
    chars? (.ofChar c :: ps) = (chars? ps).map (c :: ·) := by
  unfold Piece.ofChar
  split
  next hcontrol =>
    -- A control character is no half of a surrogate pair.
    have hlead : isLead c.toNat = false := decide_eq_false (by omega)
    have htrail : isTrail c.toNat = false := decide_eq_false (by omega)
    rcases ps with - | ⟨_ | _, ps⟩ <;> simp [chars?, hlead, htrail]
  next => rfl

theorem chars?_map_ofChar (cs : List Char) : chars? (cs.map Piece.ofChar) = some cs := by
  induction cs with
  | nil => rfl
  | cons c cs ih => rw [List.map_cons, chars?_cons_ofChar, ih]; rfl

end InkCanvas.Json.Text

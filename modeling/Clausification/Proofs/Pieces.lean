import Clausification.Proofs.Text

/-!
# Cutting joined texts

A joined text is cut where it was joined, unless a separator begins within one of the parts. A
separator of a single character cuts each part of a joined text on its own.
-/

namespace Clausification.Text

/-- With the separator behind the part, the separator begins nowhere in the part. -/
def Apart (sep part : List Char) : Prop := ∀ cs, cs <:+ part → cs ≠ [] → ¬ sep <+: cs ++ sep

namespace Apart
variable {sep part : List Char} {c : Char}

theorem tail (h : Apart sep (c :: part)) : Apart sep part :=
  fun cs hcs => h cs (hcs.trans (List.suffix_cons _ _))

theorem not_prefix (h : Apart sep (c :: part)) (rest : List Char) :
    ¬ sep <+: c :: part ++ (sep ++ rest) := by
  intro hsep
  rw [← List.append_assoc] at hsep
  have hbegins : sep <+: c :: part ++ sep :=
    List.prefix_of_prefix_length_le hsep (List.prefix_append _ _) (by simp; omega)
  exact h (c :: part) (List.suffix_refl _) (List.cons_ne_nil _ _) hbegins

theorem not_prefix_self (h : Apart sep (c :: part)) : ¬ sep <+: c :: part := by
  intro hsep
  exact h (c :: part) (List.suffix_refl _) (List.cons_ne_nil _ _) (hsep.trans (List.prefix_append _ _))

end Apart

theorem apart_singleton {c : Char} {part : List Char} (h : c ∉ part) : Apart [c] part := by
  intro cs hcs hne hbegins
  obtain ⟨d, ds, rfl⟩ := List.exists_cons_of_ne_nil hne
  obtain rfl : c = d := (List.cons_prefix_cons.mp hbegins).1
  exact h (hcs.subset List.mem_cons_self)

section
variable (sep piece : List Char)

theorem piecesFrom_skip (as bs : List Char) :
    piecesFrom sep as.length piece (as ++ bs) = piecesFrom sep 0 piece bs := by
  induction as with
  | nil => rfl
  | cons a as ih => exact ih

variable {sep} {part : List Char}

theorem piecesFrom_of_prefix (hsep : sep ≠ []) (cs : List Char) :
    piecesFrom sep 0 piece (sep ++ cs) = piece.reverse :: piecesFrom sep 0 [] cs := by
  obtain ⟨c, sep, rfl⟩ := List.exists_cons_of_ne_nil hsep
  rw [List.cons_append, piecesFrom, if_pos]
  · exact congrArg _ (piecesFrom_skip (c :: sep) [] sep cs)
  · exact List.isPrefixOf_iff_prefix.mpr (List.prefix_append (c :: sep) cs)

theorem piecesFrom_append (hsep : sep ≠ []) (hpart : Apart sep part) (cs : List Char) :
    piecesFrom sep 0 piece (part ++ (sep ++ cs)) =
      (piece.reverse ++ part) :: piecesFrom sep 0 [] cs := by
  induction part generalizing piece with
  | nil => rw [List.nil_append, piecesFrom_of_prefix piece hsep, List.append_nil]
  | cons c part ih =>
    have hnot : ¬ sep.isPrefixOf (c :: (part ++ (sep ++ cs))) := by
      rw [List.isPrefixOf_iff_prefix]
      exact hpart.not_prefix cs
    rw [List.cons_append, piecesFrom, if_neg hnot, ih (c :: piece) hpart.tail]
    simp

theorem piecesFrom_last (hpart : Apart sep part) :
    piecesFrom sep 0 piece part = [piece.reverse ++ part] := by
  induction part generalizing piece with
  | nil => rw [piecesFrom, List.append_nil]
  | cons c part ih =>
    have hnot : ¬ sep.isPrefixOf (c :: part) := by
      rw [List.isPrefixOf_iff_prefix]
      exact hpart.not_prefix_self
    rw [piecesFrom, if_neg hnot, ih (c :: piece) hpart.tail]
    simp

/-- A character that separates ends the current piece wherever it stands. -/
theorem piecesFrom_singleton_append (c : Char) (as bs : List Char) :
    piecesFrom [c] 0 piece (as ++ c :: bs) =
      piecesFrom [c] 0 piece as ++ piecesFrom [c] 0 [] bs := by
  induction as generalizing piece with
  | nil => exact piecesFrom_of_prefix piece (List.cons_ne_nil c []) bs
  | cons a as ih =>
    by_cases ha : c = a
    · subst ha
      have hcut (cs : List Char) := piecesFrom_of_prefix piece (List.cons_ne_nil c []) cs
      simp only [List.singleton_append] at hcut
      rw [List.cons_append, hcut, hcut, ih, List.cons_append]
    · have hnot (cs : List Char) : ¬ [c].isPrefixOf (a :: cs) := by simp [ha]
      rw [List.cons_append, piecesFrom, if_neg (hnot _), ih, piecesFrom, if_neg (hnot _)]

end

variable {sep s : String}

theorem splitAt_of_apart (h : Apart sep.toList s.toList) : splitAt sep s = [s] := by
  rw [splitAt, piecesFrom_last [] h, List.map_singleton, List.reverse_nil, List.nil_append,
    String.ofList_toList]

/-- What was joined is cut into its parts. -/
theorem splitAt_join (hsep : sep.toList ≠ []) {parts : List String} (hne : parts ≠ [])
    (hparts : ∀ p ∈ parts, Apart sep.toList p.toList) : splitAt sep (join sep parts) = parts := by
  induction parts with
  | nil => exact absurd rfl hne
  | cons p parts ih =>
    obtain ⟨hp, hparts⟩ := List.forall_mem_cons.mp hparts
    cases parts with
    | nil => exact splitAt_of_apart hp
    | cons q parts =>
      rw [splitAt, toList_join_cons_cons, piecesFrom_append [] hsep hp, List.map_cons,
        List.reverse_nil, List.nil_append, String.ofList_toList]
      exact congrArg (p :: ·) (ih (List.cons_ne_nil _ _) hparts)

theorem splitAt_join_of_singleton {c : Char} (hsep : sep.toList = [c]) {parts : List String}
    (hne : parts ≠ []) : splitAt sep (join sep parts) = parts.flatMap (splitAt sep) := by
  induction parts with
  | nil => exact absurd rfl hne
  | cons p parts ih =>
    cases parts with
    | nil => simp
    | cons q parts =>
      rw [List.flatMap_cons, ← ih (List.cons_ne_nil _ _)]
      simp only [splitAt, hsep, toList_join_cons_cons, List.singleton_append,
        piecesFrom_singleton_append, List.map_append]

end Clausification.Text

import Clausification.Text.Pieces

/-!
# Joined texts

A joined text is the first of its parts, and then each other one behind a separator.
-/

namespace Clausification.Text

theorem toList_join_cons_cons (sep x y : String) (ys : List String) :
    (join sep (x :: y :: ys)).toList =
      x.toList ++ (sep.toList ++ (join sep (y :: ys)).toList) := by
  simp [join, String.intercalate_cons_cons]

theorem toList_join_cons (sep s : String) (ss : List String) :
    (join sep (s :: ss)).toList = s.toList ++ ss.flatMap fun t => sep.toList ++ t.toList := by
  induction ss generalizing s with
  | nil => simp
  | cons t ss ih =>
    rw [toList_join_cons_cons, ih t, List.flatMap_cons, List.append_assoc]

/-- The last part of a joined text stands at its end. -/
theorem suffix_join_concat (sep : String) (parts : List String) (p : String) :
    p.toList <:+ (join sep (parts ++ [p])).toList := by
  cases parts with
  | nil => exact List.suffix_refl _
  | cons q parts =>
    rw [List.cons_append, toList_join_cons, List.flatMap_append, List.flatMap_singleton]
    exact ((List.suffix_append _ _).trans (List.suffix_append _ _)).trans (List.suffix_append _ _)

theorem not_mem_append {c : Char} {s t : String} (hs : c ∉ s.toList) (ht : c ∉ t.toList) :
    c ∉ (s ++ t).toList := by
  rw [String.toList_append, List.mem_append]
  exact fun hmem => hmem.elim hs ht

theorem not_mem_join {c : Char} {sep : String} (hsep : c ∉ sep.toList) {ss : List String}
    (hss : ∀ s ∈ ss, c ∉ s.toList) : c ∉ (join sep ss).toList := by
  cases ss with
  | nil => simp
  | cons s ss =>
    obtain ⟨hs, hss⟩ := List.forall_mem_cons.mp hss
    rw [toList_join_cons, List.mem_append, List.mem_flatMap]
    rintro (h | ⟨t, ht, h⟩)
    · exact hs h
    · exact (List.mem_append.mp h).elim hsep (hss t ht)

theorem not_mem_toString {c : Char} (hc : c.isDigit = false) (n : Nat) : c ∉ (toString n).toList := by
  intro hmem
  rw [show toString n = n.repr from rfl, Nat.toList_repr] at hmem
  rw [Nat.isDigit_of_mem_toDigits (by decide) (by decide) hmem] at hc
  cases hc

theorem length_list_le_join (sep : String) (hsep : 0 < sep.toList.length) (ss : List String) :
    ss.length ≤ (join sep ss).toList.length + 1 := by
  induction ss with
  | nil => exact Nat.zero_le _
  | cons s ss ih =>
    cases ss with
    | nil => exact Nat.le_add_left 1 _
    | cons s' ss =>
      rw [toList_join_cons_cons, List.length_append, List.length_append, List.length_cons]
      omega

theorem length_le_join (sep : String) {s : String} {ss : List String} (hs : s ∈ ss) :
    s.toList.length ≤ (join sep ss).toList.length := by
  induction ss with
  | nil => exact nomatch hs
  | cons s' ss ih =>
    cases ss with
    | nil =>
      apply Nat.le_of_eq
      rw [List.mem_singleton.mp hs, join_singleton]
    | cons s'' ss =>
      rw [toList_join_cons_cons, List.length_append, List.length_append]
      rcases List.mem_cons.mp hs with rfl | hs
      · omega
      · have := ih hs
        omega

end Clausification.Text

import Mathlib.Data.List.Nodup
import Mathlib.Data.List.TakeWhile
import Mathlib.Data.String.Basic
import Clausification.FileTree

/-!
# Files in a tree

A tree in which no place is listed twice, and the operations on names that stand at the top of such a
tree or directly below one of its directories.
-/

namespace Clausification

/-- A name with a single component, that the tree takes in. -/
structure IsComponent (s : String) : Prop where
  no_slash : '/' ∉ s.toList
  no_null : '\x00' ∉ s.toList
  ne_empty : s ≠ ""
  ne_dot : s ≠ "."
  ne_dots : s ≠ ".."
  short : s.utf8ByteSize ≤ maxComponentBytes

/-- A name below a directory. -/
def below (d s : String) : String := d ++ "/" ++ s

section
variable {d s : String}

/-- A character takes four bytes at most. -/
theorem utf8ByteSize_le (s : String) : s.utf8ByteSize ≤ 4 * s.toList.length := by
  rw [← String.utf8Len_toList]
  induction s.toList with
  | nil => exact Nat.zero_le _
  | cons c cs ih =>
    have := c.utf8Size_le_four
    rw [String.utf8Len_cons, List.length_cons]
    omega

theorem splitToList_of_no_slash (hs : '/' ∉ s.toList) : s.splitToList (· == '/') = [s] := by
  have hchars : ∀ c ∈ s.toList, (c == '/') = false := by
    intro c hc
    exact beq_eq_false_iff_ne.mpr fun h => hs (h ▸ hc)
  rw [String.splitToList_of_valid, List.splitOnP_eq_singleton hchars, List.map_singleton,
    String.ofList_toList]

theorem componentsOf_of_isComponent (hs : IsComponent s) : componentsOf s = [s] := by
  rw [componentsOf, splitToList_of_no_slash hs.no_slash]
  simp [hs.ne_empty]

theorem meansDirectory_of_isComponent (hs : IsComponent s) : meansDirectory s = false := by
  rw [meansDirectory, splitToList_of_no_slash hs.no_slash]
  simp [hs.ne_empty, hs.ne_dot]

end

namespace FileTree

/-- No place is listed twice, and the root is not listed. -/
structure Sound (t : FileTree) : Prop where
  nodup : (t.entries.map Prod.fst).Nodup
  ne_root : ∀ e ∈ t.entries, e.1 ≠ []

variable {t : FileTree} {p : Path} {n : Node}

theorem lookup_eq_some_iff {es : List (Path × Node)} (hes : (es.map Prod.fst).Nodup) :
    es.lookup p = some n ↔ (p, n) ∈ es := by
  induction es with
  | nil => simp
  | cons e es ih =>
    obtain ⟨q, m⟩ := e
    rw [List.map_cons, List.nodup_cons] at hes
    by_cases hq : p = q
    · subst hq
      have hnot : (p, n) ∉ es := fun h => hes.1 (List.mem_map.mpr ⟨_, h, rfl⟩)
      simp [hnot, eq_comm]
    · have hbeq : (p == q) = false := beq_eq_false_iff_ne.mpr hq
      simp [List.lookup_cons, hbeq, hq, ih hes.2]

namespace Sound

theorem node?_eq_some_iff (ht : t.Sound) (hp : p ≠ []) : t.node? p = some n ↔ (p, n) ∈ t.entries := by
  rw [node?, if_neg hp, lookup_eq_some_iff ht.nodup]

theorem put (ht : t.Sound) (hp : p ≠ []) : (t.put p n).Sound := by
  unfold FileTree.put
  split
  · have hkeys : (t.entries.map fun e => if e.1 = p then (p, n) else e).map Prod.fst =
        t.entries.map Prod.fst := by
      rw [List.map_map]
      refine List.map_congr_left fun e _ => ?_
      by_cases he : e.1 = p <;> simp [he]
    refine ⟨by rw [hkeys]; exact ht.nodup, fun e he => ?_⟩
    obtain ⟨e', he', rfl⟩ := List.mem_map.mp he
    split
    · exact hp
    · exact ht.ne_root e' he'
  · rename_i hnew
    have hp' : p ∉ t.entries.map Prod.fst := by
      intro h
      obtain ⟨e, he, rfl⟩ := List.mem_map.mp h
      exact hnew (List.any_eq_true.mpr ⟨e, he, by simp⟩)
    refine ⟨?_, fun e he => ?_⟩
    · rw [List.map_append]
      exact ht.nodup.append (List.nodup_singleton p) (List.disjoint_singleton.mpr hp')
    · rcases List.mem_append.mp he with he | he
      · exact ht.ne_root e he
      · rw [List.mem_singleton.mp he]
        exact hp

end Sound

section
variable {d s name content : String}

theorem locate_last (t : FileTree) (here : Path) (hs : IsComponent s) :
    t.locate here [s] = .ok (here ++ [s]) := by
  rw [locate.eq_4 _ _ _ _ hs.ne_dot hs.ne_dots, if_neg (Nat.not_lt.mpr hs.short)]
  rfl

theorem place_of_isComponent (t : FileTree) (hs : IsComponent s) : t.place s = .ok [s] := by
  rw [place, if_neg hs.no_null, componentsOf_of_isComponent hs, locate_last t [] hs]
  rfl

theorem read_of_place (hplace : t.place name = .ok p) (hname : meansDirectory name = false)
    (hp : t.node? p = some (.file content)) : t.read name = .ok content := by
  simp only [read, hplace, bind, Except.bind, hp, hname]
  rfl

end

end FileTree

end Clausification

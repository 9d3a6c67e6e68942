import Clausification.Names

/-!
# Fresh names are fresh

A name that is handed out was not taken before, because different numbers have different spellings.
-/

namespace Clausification

namespace Names

theorem natRepr_injective {m n : Nat} (h : m.repr = n.repr) : m = n := by
  have hd := congrArg String.toList h
  rw [Nat.toList_repr, Nat.toList_repr] at hd
  rw [← Nat.ofDigitChars_ten_toDigits (n := m), hd, Nat.ofDigitChars_ten_toDigits]

theorem minus_append_ne_natRepr (s : String) (n : Nat) : "-" ++ s ≠ n.repr := by
  intro h
  have hm : '-' ∈ Nat.toDigits 10 n := by
    rw [← Nat.toList_repr, ← h]
    simp
  have hdigit := Nat.isDigit_of_mem_toDigits (by decide) (by decide) hm
  exact absurd hdigit (by decide)

theorem toString_injective {m n : Int} (h : toString m = toString n) : m = n := by
  rw [Int.toString_eq_repr, Int.toString_eq_repr, Int.repr_eq_if, Int.repr_eq_if] at h
  split at h <;> split at h
  · have := natRepr_injective h
    omega
  · exact absurd h.symm (minus_append_ne_natRepr _ _)
  · exact absurd h (minus_append_ne_natRepr _ _)
  · have := natRepr_injective ((String.append_right_inj "-").mp h)
    omega

theorem variableName_injective {base : String} {m n : Int}
    (h : variableName base m = variableName base n) : m = n :=
  toString_injective ((String.append_right_inj (base ++ "_")).mp h)

theorem skolemName_injective {base : String} {m n : Int}
    (h : skolemName base m = skolemName base n) : m = n :=
  toString_injective ((String.append_right_inj base).mp h)

theorem firstFree_not_mem {spell : Int → String} (hspell : ∀ m n, spell m = spell n → m = n)
    (avoid : List String) (n : Int) : spell (firstFree spell avoid n) ∉ avoid := by
  fun_induction firstFree spell avoid n with
  | case1 avoid n hmem ih =>
    intro h
    -- the result lies behind `n`, so erasing the spelling of `n` has not removed its own
    have hle := le_firstFree spell (avoid.erase (spell n)) (n + 1)
    refine ih ((List.mem_erase_of_ne fun he => ?_).mpr h)
    have := hspell _ _ he
    omega
  | case2 avoid n hmem => exact hmem

theorem mem_of_lt_firstFree {spell : Int → String} {avoid : List String} {k n : Int} (hk : n ≤ k)
    (h : k < firstFree spell avoid n) : spell k ∈ avoid := by
  fun_induction firstFree spell avoid n with
  | case1 avoid n hmem ih =>
    by_cases hkn : k = n
    · exact hkn ▸ hmem
    · exact List.mem_of_mem_erase (ih (by omega) h)
  | case2 avoid n hmem => omega

theorem firstFree_le {spell : Int → String} {avoid : List String} {k n : Int} (hk : n ≤ k)
    (h : spell k ∉ avoid) : firstFree spell avoid n ≤ k :=
  Int.not_lt.mp fun hlt => h (mem_of_lt_firstFree hk hlt)

/-- Only which spellings are to be avoided counts, not how often or in which order they are listed. -/
theorem firstFree_congr {spell : Int → String} (hspell : ∀ m n, spell m = spell n → m = n)
    {avoid avoid' : List String} (h : ∀ x, x ∈ avoid ↔ x ∈ avoid') (n : Int) :
    firstFree spell avoid n = firstFree spell avoid' n := by
  have hfree := firstFree_not_mem hspell avoid n
  have hfree' := firstFree_not_mem hspell avoid' n
  rw [h] at hfree
  rw [← h] at hfree'
  have hle := firstFree_le (le_firstFree spell avoid' n) hfree'
  have hge := firstFree_le (le_firstFree spell avoid n) hfree
  omega

theorem freshVariable_not_mem (base : String) (names : Names) :
    (names.freshVariable base).1 ∉ names.taken :=
  firstFree_not_mem (fun _ _ => variableName_injective) _ _

theorem freshSkolem_not_mem (base : String) (names : Names) :
    (names.freshSkolem base).1 ∉ names.taken :=
  firstFree_not_mem (fun _ _ => skolemName_injective) _ _

theorem renamed_lt_freshVariable (x : String) (names : Names) :
    names.renamed < (names.freshVariable x).2.renamed :=
  Int.lt_of_add_one_le (le_firstFree (variableName x) names.taken (names.renamed + 1))

theorem skolems_lt_freshSkolem (base : String) (names : Names) :
    names.skolems < (names.freshSkolem base).2.skolems :=
  Int.lt_of_add_one_le (le_firstFree (skolemName base) names.taken (names.skolems + 1))

/-- A fresh variable for each name of a list, one after the other. -/
def freshVariables : List String → Names → List String × Names
  | [], names => ([], names)
  | x :: xs, names =>
    let fresh := names.freshVariable x
    let rest := freshVariables xs fresh.2
    (fresh.1 :: rest.1, rest.2)

theorem freshVariables_append (xs ys : List String) (names : Names) :
    names.freshVariables (xs ++ ys) =
      ((names.freshVariables xs).1 ++ ((names.freshVariables xs).2.freshVariables ys).1,
        ((names.freshVariables xs).2.freshVariables ys).2) := by
  induction xs generalizing names with
  | nil => rfl
  | cons x xs ih => simp only [List.cons_append, freshVariables, ih]

theorem length_freshVariables (xs : List String) (names : Names) :
    (names.freshVariables xs).1.length = xs.length := by
  induction xs generalizing names with
  | nil => rfl
  | cons x xs ih => exact congrArg Nat.succ (ih _)

theorem taken_freshVariables (xs : List String) (names : Names) :
    (names.freshVariables xs).2.taken = (names.freshVariables xs).1.reverse ++ names.taken := by
  induction xs generalizing names with
  | nil => rfl
  | cons x xs ih => simp [freshVariables, ih]

theorem freshVariables_fresh (xs : List String) (names : Names) :
    (names.freshVariables xs).1.Nodup ∧ ∀ y ∈ (names.freshVariables xs).1, y ∉ names.taken := by
  induction xs generalizing names with
  | nil => exact ⟨List.nodup_nil, fun _ hy => nomatch hy⟩
  | cons x xs ih =>
    -- what is drawn later avoids the name drawn first, which is taken by then
    obtain ⟨hnodup, hfresh⟩ := ih (names.freshVariable x).2
    refine ⟨List.nodup_cons.mpr ⟨fun h => hfresh _ h List.mem_cons_self, hnodup⟩, ?_⟩
    intro y hy
    rcases List.mem_cons.mp hy with rfl | hy
    · exact names.freshVariable_not_mem x
    · exact fun h => hfresh y hy (List.mem_cons_of_mem _ h)

theorem skolems_freshVariables (xs : List String) (names : Names) :
    (names.freshVariables xs).2.skolems = names.skolems := by
  induction xs generalizing names with
  | nil => rfl
  | cons x xs ih => exact ih _

theorem renamed_le_freshVariables (xs : List String) (names : Names) :
    names.renamed ≤ (names.freshVariables xs).2.renamed := by
  induction xs generalizing names with
  | nil => exact Int.le_refl _
  | cons x xs ih => exact Int.le_trans (Int.le_of_lt (names.renamed_lt_freshVariable x)) (ih _)

/-- The same names are taken and the counters are the same. -/
structure Same (m n : Names) : Prop where
  taken : ∀ x, x ∈ m.taken ↔ x ∈ n.taken
  renamed : m.renamed = n.renamed
  skolems : m.skolems = n.skolems

variable {m n : Names}

theorem Same.freshVariable (h : m.Same n) (base : String) :
    (m.freshVariable base).1 = (n.freshVariable base).1 ∧
      (m.freshVariable base).2.Same (n.freshVariable base).2 := by
  have hspell (k l : Int) : variableName base k = variableName base l → k = l :=
    variableName_injective
  have hfree := firstFree_congr hspell h.taken (m.renamed + 1)
  rw [h.renamed] at hfree
  have hname : (m.freshVariable base).1 = (n.freshVariable base).1 := by
    rw [Names.freshVariable, Names.freshVariable, h.renamed, hfree]
  refine ⟨hname, fun x => ?_, ?_, h.skolems⟩
  · rw [taken_freshVariable, taken_freshVariable, hname, List.mem_cons, List.mem_cons, h.taken]
  · rw [Names.freshVariable, Names.freshVariable, h.renamed, hfree]

theorem Same.freshSkolem (h : m.Same n) (base : String) :
    (m.freshSkolem base).1 = (n.freshSkolem base).1 ∧
      (m.freshSkolem base).2.Same (n.freshSkolem base).2 := by
  have hspell (k l : Int) : skolemName base k = skolemName base l → k = l := skolemName_injective
  have hfree := firstFree_congr hspell h.taken (m.skolems + 1)
  rw [h.skolems] at hfree
  have hname : (m.freshSkolem base).1 = (n.freshSkolem base).1 := by
    rw [Names.freshSkolem, Names.freshSkolem, h.skolems, hfree]
  refine ⟨hname, fun x => ?_, h.renamed, ?_⟩
  · rw [taken_freshSkolem, taken_freshSkolem, hname, List.mem_cons, List.mem_cons, h.taken]
  · rw [Names.freshSkolem, Names.freshSkolem, h.skolems, hfree]

end Names

end Clausification

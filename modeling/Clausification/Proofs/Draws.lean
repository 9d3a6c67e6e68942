import Mathlib.Data.Int.Interval
import Mathlib.Order.Bounds.Defs
import Clausification.Proofs.Names

/-!
# One source for all draws

Variables and Skolem symbols are drawn from one source, in any order. Two draws can come to the same
spelling, as a letter may end in an underscore and a variable in digits; each draw avoids what the
draws before it gave. A draw tries one number after the other. It ends because different numbers are
spelled differently, so that the taken names cannot spell more numbers than there are names.
-/

namespace Clausification

/-- What is asked of a source: a variable in the place of another one, or a Skolem symbol with some
letters in front of its number. -/
inductive Draw where
  | renamed (base : String)
  | skolem (base : String)
deriving DecidableEq, Inhabited

namespace Draw

def spell : Draw → Int → String
  | renamed base => Names.variableName base
  | skolem base => Names.skolemName base

/-- The counter that a draw advances. -/
def counter : Draw → Names → Int
  | renamed _ => (·.renamed)
  | skolem _ => (·.skolems)

/-- The counter that a draw leaves alone. -/
def otherCounter : Draw → Names → Int
  | renamed _ => (·.skolems)
  | skolem _ => (·.renamed)

def run : Draw → Names → String × Names
  | renamed base => Names.freshVariable base
  | skolem base => Names.freshSkolem base

end Draw

namespace Names

/-- Answer the draws of a list, one after the other. -/
def drawAll : List Draw → Names → List String × Names
  | [], names => ([], names)
  | d :: ds, names =>
    let drawn := d.run names
    let rest := drawAll ds drawn.2
    (drawn.1 :: rest.1, rest.2)

/-- Try the numbers behind `n`, one after the other and not more than `limit` of them, until one has
a spelling that is not taken. -/
def search (spell : Int → String) (taken : List String) : (limit : Nat) → (n : Int) → Option Int
  | 0, _ => none
  | limit + 1, n =>
    if spell (n + 1) ∈ taken then search spell taken limit (n + 1) else some (n + 1)

section
variable {spell : Int → String}

theorem search_eq {taken : List String} {limit : Nat} {n k : Int} (hn : n < k)
    (htaken : ∀ i, n < i → i < k → spell i ∈ taken) (hfree : spell k ∉ taken)
    (hlimit : k ≤ n + limit) : search spell taken limit n = some k := by
  induction limit generalizing n with
  | zero => omega
  | succ limit ih =>
    rw [search]
    by_cases hk : n + 1 = k
    · rw [hk, if_neg hfree]
    · rw [if_pos (htaken (n + 1) (by omega) (by omega))]
      exact ih (by omega) (fun i hi => htaken i (by omega)) (by push_cast at hlimit; omega)

/-- All numbers before the one that is found are spelled by names that are taken, each by another
one. -/
theorem firstFree_le_card (hspell : ∀ m n, spell m = spell n → m = n) (avoid : List String)
    (n : Int) : firstFree spell avoid n ≤ n + avoid.toFinset.card := by
  have hcard : (Finset.Ico n (firstFree spell avoid n)).card ≤ avoid.toFinset.card := by
    refine Finset.card_le_card_of_injOn spell (fun k hk => ?_) fun k _ l _ h => hspell k l h
    obtain ⟨hle, hlt⟩ := Finset.mem_Ico.mp hk
    exact List.mem_toFinset.mpr (mem_of_lt_firstFree hle hlt)
  rw [Int.card_Ico] at hcard
  omega

theorem search_eq_firstFree (hspell : ∀ m n, spell m = spell n → m = n) (taken : List String)
    (n : Int) : search spell taken (taken.toFinset.card + 1) n =
      some (firstFree spell taken (n + 1)) := by
  have hle := le_firstFree spell taken (n + 1)
  have hcard := firstFree_le_card hspell taken (n + 1)
  refine search_eq (by omega) (fun i hi hlt => mem_of_lt_firstFree (by omega) hlt)
    (firstFree_not_mem hspell taken _) ?_
  push_cast
  omega

theorem isLeast_firstFree (hspell : ∀ m n, spell m = spell n → m = n) (taken : List String)
    (n : Int) : IsLeast {k | n < k ∧ spell k ∉ taken} (firstFree spell taken (n + 1)) := by
  have hle := le_firstFree spell taken (n + 1)
  refine ⟨⟨by omega, firstFree_not_mem hspell taken _⟩, ?_⟩
  rintro k ⟨hk, hfree⟩
  exact firstFree_le (by omega) hfree

end

end Names

namespace Draw
variable (d : Draw) (names : Names)

theorem eq_of_spell_eq (m n : Int) (h : d.spell m = d.spell n) : m = n := by
  cases d with
  | renamed base => exact Names.variableName_injective h
  | skolem base => exact Names.skolemName_injective h

theorem counter_run : d.counter (d.run names).2 =
    Names.firstFree d.spell names.taken (d.counter names + 1) := by
  cases d <;> rfl

theorem run_fst : (d.run names).1 = d.spell (d.counter (d.run names).2) := by
  cases d <;> rfl

theorem taken_run : (d.run names).2.taken = (d.run names).1 :: names.taken := by
  cases d <;> rfl

theorem otherCounter_run : d.otherCounter (d.run names).2 = d.otherCounter names := by
  cases d <;> rfl

theorem run_fst_not_mem : (d.run names).1 ∉ names.taken := by
  rw [run_fst, counter_run]
  exact Names.firstFree_not_mem d.eq_of_spell_eq names.taken _

theorem search_counter : Names.search d.spell names.taken (names.taken.toFinset.card + 1)
    (d.counter names) = some (d.counter (d.run names).2) := by
  rw [counter_run]
  exact Names.search_eq_firstFree d.eq_of_spell_eq names.taken _

theorem isLeast_counter :
    IsLeast {k | d.counter names < k ∧ d.spell k ∉ names.taken} (d.counter (d.run names).2) := by
  rw [counter_run]
  exact Names.isLeast_firstFree d.eq_of_spell_eq names.taken _

end Draw

namespace Names

theorem drawAll_append (ds es : List Draw) (names : Names) :
    names.drawAll (ds ++ es) =
      ((names.drawAll ds).1 ++ ((names.drawAll ds).2.drawAll es).1,
        ((names.drawAll ds).2.drawAll es).2) := by
  induction ds generalizing names with
  | nil => rfl
  | cons d ds ih => simp only [List.cons_append, drawAll, ih]

theorem length_drawAll (ds : List Draw) (names : Names) :
    (names.drawAll ds).1.length = ds.length := by
  induction ds generalizing names with
  | nil => rfl
  | cons d ds ih => exact congrArg Nat.succ (ih _)

theorem mem_taken_drawAll {ds : List Draw} {names : Names} {x : String} :
    x ∈ (names.drawAll ds).2.taken ↔ x ∈ names.taken ∨ x ∈ (names.drawAll ds).1 := by
  induction ds generalizing names with
  | nil => simp [drawAll]
  | cons d ds ih =>
    rw [drawAll, ih, d.taken_run, List.mem_cons, List.mem_cons, or_comm (a := x = _), or_assoc]

theorem drawAll_renamed (xs : List String) (names : Names) :
    names.drawAll (xs.map .renamed) = names.freshVariables xs := by
  induction xs generalizing names with
  | nil => rfl
  | cons x xs ih => simp only [List.map_cons, drawAll, freshVariables, ih, Draw.run]

theorem drawAll_fresh (ds : List Draw) (names : Names) :
    (names.drawAll ds).1.Nodup ∧ ∀ x ∈ (names.drawAll ds).1, x ∉ names.taken := by
  induction ds generalizing names with
  | nil => exact ⟨List.nodup_nil, fun _ hx => nomatch hx⟩
  | cons d ds ih =>
    -- what is drawn later avoids the name drawn first, which is taken by then
    obtain ⟨hnodup, hfresh⟩ := ih (d.run names).2
    simp only [d.taken_run, List.mem_cons, not_or] at hfresh
    refine ⟨List.nodup_cons.mpr ⟨fun h => (hfresh _ h).1 rfl, hnodup⟩, ?_⟩
    exact List.forall_mem_cons.mpr ⟨d.run_fst_not_mem names, fun x hx => (hfresh x hx).2⟩

/-- Whatever is drawn from a source, in whatever order, no name comes twice and none was taken
before, and in the end just the names that were drawn are taken beside those that were taken at the
beginning. Each draw tries at most one number more than there are taken names, and stops at the
least number behind its counter whose spelling is free. This number becomes its counter; the other
counter stays where it is. -/
theorem names_are_drawn_once (names : Names) (ds : List Draw) :
    (names.drawAll ds).1.length = ds.length ∧ (names.drawAll ds).1.Nodup ∧
      (∀ x ∈ (names.drawAll ds).1, x ∉ names.taken) ∧
      (∀ x, x ∈ (names.drawAll ds).2.taken ↔ x ∈ names.taken ∨ x ∈ (names.drawAll ds).1) ∧
      ∀ before d behind, ds = before ++ d :: behind →
        let now := (names.drawAll before).2
        let next := (names.drawAll (before ++ [d])).2
        (names.drawAll ds).1[before.length]? = some (d.spell (d.counter next)) ∧
          search d.spell now.taken (now.taken.toFinset.card + 1) (d.counter now) =
            some (d.counter next) ∧
          IsLeast {k | d.counter now < k ∧ d.spell k ∉ now.taken} (d.counter next) ∧
          d.otherCounter next = d.otherCounter now := by
  obtain ⟨hnodup, hfresh⟩ := drawAll_fresh ds names
  refine ⟨length_drawAll ds names, hnodup, hfresh, fun x => mem_taken_drawAll, ?_⟩
  rintro before d behind rfl now next
  have hnext : next = (d.run now).2 := congrArg Prod.snd (drawAll_append before [d] names)
  have hdrawn : (names.drawAll (before ++ d :: behind)).1 =
      (names.drawAll before).1 ++ (d.run now).1 :: ((d.run now).2.drawAll behind).1 :=
    congrArg Prod.fst (drawAll_append before (d :: behind) names)
  rw [hnext, hdrawn]
  refine ⟨?_, d.search_counter now, d.isLeast_counter now, d.otherCounter_run now⟩
  rw [← length_drawAll before names, List.getElem?_append_right (Nat.le_refl _), Nat.sub_self,
    List.getElem?_cons_zero, d.run_fst]

/-- The counters start below and at zero, and the Skolem symbol drawn second has the spelling that
the third draw tries second. -/
theorem names_are_drawn_once_of_shared_spelling :
    let names : Names := { taken := ["x_0", "f2", "x_0"], renamed := -2 }
    let before : List Draw := [.renamed "x", .skolem "x_"]
    let ds := before ++ .renamed "x" :: [.skolem "f"]
    let now := (names.drawAll before).2
    (names.drawAll ds).1 = ["x_-1", "x_1", "x_2", "f3"] ∧ (names.drawAll ds).1.Nodup ∧
      "f3" ∈ (names.drawAll ds).1 ∧ "f3" ∉ names.taken ∧ now.taken.toFinset.card = 4 ∧
      search (variableName "x") now.taken (4 + 1) (-1) = some 2 ∧
      IsLeast {k | -1 < k ∧ variableName "x" k ∉ now.taken} 2 := by
  intro names before ds now
  have hdrawn : (names.drawAll ds).1 = ["x_-1", "x_1", "x_2", "f3"] := by decide +kernel
  have hcard : now.taken.toFinset.card = 4 := by decide +kernel
  have hnow : now.renamed = -1 := by decide +kernel
  have hnext : (names.drawAll (before ++ [.renamed "x"])).2.renamed = 2 := by decide +kernel
  have hmem : "f3" ∈ (names.drawAll ds).1 := by
    rw [hdrawn]
    decide
  obtain ⟨-, hnodup, hfresh, -, hdraws⟩ := names_are_drawn_once names ds
  obtain ⟨-, hsearch, hleast, -⟩ := hdraws before (.renamed "x") [.skolem "f"] rfl
  simp only [Draw.counter, Draw.spell] at hsearch hleast
  rw [hcard, hnow, hnext] at hsearch
  rw [hnow, hnext] at hleast
  exact ⟨hdrawn, hnodup, hmem, hfresh _ hmem, hcard, hsearch, hleast⟩

end Names

end Clausification

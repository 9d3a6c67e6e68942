import Clausification.Form.Renamed
import Clausification.Proofs.Formula.Shape
import Clausification.Proofs.Formula.Walk
import Clausification.Proofs.Result

/-!
# The rounds of a walk

A walk goes in rounds, each of which carries out the next pending step. Two rounds for each formula
that is visited are enough: then nothing is pending, and there is one result, which is the one of the
recursion. What the steps do beside giving results, such as drawing names or failing, they do in the
order of the recursion.
-/

namespace Clausification.Formula

theorem size_lt_of_mem_subformulas {f k : Formula} (hk : k ∈ f.subformulas) (hne : k ≠ f) :
    k.size < f.size := by
  have hkids : ∀ g, (g = f ∨ g.size < f.size) → ∀ k ∈ g.children, k = f ∨ k.size < f.size := by
    rintro g (rfl | hg) k hk
    · exact Or.inr (size_lt_of_mem_children hk)
    · exact Or.inr (Nat.lt_trans (size_lt_of_mem_children hk) hg)
  exact (forall_mem_subformulas hkids (Or.inl rfl) k hk).resolve_left hne

theorem mem_subformulas_self (f : Formula) : f ∈ f.subformulas := by
  cases f <;> exact List.mem_cons_self

theorem mem_subformulas_of_mem_children {f k : Formula} (hk : k ∈ f.children) :
    k ∈ f.subformulas ∧ k ≠ f := by
  refine ⟨?_, fun he => Nat.lt_irrefl _ (he ▸ size_lt_of_mem_children hk)⟩
  cases f with
  | atom a => exact nomatch hk
  | term t => exact nomatch hk
  | not f =>
    obtain rfl := List.mem_singleton.mp hk
    exact List.mem_cons_of_mem _ k.mem_subformulas_self
  | quant q x f =>
    obtain rfl := List.mem_singleton.mp hk
    exact List.mem_cons_of_mem _ k.mem_subformulas_self
  | binary c l r =>
    rcases List.mem_cons.mp hk with rfl | hk
    · exact List.mem_cons_of_mem _ (List.mem_append_left _ k.mem_subformulas_self)
    · obtain rfl := List.mem_singleton.mp hk
      exact List.mem_cons_of_mem _ (List.mem_append_right _ k.mem_subformulas_self)

/-- A descent into any formulas below a node, its own operands or others. -/
def Descent.below (kids : Formula → List Formula)
    (hkids : ∀ f, ∀ k ∈ kids f, k ∈ f.subformulas ∧ k ≠ f) : Descent where
  kids := kids
  size_lt f k hk := size_lt_of_mem_subformulas (hkids f k hk).1 (hkids f k hk).2

/-- The pending steps of a walk, the next one first, and its results, the last one first. -/
structure Walking (β γ : Type) where
  tasks : List (Task γ)
  results : List β

section
variable {m : Type → Type} [Monad m] {β γ : Type} (d : Descent)
  (visit : Formula → List β → γ → m β) (enter : Formula → γ → m γ)

/-- Carry out the next step. Where none is pending, nothing happens. -/
def walkRound : Walking β γ → m (Walking β γ)
  | ⟨[], results⟩ => pure ⟨[], results⟩
  | ⟨.leave f context :: tasks, results⟩ => do
    let n := (d.kids f).length
    let r ← visit f (results.take n).reverse context
    return ⟨tasks, r :: results.drop n⟩
  | ⟨.enter f context :: tasks, results⟩ => do
    if (d.kids f).isEmpty then
      let r ← visit f [] context
      return ⟨tasks, r :: results⟩
    else
      let inner ← enter f context
      return ⟨Task.enterAll inner (d.kids f) ++ .leave f inner :: tasks, results⟩

def walkRounds : (n : Nat) → Walking β γ → m (Walking β γ)
  | 0, w => pure w
  | n + 1, w => walkRound d visit enter w >>= walkRounds n

end

theorem Task.work_pos {γ : Type} (d : Descent) (t : Task γ) : 0 < t.work d := by
  cases t with
  | enter f context =>
    rw [Task.work, d.work_eq]
    omega
  | leave f context => exact Nat.one_pos

section
variable {m : Type → Type} [Monad m] [LawfulMonad m] {β γ : Type} (d : Descent)
  (visit : Formula → List β → γ → m β) (enter : Formula → γ → m γ)

/-- Each round takes at least one away from the pending work, so with rounds for all of it a walk
comes to its end. -/
theorem walkRounds_eq (n : Nat) (tasks : List (Task γ)) (results : List β)
    (hn : total (tasks.map (Task.work d)) ≤ n) : walkRounds d visit enter n ⟨tasks, results⟩ =
      (fun rs => ⟨[], rs⟩) <$> walkTasks d visit enter tasks results := by
  induction n generalizing tasks results with
  | zero =>
    cases tasks with
    | nil => rw [walkRounds, walkTasks, map_pure]
    | cons t tasks =>
      rw [List.map_cons, total_cons] at hn
      have hpos := t.work_pos d
      omega
  | succ n ih =>
    rw [walkRounds]
    cases tasks with
    | nil => rw [walkRound, pure_bind, ih [] results (Nat.zero_le n)]
    | cons t tasks =>
      rw [List.map_cons, total_cons] at hn
      cases t with
      | leave f context =>
        rw [Task.work] at hn
        have hrest (r : β) := ih tasks (r :: results.drop (d.kids f).length) (by omega)
        simp only [walkRound, walkTasks, bind_assoc, pure_bind, hrest, map_bind]
      | enter f context =>
        rw [Task.work, d.work_eq] at hn
        rw [walkRound, walkTasks]
        split
        · have hrest (r : β) := ih tasks (r :: results) (by omega)
          simp only [bind_assoc, pure_bind, hrest, map_bind]
        · have hwork (inner : γ) : total ((Task.enterAll inner (d.kids f) ++
              .leave f inner :: tasks).map (Task.work d)) ≤ n := by
            simp only [List.map_append, List.map_cons, total_append, total_cons,
              Task.total_work_enterAll, Task.work]
            omega
          have hrest (inner : γ) := ih _ results (hwork inner)
          simp only [bind_assoc, pure_bind, hrest, map_bind]

theorem walkTasks_singleton (context : γ) (f : Formula) :
    walkTasks d visit enter [.enter f context] [] =
      (fun r => [r]) <$> descend d visit enter context f := by
  simp only [walkTasks_enter, walkTasks, map_eq_pure_bind]

/-- Whatever formulas below a node a walk descends into, and whatever entering and leaving a node do
beside giving contexts and results, the walk is a recursion: a node without formulas to descend into
is left at once; any other is entered, then its formulas are walked through from left to right in the
context that this gave, and then it is left with their results in this context. The rounds of the
walk come to an end: after as many as there is work, nothing is pending, and the result of the
recursion is the only one. -/
theorem walk_runs_as_recursion [Inhabited β] (kids : Formula → List Formula)
    (hkids : ∀ f, ∀ k ∈ kids f, k ∈ f.subformulas ∧ k ≠ f) (visit : Formula → List β → γ → m β)
    (enter : Formula → γ → m γ) (context : γ) (f : Formula) :
    let d := Descent.below kids hkids
    walk d visit enter context f = descend d visit enter context f ∧
      (∀ c g, descend d visit enter c g =
        if (kids g).isEmpty then visit g [] c
        else do
          let inner ← enter g c
          let results ← (kids g).mapM (descend d visit enter inner)
          visit g results inner) ∧
      ∀ n, d.work f ≤ n → walkRounds d visit enter n ⟨[.enter f context], []⟩ =
        (fun r => ⟨[], [r]⟩) <$> descend d visit enter context f := by
  intro d
  refine ⟨walk_eq_descend d visit enter context f, descend_eq d visit enter, fun n hn => ?_⟩
  have hwork : total ([Task.enter f context].map (Task.work d)) ≤ n := hn
  rw [walkRounds_eq d visit enter n _ _ hwork, walkTasks_singleton, Functor.map_map]

end

/-- The operands are walked through from right to left, and an atom among terms is found before the
binder on its left has drawn a name. -/
theorem walk_runs_as_recursion_of_stopped_renaming :
    let kids (f : Formula) : List Formula := f.children.reverse
    let hkids (g k : Formula) (hk : k ∈ kids g) :=
      mem_subformulas_of_mem_children (List.mem_reverse.mp hk)
    let d := Descent.below kids hkids
    let f : Formula := .all "x" (.and (.ex "y" (.atom ⟨"Q", [.var "x", .var "y"]⟩))
      (.not (.atom ⟨"P", [.stray "R" []]⟩)))
    (∀ g, ∀ k ∈ kids g, k ∈ g.subformulas ∧ k ≠ g) ∧ d.work f = 12 ∧
      (walk d renamedNode enterBinder [] f).run.run {} =
        (.error (.strayAtom .substitution), { taken := ["x_1"], renamed := 1 }) ∧
      walkRounds d renamedNode enterBinder 12 ⟨[.enter f []], []⟩ =
        (fun r => ⟨[], [r]⟩) <$> walk d renamedNode enterBinder [] f := by
  intro kids hkids d f
  have hwork : d.work f = 12 := by decide +kernel
  obtain ⟨hwalk, -, hrounds⟩ := walk_runs_as_recursion kids hkids renamedNode enterBinder [] f
  have hstop : stop? ((descend d renamedNode enterBinder [] f).run.run {}).1 =
      some (.strayAtom .substitution) := by decide +kernel
  have hnames : ((descend d renamedNode enterBinder [] f).run.run {}).2 =
      { taken := ["x_1"], renamed := 1 } := by decide +kernel
  rw [hwalk]
  exact ⟨hkids, hwork, Prod.ext (stop?_eq_some.mp hstop) hnames,
    hrounds 12 (Nat.le_of_eq hwork)⟩

end Clausification.Formula

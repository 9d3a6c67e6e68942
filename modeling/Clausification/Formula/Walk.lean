import Clausification.Formula.Basic

/-!
# Walking a formula

A bottom-up walk that keeps its pending work and its results on two lists, so that the depth of a
formula costs no call stack. A node with subformulas is entered before they are and left after
them: entering it gives the context that the subformulas and the node itself see, leaving it
combines the results of the subformulas, left to right.
-/

namespace Clausification.Formula

/-- A choice, at each formula, of smaller formulas that a walk descends into. -/
structure Descent where
  kids : Formula → List Formula
  size_lt : ∀ f, ∀ k ∈ kids f, k.size < f.size

namespace Descent

def everywhere : Descent where
  kids := children
  size_lt _ _ h := size_lt_of_mem_children h

def through (c : Connective) : Descent where
  kids
    | binary c' l r => if c' = c then [l, r] else []
    | _ => []
  size_lt f k h := by
    apply size_lt_of_mem_children
    cases f with
    | binary c' l r =>
      simp only at h
      split at h
      · exact h
      · simp at h
    | _ => simp at h

/-- What a walk still has to do at a formula: two steps for the formula itself and the work for
each formula it descends into. -/
def work (d : Descent) (f : Formula) : Nat :=
  2 + total ((d.kids f).attach.map fun k => d.work k.1)
termination_by f.size
decreasing_by exact d.size_lt f k.1 k.2

theorem work_eq (d : Descent) (f : Formula) :
    d.work f = 2 + total ((d.kids f).map d.work) := by
  rw [work, List.map_attach_eq_pmap, List.pmap_eq_map]

end Descent

inductive Task (γ : Type) where
  | enter (f : Formula) (context : γ)
  | leave (f : Formula) (context : γ)

def Task.work {γ : Type} (d : Descent) : Task γ → Nat
  | enter f _ => d.work f
  | leave _ _ => 1

def Task.enterAll {γ : Type} (context : γ) (fs : List Formula) : List (Task γ) :=
  fs.map (Task.enter · context)

@[simp] theorem Task.total_work_enterAll {γ : Type} (d : Descent) (context : γ) (fs : List Formula) :
    total ((Task.enterAll context fs).map (Task.work d)) = total (fs.map d.work) := by
  simp [Task.enterAll, List.map_map, Function.comp_def, Task.work]

variable {m : Type → Type} [Monad m] {β γ : Type}

/-- Work through the pending steps, the next one first. The results are kept last first, so those
of a node's subformulas are the first ones when the node is left. -/
@[specialize] def walkTasks (d : Descent) (visit : Formula → List β → γ → m β)
    (enter : Formula → γ → m γ) : List (Task γ) → List β → m (List β)
  | [], results => pure results
  | .leave f context :: tasks, results => do
    let n := (d.kids f).length
    let r ← visit f (results.take n).reverse context
    walkTasks d visit enter tasks (r :: results.drop n)
  | .enter f context :: tasks, results => do
    if (d.kids f).isEmpty then
      let r ← visit f [] context
      walkTasks d visit enter tasks (r :: results)
    else
      let inner ← enter f context
      walkTasks d visit enter (Task.enterAll inner (d.kids f) ++ .leave f inner :: tasks) results
termination_by tasks => total (tasks.map (Task.work d))
decreasing_by
  · simp [Task.work]
  · simp only [List.map_cons, total_cons, Task.work, d.work_eq f]; omega
  · simp only [List.map_cons, List.map_append, total_cons, total_append,
      Task.total_work_enterAll, Task.work, d.work_eq f]
    omega

/-- Walk a formula: `visit` sees a node, the results of the formulas below it and the context, and
`enter` turns the context of a node with formulas below it into theirs. -/
@[inline] def walk [Inhabited β] (d : Descent) (visit : Formula → List β → γ → m β)
    (enter : Formula → γ → m γ) (context : γ) (f : Formula) : m β := do
  let results ← walkTasks d visit enter [.enter f context] []
  return results.headD default

@[inline] def fold [Inhabited β] (visit : Formula → List β → m β) (f : Formula) : m β :=
  walk .everywhere (fun f results (_ : Unit) => visit f results) (fun _ => pure) () f

end Clausification.Formula

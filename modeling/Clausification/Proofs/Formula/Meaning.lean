import Mathlib.Logic.Function.Basic
import Clausification.Proofs.Formula.Occurrence

/-!
# What formulas mean

Truth of a formula in a non-empty domain, under an assignment of elements to vars. Functions
and relations are given for every name and every number of arguments, so one name with different
numbers of arguments stands for different things.
-/

namespace Clausification

universe u

/-- What the names of functions and predicates stand for in a domain. -/
structure Interpretation (D : Type u) where
  function : String → List D → D
  relation : String → List D → Prop

/-- Elements for the variables. -/
abbrev Assignment (D : Type u) := String → D

/-- The truth of two propositions joined by a connective. -/
def Connective.joins : Connective → Prop → Prop → Prop
  | .and, p, q => p ∧ q
  | .or, p, q => p ∨ q
  | .implies, p, q => p → q
  | .iff, p, q => p ↔ q

/-- The truth of a quantified proposition about the elements of a domain. -/
def Quantifier.ranges {D : Type u} : Quantifier → (D → Prop) → Prop
  | .all, p => ∀ e, p e
  | .ex, p => ∃ e, p e

section
variable {D : Type u} [Nonempty D] (M : Interpretation D)

/-- The element that a term stands for. An atom among terms stands for nothing in particular. -/
noncomputable def Term.value (ρ : Assignment D) : Term → D
  | .var x => ρ x
  | .app f ts => M.function f (ts.map (Term.value ρ))
  | .stray .. => Classical.arbitrary D

/-- The truth of an atom. -/
def Atom.holds (ρ : Assignment D) (a : Atom) : Prop :=
  M.relation a.predicate (a.args.map (Term.value M ρ))

/-- The truth of a formula. A term in the place of a formula is not true. -/
def Formula.holds (ρ : Assignment D) : Formula → Prop
  | .atom a => a.holds M ρ
  | .not f => ¬ f.holds ρ
  | .binary c l r => c.joins (l.holds ρ) (r.holds ρ)
  | .quant q x f => q.ranges fun e => f.holds (Function.update ρ x e)
  | .term _ => False

end

theorem Quantifier.ranges_congr {D : Type u} {q : Quantifier} {p p' : D → Prop}
    (h : ∀ e, p e ↔ p' e) : q.ranges p ↔ q.ranges p' := by
  rw [show p = p' from funext fun e => propext (h e)]

theorem Connective.joins_congr {c : Connective} {p p' q q' : Prop} (hp : p ↔ p') (hq : q ↔ q') :
    c.joins p q ↔ c.joins p' q' := by
  rw [propext hp, propext hq]

theorem Quantifier.not_ranges {D : Type u} (q : Quantifier) (p : D → Prop) :
    ¬ q.ranges p ↔ q.dual.ranges fun e => ¬ p e := by
  cases q <;> simp [ranges, dual]

theorem Connective.not_joins_and (p q : Prop) :
    ¬ Connective.and.joins p q ↔ Connective.or.joins (¬ p) (¬ q) := by
  simp only [joins]
  exact Classical.not_and_iff_not_or_not

theorem Connective.not_joins_or (p q : Prop) :
    ¬ Connective.or.joins p q ↔ Connective.and.joins (¬ p) (¬ q) := by
  simp [joins]

section
variable {D : Type u} [Nonempty D] {M M' : Interpretation D} {ρ ρ' : Assignment D}

theorem Term.value_congr (t : Term) (hx : ∀ x ∈ t.vars, ρ x = ρ' x)
    (hg : ∀ g ∈ t.functions, M.function g = M'.function g) :
    t.value M ρ = t.value M' ρ' := by
  induction t with
  | var x => simpa [value] using hx x (by simp [vars])
  | app f ts ih =>
    simp only [vars, varsOfAll_eq_flatMap, List.mem_flatMap] at hx
    simp only [functions, functionsOfAll_eq_flatMap, List.mem_cons, List.mem_flatMap] at hg
    have hts : ts.map (value M ρ) = ts.map (value M' ρ') :=
      List.map_congr_left fun t ht =>
        ih t ht (fun x h => hx x ⟨t, ht, h⟩) (fun g h => hg g (Or.inr ⟨t, ht, h⟩))
    rw [value, value, hts, hg f (Or.inl rfl)]
  | stray p ts => simp [value]

theorem Term.map_value_var (xs : List String) : (xs.map .var).map (value M ρ) = xs.map ρ := by
  simp [value]

theorem Atom.holds_congr (a : Atom) (hx : ∀ x ∈ a.vars, ρ x = ρ' x)
    (hg : ∀ g ∈ a.functions, M.function g = M'.function g) (hr : M.relation = M'.relation) :
    a.holds M ρ ↔ a.holds M' ρ' := by
  have hts : a.args.map (Term.value M ρ) = a.args.map (Term.value M' ρ') :=
    List.map_congr_left fun t ht =>
      t.value_congr (fun x h => hx x (List.mem_flatMap.mpr ⟨t, ht, h⟩))
        (fun g h => hg g (List.mem_flatMap.mpr ⟨t, ht, h⟩))
  rw [Atom.holds, Atom.holds, hts, hr]

/-- A formula depends on its free variables and its function symbols only, and on the relations. -/
theorem Formula.holds_congr (f : Formula) (hx : ∀ x ∈ f.freeVars, ρ x = ρ' x)
    (hg : ∀ g ∈ f.functions, M.function g = M'.function g) (hr : M.relation = M'.relation) :
    f.holds M ρ ↔ f.holds M' ρ' := by
  induction f generalizing ρ ρ' with
  | atom a => exact a.holds_congr hx (by simpa [functions, atoms] using hg) hr
  | not f ih => exact not_congr (ih hx hg)
  | binary c l r ihl ihr =>
    simp only [freeVars, functions, atoms, List.flatMap_append, List.mem_append] at hx hg
    exact Connective.joins_congr
      (ihl (fun x h => hx x (Or.inl h)) (fun g h => hg g (Or.inl h)))
      (ihr (fun x h => hx x (Or.inr h)) (fun g h => hg g (Or.inr h)))
  | quant q x f ih =>
    refine Quantifier.ranges_congr fun e => ih (fun y hy => ?_) hg
    by_cases hyx : y = x
    · simp [hyx]
    · simpa [hyx] using hx y (mem_freeVars_quant.mpr ⟨hy, hyx⟩)
  | term t => exact Iff.rfl

/-- Assignments that agree on the free variables give a formula the same truth value. -/
theorem Formula.holds_congr_assignment (f : Formula) (hx : ∀ x ∈ f.freeVars, ρ x = ρ' x) :
    f.holds M ρ ↔ f.holds M ρ' :=
  f.holds_congr hx (fun _ _ => rfl) rfl

theorem Formula.holds_update_of_not_mem {f : Formula} {x : String}
    (hx : x ∉ f.freeVars) (e : D) : f.holds M (Function.update ρ x e) ↔ f.holds M ρ := by
  apply f.holds_congr_assignment
  intro y hy
  have hyx : y ≠ x := fun h => hx (h ▸ hy)
  simp [hyx]

end

end Clausification

import Mathlib.Data.List.Basic
import Clausification.Substitution
import Clausification.Proofs.Formula.Meaning
import Clausification.Proofs.Formula.Shape
import Clausification.Proofs.Formula.Walk

/-!
# Substitution

The pass that looks out for misplaced atoms is a plain replacement on well-formed formulas.
-/

namespace Clausification

namespace Substitution

theorem get_cons_self (σ : Substitution) (x : String) (t : Term) : get ((x, t) :: σ) x = t := by
  simp [get]

theorem get_cons_of_ne (σ : Substitution) {x y : String} (t : Term) (h : y ≠ x) :
    get ((x, t) :: σ) y = σ.get y := by
  have hb : (y == x) = false := beq_eq_false_iff_ne.mpr h
  simp only [get, List.lookup_cons, hb]

/-- Every variable is replaced by a variable. -/
def IsRenaming (σ : Substitution) : Prop := ∀ x, σ.get x = .var (σ.get x).name

theorem isRenaming_nil : IsRenaming [] := fun _ => rfl

theorem IsRenaming.cons {σ : Substitution} (h : σ.IsRenaming) (x y : String) :
    IsRenaming ((x, .var y) :: σ) := by
  intro z
  by_cases hz : z = x
  · rw [hz, get_cons_self]
    rfl
  · rw [get_cons_of_ne σ _ hz]
    exact h z

section
variable (σ : Substitution) {x y : String}

theorem hide_cons_self (x : String) (t : Term) : hide ((x, t) :: σ) x = σ.hide x := by
  simp [hide]

theorem hide_cons_of_ne (t : Term) (h : x ≠ y) : hide ((x, t) :: σ) y = (x, t) :: σ.hide y := by
  simp [hide, h]

theorem hide_hide_self (x : String) : (σ.hide x).hide x = σ.hide x := by
  simp [hide, List.filter_filter]

theorem hide_comm (x y : String) : (σ.hide x).hide y = (σ.hide y).hide x := by
  simp only [hide, List.filter_filter]
  exact List.filter_congr fun p _ => Bool.and_comm _ _

theorem lookup_hide_self (x : String) : (σ.hide x).lookup x = none := by
  rw [List.lookup_eq_none_iff]
  intro p hp
  have hne : p.1 ≠ x := of_decide_eq_true (List.mem_filter.mp hp).2
  exact bne_iff_ne.mpr hne.symm

theorem lookup_hide_of_ne (h : y ≠ x) : (σ.hide x).lookup y = σ.lookup y := by
  induction σ with
  | nil => rfl
  | cons p σ ih =>
    obtain ⟨z, t⟩ := p
    by_cases hz : z = x
    · subst hz
      rw [hide_cons_self, ih, List.lookup_cons, beq_eq_false_iff_ne.mpr h]
    · rw [hide_cons_of_ne σ t hz, List.lookup_cons, List.lookup_cons, ih]

theorem get_hide_self (x : String) : (σ.hide x).get x = .var x := by
  rw [get, lookup_hide_self, Option.getD_none]

theorem get_hide_of_ne (h : y ≠ x) : (σ.hide x).get y = σ.get y := by
  rw [get, lookup_hide_of_ne σ h, get]

end

end Substitution

theorem Term.replace_nil (t : Term) : t.replace [] = t := by
  induction t with
  | var x => rfl
  | app f ts ih =>
    rw [replace, replaceAll_eq_map, List.map_congr_left ih]
    simp
  | stray p ts => rfl

theorem Term.replace_congr {σ τ : Substitution} {t : Term} (h : ∀ x ∈ t.vars, σ.get x = τ.get x) :
    t.replace σ = t.replace τ := by
  induction t with
  | var x => exact h x (List.mem_singleton_self x)
  | app f ts ih =>
    simp only [vars, varsOfAll_eq_flatMap, List.mem_flatMap] at h
    rw [replace, replace, replaceAll_eq_map, replaceAll_eq_map]
    exact congrArg (app f) (List.map_congr_left fun t ht => ih t ht fun x hx => h x ⟨t, ht, hx⟩)
  | stray p ts => rfl

/-- An atom with terms for its variables. -/
def Atom.replace (σ : Substitution) (a : Atom) : Atom :=
  { a with args := a.args.map (Term.replace σ) }

theorem Atom.replace_nil (a : Atom) : a.replace [] = a := by
  rw [Atom.replace, List.map_congr_left fun t _ => t.replace_nil]
  simp

theorem Atom.replace_congr {σ τ : Substitution} {a : Atom} (h : ∀ x ∈ a.vars, σ.get x = τ.get x) :
    a.replace σ = a.replace τ :=
  congrArg (Atom.mk a.predicate) (List.map_congr_left fun t ht =>
    Term.replace_congr fun x hx => h x (List.mem_flatMap.mpr ⟨t, ht, hx⟩))

theorem Atom.substitute_eq {a : Atom} (ha : a.wellFormed) (σ : Substitution) :
    a.substitute σ = .ok (a.replace σ) := by
  simp only [Atom.substitute, ha, if_true]
  split
  · rename_i hσ
    rw [List.isEmpty_iff.mp hσ, a.replace_nil]
  · rw [Term.replaceAll_eq_map]
    rfl

theorem Term.wellFormed_replace {σ : Substitution} (hσ : ∀ x, (σ.get x).wellFormed) (t : Term) :
    (t.replace σ).wellFormed = t.wellFormed := by
  induction t with
  | var x => simpa [replace, wellFormed] using hσ x
  | app f ts ih =>
    simp only [replace, wellFormed, replaceAll_eq_map, allWellFormed_eq_all, List.all_map]
    rw [Bool.eq_iff_iff, List.all_eq_true, List.all_eq_true]
    exact forall₂_congr fun t ht => by rw [Function.comp, ih t ht]
  | stray p ts => rfl

theorem Atom.wellFormed_replace {σ : Substitution} (hσ : ∀ x, (σ.get x).wellFormed) (a : Atom) :
    (a.replace σ).wellFormed = a.wellFormed := by
  simp only [replace, wellFormed, Term.allWellFormed_eq_all, List.all_map]
  rw [Bool.eq_iff_iff, List.all_eq_true, List.all_eq_true]
  exact forall₂_congr fun t _ => by rw [Function.comp, t.wellFormed_replace hσ]

theorem Term.mem_vars_replace {σ : Substitution} {y : String} (t : Term) :
    y ∈ (t.replace σ).vars ↔ ∃ x ∈ t.vars, y ∈ (σ.get x).vars := by
  induction t with
  | var x => simp [replace, vars]
  | app f ts ih =>
    simp only [replace, vars, replaceAll_eq_map, varsOfAll_eq_flatMap, List.mem_flatMap,
      List.mem_map, exists_exists_and_eq_and]
    constructor
    · rintro ⟨t, ht, hy⟩
      obtain ⟨x, hx, hy⟩ := (ih t ht).mp hy
      exact ⟨x, ⟨t, ht, hx⟩, hy⟩
    · rintro ⟨x, ⟨t, ht, hx⟩, hy⟩
      exact ⟨t, ht, (ih t ht).mpr ⟨x, hx, hy⟩⟩
  | stray p ts => simp [replace, vars]

theorem Atom.mem_vars_replace {σ : Substitution} {y : String} (a : Atom) :
    y ∈ (a.replace σ).vars ↔ ∃ x ∈ a.vars, y ∈ (σ.get x).vars := by
  simp only [vars, replace, List.mem_flatMap, List.mem_map, exists_exists_and_eq_and,
    Term.mem_vars_replace]
  constructor
  · rintro ⟨t, ht, x, hx, hy⟩
    exact ⟨x, ⟨t, ht, hx⟩, hy⟩
  · rintro ⟨x, ⟨t, ht, hx⟩, hy⟩
    exact ⟨t, ht, x, hx, hy⟩

theorem Term.mem_functions_replace {σ : Substitution} {g : String} {t : Term}
    (hg : g ∈ (t.replace σ).functions) :
    g ∈ t.functions ∨ ∃ x ∈ t.vars, g ∈ (σ.get x).functions := by
  induction t with
  | var x => exact Or.inr ⟨x, List.mem_singleton_self x, hg⟩
  | app f ts ih =>
    simp only [replace, functions, replaceAll_eq_map, functionsOfAll_eq_flatMap, List.mem_cons,
      List.mem_flatMap, List.mem_map, exists_exists_and_eq_and, vars, varsOfAll_eq_flatMap] at hg ⊢
    rcases hg with rfl | ⟨t, ht, hg⟩
    · exact Or.inl (Or.inl rfl)
    · rcases ih t ht hg with h | ⟨x, hx, h⟩
      · exact Or.inl (Or.inr ⟨t, ht, h⟩)
      · exact Or.inr ⟨x, ⟨t, ht, hx⟩, h⟩
  | stray p ts => exact absurd hg List.not_mem_nil

theorem Atom.mem_functions_replace {σ : Substitution} {g : String} {a : Atom}
    (hg : g ∈ (a.replace σ).functions) :
    g ∈ a.functions ∨ ∃ x, g ∈ (σ.get x).functions := by
  simp only [functions, replace, List.mem_flatMap, List.mem_map, exists_exists_and_eq_and] at hg ⊢
  obtain ⟨t, ht, hg⟩ := hg
  rcases Term.mem_functions_replace hg with h | ⟨x, _, h⟩
  · exact Or.inl ⟨t, ht, h⟩
  · exact Or.inr ⟨x, h⟩

namespace Formula

/-- A formula with terms for its free variables. -/
def replace (σ : Substitution) : Formula → Formula
  | .atom a => .atom (a.replace σ)
  | .not f => .not (f.replace σ)
  | .binary c l r => .binary c (l.replace σ) (r.replace σ)
  | .quant q x f => .quant q x (f.replace (σ.hide x))
  | .term t => .term t

theorem replace_nil (f : Formula) : f.replace [] = f := by
  induction f with
  | atom a => rw [replace, a.replace_nil]
  | not f ih => rw [replace, ih]
  | binary c l r ihl ihr => rw [replace, ihl, ihr]
  | quant q x f ih => rw [replace, Substitution.hide_nil, ih]
  | term t => rfl

/-- Only what is put in for free variables counts. -/
theorem replace_congr {σ τ : Substitution} {f : Formula} (h : ∀ x ∈ f.freeVars, σ.get x = τ.get x) :
    f.replace σ = f.replace τ := by
  induction f generalizing σ τ with
  | atom a => exact congrArg Formula.atom (Atom.replace_congr h)
  | not f ih => exact congrArg Formula.not (ih h)
  | binary c l r ihl ihr =>
    obtain ⟨hl, hr⟩ := List.forall_mem_append.mp h
    exact congrArg₂ (Formula.binary c) (ihl hl) (ihr hr)
  | quant q x f ih =>
    refine congrArg (Formula.quant q x) (ih fun y hy => ?_)
    by_cases hyx : y = x
    · rw [hyx, Substitution.get_hide_self, Substitution.get_hide_self]
    · rw [Substitution.get_hide_of_ne σ hyx, Substitution.get_hide_of_ne τ hyx]
      exact h y (mem_freeVars_quant.mpr ⟨hy, hyx⟩)
  | term t => rfl

theorem descend_substitute {f : Formula} (hf : f.wellFormed) (σ : Substitution) :
    descend .everywhere (fun g results σ => substituteNode σ g results)
      (fun g σ => pure (hideBound σ g)) σ f = .ok (f.replace σ) := by
  induction f generalizing σ with
  | atom a =>
    rw [descend_atom, substituteNode, Atom.substitute_eq hf]
    rfl
  | not f ih =>
    rw [descend_not, pure_bind, ih hf]
    rfl
  | binary c l r ihl ihr =>
    simp only [wellFormed, Bool.and_eq_true] at hf
    rw [descend_binary, pure_bind, ihl hf.1, ihr hf.2]
    rfl
  | quant q x f ih =>
    rw [descend_quant, pure_bind, ih hf]
    rfl
  | term t => simp [wellFormed] at hf

theorem substitute_eq {f : Formula} (hf : f.wellFormed) (σ : Substitution) :
    f.substitute σ = .ok (f.replace σ) := by
  unfold substitute
  split
  · rename_i hσ
    rw [List.isEmpty_iff.mp hσ, replace_nil]
  · rw [walk_eq_descend, descend_substitute hf]

theorem Matrix.replace {f : Formula} (hf : f.Matrix) (σ : Substitution) : (f.replace σ).Matrix := by
  induction hf with
  | atom a => exact .atom _
  | negated a => exact .negated _
  | binary hc _ _ ihl ihr => exact .binary hc ihl ihr

theorem QuantifierFree.replace {f : Formula} (hf : f.QuantifierFree) (σ : Substitution) :
    (f.replace σ).QuantifierFree := by
  induction hf with
  | atom a => exact .atom _
  | not _ ih => exact .not ih
  | binary c _ _ ihl ihr => exact .binary c ihl ihr

theorem QuantifierFree.atoms_replace {f : Formula} (hf : f.QuantifierFree) (σ : Substitution) :
    (f.replace σ).atoms = f.atoms.map (Atom.replace σ) := by
  induction hf with
  | atom a => rfl
  | not _ ih => exact ih
  | binary c _ _ ihl ihr => simp only [Formula.replace, atoms, ihl, ihr, List.map_append]

theorem QuantifierFree.wellFormed_replace {f : Formula} (hf : f.QuantifierFree) {σ : Substitution}
    (hσ : ∀ x, (σ.get x).wellFormed) (h : f.wellFormed) : (f.replace σ).wellFormed := by
  rw [(hf.replace σ).wellFormed_iff, hf.atoms_replace]
  intro b hb
  obtain ⟨a, ha, rfl⟩ := List.mem_map.mp hb
  rw [a.wellFormed_replace hσ]
  exact atom_wellFormed_of_wellFormed h a ha

theorem QuantifierFree.mem_functions_replace {f : Formula} (hf : f.QuantifierFree)
    {σ : Substitution} {g : String} (hg : g ∈ (f.replace σ).functions) :
    g ∈ f.functions ∨ ∃ x, g ∈ (σ.get x).functions := by
  rw [functions, hf.atoms_replace] at hg
  obtain ⟨b, hb, hg⟩ := List.mem_flatMap.mp hg
  obtain ⟨a, ha, rfl⟩ := List.mem_map.mp hb
  exact (Atom.mem_functions_replace hg).imp (fun h => List.mem_flatMap.mpr ⟨a, ha, h⟩) id

theorem QuantifierFree.mem_freeVars_replace {f : Formula} (hf : f.QuantifierFree)
    {σ : Substitution} {y : String} :
    y ∈ (f.replace σ).freeVars ↔ ∃ x ∈ f.freeVars, y ∈ (σ.get x).vars := by
  rw [(hf.replace σ).mem_freeVars, hf.atoms_replace]
  simp only [List.mem_map, exists_exists_and_eq_and, Atom.mem_vars_replace, hf.mem_freeVars]
  constructor
  · rintro ⟨a, ha, x, hx, hy⟩
    exact ⟨x, ⟨a, ha, hx⟩, hy⟩
  · rintro ⟨x, ⟨a, ha, hx⟩, hy⟩
    exact ⟨a, ha, x, hx, hy⟩

end Formula

section
variable {D : Type*} [Nonempty D] (M : Interpretation D)

/-- What the variables stand for once terms are put in for them. -/
noncomputable def Substitution.values (σ : Substitution) (ρ : Assignment D) : Assignment D :=
  fun x => (σ.get x).value M ρ

theorem Substitution.values_nil (ρ : Assignment D) : values M [] ρ = ρ := by
  funext x
  simp [values, Term.value]

theorem Substitution.values_cons (σ : Substitution) (ρ : Assignment D) (x : String) (t : Term) :
    values M ((x, t) :: σ) ρ = Function.update (σ.values M ρ) x (t.value M ρ) := by
  funext y
  by_cases hy : y = x
  · rw [hy, Function.update_self, values, get_cons_self]
  · rw [Function.update_of_ne hy, values, get_cons_of_ne σ t hy, values]

/-- The value of a term after a substitution is its value where the terms put in have theirs. -/
theorem Term.value_replace (σ : Substitution) (ρ : Assignment D) (t : Term) :
    (t.replace σ).value M ρ = t.value M (σ.values M ρ) := by
  induction t with
  | var x => simp [replace, value, Substitution.values]
  | app f ts ih =>
    rw [replace, replaceAll_eq_map, value, value, List.map_map]
    exact congrArg _ (List.map_congr_left ih)
  | stray p ts => simp [replace, value]

theorem Atom.holds_replace (σ : Substitution) (ρ : Assignment D) (a : Atom) :
    (a.replace σ).holds M ρ ↔ a.holds M (σ.values M ρ) := by
  have hts : a.args.map (Term.value M ρ ∘ Term.replace σ) =
      a.args.map (Term.value M (σ.values M ρ)) :=
    List.map_congr_left fun t _ => t.value_replace M σ ρ
  rw [holds, holds, replace, List.map_map, hts]

end

end Clausification

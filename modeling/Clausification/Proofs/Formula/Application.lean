import Clausification.Proofs.Clause.Groups
import Clausification.Proofs.Substitution

/-!
# Where function symbols are applied

Every place in a term where a function symbol stands, with the arguments that it has there. Terms put
in for the variables of a term bring their own applications and change the arguments of the others.
-/

namespace Clausification

/-- The function symbols in a term, each with its arguments, outermost first. -/
def Term.applications : Term → List (String × List Term)
  | .app f ts => (f, ts) :: ts.flatMap applications
  | .var _ | .stray .. => []

def Atom.applications (a : Atom) : List (String × List Term) := a.args.flatMap Term.applications

def Formula.applications (f : Formula) : List (String × List Term) :=
  f.atoms.flatMap Atom.applications

def Clause.applications (c : Clause) : List (String × List Term) :=
  c.flatMap (·.atom.applications)

variable {σ : Substitution} {p : String × List Term}

theorem Term.applications_app_map_var (g : String) (xs : List String) :
    (Term.app g (xs.map .var)).applications = [(g, xs.map .var)] := by
  simp [applications, List.flatMap_map]

/-- A symbol in a term after a substitution was there before, or has come with the term for a
variable. -/
theorem Term.mem_applications_replace {t : Term} (hp : p ∈ (t.replace σ).applications) :
    p.1 ∈ t.functions ∨ ∃ x ∈ t.vars, p ∈ (σ.get x).applications := by
  induction t with
  | var x => exact Or.inr ⟨x, List.mem_singleton_self x, hp⟩
  | app f ts ih =>
    simp only [replace, replaceAll_eq_map, applications, List.mem_cons, List.flatMap_map,
      List.mem_flatMap] at hp
    simp only [functions, functionsOfAll_eq_flatMap, vars, varsOfAll_eq_flatMap, List.mem_cons,
      List.mem_flatMap]
    rcases hp with rfl | ⟨t, ht, hp⟩
    · exact Or.inl (Or.inl rfl)
    · rcases ih t ht hp with h | ⟨x, hx, h⟩
      · exact Or.inl (Or.inr ⟨t, ht, h⟩)
      · exact Or.inr ⟨x, ⟨t, ht, hx⟩, h⟩
  | stray q ts => simp [replace, applications] at hp

theorem Atom.mem_applications_replace {a : Atom} (hp : p ∈ (a.replace σ).applications) :
    p.1 ∈ a.functions ∨ ∃ x ∈ a.vars, p ∈ (σ.get x).applications := by
  simp only [applications, replace, List.flatMap_map, List.mem_flatMap] at hp
  simp only [functions, vars, List.mem_flatMap]
  obtain ⟨t, ht, hp⟩ := hp
  rcases Term.mem_applications_replace hp with h | ⟨x, hx, h⟩
  · exact Or.inl ⟨t, ht, h⟩
  · exact Or.inr ⟨x, ⟨t, ht, hx⟩, h⟩

namespace Formula
variable {f : Formula}

theorem QuantifierFree.mem_applications_replace (hf : f.QuantifierFree)
    (hp : p ∈ (f.replace σ).applications) :
    p.1 ∈ f.functions ∨ ∃ x ∈ f.freeVars, p ∈ (σ.get x).applications := by
  rw [applications, hf.atoms_replace, List.flatMap_map] at hp
  obtain ⟨a, ha, hp⟩ := List.mem_flatMap.mp hp
  rcases Atom.mem_applications_replace hp with h | ⟨x, hx, h⟩
  · exact Or.inl (List.mem_flatMap.mpr ⟨a, ha, h⟩)
  · exact Or.inr ⟨x, hf.mem_freeVars.mpr ⟨a, ha, hx⟩, h⟩

theorem applications_subset_of_atoms_subset {g : Formula} (h : g.atoms ⊆ f.atoms) :
    g.applications ⊆ f.applications := by
  intro p hp
  obtain ⟨a, ha, hp⟩ := List.mem_flatMap.mp hp
  exact List.mem_flatMap.mpr ⟨a, h ha, hp⟩

theorem applications_subset_of_mem_groups (hf : f.Matrix) {outer : Connective} {c : Clause}
    (hc : c ∈ f.groups outer) : c.applications ⊆ f.applications := by
  intro p hp
  obtain ⟨l, hl, hp⟩ := List.mem_flatMap.mp hp
  exact List.mem_flatMap.mpr ⟨l.atom, atom_mem_of_mem_groups hf hc hl, hp⟩

end Formula

end Clausification

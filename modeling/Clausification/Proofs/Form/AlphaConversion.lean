import Clausification.Proofs.Form.Renamed
import Clausification.Proofs.Formula.Alpha

/-!
# Renaming is alpha-conversion

The renamed form differs from the formula in the names of its bound variables only, so it is true
where the formula is and has the same free variables. The invariant of the recursion: each variable
that is free at a node goes together with its new name, and that name is taken, so no binder further
down can capture it.
-/

namespace Clausification

universe u

section
variable {p : Pairing} {σ : Substitution}

theorem Term.allAlike_map {k : Term → Term} {ts : List Term} (h : ∀ t ∈ ts, t.alike p (k t)) :
    Term.allAlike p ts (ts.map k) := by
  induction ts with
  | nil => rfl
  | cons t ts ih =>
    obtain ⟨ht, hts⟩ := List.forall_mem_cons.mp h
    rw [List.map_cons, allAlike, Bool.and_eq_true]
    exact ⟨ht, ih hts⟩

theorem Term.alike_replace (hσ : σ.IsRenaming) {t : Term}
    (h : ∀ x ∈ t.vars, p.relates x (σ.get x).name) : t.alike p (t.replace σ) := by
  induction t with
  | var x =>
    rw [replace, hσ x]
    exact h x (List.mem_singleton_self x)
  | app f ts ih =>
    simp only [vars, varsOfAll_eq_flatMap, List.mem_flatMap] at h
    rw [replace, replaceAll_eq_map, alike_app]
    exact ⟨rfl, allAlike_map fun t ht => ih t ht fun x hx => h x ⟨t, ht, hx⟩⟩
  | stray q ts => simp [replace, alike]

theorem Atom.alike_replace (hσ : σ.IsRenaming) {a : Atom}
    (h : ∀ x ∈ a.vars, p.relates x (σ.get x).name) : a.alike p (a.replace σ) :=
  Atom.alike_iff.mpr ⟨rfl, Term.allAlike_map fun t ht => Term.alike_replace hσ fun x hx =>
    h x (List.mem_flatMap.mpr ⟨t, ht, hx⟩)⟩

end

namespace Formula

section
variable {p : Pairing} {σ : Substitution} {names : Names}

/-- If all names behind a quantifier are taken, they are so below it. -/
theorem name_mem_taken_freshVariable {q : Quantifier} {x : String} {f : Formula}
    (hf : ∀ y ∈ (quant q x f).freeVars, (σ.get y).name ∈ names.taken) {z : String}
    (hz : z ∈ f.freeVars) : (Substitution.get ((x, .var (names.freshVariable x).1) :: σ) z).name ∈
      (names.freshVariable x).2.taken := by
  by_cases hzx : z = x
  · rw [hzx, Substitution.get_cons_self]
    exact List.mem_cons_self
  · rw [Substitution.get_cons_of_ne σ _ hzx]
    exact List.mem_cons_of_mem _ (hf z (mem_freeVars_quant.mpr ⟨hz, hzx⟩))

theorem alike_renamedWith (hσ : σ.IsRenaming) {f : Formula}
    (hf : ∀ x ∈ f.freeVars, (σ.get x).name ∈ names.taken)
    (hp : ∀ x ∈ f.freeVars, p.relates x (σ.get x).name) : Alike p f (f.renamedWith σ names).1 := by
  induction f generalizing σ names p with
  | atom a => exact .atom (Atom.alike_replace hσ hp)
  | not f ih => exact .not (ih hσ hf hp)
  | binary c l r ihl ihr =>
    simp only [freeVars, List.mem_append] at hf hp
    exact .binary c (ihl hσ (fun x hx => hf x (Or.inl hx)) fun x hx => hp x (Or.inl hx))
      (ihr hσ (fun x hx => l.taken_subset_renamedWith σ names (hf x (Or.inr hx)))
        fun x hx => hp x (Or.inr hx))
  | quant q x f ih =>
    have hfresh := names.freshVariable_not_mem x
    refine .quant q x _ (ih (hσ.cons x _) (fun z hz => name_mem_taken_freshVariable hf hz)
      fun z hz => Pairing.relates_cons.mpr ?_)
    by_cases hzx : z = x
    · rw [hzx, Substitution.get_cons_self]
      exact Or.inl ⟨rfl, rfl⟩
    · have hzfree : z ∈ (quant q x f).freeVars := mem_freeVars_quant.mpr ⟨hz, hzx⟩
      rw [Substitution.get_cons_of_ne σ _ hzx]
      exact Or.inr ⟨hzx, fun he => hfresh (he ▸ hf z hzfree), hp z hzfree⟩
  | term t => exact .term t

end

theorem alphaEquivalent_renamedWith {f : Formula} {names : Names} (hf : f.freeVars ⊆ names.taken) :
    f.AlphaEquivalent (f.renamedWith [] names).1 :=
  alike_renamedWith Substitution.isRenaming_nil hf fun _ _ => Pairing.relates_nil.mpr rfl

/-- Where the free variables of a formula are taken, renaming changes nothing but the names of its
bound variables. The new ones differ from each other and from all names taken before: they are the
names drawn for the old ones, from the outermost on and from left to right. -/
theorem rename_alphaConverts (f : Formula) (names : Names) (hf : f.wellFormed)
    (hfree : f.freeVars ⊆ names.taken) :
    ∃ g names', f.rename.run.run names = (.ok g, names') ∧ f.AlphaEquivalent g ∧
      (∀ (D : Type u) [Nonempty D] (M : Interpretation D) (ρ : Assignment D),
        g.holds M ρ ↔ f.holds M ρ) ∧
      g.binders.Nodup ∧ (∀ x ∈ g.binders, x ∉ names.taken) ∧
      (∀ x, x ∈ g.freeVars ↔ x ∈ f.freeVars) ∧
      names.freshVariables f.binders = (g.binders, names') := by
  have halpha := alphaEquivalent_renamedWith hfree
  obtain ⟨hnodup, hfresh⟩ := f.binders_renamedWith [] names
  refine ⟨(f.renamedWith [] names).1, (f.renamedWith [] names).2, rename_eq hf names, halpha, ?_,
    hnodup, hfresh, fun x => halpha.mem_freeVars_iff, f.freshVariables_binders [] names⟩
  intro D _ M ρ
  exact (halpha.holds_iff M ρ).symm

/-- The counter starts below zero, and a name that is drawn has the look of another binder. -/
theorem rename_alphaConverts_of_generated_look :
    let f : Formula :=
      .all "x_1" (.implies (.ex "x" (.atom ⟨"R", [.var "x", .var "x_1", .var "z"]⟩))
        (.ex "x" (.all "x" (.atom ⟨"Q", [.app "c" [], .var "x", .var "z"]⟩))))
    let names : Names := { taken := ["z"], renamed := -1 }
    f.wellFormed ∧ f.freeVars ⊆ names.taken ∧
      ∃ g names', f.rename.run.run names = (.ok g, names') ∧ f.AlphaEquivalent g ∧
        g.binders = ["x_1_0", "x_1", "x_2", "x_3"] ∧ g.binders.Nodup ∧
        ∀ x, x ∈ g.freeVars ↔ x ∈ f.freeVars := by
  intro f names
  have hfree : f.freeVars ⊆ names.taken := by decide
  obtain ⟨g, names', hrun, halpha, -, hnodup, -, hvars, hdrawn⟩ :=
    rename_alphaConverts.{0} f names rfl hfree
  have hbinders : (names.freshVariables f.binders).1 = ["x_1_0", "x_1", "x_2", "x_3"] := by
    decide +kernel
  rw [hdrawn] at hbinders
  exact ⟨rfl, hfree, g, names', hrun, halpha, hbinders, hnodup, hvars⟩

end Formula

end Clausification

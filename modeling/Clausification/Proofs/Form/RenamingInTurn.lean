import Clausification.Proofs.Form.Renamed
import Clausification.Proofs.Formula.Occurrence

/-!
# Renaming one binder after the other

Renaming said by substitution: a binder draws a fresh name, the name is put in for the variable where
it is free in the body, and then the binders of that body are renamed. The pass keeps what is to be put
in until it meets the atoms instead, and does it all at once. Both come to the same as long as no name
that was put in is the name of a binder further down, which would be taken for an occurrence of its own.
-/

namespace Clausification

namespace Substitution
variable {σ : Substitution} {x : String}

/-- What is put in for other variables is free of `x`. -/
def Spares (σ : Substitution) (x : String) : Prop := ∀ y, y ≠ x → x ∉ (σ.get y).vars

theorem Spares.hide (h : σ.Spares x) (z : String) : (σ.hide z).Spares x := by
  intro y hy
  by_cases hyz : y = z
  · rw [hyz, get_hide_self]
    exact fun hmem => hy (hyz.trans (List.mem_singleton.mp hmem).symm)
  · rw [get_hide_of_ne σ hyz]
    exact h y hy

theorem spares_nil (x : String) : Spares [] x :=
  fun _ hy hmem => hy (List.mem_singleton.mp hmem).symm

theorem Spares.cons {t : Term} (h : σ.Spares x) (ht : x ∉ t.vars) (z : String) :
    Spares ((z, t) :: σ) x := by
  intro y hy
  by_cases hyz : y = z
  · rw [hyz, get_cons_self]
    exact ht
  · rw [get_cons_of_ne σ t hyz]
    exact h y hy

end Substitution

section
variable {σ : Substitution} {x : String} {u : Term}

theorem Term.replace_of_not_mem_vars {t : Term} (h : x ∉ t.vars) : t.replace [(x, u)] = t := by
  have hget : ∀ y ∈ t.vars, Substitution.get [(x, u)] y = Substitution.get [] y := fun y hy =>
    Substitution.get_cons_of_ne [] u fun he => h (he ▸ hy)
  rw [replace_congr hget, replace_nil]

theorem Term.replace_replace (hσ : σ.Spares x) (t : Term) :
    (t.replace (σ.hide x)).replace [(x, u)] = t.replace ((x, u) :: σ) := by
  induction t with
  | var y =>
    rw [replace, replace]
    by_cases hy : y = x
    · rw [hy, σ.get_hide_self, replace, Substitution.get_cons_self, Substitution.get_cons_self]
    · rw [σ.get_hide_of_ne hy, replace_of_not_mem_vars (hσ y hy), Substitution.get_cons_of_ne σ u hy]
  | app f ts ih =>
    simp only [replace, replaceAll_eq_map, List.map_map]
    exact congrArg (app f) (List.map_congr_left ih)
  | stray p ts => rfl

theorem Atom.replace_replace (hσ : σ.Spares x) (a : Atom) :
    (a.replace (σ.hide x)).replace [(x, u)] = a.replace ((x, u) :: σ) := by
  simp only [replace, List.map_map]
  exact congrArg (Atom.mk a.predicate) (List.map_congr_left fun t _ => Term.replace_replace hσ t)

/-- A substitution that leaves `x` alone, followed by one for `x`, is one substitution. A quantifier
hides its variable from both of them. -/
theorem Formula.replace_replace (hσ : σ.Spares x) (f : Formula) :
    (f.replace (σ.hide x)).replace [(x, u)] = f.replace ((x, u) :: σ) := by
  induction f generalizing σ with
  | atom a => exact congrArg Formula.atom (Atom.replace_replace hσ a)
  | not f ih => exact congrArg Formula.not (ih hσ)
  | binary c l r ihl ihr => exact congrArg₂ (Formula.binary c) (ihl hσ) (ihr hσ)
  | quant q z f ih =>
    simp only [replace, quant.injEq, true_and]
    by_cases hz : x = z
    · subst hz
      rw [σ.hide_hide_self, Substitution.hide_cons_self, Substitution.hide_cons_self,
        Substitution.hide_nil, replace_nil]
    · rw [σ.hide_comm, Substitution.hide_cons_of_ne [] u hz, Substitution.hide_cons_of_ne σ u hz,
        Substitution.hide_nil, ih (hσ.hide z)]
  | term t => rfl

end

namespace Formula

theorem size_replace (f : Formula) (σ : Substitution) : (f.replace σ).size = f.size := by
  induction f generalizing σ with
  | atom a => rfl
  | not f ih => rw [replace, size, size, ih]
  | binary c l r ihl ihr => rw [replace, size, size, ihl, ihr]
  | quant q x f ih => rw [replace, size, size, ih]
  | term t => rfl

/-- Every binder of a formula renamed in its turn, and the names left behind it. -/
def renamedInTurn : Formula → Names → Formula × Names
  | .atom a, names => (.atom a, names)
  | .not f, names =>
    let g := f.renamedInTurn names
    (.not g.1, g.2)
  | .binary c l r, names =>
    let left := l.renamedInTurn names
    let right := r.renamedInTurn left.2
    (.binary c left.1 right.1, right.2)
  | .quant q x f, names =>
    let fresh := names.freshVariable x
    let body := (f.replace [(x, .var fresh.1)]).renamedInTurn fresh.2
    (.quant q fresh.1 body.1, body.2)
  | .term t, names => (.term t, names)
termination_by f => f.size
decreasing_by all_goals simp only [size_replace, size]; omega

/-- What has been put in above a formula makes no difference to the order of things, provided that no
binder of the formula has one of the names that were put in. -/
theorem renamedInTurn_replace {σ : Substitution} {names : Names} {f : Formula}
    (htaken : f.binders ⊆ names.taken) (hσ : ∀ x ∈ f.binders, σ.Spares x) :
    (f.replace σ).renamedInTurn names = f.renamedWith σ names := by
  induction f generalizing σ names with
  | atom a => rw [replace, renamedInTurn, renamedWith]
  | not f ih => rw [replace, renamedInTurn, renamedWith, ih htaken hσ]
  | binary c l r ihl ihr =>
    obtain ⟨hl, hr⟩ := List.append_subset.mp htaken
    obtain ⟨hσl, hσr⟩ := List.forall_mem_append.mp hσ
    have hr' : r.binders ⊆ (l.renamedWith σ names).2.taken :=
      List.Subset.trans hr (l.taken_subset_renamedWith σ names)
    rw [replace, renamedInTurn, renamedWith, ihl hl hσl, ihr hr' hσr]
  | quant q x f ih =>
    obtain ⟨hx, hbody⟩ := List.cons_subset.mp htaken
    obtain ⟨hσx, hσbody⟩ := List.forall_mem_cons.mp hσ
    have hfresh := names.freshVariable_not_mem x
    have htaken' : f.binders ⊆ (names.freshVariable x).2.taken :=
      fun y hy => List.mem_cons_of_mem _ (hbody hy)
    have hσ' : ∀ y ∈ f.binders, Substitution.Spares ((x, .var (names.freshVariable x).1) :: σ) y := by
      intro y hy
      refine (hσbody y hy).cons (fun h => hfresh ?_) x
      rw [← List.mem_singleton.mp h]
      exact hbody hy
    rw [replace, renamedInTurn, renamedWith, replace_replace hσx, ih htaken' hσ']
  | term t => rw [replace, renamedInTurn, renamedWith]

/-- Where all names of a formula are taken, the pass renames it as if one binder was renamed after the
other, and leaves the same names behind. -/
theorem rename_eq_renamedInTurn (f : Formula) (names : Names) (hf : f.wellFormed)
    (htaken : f.symbols ⊆ names.taken) :
    f.rename.run.run names = (.ok (f.renamedInTurn names).1, (f.renamedInTurn names).2) := by
  have hturn := renamedInTurn_replace (σ := []) (List.Subset.trans f.binders_subset_symbols htaken)
    fun x _ => Substitution.spares_nil x
  rw [replace_nil] at hturn
  rw [rename_eq hf, hturn]

/-- A name that is drawn for the outer binder has the look of a name written below it, and an inner
binder hides the outer one. -/
theorem rename_eq_renamedInTurn_of_generated_look :
    let f : Formula :=
      .all "x" (.iff (.ex "x" (.atom ⟨"R", [.var "x", .var "x_1"]⟩))
        (.all "x_2" (.atom ⟨"Q", [.app "c" [.var "x"], .var "x_2"]⟩)))
    let names : Names := { taken := f.symbols, skolems := 7 }
    f.wellFormed ∧ f.symbols ⊆ names.taken ∧
      f.rename.run.run names = (.ok (f.renamedInTurn names).1, (f.renamedInTurn names).2) ∧
      (f.renamedInTurn names).1 =
        .all "x_3" (.iff (.ex "x_4" (.atom ⟨"R", [.var "x_4", .var "x_1"]⟩))
          (.all "x_2_5" (.atom ⟨"Q", [.app "c" [.var "x_3"], .var "x_2_5"]⟩))) := by
  intro f names
  have htaken : f.symbols ⊆ names.taken := List.Subset.refl _
  exact ⟨rfl, htaken, rename_eq_renamedInTurn f names rfl htaken, by decide +kernel⟩

end Formula

end Clausification

import Clausification.Form.Renamed
import Clausification.Proofs.Names
import Clausification.Proofs.Result
import Clausification.Proofs.Substitution

/-!
# The renamed form

On a well-formed formula the pass does not stop, and it is a recursion that hands on the source of
names. What it does to the source is what drawing one name after the other for the binders does: this
says which names are taken behind it, and that all binders of the result are new.
-/

namespace Clausification

namespace Formula

/-- The renamed form of a well-formed formula, and the names left behind it. -/
def renamedWith (σ : Substitution) : Formula → Names → Formula × Names
  | .atom a, names => (.atom (a.replace σ), names)
  | .not f, names => (.not (f.renamedWith σ names).1, (f.renamedWith σ names).2)
  | .binary c l r, names =>
    (.binary c (l.renamedWith σ names).1 (r.renamedWith σ (l.renamedWith σ names).2).1,
      (r.renamedWith σ (l.renamedWith σ names).2).2)
  | .quant q x f, names =>
    let fresh := names.freshVariable x
    let body := f.renamedWith ((x, .var fresh.1) :: σ) fresh.2
    (.quant q fresh.1 body.1, body.2)
  | .term t, names => (.term t, names)

theorem enterBinder_not (f : Formula) (σ : Substitution) (names : Names) :
    (enterBinder (.not f) σ).run.run names = (.ok σ, names) := rfl

theorem enterBinder_binary (c : Connective) (l r : Formula) (σ : Substitution) (names : Names) :
    (enterBinder (.binary c l r) σ).run.run names = (.ok σ, names) := rfl

theorem enterBinder_quant (q : Quantifier) (x : String) (f : Formula) (σ : Substitution)
    (names : Names) : (enterBinder (.quant q x f) σ).run.run names =
      (.ok ((x, .var (names.freshVariable x).1) :: σ), (names.freshVariable x).2) := rfl

theorem descend_rename {f : Formula} (hf : f.wellFormed) (σ : Substitution) (names : Names) :
    (descend .everywhere renamedNode enterBinder σ f).run.run names =
      (.ok (f.renamedWith σ names).1, (f.renamedWith σ names).2) := by
  induction f generalizing σ names with
  | atom a =>
    rw [descend_atom]
    simp only [renamedNode, renamedWith, Atom.substitute_eq hf]
    rfl
  | not f ih =>
    rw [descend_not, run_bind (enterBinder_not f σ names), run_bind (ih hf σ names)]
    rfl
  | binary c l r ihl ihr =>
    simp only [wellFormed, Bool.and_eq_true] at hf
    rw [descend_binary, run_bind (enterBinder_binary c l r σ names),
      run_bind (ihl hf.1 σ names), run_bind (ihr hf.2 σ _)]
    rfl
  | quant q x f ih =>
    rw [descend_quant, run_bind (enterBinder_quant q x f σ names),
      run_bind (ih hf _ _)]
    simp only [renamedNode, renamedWith, Substitution.get_cons_self]
    rfl
  | term t => simp [wellFormed] at hf

theorem rename_eq {f : Formula} (hf : f.wellFormed) (names : Names) :
    f.rename.run.run names = (.ok (f.renamedWith [] names).1, (f.renamedWith [] names).2) := by
  rw [rename, walk_eq_descend, descend_rename hf]

theorem negationNormal_renamedWith {f : Formula} (hf : f.NegationNormal) (σ : Substitution)
    (names : Names) : (f.renamedWith σ names).1.NegationNormal := by
  induction hf generalizing σ names with
  | atom a => exact .atom _
  | negated a => exact .negated _
  | binary hc _ _ ihl ihr => exact .binary hc (ihl _ _) (ihr _ _)
  | quant q x _ ih => exact .quant q _ (ih _ _)

theorem QuantifierFree.renamedWith_eq {f : Formula} (hf : f.QuantifierFree) (σ : Substitution)
    (names : Names) : f.renamedWith σ names = (f.replace σ, names) := by
  induction hf generalizing names with
  | atom a => rfl
  | not _ ih =>
    rw [renamedWith, ih]
    rfl
  | binary c _ _ ihl ihr =>
    rw [renamedWith, ihl, ihr]
    rfl

theorem QuantifierFree.renamedWith_nil {f : Formula} (hf : f.QuantifierFree) (names : Names) :
    f.renamedWith [] names = (f, names) := by
  rw [hf.renamedWith_eq, f.replace_nil]

/-- The binders get the names that are drawn for them one after the other, and no more are drawn. -/
theorem freshVariables_binders (f : Formula) (σ : Substitution) (names : Names) :
    names.freshVariables f.binders =
      ((f.renamedWith σ names).1.binders, (f.renamedWith σ names).2) := by
  induction f generalizing σ names with
  | atom a => rfl
  | not f ih => exact ih σ names
  | binary c l r ihl ihr => rw [binders, Names.freshVariables_append, ihl σ, ihr σ]; rfl
  | quant q x f ih => rw [binders, Names.freshVariables, ih]; rfl
  | term t => rfl

section
variable (f : Formula) (σ : Substitution) (names : Names)

theorem length_binders_renamedWith :
    (f.renamedWith σ names).1.binders.length = f.binders.length := by
  simpa only [freshVariables_binders f σ] using names.length_freshVariables f.binders

theorem taken_renamedWith : (f.renamedWith σ names).2.taken =
    (f.renamedWith σ names).1.binders.reverse ++ names.taken := by
  simpa only [freshVariables_binders f σ] using names.taken_freshVariables f.binders

theorem binders_renamedWith : (f.renamedWith σ names).1.binders.Nodup ∧
    ∀ y ∈ (f.renamedWith σ names).1.binders, y ∉ names.taken := by
  simpa only [freshVariables_binders f σ] using names.freshVariables_fresh f.binders

theorem skolems_renamedWith : (f.renamedWith σ names).2.skolems = names.skolems := by
  simpa only [freshVariables_binders f σ] using names.skolems_freshVariables f.binders

theorem renamed_le_renamedWith : names.renamed ≤ (f.renamedWith σ names).2.renamed := by
  simpa only [freshVariables_binders f σ] using names.renamed_le_freshVariables f.binders

theorem taken_subset_renamedWith : names.taken ⊆ (f.renamedWith σ names).2.taken := by
  rw [taken_renamedWith]
  exact fun x hx => List.mem_append_right _ hx

end

/-- Which names are taken decides the names that are drawn. -/
theorem renamedWith_congr {m n : Names} (h : m.Same n) (f : Formula) (σ : Substitution) :
    (f.renamedWith σ m).1 = (f.renamedWith σ n).1 ∧
      (f.renamedWith σ m).2.Same (f.renamedWith σ n).2 := by
  induction f generalizing σ m n with
  | atom a => exact ⟨rfl, h⟩
  | not f ih => exact ⟨congrArg Formula.not (ih h σ).1, (ih h σ).2⟩
  | binary c l r ihl ihr =>
    obtain ⟨hl, hnames⟩ := ihl h σ
    obtain ⟨hr, hnames⟩ := ihr hnames σ
    exact ⟨congrArg₂ (Formula.binary c) hl hr, hnames⟩
  | quant q x f ih =>
    obtain ⟨hname, hnames⟩ := h.freshVariable x
    simp only [renamedWith, hname]
    obtain ⟨hbody, hnames⟩ := ih hnames ((x, .var (n.freshVariable x).1) :: σ)
    exact ⟨congrArg (Formula.quant q _) hbody, hnames⟩
  | term t => exact ⟨rfl, h⟩

theorem wellFormed_renamedWith {σ : Substitution} {names : Names} (hσ : σ.IsRenaming) {f : Formula}
    (hf : f.wellFormed) : (f.renamedWith σ names).1.wellFormed := by
  induction f generalizing σ names with
  | atom a =>
    have hget : ∀ x, (σ.get x).wellFormed := fun x => by rw [hσ x]; rfl
    rw [renamedWith, wellFormed, a.wellFormed_replace hget]
    exact hf
  | not f ih => exact ih hσ hf
  | binary c l r ihl ihr =>
    simp only [wellFormed, Bool.and_eq_true] at hf
    simp only [renamedWith, wellFormed, Bool.and_eq_true]
    exact ⟨ihl hσ hf.1, ihr hσ hf.2⟩
  | quant q x f ih => exact ih (hσ.cons x _) hf
  | term t => simp [wellFormed] at hf

end Formula

end Clausification

import Clausification.Proofs.Formula.Occurrence
import Clausification.Proofs.Token.Scan

/-!
# Plain formulas

The formulas that can be written down as they are: all terms are variables, and all names are read
as names.
-/

namespace Clausification

namespace Atom

/-- A name applied to names. -/
def IsPlain (a : Atom) : Prop := isName a.predicate ∧ ∀ t ∈ a.args, ∃ x, t = .var x ∧ isName x

instance (t : Term) : Decidable (∃ x, t = .var x ∧ isName x) :=
  match t with
  | .var x => decidable_of_iff (isName x) (by simp)
  | .app .. | .stray .. => isFalse (by simp)

instance (a : Atom) : Decidable a.IsPlain :=
  inferInstanceAs (Decidable (isName a.predicate ∧ ∀ t ∈ a.args, ∃ x, t = .var x ∧ isName x))

theorem IsPlain.exists_args {a : Atom} (ha : a.IsPlain) :
    ∃ xs : List String, a.args = xs.map .var ∧ ∀ x ∈ xs, isName x := by
  obtain ⟨p, ts⟩ := a
  obtain ⟨-, hts⟩ := ha
  induction ts with
  | nil => exact ⟨[], rfl, fun _ h => nomatch h⟩
  | cons t ts ih =>
    obtain ⟨x, rfl, hx⟩ := hts t List.mem_cons_self
    obtain ⟨xs, hxs, hnames⟩ := ih fun t ht => hts t (List.mem_cons_of_mem _ ht)
    exact ⟨x :: xs, congrArg (.var x :: ·) hxs, List.forall_mem_cons.mpr ⟨hx, hnames⟩⟩

theorem IsPlain.wellFormed {a : Atom} (ha : a.IsPlain) : a.wellFormed := by
  obtain ⟨xs, hxs, -⟩ := ha.exists_args
  simp [Atom.wellFormed, Term.allWellFormed_eq_all, hxs, Term.wellFormed]

theorem IsPlain.functions_eq_nil {a : Atom} (ha : a.IsPlain) : a.functions = [] := by
  obtain ⟨xs, hxs, -⟩ := ha.exists_args
  simp [Atom.functions, hxs, Term.functions]

end Atom

namespace Formula

/-- All terms are variables, and all names are read as names. -/
def IsPlain : Formula → Prop
  | .atom a => a.IsPlain
  | .not f => f.IsPlain
  | .binary _ l r => l.IsPlain ∧ r.IsPlain
  | .quant _ x f => isName x ∧ f.IsPlain
  | .term _ => False

instance decidableIsPlain : (f : Formula) → Decidable f.IsPlain
  | .atom a => inferInstanceAs (Decidable a.IsPlain)
  | .not f => decidableIsPlain f
  | .binary _ l r => @instDecidableAnd l.IsPlain r.IsPlain (decidableIsPlain l) (decidableIsPlain r)
  | .quant _ x f => @instDecidableAnd (isName x) f.IsPlain _ (decidableIsPlain f)
  | .term _ => instDecidableFalse

theorem IsPlain.wellFormed {f : Formula} (hf : f.IsPlain) : f.wellFormed := by
  induction f with
  | atom a => exact Atom.IsPlain.wellFormed hf
  | not f ih => exact ih hf
  | binary c l r ihl ihr => rw [Formula.wellFormed, ihl hf.1, ihr hf.2, Bool.and_self]
  | quant q x f ih => exact ih hf.2
  | term t => exact hf.elim

theorem IsPlain.functions_eq_nil {f : Formula} (hf : f.IsPlain) : f.functions = [] := by
  induction f with
  | atom a => simpa [functions, atoms] using Atom.IsPlain.functions_eq_nil hf
  | not f ih => exact ih hf
  | binary c l r ihl ihr =>
    have hl := ihl hf.1
    have hr := ihr hf.2
    simp only [functions, atoms, List.flatMap_append] at hl hr ⊢
    rw [hl, hr, List.append_nil]
  | quant q x f ih => exact ih hf.2
  | term t => exact hf.elim

end Formula

end Clausification

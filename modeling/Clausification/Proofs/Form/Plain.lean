import Clausification.Proofs.Derivation.Forms
import Clausification.Proofs.Formula.Plain

/-!
# Forms that can be written down

The forms of a plain formula are plain up to the prenex form: a renamed variable is a name again, for
a number behind an underscore turns a name into a name and never into a keyword.
-/

namespace Clausification

namespace Names

theorem isDigit_of_mem_toString {n : Int} (hn : 0 ≤ n) {c : Char} (hc : c ∈ (toString n).toList) :
    c.isDigit := by
  rw [Int.toString_eq_repr, Int.repr_eq_if, if_pos hn, Nat.toList_repr] at hc
  exact Nat.isDigit_of_mem_toDigits (by decide) (by decide) hc

theorem isWordChar_of_isDigit {c : Char} (hc : c.isDigit) : isWordChar c := by
  simp [isWordChar, Char.isAlphanum, hc]

theorem isIdentifier_append {x : String} (hx : isIdentifier x.toList) {s : String}
    (hs : ∀ c ∈ s.toList, isWordChar c) : isIdentifier (x ++ s).toList := by
  rw [String.toList_append]
  cases hcs : x.toList with
  | nil => simp [hcs, isIdentifier] at hx
  | cons c cs =>
    rw [hcs, isIdentifier, Bool.and_eq_true, List.all_eq_true] at hx
    rw [List.cons_append, isIdentifier, Bool.and_eq_true, List.all_eq_true]
    exact ⟨hx.1, fun d hd => (List.mem_append.mp hd).elim (hx.2 d) (hs d)⟩

theorem isIdentifier_skolemName {base : String} (hbase : isIdentifier base.toList) {n : Int}
    (hn : 0 ≤ n) : isIdentifier (skolemName base n).toList :=
  isIdentifier_append hbase fun _ hc => isWordChar_of_isDigit (isDigit_of_mem_toString hn hc)

theorem isName_variableName {x : String} (hx : isName x) {n : Int} (hn : 0 ≤ n) :
    isName (variableName x n) := by
  rw [isName, Bool.and_eq_true] at hx
  have hmark : isIdentifier (x ++ "_").toList := isIdentifier_append hx.1 (by simp [isWordChar])
  have hkeywords : ∀ w ∈ keywords, '_' ∉ w.toList := by decide
  rw [isName, Bool.and_eq_true, Bool.not_eq_true', List.contains_eq_mem, decide_eq_false_iff_not]
  refine ⟨isIdentifier_append hmark fun _ hc => isWordChar_of_isDigit (isDigit_of_mem_toString hn hc),
    fun hmem => hkeywords _ hmem ?_⟩
  simp [variableName]

end Names

/-- Every name is replaced by a name. -/
def Substitution.IsPlain (σ : Substitution) : Prop :=
  ∀ x, isName x → ∃ y, σ.get x = .var y ∧ isName y

namespace Substitution.IsPlain
variable {σ : Substitution}

theorem nil : Substitution.IsPlain [] := fun x hx => ⟨x, rfl, hx⟩

theorem cons (hσ : σ.IsPlain) (x : String) {y : String} (hy : isName y) :
    Substitution.IsPlain ((x, .var y) :: σ) := by
  intro z hz
  by_cases hzx : z = x
  · exact ⟨y, by rw [hzx, get_cons_self], hy⟩
  · rw [get_cons_of_ne σ _ hzx]
    exact hσ z hz

end Substitution.IsPlain

theorem Atom.IsPlain.replace {σ : Substitution} (hσ : σ.IsPlain) {a : Atom} (ha : a.IsPlain) :
    (a.replace σ).IsPlain := by
  refine ⟨ha.1, fun t ht => ?_⟩
  obtain ⟨s, hs, rfl⟩ := List.mem_map.mp ht
  obtain ⟨x, rfl, hx⟩ := ha.2 s hs
  exact hσ x hx

namespace Formula.IsPlain
variable {f : Formula}

theorem isName_of_mem_binders (hf : f.IsPlain) {x : String} (hx : x ∈ f.binders) : isName x := by
  induction f with
  | atom a => exact nomatch hx
  | not f ih => exact ih hf hx
  | binary c l r ihl ihr => exact (List.mem_append.mp hx).elim (ihl hf.1) (ihr hf.2)
  | quant q y f ih =>
    rcases List.mem_cons.mp hx with rfl | hx
    · exact hf.1
    · exact ih hf.2 hx
  | term t => exact nomatch hx

theorem isName_of_mem_freeVars (hf : f.IsPlain) {x : String} (hx : x ∈ f.freeVars) :
    isName x := by
  induction f with
  | atom a =>
    obtain ⟨t, ht, hx⟩ := List.mem_flatMap.mp hx
    obtain ⟨y, rfl, hy⟩ := hf.2 t ht
    rwa [List.mem_singleton.mp hx]
  | not f ih => exact ih hf hx
  | binary c l r ihl ihr => exact (List.mem_append.mp hx).elim (ihl hf.1) (ihr hf.2)
  | quant q y f ih => exact ih hf.2 (mem_freeVars_quant.mp hx).1
  | term t => exact nomatch hx

theorem atoms (hf : f.IsPlain) {a : Atom} (ha : a ∈ f.atoms) : a.IsPlain := by
  induction f with
  | atom b => exact List.mem_singleton.mp ha ▸ hf
  | not f ih => exact ih hf ha
  | binary c l r ihl ihr => exact (List.mem_append.mp ha).elim (ihl hf.1) (ihr hf.2)
  | quant q y f ih => exact ih hf.2 ha
  | term t => exact nomatch ha

theorem withoutImplications (hf : f.IsPlain) : f.withoutImplications.IsPlain := by
  induction f with
  | atom a => exact hf
  | not f ih => exact ih hf
  | binary c l r ihl ihr =>
    have hl := ihl hf.1
    have hr := ihr hf.2
    cases c with
    | and | or | implies => exact ⟨hl, hr⟩
    | iff => exact ⟨⟨hl, hr⟩, hr, hl⟩
  | quant q x f ih => exact ⟨hf.1, ih hf.2⟩
  | term t => exact hf

theorem signed (hf : f.IsPlain) (b : Bool) : (f.signed b).IsPlain := by
  induction f generalizing b with
  | atom a => cases b <;> exact hf
  | not f ih => exact ih hf _
  | binary c l r ihl ihr => exact ⟨ihl hf.1 b, ihr hf.2 b⟩
  | quant q x f ih => exact ⟨hf.1, ih hf.2 b⟩
  | term t => exact hf

theorem renamedWith {σ : Substitution} (hσ : σ.IsPlain) {names : Names} (hn : 0 ≤ names.renamed)
    (hf : f.IsPlain) : (f.renamedWith σ names).1.IsPlain := by
  induction f generalizing σ names with
  | atom a => exact Atom.IsPlain.replace hσ hf
  | not f ih => exact ih hσ hn hf
  | binary c l r ihl ihr =>
    exact ⟨ihl hσ hn hf.1, ihr hσ (Int.le_trans hn (renamed_le_renamedWith l σ names)) hf.2⟩
  | quant q x f ih =>
    have hpos := Int.le_trans hn (Int.le_of_lt (names.renamed_lt_freshVariable x))
    have hname : isName (names.freshVariable x).1 := Names.isName_variableName hf.1 hpos
    exact ⟨hname, ih (hσ.cons x hname) hpos hf.2⟩
  | term t => exact hf

theorem renamed (hf : f.IsPlain) : f.plainForms.renamed.IsPlain :=
  renamedWith .nil (Int.le_refl 0) (hf.withoutImplications.signed false)

theorem matrix (hf : f.IsPlain) : f.matrix.IsPlain := by
  induction f with
  | atom a => exact hf
  | not f ih => exact ih hf
  | binary c l r ihl ihr => exact ⟨ihl hf.1, ihr hf.2⟩
  | quant q x f ih => exact ih hf.2
  | term t => exact hf

theorem formula {qs : Prefix} (hqs : ∀ x ∈ qs.map Prod.snd, isName x) (hf : f.IsPlain) :
    (Prenex.formula ⟨qs, f⟩).IsPlain := by
  induction qs with
  | nil => exact hf
  | cons p qs ih =>
    obtain ⟨hx, hqs⟩ := List.forall_mem_cons.mp hqs
    exact ⟨hx, ih hqs⟩

theorem prenex (hf : f.IsPlain) : f.plainForms.prenex.IsPlain := by
  refine formula (fun x hx => ?_) hf.renamed.matrix
  rw [map_snd_quantifiers] at hx
  exact hf.renamed.isName_of_mem_binders hx

end Formula.IsPlain

end Clausification

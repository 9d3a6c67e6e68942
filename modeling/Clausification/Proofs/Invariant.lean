import Clausification.Invariant
import Clausification.Proofs.Form.Prenex

/-!
# Shapes pass their checks

No check finds an issue in a formula of the shape that it is about. What a shape says of a node it
says of the nodes below, so it reaches all subformulas that a check looks at. A formula in which a
check finds nothing has its shape, if no term stands in the place of a formula. The checks of the
normal forms ask for no more than that one connective is never directly over the other.
-/

namespace Clausification

namespace Invariant
variable {f : Formula}

theorem implicationFree_eq_nil (path : String) (hf : f.ImplicationFree) :
    implicationFree path f = [] := by
  have hcount : (f.subformulas.countP fun g =>
      g.kind = .binary .implies ∨ g.kind = .binary .iff) = 0 := by
    refine List.countP_eq_zero.mpr fun g hg => ?_
    simp [(hf.of_mem_subformulas hg).kind_ne]
  simp only [implicationFree, hcount, if_true]

theorem implicationFree_eq_nil_iff (path : String) (hf : f.Proper) :
    implicationFree path f = [] ↔ f.ImplicationFree := by
  constructor
  · intro h
    have hcount : (f.subformulas.countP fun g =>
        g.kind = .binary .implies ∨ g.kind = .binary .iff) = 0 := by
      by_contra hne
      simp only [implicationFree, if_neg hne] at h
      cases h
    refine Formula.of_forall_mem_subformulas (Q := fun g => g.Proper ∧
      g.kind ≠ .binary .implies ∧ g.kind ≠ .binary .iff) (fun g hg hkids => ?_) fun g hg => ?_
    · exact .of_children (fun t ht => nomatch ht ▸ hg.1) hg.2 hkids
    · have hkind := List.countP_eq_zero.mp hcount g hg
      simp only [decide_eq_true_eq, not_or] at hkind
      exact ⟨hf.of_mem_subformulas hg, hkind⟩
  · exact implicationFree_eq_nil path

theorem negatedConnective_eq_none (path : String) (hf : f.NegationNormal) :
    negatedConnective path f = none := by
  cases hf <;> rfl

theorem negationNormal_eq_nil (path : String) (hf : f.NegationNormal) :
    negationNormal path f = [] := by
  have hnone : f.subformulas.filterMap (negatedConnective path) = [] :=
    List.filterMap_eq_nil_iff.mpr fun g hg =>
      negatedConnective_eq_none path (hf.of_mem_subformulas hg)
  rw [negationNormal, hnone, implicationFree_eq_nil path hf.implicationFree, List.append_nil]

theorem negationNormal_eq_nil_iff (path : String) (hf : f.Proper) :
    negationNormal path f = [] ↔ f.NegationNormal := by
  constructor
  · intro h
    obtain ⟨hnegated, himplications⟩ := List.append_eq_nil_iff.mp h
    have hfree := (implicationFree_eq_nil_iff path hf).mp himplications
    refine Formula.of_forall_mem_subformulas (Q := fun g => g.ImplicationFree ∧
      negatedConnective path g = none) (fun g hg hkids => ?_) fun g hg => ?_
    · obtain ⟨hg, hnone⟩ := hg
      cases hg with
      | atom a => exact .atom a
      | not hg =>
        cases hg with
        | atom a => exact .negated a
        | not | binary | quant => simp [negatedConnective] at hnone
      | binary hc _ _ =>
        exact .binary hc (hkids _ (by simp [Formula.children])) (hkids _ (by simp [Formula.children]))
      | quant q x _ => exact .quant q x (hkids _ (by simp [Formula.children]))
    · exact ⟨hfree.of_mem_subformulas hg, List.filterMap_eq_nil_iff.mp hnegated g hg⟩
  · exact negationNormal_eq_nil path

theorem sortedNames_eq_nil {names : List String} (h : names = []) : sortedNames names = [] := by
  rw [h, sortedNames, List.mergeSort_nil]
  rfl

theorem distinctBinders_eq_nil (path : String) (hf : f.binders.Nodup) :
    distinctBinders path f = [] := by
  have hrepeated : (f.binders.filter fun x => 1 < f.binders.count x) = [] := by
    refine List.filter_eq_nil_iff.mpr fun x _ => ?_
    have := List.nodup_iff_count.mp hf x
    simpa using this
  rw [distinctBinders, sortedNames_eq_nil hrepeated, List.map_nil]

theorem behindPrefix_formula (qs : Prefix) (hf : f.QuantifierFree) :
    behindPrefix (Prenex.formula ⟨qs, f⟩) = f := by
  induction qs with
  | nil => cases hf <;> rfl
  | cons q qs ih => exact ih

theorem prenex_eq_nil (path : String) (qs : Prefix) (hf : f.QuantifierFree) :
    prenex path (Prenex.formula ⟨qs, f⟩) = [] := by
  rw [prenex, behindPrefix_formula qs hf, hf.any_isQuant, if_neg Bool.false_ne_true]

theorem quantifierFree_of_any_isQuant_eq_false (hf : f.Proper)
    (h : f.subformulas.any (·.isQuant) = false) : f.QuantifierFree := by
  refine Formula.of_forall_mem_subformulas (Q := fun g => g.Proper ∧ g.isQuant = false)
    (fun g hg hkids => ?_) fun g hg => ?_
  · obtain ⟨hg, hquant⟩ := hg
    cases hg with
    | atom a => exact .atom a
    | not _ => exact .not (hkids _ (by simp [Formula.children]))
    | binary c _ _ =>
      exact .binary c (hkids _ (by simp [Formula.children])) (hkids _ (by simp [Formula.children]))
    | quant q x _ => cases hquant
  · exact ⟨hf.of_mem_subformulas hg, Bool.eq_false_iff.mpr (List.any_eq_false.mp h g hg)⟩

theorem proper_behindPrefix (hf : f.Proper) : (behindPrefix f).Proper := by
  induction hf with
  | atom a => exact .atom a
  | not hf _ => exact .not hf
  | binary c hl hr _ _ => exact .binary c hl hr
  | quant q x _ ih => exact ih

theorem prenex_eq_nil_iff (path : String) (hf : f.Proper) :
    prenex path f = [] ↔ (behindPrefix f).QuantifierFree := by
  constructor
  · intro h
    refine quantifierFree_of_any_isQuant_eq_false (proper_behindPrefix hf) ?_
    by_contra hany
    rw [prenex, if_pos (Bool.of_not_eq_false hany)] at h
    cases h
  · intro h
    rw [prenex, h.any_isQuant, if_neg Bool.false_ne_true]

theorem skolemized_eq_nil {used : List String} (path : String) (hf : f.QuantifierFree)
    (hused : ∀ g ∈ f.functions, g ∉ used) : skolemized used path f = [] := by
  have hclashes : f.functionSymbols.filter (· ∈ used) = [] := by
    refine List.filter_eq_nil_iff.mpr fun g hg => ?_
    simpa using hused g (Formula.mem_functionSymbols.mp hg)
  simp only [skolemized, hf.any_isQuant, if_neg Bool.false_ne_true, sortedNames_eq_nil hclashes]
  rfl

theorem any_wraps_eq_false_iff {upper lower : Connective} :
    f.subformulas.any (wraps upper lower) = false ↔ f.NeverOver upper lower := by
  rw [List.any_eq_false]
  constructor
  · intro h l r hmem
    simpa [wraps] using h _ hmem
  · intro h g hg
    cases g with
    | binary c l r =>
      by_cases hc : c = upper
      · subst hc
        simpa [wraps] using h l r hg
      · simp [wraps, hc]
    | _ => simp [wraps]

theorem conjunctive_eq_nil_iff (path : String) :
    conjunctive path f = [] ↔ f.NeverOver .or .and := by
  rw [← any_wraps_eq_false_iff, conjunctive]
  split <;> simp_all

theorem disjunctive_eq_nil_iff (path : String) :
    disjunctive path f = [] ↔ f.NeverOver .and .or := by
  rw [← any_wraps_eq_false_iff, disjunctive]
  split <;> simp_all

end Invariant

end Clausification

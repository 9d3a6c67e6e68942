import Clausification.Proofs.Clause.Horn
import Clausification.Proofs.Derivation.Checks
import Clausification.Proofs.Form.Duality
import Clausification.Proofs.Form.Relabeling

/-!
# Clauses of implications

An implication between atoms, under universal quantifiers: the atoms of its body become negative
literals and those of its head positive ones. Conjunctions in the body are turned into disjunctions, so
only the head is left to decide how many clauses there are. Behind universal quantifiers nothing is
put in for variables, and the new name of a variable is that of its innermost binder.
-/

namespace Clausification

namespace Clause

theorem positives_map (b : Bool) (g : Atom → Atom) (as : List Atom) :
    positives (as.map fun a => ⟨b, g a⟩) = if b then as.length else 0 := by
  cases b <;> simp [positives, List.countP_map, Function.comp_def]

/-- The kind of a clause with some negative literals in front of positive ones. -/
theorem kind_append (g : Atom → Atom) {as : List Atom} (has : as ≠ []) (bs : List Atom) :
    kind (as.map (fun a => ⟨false, g a⟩) ++ bs.map fun a => ⟨true, g a⟩) =
      if bs.length = 0 then .goal else if bs.length = 1 then .rule else .notHorn := by
  have hpositives : positives (as.map (fun a => ⟨false, g a⟩) ++ bs.map fun a => ⟨true, g a⟩) =
      bs.length := by
    rw [positives, List.countP_append]
    exact congrArg₂ (· + ·) (positives_map false g as) (positives_map true g bs) |>.trans
      (Nat.zero_add _)
  have hnegatives : negatives (as.map (fun a => ⟨false, g a⟩) ++ bs.map fun a => ⟨true, g a⟩) ≠ 0 := by
    rw [negatives, hpositives]
    simpa using has
  rw [kind, hpositives, if_neg hnegatives]
  rcases bs.length with _ | _ | _ <;> rfl

end Clause

/-- New names for binders, outermost first. A variable gets the one of its innermost binder. -/
def Relabeling.ofBinders (xs ys : List String) : Relabeling where
  ofPredicate := id
  ofFunction := id
  ofVariable x := ((xs.zip ys).reverse.lookup x).getD x

namespace Relabeling

theorem clause_map (r : Relabeling) (b : Bool) (as : List Atom) :
    r.clause (as.map (⟨b, ·⟩)) = as.map fun a => ⟨b, r.atom a⟩ := by
  rw [clause, List.map_map]
  rfl

variable {xs ys : List String} {x : String}

theorem lookup_reverse_zip_of_not_mem (hx : x ∉ xs) : (xs.zip ys).reverse.lookup x = none := by
  refine List.lookup_eq_none_iff.mpr fun e he => bne_iff_ne.mpr ?_
  rintro rfl
  exact hx (List.of_mem_zip (List.mem_reverse.mp he)).1

theorem ofVariable_ofBinders_of_not_mem (hx : x ∉ xs) : (ofBinders xs ys).ofVariable x = x := by
  simp only [ofBinders, lookup_reverse_zip_of_not_mem hx, Option.getD_none]

/-- Binders of the same name further out are hidden. -/
theorem ofVariable_ofBinders {outer inner : List String} (hlength : ys.length = xs.length)
    (hxs : xs = outer ++ x :: inner) (hx : x ∉ inner) :
    ys[outer.length]? = some ((ofBinders xs ys).ofVariable x) := by
  subst hxs
  obtain ⟨ys₁, zs, rfl, hys₁⟩ : ∃ ys₁ zs, ys = ys₁ ++ zs ∧ ys₁.length = outer.length :=
    ⟨ys.take outer.length, ys.drop outer.length, (List.take_append_drop ..).symm,
      by simp [hlength]⟩
  obtain ⟨y, ys₂, rfl⟩ : ∃ y ys₂, zs = y :: ys₂ := by
    refine List.exists_cons_of_ne_nil fun h => ?_
    simp [h, hys₁] at hlength
  have hzip : (outer ++ x :: inner).zip (ys₁ ++ y :: ys₂) =
      outer.zip ys₁ ++ (x, y) :: inner.zip ys₂ := List.zip_append hys₁.symm
  have hlookup : ((outer ++ x :: inner).zip (ys₁ ++ y :: ys₂)).reverse.lookup x = some y := by
    simp [hzip, List.lookup_append, lookup_reverse_zip_of_not_mem hx]
  simp only [ofBinders, hlookup, Option.getD_some]
  simp [← hys₁]

end Relabeling

/-- The same as a substitution. -/
def Substitution.ofBinders (xs ys : List String) : Substitution :=
  (xs.zip ys).reverse.map fun (x, y) => (x, .var y)

theorem Substitution.get_ofBinders (xs ys : List String) (x : String) :
    (ofBinders xs ys).get x = .var ((Relabeling.ofBinders xs ys).ofVariable x) := by
  simp only [ofBinders, Relabeling.ofBinders]
  generalize (xs.zip ys).reverse = es
  induction es with
  | nil => rfl
  | cons e es ih =>
    obtain ⟨z, y⟩ := e
    rw [List.map_cons]
    by_cases hxz : x = z
    · rw [hxz, get_cons_self, List.lookup_cons_self]
      rfl
    · rw [get_cons_of_ne _ _ hxz, ih, List.lookup_cons, beq_eq_false_iff_ne.mpr hxz]

theorem Substitution.ofBinders_cons (x y : String) (xs ys : List String) (σ : Substitution) :
    ofBinders (x :: xs) (y :: ys) ++ σ = ofBinders xs ys ++ (x, .var y) :: σ := by
  simp [ofBinders]

theorem skolemTerms_of_forall_all {qs : Prefix} (h : ∀ p ∈ qs, p.1 = .all) (us : List String)
    (σ : Substitution) (names : Names) : skolemTerms qs us σ names = (σ, names) := by
  induction qs generalizing us with
  | nil => rfl
  | cons p qs ih =>
    obtain ⟨q, x⟩ := p
    obtain ⟨rfl, hqs⟩ := List.forall_mem_cons.mp h
    exact ih hqs _

namespace Formula

theorem withoutImplications_formula (qs : Prefix) (f : Formula) :
    (Prenex.formula ⟨qs, f⟩).withoutImplications = Prenex.formula ⟨qs, f.withoutImplications⟩ := by
  induction qs with
  | nil => rfl
  | cons p qs ih => exact congrArg (Formula.quant p.1 p.2) ih

theorem signed_formula (qs : Prefix) (f : Formula) :
    (Prenex.formula ⟨qs, f⟩).signed false = Prenex.formula ⟨qs, f.signed false⟩ := by
  induction qs with
  | nil => rfl
  | cons p qs ih => exact congrArg (Formula.quant p.1 p.2) ih

/-- Behind a prefix each variable has the name that was drawn last for it. -/
theorem renamedWith_formula (qs : Prefix) (f : Formula) (σ : Substitution) (names : Names) :
    (Prenex.formula ⟨qs, f⟩).renamedWith σ names =
      let drawn := names.freshVariables (qs.map Prod.snd)
      let body := f.renamedWith (Substitution.ofBinders (qs.map Prod.snd) drawn.1 ++ σ) drawn.2
      (Prenex.formula ⟨(qs.map Prod.fst).zip drawn.1, body.1⟩, body.2) := by
  induction qs generalizing σ names with
  | nil => rfl
  | cons p qs ih =>
    obtain ⟨q, x⟩ := p
    simp only [Prenex.formula_cons, renamedWith, ih, List.map_cons, Names.freshVariables,
      Substitution.ofBinders_cons, List.zip_cons_cons]

/-- A formula behind universal quantifiers over some variables, repetitions allowed. -/
def generalized (xs : List String) (f : Formula) : Formula :=
  Prenex.formula ⟨xs.map (Quantifier.all, ·), f⟩

section
variable {f : Formula} {xs : List String}

theorem renamedForm_generalized (hf : (f.withoutImplications.signed false).QuantifierFree) :
    let drawn := (Names.ofFormula (f.generalized xs)).freshVariables xs
    (f.generalized xs).renamedForm = (Prenex.formula ⟨drawn.1.map (Quantifier.all, ·),
      (f.withoutImplications.signed false).replace (Substitution.ofBinders xs drawn.1)⟩,
      drawn.2) := by
  intro drawn
  have hsnd : (xs.map (Quantifier.all, ·)).map Prod.snd = xs := by simp
  have hfst : ((xs.map (Quantifier.all, ·)).map Prod.fst).zip drawn.1 =
      drawn.1.map (Quantifier.all, ·) := by
    have hlength : drawn.1.length = xs.length := Names.length_freshVariables xs _
    exact List.ext_getElem (by simp [hlength]) (by simp)
  have hform : (f.generalized xs).withoutImplications.signed false = Prenex.formula
      ⟨xs.map (Quantifier.all, ·), f.withoutImplications.signed false⟩ := by
    rw [generalized, withoutImplications_formula, signed_formula]
  rw [renamedForm, hform, renamedWith_formula, hsnd]
  simp only [hf.renamedWith_eq, List.append_nil]
  rw [hfst]

theorem binders_renamed_generalized (hf : (f.withoutImplications.signed false).QuantifierFree) :
    (f.generalized xs).plainForms.renamed.binders =
      ((Names.ofFormula (f.generalized xs)).freshVariables xs).1 := by
  rw [plainForms, renamedForm_generalized hf, Prenex.binders_formula,
    (hf.replace _).binders_eq_nil]
  simp

/-- Under universal quantifiers the clauses of a formula are those of its negation normal form, with
other names for the variables. -/
theorem clauses_generalized (xs : List String) (hwf : f.wellFormed)
    (hf : (f.withoutImplications.signed false).Matrix) :
    (f.generalized xs).plainForms.clauses = ((f.withoutImplications.signed false).groups .and).map
      (Relabeling.ofBinders xs (f.generalized xs).plainForms.renamed.binders).clause := by
  have hfree := hf.quantifierFree
  set g := f.withoutImplications.signed false with hg
  set ys := (f.generalized xs).plainForms.renamed.binders with hys
  have hdrawn : ((Names.ofFormula (f.generalized xs)).freshVariables xs).1 = ys :=
    (binders_renamed_generalized hfree).symm
  have hrelabeled : (Relabeling.ofBinders xs ys).formula g =
      g.replace (Substitution.ofBinders xs ys) := by
    have hrenamed : (Relabeling.ofBinders xs ys).formula g =
        (g.renamedWith (Substitution.ofBinders xs ys) {}).1 := by
      refine Relabeling.formula_eq_renamedWith (wellFormed_negationNormal hwf) (fun _ => rfl)
        (fun _ _ => rfl) (fun x _ => Substitution.get_ofBinders xs ys x) ?_
      rw [hfree.renamedWith_eq, hfree.binders_eq_nil, (hfree.replace _).binders_eq_nil]
      rfl
    rwa [hfree.renamedWith_eq] at hrenamed
  have hquantifiers : (f.generalized xs).renamedForm.1.quantifiers = ys.map (Quantifier.all, ·) := by
    rw [renamedForm_generalized hfree, Prenex.quantifiers_formula,
      (hfree.replace _).quantifiers_eq_nil, List.append_nil, hdrawn]
  have hmatrix : (f.generalized xs).renamedForm.1.matrix = (Relabeling.ofBinders xs ys).formula g := by
    rw [renamedForm_generalized hfree, Prenex.matrix_formula, (hfree.replace _).matrix_eq, hdrawn,
      hrelabeled]
  have hskolem : (f.generalized xs).skolemForm.1 = [] := by
    rw [skolemForm, hquantifiers, skolemTerms_of_forall_all (by simp)]
  rw [plainForms, hskolem, hmatrix, replace_nil, Relabeling.groups_formula]

end

/-- Atoms joined by one connective, however they are nested. -/
abbrev AtomsJoined (c : Connective) : Formula → Prop := Joined c fun f => ∃ a, f = .atom a

theorem groups_or (l r : Formula) : (or l r).groups .and =
    (l.groups .and).flatMap fun x => (r.groups .and).map (x ++ ·) :=
  groups_binary_dual (show Connective.IsJunction .and from Or.inl rfl)

namespace AtomsJoined
variable {f : Formula}

theorem matrix {c : Connective} (hc : c.IsJunction) (hf : AtomsJoined c f) : f.Matrix := by
  induction hf with
  | leaf hf =>
    obtain ⟨a, rfl⟩ := hf
    exact .atom a
  | join _ _ ihl ihr => exact .binary hc ihl ihr

theorem atoms_ne_nil {c : Connective} (hf : AtomsJoined c f) : f.atoms ≠ [] := by
  induction hf with
  | leaf hf =>
    obtain ⟨a, rfl⟩ := hf
    exact List.cons_ne_nil _ _
  | join _ _ ihl _ => exact List.append_ne_nil_of_left_ne_nil ihl _

/-- Negations turn a conjunction of atoms into one group. -/
theorem groups_signed (hf : AtomsJoined .and f) :
    (f.signed true).groups .and = [f.atoms.map (⟨false, ·⟩)] := by
  induction hf with
  | leaf hf =>
    obtain ⟨a, rfl⟩ := hf
    rfl
  | join _ _ ihl ihr =>
    rw [signed, if_pos rfl, groups_binary_dual (Or.inl rfl), ihl, ihr, atoms, List.map_append]
    rfl

theorem groups_eq (hf : AtomsJoined .and f) :
    f.groups .and = f.atoms.map fun a => [⟨true, a⟩] := by
  induction hf with
  | leaf hf =>
    obtain ⟨a, rfl⟩ := hf
    rfl
  | join _ _ ihl ihr => rw [groups_binary_self, ihl, ihr, atoms, List.map_append]

theorem groups_eq_singleton (hf : AtomsJoined .or f) :
    f.groups .and = [f.atoms.map (⟨true, ·⟩)] := by
  induction hf with
  | leaf hf =>
    obtain ⟨a, rfl⟩ := hf
    rfl
  | join _ _ ihl ihr =>
    rw [groups_or, ihl, ihr, atoms, List.map_append]
    rfl

end AtomsJoined

section
variable {c : Connective} {body head : Formula}

/-- The negation normal form of an implication. -/
theorem signed_implies (hbody : AtomsJoined .and body) (hc : c.IsJunction)
    (hhead : AtomsJoined c head) :
    (implies body head).withoutImplications.signed false = or (body.signed true) head := by
  have hleft := (hbody.matrix (Or.inl rfl)).negationNormal
  have hright := (hhead.matrix hc).negationNormal
  rw [withoutImplications, hleft.implicationFree.withoutImplications_eq,
    hright.implicationFree.withoutImplications_eq]
  exact congrArg (or (body.signed true)) hright.signed_eq

theorem groups_implies (hbody : AtomsJoined .and body) (hc : c.IsJunction)
    (hhead : AtomsJoined c head) :
    ((implies body head).withoutImplications.signed false).groups .and =
      (head.groups .and).map (body.atoms.map (⟨false, ·⟩) ++ ·) := by
  rw [signed_implies hbody hc hhead, groups_or, hbody.groups_signed, List.flatMap_singleton]

theorem matrix_implies (hbody : AtomsJoined .and body) (hc : c.IsJunction)
    (hhead : AtomsJoined c head) :
    ((implies body head).withoutImplications.signed false).Matrix := by
  rw [signed_implies hbody hc hhead]
  exact .binary (Or.inr rfl) (hbody.matrix (Or.inl rfl)).signed (hhead.matrix hc)

end

/-- An implication under universal quantifiers, with a conjunction of atoms for its body. A conjunction
of atoms as its head leads to one rule for each of them, in order, and a disjunction of two or more to a
single clause that is not a Horn clause. Each variable has the new name of its innermost binder, and
what is not bound stays as it is. -/
theorem implications_become_rules (xs : List String) (c : Connective) (body head : Formula)
    (hc : c.IsJunction) (hbody : AtomsJoined .and body) (hhead : AtomsJoined c head)
    (hwf : (implies body head).wellFormed) :
    let f := (implies body head).generalized xs
    ∃ F names, f.forms.run.run (Names.ofFormula f) = (.ok F, names) ∧
      (f.functions = [] → ∀ stage, ({} : Checks).run f.symbols stage (F.form stage) = []) ∧
      let ys := F.renamed.binders
      let r := Relabeling.ofBinders xs ys
      let negated : Clause := body.atoms.map fun a => ⟨false, r.atom a⟩
      (ys.length = xs.length ∧ ys.Nodup ∧ ∀ y ∈ ys, y ∉ f.symbols) ∧
      (∀ x, x ∉ xs → r.ofVariable x = x) ∧
      (∀ outer x inner, xs = outer ++ x :: inner → x ∉ inner →
        ys[outer.length]? = some (r.ofVariable x)) ∧
      (c = .and →
        F.clauses = head.atoms.map (fun a => negated ++ [⟨true, r.atom a⟩]) ∧
        (∀ d ∈ F.clauses, d.kind = .rule) ∧ allHorn (F.clauses.map (·.kind))) ∧
      (c = .or → 2 ≤ head.atoms.length →
        F.clauses = [negated ++ head.atoms.map fun a => ⟨true, r.atom a⟩] ∧
        F.clauses.map (·.kind) = [.notHorn]) := by
  intro f
  have hmatrix := matrix_implies hbody hc hhead
  have hf : f.wellFormed := (Prenex.wellFormed_formula _ _).trans hwf
  have hlength : f.plainForms.renamed.binders.length = xs.length := by
    rw [binders_renamed_generalized hmatrix.quantifierFree, Names.length_freshVariables]
  refine ⟨f.plainForms, f.skolemForm.2, forms_eq hf, check_form_of_functions_eq_nil hf, ?_⟩
  intro ys r negated
  have hclauses : f.plainForms.clauses = (head.groups .and).map (negated ++ r.clause ·) := by
    have hgroups := clauses_generalized xs hwf hmatrix
    rw [groups_implies hbody hc hhead, List.map_map] at hgroups
    refine hgroups.trans (List.map_congr_left fun d _ => ?_)
    exact List.map_append.trans (congrArg (· ++ r.clause d) (r.clause_map false body.atoms))
  refine ⟨⟨hlength, f.binders_renamed_nodup, f.binders_renamed_fresh⟩,
    fun x => Relabeling.ofVariable_ofBinders_of_not_mem,
    fun outer x inner => Relabeling.ofVariable_ofBinders hlength, ?_, ?_⟩
  · rintro rfl
    have hrules : f.plainForms.clauses =
        head.atoms.map fun a => negated ++ [⟨true, r.atom a⟩] := by
      rw [hclauses, hhead.groups_eq, List.map_map]
      rfl
    have hkind (d : Clause) (hd : d ∈ f.plainForms.clauses) : d.kind = .rule := by
      rw [hrules] at hd
      obtain ⟨a, -, rfl⟩ := List.mem_map.mp hd
      exact Clause.kind_append r.atom hbody.atoms_ne_nil [a]
    refine ⟨hrules, hkind, ?_⟩
    rw [allHorn, List.all_map, List.all_eq_true]
    intro d hd
    simp [hkind d hd]
  · rintro rfl hmany
    have hone : f.plainForms.clauses = [negated ++ head.atoms.map fun a => ⟨true, r.atom a⟩] := by
      rw [hclauses, hhead.groups_eq_singleton, List.map_singleton, r.clause_map]
    refine ⟨hone, ?_⟩
    obtain ⟨n, hn⟩ := Nat.exists_eq_add_of_le' hmany
    rw [hone, List.map_singleton, Clause.kind_append r.atom hbody.atoms_ne_nil, hn]
    rfl

/-- The outer binder of `x` is hidden by the inner one, `z` is free, and an atom occurs twice. -/
theorem implications_become_rules_of_hidden_binder :
    let P : Atom := ⟨"P", [.var "x", .var "z"]⟩
    let Q : Atom := ⟨"Q", [.app "f" [.var "y"]]⟩
    let R : Atom := ⟨"R", [.var "y", .var "x"]⟩
    let body : Formula := .and (.atom P) (.and (.atom Q) (.atom P))
    let both : Formula := .and (.atom R) (.atom Q)
    let either : Formula := .or (.atom R) (.or (.atom Q) (.atom P))
    let chain (head : Formula) : Except Obstacle Forms × Names :=
      let f := (implies body head).generalized ["x", "y", "x"]
      f.forms.run.run (Names.ofFormula f)
    let P' (x : String) : Atom := ⟨"P", [.var x, .var "z"]⟩
    let Q' (y : String) : Atom := ⟨"Q", [.app "f" [.var y]]⟩
    let R' (x y : String) : Atom := ⟨"R", [.var y, .var x]⟩
    (∃ F names outer y x, chain both = (.ok F, names) ∧ F.renamed.binders = [outer, y, x] ∧
      F.clauses = [[⟨false, P' x⟩, ⟨false, Q' y⟩, ⟨false, P' x⟩, ⟨true, R' x y⟩],
        [⟨false, P' x⟩, ⟨false, Q' y⟩, ⟨false, P' x⟩, ⟨true, Q' y⟩]] ∧
      allHorn (F.clauses.map (·.kind))) ∧
    ∃ F names outer y x, chain either = (.ok F, names) ∧ F.renamed.binders = [outer, y, x] ∧
      F.clauses = [[⟨false, P' x⟩, ⟨false, Q' y⟩, ⟨false, P' x⟩, ⟨true, R' x y⟩, ⟨true, Q' y⟩,
        ⟨true, P' x⟩]] ∧
      F.clauses.map (·.kind) = [.notHorn] := by
  intro P Q R body both either chain P' Q' R'
  have hbody : AtomsJoined .and body := .join (.leaf ⟨P, rfl⟩) (.join (.leaf ⟨Q, rfl⟩) (.leaf ⟨P, rfl⟩))
  have hboth : AtomsJoined .and both := .join (.leaf ⟨R, rfl⟩) (.leaf ⟨Q, rfl⟩)
  have heither : AtomsJoined .or either :=
    .join (.leaf ⟨R, rfl⟩) (.join (.leaf ⟨Q, rfl⟩) (.leaf ⟨P, rfl⟩))
  constructor
  · obtain ⟨F, names, hrun, -, ⟨hlength, -⟩, -, -, hrules, -⟩ :=
      implications_become_rules ["x", "y", "x"] .and body both (Or.inl rfl) hbody hboth rfl
    obtain ⟨outer, y, x, hbinders⟩ := List.length_eq_three.mp hlength
    obtain ⟨hclauses, -, hhorn⟩ := hrules rfl
    rw [hbinders] at hclauses
    exact ⟨F, names, outer, y, x, hrun, hbinders, hclauses, hhorn⟩
  · obtain ⟨F, names, hrun, -, ⟨hlength, -⟩, -, -, -, hchoice⟩ :=
      implications_become_rules ["x", "y", "x"] .or body either (Or.inr rfl) hbody heither rfl
    obtain ⟨outer, y, x, hbinders⟩ := List.length_eq_three.mp hlength
    obtain ⟨hclauses, hkind⟩ := hchoice rfl (by decide)
    rw [hbinders] at hclauses
    exact ⟨F, names, outer, y, x, hrun, hbinders, hclauses, hkind⟩

end Formula

end Clausification

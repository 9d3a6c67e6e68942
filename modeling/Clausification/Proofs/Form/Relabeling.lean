import Clausification.Proofs.Clause.Relabeling
import Clausification.Proofs.Form.SkolemSymbols
import Clausification.Proofs.Formula.Alpha

/-!
# Other names in formulas

A relabelling goes through the stages. Renamed forms of formulas that differ in bound names only are
relabelled forms of each other, provided that the binders are; prefixes, Skolem terms and groups of
literals of a relabelled form are relabelled ones.
-/

namespace Clausification

namespace Relabeling
variable (r : Relabeling)

/-- Binders get the names of their variables. -/
def formula : Formula → Formula
  | .atom a => .atom (r.atom a)
  | .not f => .not (formula f)
  | .binary c f g => .binary c (formula f) (formula g)
  | .quant q x f => .quant q (r.ofVariable x) (formula f)
  | .term t => .term (r.term t)

def prefixes (qs : Prefix) : Prefix := qs.map fun (q, x) => (q, r.ofVariable x)

def substitution (σ : Substitution) : Substitution :=
  σ.map fun (x, t) => (r.ofVariable x, r.term t)

def skolemEntry (e : SkolemEntry) : SkolemEntry :=
  ⟨r.ofVariable e.var, r.ofFunction e.symbol, e.args.map r.ofVariable⟩

/-- Only variables that are not free in the formula, and functions that do not occur in it, get new
names. -/
structure Keeps (f : Formula) : Prop where
  predicate : ∀ p, r.ofPredicate p = p
  function : ∀ g ∈ f.functions, r.ofFunction g = g
  var : ∀ x ∈ f.freeVars, r.ofVariable x = x

theorem quantifiers_formula (f : Formula) : (r.formula f).quantifiers = r.prefixes f.quantifiers := by
  induction f with
  | atom a => rfl
  | not f ih => exact ih
  | binary c f g ihf ihg =>
    rw [formula, Formula.quantifiers, Formula.quantifiers, ihf, ihg, prefixes, prefixes, prefixes,
      List.map_append]
  | quant q x f ih => exact congrArg (_ :: ·) ih
  | term t => rfl

theorem matrix_formula (f : Formula) : (r.formula f).matrix = r.formula f.matrix := by
  induction f with
  | atom a => rfl
  | not f ih => exact congrArg Formula.not ih
  | binary c f g ihf ihg => rw [formula, Formula.matrix, Formula.matrix, formula, ihf, ihg]
  | quant q x f ih => exact ih
  | term t => rfl

theorem groups_formula (outer : Connective) (f : Formula) :
    (r.formula f).groups outer = (f.groups outer).map r.clause := by
  fun_induction Formula.groups outer f with
  | case1 a => rfl
  | case2 a => rfl
  | case3 f g ihf ihg => rw [formula, Formula.groups_binary_self, ihf, ihg, List.map_append]
  | case4 c f g hne ihg ihf =>
    rw [formula, Formula.groups, if_neg hne, ihf, ihg]
    simp [List.map_flatMap, List.flatMap_map, clause, Function.comp_def]
  | case5 f hatom hnegated hbinary =>
    cases f with
    | atom a => exact absurd rfl (hatom a)
    | not f =>
      cases f with
      | atom a => exact absurd rfl (hnegated a)
      | not | binary | quant | term => rfl
    | binary c f g => exact absurd rfl (hbinary c f g)
    | quant q x f => rfl
    | term t => rfl

section
variable {r} {σ τ : Substitution} {p : Pairing}

theorem get_substitution (hr : Function.Injective r.ofVariable) (σ : Substitution) (x : String) :
    (r.substitution σ).get (r.ofVariable x) = r.term (σ.get x) := by
  induction σ with
  | nil => rfl
  | cons e σ ih =>
    obtain ⟨y, t⟩ := e
    by_cases hxy : x = y
    · rw [hxy, Substitution.get_cons_self]
      exact Substitution.get_cons_self _ _ _
    · rw [Substitution.get_cons_of_ne σ t hxy, ← ih]
      exact Substitution.get_cons_of_ne _ _ fun h => hxy (hr h)

theorem term_replace (hr : Function.Injective r.ofVariable) {t : Term} (ht : t.wellFormed) :
    r.term (t.replace σ) = (r.term t).replace (r.substitution σ) := by
  induction t with
  | var x => exact (get_substitution hr σ x).symm
  | app f ts ih =>
    simp only [Term.wellFormed, Term.allWellFormed_eq_all, List.all_eq_true] at ht
    simp only [Term.replace, Term.replaceAll_eq_map, term, terms_eq_map, List.map_map]
    exact congrArg (Term.app _) (List.map_congr_left fun t hmem => ih t hmem (ht t hmem))
  | stray q ts => simp [Term.wellFormed] at ht

theorem atom_replace (hr : Function.Injective r.ofVariable) {a : Atom} (ha : a.wellFormed) :
    r.atom (a.replace σ) = (r.atom a).replace (r.substitution σ) := by
  rw [Atom.wellFormed, Term.allWellFormed_eq_all, List.all_eq_true] at ha
  simp only [atom, Atom.replace, terms_eq_map, List.map_map]
  exact congrArg (Atom.mk _) (List.map_congr_left fun t ht => term_replace hr (ha t ht))

theorem formula_replace (hr : Function.Injective r.ofVariable) {f : Formula} (hf : f.QuantifierFree)
    (hwf : f.wellFormed) : r.formula (f.replace σ) = (r.formula f).replace (r.substitution σ) := by
  induction hf with
  | atom a => exact congrArg Formula.atom (atom_replace hr hwf)
  | not _ ih => exact congrArg Formula.not (ih hwf)
  | binary c _ _ ihl ihr =>
    simp only [Formula.wellFormed, Bool.and_eq_true] at hwf
    exact congrArg₂ (Formula.binary c) (ihl hwf.1) (ihr hwf.2)

theorem term_replace_of_alike {s t : Term} (h : s.alike p t) (hs : s.wellFormed)
    (hfun : ∀ g ∈ s.functions, r.ofFunction g = g)
    (hvar : ∀ x ∈ s.vars, ∀ y, p.relates x y → r.term (σ.get x) = τ.get y) :
    r.term (s.replace σ) = t.replace τ := by
  induction s generalizing t with
  | var x =>
    cases t with
    | var y => exact hvar x (List.mem_singleton_self x) y h
    | app g ts | stray g ts => simp [Term.alike] at h
  | app f ss ih =>
    cases t with
    | app g ts =>
      obtain ⟨rfl, hall⟩ := Term.alike_app.mp h
      simp only [Term.wellFormed, Term.allWellFormed_eq_all, List.all_eq_true] at hs
      simp only [Term.functions, Term.functionsOfAll_eq_flatMap, List.mem_cons,
        List.mem_flatMap] at hfun
      simp only [Term.vars, Term.varsOfAll_eq_flatMap, List.mem_flatMap] at hvar
      have hargs : ss.map (r.term ∘ Term.replace σ) = ts.map (Term.replace τ) :=
        Term.map_eq_map_of_allAlike hall fun s hmem t hst => ih s hmem hst (hs s hmem)
          (fun g hg => hfun g (Or.inr ⟨s, hmem, hg⟩)) fun x hx => hvar x ⟨s, hmem, hx⟩
      rw [Term.replace, Term.replace, term, terms_eq_map, Term.replaceAll_eq_map,
        Term.replaceAll_eq_map, List.map_map, hargs, hfun f (Or.inl rfl)]
    | var y | stray g ts => simp [Term.alike] at h
  | stray q ss => simp [Term.wellFormed] at hs

theorem atom_replace_of_alike {a b : Atom} (h : a.alike p b) (ha : a.wellFormed)
    (hpred : ∀ q, r.ofPredicate q = q) (hfun : ∀ g ∈ a.functions, r.ofFunction g = g)
    (hvar : ∀ x ∈ a.vars, ∀ y, p.relates x y → r.term (σ.get x) = τ.get y) :
    r.atom (a.replace σ) = b.replace τ := by
  obtain ⟨hname, hall⟩ := Atom.alike_iff.mp h
  rw [Atom.wellFormed, Term.allWellFormed_eq_all, List.all_eq_true] at ha
  have hargs : a.args.map (r.term ∘ Term.replace σ) = b.args.map (Term.replace τ) :=
    Term.map_eq_map_of_allAlike hall fun s hs t hst => term_replace_of_alike hst (ha s hs)
      (fun g hg => hfun g (List.mem_flatMap.mpr ⟨s, hs, hg⟩))
      fun x hx => hvar x (List.mem_flatMap.mpr ⟨s, hs, hx⟩)
  rw [atom, Atom.replace, Atom.replace, terms_eq_map, List.map_map, hargs, hpred, hname]

/-- Formulas that differ in bound names only have renamed forms that differ in the names drawn. -/
theorem formula_renamedWith_of_alike {f g : Formula} {m n : Names} (h : Formula.Alike p f g)
    (hf : f.wellFormed) (hpred : ∀ q, r.ofPredicate q = q)
    (hfun : ∀ g ∈ f.functions, r.ofFunction g = g)
    (hvar : ∀ x ∈ f.freeVars, ∀ y, p.relates x y → r.term (σ.get x) = τ.get y)
    (hbinders : (f.renamedWith σ m).1.binders.map r.ofVariable = (g.renamedWith τ n).1.binders) :
    r.formula (f.renamedWith σ m).1 = (g.renamedWith τ n).1 := by
  induction h generalizing σ τ m n with
  | atom h =>
    refine congrArg Formula.atom (atom_replace_of_alike h hf hpred (fun g hg => hfun g ?_) hvar)
    exact List.mem_flatMap.mpr ⟨_, List.mem_singleton_self _, hg⟩
  | not _ ih => exact congrArg Formula.not (ih hf hfun hvar hbinders)
  | @binary p l l' g g' c hl _ ihl ihr =>
    simp only [Formula.wellFormed, Bool.and_eq_true] at hf
    simp only [Formula.functions, Formula.atoms, List.flatMap_append, List.mem_append] at hfun
    simp only [Formula.freeVars, List.mem_append] at hvar
    simp only [Formula.renamedWith, Formula.binders, List.map_append] at hbinders
    have hlength : ((l.renamedWith σ m).1.binders.map r.ofVariable).length =
        (l'.renamedWith τ n).1.binders.length := by
      rw [List.length_map, Formula.length_binders_renamedWith, Formula.length_binders_renamedWith,
        hl.length_binders]
    obtain ⟨hleft, hright⟩ := List.append_inj hbinders hlength
    exact congrArg₂ (Formula.binary c)
      (ihl hf.1 (fun g hg => hfun g (Or.inl hg)) (fun x hx => hvar x (Or.inl hx)) hleft)
      (ihr hf.2 (fun g hg => hfun g (Or.inr hg)) (fun x hx => hvar x (Or.inr hx)) hright)
  | quant q a b _ ih =>
    simp only [Formula.renamedWith, Formula.binders, List.map_cons, List.cons.injEq] at hbinders
    obtain ⟨hbinder, hbinders⟩ := hbinders
    refine congrArg₂ (Formula.quant q) hbinder (ih hf hfun (fun x hx y hxy => ?_) hbinders)
    rcases Pairing.relates_cons.mp hxy with ⟨rfl, rfl⟩ | ⟨hxa, hyb, hxy⟩
    · rw [Substitution.get_cons_self, Substitution.get_cons_self, term, hbinder]
    · rw [Substitution.get_cons_of_ne σ _ hxa, Substitution.get_cons_of_ne τ _ hyb]
      exact hvar x (Formula.mem_freeVars_quant.mpr ⟨hx, hxa⟩) y hxy
  | term t => simp [Formula.wellFormed] at hf

theorem term_eq_replace {t : Term} (ht : t.wellFormed)
    (hfun : ∀ g ∈ t.functions, r.ofFunction g = g)
    (hvar : ∀ x ∈ t.vars, σ.get x = .var (r.ofVariable x)) : r.term t = t.replace σ := by
  induction t with
  | var x => exact (hvar x (List.mem_singleton_self x)).symm
  | app f ts ih =>
    simp only [Term.wellFormed, Term.allWellFormed_eq_all, List.all_eq_true] at ht
    simp only [Term.functions, Term.functionsOfAll_eq_flatMap, List.mem_cons,
      List.mem_flatMap] at hfun
    simp only [Term.vars, Term.varsOfAll_eq_flatMap, List.mem_flatMap] at hvar
    rw [term, Term.replace, terms_eq_map, Term.replaceAll_eq_map, hfun f (Or.inl rfl)]
    exact congrArg (Term.app f) (List.map_congr_left fun t hmem => ih t hmem (ht t hmem)
      (fun g hg => hfun g (Or.inr ⟨t, hmem, hg⟩)) fun x hx => hvar x ⟨t, hmem, hx⟩)
  | stray q ts => simp [Term.wellFormed] at ht

/-- The renamed form is a relabelled one if the new names can be told from the old ones. -/
theorem formula_eq_renamedWith {f : Formula} {names : Names} (hf : f.wellFormed)
    (hpred : ∀ q, r.ofPredicate q = q) (hfun : ∀ g ∈ f.functions, r.ofFunction g = g)
    (hvar : ∀ x ∈ f.freeVars, σ.get x = .var (r.ofVariable x))
    (hbinders : f.binders.map r.ofVariable = (f.renamedWith σ names).1.binders) :
    r.formula f = (f.renamedWith σ names).1 := by
  induction f generalizing σ names with
  | atom a =>
    rw [Formula.wellFormed, Atom.wellFormed, Term.allWellFormed_eq_all, List.all_eq_true] at hf
    have hargs : a.args.map r.term = a.args.map (Term.replace σ) :=
      List.map_congr_left fun t ht => term_eq_replace (hf t ht)
        (fun g hg => hfun g (by simpa [Formula.functions, Formula.atoms, Atom.functions]
          using ⟨t, ht, hg⟩))
        fun x hx => hvar x (List.mem_flatMap.mpr ⟨t, ht, hx⟩)
    rw [formula, Formula.renamedWith, atom, Atom.replace, terms_eq_map, hargs, hpred]
  | not f ih => exact congrArg Formula.not (ih hf hfun hvar hbinders)
  | binary c f g ihf ihg =>
    simp only [Formula.wellFormed, Bool.and_eq_true] at hf
    simp only [Formula.functions, Formula.atoms, List.flatMap_append, List.mem_append] at hfun
    simp only [Formula.freeVars, List.mem_append] at hvar
    simp only [Formula.renamedWith, Formula.binders, List.map_append] at hbinders
    obtain ⟨hleft, hright⟩ := List.append_inj hbinders
      ((List.length_map _).trans (f.length_binders_renamedWith σ names).symm)
    exact congrArg₂ (Formula.binary c)
      (ihf hf.1 (fun g hg => hfun g (Or.inl hg)) (fun x hx => hvar x (Or.inl hx)) hleft)
      (ihg hf.2 (fun g hg => hfun g (Or.inr hg)) (fun x hx => hvar x (Or.inr hx)) hright)
  | quant q x f ih =>
    simp only [Formula.renamedWith, Formula.binders, List.map_cons, List.cons.injEq] at hbinders
    obtain ⟨hbinder, hbinders⟩ := hbinders
    refine congrArg₂ (Formula.quant q) hbinder (ih hf hfun (fun y hy => ?_) hbinders)
    by_cases hyx : y = x
    · rw [hyx, Substitution.get_cons_self, hbinder]
    · rw [Substitution.get_cons_of_ne σ _ hyx]
      exact hvar y (Formula.mem_freeVars_quant.mpr ⟨hy, hyx⟩)
  | term t => simp [Formula.wellFormed] at hf

/-- The entries of a relabelled prefix are relabelled, if the symbols drawn are. -/
theorem skolemEntries_prefixes {qs : Prefix} {us : List String} {m n : Names}
    (h : ((qs.skolemEntries us m).map (·.symbol)).map r.ofFunction =
      ((r.prefixes qs).skolemEntries (us.map r.ofVariable) n).map (·.symbol)) :
    (r.prefixes qs).skolemEntries (us.map r.ofVariable) n =
      (qs.skolemEntries us m).map r.skolemEntry := by
  induction qs generalizing us m n with
  | nil => rfl
  | cons e qs ih =>
    obtain ⟨_ | _, x⟩ := e
    · have hus : us.map r.ofVariable ++ [r.ofVariable x] = (us ++ [x]).map r.ofVariable := by
        rw [List.map_append, List.map_singleton]
      simp only [prefixes, List.map_cons, Prefix.skolemEntries, hus] at h ⊢
      exact ih h
    · simp only [prefixes, List.map_cons, Prefix.skolemEntries, List.cons.injEq] at h ⊢
      refine ⟨?_, ih h.2⟩
      rw [skolemEntry, h.1]

theorem term_skolemEntry (e : SkolemEntry) : (r.skolemEntry e).term = r.term e.term := by
  simp [SkolemEntry.term, skolemEntry, term, terms_eq_map, Function.comp_def]

theorem substitution_map_skolemEntry (es : List SkolemEntry) :
    SkolemEntry.substitution (es.map r.skolemEntry) =
      r.substitution (SkolemEntry.substitution es) := by
  simp only [SkolemEntry.substitution, substitution, ← List.map_reverse, List.map_map]
  refine List.map_congr_left fun e _ => ?_
  simp only [Function.comp, term_skolemEntry]
  rfl

end

end Relabeling

end Clausification

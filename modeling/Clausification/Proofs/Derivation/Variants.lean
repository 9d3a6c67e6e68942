import Mathlib.Data.Fintype.Sets
import Mathlib.Data.Fintype.Sum
import Mathlib.Logic.Equiv.Fintype
import Clausification.Clause.Horn
import Clausification.Proofs.Derivation.Names
import Clausification.Proofs.Form.Relabeling

/-!
# Clauses up to the names drawn

Two derivations may draw different names for the same binders and the same Skolem symbols. As soon as
the prefixes and matrices in front of the Skolem form are the same up to the names drawn, so are the
clauses. Formulas that differ in bound names only are the first case of this.
-/

namespace Clausification

/-- Some permutation of all names leads from one list to the other and leaves other names alone. -/
theorem exists_perm_map_eq {xs ys fixed : List String} (hlength : xs.length = ys.length)
    (hxs : xs.Nodup) (hys : ys.Nodup) (hxfixed : ∀ x ∈ xs, x ∉ fixed)
    (hyfixed : ∀ y ∈ ys, y ∉ fixed) :
    ∃ v : Equiv.Perm String, xs.map v = ys ∧ ∀ x ∈ fixed, v x = x := by
  have hinjective {zs : List String} (hzs : zs.Nodup) (hzfixed : ∀ z ∈ zs, z ∉ fixed)
      (hlen : xs.length = zs.length) :
      Function.Injective (Sum.elim (fun i : Fin xs.length => zs.get (i.cast hlen))
        fun x : {x // x ∈ fixed} => x.1) := by
    apply Function.Injective.sumElim _ Subtype.val_injective
    · intro i x h
      exact hzfixed _ (List.get_mem ..) (h ▸ x.2)
    · intro i j h
      exact Fin.cast_injective hlen (List.nodup_iff_injective_get.mp hzs h)
  obtain ⟨v, hv⟩ := Equiv.Perm.exists_extending_pair _ _ (hinjective hxs hxfixed rfl)
    (hinjective hys hyfixed hlength)
  refine ⟨v, List.ext_get (by simpa using hlength) fun n hn _ => ?_, fun x hx => hv (.inr ⟨x, hx⟩)⟩
  rw [List.length_map] at hn
  simpa using hv (.inl ⟨n, hn⟩)

/-- The second forms have other names for bound variables and for Skolem symbols, and clauses that
are the same but for these. -/
structure Forms.Variants (f : Formula) (F G : Forms) (r : Relabeling) : Prop where
  keeps : r.Keeps f
  var_injective : Function.Injective r.ofVariable
  function_injective : Function.Injective r.ofFunction
  skolemSymbols_eq : G.skolemSymbols = F.skolemSymbols.map r.ofFunction
  clauses_eq : G.clauses = F.clauses.map r.clause

namespace Relabeling
variable (r : Relabeling)

theorem kind_clause (c : Clause) : (r.clause c).kind = c.kind := by
  have hpositives : (r.clause c).positives = c.positives := by
    rw [clause, Clause.positives, List.countP_map]
    rfl
  have hnegatives : (r.clause c).negatives = c.negatives := by
    rw [Clause.negatives, Clause.negatives, hpositives, clause, List.length_map]
  rw [Clause.kind, Clause.kind, hpositives, hnegatives]

theorem existentials_prefixes (qs : Prefix) :
    (r.prefixes qs).existentials = qs.existentials.map r.ofVariable := by
  induction qs with
  | nil => rfl
  | cons p qs ih =>
    obtain ⟨_ | _, x⟩ := p
    · exact ih
    · exact congrArg (r.ofVariable x :: ·) ih

end Relabeling

theorem Forms.Variants.kinds_eq {f : Formula} {F G : Forms} {r : Relabeling}
    (h : F.Variants f G r) : G.clauses.map (·.kind) = F.clauses.map (·.kind) := by
  rw [h.clauses_eq, List.map_map]
  exact List.map_congr_left fun c _ => r.kind_clause c

namespace Formula
variable {f g : Formula} {r : Relabeling}

theorem skolemSymbols_eq_reverse (f : Formula) :
    f.plainForms.skolemSymbols = (f.skolemEntries.map (·.symbol)).reverse := by
  have htaken : f.skolemForm.2.taken =
      (f.skolemEntries.map (·.symbol)).reverse ++ f.renamedForm.2.taken :=
    Prefix.taken_skolemTerms ..
  have hfresh : ∀ s ∈ f.skolemEntries.map (·.symbol), s ∉ f.renamedForm.2.taken :=
    (Prefix.symbols_skolemEntries ..).2
  have hdrawn : f.plainForms.skolemSymbols =
      f.skolemForm.2.taken.filter (· ∉ f.renamedForm.2.taken) := rfl
  rw [hdrawn, htaken, List.filter_append, List.filter_eq_self.mpr, List.filter_eq_nil_iff.mpr,
    List.append_nil]
  · simp
  · exact fun s hs => decide_eq_true (hfresh s (List.mem_reverse.mp hs))

theorem clauses_eq_groups (f : Formula) : f.plainForms.clauses =
    (f.renamedForm.1.matrix.replace (SkolemEntry.substitution f.skolemEntries)).groups .and :=
  congrArg (groups .and) f.skolem_eq_replace

theorem skolemEntries_of_prefixes
    (hquantifiers : g.renamedForm.1.quantifiers = r.prefixes f.renamedForm.1.quantifiers)
    (hsymbols : (f.skolemEntries.map (·.symbol)).map r.ofFunction = g.skolemEntries.map (·.symbol)) :
    g.skolemEntries = f.skolemEntries.map r.skolemEntry := by
  rw [skolemEntries, skolemEntries, hquantifiers] at hsymbols ⊢
  exact Relabeling.skolemEntries_prefixes hsymbols

theorem clauses_of_matrix (hf : f.wellFormed) (hr : Function.Injective r.ofVariable)
    (hentries : g.skolemEntries = f.skolemEntries.map r.skolemEntry)
    (hmatrix : g.renamedForm.1.matrix = r.formula f.renamedForm.1.matrix) :
    g.plainForms.clauses = f.plainForms.clauses.map r.clause := by
  have hreplace := Relabeling.formula_replace (σ := SkolemEntry.substitution f.skolemEntries) hr
    (matrix_renamed hf).quantifierFree (wellFormed_matrix_renamed hf)
  rw [clauses_eq_groups, clauses_eq_groups, hentries, hmatrix,
    Relabeling.substitution_map_skolemEntry, ← r.groups_formula]
  exact congrArg (groups .and) hreplace.symm

/-- Prefix and matrix decide the clauses: it is enough that those of the second formula are what any
relabelling of the binders makes of those of the first. -/
theorem exists_variants (hf : f.wellFormed)
    (hlength : f.renamedForm.1.binders.length = g.renamedForm.1.binders.length)
    (hfree : f.freeVars ⊆ g.symbols) (hfunctions : f.functions ⊆ g.symbols)
    (h : ∀ r : Relabeling, r.Keeps f →
      f.renamedForm.1.binders.map r.ofVariable = g.renamedForm.1.binders →
        g.renamedForm.1.quantifiers = r.prefixes f.renamedForm.1.quantifiers ∧
          g.renamedForm.1.matrix = r.formula f.renamedForm.1.matrix) :
    ∃ r, f.plainForms.Variants f g.plainForms r := by
  obtain ⟨v, hbinders, hv⟩ := exists_perm_map_eq hlength f.binders_renamed_nodup
    g.binders_renamed_nodup
    (fun x hx hmem => f.binders_renamed_fresh x hx (f.freeVars_subset_symbols hmem))
    fun x hx hmem => g.binders_renamed_fresh x hx (hfree hmem)
  -- the binders fix the prefixes, and only with these the Skolem symbols are there to be compared
  have hquantifiers := (h ⟨id, id, v⟩ ⟨fun _ => rfl, fun _ _ => rfl, hv⟩ hbinders).1
  have hsymbols : (f.skolemEntries.map (·.symbol)).length =
      (g.skolemEntries.map (·.symbol)).length := by
    have hcount (f : Formula) :
        f.skolemEntries.length = f.renamedForm.1.quantifiers.existentials.length := by
      rw [← Prefix.map_var_skolemEntries f.renamedForm.1.quantifiers [] f.renamedForm.2,
        List.length_map]
      rfl
    rw [List.length_map, List.length_map, hcount, hcount, hquantifiers,
      Relabeling.existentials_prefixes, List.length_map]
  have hfresh (f : Formula) : ∀ s ∈ f.skolemEntries.map (·.symbol), s ∉ f.symbols :=
    fun s hs => f.skolemSymbols_fresh s (mem_skolemSymbols.mpr hs)
  obtain ⟨s, hsmap, hs⟩ := exists_perm_map_eq hsymbols (Prefix.symbols_skolemEntries ..).1
    (Prefix.symbols_skolemEntries ..).1
    (fun s hs hmem => hfresh f s hs (f.functions_subset_symbols hmem))
    fun s hs hmem => hfresh g s hs (hfunctions hmem)
  have hkeeps : Relabeling.Keeps ⟨id, s, v⟩ f := ⟨fun _ => rfl, hs, hv⟩
  refine ⟨⟨id, s, v⟩, hkeeps, v.injective, s.injective, ?_, ?_⟩
  · rw [skolemSymbols_eq_reverse, skolemSymbols_eq_reverse, ← hsmap, List.map_reverse]
  · exact clauses_of_matrix hf v.injective (skolemEntries_of_prefixes hquantifiers hsmap)
      (h _ hkeeps hbinders).2

theorem formula_renamed_of_alphaEquivalent (h : f.AlphaEquivalent g) (hf : f.wellFormed)
    (hkeeps : r.Keeps f)
    (hbinders : f.renamedForm.1.binders.map r.ofVariable = g.renamedForm.1.binders) :
    r.formula f.renamedForm.1 = g.renamedForm.1 := by
  have hforms : Alike [] f.plainForms.negationNormal g.plainForms.negationNormal :=
    (Alike.withoutImplications h).signed false
  refine Relabeling.formula_renamedWith_of_alike hforms (wellFormed_negationNormal hf)
    hkeeps.predicate (fun s hs => hkeeps.function s (f.functions_negationNormal_subset hs))
    (fun x hx y hxy => ?_) hbinders
  obtain rfl := Pairing.relates_nil.mp hxy
  exact congrArg Term.var (hkeeps.var x (f.mem_freeVars_negationNormal.mp hx))

theorem length_binders_of_alphaEquivalent (h : f.AlphaEquivalent g) :
    f.renamedForm.1.binders.length = g.renamedForm.1.binders.length := by
  have hforms := (Alike.withoutImplications h).signed false
  rw [renamedForm, renamedForm, length_binders_renamedWith,
    length_binders_renamedWith, hforms.length_binders]

/-- The clauses of formulas that differ in bound names only are the same up to variables that are not
free and Skolem symbols, literal by literal. -/
theorem clauses_ignore_bound_names (f g : Formula) (hf : f.wellFormed) (hg : g.wellFormed)
    (h : f.AlphaEquivalent g) :
    ∃ F G m n r, f.forms.run.run (Names.ofFormula f) = (.ok F, m) ∧
      g.forms.run.run (Names.ofFormula g) = (.ok G, n) ∧
      F.Variants f G r ∧
      G.clauses.length = F.clauses.length ∧
      G.clauses.map (·.kind) = F.clauses.map (·.kind) ∧
      allHorn (G.clauses.map (·.kind)) = allHorn (F.clauses.map (·.kind)) := by
  have hfunctions : f.functions ⊆ g.symbols := by
    rw [Alike.functions_eq h]
    exact g.functions_subset_symbols
  have hvariants : ∃ r, f.plainForms.Variants f g.plainForms r := by
    apply exists_variants hf (length_binders_of_alphaEquivalent h)
      (List.Subset.trans h.freeVars_subset g.freeVars_subset_symbols) hfunctions
    intro r hkeeps hbinders
    rw [← formula_renamed_of_alphaEquivalent h hf hkeeps hbinders]
    exact ⟨r.quantifiers_formula _, r.matrix_formula _⟩
  obtain ⟨r, hr⟩ := hvariants
  exact ⟨f.plainForms, g.plainForms, _, _, r, forms_eq hf, forms_eq hg, hr,
    by rw [hr.clauses_eq, List.length_map], hr.kinds_eq, congrArg allHorn hr.kinds_eq⟩

/-- The second formula has the name that the first one gets for its binder, so the first number is
skipped. -/
theorem clauses_ignore_bound_names_of_generated_look :
    let f : Formula := .all "x" (.ex "y" (.atom ⟨"P", [.var "x", .var "y", .var "z"]⟩))
    let g : Formula := .all "y" (.ex "y_1" (.atom ⟨"P", [.var "y", .var "y_1", .var "z"]⟩))
    f.wellFormed ∧ g.wellFormed ∧ f.AlphaEquivalent g ∧
      ∃ F G m n r, f.forms.run.run (Names.ofFormula f) = (.ok F, m) ∧
        g.forms.run.run (Names.ofFormula g) = (.ok G, n) ∧ F.Variants f G r := by
  intro f g
  have h : f.AlphaEquivalent g := .quant .all "x" "y" (.quant .ex "y" "y_1" (.atom (by decide)))
  obtain ⟨F, G, m, n, r, hF, hG, hr, -⟩ := clauses_ignore_bound_names f g rfl rfl h
  exact ⟨rfl, rfl, h, F, G, m, n, r, hF, hG, hr⟩

end Formula

end Clausification

import Clausification.Proofs.Derivation.Export

/-!
# The names of the forms

Every name in a form of a formula that was read is an identifier: it stood in the text, or it is such a
name with a number, or it is a Skolem symbol.
-/

namespace Clausification

theorem Term.mem_vars_or_functions {t : Term} (ht : t.wellFormed) {x : String} (hx : x ∈ t.symbols) :
    x ∈ t.vars ∨ x ∈ t.functions := by
  induction t with
  | var y => exact Or.inl hx
  | app g ts ih =>
    rw [wellFormed, allWellFormed_eq_all, List.all_eq_true] at ht
    rw [symbols, symbolsOfAll_eq_flatMap, List.mem_cons, List.mem_flatMap] at hx
    rw [vars, varsOfAll_eq_flatMap, functions, functionsOfAll_eq_flatMap, List.mem_cons,
      List.mem_flatMap, List.mem_flatMap]
    rcases hx with rfl | ⟨t, hmem, hx⟩
    · exact Or.inr (Or.inl rfl)
    · rcases ih t hmem (ht t hmem) hx with hvar | hfunction
      · exact Or.inl ⟨t, hmem, hvar⟩
      · exact Or.inr (Or.inr ⟨t, hmem, hfunction⟩)
  | stray p ts => simp [wellFormed] at ht

theorem Atom.eq_predicate_or_mem {a : Atom} (ha : a.wellFormed) {x : String} (hx : x ∈ a.symbols) :
    x = a.predicate ∨ x ∈ a.vars ∨ x ∈ a.functions := by
  rw [wellFormed, Term.allWellFormed_eq_all, List.all_eq_true] at ha
  rw [symbols, Term.symbolsOfAll_eq_flatMap, List.mem_cons, List.mem_flatMap] at hx
  rcases hx with hx | ⟨t, ht, hx⟩
  · exact Or.inl hx
  · apply Or.inr
    rcases Term.mem_vars_or_functions (ha t ht) hx with hvar | hfunction
    · exact Or.inl (List.mem_flatMap.mpr ⟨t, ht, hvar⟩)
    · exact Or.inr (List.mem_flatMap.mpr ⟨t, ht, hfunction⟩)

namespace Formula
variable {f g : Formula} {x : String}

theorem mem_binders_or_atoms (hx : x ∈ g.symbols) :
    x ∈ g.binders ∨ ∃ a ∈ g.atoms, x ∈ a.symbols := by
  induction g with
  | atom a => exact Or.inr ⟨a, List.mem_singleton_self a, hx⟩
  | not g ih => exact ih hx
  | binary c l r ihl ihr =>
    rw [binders, atoms, List.mem_append]
    simp only [List.mem_append, or_and_right, exists_or]
    rcases List.mem_append.mp hx with hx | hx
    · exact (ihl hx).imp Or.inl Or.inl
    · exact (ihr hx).imp Or.inr Or.inr
  | quant q y g ih =>
    rcases List.mem_cons.mp hx with rfl | hx
    · exact Or.inl List.mem_cons_self
    · exact (ih hx).imp_left (List.mem_cons_of_mem y)
  | term t => cases hx

theorem IsPlain.isIdentifier_of_mem_symbols (hg : g.IsPlain) (hx : x ∈ g.symbols) :
    isIdentifier x.toList := by
  refine isIdentifier_of_isName ?_
  rcases mem_binders_or_atoms hx with hx | ⟨a, ha, hx⟩
  · exact hg.isName_of_mem_binders hx
  · have hplain := hg.atoms ha
    rcases a.eq_predicate_or_mem hplain.wellFormed hx with rfl | hvar | hfunction
    · exact hplain.1
    · obtain ⟨t, ht, hvar⟩ := List.mem_flatMap.mp hvar
      obtain ⟨y, rfl, hy⟩ := hplain.2 t ht
      exact List.mem_singleton.mp hvar ▸ hy
    · rw [hplain.functions_eq_nil] at hfunction
      exact nomatch hfunction

/-- Every atom of the Skolem form stands in one of the clauses, so its names are those of clauses. -/
theorem isIdentifier_of_mem_atom (hf : f.IsPlain) {a : Atom} (ha : a ∈ f.plainForms.skolem.atoms)
    (hx : x ∈ a.symbols) : isIdentifier x.toList := by
  have hmatrix := skolem_plainForms hf.wellFormed
  have hwf := atom_wellFormed_of_wellFormed (wellFormed_skolem hf.wellFormed) a ha
  rw [← map_atom_literals hmatrix] at ha
  obtain ⟨l, hl, rfl⟩ := List.mem_map.mp ha
  obtain ⟨c, hc, hl⟩ : ∃ c ∈ f.plainForms.clauses, l ∈ c :=
    exists_mem_groups_of_mem_literals hmatrix hl
  rcases l.atom.eq_predicate_or_mem hwf hx with rfl | hvar | hfunction
  · exact isIdentifier_of_isName (isName_of_mem_predicates hf hc (List.mem_map_of_mem hl))
  · exact isIdentifier_of_isName (isName_of_mem_vars hf hc (List.mem_flatMap.mpr ⟨l, hl, hvar⟩))
  · have hmem : x ∈ c.functions := List.mem_flatMap.mpr ⟨l, hl, hfunction⟩
    exact Names.isIdentifier_of_isSkolemName (isSkolemName_of_mem_functions hf hc hmem)

theorem isIdentifier_of_mem_matrix (hf : f.IsPlain) (hg : g.Matrix)
    (hatoms : g.atoms ⊆ f.plainForms.skolem.atoms) (hx : x ∈ g.symbols) :
    isIdentifier x.toList := by
  rcases mem_binders_or_atoms hx with hx | ⟨a, ha, hx⟩
  · rw [hg.quantifierFree.binders_eq_nil] at hx
    exact nomatch hx
  · exact isIdentifier_of_mem_atom hf (hatoms ha) hx

theorem isIdentifier_of_mem_distributed (hf : f.IsPlain) {outer : Connective}
    (houter : outer.IsJunction) (hx : x ∈ (f.plainForms.skolem.distributed outer).symbols) :
    isIdentifier x.toList := by
  have hmatrix := skolem_plainForms hf.wellFormed
  exact isIdentifier_of_mem_matrix hf ((normalForm_distributed houter hmatrix).matrix houter)
    (atoms_distributed_subset houter hmatrix) hx

theorem isIdentifier_of_mem_form (hf : f.IsPlain) (stage : Stage)
    (hx : x ∈ (f.plainForms.form stage).symbols) : isIdentifier x.toList := by
  cases stage with
  | implicationFree => exact hf.withoutImplications.isIdentifier_of_mem_symbols hx
  | negationNormal => exact (hf.withoutImplications.signed false).isIdentifier_of_mem_symbols hx
  | renamed => exact hf.renamed.isIdentifier_of_mem_symbols hx
  | prenex => exact hf.prenex.isIdentifier_of_mem_symbols hx
  | skolem =>
    exact isIdentifier_of_mem_matrix hf (skolem_plainForms hf.wellFormed) (List.Subset.refl _) hx
  | conjunctive => exact isIdentifier_of_mem_distributed hf (Or.inl rfl) hx

theorem isIdentifier_of_mem_clause (hf : f.IsPlain) {c : Clause} (hc : c ∈ f.plainForms.clauses)
    {l : Literal} (hl : l ∈ c) (hx : x ∈ l.atom.symbols) : isIdentifier x.toList :=
  isIdentifier_of_mem_atom hf (atom_mem_of_mem_groups (skolem_plainForms hf.wellFormed) hc hl) hx

end Formula

end Clausification

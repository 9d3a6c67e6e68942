import Clausification.Proofs.Derivation.Forms
import Clausification.Proofs.Draws
import Clausification.Proofs.Formula.Capture

/-!
# Fresh names capture nothing

The source of names is set up for the input and used for the first time when the binders are renamed.
It still knows every name of the formula that is renamed: the stages in between copy and turn
subformulas, but neither bring names in nor lose any. A name that it gives can thus take the place of
any binder, as putting in variables without capture changes nothing but the names of bound variables.
-/

namespace Clausification

namespace Substitution
variable {σ : Substitution}

theorem IsRenaming.hide (h : σ.IsRenaming) (x : String) : (σ.hide x).IsRenaming := by
  intro y
  by_cases hyx : y = x
  · rw [hyx, σ.get_hide_self]
    rfl
  · rw [σ.get_hide_of_ne hyx]
    exact h y

end Substitution

namespace Formula

section
variable {f : Formula} {p : Pairing} {σ : Substitution} {q : Quantifier} {x y : String}

/-- Variables put in without capture stand in the places of those that they replace. -/
theorem alike_replace (hσ : σ.IsRenaming) (hfree : f.CaptureFree σ)
    (hp : ∀ x ∈ f.freeVars, p.relates x (σ.get x).name) : Alike p f (f.replace σ) := by
  induction f generalizing p σ with
  | atom a => exact .atom (Atom.alike_replace hσ hp)
  | not f ih => exact .not (ih hσ hfree hp)
  | binary c l r ihl ihr =>
    obtain ⟨hl, hr⟩ := captureFree_binary.mp hfree
    obtain ⟨hpl, hpr⟩ := List.forall_mem_append.mp hp
    exact .binary c (ihl hσ hl hpl) (ihr hσ hr hpr)
  | quant q z f ih =>
    refine .quant q z z (ih (hσ.hide z) hfree.body fun w hw => Pairing.relates_cons.mpr ?_)
    by_cases hwz : w = z
    · rw [hwz, σ.get_hide_self]
      exact Or.inl ⟨rfl, rfl⟩
    · -- the quantifier does not get hold of what is put in for another variable
      have hcapture : z ∉ (σ.get w).vars := hfree.not_mem_vars hw hwz
      rw [hσ w] at hcapture
      rw [σ.get_hide_of_ne hwz]
      exact Or.inr ⟨hwz, fun hname => hcapture (List.mem_singleton.mpr hname.symm),
        hp w (mem_freeVars_quant.mpr ⟨hw, hwz⟩)⟩
  | term t => exact .term t

theorem captureFree_var (hy : y ∉ f.symbols) : f.CaptureFree [(x, .var y)] := by
  rintro ⟨z, above⟩ ho t ht w hw hwt
  obtain rfl : Term.var y = t := by
    by_cases hzx : z = x
    · rw [hzx, List.lookup_cons_self, Option.mem_some_iff] at ht
      exact ht
    · rw [List.lookup_cons, beq_eq_false_iff_ne.mpr hzx] at ht
      cases ht
  obtain rfl : w = y := List.mem_singleton.mp hwt
  exact hy (f.binders_subset_symbols (above_subset_binders ho hw))

/-- A quantifier may have any variable that does not occur in its body. -/
theorem alphaEquivalent_quant (hy : y ∉ f.symbols) :
    (quant q x f).AlphaEquivalent (quant q y (f.replace [(x, .var y)])) := by
  have hσ : Substitution.IsRenaming [(x, .var y)] := Substitution.isRenaming_nil.cons x y
  refine .quant q x y (alike_replace hσ (captureFree_var hy) fun z hz => Pairing.relates_cons.mpr ?_)
  by_cases hzx : z = x
  · rw [hzx, Substitution.get_cons_self]
    exact Or.inl ⟨rfl, rfl⟩
  · rw [Substitution.get_cons_of_ne [] _ hzx]
    exact Or.inr ⟨hzx, fun hzy => hy (f.freeVars_subset_symbols (hzy ▸ hz)),
      Pairing.relates_nil.mpr rfl⟩

end

theorem mem_taken_ofFormula (f : Formula) {x : String} :
    x ∈ (Names.ofFormula f).taken ↔ x ∈ f.plainForms.negationNormal.symbols :=
  f.mem_symbols_negationNormal.symm

theorem not_mem_symbols_of_drawn (f : Formula) {ds : List Draw} {y : String}
    (hy : y ∈ ((Names.ofFormula f).drawAll ds).1) : y ∉ f.plainForms.negationNormal.symbols :=
  fun hsymbol => (Names.drawAll_fresh ds _).2 y hy (f.mem_taken_ofFormula.mpr hsymbol)

/-- Without its implications a formula has the names that it had, and so has its negation normal form;
neither these stages nor the two after them change which variables are free, if renaming starts from
a source that knows those variables and, for the prenex form, none of them is bound as well. So the
source set up for the input of the first stage holds just the names of the formula that gets to
renaming, and what is drawn from it, by renaming itself or in any other way, occurs nowhere in this
formula: every quantifier in it can be given such a variable, for its own, without any capture. -/
theorem names_of_stages_are_known :
    (∀ f : Formula, f.wellFormed → ∃ g, f.implicationFree = .ok g ∧
      (∀ x, x ∈ g.symbols ↔ x ∈ f.symbols) ∧ ∀ x, x ∈ g.freeVars ↔ x ∈ f.freeVars) ∧
    (∀ f : Formula, f.ImplicationFree → ∃ g, f.negationNormal = .ok g ∧
      (∀ x, x ∈ g.symbols ↔ x ∈ f.symbols) ∧ ∀ x, x ∈ g.freeVars ↔ x ∈ f.freeVars) ∧
    (∀ (f : Formula) (names : Names), f.wellFormed → f.freeVars ⊆ names.taken →
      ∃ g names', f.rename.run.run names = (.ok g, names') ∧
        ∀ x, x ∈ g.freeVars ↔ x ∈ f.freeVars) ∧
    (∀ f : Formula, f.NegationNormal → (∀ x ∈ f.binders, x ∉ f.freeVars) →
      ∃ g, f.prenex = .ok g ∧ ∀ x, x ∈ g.freeVars ↔ x ∈ f.freeVars) ∧
    ∀ f : Formula, f.wellFormed → ∃ g h k p names,
      f.implicationFree = .ok g ∧ g.negationNormal = .ok h ∧
      h.rename.run.run (Names.ofFormula f) = (.ok k, names) ∧ k.prenex = .ok p ∧
      (∀ x, x ∈ (Names.ofFormula f).taken ↔ x ∈ h.symbols) ∧
      (Names.ofFormula f).drawAll (h.binders.map .renamed) = (k.binders, names) ∧
      h.AlphaEquivalent k ∧ (∀ x, x ∈ p.freeVars ↔ x ∈ f.freeVars) ∧
      ∀ ds, ∀ y ∈ ((Names.ofFormula f).drawAll ds).1, y ∉ h.symbols ∧
        ∀ q x b, quant q x b ∈ h.subformulas → b.CaptureFree [(x, .var y)] ∧
          ∃ b', b.substitute [(x, .var y)] = .ok b' ∧
            (quant q x b).AlphaEquivalent (quant q y b') := by
  refine ⟨fun f hf => ?_, fun f hf => ?_, fun f names hf hfree => ?_, fun f hf hfree => ?_,
    fun f hf => ?_⟩
  · exact ⟨f.withoutImplications, implicationFree_eq hf, fun _ => mem_symbols_withoutImplications,
      fun _ => mem_freeVars_withoutImplications⟩
  · refine ⟨f.signed false, negationNormal_eq hf, fun x => ?_, fun x => ?_⟩
    · rw [symbols_signed]
    · rw [freeVars_signed]
  · exact ⟨(f.renamedWith [] names).1, (f.renamedWith [] names).2, rename_eq hf names,
      fun _ => (alphaEquivalent_renamedWith hfree).mem_freeVars_iff⟩
  · exact ⟨_, prenex_eq hf.implicationFree, fun _ => Prenex.mem_freeVars_formula_matrix hfree⟩
  · refine ⟨f.plainForms.implicationFree, f.plainForms.negationNormal, f.plainForms.renamed,
      f.plainForms.prenex, f.renamedForm.2, stage_implicationFree hf, stage_negationNormal hf,
      stage_renamed hf, stage_prenex hf, fun _ => f.mem_taken_ofFormula, ?_,
      f.alphaEquivalent_renamed, fun _ => f.mem_freeVars_prenex, fun ds y hy => ?_⟩
    · rw [Names.drawAll_renamed]
      exact freshVariables_binders _ [] _
    · have hfresh := f.not_mem_symbols_of_drawn hy
      refine ⟨hfresh, fun q x b hb => ?_⟩
      have hbody : y ∉ b.symbols := fun hsymbol =>
        hfresh (symbols_subset_of_mem_subformulas hb (List.mem_cons_of_mem x hsymbol))
      have hquant := wellFormed_of_mem_subformulas (wellFormed_negationNormal hf) hb
      have hwf : b.wellFormed := hquant
      exact ⟨captureFree_var hbody, _, substitute_eq hwf _, alphaEquivalent_quant hbody⟩

/-- Both sides are doubled with their binders. The name that would be drawn first is free in one of
them. -/
theorem names_of_stages_are_known_of_doubled_binders :
    let P (y : String) : Formula := .atom ⟨"P", [.var y, .var "x_1"]⟩
    let Q : Formula := .atom ⟨"Q", [.app "f" [.var "x"]]⟩
    let f : Formula := .iff (.all "x" (P "x")) (.ex "x" Q)
    let h : Formula := .and (.or (.ex "x" (.not (P "x"))) (.ex "x" Q))
      (.or (.all "x" (.not Q)) (.all "x" (P "x")))
    let k : Formula := .not (.all "x" (P "x"))
    let n : Formula := .or (.all "y" (P "y")) (.ex "x" (.not (P "x")))
    let names : Names := { taken := ["x_1"], renamed := -1 }
    f.wellFormed ∧ k.ImplicationFree ∧ k.freeVars ⊆ names.taken ∧ n.NegationNormal ∧
      (∀ x ∈ n.binders, x ∉ n.freeVars) ∧
      (∃ g, f.implicationFree = .ok g ∧ ∀ x, x ∈ g.symbols ↔ x ∈ f.symbols) ∧
      (∃ g, k.negationNormal = .ok g ∧ ∀ x, x ∈ g.symbols ↔ x ∈ k.symbols) ∧
      (∃ g names', k.rename.run.run names = (.ok g, names') ∧
        ∀ x, x ∈ g.freeVars ↔ x ∈ k.freeVars) ∧
      (∃ g, n.prenex = .ok g ∧ ∀ x, x ∈ g.freeVars ↔ x ∈ n.freeVars) ∧
      (∃ k' p names', h.rename.run.run (Names.ofFormula f) = (.ok k', names') ∧
        k'.prenex = .ok p ∧ k'.binders = ["x_2", "x_3", "x_4", "x_5"] ∧ h.AlphaEquivalent k' ∧
        ∀ x, x ∈ p.freeVars ↔ x ∈ f.freeVars) ∧
      "x_2" ∈ ((Names.ofFormula f).drawAll [.renamed "x"]).1 ∧ "x_2" ∉ h.symbols ∧
      .ex "x" (.not (P "x")) ∈ h.subformulas ∧
      (Formula.not (P "x")).CaptureFree [("x", .var "x_2")] ∧
      (Formula.ex "x" (.not (P "x"))).AlphaEquivalent (.ex "x_2" (.not (P "x_2"))) := by
  intro P Q f h k n names
  have hf : f.wellFormed := rfl
  have hk : k.ImplicationFree := .not (.quant .all "x" (.atom _))
  have hknown : k.freeVars ⊆ names.taken := by decide
  have hn : n.NegationNormal :=
    .binary (Or.inr rfl) (.quant .all "y" (.atom _)) (.quant .ex "x" (.negated _))
  have hfree : ∀ x ∈ n.binders, x ∉ n.freeVars := by decide
  have hdrawn : "x_2" ∈ ((Names.ofFormula f).drawAll [.renamed "x"]).1 := by decide +kernel
  have hquant : .ex "x" (.not (P "x")) ∈ h.subformulas := by decide
  have hbinders : ((Names.ofFormula f).drawAll (h.binders.map .renamed)).1 =
      ["x_2", "x_3", "x_4", "x_5"] := by decide +kernel
  obtain ⟨helimination, hnegation, hrenaming, hprenexing, hchain⟩ := names_of_stages_are_known
  obtain ⟨g, hg, hsymbols, -⟩ := helimination f hf
  obtain ⟨g', hg', hsymbols', -⟩ := hnegation k hk
  obtain ⟨e, h', k', p, names', he, hh, hrun, hp, -, hdraws, halpha, hvars, hfresh⟩ := hchain f hf
  obtain rfl : f.withoutImplications = e := Except.ok.inj ((implicationFree_eq hf).symm.trans he)
  obtain rfl : h = h' := Except.ok.inj
    ((negationNormal_eq (implicationFree_withoutImplications hf)).symm.trans hh)
  rw [hdraws] at hbinders
  obtain ⟨hnew, hquantifiers⟩ := hfresh _ "x_2" hdrawn
  obtain ⟨hcapture, b, hb, hex⟩ := hquantifiers .ex "x" (.not (P "x")) hquant
  obtain rfl : Formula.not (P "x_2") = b :=
    Except.ok.inj ((substitute_eq (f := .not (P "x")) rfl _).symm.trans hb)
  exact ⟨hf, hk, hknown, hn, hfree, ⟨g, hg, hsymbols⟩, ⟨g', hg', hsymbols'⟩,
    hrenaming k names rfl hknown, hprenexing n hn hfree, ⟨k', p, names', hrun, hp, hbinders, halpha,
    hvars⟩, hdrawn, hnew, hquant, hcapture, hex⟩

end Formula

end Clausification

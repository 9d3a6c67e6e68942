import Clausification.Proofs.Form.Grafting
import Clausification.Proofs.Form.NegationNormal

/-!
# What the passes leave alone

A pass rebuilds a formula from its leaves, and a check looks through the nodes from the front. Still
they agree: of the formulas that a pass accepts it leaves alone those in which the check of its form
finds nothing, and no others. The check finds nothing in what the pass returns, so a second run of the
pass changes nothing.
-/

namespace Clausification

/-- A pass accepts a class of formulas, and leaves alone those of them in which a check finds
nothing. -/
structure Settles (pass : Formula → Except Obstacle Formula) (accepted : Formula → Prop)
    (check : String → Formula → List Issue) : Prop where
  accepts_iff : ∀ f, (∃ g, pass f = .ok g) ↔ accepted f
  eq_self_iff : ∀ f g path, pass f = .ok g → (g = f ↔ check path f = [])
  idempotent : ∀ f g, pass f = .ok g → pass g = .ok g

/-- It is enough that the check finds nothing in any result, and that the pass leaves alone whatever
the check finds nothing in. -/
theorem Settles.of_result {pass : Formula → Except Obstacle Formula} {accepted : Formula → Prop}
    {check : String → Formula → List Issue} {result : Formula → Formula}
    (hpass : ∀ f, accepted f → pass f = .ok (result f))
    (haccepted : ∀ f g, pass f = .ok g → accepted f)
    (hresult : ∀ f, accepted f → accepted (result f))
    (hnormal : ∀ f path, accepted f → check path (result f) = [])
    (hstable : ∀ f path, accepted f → check path f = [] → result f = f) :
    Settles pass accepted check where
  accepts_iff f := ⟨fun ⟨g, h⟩ => haccepted f g h, fun h => ⟨result f, hpass f h⟩⟩
  eq_self_iff f g path h := by
    have hf := haccepted f g h
    obtain rfl : result f = g := Except.ok.inj ((hpass f hf).symm.trans h)
    constructor
    · intro heq
      rw [← heq]
      exact hnormal f path hf
    · exact hstable f path hf
  idempotent f g h := by
    have hf := haccepted f g h
    obtain rfl : result f = g := Except.ok.inj ((hpass f hf).symm.trans h)
    have hg := hresult f hf
    rw [hpass _ hg, hstable _ "" hg (hnormal f "" hf)]

namespace Formula
variable {f g : Formula}

theorem proper_of_implicationFree_eq_ok (h : f.implicationFree = .ok g) : f.Proper := by
  refine of_forall_mem_subformulas (fun f hf hkids => ?_) (visited_of_fold_eq_ok h)
  obtain ⟨results, r, hr⟩ := hf
  refine .of_children ?_ hkids
  rintro t rfl
  simp [implicationFreeNode] at hr

/-- A fold that stops at implications, equivalences and terms. -/
theorem implicationFree_of_fold_eq_ok {β : Type} [Inhabited β]
    {visit : Formula → List β → Except Obstacle β}
    (hbinary : ∀ c l r results x, visit (.binary c l r) results = .ok x → c.IsJunction)
    (hterm : ∀ t results x, visit (.term t) results ≠ .ok x) {x : β} (h : fold visit f = .ok x) :
    f.ImplicationFree := by
  refine of_forall_mem_subformulas (fun f hf hkids => ?_) (visited_of_fold_eq_ok h)
  obtain ⟨results, x, hx⟩ := hf
  cases f with
  | atom a => exact .atom a
  | not f => exact .not (hkids f (by simp [children]))
  | binary c l r =>
    exact .binary (hbinary c l r results x hx) (hkids l (by simp [children]))
      (hkids r (by simp [children]))
  | quant q y f => exact .quant q y (hkids f (by simp [children]))
  | term t => exact absurd hx (hterm t results x)

theorem implicationFree_of_negationNormal_eq_ok (h : f.negationNormal = .ok g) :
    f.ImplicationFree := by
  obtain ⟨p, hp, -⟩ := map_eq_ok.mp h
  refine implicationFree_of_fold_eq_ok (fun c l r results x hx => ?_) (fun t results x hx => ?_) hp
  · cases c <;> simp_all [polarizedNode, Connective.IsJunction]
  · simp [polarizedNode] at hx

theorem implicationFree_of_prenex_eq_ok (h : f.prenex = .ok g) : f.ImplicationFree := by
  obtain ⟨p, hp, -⟩ := map_eq_ok.mp h
  refine implicationFree_of_fold_eq_ok (fun c l r results x hx => ?_) (fun t results x hx => ?_) hp
  · cases c <;> simp_all [prenexNode, Connective.IsJunction]
  · simp [prenexNode] at hx

theorem eq_or_eq_of_distributeNode_eq_ok {pass : Pass} {outer inner c : Connective}
    {l r : Formula} {results : List Formula}
    (h : distributeNode pass outer inner (.binary c l r) results = .ok g) :
    c = outer ∨ c = inner := by
  by_contra hc
  obtain ⟨houter, hinner⟩ := not_or.mp hc
  rcases results with _ | ⟨x, _ | ⟨y, _ | _⟩⟩ <;> simp [distributeNode, houter, hinner] at h

theorem boolean_of_distribute_eq_ok {pass : Pass} {outer : Connective} (houter : outer.IsJunction)
    (h : distribute pass outer outer.dual f = .ok g) : f.Boolean := by
  refine of_forall_mem_subformulas (fun f hf hkids => ?_) (visited_of_fold_eq_ok h)
  obtain ⟨results, r, hr⟩ := hf
  cases f with
  | atom a => exact .atom a
  | not f => exact .not (hkids f (by simp [children]))
  | binary c l r =>
    have hc : c.IsJunction := by
      rcases eq_or_eq_of_distributeNode_eq_ok hr with rfl | rfl
      · exact houter
      · exact houter.dual
    exact .binary hc (hkids l (by simp [children])) (hkids r (by simp [children]))
  | quant q x f => simp [distributeNode] at hr
  | term t => simp [distributeNode] at hr

theorem ImplicationFree.matrix (hf : f.ImplicationFree) : f.matrix.ImplicationFree := by
  induction hf with
  | atom a => exact .atom a
  | not _ ih => exact .not ih
  | binary hc _ _ ihl ihr => exact .binary hc ihl ihr
  | quant q x _ ih => exact ih

theorem ImplicationFree.quantifierFree_matrix (hf : f.ImplicationFree) :
    f.matrix.QuantifierFree := by
  induction hf with
  | atom a => exact .atom a
  | not _ ih => exact .not ih
  | binary hc _ _ ihl ihr => exact .binary _ ihl ihr
  | quant q x _ ih => exact ih

theorem ImplicationFree.formula (qs : Prefix) (hf : f.ImplicationFree) :
    (Prenex.formula ⟨qs, f⟩).ImplicationFree := by
  induction qs with
  | nil => exact hf
  | cons p qs ih => exact .quant p.1 p.2 ih

theorem QuantifierFree.formula_quantifiers_matrix (hf : f.QuantifierFree) :
    Prenex.formula ⟨f.quantifiers, f.matrix⟩ = f := by
  rw [hf.quantifiers_eq_nil, hf.matrix_eq]
  rfl

theorem formula_quantifiers_matrix (hf : (Invariant.behindPrefix f).QuantifierFree) :
    Prenex.formula ⟨f.quantifiers, f.matrix⟩ = f := by
  induction f with
  | quant q x f ih => exact congrArg (Formula.quant q x) (ih hf)
  | atom | not | binary | term => exact QuantifierFree.formula_quantifiers_matrix hf

section
variable {outer : Connective}

theorem Boolean.graft {leaf : Formula → Formula} (houter : outer.IsJunction)
    (hleaf : ∀ f, f.Boolean → (leaf f).Boolean) (hf : f.Boolean) :
    (f.graft outer leaf).Boolean := by
  apply graft_induction (P := fun f g => f.Boolean → g.Boolean) ?_ (fun f _ => hleaf f) f hf
  intro l l' r r' hl hr h
  cases h with
  | binary _ hleft hright => exact .binary houter (hl hleft) (hr hright)

theorem Boolean.distributed (houter : outer.IsJunction) (hf : f.Boolean) :
    (f.distributed outer).Boolean := by
  induction hf with
  | atom a => exact .atom a
  | not _ ih => exact .not ih
  | binary _ _ _ ihl ihr =>
    rw [Formula.distributed]
    split
    · exact .binary houter ihl ihr
    · exact ihl.graft houter fun _ hx => ihr.graft houter fun _ hy => .binary houter.dual hx hy

/-- Distribution has nothing to do where the outer connective never is below the inner one. -/
theorem distributed_eq_self (houter : outer.IsJunction) (hf : f.Boolean)
    (h : f.NeverOver outer.dual outer) : f.distributed outer = f := by
  induction hf with
  | atom a => rfl
  | not _ ih => exact congrArg Formula.not (ih (neverOver_not.mp h))
  | @binary c l r hc _ _ ihl ihr =>
    obtain ⟨htop, hl, hr⟩ := neverOver_binary.mp h
    rw [distributed, ihl hl, ihr hr]
    rcases hc.eq_or_eq_dual houter with rfl | rfl
    · rw [if_pos rfl]
    · obtain ⟨hleft, hright⟩ := htop rfl
      rw [if_neg houter.dual_ne, pairUp, graft_of_kind_ne hleft, graft_of_kind_ne hright]

end

theorem settles_implicationFree : Settles implicationFree Proper Invariant.implicationFree := by
  have hresult : ∀ f : Formula, f.Proper → f.withoutImplications.ImplicationFree :=
    fun f hf => hf.implicationFree_withoutImplications
  refine .of_result (fun f hf => hf.implicationFree_eq)
    (fun f g h => proper_of_implicationFree_eq_ok h) (fun f hf => (hresult f hf).proper)
    (fun f path hf => Invariant.implicationFree_eq_nil path (hresult f hf)) fun f path hf h => ?_
  exact ((Invariant.implicationFree_eq_nil_iff path hf).mp h).withoutImplications_eq

theorem settles_negationNormal :
    Settles negationNormal ImplicationFree Invariant.negationNormal := by
  have hresult : ∀ f : Formula, f.ImplicationFree → (f.signed false).NegationNormal :=
    fun f hf => negationNormal_signed hf false
  refine .of_result (fun f hf => negationNormal_eq hf)
    (fun f g h => implicationFree_of_negationNormal_eq_ok h)
    (fun f hf => (hresult f hf).implicationFree)
    (fun f path hf => Invariant.negationNormal_eq_nil path (hresult f hf)) fun f path hf h => ?_
  exact ((Invariant.negationNormal_eq_nil_iff path hf.proper).mp h).signed_eq

theorem settles_prenex : Settles prenex ImplicationFree Invariant.prenex := by
  refine .of_result (fun f hf => prenex_eq hf) (fun f g h => implicationFree_of_prenex_eq_ok h)
    (fun f hf => hf.matrix.formula f.quantifiers)
    (fun f path hf => Invariant.prenex_eq_nil path _ hf.quantifierFree_matrix) fun f path hf h => ?_
  exact formula_quantifiers_matrix ((Invariant.prenex_eq_nil_iff path hf.proper).mp h)

theorem settles_distribute (pass : Pass) {outer : Connective} (houter : outer.IsJunction)
    {check : String → Formula → List Issue}
    (hcheck : ∀ f path, check path f = [] ↔ f.NeverOver outer.dual outer) :
    Settles (distribute pass outer outer.dual) Boolean check := by
  refine .of_result (fun f hf => distribute_eq pass houter hf)
    (fun f g h => boolean_of_distribute_eq_ok houter h) (fun f hf => hf.distributed houter)
    (fun f path hf => ?_) fun f path hf h => ?_
  · exact (hcheck _ path).mpr (neverOver_distributed houter hf)
  · exact distributed_eq_self houter hf ((hcheck f path).mp h)

/-- Each pass leaves a formula that it accepts as it is exactly if the check of its form finds
nothing there, after whichever step the check is made, and is idempotent. The elimination of
implications accepts all formulas in which no term stands for a formula, the next two passes those
without implications, and distribution those of negations, conjunctions and disjunctions. -/
theorem passes_leave_alone_what_checks_pass :
    Settles implicationFree Proper Invariant.implicationFree ∧
      Settles negationNormal ImplicationFree Invariant.negationNormal ∧
      Settles prenex ImplicationFree Invariant.prenex ∧
      Settles conjunctive Boolean Invariant.conjunctive ∧
      Settles disjunctive Boolean Invariant.disjunctive :=
  ⟨settles_implicationFree, settles_negationNormal, settles_prenex,
    settles_distribute .conjunctive (Or.inl rfl) fun _ => Invariant.conjunctive_eq_nil_iff,
    settles_distribute .disjunctive (Or.inr rfl) fun _ => Invariant.disjunctive_eq_nil_iff⟩

/-- Without its doubled negation the formula is in negation normal form, and in disjunctive normal
form as well. -/
theorem passes_leave_alone_what_checks_pass_of_double_negation :
    let p : Formula := .atom ⟨"p", [.var "x"]⟩
    let q : Formula := .atom ⟨"q", []⟩
    let g : Formula := .or p (.and q (.not p))
    let f : Formula := .not (.not g)
    f.negationNormal = .ok g ∧ (∀ path, Invariant.negationNormal path f ≠ []) ∧
      g.negationNormal = .ok g ∧ (∀ path, Invariant.negationNormal path g = []) ∧
      g.disjunctive = .ok g := by
  intro p q g f
  have hboolean : g.Boolean :=
    .binary (Or.inr rfl) (.atom _) (.binary (Or.inl rfl) (.atom _) (.not (.atom _)))
  have hfree : f.ImplicationFree := .not (.not
    (.binary (Or.inr rfl) (.atom _) (.binary (Or.inl rfl) (.atom _) (.not (.atom _)))))
  have hf : f.negationNormal = .ok g := negationNormal_eq hfree
  obtain ⟨-, hnormal, -, -, hdisjunctive⟩ := passes_leave_alone_what_checks_pass
  have hg := hnormal.idempotent f g hf
  obtain ⟨h, hh⟩ := (hdisjunctive.accepts_iff g).mpr hboolean
  have hsame : h = g := (hdisjunctive.eq_self_iff g h "dnf" hh).mpr (by decide)
  refine ⟨hf, fun path hnil => ?_, hg, fun path => (hnormal.eq_self_iff g g path hg).mp rfl, ?_⟩
  · exact nomatch (hnormal.eq_self_iff f g path hf).mpr hnil
  · rw [hh, hsame]

end Formula

end Clausification

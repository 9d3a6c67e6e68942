import Clausification.Proofs.Clause.Extraction
import Clausification.Proofs.Clause.Reading

/-!
# Which formulas fall apart into clauses

Conjunctions of disjunctions of literals do, however they are nested, and nothing else. Taking
apart works on a list of pending formulas; what it leaves are the largest parts of the formula that
are not built by the connective, left to right. The first of these parts that is no literal is what
is in the way of the clauses.
-/

namespace Clausification.Formula

universe u

variable {c : Connective} {f g : Formula}

/-- The largest parts of a formula that are not built by `c`, left to right. -/
def parts (c : Connective) : Formula → List Formula
  | .binary c' l r => if c' = c then l.parts c ++ r.parts c else [.binary c' l r]
  | f => [f]

theorem parts_of_kind_ne (hf : f.kind ≠ .binary c) : f.parts c = [f] := by
  cases f with
  | binary c' l r => exact if_neg fun h => hf (congrArg Kind.binary h)
  | _ => rfl

theorem parts_binary_self (l r : Formula) : (binary c l r).parts c = l.parts c ++ r.parts c :=
  if_pos rfl

theorem operands_eq_parts (c : Connective) (f : Formula) : f.operands c = f.parts c := by
  induction f using skeleton_induction (c := c) with
  | leaf f hf => rw [operands_of_kind_ne hf, parts_of_kind_ne hf]
  | join l r hl hr => rw [operands_binary_self, parts_binary_self, hl, hr]

theorem joined_of_forall_parts {P : Formula → Prop} (h : ∀ g ∈ f.parts c, P g) : Joined c P f := by
  induction f using skeleton_induction (c := c) with
  | leaf f hf =>
    rw [parts_of_kind_ne hf] at h
    exact .leaf (List.forall_mem_singleton.mp h)
  | join l r hl hr =>
    rw [parts_binary_self, List.forall_mem_append] at h
    exact .join (hl h.1) (hr h.2)

/-- The operands of the operands of a formula that ought to be literals, left to right. -/
def wouldBeLiterals (f : Formula) : List Formula := (f.parts .and).flatMap (parts .or)

def firstNonLiteral? (f : Formula) : Option Formula := f.wouldBeLiterals.find? fun g => !g.isLiteral

theorem stop?_literal (f : Formula) :
    stop? f.literal = (Option.guard (fun g => !g.isLiteral) f).map (.node .extraction ·.kind) := by
  match f with
  | .atom _ | .not (.atom _) | .not (.not _) | .not (.binary ..) | .not (.quant ..) | .not (.term _)
  | .binary .. | .quant .. | .term _ => rfl

theorem stop?_clause (f : Formula) : stop? f.clause =
    ((f.parts .or).find? fun g => !g.isLiteral).map (.node .extraction ·.kind) := by
  rw [clause, stop?_mapM, operands_eq_parts, ← List.findSome?_guard, List.map_findSome?]
  exact congrArg (List.findSome? · (f.parts .or)) (funext stop?_literal)

theorem stop?_clauses (f : Formula) :
    stop? f.clauses = f.firstNonLiteral?.map (.node .extraction ·.kind) := by
  rw [clauses, stop?_mapM, operands_eq_parts, firstNonLiteral?, wouldBeLiterals, List.find?_flatMap,
    List.map_findSome?]
  exact congrArg (List.findSome? · (f.parts .and)) (funext stop?_clause)

theorem normalForm_of_firstNonLiteral?_eq_none (h : f.firstNonLiteral? = none) :
    NormalForm .and f := by
  rw [firstNonLiteral?, List.find?_eq_none] at h
  refine joined_of_forall_parts fun d hd => joined_of_forall_parts fun g hg => ?_
  simpa using h g (List.mem_flatMap.mpr ⟨d, hd, hg⟩)

theorem Group.map_formula_literals (hf : Group .or f) :
    f.literals.map Literal.formula = f.parts .or := by
  induction hf with
  | @leaf f hf =>
    match f, hf with
    | .atom _, _ | .not (.atom _), _ => rfl
  | join _ _ ihl ihr => rw [literals, List.map_append, ihl, ihr, parts_binary_self]

theorem NormalForm.map_formula_groups (hf : NormalForm .and f) :
    (f.groups .and).map (List.map Literal.formula) = (f.parts .and).map (parts .or) := by
  induction hf with
  | leaf hf =>
    rw [hf.groups_eq (Or.inl rfl), parts_of_kind_ne (Group.kind_ne (by decide) hf)]
    exact congrArg ([·]) hf.map_formula_literals
  | join _ _ ihl ihr =>
    rw [groups_binary_self, parts_binary_self, List.map_append, List.map_append, ihl, ihr]

/-- The conjunctions of disjunctions of literals, and only they, fall apart into clauses: one for
each part of the conjunction, with one literal for each part of this disjunction, in their order.
No clause is empty, and the formula is true exactly if some literal of each clause is. Any other
formula is reported with the first part of a part that is no literal. -/
theorem clauses_are_parts_of_parts (f : Formula) :
    ((∃ cs, f.clauses = .ok cs) ↔ NormalForm .and f) ∧
      (∀ cs, f.clauses = .ok cs →
        cs.map (List.map Literal.formula) = (f.parts .and).map (parts .or) ∧ (∀ c ∈ cs, c ≠ []) ∧
          ∀ (D : Type u) [Nonempty D] (M : Interpretation D) (ρ : Assignment D),
            f.holds M ρ ↔ ∀ c ∈ cs, Clause.holds M ρ c) ∧
      (¬ NormalForm .and f → ∃ g, f.firstNonLiteral? = some g ∧
        f.clauses = .error (.node .extraction g.kind)) := by
  have hclauses (hf : NormalForm .and f) : f.clauses = .ok (f.groups .and) := hf.mapM_clause
  have hnormal (cs : List Clause) (h : f.clauses = .ok cs) : NormalForm .and f := by
    have hstop : stop? f.clauses = none := stop?_eq_none.mpr ⟨cs, h⟩
    rw [stop?_clauses, Option.map_eq_none_iff] at hstop
    exact normalForm_of_firstNonLiteral?_eq_none hstop
  refine ⟨⟨fun ⟨cs, h⟩ => hnormal cs h, fun hf => ⟨_, hclauses hf⟩⟩, ?_, ?_⟩
  · intro cs h
    have hf := hnormal cs h
    obtain rfl : f.groups .and = cs := Except.ok.inj ((hclauses hf).symm.trans h)
    refine ⟨hf.map_formula_groups, fun c => ne_nil_of_mem_groups, ?_⟩
    intro D _ M ρ
    exact holds_groups M ρ (hf.matrix (Or.inl rfl))
  · intro hf
    cases hfirst : f.firstNonLiteral? with
    | none => exact absurd (normalForm_of_firstNonLiteral?_eq_none hfirst) hf
    | some g =>
      refine ⟨g, rfl, stop?_eq_some.mp ?_⟩
      rw [stop?_clauses, hfirst]
      rfl

/-- A disjunction that is nested to the right stands before the parts of a conjunction. With a
doubled negation in it there are no clauses, and this is reported before the quantifier behind. -/
theorem clauses_are_parts_of_parts_of_nested_operands :
    let p : Formula := .atom ⟨"p", [.var "x"]⟩
    let q : Formula := .atom ⟨"q", []⟩
    let f : Formula := .and (.or (.not p) (.or q p)) (.and p (.not q))
    let g : Formula := .and (.or (.not p) (.or (.not (.not q)) p)) (.all "x" p)
    NormalForm .and f ∧
      (∃ cs, f.clauses = .ok cs ∧
        cs.map (List.map Literal.formula) = [[.not p, q, p], [p], [.not q]]) ∧
      ¬ NormalForm .and g ∧ g.clauses = .error (.node .extraction .not) := by
  intro p q f g
  obtain ⟨haccepts, hparts, -⟩ := clauses_are_parts_of_parts.{0} f
  obtain ⟨haccepts', -, hreports⟩ := clauses_are_parts_of_parts.{0} g
  have hf : NormalForm .and f :=
    .join (.leaf (.join (.leaf rfl) (.join (.leaf rfl) (.leaf rfl))))
      (.join (.leaf (.leaf rfl)) (.leaf (.leaf rfl)))
  have hfirst : g.firstNonLiteral? = some (.not (.not q)) := rfl
  have hg : ¬ NormalForm .and g := by
    intro h
    obtain ⟨cs, hcs⟩ := haccepts'.mpr h
    have hstop := stop?_clauses g
    rw [hcs, hfirst] at hstop
    exact nomatch hstop
  obtain ⟨cs, hcs⟩ := haccepts.mpr hf
  obtain ⟨k, hk, herror⟩ := hreports hg
  obtain rfl : .not (.not q) = k := Option.some.inj (hfirst.symm.trans hk)
  exact ⟨hf, ⟨cs, hcs, (hparts cs hcs).1⟩, hg, herror⟩

end Clausification.Formula

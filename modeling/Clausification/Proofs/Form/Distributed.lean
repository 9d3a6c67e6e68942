import Clausification.Form.Distributed
import Clausification.Proofs.Formula.Shape
import Clausification.Proofs.Formula.Walk

/-!
# Normal forms

Distribution leads from every formula of literals, conjunctions and disjunctions to a normal form:
one connective joins groups of literals, and its dual joins the literals of each group.
-/

namespace Clausification

theorem Connective.IsJunction.eq_or_eq_dual {c outer : Connective} (hc : c.IsJunction)
    (houter : outer.IsJunction) : c = outer ∨ c = outer.dual := by
  rcases hc with rfl | rfl <;> rcases houter with rfl | rfl <;> decide

theorem Connective.IsJunction.dual_ne {c : Connective} (hc : c.IsJunction) : c.dual ≠ c := by
  rcases hc with rfl | rfl <;> decide

namespace Formula

/-- Formulas of one kind under a single connective. -/
inductive Joined (c : Connective) (P : Formula → Prop) : Formula → Prop
  | leaf {f : Formula} (hf : P f) : Joined c P f
  | join {l r : Formula} (hl : Joined c P l) (hr : Joined c P r) : Joined c P (.binary c l r)

/-- Literals joined by one connective. -/
abbrev Group (inner : Connective) : Formula → Prop := Joined inner fun f => f.isLiteral

/-- Groups of literals joined by the dual of the connective inside them. -/
abbrev NormalForm (outer : Connective) : Formula → Prop := Joined outer (Group outer.dual)

theorem Group.kind_ne {inner outer : Connective} (h : inner ≠ outer) {f : Formula}
    (hf : Group inner f) : f.kind ≠ .binary outer := by
  cases hf with
  | leaf hf => cases f <;> simp [isLiteral, kind] at hf ⊢
  | join _ _ => simpa [kind] using h

theorem graft_binary (outer : Connective) (leaf : Formula → Formula) (l r : Formula) :
    graft outer leaf (.binary outer l r) =
      .binary outer (graft outer leaf l) (graft outer leaf r) := by
  have hkids : (Descent.through outer).kids (.binary outer l r) = [l, r] := by
    simp [Descent.through]
  simp only [graft, walk_eq_descend]
  rw [descend_eq, hkids]
  simp [graftNode]

theorem graft_of_kind_ne {outer : Connective} {f : Formula} (hf : f.kind ≠ .binary outer)
    (leaf : Formula → Formula) : graft outer leaf f = leaf f := by
  have hkids : (Descent.through outer).kids f = [] := by
    cases f with
    | binary c l r => simpa [Descent.through, kind] using hf
    | _ => rfl
  simp only [graft, walk_eq_descend]
  rw [descend_eq, hkids]
  cases f <;> rfl

/-- Induction over the part of a formula that is built by one connective. -/
@[elab_as_elim]
theorem skeleton_induction {c : Connective} {P : Formula → Prop}
    (leaf : ∀ f, f.kind ≠ .binary c → P f) (join : ∀ l r, P l → P r → P (.binary c l r))
    (f : Formula) : P f := by
  induction f with
  | binary c' l r ihl ihr =>
    by_cases hc : c' = c
    · rw [hc]
      exact join l r ihl ihr
    · exact leaf _ fun h => hc (by simpa [kind] using h)
  | term t => exact leaf _ (by cases t <;> simp [kind, Term.kind])
  | atom | not | quant => exact leaf _ (by simp [kind])

/-- What holds of everything below a skeleton and its replacement, and is kept by the nodes of the
skeleton, holds of a formula and the grafted one. -/
theorem graft_induction {c : Connective} {P : Formula → Formula → Prop} {leaf : Formula → Formula}
    (hjoin : ∀ l l' r r', P l l' → P r r' → P (.binary c l r) (.binary c l' r'))
    (hleaf : ∀ f, f.kind ≠ .binary c → P f (leaf f)) (f : Formula) : P f (f.graft c leaf) := by
  induction f using skeleton_induction (c := c) with
  | leaf f hf =>
    rw [graft_of_kind_ne hf]
    exact hleaf f hf
  | join l r hl hr =>
    rw [graft_binary]
    exact hjoin _ _ _ _ hl hr

theorem Joined.graft {outer : Connective} {P Q : Formula → Prop} {leaf : Formula → Formula}
    (hkind : ∀ g, P g → g.kind ≠ .binary outer) (hleaf : ∀ g, P g → Joined outer Q (leaf g))
    {f : Formula} (hf : Joined outer P f) : Joined outer Q (f.graft outer leaf) := by
  induction hf with
  | leaf hf =>
    rw [graft_of_kind_ne (hkind _ hf)]
    exact hleaf _ hf
  | join _ _ ihl ihr =>
    rw [graft_binary]
    exact .join ihl ihr

variable {outer : Connective}

theorem NormalForm.pairUp (houter : outer.IsJunction) {l r : Formula} (hl : NormalForm outer l)
    (hr : NormalForm outer r) : NormalForm outer (pairUp outer outer.dual l r) := by
  have hkind : ∀ g, Group outer.dual g → g.kind ≠ .binary outer := fun g hg =>
    Group.kind_ne houter.dual_ne hg
  exact hl.graft hkind fun x hx => hr.graft hkind fun y hy => .leaf (.join hx hy)

/-- What distribution makes of a formula without quantifiers. -/
def distributed (outer : Connective) : Formula → Formula
  | .binary c l r =>
    if c = outer then .binary outer (l.distributed outer) (r.distributed outer)
    else pairUp outer outer.dual (l.distributed outer) (r.distributed outer)
  | .not f => .not (f.distributed outer)
  | f => f

theorem distribute_eq (pass : Pass) (houter : outer.IsJunction) {f : Formula} (hf : f.Boolean) :
    distribute pass outer outer.dual f = .ok (f.distributed outer) := by
  unfold distribute
  induction hf with
  | atom a => simp [fold_atom, distributeNode, distributed]
  | not _ ih =>
    rw [fold_not, ih]
    rfl
  | binary hc _ _ ihl ihr =>
    rw [fold_binary, ihl, ihr]
    rcases hc.eq_or_eq_dual houter with rfl | rfl
    · simp [distributeNode, distributed, bind, Except.bind]
    · simp [distributeNode, distributed, houter.dual_ne, bind, Except.bind]

theorem conjunctive_eq {f : Formula} (hf : f.Matrix) : f.conjunctive = .ok (f.distributed .and) :=
  distribute_eq .conjunctive (Or.inl rfl) hf.boolean

theorem disjunctive_eq {f : Formula} (hf : f.Matrix) : f.disjunctive = .ok (f.distributed .or) :=
  distribute_eq .disjunctive (Or.inr rfl) hf.boolean

theorem normalForm_distributed (houter : outer.IsJunction) {f : Formula} (hf : f.Matrix) :
    NormalForm outer (f.distributed outer) := by
  induction hf with
  | atom a => exact .leaf (.leaf rfl)
  | negated a => exact .leaf (.leaf rfl)
  | @binary c l r hc _ _ ihl ihr =>
    rw [distributed]
    split
    · exact .join ihl ihr
    · exact ihl.pairUp houter ihr

theorem Group.matrix {inner : Connective} (hinner : inner.IsJunction) {f : Formula}
    (hf : Group inner f) : f.Matrix := by
  induction hf with
  | @leaf f hf =>
    match f, hf with
    | .atom a, _ => exact .atom a
    | .not (.atom a), _ => exact .negated a
  | join _ _ ihl ihr => exact .binary hinner ihl ihr

theorem NormalForm.matrix (houter : outer.IsJunction) {f : Formula} (hf : NormalForm outer f) :
    f.Matrix := by
  induction hf with
  | leaf hf => exact Group.matrix houter.dual hf
  | join _ _ ihl ihr => exact .binary houter ihl ihr

end Formula

end Clausification

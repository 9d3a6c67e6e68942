import Clausification.Proofs.Form.Distributed

/-!
# Rules of distribution

Distribution said by rules. Both operands of a node are distributed first; then the inner connective
is moved below the outer one, step by step, as long as one of the two formulas under it is built by the
outer one, the left one first. Each pair of formulas leads to one tree by these rules, and it is the one
that grafting puts together at once.
-/

namespace Clausification.Formula

/-- What becomes of two formulas under `inner`. The first rule that applies counts: to a left formula
built by `outer`, to a right one, and to two formulas that are not. -/
inductive Spreads (outer inner : Connective) : Formula → Formula → Formula → Prop
  | left {l₁ l₂ r g₁ g₂ : Formula} (h₁ : Spreads outer inner l₁ r g₁)
    (h₂ : Spreads outer inner l₂ r g₂) :
    Spreads outer inner (.binary outer l₁ l₂) r (.binary outer g₁ g₂)
  | right {l r₁ r₂ g₁ g₂ : Formula} (hl : l.kind ≠ .binary outer)
    (h₁ : Spreads outer inner l r₁ g₁) (h₂ : Spreads outer inner l r₂ g₂) :
    Spreads outer inner l (.binary outer r₁ r₂) (.binary outer g₁ g₂)
  | join {l r : Formula} (hl : l.kind ≠ .binary outer) (hr : r.kind ≠ .binary outer) :
    Spreads outer inner l r (.binary inner l r)

/-- What becomes of a formula once `inner` is distributed over `outer`. -/
inductive Distributes (outer inner : Connective) : Formula → Formula → Prop
  | atom (a : Atom) : Distributes outer inner (.atom a) (.atom a)
  | not {f g : Formula} (h : Distributes outer inner f g) :
    Distributes outer inner (.not f) (.not g)
  | outer {l r l' r' : Formula} (hl : Distributes outer inner l l')
    (hr : Distributes outer inner r r') :
    Distributes outer inner (.binary outer l r) (.binary outer l' r')
  | inner {l r l' r' g : Formula} (hl : Distributes outer inner l l')
    (hr : Distributes outer inner r r') (h : Spreads outer inner l' r' g) :
    Distributes outer inner (.binary inner l r) g

variable {outer inner : Connective} {f g l r : Formula}

/-- The rules lead from every two formulas to an end. -/
theorem spreads_pairUp (outer inner : Connective) (l r : Formula) :
    Spreads outer inner l r (pairUp outer inner l r) := by
  have hright {x : Formula} (hx : x.kind ≠ .binary outer) :
      Spreads outer inner x r (r.graft outer fun y => .binary inner x y) :=
    graft_induction (P := Spreads outer inner x) (fun _ _ _ _ h₁ h₂ => .right hx h₁ h₂)
      (fun _ hy => .join hx hy) r
  exact graft_induction (P := fun l g => Spreads outer inner l r g)
    (fun _ _ _ _ h₁ h₂ => .left h₁ h₂) (fun _ hx => hright hx) l

theorem Spreads.eq_pairUp (h : Spreads outer inner l r g) : g = pairUp outer inner l r := by
  induction h with
  | left _ _ ih₁ ih₂ =>
    rw [pairUp, graft_binary, ih₁, ih₂]
    rfl
  | right hl _ _ ih₁ ih₂ =>
    rw [pairUp, graft_of_kind_ne hl, graft_binary, ih₁, ih₂, pairUp, pairUp, graft_of_kind_ne hl,
      graft_of_kind_ne hl]
  | join hl hr => rw [pairUp, graft_of_kind_ne hl, graft_of_kind_ne hr]

theorem distributes_distributed (houter : outer.IsJunction) (hf : f.Boolean) :
    Distributes outer outer.dual f (f.distributed outer) := by
  induction hf with
  | atom a => exact .atom a
  | not _ ih => exact .not ih
  | binary hc _ _ ihl ihr =>
    rcases hc.eq_or_eq_dual houter with rfl | rfl
    · rw [distributed, if_pos rfl]
      exact .outer ihl ihr
    · rw [distributed, if_neg houter.dual_ne]
      exact .inner ihl ihr (spreads_pairUp _ _ _ _)

theorem Distributes.eq_distributed (houter : outer.IsJunction)
    (h : Distributes outer outer.dual f g) : g = f.distributed outer := by
  induction h with
  | atom a => rfl
  | not _ ih => rw [distributed, ih]
  | outer _ _ ihl ihr => rw [distributed, if_pos rfl, ihl, ihr]
  | inner _ _ hspread ihl ihr =>
    rw [distributed, if_neg houter.dual_ne, hspread.eq_pairUp, ihl, ihr]

theorem distributes_iff (houter : outer.IsJunction) (hf : f.Boolean) :
    Distributes outer outer.dual f g ↔ g = f.distributed outer :=
  ⟨Distributes.eq_distributed houter, fun h => h ▸ distributes_distributed houter hf⟩

/-- The rules lead from every formula of negations, conjunctions and disjunctions to an end, and to
one only, which is the tree that the pass builds. -/
theorem distribution_follows_rules (f : Formula) (hf : f.Boolean) :
    ∃ g h, f.conjunctive = .ok g ∧ f.disjunctive = .ok h ∧
      (∀ k, Distributes .and .or f k ↔ k = g) ∧ ∀ k, Distributes .or .and f k ↔ k = h :=
  ⟨f.distributed .and, f.distributed .or, distribute_eq .conjunctive (Or.inl rfl) hf,
    distribute_eq .disjunctive (Or.inr rfl) hf, fun _ => distributes_iff (Or.inl rfl) hf,
    fun _ => distributes_iff (Or.inr rfl) hf⟩

/-- A conjunction on one side, and on the other one a negation, below which distribution goes on. -/
theorem distribution_follows_rules_of_negated_disjunction :
    let p : Formula := .atom ⟨"p", [.app "c" []]⟩
    let q : Formula := .atom ⟨"q", [.var "x"]⟩
    let f : Formula := .or (.and p q) (.not (.or q (.and p q)))
    let k : Formula := .not (.and (.or q p) (.or q q))
    f.Boolean ∧ f.conjunctive = .ok (.and (.or p k) (.or q k)) ∧
      (∀ g, Distributes .and .or f g ↔ g = .and (.or p k) (.or q k)) ∧
      ∃ h, f.disjunctive = .ok h ∧ ∀ g, Distributes .or .and f g ↔ g = h := by
  intro p q f k
  have hpq : (Formula.and p q).Boolean := .binary (Or.inl rfl) (.atom _) (.atom _)
  have hf : f.Boolean := .binary (Or.inr rfl) hpq (.not (.binary (Or.inr rfl) (.atom _) hpq))
  obtain ⟨g, h, hg, hh, hrules, hdual⟩ := distribution_follows_rules f hf
  have hoperands : Distributes .and .or (.and p q) (.and p q) := .outer (.atom _) (.atom _)
  have hbelow : Distributes .and .or (.or q (.and p q)) (.and (.or q p) (.or q q)) :=
    .inner (.atom _) hoperands
      (.right (by decide) (.join (by decide) (by decide)) (.join (by decide) (by decide)))
  have hk : Distributes .and .or f (.and (.or p k) (.or q k)) :=
    .inner hoperands (.not hbelow)
      (.left (.join (by decide) (by decide)) (.join (by decide) (by decide)))
  obtain rfl := (hrules _).mp hk
  exact ⟨hf, hg, hrules, h, hh, hdual⟩

end Clausification.Formula

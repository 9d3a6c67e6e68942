import Clausification.Proofs.Clause.Groups

/-!
# Clauses

A conjunctive normal form falls apart into its groups of literals, and a formula without quantifiers
is true exactly if in each of its groups some literal is.
-/

namespace Clausification

namespace Formula
variable {c : Connective} {f l r : Formula}

theorem exists_of_kind_eq_binary (hf : f.kind = .binary c) : ∃ l r, f = binary c l r := by
  cases f with
  | binary c' l r =>
    obtain rfl : c' = c := by simpa [kind] using hf
    exact ⟨l, r, rfl⟩
  | term t => cases t <;> simp [kind, Term.kind] at hf
  | _ => simp [kind] at hf

theorem operandsOf_cons_of_kind_ne (hf : f.kind ≠ .binary c) (fs : List Formula) :
    operandsOf c (f :: fs) = f :: operandsOf c fs := by
  cases f with
  | binary c' l r =>
    have hne : c' ≠ c := fun h => hf (by rw [h, kind])
    rw [operandsOf, if_neg hne]
  | _ => rw [operandsOf]; simp

theorem operandsOf_append (c : Connective) (fs gs : List Formula) :
    operandsOf c (fs ++ gs) = operandsOf c fs ++ operandsOf c gs := by
  have ih : ∀ fs', total (fs'.map size) < total (fs.map size) →
      operandsOf c (fs' ++ gs) = operandsOf c fs' ++ operandsOf c gs :=
    fun fs' _ => operandsOf_append c fs' gs
  cases fs with
  | nil => rw [List.nil_append, operandsOf, List.nil_append]
  | cons f fs =>
    have hpos : 0 < f.size := by cases f <;> simp [size]
    have htail := ih fs (by simp only [List.map_cons, total_cons]; omega)
    by_cases hf : f.kind = .binary c
    · obtain ⟨l, r, rfl⟩ := exists_of_kind_eq_binary hf
      rw [List.cons_append, operandsOf, if_pos rfl, operandsOf, if_pos rfl]
      exact ih (l :: r :: fs) (by simp only [List.map_cons, total_cons, size]; omega)
    · rw [List.cons_append, operandsOf_cons_of_kind_ne hf, operandsOf_cons_of_kind_ne hf, htail]
      rfl
termination_by total (fs.map size)

theorem operands_binary_self : (binary c l r).operands c = l.operands c ++ r.operands c := by
  rw [operands, operandsOf, if_pos rfl, operands, operands, ← operandsOf_append]
  rfl

theorem operands_of_kind_ne (hf : f.kind ≠ .binary c) : f.operands c = [f] := by
  rw [operands, operandsOf_cons_of_kind_ne hf, operandsOf]

theorem Group.mapM_literal (hf : Group c f) : (f.operands c).mapM literal = .ok f.literals := by
  induction hf with
  | @leaf f hf =>
    match f, hf with
    | .atom a, _ =>
      rw [operands_of_kind_ne (by simp [kind])]
      rfl
    | .not (.atom a), _ =>
      rw [operands_of_kind_ne (by simp [kind])]
      rfl
  | join _ _ ihl ihr =>
    rw [operands_binary_self, List.mapM_append, ihl, ihr]
    rfl

theorem NormalForm.mapM_clause (hf : NormalForm .and f) :
    (f.operands .and).mapM clause = .ok (f.groups .and) := by
  induction hf with
  | @leaf f hf =>
    have hclause : f.clause = .ok f.literals := hf.mapM_literal
    rw [operands_of_kind_ne (Group.kind_ne (by decide) hf), hf.groups_eq (Or.inl rfl),
      List.mapM_cons, hclause]
    rfl
  | join _ _ ihl ihr =>
    rw [operands_binary_self, List.mapM_append, ihl, ihr, groups_binary_self]
    rfl

theorem clauses_distributed (hf : f.Matrix) :
    (f.distributed .and).clauses = .ok (f.groups .and) := by
  rw [clauses, (normalForm_distributed (Or.inl rfl) hf).mapM_clause,
    groups_distributed (Or.inl rfl) hf]

/-- The clauses of the conjunctive normal form are those of the formula itself: the clauses of both
operands of a conjunction one after the other, and for a disjunction each clause of the left operand
with each one of the right. -/
theorem clauses_conjunctive_eq_groups (f : Formula) (hf : f.Matrix) :
    ∃ g, f.conjunctive = .ok g ∧ g.clauses = .ok (f.groups .and) :=
  ⟨f.distributed .and, conjunctive_eq hf, clauses_distributed hf⟩

theorem clauses_conjunctive_eq_groups_of_nested_operands :
    let p : Atom := ⟨"p", [.app "c1" []]⟩
    let q : Atom := ⟨"q", []⟩
    let f : Formula := .or (.and (.atom p) (.or (.atom q) (.atom p)))
      (.and (.not (.atom p)) (.and (.atom q) (.not (.atom p))))
    f.Matrix ∧ ∃ g, f.conjunctive = .ok g ∧ g.clauses = .ok [
      [⟨true, p⟩, ⟨false, p⟩], [⟨true, p⟩, ⟨true, q⟩], [⟨true, p⟩, ⟨false, p⟩],
      [⟨true, q⟩, ⟨true, p⟩, ⟨false, p⟩], [⟨true, q⟩, ⟨true, p⟩, ⟨true, q⟩],
      [⟨true, q⟩, ⟨true, p⟩, ⟨false, p⟩]] := by
  intro p q f
  have hf : f.Matrix :=
    .binary (Or.inr rfl) (.binary (Or.inl rfl) (.atom p) (.binary (Or.inr rfl) (.atom q) (.atom p)))
      (.binary (Or.inl rfl) (.negated p) (.binary (Or.inl rfl) (.atom q) (.negated p)))
  exact ⟨hf, clauses_conjunctive_eq_groups f hf⟩

end Formula

section
variable {D : Type*} [Nonempty D] (M : Interpretation D) (ρ : Assignment D)

def Literal.holds (l : Literal) : Prop :=
  if l.positive then l.atom.holds M ρ else ¬ l.atom.holds M ρ

/-- Some literal of the clause is true. -/
def Clause.holds (c : Clause) : Prop := ∃ l ∈ c, l.holds M ρ

theorem Clause.holds_append {c d : Clause} :
    Clause.holds M ρ (c ++ d) ↔ c.holds M ρ ∨ d.holds M ρ := by
  simp [holds, or_and_right, exists_or]

theorem Formula.holds_groups {f : Formula} (hf : f.Matrix) :
    f.holds M ρ ↔ ∀ c ∈ f.groups .and, Clause.holds M ρ c := by
  induction hf with
  | atom a => simp [groups, Clause.holds, Literal.holds, holds]
  | negated a => simp [groups, Clause.holds, Literal.holds, holds]
  | binary hc _ _ ihl ihr =>
    rcases hc with rfl | rfl
    · rw [groups_binary_self, List.forall_mem_append, ← ihl, ← ihr]
      rfl
    · simp only [groups, holds, Connective.joins, ihl, ihr, reduceCtorEq, if_false,
        List.mem_flatMap, List.mem_map]
      constructor
      · rintro h _ ⟨x, hx, y, hy, rfl⟩
        exact (Clause.holds_append M ρ).mpr (h.imp (fun h => h x hx) fun h => h y hy)
      · intro h
        by_contra hnot
        simp only [not_or, not_forall] at hnot
        obtain ⟨⟨x, hx, hxf⟩, y, hy, hyf⟩ := hnot
        exact ((Clause.holds_append M ρ).mp (h _ ⟨x, hx, y, hy, rfl⟩)).elim hxf hyf

end

end Clausification

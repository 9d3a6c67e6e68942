import Mathlib.Data.Set.Function
import Clausification.Proofs.Derivation.Meaning

/-!
# Other names in clauses

Predicates, functions and variables of clauses get other names, name for name. Nothing is said about
different names that get the same one: what is true of the clauses then depends on which names are
kept apart. Predicates and functions have to be if a model is to be found for the new clauses, and
the variables of each clause if one is to be found for the old ones.
-/

namespace Clausification

namespace Clause
variable (c : Clause)

def vars : List String := c.flatMap (·.atom.vars)

def functions : List String := c.flatMap (·.atom.functions)

def predicates : List String := c.map (·.atom.predicate)

section
variable {D : Type*} [Nonempty D] {M M' : Interpretation D} {ρ ρ' : Assignment D} {c : Clause}

/-- A clause depends on what its own names stand for, and on no others. -/
theorem holds_congr (hx : ∀ x ∈ c.vars, ρ x = ρ' x)
    (hg : ∀ g ∈ c.functions, M.function g = M'.function g)
    (hp : ∀ p ∈ c.predicates, M.relation p = M'.relation p) :
    Clause.holds M ρ c ↔ Clause.holds M' ρ' c := by
  refine exists_congr fun l => and_congr_right fun hl => ?_
  have hts : l.atom.args.map (Term.value M ρ) = l.atom.args.map (Term.value M' ρ') := by
    refine List.map_congr_left fun t ht => t.value_congr (fun x h => hx x ?_) fun g h => hg g ?_
    · exact List.mem_flatMap.mpr ⟨l, hl, List.mem_flatMap.mpr ⟨t, ht, h⟩⟩
    · exact List.mem_flatMap.mpr ⟨l, hl, List.mem_flatMap.mpr ⟨t, ht, h⟩⟩
  have hatom : l.atom.holds M ρ ↔ l.atom.holds M' ρ' := by
    rw [Atom.holds, Atom.holds, hts, hp _ (List.mem_map_of_mem hl)]
  rw [Literal.holds, Literal.holds, hatom]

end

end Clause

/-- New names for predicates, for functions and for variables. -/
structure Relabeling where
  ofPredicate : String → String
  ofFunction : String → String
  ofVariable : String → String

namespace Relabeling
variable (r : Relabeling)

mutual

def term : Term → Term
  | .var x => .var (r.ofVariable x)
  | .app f ts => .app (r.ofFunction f) (terms ts)
  | .stray p ts => .stray (r.ofPredicate p) (terms ts)

def terms : List Term → List Term
  | [] => []
  | t :: ts => term t :: terms ts

end

def atom (a : Atom) : Atom := ⟨r.ofPredicate a.predicate, r.terms a.args⟩

def literal (l : Literal) : Literal := ⟨l.positive, r.atom l.atom⟩

def clause (c : Clause) : Clause := c.map r.literal

theorem terms_eq_map (ts : List Term) : r.terms ts = ts.map r.term := by
  induction ts with
  | nil => rfl
  | cons t ts ih => simp [terms, ih]

/-- One relabelling after another. -/
def comp (r s : Relabeling) : Relabeling where
  ofPredicate := r.ofPredicate ∘ s.ofPredicate
  ofFunction := r.ofFunction ∘ s.ofFunction
  ofVariable := r.ofVariable ∘ s.ofVariable

theorem term_comp (r s : Relabeling) (t : Term) : (r.comp s).term t = r.term (s.term t) := by
  induction t with
  | var x => rfl
  | app f ts ih | stray f ts ih =>
    simp only [term, terms_eq_map, List.map_map]
    rw [List.map_congr_left ih]
    rfl

theorem clause_comp (r s : Relabeling) (c : Clause) :
    (r.comp s).clause c = r.clause (s.clause c) := by
  have hatom (a : Atom) : (r.comp s).atom a = r.atom (s.atom a) := by
    simp only [atom, terms_eq_map, List.map_map]
    rw [List.map_congr_left fun t _ => term_comp r s t]
    rfl
  rw [clause, clause, clause, List.map_map]
  refine List.map_congr_left fun l _ => ?_
  rw [Function.comp, literal, literal, literal, hatom]

section
variable {D : Type*} [Nonempty D] (M : Interpretation D) (ρ : Assignment D)

/-- Every name stands for what its new name stands for. -/
def interpretation : Interpretation D where
  function g := M.function (r.ofFunction g)
  relation p := M.relation (r.ofPredicate p)

theorem value_term (t : Term) :
    (r.term t).value M ρ = t.value (r.interpretation M) (ρ ∘ r.ofVariable) := by
  induction t with
  | var x => simp [term, Term.value]
  | app f ts ih =>
    rw [term, Term.value, Term.value, terms_eq_map, List.map_map]
    exact congrArg (M.function (r.ofFunction f)) (List.map_congr_left ih)
  | stray p ts => simp [term, Term.value]

theorem holds_clause (c : Clause) :
    Clause.holds M ρ (r.clause c) ↔ Clause.holds (r.interpretation M) (ρ ∘ r.ofVariable) c := by
  have hatom (a : Atom) :
      (r.atom a).holds M ρ ↔ a.holds (r.interpretation M) (ρ ∘ r.ofVariable) := by
    have hargs : (r.atom a).args.map (Term.value M ρ) =
        a.args.map (Term.value (r.interpretation M) (ρ ∘ r.ofVariable)) := by
      rw [atom, terms_eq_map, List.map_map]
      exact List.map_congr_left fun t _ => r.value_term M ρ t
    rw [Atom.holds, Atom.holds, hargs]
    rfl
  have hliteral (l : Literal) :
      (r.literal l).holds M ρ ↔ l.holds (r.interpretation M) (ρ ∘ r.ofVariable) := by
    rw [Literal.holds, Literal.holds, literal, hatom]
  simp only [Clause.holds, clause, List.mem_map, exists_exists_and_eq_and, hliteral]

end

universe u
variable {r} {cs : List Clause}

/-- A model of clauses is one of the relabelled clauses, if the new names of predicates and functions
can be traced back. -/
theorem satisfiable_map_clause
    (hpredicates : Set.InjOn r.ofPredicate {p | p ∈ cs.flatMap Clause.predicates})
    (hfunctions : Set.InjOn r.ofFunction {g | g ∈ cs.flatMap Clause.functions})
    (h : Clause.Satisfiable.{u} cs) : Clause.Satisfiable.{u} (cs.map r.clause) := by
  obtain ⟨D, hD, M, hM⟩ := h
  -- a new name stands for what the old name behind it stood for, which is one name by injectivity
  let back : Interpretation D :=
    { function := fun g =>
        M.function (Function.invFunOn r.ofFunction {g | g ∈ cs.flatMap Clause.functions} g)
      relation := fun p =>
        M.relation (Function.invFunOn r.ofPredicate {p | p ∈ cs.flatMap Clause.predicates} p) }
  refine ⟨D, hD, back, fun ρ => List.forall_mem_map.mpr fun c hc => ?_⟩
  rw [holds_clause]
  refine (Clause.holds_congr (fun _ _ => rfl) (fun g hg => ?_) fun p hp => ?_).mpr
    (hM (ρ ∘ r.ofVariable) c hc)
  · exact congrArg M.function (hfunctions.leftInvOn_invFunOn (List.mem_flatMap.mpr ⟨c, hc, hg⟩))
  · exact congrArg M.relation (hpredicates.leftInvOn_invFunOn (List.mem_flatMap.mpr ⟨c, hc, hp⟩))

/-- A model of relabelled clauses is one of the clauses, if in each of them the new names of variables
can be traced back. -/
theorem satisfiable_of_map_clause
    (hvars : ∀ c ∈ cs, Set.InjOn r.ofVariable {x | x ∈ c.vars})
    (h : Clause.Satisfiable.{u} (cs.map r.clause)) : Clause.Satisfiable.{u} cs := by
  obtain ⟨D, hD, M, hM⟩ := h
  -- the way back from the new variables is chosen for one clause at a time: two clauses may share a
  -- new variable for different old ones
  refine ⟨D, hD, r.interpretation M, fun ρ c hc => ?_⟩
  have hc' := hM (ρ ∘ Function.invFunOn r.ofVariable {x | x ∈ c.vars}) _ (List.mem_map_of_mem hc)
  rw [holds_clause] at hc'
  refine (Clause.holds_congr (fun x hx => ?_) (fun _ _ => rfl) fun _ _ => rfl).mp hc'
  exact congrArg ρ ((hvars c hc).leftInvOn_invFunOn hx)

end Relabeling

end Clausification

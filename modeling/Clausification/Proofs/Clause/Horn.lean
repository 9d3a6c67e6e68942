import Mathlib.Data.List.Nodup
import Mathlib.Order.SupClosed
import Clausification.Clause.Horn

/-!
# Horn clauses and their models

Here atoms are propositional variables, and a valuation is the set of those that are true. The models of
a Horn clause are closed under intersection, and if no atom occurs twice this makes the clause a Horn
clause: a second positive literal is the way out in another model, and in the intersection of the two
models neither literal is true any more.
-/

namespace Clausification

/-- The literal is true where exactly the atoms of a set are. -/
def Literal.trueIn (v : Set Atom) (l : Literal) : Prop :=
  if l.positive then l.atom ∈ v else l.atom ∉ v

namespace Clause

/-- The sets of atoms that make some literal of the clause true. -/
def models (c : Clause) : Set (Set Atom) := {v | ∃ l ∈ c, l.trueIn v}

/-- The sets of atoms that make all clauses true. -/
def modelsOfAll (cs : List Clause) : Set (Set Atom) := {v | ∀ c ∈ cs, v ∈ c.models}

/-- The atoms under the negative literals of the clause. -/
def negatedAtoms (c : Clause) : Set Atom := {a | ⟨false, a⟩ ∈ c}

variable {c d : Clause} {l m : Literal} {v w : Set Atom}

theorem mem_models_of_positive (hl : l ∈ c) (hpos : l.positive) (hv : l.atom ∈ v) :
    v ∈ c.models := by
  refine ⟨l, hl, ?_⟩
  rwa [Literal.trueIn, if_pos hpos]

theorem mem_models_of_negative (hl : l ∈ c) (hneg : ¬ l.positive) (hv : l.atom ∉ v) :
    v ∈ c.models := by
  refine ⟨l, hl, ?_⟩
  rwa [Literal.trueIn, if_neg hneg]

theorem isHorn_iff : c.isHorn ↔ c.positives ≤ 1 := decide_eq_true_iff

theorem kind_eq_goal_iff : c.kind = .goal ↔ c.positives = 0 := by
  unfold kind
  split
  · simp [*]
  · split <;> simp [*]
  · rename_i hgoal _
    simpa using hgoal

theorem kind_ne_notHorn_iff : c.kind ≠ .notHorn ↔ c.isHorn := by
  rw [isHorn_iff]
  unfold kind
  split
  · simp [*]
  · split <;> simp [*]
  · rename_i hgoal hdefinite
    simp only [ne_eq, not_true_eq_false, false_iff, Nat.not_le]
    exact Nat.one_lt_iff_ne_zero_and_ne_one.mpr ⟨hgoal, hdefinite⟩

theorem kind_perm (h : c.Perm d) : c.kind = d.kind := by
  rw [kind, kind, negatives, negatives, positives, positives, h.countP_eq, h.length_eq]

theorem positives_eq_zero_iff : c.positives = 0 ↔ ∀ l ∈ c, ¬ l.positive := List.countP_eq_zero

theorem univ_mem_models_iff : Set.univ ∈ c.models ↔ ∃ l ∈ c, l.positive := by
  constructor
  · rintro ⟨l, hl, htrue⟩
    refine ⟨l, hl, ?_⟩
    by_contra hneg
    rw [Literal.trueIn, if_neg hneg] at htrue
    exact htrue (Set.mem_univ _)
  · rintro ⟨l, hl, hpos⟩
    exact mem_models_of_positive hl hpos (Set.mem_univ _)

theorem kind_eq_goal_iff_univ_not_mem_models : c.kind = .goal ↔ Set.univ ∉ c.models := by
  rw [kind_eq_goal_iff, positives_eq_zero_iff, univ_mem_models_iff]
  simp only [not_exists, not_and]

theorem eq_of_isHorn (hc : c.isHorn) (hl : l ∈ c) (hlpos : l.positive) (hm : m ∈ c)
    (hmpos : m.positive) : l = m := by
  have hl : l ∈ c.filter (·.positive) := List.mem_filter.mpr ⟨hl, hlpos⟩
  have hm : m ∈ c.filter (·.positive) := List.mem_filter.mpr ⟨hm, hmpos⟩
  have hlength : (c.filter (·.positive)).length ≤ 1 := by
    rw [← List.countP_eq_length_filter]
    exact isHorn_iff.mp hc
  generalize c.filter (·.positive) = ps at hl hm hlength
  match ps with
  | [] => cases hl
  | [k] => rw [List.mem_singleton.mp hl, List.mem_singleton.mp hm]
  | _ :: _ :: _ => simp at hlength

theorem infClosed_models (hc : c.isHorn) : InfClosed c.models := by
  rintro v ⟨l, hl, hlv⟩ w ⟨m, hm, hmw⟩
  -- a negative literal stays true in any smaller set, and two positive ones are one and the same
  by_cases hlpos : l.positive
  · by_cases hmpos : m.positive
    · obtain rfl := eq_of_isHorn hc hl hlpos hm hmpos
      rw [Literal.trueIn, if_pos hlpos] at hlv hmw
      exact mem_models_of_positive hl hlpos ⟨hlv, hmw⟩
    · rw [Literal.trueIn, if_neg hmpos] at hmw
      exact mem_models_of_negative hm hmpos fun h => hmw h.2
  · rw [Literal.trueIn, if_neg hlpos] at hlv
    exact mem_models_of_negative hl hlpos fun h => hlv h.1

theorem infClosed_modelsOfAll {cs : List Clause} (hcs : allHorn (cs.map (·.kind))) :
    InfClosed (modelsOfAll cs) := by
  intro v hv w hw c hc
  rw [allHorn, List.all_map, List.all_eq_true] at hcs
  have hhorn : c.isHorn := kind_ne_notHorn_iff.mp (of_decide_eq_true (hcs c hc))
  exact infClosed_models hhorn (hv c hc) (hw c hc)

theorem negatedAtoms_not_mem_models (hc : (c.map (·.atom)).Nodup) : c.negatedAtoms ∉ c.models := by
  rintro ⟨⟨positive, a⟩, hl, htrue⟩
  cases positive with
  | false => exact htrue hl
  | true =>
    have hneg : (⟨false, a⟩ : Literal) ∈ c := htrue
    have heq := List.inj_on_of_nodup_map hc hl hneg rfl
    exact absurd heq (by simp)

theorem insert_mem_models (hl : l ∈ c) (hpos : l.positive) (v : Set Atom) :
    insert l.atom v ∈ c.models :=
  mem_models_of_positive hl hpos (Set.mem_insert _ _)

theorem insert_inf_insert {a b : Atom} (hab : a ≠ b) (v : Set Atom) :
    (insert a v : Set Atom) ⊓ insert b v = v := by
  ext x
  simp only [Set.inf_eq_inter, Set.mem_inter_iff, Set.mem_insert_iff]
  constructor
  · rintro ⟨rfl | hx, rfl | hx'⟩
    · exact absurd rfl hab
    all_goals assumption
  · exact fun hx => ⟨Or.inr hx, Or.inr hx⟩

theorem exists_two_positives (hc : (c.map (·.atom)).Nodup) (hpos : ¬ c.isHorn) :
    ∃ l ∈ c, ∃ m ∈ c, l.positive ∧ m.positive ∧ l.atom ≠ m.atom := by
  have hlength : 2 ≤ (c.filter (·.positive)).length := by
    rw [← List.countP_eq_length_filter]
    rw [isHorn_iff] at hpos
    exact Nat.not_le.mp hpos
  have hmem (k : Literal) (hk : k ∈ c.filter (·.positive)) : k ∈ c ∧ k.positive :=
    List.mem_filter.mp hk
  have hnodup : ((c.filter (·.positive)).map (·.atom)).Nodup := hc.sublist (List.filter_sublist.map _)
  generalize c.filter (·.positive) = ps at hlength hmem hnodup
  match ps with
  | [] | [_] => simp at hlength
  | l :: m :: rest =>
    obtain ⟨hl, hlpos⟩ := hmem l (by simp)
    obtain ⟨hm, hmpos⟩ := hmem m (by simp)
    refine ⟨l, hl, m, hm, hlpos, hmpos, fun heq => ?_⟩
    rw [List.map_cons, List.map_cons, heq] at hnodup
    exact (List.nodup_cons.mp hnodup).1 List.mem_cons_self

theorem isHorn_iff_infClosed_models (hc : (c.map (·.atom)).Nodup) :
    c.isHorn ↔ InfClosed c.models := by
  refine ⟨infClosed_models, fun hclosed => ?_⟩
  by_contra hnot
  obtain ⟨l, hl, m, hm, hlpos, hmpos, hne⟩ := exists_two_positives hc hnot
  have hmeet := hclosed (insert_mem_models hl hlpos c.negatedAtoms)
    (insert_mem_models hm hmpos c.negatedAtoms)
  rw [insert_inf_insert hne] at hmeet
  exact negatedAtoms_not_mem_models hc hmeet

/-- A clause without repeated atoms is a Horn clause exactly if its models are closed under
intersection, and the verdict about a list of clauses, with repeated atoms or without, says as much of
the models of all of them. The kind of a clause does not hang on the order of its literals, and goals
are the clauses that are false where everything is true. -/
theorem horn_verdict_tells_closure_under_intersection :
    (∀ c : Clause, (c.map (·.atom)).Nodup →
      (c.isHorn ↔ InfClosed c.models) ∧ (c.kind ≠ .notHorn ↔ InfClosed c.models)) ∧
    (∀ c : Clause, c.isHorn ↔ c.kind ≠ .notHorn) ∧
    (∀ cs : List Clause, allHorn (cs.map (·.kind)) → InfClosed (modelsOfAll cs)) ∧
    (∀ c d : Clause, c.Perm d → c.kind = d.kind) ∧
    ∀ c : Clause, c.kind = .goal ↔ Set.univ ∉ c.models := by
  refine ⟨fun c hc => ?_, fun c => kind_ne_notHorn_iff.symm, fun cs => infClosed_modelsOfAll,
    fun c d => kind_perm, fun c => kind_eq_goal_iff_univ_not_mem_models⟩
  have hclosed := isHorn_iff_infClosed_models hc
  exact ⟨hclosed, kind_ne_notHorn_iff.trans hclosed⟩

/-- Two positive literals among negative ones, clauses that repeat an atom with both signs, and a clause
with its literals exchanged. -/
theorem horn_verdict_tells_closure_under_intersection_of_mixed_clauses :
    let p : Atom := ⟨"p", [.var "x"]⟩
    let q : Atom := ⟨"q", []⟩
    let r : Atom := ⟨"p", [.var "y"]⟩
    let c : Clause := [⟨false, q⟩, ⟨true, p⟩, ⟨true, r⟩]
    let cs : List Clause := [[⟨false, p⟩, ⟨true, q⟩, ⟨false, p⟩], [⟨true, p⟩, ⟨false, p⟩], [⟨false, q⟩]]
    (c.map (·.atom)).Nodup ∧ ¬ InfClosed c.models ∧ allHorn (cs.map (·.kind)) ∧
      InfClosed (modelsOfAll cs) ∧
      (c.Perm [⟨true, p⟩, ⟨false, q⟩, ⟨true, r⟩] ∧
        c.kind = kind [⟨true, p⟩, ⟨false, q⟩, ⟨true, r⟩]) ∧
      Set.univ ∉ models [⟨false, q⟩] := by
  intro p q r c cs
  obtain ⟨hclosed, -, hall, hperm, hgoal⟩ := horn_verdict_tells_closure_under_intersection
  have hc : (c.map (·.atom)).Nodup := by decide
  have hcs : allHorn (cs.map (·.kind)) := by decide
  have hswap : c.Perm [⟨true, p⟩, ⟨false, q⟩, ⟨true, r⟩] := .swap _ _ _
  refine ⟨hc, fun h => ?_, hcs, hall cs hcs, ⟨hswap, hperm _ _ hswap⟩, (hgoal _).mp rfl⟩
  have hhorn : c.isHorn := (hclosed c hc).1.mpr h
  exact absurd hhorn (by decide)

end Clause

end Clausification

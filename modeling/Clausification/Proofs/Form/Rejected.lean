import Mathlib.Data.List.TakeWhile
import Clausification.Form.Distributed
import Clausification.Form.ImplicationFree
import Clausification.Form.NegationNormal
import Clausification.Formula.Rendering
import Clausification.Proofs.Form.Prenex
import Clausification.Proofs.Form.Renamed

/-!
# What the passes reject

Every pass stops at a node that it does not accept, and only there. It works from the leaves up, so
of several such nodes the first in post-order is reported; a pass that accepts a formula accepts
all of its nodes. Renaming enters nodes in pre-order, and has drawn a name for each quantifier that
it entered before it stopped.
-/

namespace Clausification

namespace Pass

/-- Whether implications and equivalences may still be there. -/
def takesImplications : Pass → Bool
  | elimination | alphaConversion | substitution | rendering => true
  | _ => false

/-- Whether quantifiers may be there. -/
def takesQuantifiers : Pass → Bool
  | conjunctive | disjunctive | extraction => false
  | _ => true

/-- Whether a pass can handle a node, whatever is below it. None takes a term for a formula. -/
def accepts (p : Pass) : Formula → Bool
  | .atom _ | .not _ => true
  | .binary c _ _ =>
    match c with
    | .and | .or => true
    | .implies | .iff => p.takesImplications
  | .quant .. => p.takesQuantifiers
  | .term _ => false

/-- The obstacle that a node is. -/
def fault? (p : Pass) (f : Formula) : Option Obstacle :=
  if p.accepts f then none else some (.node p f.kind)

variable {p : Pass} {f : Formula}

theorem fault?_eq_none : p.fault? f = none ↔ p.accepts f := by
  simp [fault?]

theorem findSome?_fault? (p : Pass) (fs : List Formula) :
    fs.findSome? p.fault? = (fs.find? fun f => !p.accepts f).map (.node p ·.kind) := by
  induction fs with
  | nil => rfl
  | cons f fs ih =>
    rw [List.findSome?_cons, List.find?_cons, fault?]
    cases p.accepts f with
    | true => exact ih
    | false => rfl

end Pass

namespace Formula

/-- Every node, each behind the nodes below it, left to right. -/
def postorder : Formula → List Formula
  | .atom a => [.atom a]
  | .term t => [.term t]
  | .not f => f.postorder ++ [.not f]
  | .binary c l r => l.postorder ++ r.postorder ++ [.binary c l r]
  | .quant q x f => f.postorder ++ [.quant q x f]

theorem postorder_perm_subformulas (f : Formula) : f.postorder.Perm f.subformulas := by
  induction f with
  | atom a => exact .refl _
  | term t => exact .refl _
  | not f ih => exact (List.perm_append_singleton _ _).trans (ih.cons _)
  | binary c l r ihl ihr => exact (List.perm_append_singleton _ _).trans ((ihl.append ihr).cons _)
  | quant q x f ih => exact (List.perm_append_singleton _ _).trans (ih.cons _)

theorem findSome?_postorder_eq_none {p : Pass} {f : Formula} :
    f.postorder.findSome? p.fault? = none ↔ ∀ g ∈ f.subformulas, p.accepts g := by
  rw [List.findSome?_eq_none_iff]
  exact forall_congr' fun g =>
    imp_congr f.postorder_perm_subformulas.mem_iff Pass.fault?_eq_none

end Formula

/-- A node function that stops at the nodes that a pass does not accept, and at no others. Atoms are
taken for well-formed. -/
structure Pass.Guards {β : Type} (p : Pass) (visit : Formula → List β → Except Obstacle β) :
    Prop where
  atom : ∀ a, a.wellFormed → stop? (visit (.atom a) []) = none
  not : ∀ f x, stop? (visit (.not f) [x]) = none
  binary : ∀ c l r x y, stop? (visit (.binary c l r) [x, y]) = p.fault? (.binary c l r)
  quant : ∀ q z f x, stop? (visit (.quant q z f) [x]) = p.fault? (.quant q z f)
  term : ∀ t, stop? (visit (.term t) []) = some (.node p t.kind)

open Formula in
theorem Pass.Guards.stop?_fold {β : Type} [Inhabited β] {p : Pass}
    {visit : Formula → List β → Except Obstacle β} (h : p.Guards visit) {f : Formula}
    (hf : ∀ a ∈ f.atoms, a.wellFormed) :
    stop? (fold visit f) = f.postorder.findSome? p.fault? := by
  induction f with
  | atom a =>
    rw [fold_atom, h.atom a (hf a (List.mem_singleton_self a))]
    rfl
  | term t =>
    rw [fold_term, h.term]
    rfl
  | not f ih =>
    rw [fold_not, stop?_bind fun x _ => h.not f x, ih hf, postorder, List.findSome?_append]
    rfl
  | quant q z f ih =>
    rw [fold_quant, stop?_bind fun x _ => h.quant q z f x, ih hf, postorder, List.findSome?_append,
      List.findSome?_singleton]
  | binary c l r ihl ihr =>
    obtain ⟨hl, hr⟩ := forall_mem_atoms_binary.mp hf
    have hright (x : β) : stop? (fold visit r >>= fun y => visit (.binary c l r) [x, y]) =
        (r.postorder.findSome? p.fault?).or (p.fault? (.binary c l r)) := by
      rw [stop?_bind fun y _ => h.binary c l r x y, ihr hr]
    rw [fold_binary, stop?_bind fun x _ => hright x, ihl hl, postorder, List.findSome?_append,
      List.findSome?_append, List.findSome?_singleton, Option.or_assoc]

namespace Formula

theorem guards_implicationFreeNode : Pass.elimination.Guards implicationFreeNode where
  atom _ _ := rfl
  not _ _ := rfl
  binary c _ _ _ _ := by cases c <;> rfl
  quant _ _ _ _ := rfl
  term _ := rfl

theorem guards_polarizedNode : Pass.negationNormal.Guards polarizedNode where
  atom _ _ := rfl
  not _ _ := rfl
  binary c _ _ _ _ := by cases c <;> rfl
  quant _ _ _ _ := rfl
  term _ := rfl

theorem guards_prenexNode : Pass.prenexing.Guards prenexNode where
  atom _ _ := rfl
  not _ _ := rfl
  binary c _ _ _ _ := by cases c <;> rfl
  quant _ _ _ _ := rfl
  term _ := rfl

theorem guards_distributeNode {p : Pass} {outer : Connective} (houter : outer.IsJunction)
    (himplications : p.takesImplications = false) (hquantifiers : p.takesQuantifiers = false) :
    p.Guards (distributeNode p outer outer.dual) where
  atom _ _ := rfl
  not _ _ := rfl
  binary c _ _ _ _ := by
    rcases houter with rfl | rfl <;> cases c <;>
      simp [distributeNode, Pass.fault?, Pass.accepts, himplications, stop?, Connective.dual]
  quant _ _ _ _ := by simp [distributeNode, Pass.fault?, Pass.accepts, hquantifiers, stop?]
  term _ := rfl

theorem guards_renderNode (n : Notation) : Pass.rendering.Guards (renderNode n) where
  atom a ha := by
    rw [renderNode, Atom.render, if_pos ha]
    rfl
  not _ _ := rfl
  binary c _ _ _ _ := by cases c <;> rfl
  quant _ _ _ _ := rfl
  term _ := rfl

/-- The variables of the quantifiers that are entered before a node is rejected. What renaming
rejects has no nodes below it, so they are those before it in pre-order. -/
def enteredBinders (f : Formula) : List String :=
  ((f.subformulas.takeWhile (Pass.accepts .alphaConversion)).filterMap binding?).map Prod.snd

variable {f l r : Formula} {c : Connective}

theorem accepts_alphaConversion_binary : Pass.alphaConversion.accepts (binary c l r) := by
  cases c <;> rfl

theorem enteredBinders_eq_binders (hf : ∀ g ∈ f.subformulas, Pass.alphaConversion.accepts g) :
    f.enteredBinders = f.binders := by
  rw [enteredBinders, List.takeWhile_eq_self_iff.mpr hf, ← quantifiers_eq_filterMap,
    map_snd_quantifiers]

theorem enteredBinders_quant (q : Quantifier) (x : String) (f : Formula) :
    (quant q x f).enteredBinders = x :: f.enteredBinders := rfl

theorem enteredBinders_binary (hl : ∀ g ∈ l.subformulas, Pass.alphaConversion.accepts g) :
    (binary c l r).enteredBinders = l.binders ++ r.enteredBinders := by
  rw [enteredBinders, subformulas, List.takeWhile_cons_of_pos accepts_alphaConversion_binary,
    List.takeWhile_append_of_pos hl, List.filterMap_cons_none rfl, List.filterMap_append,
    List.map_append, ← quantifiers_eq_filterMap, map_snd_quantifiers]
  rfl

theorem enteredBinders_binary_left (hl : ¬ ∀ g ∈ l.subformulas, Pass.alphaConversion.accepts g) :
    (binary c l r).enteredBinders = l.enteredBinders := by
  have hshort : (l.subformulas.takeWhile (Pass.accepts .alphaConversion)).length ≠
      l.subformulas.length := fun h =>
    hl (List.takeWhile_eq_self_iff.mp ((List.takeWhile_prefix _).eq_of_length h))
  rw [enteredBinders, subformulas, List.takeWhile_cons_of_pos accepts_alphaConversion_binary,
    List.takeWhile_append, if_neg hshort]
  rfl

theorem exists_run_rename (hf : ∀ a ∈ f.atoms, a.wellFormed) (σ : Substitution) (names : Names) :
    ∃ r, (descend .everywhere renamedNode enterBinder σ f).run.run names =
        (r, (names.freshVariables f.enteredBinders).2) ∧
      stop? r = f.postorder.findSome? (Pass.fault? .alphaConversion) := by
  induction f generalizing σ names with
  | atom a =>
    refine ⟨.ok (.atom (a.replace σ)), ?_, rfl⟩
    rw [descend_atom]
    simp only [renamedNode, Atom.substitute_eq (hf a (List.mem_singleton_self a))]
    rfl
  | term t =>
    refine ⟨.error (.node .alphaConversion t.kind), ?_, rfl⟩
    rw [descend_term]
    rfl
  | not f ih =>
    obtain ⟨r, hrun, hstop⟩ := ih hf σ names
    rw [descend_not, run_bind (enterBinder_not f σ names), postorder, List.findSome?_append,
      ← hstop]
    cases r with
    | error e => exact ⟨.error e, run_bind_error hrun, rfl⟩
    | ok g => exact ⟨.ok (.not g), run_bind hrun, rfl⟩
  | quant q x f ih =>
    obtain ⟨r, hrun, hstop⟩ :=
      ih hf ((x, .var (names.freshVariable x).1) :: σ) (names.freshVariable x).2
    rw [descend_quant, run_bind (enterBinder_quant q x f σ names), postorder, List.findSome?_append,
      ← hstop, enteredBinders_quant]
    cases r with
    | error e => exact ⟨.error e, run_bind_error hrun, rfl⟩
    | ok g => exact ⟨.ok (.quant q _ g), run_bind hrun, rfl⟩
  | binary c l r ihl ihr =>
    obtain ⟨hl, hr⟩ := forall_mem_atoms_binary.mp hf
    obtain ⟨rl, hrunl, hstopl⟩ := ihl hl σ names
    rw [descend_binary, run_bind (enterBinder_binary c l r σ names), postorder,
      List.findSome?_append, List.findSome?_append, ← hstopl]
    cases rl with
    | error e =>
      have hleft : ¬ ∀ g ∈ l.subformulas, Pass.alphaConversion.accepts g := by
        rw [← findSome?_postorder_eq_none, ← hstopl]
        exact Option.some_ne_none e
      rw [enteredBinders_binary_left hleft]
      exact ⟨.error e, run_bind_error hrunl, rfl⟩
    | ok g =>
      have hleft : ∀ g ∈ l.subformulas, Pass.alphaConversion.accepts g :=
        findSome?_postorder_eq_none.mp hstopl.symm
      rw [enteredBinders_eq_binders hleft] at hrunl
      obtain ⟨rr, hrunr, hstopr⟩ := ihr hr σ (names.freshVariables l.binders).2
      rw [run_bind hrunl, enteredBinders_binary hleft, Names.freshVariables_append, ← hstopr]
      cases rr with
      | error e => exact ⟨.error e, run_bind_error hrunr, rfl⟩
      | ok k => exact ⟨.ok (.binary c g k), run_bind hrunr, by cases c <;> rfl⟩

/-- What a pass returns for a formula: it stops exactly if some node is not accepted, and names the
first of these nodes in post-order. -/
structure StopsAtFirst {α : Type} (p : Pass) (f : Formula) (result : Except Obstacle α) : Prop where
  stops_iff : (∃ o, result = .error o) ↔ ∃ g ∈ f.subformulas, p.accepts g = false
  eq_of_first : ∀ g, f.postorder.find? (fun g => !p.accepts g) = some g →
    result = .error (.node p g.kind)

theorem StopsAtFirst.of_stop? {α : Type} {p : Pass} {result : Except Obstacle α}
    (h : stop? result = f.postorder.findSome? p.fault?) : StopsAtFirst p f result where
  stops_iff := by
    have hnone : (∃ a, result = .ok a) ↔ ∀ g ∈ f.subformulas, p.accepts g := by
      rw [← stop?_eq_none, h, findSome?_postorder_eq_none]
    constructor
    · rintro ⟨o, ho⟩
      by_contra hall
      simp only [not_exists, not_and, Bool.not_eq_false] at hall
      obtain ⟨a, ha⟩ := hnone.mpr hall
      exact nomatch ho.symm.trans ha
    · rintro ⟨g, hg, hrejected⟩
      cases result with
      | error o => exact ⟨o, rfl⟩
      | ok a => exact absurd (hnone.mp ⟨a, rfl⟩ g hg) (Bool.eq_false_iff.mp hrejected)
  eq_of_first g hg := by
    rw [Pass.findSome?_fault?, hg] at h
    exact stop?_eq_some.mp h

/-- Each pass stops exactly at the formulas with a node that it does not accept, with the first of
these in post-order. Terms in the place of formulas are rejected by all of them, implications and
equivalences behind the elimination of implications, quantifiers by distribution; the names that
renaming draws are those for the quantifiers that it enters before it stops. -/
theorem passes_stop_at_first_rejected (f : Formula) (hf : ∀ a ∈ f.atoms, a.wellFormed) :
    StopsAtFirst .elimination f f.implicationFree ∧
      StopsAtFirst .negationNormal f f.negationNormal ∧
      (∀ names : Names, StopsAtFirst .alphaConversion f (f.rename.run.run names).1 ∧
        (f.rename.run.run names).2 = (names.freshVariables f.enteredBinders).2) ∧
      StopsAtFirst .prenexing f f.prenex ∧
      StopsAtFirst .conjunctive f f.conjunctive ∧
      StopsAtFirst .disjunctive f f.disjunctive ∧
      ∀ n : Notation, StopsAtFirst .rendering f (f.render n) := by
  have hand : Connective.and.IsJunction := Or.inl rfl
  have hor : Connective.or.IsJunction := Or.inr rfl
  refine ⟨.of_stop? (guards_implicationFreeNode.stop?_fold hf), .of_stop? ?_, fun names => ?_,
    .of_stop? ?_, .of_stop? ((guards_distributeNode hand rfl rfl).stop?_fold hf),
    .of_stop? ((guards_distributeNode hor rfl rfl).stop?_fold hf),
    fun n => .of_stop? ((guards_renderNode n).stop?_fold hf)⟩
  · rw [negationNormal, stop?_map]
    exact guards_polarizedNode.stop?_fold hf
  · obtain ⟨r, hrun, hstop⟩ := exists_run_rename hf [] names
    rw [rename, walk_eq_descend, hrun]
    exact ⟨.of_stop? hstop, rfl⟩
  · rw [prenex, stop?_map]
    exact guards_prenexNode.stop?_fold hf

/-- An implication over a quantifier stands before a term. Each pass reports the first of the three
that it does not accept, and renaming never enters the quantifier behind the term. -/
theorem passes_stop_at_first_rejected_of_three_offenders :
    let p : Formula := .atom ⟨"p", [.var "x"]⟩
    let f : Formula := .and (.implies p (.all "x" p))
      (.and (.ex "y" (.not (.term (.var "z")))) (.all "w" (.term (.app "c" []))))
    (∀ a ∈ f.atoms, a.wellFormed) ∧
      f.implicationFree = .error (.node .elimination .var) ∧
      f.negationNormal = .error (.node .negationNormal (.binary .implies)) ∧
      (∀ names : Names, f.rename.run.run names =
        (.error (.node .alphaConversion .var), (names.freshVariables ["x", "y"]).2)) ∧
      f.prenex = .error (.node .prenexing (.binary .implies)) ∧
      f.conjunctive = .error (.node .conjunctive (.quant .all)) ∧
      f.disjunctive = .error (.node .disjunctive (.quant .all)) ∧
      ∀ n : Notation, f.render n = .error (.node .rendering .var) := by
  intro p f
  have hf : ∀ a ∈ f.atoms, a.wellFormed := by decide
  obtain ⟨helimination, hnormal, hrename, hprenex, hconjunctive, hdisjunctive, hrender⟩ :=
    passes_stop_at_first_rejected f hf
  refine ⟨hf, helimination.eq_of_first _ rfl, hnormal.eq_of_first _ rfl, fun names => ?_,
    hprenex.eq_of_first _ rfl, hconjunctive.eq_of_first _ rfl, hdisjunctive.eq_of_first _ rfl,
    fun n => (hrender n).eq_of_first _ rfl⟩
  obtain ⟨hstop, hnames⟩ := hrename names
  exact Prod.ext (hstop.eq_of_first _ rfl) hnames

end Formula

end Clausification

import Clausification.Proofs.Clause.Groups
import Clausification.Proofs.Clause.Spelling
import Clausification.Proofs.Reader.Chains
import Mathlib.Data.List.Basic

/-!
# Lists of clauses are read as they are written

What is read is a chain of the clauses, each a chain of its literals. The parentheses do not nest, so
it is not the writing of a formula unless there are few clauses; but the groups of literals in it are
the clauses, in their order.
-/

namespace Clausification

def Literal.formula (l : Literal) : Formula := if l.positive then .atom l.atom else .not (.atom l.atom)

def Clause.formula (c : Clause) : Formula := Formula.chain .or (c.map Literal.formula)

def Clause.formulaOfAll (cs : List Clause) : Formula := Formula.chain .and (cs.map Clause.formula)

namespace Formula
variable {c : Connective} {fs : List Formula}

theorem chain_induction {P : Formula → Prop} (hbinary : ∀ f g, P f → P g → P (.binary c f g))
    (hne : fs ≠ []) (h : ∀ f ∈ fs, P f) : P (chain c fs) := by
  cases fs with
  | nil => exact absurd rfl hne
  | cons f fs =>
    obtain ⟨hf, hfs⟩ := List.forall_mem_cons.mp h
    clear hne h
    rw [chain]
    induction fs generalizing f with
    | nil => exact hf
    | cons g fs ih =>
      obtain ⟨hg, hfs⟩ := List.forall_mem_cons.mp hfs
      exact ih (.binary c f g) (hbinary f g hf hg) hfs

theorem groups_chain_self (hne : fs ≠ []) :
    (chain c fs).groups c = fs.flatMap (groups c) := by
  cases fs with
  | nil => exact absurd rfl hne
  | cons f fs =>
    clear hne
    rw [chain, List.flatMap_cons]
    induction fs generalizing f with
    | nil => simp
    | cons g fs ih => rw [List.foldl_cons, ih, groups_binary_self, List.flatMap_cons,
        List.append_assoc]

/-- One literal after another is added to the only group. -/
theorem groups_foldl_literals {outer : Connective} (houter : outer.IsJunction) {f : Formula}
    {x : List Literal} (hf : f.groups outer = [x]) (ls : List Literal) :
    ((ls.map Literal.formula).foldl (.binary outer.dual) f).groups outer = [x ++ ls] := by
  induction ls generalizing f x with
  | nil => rw [List.append_nil]; exact hf
  | cons l ls ih =>
    have hl : l.formula.groups outer = [[l]] := by
      obtain ⟨positive, a⟩ := l
      cases positive <;> rfl
    have hnext : (binary outer.dual f l.formula).groups outer = [x ++ [l]] := by
      rw [groups_binary_dual houter, hf, hl]
      rfl
    rw [List.map_cons, List.foldl_cons, ih hnext, List.append_assoc, List.singleton_append]

end Formula

namespace Clause

theorem groups_formula {c : Clause} (hne : c ≠ []) : c.formula.groups .and = [c] := by
  cases c with
  | nil => exact absurd rfl hne
  | cons l ls =>
    have hl : l.formula.groups .and = [[l]] := by
      obtain ⟨positive, a⟩ := l
      cases positive <;> rfl
    exact Formula.groups_foldl_literals (Or.inl rfl) hl ls

theorem groups_formulaOfAll {cs : List Clause} (hcs : cs ≠ []) (hne : ∀ c ∈ cs, c ≠ []) :
    (formulaOfAll cs).groups .and = cs := by
  rw [formulaOfAll, Formula.groups_chain_self (by simpa using hcs), List.flatMap_map,
    List.flatMap_congr fun c hc => groups_formula (hne c hc), List.flatMap_singleton']

theorem matrix_formulaOfAll {cs : List Clause} (hcs : cs ≠ []) (hne : ∀ c ∈ cs, c ≠ []) :
    (formulaOfAll cs).Matrix := by
  have hliteral (l : Literal) : l.formula.Matrix := by
    obtain ⟨_ | _, a⟩ := l
    · exact .negated a
    · exact .atom a
  refine Formula.chain_induction (fun _ _ => .binary (Or.inl rfl)) (by simpa using hcs)
    (List.forall_mem_map.mpr fun c hc => ?_)
  exact Formula.chain_induction (fun _ _ => .binary (Or.inr rfl)) (by simpa using hne c hc)
    (List.forall_mem_map.mpr fun l _ => hliteral l)

end Clause

namespace Reader
variable {α : Type} {words : α → Words} {formula : α → Formula} {xs : List α}

theorem readsBehind_of_words {c : Connective} {y : String} {ts : List Token}
    (h : ∀ x ∈ xs, ∀ us, wordsOf us = words x → ReadsAs us (formula x))
    (hts : wordsOf ts = (xs.map words).flatMap ((.binary c, y) :: ·)) :
    ReadsBehind c ts (xs.map formula) := by
  induction xs generalizing ts with
  | nil =>
    rw [List.map_eq_nil_iff.mp hts]
    exact .nil
  | cons x xs ih =>
    obtain ⟨hx, hxs⟩ := List.forall_mem_cons.mp h
    obtain ⟨o, vs, rfl, hvs⟩ := wordsOf_eq_cons hts
    obtain ⟨us, ts', rfl, hus, hts'⟩ := wordsOf_eq_append hvs
    exact .cons y o (hx us hus) (ih hxs hts')

theorem exists_readsBehind {c : Connective} {y : String} {ts : List Token} (hne : xs ≠ [])
    (h : ∀ x ∈ xs, ∀ us, wordsOf us = words x → ReadsAs us (formula x))
    (hts : wordsOf ts = chainWords (.binary c, y) (xs.map words)) :
    ∃ us vs f fs, ts = us ++ vs ∧ ReadsAs us f ∧ ReadsBehind c vs fs ∧
      xs.map formula = f :: fs := by
  cases xs with
  | nil => exact absurd rfl hne
  | cons x xs =>
    obtain ⟨hx, hxs⟩ := List.forall_mem_cons.mp h
    obtain ⟨us, vs, rfl, hus, hvs⟩ := wordsOf_eq_append hts
    exact ⟨us, vs, _, _, rfl, hx us hus, readsBehind_of_words hxs hvs, rfl⟩

variable (n : Notation)

theorem readsAs_literal {l : Literal} (hl : l.atom.IsPlain) {ts : List Token}
    (hts : wordsOf ts = l.words n) : ReadsAs ts l.formula := by
  have hatom {us : List Token} (hus : wordsOf us = l.atom.words) : ReadsAs us (.atom l.atom) := by
    obtain ⟨o, us, rfl, hread⟩ := atomAfter_words hl hus
    exact .atom hread
  obtain ⟨_ | _, a⟩ := l
  · obtain ⟨o, us, rfl, hus⟩ := wordsOf_eq_cons hts
    exact .not (hatom hus)
  · exact hatom hts

theorem readsAs_clause {c : Clause} (hne : c ≠ []) (hc : c.IsPlain) {ts : List Token}
    (hts : wordsOf ts = c.groupWords n) : ReadsAs ts c.formula := by
  obtain ⟨m, body, rfl, hbody⟩ := wordsOf_eq_cons hts
  obtain ⟨literals, closing, rfl, hliterals, hclosing⟩ := wordsOf_eq_append hbody
  obtain ⟨o, rest, rfl, hrest⟩ := wordsOf_eq_cons hclosing
  obtain ⟨us, vs, f, fs, rfl, hf, hfs, hformula⟩ :=
    exists_readsBehind hne (fun l hl _ => readsAs_literal n (hc l hl)) hliterals
  rw [List.map_eq_nil_iff.mp hrest, Clause.formula, hformula]
  exact hf.chain (Or.inr rfl) hfs

theorem readFormula_clauses {cs : List Clause} (hcs : cs ≠ []) (hne : ∀ c ∈ cs, c ≠ [])
    (hplain : ∀ c ∈ cs, c.IsPlain) {ts : List Token} (hts : wordsOf ts = Clause.wordsOfAll n cs) :
    readFormula ts = .ok (Clause.formulaOfAll cs, []) := by
  obtain ⟨us, vs, f, fs, rfl, hf, hfs, hformula⟩ :=
    exists_readsBehind hcs (fun c hc _ => readsAs_clause n (hne c hc) (hplain c hc)) hts
  rw [Clause.formulaOfAll, hformula]
  exact readFormula_chain (Or.inl rfl) hf hfs

end Reader

theorem Clause.parse_writingAll (n : Notation) {cs : List Clause} (hcs : cs ≠ [])
    (hne : ∀ c ∈ cs, c ≠ []) (hplain : ∀ c ∈ cs, c.IsPlain) (strict : Bool) :
    Formula.parse strict (writingAll n cs) = .ok (formulaOfAll cs) := by
  obtain ⟨ts, hts, hscan⟩ := scan_writingAll n hcs hne hplain strict
  exact Formula.parse_of_scan hscan (Reader.readFormula_clauses n hcs hne hplain hts)

end Clausification

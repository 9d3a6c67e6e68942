import Clausification.Formula.Symbols

/-!
# Where names occur

The variables and function symbols of terms and formulas, and what they have to do with the names
that the library collects.
-/

namespace Clausification

/-- Induction on terms, with the hypothesis for every argument at hand. -/
@[elab_as_elim, induction_eliminator]
theorem Term.inductionOn {P : Term → Prop} (var : ∀ x, P (.var x))
    (app : ∀ f ts, (∀ t ∈ ts, P t) → P (.app f ts))
    (stray : ∀ p ts, (∀ t ∈ ts, P t) → P (.stray p ts)) (t : Term) : P t :=
  @Term.rec P (fun ts => ∀ t ∈ ts, P t) var app stray (fun _ h => nomatch h)
    (fun _ _ hs hts _ ht => (List.mem_cons.mp ht).elim (fun h => h ▸ hs) (hts _)) t

mutual

/-- The variables of a term. -/
def Term.vars : Term → List String
  | .var x => [x]
  | .app _ ts => Term.varsOfAll ts
  | .stray .. => []

def Term.varsOfAll : List Term → List String
  | [] => []
  | t :: ts => t.vars ++ Term.varsOfAll ts

end

theorem Term.varsOfAll_eq_flatMap (ts : List Term) :
    Term.varsOfAll ts = ts.flatMap Term.vars := by
  induction ts with
  | nil => rfl
  | cons t ts ih => simp [Term.varsOfAll, ih]

theorem Term.functionsOfAll_eq_flatMap (ts : List Term) :
    Term.functionsOfAll ts = ts.flatMap Term.functions := by
  induction ts with
  | nil => rfl
  | cons t ts ih => simp [Term.functionsOfAll, ih]

theorem Term.symbolsOfAll_eq_flatMap (ts : List Term) :
    Term.symbolsOfAll ts = ts.flatMap Term.symbols := by
  induction ts with
  | nil => rfl
  | cons t ts ih => simp [Term.symbolsOfAll, ih]

theorem Term.vars_app_map_var (g : String) (xs : List String) :
    (Term.app g (xs.map .var)).vars = xs := by
  simp [Term.vars, Term.varsOfAll_eq_flatMap, List.flatMap_map]

theorem Term.functions_app_map_var (g : String) (xs : List String) :
    (Term.app g (xs.map .var)).functions = [g] := by
  simp [Term.functions, Term.functionsOfAll_eq_flatMap, List.flatMap_map]

theorem Term.vars_subset_symbols (t : Term) : t.vars ⊆ t.symbols := by
  induction t with
  | var x => simp [Term.vars, Term.symbols]
  | app f ts ih =>
    intro x hx
    simp only [Term.vars, Term.varsOfAll_eq_flatMap, List.mem_flatMap] at hx
    obtain ⟨t, ht, hx⟩ := hx
    simp only [Term.symbols, Term.symbolsOfAll_eq_flatMap, List.mem_cons, List.mem_flatMap]
    exact Or.inr ⟨t, ht, ih t ht hx⟩
  | stray p ts => simp [Term.vars]

theorem Term.functions_subset_symbols (t : Term) : t.functions ⊆ t.symbols := by
  induction t with
  | var x => simp [Term.functions]
  | app f ts ih =>
    intro g hg
    simp only [Term.functions, Term.functionsOfAll_eq_flatMap, List.mem_cons,
      List.mem_flatMap] at hg
    simp only [Term.symbols, Term.symbolsOfAll_eq_flatMap, List.mem_cons, List.mem_flatMap]
    rcases hg with rfl | ⟨t, ht, hg⟩
    · exact Or.inl rfl
    · exact Or.inr ⟨t, ht, ih t ht hg⟩
  | stray p ts => simp [Term.functions]

namespace Atom

def vars (a : Atom) : List String := a.args.flatMap Term.vars

def functions (a : Atom) : List String := a.args.flatMap Term.functions

theorem vars_subset_symbols (a : Atom) : a.vars ⊆ a.symbols := by
  intro x hx
  obtain ⟨t, ht, hx⟩ := List.mem_flatMap.mp hx
  simp only [symbols, Term.symbolsOfAll_eq_flatMap, List.mem_cons, List.mem_flatMap]
  exact Or.inr ⟨t, ht, t.vars_subset_symbols hx⟩

theorem functions_subset_symbols (a : Atom) : a.functions ⊆ a.symbols := by
  intro g hg
  obtain ⟨t, ht, hg⟩ := List.mem_flatMap.mp hg
  simp only [symbols, Term.symbolsOfAll_eq_flatMap, List.mem_cons, List.mem_flatMap]
  exact Or.inr ⟨t, ht, t.functions_subset_symbols hg⟩

end Atom

namespace Formula

/-- The variables that occur outside the scope of a quantifier over them. -/
def freeVars : Formula → List String
  | atom a => a.vars
  | not f => f.freeVars
  | binary _ l r => l.freeVars ++ r.freeVars
  | quant _ x f => f.freeVars.filter (· ≠ x)
  | term _ => []

/-- The atoms of a formula, left to right. -/
def atoms : Formula → List Atom
  | atom a => [a]
  | not f => f.atoms
  | binary _ l r => l.atoms ++ r.atoms
  | quant _ _ f => f.atoms
  | term _ => []

/-- The function symbols in the atoms of a formula. -/
def functions (f : Formula) : List String := f.atoms.flatMap Atom.functions

@[simp] theorem mem_freeVars_quant {q : Quantifier} {x y : String} {f : Formula} :
    y ∈ (quant q x f).freeVars ↔ y ∈ f.freeVars ∧ y ≠ x := by
  simp [freeVars]

theorem binders_subset_symbols (f : Formula) : f.binders ⊆ f.symbols := by
  induction f with
  | atom a => exact List.nil_subset _
  | not f ih => exact ih
  | binary c l r ihl ihr =>
    rw [binders, symbols]
    exact List.append_subset.mpr
      ⟨List.subset_append_of_subset_left _ ihl, List.subset_append_of_subset_right _ ihr⟩
  | quant q x f ih => exact List.cons_subset_cons x ih
  | term t => exact List.nil_subset _

theorem freeVars_subset_symbols (f : Formula) : f.freeVars ⊆ f.symbols := by
  induction f with
  | atom a => exact a.vars_subset_symbols
  | not f ih => exact ih
  | binary c l r ihl ihr =>
    intro x hx
    rcases List.mem_append.mp hx with hx | hx
    · exact List.mem_append.mpr (Or.inl (ihl hx))
    · exact List.mem_append.mpr (Or.inr (ihr hx))
  | quant q x f ih =>
    intro y hy
    exact List.mem_cons_of_mem x (ih (mem_freeVars_quant.mp hy).1)
  | term t => simp [freeVars]

theorem atom_symbols_subset_symbols (f : Formula) : ∀ a ∈ f.atoms, a.symbols ⊆ f.symbols := by
  induction f with
  | atom a =>
    intro b hb
    rw [List.mem_singleton.mp hb]
    exact List.Subset.refl _
  | not f ih => exact ih
  | binary c l r ihl ihr =>
    intro a ha
    rcases List.mem_append.mp ha with ha | ha
    · exact fun x hx => List.mem_append.mpr (Or.inl (ihl a ha hx))
    · exact fun x hx => List.mem_append.mpr (Or.inr (ihr a ha hx))
  | quant q x f ih => exact fun a ha y hy => List.mem_cons_of_mem x (ih a ha hy)
  | term t => exact fun a ha => nomatch ha

theorem functions_subset_symbols (f : Formula) : f.functions ⊆ f.symbols := by
  intro g hg
  obtain ⟨a, ha, hg⟩ := List.mem_flatMap.mp hg
  exact f.atom_symbols_subset_symbols a ha (a.functions_subset_symbols hg)

theorem mem_functionSymbols {g : String} {f : Formula} :
    g ∈ f.functionSymbols ↔ g ∈ f.functions := by
  simp only [functionSymbols, List.mem_eraseDups, functions]
  induction f with
  | atom a => simp [subformulas, atoms, Atom.functions, Term.functionsOfAll_eq_flatMap]
  | not f ih => simpa [subformulas, atoms] using ih
  | binary c l r ihl ihr =>
    simp only [subformulas, List.flatMap_cons, List.flatMap_append, List.nil_append,
      List.mem_append, atoms, ihl, ihr]
  | quant q x f ih => simpa [subformulas, atoms] using ih
  | term t => simp [subformulas, atoms]

end Formula

end Clausification

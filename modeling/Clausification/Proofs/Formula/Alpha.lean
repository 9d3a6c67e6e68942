import Clausification.Proofs.Form.ImplicationFree
import Clausification.Proofs.Form.NegationNormal

/-!
# Formulas with other bound names

Two formulas are compared side by side. The variables bound on the way down stand in pairs, innermost
first, and two variables count as the same one if one pair binds both of them, or if none binds either
and they are equal.
-/

namespace Clausification

/-- Variables bound side by side, the innermost pair first. -/
abbrev Pairing := List (String × String)

/-- One pair binds both variables, or none binds either and they are equal. -/
def Pairing.relates : Pairing → String → String → Bool
  | [], x, y => x = y
  | (a, b) :: p, x, y => if x = a ∨ y = b then x = a ∧ y = b else relates p x y

mutual

def Term.alike (p : Pairing) : Term → Term → Bool
  | .var x, .var y => p.relates x y
  | .app f ss, .app g ts => f = g && Term.allAlike p ss ts
  | .stray q ss, .stray q' ts => q = q' ∧ ss = ts
  | _, _ => false

def Term.allAlike (p : Pairing) : List Term → List Term → Bool
  | [], [] => true
  | s :: ss, t :: ts => s.alike p t && Term.allAlike p ss ts
  | _, _ => false

end

def Atom.alike (p : Pairing) (a b : Atom) : Bool :=
  a.predicate = b.predicate && Term.allAlike p a.args b.args

namespace Formula

/-- The formulas are the same up to the names of bound variables, those bound above them included. -/
inductive Alike : Pairing → Formula → Formula → Prop
  | atom {p : Pairing} {a b : Atom} (h : a.alike p b) : Alike p (.atom a) (.atom b)
  | not {p : Pairing} {f g : Formula} (h : Alike p f g) : Alike p (.not f) (.not g)
  | binary {p : Pairing} {l l' r r' : Formula} (c : Connective) (hl : Alike p l l')
      (hr : Alike p r r') : Alike p (.binary c l r) (.binary c l' r')
  | quant {p : Pairing} {f g : Formula} (q : Quantifier) (x y : String)
      (h : Alike ((x, y) :: p) f g) : Alike p (.quant q x f) (.quant q y g)
  | term {p : Pairing} (t : Term) : Alike p (.term t) (.term t)

/-- The formulas differ in nothing but the names of their bound variables. -/
def AlphaEquivalent (f g : Formula) : Prop := Alike [] f g

end Formula

variable {p : Pairing}

theorem Pairing.relates_nil {x y : String} : relates [] x y ↔ x = y := by
  simp [relates]

theorem Pairing.relates_cons {a b x y : String} :
    relates ((a, b) :: p) x y ↔ x = a ∧ y = b ∨ x ≠ a ∧ y ≠ b ∧ p.relates x y := by
  rw [relates]
  split
  · rename_i h
    simp only [decide_eq_true_eq]
    constructor
    · exact Or.inl
    · rintro (h' | ⟨hx, hy, -⟩)
      · exact h'
      · exact absurd h (not_or.mpr ⟨hx, hy⟩)
  · rename_i h
    obtain ⟨hx, hy⟩ := not_or.mp h
    simp [hx, hy]

theorem Term.map_eq_map_of_allAlike {α : Type*} {k k' : Term → α} {ss ts : List Term}
    (h : Term.allAlike p ss ts) (hk : ∀ s ∈ ss, ∀ t, s.alike p t → k s = k' t) :
    ss.map k = ts.map k' := by
  induction ss generalizing ts with
  | nil =>
    cases ts with
    | nil => rfl
    | cons t ts => simp [Term.allAlike] at h
  | cons s ss ih =>
    cases ts with
    | nil => simp [Term.allAlike] at h
    | cons t ts =>
      rw [Term.allAlike, Bool.and_eq_true] at h
      rw [List.map_cons, List.map_cons, hk s List.mem_cons_self t h.1,
        ih h.2 fun s hs => hk s (List.mem_cons_of_mem _ hs)]

theorem Term.exists_alike_of_mem {ss ts : List Term} (h : Term.allAlike p ss ts) {s : Term}
    (hs : s ∈ ss) : ∃ t ∈ ts, s.alike p t := by
  induction ss generalizing ts with
  | nil => exact nomatch hs
  | cons s' ss ih =>
    cases ts with
    | nil => simp [Term.allAlike] at h
    | cons t ts =>
      rw [Term.allAlike, Bool.and_eq_true] at h
      rcases List.mem_cons.mp hs with rfl | hs
      · exact ⟨t, List.mem_cons_self, h.1⟩
      · obtain ⟨t, ht, hst⟩ := ih h.2 hs
        exact ⟨t, List.mem_cons_of_mem _ ht, hst⟩

theorem Term.alike_app {f g : String} {ss ts : List Term} :
    (Term.app f ss).alike p (.app g ts) ↔ f = g ∧ Term.allAlike p ss ts := by
  simp [Term.alike]

theorem Atom.alike_iff {a b : Atom} :
    a.alike p b ↔ a.predicate = b.predicate ∧ Term.allAlike p a.args b.args := by
  simp [Atom.alike]

theorem Pairing.relates_swap (p : Pairing) (x y : String) :
    relates (p.map Prod.swap) y x = p.relates x y := by
  induction p with
  | nil => simp [relates, eq_comm]
  | cons e p ih =>
    obtain ⟨a, b⟩ := e
    simp only [List.map_cons, Prod.swap_prod_mk, relates, ih, or_comm, and_comm]

theorem Term.allAlike_swap {q : Pairing} {ss ts : List Term} (h : Term.allAlike p ss ts)
    (hs : ∀ s ∈ ss, ∀ t, s.alike p t → t.alike q s) : Term.allAlike q ts ss := by
  induction ss generalizing ts with
  | nil =>
    cases ts with
    | nil => rfl
    | cons t ts => simp [Term.allAlike] at h
  | cons s ss ih =>
    cases ts with
    | nil => simp [Term.allAlike] at h
    | cons t ts =>
      rw [Term.allAlike, Bool.and_eq_true] at h ⊢
      exact ⟨hs s List.mem_cons_self t h.1, ih h.2 fun s hmem => hs s (List.mem_cons_of_mem _ hmem)⟩

theorem Term.alike_swap {s t : Term} (h : s.alike p t) : t.alike (p.map Prod.swap) s := by
  induction s generalizing t with
  | var x =>
    cases t with
    | var y => exact (p.relates_swap x y).trans h
    | app g ts | stray g ts => simp [Term.alike] at h
  | app f ss ih =>
    cases t with
    | app g ts =>
      obtain ⟨rfl, hall⟩ := Term.alike_app.mp h
      exact Term.alike_app.mpr ⟨rfl, Term.allAlike_swap hall fun s hs t hst => ih s hs hst⟩
    | var y | stray g ts => simp [Term.alike] at h
  | stray q ss =>
    cases t with
    | stray q' ts =>
      obtain ⟨rfl, rfl⟩ : q = q' ∧ ss = ts := by simpa [Term.alike] using h
      simp [Term.alike]
    | var y | app g ts => simp [Term.alike] at h

theorem Atom.alike_swap {a b : Atom} (h : a.alike p b) : b.alike (p.map Prod.swap) a := by
  obtain ⟨hname, hall⟩ := Atom.alike_iff.mp h
  exact Atom.alike_iff.mpr ⟨hname.symm, Term.allAlike_swap hall fun _ _ _ => Term.alike_swap⟩

namespace Formula
variable {f g : Formula}

theorem Alike.swap (h : Alike p f g) : Alike (p.map Prod.swap) g f := by
  induction h with
  | atom h => exact .atom (Atom.alike_swap h)
  | not _ ih => exact .not ih
  | binary c _ _ ihl ihr => exact .binary c ihl ihr
  | quant q x y _ ih => exact .quant q y x ih
  | term t => exact .term t

theorem AlphaEquivalent.symm (h : f.AlphaEquivalent g) : g.AlphaEquivalent f := Alike.swap h

end Formula

theorem Term.functions_eq_of_alike {s t : Term} (h : s.alike p t) : s.functions = t.functions := by
  induction s generalizing t with
  | var x =>
    cases t with
    | var y => rfl
    | app g ts | stray g ts => simp [Term.alike] at h
  | app f ss ih =>
    cases t with
    | app g ts =>
      obtain ⟨rfl, hall⟩ := Term.alike_app.mp h
      rw [functions, functions, functionsOfAll_eq_flatMap, functionsOfAll_eq_flatMap,
        List.flatMap_def, List.flatMap_def,
        Term.map_eq_map_of_allAlike hall fun s hs t hst => ih s hs hst]
    | var y | stray g ts => simp [Term.alike] at h
  | stray q ss =>
    cases t with
    | stray q' ts => rfl
    | var y | app g ts => simp [Term.alike] at h

theorem Term.exists_related_of_alike {s t : Term} (h : s.alike p t) {x : String} (hx : x ∈ s.vars) :
    ∃ y ∈ t.vars, p.relates x y := by
  induction s generalizing t with
  | var z =>
    obtain rfl : x = z := List.mem_singleton.mp hx
    cases t with
    | var y => exact ⟨y, List.mem_singleton_self y, h⟩
    | app g ts | stray g ts => simp [Term.alike] at h
  | app f ss ih =>
    cases t with
    | app g ts =>
      simp only [vars, varsOfAll_eq_flatMap, List.mem_flatMap] at hx ⊢
      obtain ⟨s, hs, hx⟩ := hx
      obtain ⟨t, ht, hst⟩ := Term.exists_alike_of_mem (Term.alike_app.mp h).2 hs
      obtain ⟨y, hy, hxy⟩ := ih s hs hst hx
      exact ⟨y, ⟨t, ht, hy⟩, hxy⟩
    | var y | stray g ts => simp [Term.alike] at h
  | stray q ss => cases hx

namespace Formula
variable {f g : Formula}

theorem Alike.length_binders (h : Alike p f g) : f.binders.length = g.binders.length := by
  induction h with
  | atom h => rfl
  | not _ ih => exact ih
  | binary c _ _ ihl ihr => rw [binders, binders, List.length_append, List.length_append, ihl, ihr]
  | quant q x y _ ih => exact congrArg Nat.succ ih
  | term t => rfl

theorem Alike.functions_eq (h : Alike p f g) : f.functions = g.functions := by
  induction h with
  | @atom p a b h =>
    have hargs : a.args.map Term.functions = b.args.map Term.functions :=
      Term.map_eq_map_of_allAlike (Atom.alike_iff.mp h).2 fun _ _ _ => Term.functions_eq_of_alike
    simp [functions, atoms, Atom.functions, List.flatMap_def, hargs]
  | not _ ih => exact ih
  | binary c _ _ ihl ihr =>
    simp only [functions, atoms, List.flatMap_append] at ihl ihr ⊢
    rw [ihl, ihr]
  | quant q x y _ ih => exact ih
  | term t => rfl

theorem Alike.exists_related (h : Alike p f g) {x : String} (hx : x ∈ f.freeVars) :
    ∃ y ∈ g.freeVars, p.relates x y := by
  induction h with
  | atom h =>
    obtain ⟨s, hs, hx⟩ := List.mem_flatMap.mp hx
    obtain ⟨t, ht, hst⟩ := Term.exists_alike_of_mem (Atom.alike_iff.mp h).2 hs
    obtain ⟨y, hy, hxy⟩ := Term.exists_related_of_alike hst hx
    exact ⟨y, List.mem_flatMap.mpr ⟨t, ht, hy⟩, hxy⟩
  | not _ ih => exact ih hx
  | binary c _ _ ihl ihr =>
    rcases List.mem_append.mp hx with hx | hx
    · obtain ⟨y, hy, hxy⟩ := ihl hx
      exact ⟨y, List.mem_append_left _ hy, hxy⟩
    · obtain ⟨y, hy, hxy⟩ := ihr hx
      exact ⟨y, List.mem_append_right _ hy, hxy⟩
  | quant q a b _ ih =>
    obtain ⟨hx, hxa⟩ := mem_freeVars_quant.mp hx
    obtain ⟨y, hy, hxy⟩ := ih hx
    rcases Pairing.relates_cons.mp hxy with ⟨rfl, -⟩ | ⟨-, hyb, hxy⟩
    · exact absurd rfl hxa
    · exact ⟨y, mem_freeVars_quant.mpr ⟨hy, hyb⟩, hxy⟩
  | term t => exact nomatch hx

theorem AlphaEquivalent.freeVars_subset (h : f.AlphaEquivalent g) : f.freeVars ⊆ g.freeVars := by
  intro x hx
  obtain ⟨y, hy, hxy⟩ := Alike.exists_related h hx
  rwa [Pairing.relates_nil.mp hxy]

theorem AlphaEquivalent.mem_freeVars_iff (h : f.AlphaEquivalent g) {x : String} :
    x ∈ g.freeVars ↔ x ∈ f.freeVars :=
  ⟨fun hx => h.symm.freeVars_subset hx, fun hx => h.freeVars_subset hx⟩

theorem Alike.withoutImplications (h : Alike p f g) :
    Alike p f.withoutImplications g.withoutImplications := by
  induction h with
  | atom h => exact .atom h
  | not _ ih => exact .not ih
  | binary c _ _ ihl ihr =>
    cases c with
    | and => exact .binary .and ihl ihr
    | or => exact .binary .or ihl ihr
    | implies => exact .binary .or (.not ihl) ihr
    | iff => exact .binary .and (.binary .or (.not ihl) ihr) (.binary .or (.not ihr) ihl)
  | quant q x y _ ih => exact .quant q x y ih
  | term t => exact .term t

theorem Alike.signed (h : Alike p f g) (b : Bool) : Alike p (f.signed b) (g.signed b) := by
  induction h generalizing b with
  | atom h =>
    cases b
    · exact .atom h
    · exact .not (.atom h)
  | not _ ih => exact ih _
  | binary c _ _ ihl ihr => exact .binary _ (ihl b) (ihr b)
  | quant q x y _ ih => exact .quant _ x y (ih b)
  | term t => exact .term t

end Formula

section
variable {D : Type*} [Nonempty D] (M : Interpretation D) {ρ ρ' : Assignment D}

theorem Term.value_eq_of_alike {s t : Term} (h : s.alike p t)
    (hρ : ∀ x y, p.relates x y → ρ x = ρ' y) : s.value M ρ = t.value M ρ' := by
  induction s generalizing t with
  | var x =>
    cases t with
    | var y => simpa [value] using hρ x y h
    | app g ts | stray g ts => simp [Term.alike] at h
  | app f ss ih =>
    cases t with
    | app g ts =>
      obtain ⟨rfl, hall⟩ := Term.alike_app.mp h
      rw [value, value, Term.map_eq_map_of_allAlike hall fun s hs t hst => ih s hs hst]
    | var y | stray g ts => simp [Term.alike] at h
  | stray q ss =>
    cases t with
    | stray q' ts => simp [value]
    | var y | app g ts => simp [Term.alike] at h

/-- Variables that count as the same one have to stand for the same element. -/
theorem Formula.Alike.holds_iff {f g : Formula} (h : Alike p f g)
    (hρ : ∀ x y, p.relates x y → ρ x = ρ' y) : f.holds M ρ ↔ g.holds M ρ' := by
  induction h generalizing ρ ρ' with
  | @atom p a b h =>
    obtain ⟨hname, hall⟩ := Atom.alike_iff.mp h
    have hargs : a.args.map (Term.value M ρ) = b.args.map (Term.value M ρ') :=
      Term.map_eq_map_of_allAlike hall fun _ _ _ hst => Term.value_eq_of_alike M hst hρ
    rw [holds, holds, Atom.holds, Atom.holds, hname, hargs]
  | not _ ih => exact not_congr (ih hρ)
  | binary c _ _ ihl ihr => exact Connective.joins_congr (ihl hρ) (ihr hρ)
  | quant q a b _ ih =>
    refine Quantifier.ranges_congr fun e => ih fun x y hxy => ?_
    rcases Pairing.relates_cons.mp hxy with ⟨rfl, rfl⟩ | ⟨hxa, hyb, hxy⟩
    · rw [Function.update_self, Function.update_self]
    · rw [Function.update_of_ne hxa, Function.update_of_ne hyb]
      exact hρ x y hxy
  | term t => exact Iff.rfl

theorem Formula.AlphaEquivalent.holds_iff {f g : Formula} (h : f.AlphaEquivalent g)
    (ρ : Assignment D) : f.holds M ρ ↔ g.holds M ρ :=
  Alike.holds_iff M h fun _ _ hxy => congrArg ρ (Pairing.relates_nil.mp hxy)

end

end Clausification

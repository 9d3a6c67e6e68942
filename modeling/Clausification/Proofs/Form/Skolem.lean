import Clausification.Form.Skolem
import Clausification.Proofs.Form.Prenex
import Clausification.Proofs.Names
import Clausification.Proofs.Formula.Capture

/-!
# The Skolem form keeps the meaning

A prenex formula is true exactly if the fresh symbols can be interpreted so that its Skolem form is
true whatever the universal variables stand for. Along the prefix the assignments that count are
those that agree with a given one outside the universal variables met so far; one of them is known
by the elements for these, which is all that a Skolem function gets to see.
-/

namespace Clausification

universe u

/-- The names that are taken after some steps and were not taken before. -/
def Names.drawn (before after : Names) : List String :=
  after.taken.filter (· ∉ before.taken)

namespace Names

theorem mem_drawn {before after : Names} {g : String} :
    g ∈ before.drawn after ↔ g ∈ after.taken ∧ g ∉ before.taken := by
  simp [drawn]

theorem drawn_self (names : Names) : names.drawn names = [] := by
  simp [drawn]

theorem mem_drawn_freshSkolem {base g : String} {names after : Names}
    (hg : g ≠ (names.freshSkolem base).1) :
    g ∈ names.drawn after ↔ g ∈ (names.freshSkolem base).2.drawn after := by
  simp [mem_drawn, hg]

end Names

namespace Interpretation
variable {D : Type u}

/-- The interpretation with another function for one name. -/
def withFunction (M : Interpretation D) (g : String) (F : List D → D) : Interpretation D :=
  { M with function := Function.update M.function g F }

/-- Both interpretations give the same relations, and the same functions to all but some names. -/
structure AgreesOutside (gs : List String) (M' M : Interpretation D) : Prop where
  function : ∀ g, g ∉ gs → M'.function g = M.function g
  relation : M'.relation = M.relation

variable {M M' : Interpretation D}

theorem withFunction_function_self (g : String) (F : List D → D) :
    (M.withFunction g F).function g = F :=
  Function.update_self ..

theorem withFunction_function_of_ne {g h : String} (F : List D → D) (hne : h ≠ g) :
    (M.withFunction g F).function h = M.function h :=
  Function.update_of_ne hne ..

theorem agreesOutside_refl (gs : List String) (M : Interpretation D) : M.AgreesOutside gs M :=
  ⟨fun _ _ => rfl, rfl⟩

theorem agreesOutside_nil : M'.AgreesOutside [] M ↔ M' = M := by
  constructor
  · rintro ⟨hf, hr⟩
    obtain ⟨f', r'⟩ := M'
    obtain ⟨f, r⟩ := M
    simp only [List.not_mem_nil, not_false_eq_true, forall_const] at hf hr
    rw [funext hf, hr]
  · rintro rfl
    exact agreesOutside_refl [] _

theorem agreesOutside_congr {gs hs : List String} (h : ∀ g, g ∈ gs ↔ g ∈ hs) :
    M'.AgreesOutside gs M ↔ M'.AgreesOutside hs M := by
  constructor
  · rintro ⟨hf, hr⟩
    exact ⟨fun g hg => hf g fun hmem => hg ((h g).mp hmem), hr⟩
  · rintro ⟨hf, hr⟩
    exact ⟨fun g hg => hf g fun hmem => hg ((h g).mpr hmem), hr⟩

/-- The symbols drawn from here on are the next one and those drawn behind it. -/
theorem agreesOutside_drawn_iff {base : String} {names after : Names}
    (hg : (names.freshSkolem base).1 ∈ after.taken) :
    M'.AgreesOutside (names.drawn after) M ↔
      ∃ F, M'.AgreesOutside ((names.freshSkolem base).2.drawn after)
        (M.withFunction (names.freshSkolem base).1 F) := by
  constructor
  · rintro ⟨hf, hr⟩
    refine ⟨M'.function (names.freshSkolem base).1, fun h hh => ?_, hr⟩
    by_cases hne : h = (names.freshSkolem base).1
    · rw [hne, withFunction_function_self]
    · rw [withFunction_function_of_ne _ hne]
      exact hf h fun hmem => hh ((Names.mem_drawn_freshSkolem hne).mp hmem)
  · rintro ⟨F, hf, hr⟩
    refine ⟨fun h hh => ?_, hr⟩
    have hne : h ≠ (names.freshSkolem base).1 := by
      rintro rfl
      exact hh (Names.mem_drawn.mpr ⟨hg, names.freshSkolem_not_mem base⟩)
    rw [hf h fun hmem => hh ((Names.mem_drawn_freshSkolem hne).mpr hmem),
      withFunction_function_of_ne F hne]

end Interpretation

namespace Assignment
variable {D : Type u} {us : List String} {ρ ρ' ρ₀ : Assignment D} {x : String}

/-- The assignment agrees with another one on all variables but some. -/
def AgreesOutside (us : List String) (ρ ρ₀ : Assignment D) : Prop := ∀ x, x ∉ us → ρ x = ρ₀ x

/-- An assignment is known by what it does not share with another one. -/
theorem AgreesOutside.ext (h : ρ.AgreesOutside us ρ₀) (h' : ρ'.AgreesOutside us ρ₀)
    (hus : us.map ρ = us.map ρ') : ρ = ρ' := by
  funext x
  by_cases hx : x ∈ us
  · exact List.map_inj_left.mp hus x hx
  · rw [h x hx, h' x hx]

theorem AgreesOutside.update (h : ρ.AgreesOutside us ρ₀) (x : String) (e : D) :
    AgreesOutside (us ++ [x]) (Function.update ρ x e) ρ₀ := by
  intro y hy
  simp only [List.mem_append, List.mem_singleton, not_or] at hy
  rw [Function.update_of_ne hy.2]
  exact h y hy.1

theorem AgreesOutside.restore (h : ρ.AgreesOutside (us ++ [x]) ρ₀) :
    AgreesOutside us (Function.update ρ x (ρ₀ x)) ρ₀ := by
  intro y hy
  by_cases hyx : y = x
  · rw [hyx, Function.update_self]
  · rw [Function.update_of_ne hyx]
    exact h y (by simp [hy, hyx])

/-- Choices for all assignments that agree outside some variables are a function of the elements for
these variables. -/
theorem exists_function_of_forall_exists [Nonempty D] {P : Assignment D → D → Prop}
    (h : ∀ ρ : Assignment D, ρ.AgreesOutside us ρ₀ → ∃ e, P ρ e) :
    ∃ F : List D → D, ∀ ρ : Assignment D, ρ.AgreesOutside us ρ₀ → P ρ (F (us.map ρ)) := by
  choose e he using h
  let elements : {ρ : Assignment D // ρ.AgreesOutside us ρ₀} → List D := fun ρ => us.map ρ.1
  have hinj : Function.Injective elements := fun ρ ρ' hus => Subtype.ext (ρ.2.ext ρ'.2 hus)
  refine ⟨Function.extend elements (fun ρ => e ρ.1 ρ.2) fun _ => Classical.arbitrary D, ?_⟩
  intro ρ hρ
  rw [hinj.extend_apply (fun ρ => e ρ.1 ρ.2) _ ⟨ρ, hρ⟩]
  exact he ρ hρ

end Assignment

namespace Prefix

/-- The variables under universal quantifiers. -/
def universals : Prefix → List String
  | [] => []
  | (.all, x) :: qs => x :: universals qs
  | (.ex, _) :: qs => universals qs

/-- The variables under existential quantifiers. -/
def existentials : Prefix → List String
  | [] => []
  | (.all, _) :: qs => existentials qs
  | (.ex, x) :: qs => x :: existentials qs

theorem mem_vars {qs : Prefix} {x : String} :
    x ∈ qs.map Prod.snd ↔ x ∈ qs.universals ∨ x ∈ qs.existentials := by
  induction qs with
  | nil => simp [universals, existentials]
  | cons p qs ih =>
    obtain ⟨q, y⟩ := p
    cases q <;> simp only [List.map_cons, List.mem_cons, universals, existentials, ih]
    · exact or_assoc.symm
    · exact or_left_comm

end Prefix

section
variable (qs : Prefix) (us : List String) (σ : Substitution) (names : Names)

theorem taken_subset_skolemTerms : names.taken ⊆ (skolemTerms qs us σ names).2.taken := by
  induction qs generalizing us σ names with
  | nil => exact List.Subset.refl _
  | cons p qs ih =>
    obtain ⟨_ | _, x⟩ := p
    · exact ih _ _ _
    · exact fun g hg => ih _ _ _ (List.mem_cons_of_mem _ hg)

variable {qs}

theorem get_skolemTerms_of_not_mem {x : String} (hx : x ∉ qs.existentials) :
    (skolemTerms qs us σ names).1.get x = σ.get x := by
  induction qs generalizing us σ names with
  | nil => rfl
  | cons p qs ih =>
    obtain ⟨_ | _, y⟩ := p
    · exact ih _ _ _ hx
    · simp only [Prefix.existentials, List.mem_cons, not_or] at hx
      exact (ih _ _ _ hx.2).trans (σ.get_cons_of_ne _ hx.1)

/-- An existential variable becomes a fresh symbol applied to universal variables. -/
theorem get_skolemTerms_of_mem {x : String} (hx : x ∈ qs.existentials) :
    ∃ g ∈ names.drawn (skolemTerms qs us σ names).2, ∃ xs ⊆ us ++ qs.universals,
      (skolemTerms qs us σ names).1.get x = .app g (xs.map .var) := by
  induction qs generalizing us σ names with
  | nil => exact nomatch hx
  | cons p qs ih =>
    obtain ⟨_ | _, y⟩ := p
    · obtain ⟨g, hg, xs, hxs, hget⟩ := ih (us ++ [y]) σ names hx
      exact ⟨g, hg, xs, by simpa [Prefix.universals] using hxs, hget⟩
    · simp only [skolemTerms, skolemTerm]
      by_cases hmem : x ∈ Prefix.existentials qs
      · obtain ⟨g, hg, xs, hxs, hget⟩ := ih _ _ _ hmem
        obtain ⟨hafter, hbefore⟩ := Names.mem_drawn.mp hg
        exact ⟨g, Names.mem_drawn.mpr ⟨hafter, fun h => hbefore (List.mem_cons_of_mem _ h)⟩, xs, hxs,
          hget⟩
      · obtain rfl : x = y := (List.mem_cons.mp hx).resolve_right hmem
        refine ⟨_, Names.mem_drawn.mpr ⟨?_, names.freshSkolem_not_mem _⟩, us,
          List.subset_append_left _ _,
          (get_skolemTerms_of_not_mem _ _ _ hmem).trans (σ.get_cons_self _ _)⟩
        exact taken_subset_skolemTerms _ _ _ _ List.mem_cons_self

end

namespace Formula
variable {f : Formula}

theorem skolemize_eq (hf : f.QuantifierFree) (hwf : f.wellFormed) (qs : Prefix) (names : Names) :
    (Prenex.formula ⟨qs, f⟩).skolemize.run.run names =
      (.ok (f.replace (skolemTerms qs [] [] names).1), (skolemTerms qs [] [] names).2) := by
  rw [skolemize, Prenex.splitPrefix_formula qs hf.isQuant_eq_false]
  simp only [substitute_eq hwf]
  rfl

variable {qs : Prefix} {names : Names}

theorem wellFormed_skolemize (hf : f.QuantifierFree) (hwf : f.wellFormed) :
    (f.replace (skolemTerms qs [] [] names).1).wellFormed := by
  refine hf.wellFormed_replace (fun x => ?_) hwf
  by_cases hx : x ∈ qs.existentials
  · obtain ⟨g, -, xs, -, hget⟩ := get_skolemTerms_of_mem [] [] names hx
    simp [hget, Term.wellFormed, Term.allWellFormed_eq_all]
  · rw [get_skolemTerms_of_not_mem _ _ _ hx]
    rfl

theorem mem_functions_skolemize (hf : f.QuantifierFree) {g : String}
    (hg : g ∈ (f.replace (skolemTerms qs [] [] names).1).functions) :
    g ∈ f.functions ∨ g ∈ names.drawn (skolemTerms qs [] [] names).2 := by
  refine (hf.mem_functions_replace hg).imp id fun ⟨x, hgx⟩ => ?_
  by_cases hx : x ∈ qs.existentials
  · obtain ⟨h, hh, xs, -, hget⟩ := get_skolemTerms_of_mem [] [] names hx
    rw [hget, Term.functions_app_map_var] at hgx
    rwa [List.mem_singleton.mp hgx]
  · rw [get_skolemTerms_of_not_mem _ _ _ hx] at hgx
    exact nomatch hgx

theorem mem_freeVars_skolemize (hf : f.QuantifierFree) {y : String}
    (hy : y ∈ (f.replace (skolemTerms qs [] [] names).1).freeVars) :
    y ∈ (Prenex.formula ⟨qs, f⟩).freeVars ∨ y ∈ qs.universals := by
  obtain ⟨x, hx, hyx⟩ := hf.mem_freeVars_replace.mp hy
  by_cases hex : x ∈ qs.existentials
  · obtain ⟨g, -, xs, hxs, hget⟩ := get_skolemTerms_of_mem [] [] names hex
    rw [hget, Term.vars_app_map_var] at hyx
    exact Or.inr (hxs hyx)
  · rw [get_skolemTerms_of_not_mem _ _ _ hex] at hyx
    obtain rfl : y = x := List.mem_singleton.mp hyx
    rw [Prenex.mem_freeVars_formula, Prefix.mem_vars, not_or]
    by_cases hall : y ∈ qs.universals
    · exact Or.inr hall
    · exact Or.inl ⟨hx, hall, hex⟩

end Formula

/-- What is granted to a prefix still to be worked off: its variables are bound once, they are
neither replaced nor put in for others yet, and the symbols put in are taken. -/
structure Prefix.Open (qs : Prefix) (us : List String) (σ : Substitution) (names : Names) :
    Prop where
  nodup : (qs.map Prod.snd).Nodup
  not_mem : ∀ x ∈ qs.map Prod.snd, x ∉ us
  get_eq : ∀ x ∈ qs.map Prod.snd, σ.get x = .var x
  not_mem_vars : ∀ x ∈ qs.map Prod.snd, ∀ y, y ≠ x → x ∉ (σ.get y).vars
  functions_subset : ∀ y, (σ.get y).functions ⊆ names.taken

namespace Prefix.Open
variable {qs : Prefix} {us : List String} {σ : Substitution} {names : Names} {q : Quantifier}
  {x : String}

theorem start (h : (qs.map Prod.snd).Nodup) (names : Names) : Open qs [] [] names where
  nodup := h
  not_mem := by simp
  get_eq := by simp
  not_mem_vars := by
    intro x _ y hyx
    simpa [Term.vars] using Ne.symm hyx
  functions_subset := by simp [Term.functions]

theorem all (h : Open ((q, x) :: qs) us σ names) : Open qs (us ++ [x]) σ names where
  nodup := (List.nodup_cons.mp h.nodup).2
  not_mem y hy := by
    have hyx : y ≠ x := fun he => (List.nodup_cons.mp h.nodup).1 (he ▸ hy)
    simpa [hyx] using h.not_mem y (List.mem_cons_of_mem x hy)
  get_eq y hy := h.get_eq y (List.mem_cons_of_mem x hy)
  not_mem_vars y hy := h.not_mem_vars y (List.mem_cons_of_mem x hy)
  functions_subset := h.functions_subset

theorem ex (h : Open ((q, x) :: qs) us σ names) (base : String) :
    Open qs us ((x, .app (names.freshSkolem base).1 (us.map .var)) :: σ)
      (names.freshSkolem base).2 where
  nodup := (List.nodup_cons.mp h.nodup).2
  not_mem y hy := h.not_mem y (List.mem_cons_of_mem x hy)
  get_eq y hy := by
    have hyx : y ≠ x := fun he => (List.nodup_cons.mp h.nodup).1 (he ▸ hy)
    rw [σ.get_cons_of_ne _ hyx]
    exact h.get_eq y (List.mem_cons_of_mem x hy)
  not_mem_vars y hy z hzy := by
    by_cases hzx : z = x
    · rw [hzx, σ.get_cons_self, Term.vars_app_map_var]
      exact h.not_mem y (List.mem_cons_of_mem x hy)
    · rw [σ.get_cons_of_ne _ hzx]
      exact h.not_mem_vars y (List.mem_cons_of_mem x hy) z hzy
  functions_subset y := by
    by_cases hyx : y = x
    · rw [hyx, σ.get_cons_self, Term.functions_app_map_var]
      simp
    · rw [σ.get_cons_of_ne _ hyx]
      exact fun g hg => List.mem_cons_of_mem _ (h.functions_subset y hg)

variable {D : Type u} [Nonempty D] {M : Interpretation D}

theorem values_update (h : Open ((q, x) :: qs) us σ names) (ρ : Assignment D) (e : D) :
    σ.values M (Function.update ρ x e) = Function.update (σ.values M ρ) x e := by
  funext y
  by_cases hyx : y = x
  · rw [hyx, Function.update_self, Substitution.values, h.get_eq x List.mem_cons_self, Term.value,
      Function.update_self]
  · rw [Function.update_of_ne hyx]
    refine Term.value_congr _ (fun z hz => Function.update_of_ne ?_ ..) fun _ _ => rfl
    rintro rfl
    exact h.not_mem_vars z List.mem_cons_self y hyx hz

/-- The value of a fresh function at the universal variables is the new value of an existential
one. -/
theorem values_withFunction (h : Open qs us σ names) (base x : String)
    (F : List D → D) (ρ : Assignment D) :
    Substitution.values (M.withFunction (names.freshSkolem base).1 F)
        ((x, .app (names.freshSkolem base).1 (us.map .var)) :: σ) ρ =
      Function.update (σ.values M ρ) x (F (us.map ρ)) := by
  have hold : σ.values (M.withFunction (names.freshSkolem base).1 F) ρ = σ.values M ρ := by
    funext y
    refine Term.value_congr _ (fun _ _ => rfl) fun g hg => M.withFunction_function_of_ne F ?_
    rintro rfl
    exact names.freshSkolem_not_mem base (h.functions_subset y hg)
  rw [Substitution.values_cons, hold, Term.value, M.withFunction_function_self, Term.map_value_var]

variable {ρ₀ : Assignment D} {f : Formula}

theorem holds_all (h : Open ((.all, x) :: qs) us σ names) :
    (∀ ρ : Assignment D, ρ.AgreesOutside us ρ₀ →
        (Prenex.formula ⟨(.all, x) :: qs, f⟩).holds M (σ.values M ρ)) ↔
      ∀ ρ : Assignment D, ρ.AgreesOutside (us ++ [x]) ρ₀ →
        (Prenex.formula ⟨qs, f⟩).holds M (σ.values M ρ) := by
  simp only [Prenex.formula_cons, Formula.holds, Quantifier.ranges]
  constructor
  · intro hall ρ hρ
    have hx := hall _ hρ.restore (ρ x)
    rwa [← h.values_update, Function.update_idem, Function.update_eq_self] at hx
  · intro hall ρ hρ e
    have hx := hall _ (hρ.update x e)
    rwa [h.values_update] at hx

theorem holds_ex (h : Open ((.ex, x) :: qs) us σ names) (hf : f.functions ⊆ names.taken)
    (base : String) :
    (∀ ρ : Assignment D, ρ.AgreesOutside us ρ₀ →
        (Prenex.formula ⟨(.ex, x) :: qs, f⟩).holds M (σ.values M ρ)) ↔
      ∃ F : List D → D, ∀ ρ : Assignment D, ρ.AgreesOutside us ρ₀ →
        (Prenex.formula ⟨qs, f⟩).holds (M.withFunction (names.freshSkolem base).1 F)
          (Substitution.values (M.withFunction (names.freshSkolem base).1 F)
            ((x, .app (names.freshSkolem base).1 (us.map .var)) :: σ) ρ) := by
  have hnew : ∀ g ∈ (Prenex.formula ⟨qs, f⟩).functions, g ≠ (names.freshSkolem base).1 := by
    rintro g hg rfl
    rw [Formula.functions, Prenex.atoms_formula] at hg
    exact names.freshSkolem_not_mem base (hf hg)
  calc (∀ ρ : Assignment D, ρ.AgreesOutside us ρ₀ →
          ∃ e, (Prenex.formula ⟨qs, f⟩).holds M (Function.update (σ.values M ρ) x e))
      ↔ ∃ F : List D → D, ∀ ρ : Assignment D, ρ.AgreesOutside us ρ₀ →
          (Prenex.formula ⟨qs, f⟩).holds M
            (Function.update (σ.values M ρ) x (F (us.map ρ))) := by
        refine ⟨Assignment.exists_function_of_forall_exists, ?_⟩
        rintro ⟨F, hF⟩ ρ hρ
        exact ⟨_, hF ρ hρ⟩
    _ ↔ _ := by
        refine exists_congr fun F => forall₂_congr fun ρ _ => ?_
        rw [h.values_withFunction]
        exact Formula.holds_congr _ (fun _ _ => rfl)
          (fun g hg => (M.withFunction_function_of_ne F (hnew g hg)).symm) rfl

end Prefix.Open

/-- Behind universal variables and Skolem terms that have been met already, the rest of a prefix is
true exactly if its own Skolem symbols can be interpreted so that the matrix is. -/
theorem holds_skolemTerms {D : Type u} [Nonempty D] (ρ₀ : Assignment D) {f : Formula} {qs : Prefix}
    {us : List String} {σ : Substitution} {names : Names} (h : qs.Open us σ names)
    (hf : f.functions ⊆ names.taken) (M : Interpretation D) :
    (∀ ρ : Assignment D, ρ.AgreesOutside us ρ₀ →
        (Prenex.formula ⟨qs, f⟩).holds M (σ.values M ρ)) ↔
      ∃ M', M'.AgreesOutside (names.drawn (skolemTerms qs us σ names).2) M ∧
        ∀ ρ : Assignment D, ρ.AgreesOutside (us ++ qs.universals) ρ₀ →
          f.holds M' ((skolemTerms qs us σ names).1.values M' ρ) := by
  induction qs generalizing us σ names M with
  | nil => simp [skolemTerms, Names.drawn_self, Interpretation.agreesOutside_nil, Prefix.universals]
  | cons p qs ih =>
    obtain ⟨_ | _, x⟩ := p
    · have hus : us ++ Prefix.universals ((.all, x) :: qs) = us ++ [x] ++ Prefix.universals qs := by
        simp [Prefix.universals]
      rw [hus, skolemTerms, ← ih h.all hf M]
      exact h.holds_all
    · simp only [skolemTerms, skolemTerm, Prefix.universals]
      generalize (if us.isEmpty then skolemConstantLetter else skolemFunctionLetter) = base
      have hg : (names.freshSkolem base).1 ∈
          (skolemTerms qs us ((x, .app (names.freshSkolem base).1 (us.map .var)) :: σ)
            (names.freshSkolem base).2).2.taken :=
        taken_subset_skolemTerms _ _ _ _ List.mem_cons_self
      rw [h.holds_ex hf base,
        exists_congr fun F => ih (h.ex base) (List.subset_cons_of_subset _ hf) _, exists_comm]
      refine exists_congr fun M' => ?_
      rw [Interpretation.agreesOutside_drawn_iff hg, exists_and_right]

theorem Formula.holds_skolemize {D : Type u} [Nonempty D] {f : Formula} (hf : f.QuantifierFree)
    {qs : Prefix} (hnodup : (qs.map Prod.snd).Nodup) {names : Names}
    (hfunctions : f.functions ⊆ names.taken) (M : Interpretation D) (ρ : Assignment D) :
    (Prenex.formula ⟨qs, f⟩).holds M ρ ↔
      ∃ M', M'.AgreesOutside (names.drawn (skolemTerms qs [] [] names).2) M ∧
        ∀ ρ' : Assignment D, ρ'.AgreesOutside qs.universals ρ →
          (f.replace (skolemTerms qs [] [] names).1).holds M' ρ' := by
  have hstart : (∀ ρ' : Assignment D, ρ'.AgreesOutside [] ρ →
      (Prenex.formula ⟨qs, f⟩).holds M (Substitution.values M [] ρ')) ↔
        (Prenex.formula ⟨qs, f⟩).holds M ρ := by
    constructor
    · intro h
      have hρ := h ρ fun _ _ => rfl
      rwa [Substitution.values_nil] at hρ
    · intro h ρ' hρ'
      rw [Substitution.values_nil, show ρ' = ρ from funext fun x => hρ' x (by simp)]
      exact h
  rw [← hstart, holds_skolemTerms ρ (Prefix.Open.start hnodup names) hfunctions M]
  exact exists_congr fun M' => and_congr_right fun _ => forall₂_congr fun ρ' _ =>
    (hf.holds_replace M' _ ρ').symm

end Clausification

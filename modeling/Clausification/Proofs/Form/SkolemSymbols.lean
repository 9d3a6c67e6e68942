import Clausification.Proofs.Form.Skolem
import Clausification.Proofs.Formula.Application

/-!
# The Skolem symbols of a prefix

Every existential binder of a prefix gets a symbol of its own, applied to the universal variables
that stand before it. The entries list this binder by binder; what is replaced, and which names are
drawn, can be read off them.
-/

namespace Clausification

/-- What an existential variable is replaced by: a symbol, and the variables it is applied to. -/
structure SkolemEntry where
  var : String
  symbol : String
  args : List String
deriving DecidableEq, Inhabited

def SkolemEntry.term (e : SkolemEntry) : Term := .app e.symbol (e.args.map .var)

/-- The terms for the variables of some entries. A later entry counts before an earlier one. -/
def SkolemEntry.substitution (es : List SkolemEntry) : Substitution :=
  es.reverse.map fun e => (e.var, e.term)

/-- The next Skolem symbol behind the given universal variables. -/
def Names.freshSkolemBehind (universals : List String) (names : Names) : String × Names :=
  names.freshSkolem (if universals.isEmpty then skolemConstantLetter else skolemFunctionLetter)

/-- One of the two letters for Skolem symbols, and a number. -/
def Names.IsSkolemName (g : String) : Prop :=
  ∃ base ∈ [skolemConstantLetter, skolemFunctionLetter], ∃ n : Int, 0 ≤ n ∧ g = skolemName base n

theorem skolemTerm_eq (us : List String) (names : Names) : skolemTerm us names =
    (.app (names.freshSkolemBehind us).1 (us.map .var), (names.freshSkolemBehind us).2) := rfl

theorem Substitution.get_eq_var_or_mem (σ : Substitution) (x : String) :
    σ.get x = .var x ∨ (x, σ.get x) ∈ σ := by
  induction σ with
  | nil => exact Or.inl rfl
  | cons p σ ih =>
    obtain ⟨y, t⟩ := p
    by_cases hxy : x = y
    · rw [hxy, get_cons_self]
      exact Or.inr List.mem_cons_self
    · rw [get_cons_of_ne σ t hxy]
      exact ih.imp_right (List.mem_cons_of_mem _)

/-- Where every variable has one term, this is the term. -/
theorem Substitution.get_of_mem {σ : Substitution} (h : (σ.map Prod.fst).Nodup) {x : String}
    {t : Term} (hmem : (x, t) ∈ σ) : σ.get x = t := by
  induction σ with
  | nil => exact nomatch hmem
  | cons p σ ih =>
    obtain ⟨hp, hσ⟩ := List.nodup_cons.mp h
    rcases List.mem_cons.mp hmem with rfl | hmem
    · exact get_cons_self σ x t
    · have hne : x ≠ p.1 := by
        rintro rfl
        exact hp (List.mem_map.mpr ⟨_, hmem, rfl⟩)
      exact (get_cons_of_ne σ p.2 hne).trans (ih hσ hmem)

theorem SkolemEntry.get_substitution {es : List SkolemEntry} (h : (es.map (·.var)).Nodup)
    {e : SkolemEntry} (he : e ∈ es) : (substitution es).get e.var = e.term := by
  apply Substitution.get_of_mem
  · have hreverse := (List.reverse_perm (es.map (·.var))).symm.nodup h
    simpa [substitution, Function.comp_def] using hreverse
  · exact List.mem_map_of_mem (List.mem_reverse.mpr he)

namespace Prefix

/-- One entry for each existential binder of a prefix, in order, behind the given universal
variables. -/
def skolemEntries : Prefix → (universals : List String) → Names → List SkolemEntry
  | [], _, _ => []
  | (.all, x) :: qs, us, names => skolemEntries qs (us ++ [x]) names
  | (.ex, x) :: qs, us, names =>
    let fresh := names.freshSkolemBehind us
    ⟨x, fresh.1, us⟩ :: skolemEntries qs us fresh.2

theorem skolemEntries_congr {m n : Names} (h : m.Same n) (qs : Prefix) (us : List String) :
    qs.skolemEntries us m = qs.skolemEntries us n := by
  induction qs generalizing us m n with
  | nil => rfl
  | cons p qs ih =>
    obtain ⟨_ | _, x⟩ := p
    · exact ih h _
    · obtain ⟨hname, hnames⟩ :=
        h.freshSkolem (if us.isEmpty then skolemConstantLetter else skolemFunctionLetter)
      exact congrArg₂ List.cons (congrArg (SkolemEntry.mk x · us) hname) (ih hnames us)

variable (qs : Prefix) (us : List String) (σ : Substitution) (names : Names)

theorem map_var_skolemEntries : (skolemEntries qs us names).map (·.var) = qs.existentials := by
  induction qs generalizing us names with
  | nil => rfl
  | cons p qs ih =>
    obtain ⟨_ | _, x⟩ := p
    · exact ih _ _
    · exact congrArg (x :: ·) (ih _ _)

theorem skolemTerms_fst_eq : (skolemTerms qs us σ names).1 =
    SkolemEntry.substitution (skolemEntries qs us names) ++ σ := by
  induction qs generalizing us σ names with
  | nil => rfl
  | cons p qs ih =>
    obtain ⟨_ | _, x⟩ := p
    · exact ih _ _ _
    · rw [skolemTerms, skolemTerm_eq, ih]
      simp [skolemEntries, SkolemEntry.substitution, SkolemEntry.term]

theorem taken_skolemTerms : (skolemTerms qs us σ names).2.taken =
    ((skolemEntries qs us names).map (·.symbol)).reverse ++ names.taken := by
  induction qs generalizing us σ names with
  | nil => rfl
  | cons p qs ih =>
    obtain ⟨_ | _, x⟩ := p
    · exact ih _ _ _
    · rw [skolemTerms, skolemTerm_eq, ih]
      simp [skolemEntries, Names.freshSkolemBehind]

theorem symbols_skolemEntries : ((skolemEntries qs us names).map (·.symbol)).Nodup ∧
    ∀ g ∈ (skolemEntries qs us names).map (·.symbol), g ∉ names.taken := by
  induction qs generalizing us names with
  | nil => simp [skolemEntries]
  | cons p qs ih =>
    obtain ⟨_ | _, x⟩ := p
    · exact ih _ _
    · obtain ⟨hnodup, hfresh⟩ := ih us (names.freshSkolemBehind us).2
      refine ⟨List.nodup_cons.mpr ⟨fun h => hfresh _ h List.mem_cons_self, hnodup⟩, ?_⟩
      intro g hg
      rcases List.mem_cons.mp hg with rfl | hg
      · exact names.freshSkolem_not_mem _
      · exact fun h => hfresh g hg (List.mem_cons_of_mem _ h)

/-- The names drawn along a prefix are the symbols of its entries. -/
theorem mem_drawn_skolemTerms {g : String} : g ∈ names.drawn (skolemTerms qs us σ names).2 ↔
    g ∈ (skolemEntries qs us names).map (·.symbol) := by
  rw [Names.mem_drawn, taken_skolemTerms, List.mem_append, List.mem_reverse]
  constructor
  · rintro ⟨h, hold⟩
    exact h.resolve_right hold
  · intro h
    exact ⟨Or.inl h, (symbols_skolemEntries qs us names).2 g h⟩

variable {qs us names}

/-- A symbol is applied to the universal variables that stand before its binder, in order. -/
theorem exists_split_of_mem_skolemEntries {e : SkolemEntry} (he : e ∈ skolemEntries qs us names) :
    ∃ ps rs : Prefix, qs = ps ++ (.ex, e.var) :: rs ∧ e.args = us ++ ps.universals := by
  induction qs generalizing us names with
  | nil => exact nomatch he
  | cons p qs ih =>
    obtain ⟨_ | _, x⟩ := p
    · obtain ⟨ps, rs, rfl, hargs⟩ := ih he
      exact ⟨(.all, x) :: ps, rs, rfl, by simp [hargs, universals]⟩
    · rcases List.mem_cons.mp he with rfl | he
      · exact ⟨[], qs, rfl, by simp [universals]⟩
      · obtain ⟨ps, rs, rfl, hargs⟩ := ih he
        exact ⟨(.ex, x) :: ps, rs, rfl, hargs⟩

/-- A symbol is a letter with a number that the source has not come to yet; the letter says whether
there are arguments. -/
theorem exists_number_of_mem_skolemEntries {e : SkolemEntry} (he : e ∈ skolemEntries qs us names) :
    ∃ n, names.skolems < n ∧ e.symbol = Names.skolemName
      (if e.args.isEmpty then skolemConstantLetter else skolemFunctionLetter) n := by
  induction qs generalizing us names with
  | nil => exact nomatch he
  | cons p qs ih =>
    obtain ⟨_ | _, x⟩ := p
    · exact ih he
    · have hlt : names.skolems < (names.freshSkolemBehind us).2.skolems :=
        names.skolems_lt_freshSkolem _
      rcases List.mem_cons.mp he with rfl | he
      · exact ⟨_, hlt, rfl⟩
      · obtain ⟨n, hn, hsymbol⟩ := ih he
        exact ⟨n, by omega, hsymbol⟩

theorem isSkolemName_of_mem_skolemEntries (hn : 0 ≤ names.skolems) {e : SkolemEntry}
    (he : e ∈ skolemEntries qs us names) : Names.IsSkolemName e.symbol := by
  obtain ⟨n, hlt, hsymbol⟩ := exists_number_of_mem_skolemEntries he
  refine ⟨_, ?_, n, by omega, hsymbol⟩
  split <;> simp

theorem existentials_sublist (qs : Prefix) : qs.existentials.Sublist (qs.map Prod.snd) := by
  induction qs with
  | nil => exact List.Sublist.slnil
  | cons p qs ih =>
    obtain ⟨_ | _, x⟩ := p
    · exact ih.cons x
    · exact ih.cons_cons x

/-- A variable that is bound once is either universal or existential. -/
theorem not_mem_universals (h : (qs.map Prod.snd).Nodup) {x : String} (hx : x ∈ qs.existentials) :
    x ∉ qs.universals := by
  induction qs with
  | nil => exact nomatch hx
  | cons p qs ih =>
    obtain ⟨_ | _, y⟩ := p
    · obtain ⟨hy, hqs⟩ := List.nodup_cons.mp h
      intro hmem
      rcases List.mem_cons.mp hmem with rfl | hmem
      · exact hy ((existentials_sublist qs).subset hx)
      · exact ih hqs hx hmem
    · obtain ⟨hy, hqs⟩ := List.nodup_cons.mp h
      intro hmem
      rcases List.mem_cons.mp hx with rfl | hx
      · exact hy (Prefix.mem_vars.mpr (Or.inl hmem))
      · exact ih hqs hx hmem

end Prefix

/-- The entries say how a prefix is worked off on a source of names: every existential variable gets a
symbol of its own, applied to the universal variables before it, and no other variable changes. -/
structure Prefix.WorkedOff (qs : Prefix) (names : Names) (es : List SkolemEntry) : Prop where
  vars_eq : es.map (·.var) = qs.existentials
  args_eq : ∀ e ∈ es, ∃ ps rs : Prefix, qs = ps ++ (.ex, e.var) :: rs ∧ e.args = ps.universals
  symbols_nodup : (es.map (·.symbol)).Nodup
  symbols_fresh : ∀ e ∈ es, e.symbol ∉ names.taken
  symbol_eq : ∀ e ∈ es, ∃ n, names.skolems < n ∧
    e.symbol = Names.skolemName (if e.args.isEmpty then "c" else "f") n
  get_eq : ∀ e ∈ es, (SkolemEntry.substitution es).get e.var = .app e.symbol (e.args.map .var)
  get_eq_var : ∀ x, x ∉ qs.existentials → (SkolemEntry.substitution es).get x = .var x

theorem Prefix.workedOff_skolemEntries {qs : Prefix} (h : (qs.map Prod.snd).Nodup) (names : Names) :
    qs.WorkedOff names (qs.skolemEntries [] names) := by
  have hvars := map_var_skolemEntries qs [] names
  obtain ⟨hnodup, hfresh⟩ := symbols_skolemEntries qs [] names
  refine
    { vars_eq := hvars
      args_eq := fun e he => ?_
      symbols_nodup := hnodup
      symbols_fresh := fun e he => hfresh _ (List.mem_map_of_mem he)
      symbol_eq := fun e he => exists_number_of_mem_skolemEntries he
      get_eq := fun e he => SkolemEntry.get_substitution ?_ he
      get_eq_var := fun x hx => ?_ }
  · obtain ⟨ps, rs, hqs, hargs⟩ := exists_split_of_mem_skolemEntries he
    exact ⟨ps, rs, hqs, hargs⟩
  · rw [hvars]
    exact h.sublist (existentials_sublist qs)
  · have hget := get_skolemTerms_of_not_mem [] [] names hx
    rwa [skolemTerms_fst_eq, List.append_nil] at hget

theorem SkolemEntry.mem_applications_get {es : List SkolemEntry} {x : String}
    {p : String × List Term} (hp : p ∈ ((substitution es).get x).applications) :
    ∃ e ∈ es, p = (e.symbol, e.args.map .var) := by
  rcases (substitution es).get_eq_var_or_mem x with hvar | hmem
  · rw [hvar, Term.applications] at hp
    cases hp
  · obtain ⟨e, he, heq⟩ := List.mem_map.mp hmem
    have hterm : e.term = (substitution es).get x := congrArg Prod.snd heq
    rw [← hterm, term, Term.applications_app_map_var, List.mem_singleton] at hp
    exact ⟨e, List.mem_reverse.mp he, hp⟩

/-- Where a formula has no function symbols of its own, its Skolem form has those of the entries, and
each always with the arguments of its entry. -/
theorem Formula.QuantifierFree.mem_applications_skolemize {f : Formula} (hf : f.QuantifierFree)
    (hfunctions : f.functions = []) {es : List SkolemEntry} {p : String × List Term}
    (hp : p ∈ (f.replace (SkolemEntry.substitution es)).applications) :
    ∃ e ∈ es, p = (e.symbol, e.args.map .var) := by
  rcases hf.mem_applications_replace hp with h | ⟨x, -, h⟩
  · rw [hfunctions] at h
    exact nomatch h
  · exact SkolemEntry.mem_applications_get h

namespace Formula

universe u

/-- The Skolem form of a prenex formula exists, says the same as the formula once its new symbols are
interpreted, and depends for each existential variable on the universal variables before it and on
nothing else. -/
theorem skolemForm_depends_on_universals_before (f : Formula) (qs : Prefix) (names : Names)
    (hf : f.QuantifierFree) (hwf : f.wellFormed) (hnodup : (qs.map Prod.snd).Nodup)
    (hfunctions : f.functions ⊆ names.taken) :
    ∃ g after es,
      (Prenex.formula ⟨qs, f⟩).skolemize.run.run names = (.ok g, after) ∧
      qs.WorkedOff names es ∧ g = f.replace (SkolemEntry.substitution es) ∧
      (∀ s, s ∈ after.taken ↔ s ∈ names.taken ∨ s ∈ es.map (·.symbol)) ∧
      g.QuantifierFree ∧ (∀ x ∈ qs.existentials, x ∉ g.freeVars) ∧
      ∀ (D : Type u) [Nonempty D] (M : Interpretation D) (ρ : Assignment D),
        (Prenex.formula ⟨qs, f⟩).holds M ρ ↔
          ∃ M', M'.AgreesOutside (es.map (·.symbol)) M ∧
            ∀ ρ' : Assignment D, ρ'.AgreesOutside qs.universals ρ → g.holds M' ρ' := by
  have hterms := Prefix.skolemTerms_fst_eq qs [] [] names
  rw [List.append_nil] at hterms
  refine ⟨_, _, qs.skolemEntries [] names, skolemize_eq hf hwf qs names,
    Prefix.workedOff_skolemEntries hnodup names, congrArg f.replace hterms, fun s => ?_,
    hf.replace _, fun x hx hmem => ?_, fun D _ M ρ => ?_⟩
  · rw [Prefix.taken_skolemTerms, List.mem_append, List.mem_reverse]
    exact or_comm
  · rcases mem_freeVars_skolemize hf hmem with hfree | huniversal
    · exact (Prenex.mem_freeVars_formula.mp hfree).2 (Prefix.mem_vars.mpr (Or.inr hx))
    · exact Prefix.not_mem_universals hnodup hx huniversal
  · rw [holds_skolemize hf hnodup hfunctions M ρ]
    refine exists_congr fun M' => and_congr_left fun _ => ?_
    exact Interpretation.agreesOutside_congr fun g => Prefix.mem_drawn_skolemTerms qs [] [] names

theorem skolemForm_depends_on_universals_before_of_alternation :
    let f : Formula := .implies
      (.atom ⟨"P", [.app "g" [.var "y"], .var "w"]⟩)
      (.atom ⟨"Q", [.var "x", .app "f1" [.app "g" [.var "w"]], .var "u"]⟩)
    let qs : Prefix := [(.ex, "u"), (.all, "x"), (.ex, "y"), (.all, "z"), (.ex, "w")]
    let names : Names := { taken := ["P", "Q", "g", "f1"] }
    (f.QuantifierFree ∧ f.wellFormed ∧ (qs.map Prod.snd).Nodup ∧ f.functions ⊆ names.taken) ∧
      ∃ g after es,
        (Prenex.formula ⟨qs, f⟩).skolemize.run.run names = (.ok g, after) ∧
        qs.WorkedOff names es ∧ es.map (·.var) = ["u", "y", "w"] ∧ "w" ∉ g.freeVars ∧
        ∀ (M : Interpretation Bool) (ρ : Assignment Bool), (Prenex.formula ⟨qs, f⟩).holds M ρ ↔
          ∃ M', M'.AgreesOutside (es.map (·.symbol)) M ∧
            ∀ ρ' : Assignment Bool, ρ'.AgreesOutside ["x", "z"] ρ → g.holds M' ρ' := by
  intro f qs names
  have hf : f.QuantifierFree := .binary _ (.atom _) (.atom _)
  have hwf : f.wellFormed := by decide
  have hnodup : (qs.map Prod.snd).Nodup := by decide
  have hfunctions : f.functions ⊆ names.taken := by decide
  obtain ⟨g, after, es, hrun, hes, -, -, -, hfree, hholds⟩ :=
    skolemForm_depends_on_universals_before.{0} f qs names hf hwf hnodup hfunctions
  exact ⟨⟨hf, hwf, hnodup, hfunctions⟩, g, after, es, hrun, hes, hes.vars_eq,
    hfree "w" (by decide), fun M ρ => hholds Bool M ρ⟩

end Formula

end Clausification

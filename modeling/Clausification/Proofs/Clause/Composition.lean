import Clausification.Proofs.Clause.Writing
import Clausification.Proofs.Formula.Occurrence
import Clausification.Proofs.Formula.Writing
import Clausification.Proofs.Notation
import Clausification.Proofs.Pieces

/-!
# What writings are made of

A formula or a clause in writing is put together from names, parentheses and the signs of the notation.
What these texts have, and two texts keep when one is put behind the other, every writing has. In
mark-up this keeps backslashes apart, and with them the line separator out of every line.
-/

namespace Clausification

namespace Signs

/-- The signs that stand within a line. -/
def withinLine (signs : Signs) : List String :=
  [signs.neg, signs.and, signs.or, signs.implies, signs.iff, signs.all, signs.ex, signs.afterVariable,
    signs.betweenArguments, signs.emptyClause, signs.emptySet]

theorem connective_mem_withinLine (signs : Signs) (c : Connective) :
    signs.connective c ∈ signs.withinLine := by
  cases c <;> simp [connective, withinLine]

theorem quantifier_mem_withinLine (signs : Signs) (q : Quantifier) :
    signs.quantifier q ∈ signs.withinLine := by
  cases q <;> simp [quantifier, withinLine]

end Signs

/-- Texts of plain characters have the property, so have the signs of the notation, and texts that have
it keep it when they are put together. -/
structure Notation.Composes (n : Notation) (P : List Char → Prop) : Prop where
  plain : ∀ {cs}, '\\' ∉ cs → '\n' ∉ cs → P cs
  append : ∀ {as bs}, P as → P bs → P (as ++ bs)
  sign : ∀ s ∈ n.signs.withinLine, P s.toList

namespace Notation.Composes
variable {n : Notation} {P : List Char → Prop} (hP : n.Composes P)

include hP

theorem append_toList {s t : String} (hs : P s.toList) (ht : P t.toList) : P (s ++ t).toList := by
  rw [String.toList_append]
  exact hP.append hs ht

theorem and {Q : List Char → Prop} (hQ : n.Composes Q) : n.Composes fun cs => P cs ∧ Q cs where
  plain hcs hcs' := ⟨hP.plain hcs hcs', hQ.plain hcs hcs'⟩
  append has hbs := ⟨hP.append has.1 hbs.1, hQ.append has.2 hbs.2⟩
  sign s hs := ⟨hP.sign s hs, hQ.sign s hs⟩

theorem nil : P [] := hP.plain (by decide) (by decide)

theorem join {sep : String} (hsep : P sep.toList) {parts : List String}
    (hparts : ∀ p ∈ parts, P p.toList) : P (Text.join sep parts).toList := by
  induction parts with
  | nil => exact hP.nil
  | cons p parts ih =>
    obtain ⟨hp, hparts⟩ := List.forall_mem_cons.mp hparts
    cases parts with
    | nil => exact hp
    | cons q parts =>
      rw [Text.toList_join_cons_cons]
      exact hP.append hp (hP.append hsep (ih hparts))

theorem applied {f s : String} (hf : P f.toList) (hs : P s.toList) :
    P (f ++ "(" ++ s ++ ")").toList := by
  have hopening : P "(".toList := hP.plain (by decide) (by decide)
  have hclosing : P ")".toList := hP.plain (by decide) (by decide)
  exact hP.append_toList (hP.append_toList (hP.append_toList hf hopening) hs) hclosing

theorem parenthesized {s : String} (hs : P s.toList) : P ("(" ++ s ++ ")").toList := by
  have h := hP.applied (f := "") hP.nil hs
  rwa [String.empty_append] at h

theorem renderAll {ts : List Term} (hts : ∀ t ∈ ts, P (t.render n).toList) :
    P (Text.join n.signs.betweenArguments (Term.renderAll n ts)).toList := by
  apply hP.join (hP.sign _ (by simp [Signs.withinLine]))
  intro s hs
  rw [Term.renderAll_eq_map] at hs
  obtain ⟨t, ht, rfl⟩ := List.mem_map.mp hs
  exact hts t ht

theorem term {t : Term} (ht : ∀ x ∈ t.symbols, P x.toList) : P (t.render n).toList := by
  induction t with
  | var x => exact ht x (by simp [Term.symbols])
  | app f ts ih =>
    have hf : P f.toList := ht f (by simp [Term.symbols])
    have hts (t : Term) (hmem : t ∈ ts) : P (t.render n).toList := by
      apply ih t hmem
      intro x hx
      apply ht x
      rw [Term.symbols, Term.symbolsOfAll_eq_flatMap]
      exact List.mem_cons_of_mem f (List.mem_flatMap.mpr ⟨t, hmem, hx⟩)
    cases ts with
    | nil => exact hf
    | cons t ts => exact hP.applied hf (hP.renderAll hts)
  | stray p ts => exact ht p (by simp [Term.symbols])

theorem atom {a : Atom} (ha : ∀ x ∈ a.symbols, P x.toList) : P (a.text n).toList := by
  have hpredicate : P a.predicate.toList := ha _ List.mem_cons_self
  have hargs (t : Term) (ht : t ∈ a.args) : P (t.render n).toList := by
    apply hP.term
    intro x hx
    apply ha x
    rw [Atom.symbols, Term.symbolsOfAll_eq_flatMap]
    exact List.mem_cons_of_mem _ (List.mem_flatMap.mpr ⟨t, ht, hx⟩)
  rw [Atom.text]
  split
  · exact hpredicate
  · exact hP.applied hpredicate (hP.renderAll hargs)

theorem grouped {f : Formula} {s : String} (hs : P s.toList) : P (f.grouped s).toList := by
  rw [Formula.grouped]
  split
  · exact hP.parenthesized hs
  · exact hs

theorem formula {f : Formula} (hf : ∀ x ∈ f.symbols, P x.toList) : P (f.writing n).toList := by
  induction f with
  | atom a => exact hP.atom hf
  | not f ih =>
    exact hP.append_toList (hP.sign _ (by simp [Signs.withinLine])) (hP.grouped (ih hf))
  | binary c l r ihl ihr =>
    have hl := ihl fun x hx => hf x (List.mem_append_left _ hx)
    have hr := ihr fun x hx => hf x (List.mem_append_right _ hx)
    have hsign := hP.sign _ (n.signs.connective_mem_withinLine c)
    exact hP.append_toList (hP.append_toList (hP.grouped hl) hsign) (hP.grouped hr)
  | quant q x f ih =>
    obtain ⟨hx, hf⟩ := List.forall_mem_cons.mp hf
    have hsign := hP.sign _ (n.signs.quantifier_mem_withinLine q)
    have hbehind := hP.sign n.signs.afterVariable (by simp [Signs.withinLine])
    exact hP.append_toList (hP.append_toList (hP.append_toList hsign hx) hbehind)
      (hP.grouped (ih hf))
  | term t => exact hP.nil

theorem clause {c : Clause} (hc : ∀ l ∈ c, ∀ x ∈ l.atom.symbols, P x.toList) :
    P (c.writing n).toList := by
  rw [Clause.writing]
  split
  · exact hP.sign _ (by simp [Signs.withinLine])
  · apply hP.join (hP.sign _ (by simp [Signs.withinLine]))
    intro s hs
    obtain ⟨l, hl, rfl⟩ := List.mem_map.mp hs
    rw [Literal.writing]
    split
    · exact hP.atom (hc l hl)
    · exact hP.append_toList (hP.sign _ (by simp [Signs.withinLine])) (hP.atom (hc l hl))

variable {cs : List Clause} (hcs : ∀ c ∈ cs, ∀ l ∈ c, ∀ x ∈ l.atom.symbols, P x.toList)

include hcs

theorem clauses : P (Clause.writingAll n cs).toList := by
  rw [Clause.writingAll]
  split
  · exact hP.sign _ (by simp [Signs.withinLine])
  · apply hP.join (hP.sign _ (by simp [Signs.withinLine]))
    intro s hs
    obtain ⟨c, hc, rfl⟩ := List.mem_map.mp hs
    exact hP.parenthesized (hP.clause (hcs c hc))

omit hcs in
theorem tableLabel (i : Nat) : P (Clause.tableLabel n i).toList := by
  have hnumber : P (toString i).toList :=
    hP.plain (Text.not_mem_toString (by decide) i) (Text.not_mem_toString (by decide) i)
  cases n with
  | latex =>
    exact hP.append_toList (hP.append_toList (hP.plain (by decide) (by decide)) hnumber)
      (hP.plain (by decide) (by decide))
  | text => exact hP.append_toList (hP.plain (by decide) (by decide)) hnumber

theorem row (i : Nat) {kinds : List String} (hkinds : ∀ k ∈ kinds, P (n.prose k).toList) :
    ∀ r ∈ Clause.rowsFrom n i cs kinds, P r.toList := by
  induction cs generalizing i kinds with
  | nil => exact fun _ hr => nomatch hr
  | cons c cs ih =>
    obtain ⟨hc, hcs⟩ := List.forall_mem_cons.mp hcs
    cases kinds with
    | nil => exact fun _ hr => nomatch hr
    | cons kind kinds =>
      obtain ⟨hkind, hkinds⟩ := List.forall_mem_cons.mp hkinds
      refine List.forall_mem_cons.mpr ⟨?_, ih hcs (i + 1) hkinds⟩
      have hopening : P ": (".toList := hP.plain (by decide) (by decide)
      have hclosing : P ")".toList := hP.plain (by decide) (by decide)
      have hsign := hP.sign n.signs.implies (by simp [Signs.withinLine])
      have hlabel := hP.append_toList (hP.tableLabel i) hopening
      have hclause := hP.append_toList (hP.append_toList hlabel (hP.clause hc)) hclosing
      exact hP.append_toList (hP.append_toList hclause hsign) hkind

end Notation.Composes

namespace Text

theorem singleBackslashes_of_not_mem {cs : List Char} (h : '\\' ∉ cs) : singleBackslashes cs := by
  fun_induction singleBackslashes cs with
  | case1 => rfl
  | case2 c => exact decide_eq_true fun hc => h (by simp [hc])
  | case3 c d cs ih =>
    have hc : c ≠ '\\' := fun hc => h (by simp [hc])
    rw [Bool.and_eq_true]
    exact ⟨decide_eq_true (Or.inl hc), ih fun hmem => h (List.mem_cons_of_mem c hmem)⟩

theorem singleBackslashes_of_suffix {as cs : List Char} (hcs : singleBackslashes cs)
    (has : as <:+ cs) : singleBackslashes as := by
  obtain ⟨bs, rfl⟩ := has
  induction bs with
  | nil => exact hcs
  | cons b bs ih =>
    apply ih
    cases h : bs ++ as with
    | nil => rfl
    | cons d ds => simp_all [singleBackslashes]

end Text

namespace Notation

theorem composes_singleBackslashes : latex.Composes fun cs => Text.singleBackslashes cs where
  plain hcs _ := Text.singleBackslashes_of_not_mem hcs
  append := Text.singleBackslashes_append
  sign := by
    have h : (latex.signs.withinLine.all fun s => Text.singleBackslashes s.toList) = true := by decide
    exact List.all_eq_true.mp h

theorem composes_singleLine : latex.Composes fun cs => '\n' ∉ cs where
  plain _ hcs := hcs
  append has hbs h := (List.mem_append.mp h).elim has hbs
  sign := by
    have h : (latex.signs.withinLine.all fun s => '\n' ∉ s.toList) = true := by decide
    exact fun s hs => of_decide_eq_true (List.all_eq_true.mp h s hs)

theorem singleBackslashes_prose (s : String) : Text.singleBackslashes (prose .latex s).toList := by
  have hescape : Text.singleBackslashes (escape s).toList := by
    rw [toList_escape]
    exact singleBackslashes_escape s.toList
  exact composes_singleBackslashes.append_toList
    (composes_singleBackslashes.append_toList (by decide : Text.singleBackslashes _) hescape)
    (by decide : Text.singleBackslashes _)

theorem lineFeed_not_mem_prose {s : String} (hs : '\n' ∉ s.toList) :
    '\n' ∉ (prose .latex s).toList := by
  have htexts : ∀ e ∈ escapeTexts, '\n' ∉ e := by decide
  have hescape : '\n' ∉ (escape s).toList := by
    rw [toList_escape, List.mem_flatMap]
    rintro ⟨c, hc, hmem⟩
    rcases mem_escapeTexts_or c with he | ⟨-, he⟩
    · exact htexts _ he hmem
    · rw [he, List.mem_singleton] at hmem
      exact hs (hmem ▸ hc)
  exact composes_singleLine.append_toList
    (composes_singleLine.append_toList (by decide : '\n' ∉ _) hescape) (by decide : '\n' ∉ _)

/-- The separator has two backslashes, of which single ones keep clear. -/
theorem apart_betweenLines {cs : List Char} (h : Text.singleBackslashes cs) :
    Text.Apart latex.signs.betweenLines.toList cs := by
  intro as has hne hbegins
  have hsingle := Text.singleBackslashes_of_suffix h has
  match as with
  | [] => exact hne rfl
  | [a] => simp [signs] at hbegins
  | [a, b] => simp [signs] at hbegins
  | a :: b :: c :: as =>
    obtain ⟨-, rfl, rfl, -⟩ : ' ' = a ∧ '\\' = b ∧ '\\' = c ∧ [' '] <+: as ++ _ := by
      simpa [signs] using hbegins
    simp [Text.singleBackslashes] at hsingle

theorem not_infix_betweenLines {cs : List Char} (h : Text.singleBackslashes cs) :
    ¬ latex.signs.betweenLines.toList <:+: cs := by
  have hinner : ['\\', '\\'] <:+: latex.signs.betweenLines.toList := by decide
  intro hinfix
  exact Text.not_infix_of_singleBackslashes h (hinner.trans hinfix)

end Notation

end Clausification

import Clausification.Proofs.Reader.Binders
import Clausification.Proofs.Reader.RoundTrip

/-!
# What is read is plain

Every name in a formula that is read is the text of one of the tokens. The invariant is one of the
two stacks: names that wait for the body of a quantifier are names, and operands are plain.
-/

namespace Clausification.Reader

/-- Every identifier is a name. -/
def Named (ts : List Token) : Prop := ∀ t ∈ ts, t.kind = .ident → isName t.text

namespace Named
variable {t : Token} {ts rest : List Token}

theorem of_suffix (hts : Named ts) (h : rest <:+ ts) : Named rest :=
  fun t ht => hts t (h.subset ht)

theorem tail (h : Named (t :: ts)) : Named ts := h.of_suffix (List.suffix_cons _ _)

theorem head {x : String} {o : Nat} (h : Named (⟨.ident, x, o⟩ :: ts)) : isName x :=
  h _ List.mem_cons_self rfl

end Named

theorem isName_of_binderNames {text : String} {ts rest : List Token} {names : List String}
    (hts : Named ts) (h : binderNames text ts = .ok (names, rest)) : ∀ x ∈ names, isName x := by
  obtain ⟨vs, rfl, hvs⟩ := exists_of_binderNames h
  intro y hy
  obtain ⟨t, ht, hident, rfl⟩ := hvs.exists_mem hy
  exact hts t (List.mem_append_left _ ht) hident

theorem isName_of_arguments {expected : Expectation} {ts rest : List Token} {args : List Term}
    (hts : Named ts) (h : arguments expected ts = .ok (args, rest)) :
    ∀ t ∈ args, ∃ x, t = .var x ∧ isName x := by
  fun_induction arguments expected ts generalizing args rest with
  | case1 expected x =>
    obtain ⟨rfl, -⟩ := Prod.mk.inj (Except.ok.inj h)
    exact List.forall_mem_singleton.mpr ⟨x, rfl, hts.head⟩
  | case2 expected x _ _ _ us ih =>
    obtain ⟨p, hmore, heq⟩ := map_eq_ok.mp h
    obtain ⟨rfl, -⟩ := Prod.mk.inj heq
    exact List.forall_mem_cons.mpr ⟨⟨x, rfl, hts.head⟩, ih hts.tail.tail hmore⟩
  | case3 => cases h
  | case4 => cases h

theorem isPlain_of_atomAfter {predicate : String} {ts rest : List Token} {a : Atom}
    (hpredicate : isName predicate) (hts : Named ts)
    (h : atomAfter predicate ts = .ok (a, rest)) : a.IsPlain := by
  unfold atomAfter at h
  split at h
  · obtain ⟨rfl, -⟩ := Prod.mk.inj (Except.ok.inj h)
    exact ⟨hpredicate, fun _ ht => nomatch ht⟩
  · rename_i us _
    obtain ⟨p, hargs, heq⟩ := map_eq_ok.mp h
    obtain ⟨rfl, -⟩ := Prod.mk.inj heq
    exact ⟨hpredicate, isName_of_arguments hts.tail hargs⟩
  · obtain ⟨rfl, -⟩ := Prod.mk.inj (Except.ok.inj h)
    exact ⟨hpredicate, fun _ ht => nomatch ht⟩

/-- The names that wait for a body are names. -/
def Pending.IsPlain : Pending → Prop
  | .binder _ names => ∀ x ∈ names, isName x
  | _ => True

/-- Nothing else than plain formulas can come of the stacks. -/
structure Stacks.IsPlain (s : Stacks) : Prop where
  pending : ∀ p ∈ s.pending, p.IsPlain
  operands : ∀ f ∈ s.operands, f.IsPlain

theorem isPlain_bindAll {q : Quantifier} {names : List String} {f : Formula} :
    (bindAll q names f).IsPlain ↔ (∀ x ∈ names, isName x) ∧ f.IsPlain := by
  induction names with
  | nil => simp [bindAll]
  | cons x names ih => rw [List.forall_mem_cons, and_assoc, ← ih]; rfl

namespace Stacks
variable {s s' : Stacks} {ps : List Pending} {fs : List Formula}

namespace IsPlain

theorem push {p : Pending} (hp : p.IsPlain) (hs : s.IsPlain) : (s.push p).IsPlain :=
  ⟨List.forall_mem_cons.mpr ⟨hp, hs.pending⟩, hs.operands⟩

theorem pushOperand {f : Formula} (hf : f.IsPlain) (hs : s.IsPlain) : (s.pushOperand f).IsPlain :=
  ⟨hs.pending, List.forall_mem_cons.mpr ⟨hf, hs.operands⟩⟩

theorem pop {p : Pending} (hs : IsPlain ⟨p :: ps, fs⟩) : p.IsPlain ∧ IsPlain ⟨ps, fs⟩ :=
  have h := List.forall_mem_cons.mp hs.pending
  ⟨h.1, h.2, hs.operands⟩

theorem popOperand {f : Formula} (hs : IsPlain ⟨ps, f :: fs⟩) : f.IsPlain ∧ IsPlain ⟨ps, fs⟩ :=
  have h := List.forall_mem_cons.mp hs.operands
  ⟨h.1, hs.pending, h.2⟩

end IsPlain

theorem isPlain_closePrefixes (hs : IsPlain ⟨ps, fs⟩) (h : closePrefixes ps fs = some s') :
    s'.IsPlain := by
  fun_induction closePrefixes ps fs with
  | case1 ps f fs ih =>
    obtain ⟨hf, hs⟩ := hs.pop.2.popOperand
    exact ih (hs.pushOperand (f := .not f) hf) h
  | case2 q names ps f fs ih =>
    obtain ⟨hnames, hs⟩ := hs.pop
    obtain ⟨hf, hs⟩ := hs.popOperand
    exact ih (hs.pushOperand (isPlain_bindAll.mpr ⟨hnames, hf⟩)) h
  | case3 => cases h
  | case4 => cases h
  | case5 => exact Option.some.inj h ▸ hs

theorem isPlain_reduce {waits : Connective → Bool} (hs : IsPlain ⟨ps, fs⟩)
    (h : reduce waits ps fs = some s') : s'.IsPlain := by
  fun_induction reduce waits ps fs with
  | case1 => exact Option.some.inj h ▸ hs
  | case2 c ps _ r l fs ih =>
    obtain ⟨hr, hs⟩ := hs.pop.2.popOperand
    obtain ⟨hl, hs⟩ := hs.popOperand
    exact ih (hs.pushOperand (f := .binary c l r) ⟨hl, hr⟩) h
  | case3 => cases h
  | case4 => exact Option.some.inj h ▸ hs

theorem isPlain_reduceFor {c : Connective} (hs : s.IsPlain) (h : s.reduceFor c = some s') :
    s'.IsPlain := by
  obtain ⟨s'', hreduce, rfl⟩ := Option.map_eq_some_iff.mp h
  exact (isPlain_reduce hs hreduce).push trivial

theorem isPlain_closeGroup (hs : s.IsPlain) (h : s.closeGroup = some s') : s'.IsPlain := by
  unfold closeGroup at h
  split at h
  · rename_i hreduce
    exact Option.some.inj h ▸ (isPlain_reduce hs hreduce).pop.2
  · cases h

end Stacks

/-- From plain stacks, reading on at the tokens ends in a plain formula. -/
structure ReadsPlain (ts : List Token) : Prop where
  operand : ∀ {d s f rest}, s.IsPlain → readOperand d s ts = .ok (f, rest) → f.IsPlain
  operator : ∀ {d s f rest}, s.IsPlain → readOperator d s ts = .ok (f, rest) → f.IsPlain

section
variable {ts rest : List Token} {d : Nat} {s : Stacks} {f : Formula}

theorem isPlain_of_readOperand (hts : Named ts)
    (ih : ∀ us, us.length < ts.length → Named us → ReadsPlain us) (hs : s.IsPlain)
    (h : readOperand d s ts = .ok (f, rest)) : f.IsPlain := by
  unfold readOperand at h
  split at h
  · exact (ih _ (by simp) hts.tail).operand (Stacks.IsPlain.push (p := .not) trivial hs) h
  · split at h
    · rename_i hnames
      have hlt := Nat.lt_succ_of_lt (binderNames_length hnames)
      have hrest := hts.tail.of_suffix (Grammar.binderNames_suffix hnames)
      have hbound := isName_of_binderNames hts.tail hnames
      exact (ih _ hlt hrest).operand (Stacks.IsPlain.push (p := .binder _ _) hbound hs) h
    · cases h
  · exact (ih _ (by simp) hts.tail).operand (Stacks.IsPlain.push (p := .opening) trivial hs) h
  · split at h
    · rename_i hatom
      have hlt := Nat.lt_succ_of_le (atomAfter_length hatom)
      have hsuffix := Grammar.atom_suffix (Grammar.atomAfter_eq _ _ ▸ hatom)
      have ha := isPlain_of_atomAfter hts.head hts.tail hatom
      exact (ih _ hlt (hts.tail.of_suffix hsuffix)).operator (hs.pushOperand (f := .atom _) ha) h
    · cases h
  · cases h

theorem isPlain_of_readOperator (hts : Named ts)
    (ih : ∀ us, us.length < ts.length → Named us → ReadsPlain us) (hs : s.IsPlain)
    (h : readOperator d s ts = .ok (f, rest)) : f.IsPlain := by
  unfold readOperator at h
  split at h
  · cases h
  rename_i hclose
  replace hs := Stacks.isPlain_closePrefixes hs hclose
  split at h
  · split at h
    · rename_i hreduce
      exact (ih _ (by simp) hts.tail).operand (Stacks.isPlain_reduceFor hs hreduce) h
    · cases h
  · split at h
    · rename_i hgroup
      exact (ih _ (by simp) hts.tail).operator (Stacks.isPlain_closeGroup hs hgroup) h
    · cases h
  · cases h
  · split at h
    · rename_i hreduce
      obtain ⟨rfl, -⟩ := Prod.mk.inj (Except.ok.inj h)
      exact (Stacks.isPlain_reduce hs hreduce).popOperand.1
    · cases h

end

theorem readsPlain {ts : List Token} (hts : Named ts) : ReadsPlain ts := by
  have ih : ∀ us, us.length < ts.length → Named us → ReadsPlain us := fun _ _ hus => readsPlain hus
  exact ⟨isPlain_of_readOperand hts ih, isPlain_of_readOperator hts ih⟩
termination_by ts.length

theorem isPlain_of_readAll {ts : List Token} {f : Formula} (hts : Named ts)
    (h : readAll ts = .ok f) : f.IsPlain := by
  have hstart : Stacks.IsPlain {} := ⟨fun _ hp => (nomatch hp), fun _ hf => (nomatch hf)⟩
  unfold readAll at h
  split at h
  · rename_i hread
    exact Except.ok.inj h ▸ (readsPlain hts).operand hstart hread
  · cases h
  · cases h

end Clausification.Reader

namespace Clausification.Formula

theorem isPlain_of_parse {strict : Bool} {s : String} {f : Formula}
    (h : Formula.parse strict s = .ok f) : f.IsPlain := by
  unfold parse parseWithSkips at h
  split at h
  · rename_i scanned hscan
    exact Reader.isPlain_of_readAll (isName_of_mem_scanFrom hscan) (mapError_eq_ok.mp h)
  · cases h

/-- Text that is written is read back, whether or not unrecognized characters are passed over, and
only what can be written is ever read. -/
theorem reading_inverts_writing :
    (∀ f : Formula, f.IsPlain →
      ∃ text, f.render .text = .ok text ∧ Formula.parse true text = .ok f) ∧
    (∀ (strict : Bool) (s : String) (f : Formula), Formula.parse strict s = .ok f →
      f.IsPlain ∧ ∃ text, f.render .text = .ok text ∧
        ∀ strict', Formula.parse strict' text = .ok f) := by
  constructor
  · intro f hf
    exact ⟨f.writing .text, render_eq _ hf.wellFormed, parse_writing hf true⟩
  · intro strict s f h
    have hf := isPlain_of_parse h
    exact ⟨hf, f.writing .text, render_eq _ hf.wellFormed, parse_writing hf⟩

theorem reading_inverts_writing_of_ignored_character :
    let f : Formula := .all "x" (.implies (.atom ⟨"P", [.var "x"]⟩) (.not (.atom ⟨"q", []⟩)))
    f.IsPlain ∧ (∃ text, f.render .text = .ok text ∧ Formula.parse true text = .ok f) ∧
      Formula.parse false "∀x # (P(x) → ¬q)" = .ok f ∧
      ∃ text, f.render .text = .ok text ∧ ∀ strict, Formula.parse strict text = .ok f := by
  intro f
  have hplain : f.IsPlain := by decide
  have hread : (Formula.parse false "∀x # (P(x) → ¬q)").toOption = some f := by decide +kernel
  have hparse : Formula.parse false "∀x # (P(x) → ¬q)" = .ok f := by
    cases h : Formula.parse false "∀x # (P(x) → ¬q)" with
    | error e =>
      rw [h] at hread
      cases hread
    | ok g =>
      rw [h] at hread
      rw [Option.some.inj hread]
  exact ⟨hplain, reading_inverts_writing.1 f hplain, hparse,
    (reading_inverts_writing.2 false _ f hparse).2⟩

end Clausification.Formula

import Clausification.Proofs.Formula.Spelling
import Clausification.Proofs.Reader.Agreement
import Clausification.Proofs.Reader.Atoms

/-!
# Writing and reading

The words of a plain formula are read as that formula. Operands that need no parentheses are complete
where they end: an atom is not followed by an opening parenthesis, and the variables of a quantifier
end at its dot.
-/

namespace Clausification

theorem wordsOf_eq_cons {ts : List Token} {k : TokenKind} {x : String} {ws : Words}
    (h : wordsOf ts = (k, x) :: ws) : ∃ o us, ts = ⟨k, x, o⟩ :: us ∧ wordsOf us = ws := by
  obtain ⟨t, us, rfl, ht, hus⟩ := List.map_eq_cons_iff.mp h
  cases ht
  exact ⟨t.offset, us, rfl, hus⟩

theorem wordsOf_eq_append {ts : List Token} {ws ws' : Words} (h : wordsOf ts = ws ++ ws') :
    ∃ us us', ts = us ++ us' ∧ wordsOf us = ws ∧ wordsOf us' = ws' :=
  List.map_eq_append_iff.mp h

theorem Formula.isBinary_iff {f : Formula} : f.isBinary ↔ ∃ c l r, f = .binary c l r := by
  cases f <;> simp [isBinary]

namespace Reader

/-- The tokens are read as one operand, whatever is pending and whatever comes next, provided that it
is not taken for arguments. -/
def ReadsAs (ts : List Token) (f : Formula) : Prop :=
  ∀ d s rest, NotOpening rest → readOperand d s (ts ++ rest) = readOperator d (s.pushOperand f) rest

/-- The tokens are read as one operand, whatever is pending, in front of any tokens that are allowed
there. -/
def ReadsBefore (allowed : List Token → Prop) (ts : List Token) (f : Formula) : Prop :=
  ∀ d s rest, allowed rest → readOperand d s (ts ++ rest) = readOperator d (s.pushOperand f) rest

theorem argumentsEnd_of_words {x : String} {xs : List String} {ts : List Token}
    (hts : wordsOf ts = Atom.argumentWords (x :: xs) ++ [(.closing, ")")]) :
    ArgumentsEnd (x :: xs) ts := by
  induction xs generalizing x ts with
  | nil =>
    obtain ⟨o, us, rfl, hus⟩ := wordsOf_eq_cons hts
    obtain ⟨n, vs, rfl, hvs⟩ := wordsOf_eq_cons hus
    rw [List.map_eq_nil_iff.mp hvs]
    exact .last x o ")" n
  | cons z zs ih =>
    obtain ⟨o, us, rfl, hus⟩ := wordsOf_eq_cons hts
    obtain ⟨n, vs, rfl, hvs⟩ := wordsOf_eq_cons hus
    exact .more x o "," n (ih hvs)

/-- Where the words of an atom end, the atom ends. -/
theorem atomAfter_words {a : Atom} (ha : a.IsPlain) {ts : List Token} (hts : wordsOf ts = a.words) :
    ∃ o us, ts = ⟨.ident, a.predicate, o⟩ :: us ∧
      ∀ rest, NotOpening rest → atomAfter a.predicate (us ++ rest) = .ok (a, rest) := by
  obtain ⟨xs, hxs, -⟩ := ha.exists_args
  obtain ⟨p, args⟩ := a
  obtain rfl : args = xs.map .var := hxs
  cases xs with
  | nil =>
    obtain ⟨o, us, rfl, hus⟩ := wordsOf_eq_cons hts
    rw [List.map_eq_nil_iff.mp hus]
    exact ⟨o, [], rfl, fun rest => AtomEnd.bare.atomAfter_eq⟩
  | cons x xs =>
    rw [Atom.words_of_cons rfl] at hts
    obtain ⟨o, us, rfl, hus⟩ := wordsOf_eq_cons hts
    obtain ⟨n, vs, rfl, hvs⟩ := wordsOf_eq_cons hus
    exact ⟨o, _, rfl, fun rest => (AtomEnd.applied "(" n (argumentsEnd_of_words hvs)).atomAfter_eq⟩

/-- Two lists of words with a connective between them. -/
theorem wordsOf_eq_binary {c : Connective} {y : String} {ws ws' : Words} {ts : List Token}
    (hts : wordsOf ts = ws ++ (.binary c, y) :: ws') :
    ∃ us x o vs, ts = us ++ ⟨.binary c, x, o⟩ :: vs ∧ wordsOf us = ws ∧ wordsOf vs = ws' := by
  obtain ⟨us, us', rfl, hus, hus'⟩ := wordsOf_eq_append hts
  obtain ⟨o, vs, rfl, hvs⟩ := wordsOf_eq_cons hus'
  exact ⟨us, _, o, vs, rfl, hus, hvs⟩

namespace ReadsBefore
variable {allowed : List Token → Prop} {ts us vs : List Token} {f l r : Formula} {c : Connective}
  {w x z : String} {m n o : Nat}

theorem not (hf : ReadsBefore allowed ts f) :
    ReadsBefore allowed (⟨.not, x, o⟩ :: ts) (.not f) := by
  intro d s rest hrest
  rw [List.cons_append, readOperand, hf d _ rest hrest]
  exact readOperator_of_closePrefixes rfl

theorem binary {d : Nat} {s : Stacks} {rest : List Token} (hl : ReadsBefore allowed us l)
    (hr : ReadsBefore allowed vs r) (hs : Admits 1 s.pending)
    (hbinary : ∀ ts, allowed (⟨.binary c, x, o⟩ :: ts)) (hrest : allowed rest)
    (hfollows : Follows 1 rest) :
    readOperand d s (us ++ ⟨.binary c, x, o⟩ :: (vs ++ rest)) =
      readOperator d (s.pushOperand (.binary c l r)) rest := by
  have hclosed : Stacks.closePrefixes s.pending (l :: s.operands) = some (s.pushOperand l) :=
    closePrefixes_of_admits hs (by decide) _
  have hwaits := reduceFor_of_admits (s := s.pushOperand l) hs (Nat.succ_le_of_lt (strength_pos c))
  rw [hl d s _ (hbinary _), readOperator_binary hclosed hwaits, hr d _ _ hrest]
  refine readOperator_apply hs (by decide) fun c' y o' rest' h => ?_
  exact (not_follows_zero (h ▸ hfollows)).elim

theorem group {allowed' : List Token → Prop} (hl : ReadsBefore allowed us l)
    (hr : ReadsBefore allowed vs r) (hbinary : ∀ ts, allowed (⟨.binary c, x, n⟩ :: ts))
    (hclosing : ∀ ts, allowed (⟨.closing, z, o⟩ :: ts)) :
    ReadsBefore allowed' (⟨.opening, w, m⟩ :: (us ++ ⟨.binary c, x, n⟩ :: vs ++ [⟨.closing, z, o⟩]))
      (.binary c l r) := by
  intro d s rest _
  have hfollows : Follows 1 (⟨.closing, z, o⟩ :: rest) := by simp [Follows]
  have hread := binary (d := d + 1) (s := s.push .opening) hl hr trivial hbinary (hclosing rest)
    hfollows
  simp only [List.cons_append, List.append_assoc, List.nil_append]
  rw [readOperand, hread]
  exact readOperator_closing

theorem readFormula_eq (hf : ReadsBefore allowed ts f) (hnil : allowed []) :
    readFormula ts = .ok (f, []) := by
  rw [readFormula, ← List.append_nil ts, hf 0 {} [] hnil]
  exact readOperator_end (by simp [Follows])

theorem readFormula_binary (hl : ReadsBefore allowed us l) (hr : ReadsBefore allowed vs r)
    (hbinary : ∀ ts, allowed (⟨.binary c, x, o⟩ :: ts)) (hnil : allowed []) :
    readFormula (us ++ ⟨.binary c, x, o⟩ :: vs) = .ok (.binary c l r, []) := by
  have hfollows : Follows 1 [] := by simp [Follows]
  have hread := binary (d := 0) (s := {}) hl hr trivial hbinary hnil hfollows
  rw [List.append_nil] at hread
  rw [readFormula, hread]
  exact readOperator_end hfollows

end ReadsBefore

namespace ReadsAs
variable {ts us vs : List Token} {f l r : Formula} {c : Connective} {q : Quantifier}
  {w x y z : String} {m n o : Nat}

theorem atom {a : Atom} (ha : ∀ rest, NotOpening rest → atomAfter x (ts ++ rest) = .ok (a, rest)) :
    ReadsAs (⟨.ident, x, o⟩ :: ts) (.atom a) := by
  intro d s rest hrest
  exact readOperand_ident (ha rest hrest)

theorem not (hf : ReadsAs ts f) : ReadsAs (⟨.not, x, o⟩ :: ts) (.not f) := ReadsBefore.not hf

theorem quant (hf : ReadsAs ts f) :
    ReadsAs (⟨.quant q, w, m⟩ :: ⟨.ident, x, n⟩ :: ⟨.dot, y, o⟩ :: ts) (.quant q x f) := by
  intro d s rest hrest
  have hnames : binderNames w (⟨.ident, x, n⟩ :: ⟨.dot, y, o⟩ :: (ts ++ rest)) =
      .ok ([x], ts ++ rest) := by
    simp [binderNames, variableRun, handBack, skipDot]
  simp only [List.cons_append]
  rw [readOperand_quant hnames, hf d _ rest hrest]
  exact readOperator_of_closePrefixes rfl

theorem group (hl : ReadsAs us l) (hr : ReadsAs vs r) :
    ReadsAs (⟨.opening, w, m⟩ :: (us ++ ⟨.binary c, x, n⟩ :: vs ++ [⟨.closing, z, o⟩]))
      (.binary c l r) :=
  ReadsBefore.group hl hr (fun _ => by simp [NotOpening]) fun _ => by simp [NotOpening]

end ReadsAs

theorem readsAs_grouped {n : Notation} {f : Formula} (hf : f.IsPlain) {ts : List Token}
    (hts : wordsOf ts = f.groupedWords (f.words n)) : ReadsAs ts f := by
  induction f generalizing ts with
  | atom a =>
    obtain ⟨o, us, rfl, hatom⟩ := atomAfter_words hf hts
    exact .atom hatom
  | not f ih =>
    obtain ⟨o, us, rfl, hus⟩ := wordsOf_eq_cons hts
    exact .not (ih hf hus)
  | binary c l r ihl ihr =>
    obtain ⟨m, us, rfl, hus⟩ := wordsOf_eq_cons hts
    obtain ⟨us, us', rfl, hbinary, hclosing⟩ := wordsOf_eq_append hus
    obtain ⟨o, us', rfl, hus'⟩ := wordsOf_eq_cons hclosing
    obtain ⟨vs, x, n, ws, rfl, hvs, hws⟩ := wordsOf_eq_binary hbinary
    rw [List.map_eq_nil_iff.mp hus']
    exact .group (ihl hf.1 hvs) (ihr hf.2 hws)
  | quant q x f ih =>
    obtain ⟨m, us, rfl, hus⟩ := wordsOf_eq_cons hts
    obtain ⟨n, vs, rfl, hvs⟩ := wordsOf_eq_cons hus
    obtain ⟨o, ws, rfl, hws⟩ := wordsOf_eq_cons hvs
    exact .quant (ih hf.2 hws)
  | term t => exact hf.elim

theorem readFormula_words {n : Notation} {f : Formula} (hf : f.IsPlain) {ts : List Token}
    (hts : wordsOf ts = f.words n) : readFormula ts = .ok (f, []) := by
  have hnil : NotOpening [] := by simp [NotOpening]
  by_cases hbinary : f.isBinary
  · obtain ⟨c, l, r, rfl⟩ := Formula.isBinary_iff.mp hbinary
    obtain ⟨us, x, o, vs, rfl, hus, hvs⟩ := wordsOf_eq_binary hts
    exact ReadsBefore.readFormula_binary (readsAs_grouped hf.1 hus) (readsAs_grouped hf.2 hvs)
      (fun _ => by simp [NotOpening]) hnil
  · have hgrouped : f.groupedWords (f.words n) = f.words n := if_neg hbinary
    exact ReadsBefore.readFormula_eq (readsAs_grouped hf (hts.trans hgrouped.symm)) hnil

end Reader

theorem Formula.parse_of_scan {strict : Bool} {s : String} {ts : List Token} {f : Formula}
    (hscan : scan strict s = .ok { tokens := ts })
    (hread : Reader.readFormula ts = .ok (f, [])) : Formula.parse strict s = .ok f := by
  rw [parse, parseWithSkips, hscan]
  simp only [Reader.readAll, hread]
  rfl

theorem Formula.parse_writing_of_legible {n : Notation} {f : Formula} (hf : f.IsPlain)
    (hn : f.LegibleIn n) (strict : Bool) : Formula.parse strict (f.writing n) = .ok f := by
  obtain ⟨ts, hts, hscan⟩ := scan_writing hf hn strict
  exact parse_of_scan hscan (Reader.readFormula_words hf hts)

theorem Formula.parse_writing {f : Formula} (hf : f.IsPlain) (strict : Bool) :
    Formula.parse strict (f.writing .text) = .ok f :=
  parse_writing_of_legible hf f.legibleIn_text strict

end Clausification

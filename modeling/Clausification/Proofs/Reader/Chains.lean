import Clausification.Proofs.Formula.Shape
import Clausification.Proofs.Reader.RoundTrip

/-!
# Reading chains

Conjunction and disjunction group to the left. So operands of which each is read as one, with the same
connective between neighbours, are read as a chain that grows by one operand at a time.
-/

namespace Clausification

/-- Formulas joined by one connective and grouped to the left. No formulas make no chain. -/
def Formula.chain (c : Connective) : List Formula → Formula
  | [] => default
  | f :: fs => fs.foldl (.binary c) f

namespace Reader

/-- The tokens are read as operands, each behind the connective. -/
inductive ReadsBehind (c : Connective) : List Token → List Formula → Prop
  | nil : ReadsBehind c [] []
  | cons {us ts : List Token} {f : Formula} {fs : List Formula} (x : String) (o : Nat)
      (hf : ReadsAs us f) (hts : ReadsBehind c ts fs) :
      ReadsBehind c (⟨.binary c, x, o⟩ :: (us ++ ts)) (f :: fs)

variable {c : Connective} {us ts rest : List Token} {f : Formula} {fs : List Formula}

theorem ReadsBehind.notOpening (h : ReadsBehind c ts fs) (hrest : NotOpening rest) :
    NotOpening (ts ++ rest) := by
  cases h with
  | nil => exact hrest
  | cons => simp [NotOpening]

theorem ReadsBehind.waitsFor_eq (hc : c.IsJunction) (h : ReadsBehind c ts fs)
    (hrest : Follows 1 rest) {c' : Connective} {x : String} {o : Nat} {ts' : List Token}
    (hts : ts ++ rest = ⟨.binary c', x, o⟩ :: ts') : waitsFor c c' = false := by
  cases h with
  | nil =>
    rw [List.nil_append] at hts
    exact (not_follows_zero (hts ▸ hrest)).elim
  | cons =>
    simp only [List.cons_append, List.cons.injEq, Token.mk.injEq, TokenKind.binary.injEq] at hts
    obtain ⟨⟨rfl, -⟩, -⟩ := hts
    rcases hc with rfl | rfl <;> decide

/-- The operand read so far takes in the next one as soon as that is complete. -/
theorem readOperator_chain (hc : c.IsJunction) (h : ReadsBehind c ts fs) {d : Nat} {s : Stacks}
    (hs : Admits 1 s.pending) (hrest : NotOpening rest) (hfollows : Follows 1 rest) (f : Formula) :
    readOperator d (s.pushOperand f) (ts ++ rest) =
      readOperator d (s.pushOperand (fs.foldl (.binary c) f)) rest := by
  induction h generalizing f with
  | nil => rfl
  | @cons us ts g fs x o hg hts ih =>
    have hclosed : Stacks.closePrefixes s.pending (f :: s.operands) = some (s.pushOperand f) :=
      closePrefixes_of_admits hs (by decide) _
    have hpush := reduceFor_of_admits (s := s.pushOperand f) hs (Nat.succ_le_of_lt (strength_pos c))
    have happly : readOperator d ⟨.binary c :: s.pending, g :: f :: s.operands⟩ (ts ++ rest) =
        readOperator d (s.pushOperand (.binary c f g)) (ts ++ rest) :=
      readOperator_apply hs (by decide) fun c' x o ts' h => hts.waitsFor_eq hc hfollows h
    rw [List.cons_append, List.append_assoc, readOperator_binary hclosed hpush,
      hg d _ _ (hts.notOpening hrest)]
    exact happly.trans (ih _)

theorem ReadsAs.chain (hc : c.IsJunction) (hf : ReadsAs us f) (h : ReadsBehind c ts fs)
    {w z : String} {m o : Nat} :
    ReadsAs (⟨.opening, w, m⟩ :: (us ++ ts ++ [⟨.closing, z, o⟩])) (Formula.chain c (f :: fs)) := by
  intro d s rest hrest
  have hopening : NotOpening (⟨.closing, z, o⟩ :: rest) := by simp [NotOpening]
  have hfollows : Follows 1 (⟨.closing, z, o⟩ :: rest) := by simp [Follows]
  have hchain := readOperator_chain hc h (d := d + 1) (s := s.push .opening) trivial hopening
    hfollows f
  simp only [List.cons_append, List.append_assoc, List.nil_append]
  rw [readOperand, hf (d + 1) _ _ (h.notOpening hopening), hchain]
  exact readOperator_closing

theorem readFormula_chain (hc : c.IsJunction) (hf : ReadsAs us f) (h : ReadsBehind c ts fs) :
    readFormula (us ++ ts) = .ok (Formula.chain c (f :: fs), []) := by
  have hopening : NotOpening [] := by simp [NotOpening]
  have hfollows : Follows 1 [] := by simp [Follows]
  have hchain := readOperator_chain hc h (d := 0) (s := {}) trivial hopening hfollows f
  rw [List.append_nil] at hchain
  have hread := hf 0 {} ts (by simpa using h.notOpening hopening)
  rw [readFormula, hread, hchain]
  exact readOperator_end hfollows

end Reader

end Clausification

import Clausification.Proofs.Reader.Agreement
import Clausification.Proofs.Reader.Atoms
import Clausification.Proofs.Reader.Binders

/-!
# Sentences

The lists of tokens that are read to their end, described without precedence: an atom, a negation, a
quantifier with variables in front of a sentence, a sentence in parentheses, and two sentences with a
connective between them. The description leaves open which names in a row are variables. The reader
decides that, and where it decides differently what it reads is still a sentence.
-/

namespace Clausification.Reader

inductive Sentence : List Token → Prop
  | atom (x : String) (o : Nat) {xs : List String} {ts : List Token} (h : AtomEnd xs ts) :
    Sentence (⟨.ident, x, o⟩ :: ts)
  | not (x : String) (o : Nat) {ts : List Token} (h : Sentence ts) : Sentence (⟨.not, x, o⟩ :: ts)
  | quant (q : Quantifier) (w : String) (m : Nat) (x : String) (o : Nat) {xs ts : List Token}
    (hxs : Identifiers xs) (h : Sentence ts) :
    Sentence (⟨.quant q, w, m⟩ :: ⟨.ident, x, o⟩ :: (xs ++ ts))
  | dotted (q : Quantifier) (w : String) (m : Nat) (x : String) (o : Nat) (y : String) (n : Nat)
    {xs ts : List Token} (hxs : Identifiers xs) (h : Sentence ts) :
    Sentence (⟨.quant q, w, m⟩ :: ⟨.ident, x, o⟩ :: (xs ++ ⟨.dot, y, n⟩ :: ts))
  | group (x : String) (o : Nat) (y : String) (n : Nat) {ts : List Token} (h : Sentence ts) :
    Sentence (⟨.opening, x, o⟩ :: (ts ++ [⟨.closing, y, n⟩]))
  | binary (c : Connective) (x : String) (o : Nat) {us ts : List Token} (hl : Sentence us)
    (hr : Sentence ts) : Sentence (us ++ ⟨.binary c, x, o⟩ :: ts)

variable {ts us rest : List Token} {x : String} {o : Nat}

theorem Sentence.under {names : List String} {vs : List Token} (hvs : Variables names vs)
    (h : Sentence ts) (q : Quantifier) (w : String) (m : Nat) :
    Sentence (⟨.quant q, w, m⟩ :: (vs ++ ts)) := by
  cases hvs with
  | undotted x o hxs => exact .quant q w m x o hxs h
  | dotted x o y n hxs =>
    rw [List.cons_append, List.append_assoc]
    exact .dotted q w m x o y n hxs h

theorem Sentence.startsBody (h : Sentence ts) (hrest : endsOperand rest = true) :
    StartsBody (ts ++ rest) := by
  induction h generalizing rest with
  | atom x o h =>
    cases h with
    | bare => exact .bare x o hrest
    | empty => exact .applied x o rfl
    | applied y n h => exact .applied x o (h.startsArguments_eq rest)
  | not x o _ _ => exact .not x o _
  | quant q w m x o _ _ _ => exact .quant q w m _
  | dotted q w m x o y n _ _ _ => exact .quant q w m _
  | group x o y n _ _ => exact .opening x o _
  | binary c x o _ _ ihl _ =>
    rw [List.append_assoc]
    exact ihl rfl

theorem startsArguments_opening (h : StartsBody ts) :
    startsArguments (⟨.opening, x, o⟩ :: ts) = closesAfterNames ts := by
  cases h <;> rfl

/-- A sentence that could be arguments without the opening parenthesis is a single name. -/
theorem Sentence.eq_singleton (h : Sentence ts) (hcloses : closesAfterNames (ts ++ rest) = true) :
    ∃ x o, ts = [⟨.ident, x, o⟩] := by
  induction h generalizing rest with
  | atom x o h =>
    cases h with
    | bare => exact ⟨x, o, rfl⟩
    | empty | applied => simp [closesAfterNames] at hcloses
  | not | quant | dotted | group => simp [closesAfterNames] at hcloses
  | binary c x o _ _ ihl _ =>
    rw [List.append_assoc] at hcloses
    obtain ⟨y, n, rfl⟩ := ihl hcloses
    simp [closesAfterNames] at hcloses

/-- A body that begins like arguments of the name before it makes a sentence with that name. -/
theorem Sentence.of_startsArguments (h : Sentence ts) (hrest : endsOperand rest = true)
    (hargs : startsArguments (ts ++ rest) = true) (x : String) (o : Nat) :
    Sentence (⟨.ident, x, o⟩ :: ts) := by
  induction h generalizing rest with
  | atom | not | quant | dotted => simp [startsArguments] at hargs
  | group y n z m h _ =>
    rw [List.cons_append, List.append_assoc, startsArguments_opening (h.startsBody rfl)] at hargs
    obtain ⟨a, k, rfl⟩ := h.eq_singleton hargs
    exact .atom x o (.applied y n (.last a k z m))
  | binary c y n _ hr ihl _ =>
    rw [List.append_assoc] at hargs
    exact .binary c y n (ihl rfl hargs) hr

/-- A run ends behind all tokens, unless an operand is missing. -/
def Finishes (x : Except Fault (Formula × List Token)) : Prop :=
  (∃ f, x = .ok (f, [])) ∨ ∃ ts, x = .error ⟨.operand, ts⟩

theorem Finishes.missing (ts : List Token) : Finishes (.error ⟨.operand, ts⟩) := Or.inr ⟨ts, rfl⟩

theorem finishes_readOperator_nil (s : Stacks) : Finishes (readOperator 0 s []) := by
  rw [readOperator]
  split
  · exact .missing _
  · simp only
    split
    · exact Or.inl ⟨_, rfl⟩
    · exact .missing _

theorem finishes_readOperator_closing {d : Nat} (h : ∀ s, Finishes (readOperator d s rest))
    (s : Stacks) : Finishes (readOperator (d + 1) s (⟨.closing, x, o⟩ :: rest)) := by
  rw [readOperator]
  split
  · exact .missing _
  · simp only
    split
    · exact h _
    · exact .missing _

theorem finishes_readOperator_binary {c : Connective} {d : Nat}
    (h : ∀ s, Finishes (readOperand d s rest)) (s : Stacks) :
    Finishes (readOperator d s (⟨.binary c, x, o⟩ :: rest)) := by
  rw [readOperator]
  split
  · exact .missing _
  · rename_i s' _
    cases hreduce : s'.reduceFor c with
    | none => cases d <;> simpa only [hreduce] using .missing _
    | some s'' => cases d <;> simpa only [hreduce] using h s''

/-- The reader goes on behind the sentence that follows a quantifier, which may begin with the last
of the names that could be variables. -/
theorem finishes_readOperand_quant {q : Quantifier} {w : String} {m d : Nat} {xs : List Token}
    (hxs : Identifiers xs) (hrest : endsOperand rest = true)
    (h : Sentence ts) (hts : ∀ s, Finishes (readOperand d s (ts ++ rest)))
    (hlast : ∀ y n, Sentence (⟨.ident, y, n⟩ :: ts) →
      ∀ s, Finishes (readOperand d s (⟨.ident, y, n⟩ :: (ts ++ rest)))) (s : Stacks) :
    Finishes (readOperand d s (⟨.quant q, w, m⟩ :: ⟨.ident, x, o⟩ :: (xs ++ (ts ++ rest)))) := by
  by_cases hargs : xs = [] ∨ startsArguments (ts ++ rest) = false
  · rw [readOperand_quant (binderNames_body hxs (h.startsBody hrest) hargs)]
    exact hts _
  · -- the last of the names takes what follows for its arguments, so with it the body begins
    obtain ⟨hne, hstarts⟩ := not_or.mp hargs
    replace hstarts : startsArguments (ts ++ rest) = true := Bool.of_not_eq_false hstarts
    obtain ⟨ys, ⟨k, y, n⟩, rfl⟩ : ∃ ys t, xs = ys ++ [t] :=
      ⟨_, _, (List.dropLast_concat_getLast hne).symm⟩
    obtain rfl : k = .ident := hxs ⟨k, y, n⟩ (by simp)
    have hys : Identifiers ys := fun t ht => hxs t (List.mem_append_left _ ht)
    rw [List.append_assoc, List.singleton_append,
      readOperand_quant (binderNames_body hys (.applied y n hstarts) (Or.inr rfl))]
    exact hlast y n (h.of_startsArguments hrest hstarts y n) _

/-- In front of a sentence the reader goes on behind it, if an operand may end there. -/
theorem Sentence.finishes {ts rest : List Token} (h : Sentence ts) {d : Nat}
    (hrest : endsOperand rest = true) (hbehind : ∀ s, Finishes (readOperator d s rest))
    (s : Stacks) : Finishes (readOperand d s (ts ++ rest)) := by
  -- what follows the variables may be longer than the sentence that followed them, never than `ts`
  have ih : ∀ us, us.length < ts.length → Sentence us → ∀ {d rest}, endsOperand rest = true →
      (∀ s, Finishes (readOperator d s rest)) → ∀ s, Finishes (readOperand d s (us ++ rest)) :=
    fun us _ hus => hus.finishes
  cases h with
  | atom x o h =>
    rw [List.cons_append, readOperand_ident (h.atomAfter_eq (notOpening_of_endsOperand hrest))]
    exact hbehind _
  | not x o h =>
    rw [List.cons_append, readOperand]
    exact ih _ (by simp) h hrest hbehind _
  | @quant q w m x o xs us hxs h =>
    rw [List.cons_append, List.cons_append, List.append_assoc]
    refine finishes_readOperand_quant hxs hrest h (ih us (by grind) h hrest hbehind) ?_ s
    exact fun y n hy => ih _ (by grind) hy hrest hbehind
  | @dotted q w m x o y n xs us hxs h =>
    rw [List.cons_append, List.cons_append, List.append_assoc, List.cons_append,
      readOperand_quant (binderNames_dot hxs)]
    exact ih us (by grind) h hrest hbehind _
  | @group x o y n us h =>
    rw [List.cons_append, List.append_assoc, readOperand]
    exact ih us (by grind) h rfl (finishes_readOperator_closing hbehind) _
  | @binary c x o us vs hl hr =>
    rw [List.append_assoc]
    exact ih us (by simp) hl rfl (finishes_readOperator_binary
      (ih vs (by grind) hr hrest hbehind)) s
termination_by ts.length

theorem Sentence.exists_readAll (h : Sentence ts) : ∃ f, readAll ts = .ok f := by
  have hfinishes : Finishes (readFormula ts) := by
    rw [readFormula, ← List.append_nil ts]
    exact h.finishes rfl finishes_readOperator_nil _
  rcases hfinishes with ⟨f, hf⟩ | ⟨rest, herror⟩
  · exact ⟨f, by rw [readAll, hf]⟩
  · exact absurd rfl (readFormula_fault herror).1

end Clausification.Reader

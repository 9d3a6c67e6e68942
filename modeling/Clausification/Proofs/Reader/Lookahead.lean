import Clausification.Proofs.Reader.Prefixes

/-!
# One token of lookahead

Where a formula ends depends on its own tokens and on the kind of the token behind it, on nothing
further on. The search for arguments behind a name looks at more tokens than one, but where a
formula is read in the end they all belong to it. The invariant cuts the tokens of a run in two: the
sentence that is the next operand, which settles how many of the names in front of it are variables,
and what completes it.
-/

namespace Clausification.Reader

/-- Tokens of one kind come next, or no tokens. -/
def SameNext (ts us : List Token) : Prop := ts.head?.map (·.kind) = us.head?.map (·.kind)

variable {ts us rest rest' : List Token} {d : Nat} {s : Stacks} {f : Formula}

namespace SameNext

theorem append_left (ts : List Token) (h : SameNext rest rest') :
    SameNext (ts ++ rest) (ts ++ rest') := by
  cases ts with
  | nil => exact h
  | cons t ts => rfl

theorem endsOperand_eq (h : SameNext rest rest') : endsOperand rest' = endsOperand rest := by
  rcases rest with _ | ⟨⟨k, x, o⟩, ts⟩ <;> rcases rest' with _ | ⟨⟨k', x', o'⟩, ts'⟩
  · rfl
  · cases h
  · cases h
  · obtain rfl : k = k' := Option.some.inj h
    cases k <;> rfl

theorem exists_cons {k : TokenKind} {x : String} {o : Nat} (h : SameNext rest (⟨k, x, o⟩ :: us)) :
    ∃ y n ts, rest = ⟨k, y, n⟩ :: ts := by
  rcases rest with _ | ⟨⟨k', y, n⟩, ts⟩
  · cases h
  · obtain rfl : k' = k := Option.some.inj h
    exact ⟨y, n, ts, rfl⟩

theorem notOpening (h : SameNext rest rest') (hrest : NotOpening rest) : NotOpening rest' := by
  rintro x o us rfl
  obtain ⟨y, n, ts, rfl⟩ := h.exists_cons
  exact hrest y n ts rfl

end SameNext

/-- In a group that is closed, whether names between commas fill it does not depend on what
follows. -/
theorem Sentence.closesAfterNames_congr (h : Sentence ts) {x : String} {o : Nat}
    (rest rest' : List Token) : closesAfterNames (ts ++ ⟨.closing, x, o⟩ :: rest) =
      closesAfterNames (ts ++ ⟨.closing, x, o⟩ :: rest') := by
  rw [Bool.eq_iff_iff]
  constructor <;>
  · intro hcloses
    obtain ⟨y, n, rfl⟩ := h.eq_singleton hcloses
    rfl

theorem Sentence.startsArguments_congr (h : Sentence ts) (rest rest' : List Token) :
    startsArguments (ts ++ rest) = startsArguments (ts ++ rest') := by
  induction h generalizing rest rest' with
  | atom | not | quant | dotted => rfl
  | group x o y n h _ =>
    simp only [List.cons_append, List.append_assoc]
    rw [startsArguments_opening (h.startsBody rfl), startsArguments_opening (h.startsBody rfl)]
    exact h.closesAfterNames_congr rest rest'
  | binary c x o _ _ ihl _ =>
    simp only [List.append_assoc]
    exact ihl _ _

/-- A name that is a sentence is not followed by an opening parenthesis. -/
def NotApplied (us rest : List Token) : Prop :=
  ∀ x o, us = [⟨.ident, x, o⟩] → NotOpening rest

theorem startsArguments_of_notOpening (h : NotOpening ts) : startsArguments ts = false := by
  rcases ts with _ | ⟨⟨k, x, o⟩, ts⟩
  · rfl
  · refine startsArguments_cons fun hk => ?_
    obtain rfl : k = .opening := hk
    exact h x o ts rfl

theorem Sentence.startsBody_congr (h : Sentence us) (hnext : SameNext rest rest')
    (hus : NotApplied us rest) (hbody : StartsBody (us ++ rest)) : StartsBody (us ++ rest') := by
  induction h generalizing rest rest' with
  | atom x o h =>
    cases h with
    | bare =>
      have hargs := startsArguments_of_notOpening (hus x o rfl)
      cases hbody with
      | applied _ _ h => exact absurd (hargs.symm.trans h) (by simp)
      | bare _ _ h => exact .bare x o (hnext.endsOperand_eq.trans h)
    | empty => exact .applied x o rfl
    | applied y n h => exact .applied x o (h.startsArguments_eq rest')
  | not x o _ _ => exact .not x o _
  | quant q w m x o _ _ _ => exact .quant q w m _
  | dotted q w m x o y n _ _ _ => exact .quant q w m _
  | group x o y n _ _ => exact .opening x o _
  | @binary c x o us vs _ _ ihl _ =>
    rw [List.append_assoc] at hbody ⊢
    have hsame : SameNext (⟨.binary c, x, o⟩ :: (vs ++ rest))
        (⟨.binary c, x, o⟩ :: (vs ++ rest')) := rfl
    refine ihl hsame (fun y n _ => ?_) hbody
    exact notOpening_of_endsOperand rfl

theorem Sentence.endsOperand_eq (h : Sentence ts) (rest : List Token) :
    endsOperand (ts ++ rest) = false := by
  induction h generalizing rest with
  | atom | not | quant | dotted | group => rfl
  | binary c x o _ _ ihl _ =>
    rw [List.append_assoc]
    exact ihl _

/-- A run that begins with an operand reads a sentence and what completes it, in front of the tokens
that are left and of all others that begin alike. -/
structure OperandRun (d : Nat) (s : Stacks) (f : Formula) (us cs rest : List Token) : Prop where
  sentence : Sentence us
  completes : Completes d cs
  notApplied : NotApplied us (cs ++ rest)
  reads : ∀ rest', SameNext rest rest' → readOperand d s (us ++ (cs ++ rest')) = .ok (f, rest')

/-- A run that begins behind an operand reads what completes it, in the same way. -/
structure OperatorRun (d : Nat) (s : Stacks) (f : Formula) (cs rest : List Token) : Prop where
  completes : Completes d cs
  reads : ∀ rest', SameNext rest rest' → readOperator d s (cs ++ rest') = .ok (f, rest')

theorem notApplied_cons {t : Token} (h : t.kind ≠ .ident) (us rest : List Token) :
    NotApplied (t :: us) rest := by
  intro x o hus
  obtain ⟨rfl, -⟩ := List.cons.inj hus
  exact absurd rfl h

section
variable {cs : List Token} (x : String) (o : Nat)

namespace OperandRun

theorem not (h : OperandRun d (s.push .not) f us cs rest) :
    OperandRun d s f (⟨.not, x, o⟩ :: us) cs rest where
  sentence := .not x o h.sentence
  completes := h.completes
  notApplied := notApplied_cons (by simp) _ _
  reads rest' hrest := by
    rw [List.cons_append, readOperand]
    exact h.reads rest' hrest

theorem binder (q : Quantifier) {names : List String}
    (hnames : binderNames x ts = .ok (names, us ++ (cs ++ rest)))
    (h : OperandRun d (s.push (.binder q names)) f us cs rest) :
    ∃ vs, ts = vs ++ (us ++ (cs ++ rest)) ∧
      OperandRun d s f (⟨.quant q, x, o⟩ :: (vs ++ us)) cs rest := by
  obtain ⟨vs, rfl, hvs, hbinder⟩ := exists_binderNames_append hnames (h.sentence.endsOperand_eq _)
  refine ⟨vs, rfl, h.sentence.under hvs q x o, h.completes, notApplied_cons (by simp) _ _, ?_⟩
  intro rest' hrest
  have hbody := h.sentence.startsBody_congr (hrest.append_left cs) h.notApplied
  have hargs := h.sentence.startsArguments_congr (cs ++ rest') (cs ++ rest)
  rw [List.cons_append, List.append_assoc, readOperand_quant (hbinder _ hbody hargs)]
  exact h.reads rest' hrest

theorem opening (h : OperandRun (d + 1) (s.push .opening) f us cs rest) :
    ∃ vs cs', us ++ cs = vs ++ cs' ∧ OperandRun d s f (⟨.opening, x, o⟩ :: vs) cs' rest := by
  obtain ⟨vs, y, n, cs', heq, hvs, hcs'⟩ := h.completes.exists_group h.sentence
  refine ⟨vs ++ [⟨.closing, y, n⟩], cs', by simpa using heq, .group x o y n hvs, hcs',
    notApplied_cons (by simp) _ _, ?_⟩
  intro rest' hrest
  have happend : vs ++ [⟨.closing, y, n⟩] ++ (cs' ++ rest') = us ++ (cs ++ rest') := by
    rw [← List.append_assoc us, heq]
    simp
  rw [List.cons_append, happend, readOperand]
  exact h.reads rest' hrest

theorem atom {a : Atom} (hatom : atomAfter x ts = .ok (a, cs ++ rest))
    (h : OperatorRun d (s.pushOperand (.atom a)) f cs rest) :
    ∃ us, ts = us ++ (cs ++ rest) ∧ OperandRun d s f (⟨.ident, x, o⟩ :: us) cs rest := by
  obtain ⟨xs, us, rfl, rfl, hus⟩ := exists_of_atomAfter hatom
  have hopening : us = [] → NotOpening (cs ++ rest) := by
    rintro rfl
    exact notOpening_of_atomAfter hatom
  refine ⟨us, rfl, .atom x o hus, h.completes, fun y n heq => hopening (List.cons.inj heq).2, ?_⟩
  intro rest' hrest
  have hread : atomAfter x (us ++ (cs ++ rest')) = .ok (⟨x, xs.map .var⟩, cs ++ rest') :=
    hus.atomAfter_append fun hnil => (hrest.append_left cs).notOpening (hopening hnil)
  rw [List.cons_append, readOperand_ident hread]
  exact h.reads rest' hrest

end OperandRun

namespace OperatorRun
variable {s' s'' : Stacks}

theorem binary {c : Connective} (hclose : Stacks.closePrefixes s.pending s.operands = some s')
    (hreduce : s'.reduceFor c = some s'') (h : OperandRun d s'' f us cs rest) :
    OperatorRun d s f (⟨.binary c, x, o⟩ :: (us ++ cs)) rest where
  completes := .binary c x o h.sentence h.completes
  reads rest' hrest := by
    rw [List.cons_append, List.append_assoc, readOperator_binary hclose hreduce]
    exact h.reads rest' hrest

theorem closing (hclose : Stacks.closePrefixes s.pending s.operands = some s')
    (hgroup : s'.closeGroup = some s'') (h : OperatorRun d s'' f cs rest) :
    OperatorRun (d + 1) s f (⟨.closing, x, o⟩ :: cs) rest where
  completes := .closing x o h.completes
  reads rest' hrest := by
    rw [List.cons_append, readOperator]
    simp only [hclose, hgroup]
    exact h.reads rest' hrest

theorem stop {ps : List Pending} {fs : List Formula}
    (hclose : Stacks.closePrefixes s.pending s.operands = some s')
    (hreduce : s'.reduceGroup = some ⟨ps, f :: fs⟩) (hrest : Follows 0 rest) :
    OperatorRun 0 s f [] rest where
  completes := .nil
  reads rest' hnext := by
    rw [List.nil_append, readOperator]
    simp only [hclose, hreduce]
    rcases rest' with _ | ⟨⟨k, x, o⟩, ts⟩
    · rfl
    · cases k with
      | binary c =>
        obtain ⟨y, n, us, rfl⟩ := hnext.exists_cons
        exact absurd (hrest c y n us rfl) (Nat.not_lt_zero _)
      | _ => rfl

end OperatorRun

end

/-- Reading on at the tokens looks at one token more than it reads. -/
structure LooksAhead (ts : List Token) : Prop where
  operand : ∀ {d s f rest}, readOperand d s ts = .ok (f, rest) →
    ∃ us cs, ts = us ++ (cs ++ rest) ∧ OperandRun d s f us cs rest
  operator : ∀ {d s f rest}, readOperator d s ts = .ok (f, rest) →
    ∃ cs, ts = cs ++ rest ∧ OperatorRun d s f cs rest

section
variable (ih : ∀ us, us.length < ts.length → LooksAhead us)
include ih

theorem exists_operandRun (h : readOperand d s ts = .ok (f, rest)) :
    ∃ us cs, ts = us ++ (cs ++ rest) ∧ OperandRun d s f us cs rest := by
  unfold readOperand at h
  split at h
  · rename_i x o ts
    obtain ⟨us, cs, rfl, hrun⟩ := (ih ts (by simp)).operand h
    exact ⟨_, cs, rfl, hrun.not x o⟩
  · rename_i q w m ts
    split at h
    · rename_i names behind hnames
      have hlt := Nat.lt_succ_of_lt (binderNames_length hnames)
      obtain ⟨us, cs, rfl, hrun⟩ := (ih behind hlt).operand h
      obtain ⟨vs, rfl, hrun⟩ := OperandRun.binder w m q hnames hrun
      exact ⟨_, cs, by simp, hrun⟩
    · cases h
  · rename_i x o ts
    obtain ⟨us, cs, rfl, hrun⟩ := (ih ts (by simp)).operand h
    obtain ⟨vs, cs', heq, hrun⟩ := hrun.opening x o
    exact ⟨_, cs', by rw [← List.append_assoc us, heq]; simp, hrun⟩
  · rename_i predicate o ts
    split at h
    · rename_i a behind hatom
      have hlt := Nat.lt_succ_of_le (atomAfter_length hatom)
      obtain ⟨cs, rfl, hrun⟩ := (ih behind hlt).operator h
      obtain ⟨us, rfl, hrun⟩ := OperandRun.atom predicate o hatom hrun
      exact ⟨_, cs, rfl, hrun⟩
    · cases h
  · cases h

theorem exists_operatorRun (h : readOperator d s ts = .ok (f, rest)) :
    ∃ cs, ts = cs ++ rest ∧ OperatorRun d s f cs rest := by
  unfold readOperator at h
  split at h
  · cases h
  rename_i s' hclose
  split at h
  · rename_i c x o ts
    split at h
    · rename_i hreduce
      obtain ⟨us, cs, rfl, hrun⟩ := (ih ts (by simp)).operand h
      exact ⟨_, by simp, .binary x o hclose hreduce hrun⟩
    · cases h
  · rename_i x o ts
    split at h
    · rename_i hgroup
      obtain ⟨cs, rfl, hrun⟩ := (ih ts (by simp)).operator h
      exact ⟨_, rfl, .closing x o hclose hgroup hrun⟩
    · cases h
  · cases h
  · rename_i hbinary
    split at h
    · rename_i hreduce
      obtain ⟨rfl, rfl⟩ := Prod.mk.inj (Except.ok.inj h)
      exact ⟨[], rfl, .stop hclose hreduce fun c x o us hts => absurd hts (hbinary c x o us)⟩
    · cases h

end

theorem looksAhead (ts : List Token) : LooksAhead ts := by
  have ih : ∀ us, us.length < ts.length → LooksAhead us := fun us _ => looksAhead us
  exact ⟨exists_operandRun ih, exists_operatorRun ih⟩
termination_by ts.length

/-- A formula is read in front of whatever begins with the same kind of token. -/
theorem exists_readFormula_append (h : readFormula ts = .ok (f, rest)) :
    ∃ us, ts = us ++ rest ∧
      ∀ rest', SameNext rest rest' → readFormula (us ++ rest') = .ok (f, rest') := by
  obtain ⟨us, cs, rfl, hrun⟩ := (looksAhead ts).operand h
  refine ⟨us ++ cs, (List.append_assoc _ _ _).symm, fun rest' hrest => ?_⟩
  rw [List.append_assoc]
  exact hrun.reads rest' hrest

/-- Formulas that are read one behind the other, and the tokens left over. -/
inductive ReadsInRow : List Token → List Formula → List Token → Prop
  | done (ts : List Token) : ReadsInRow ts [] ts
  | next {ts behind rest : List Token} {f : Formula} {fs : List Formula}
    (h : readFormula ts = .ok (f, behind)) (hrow : ReadsInRow behind fs rest) :
    ReadsInRow ts (f :: fs) rest

theorem ReadsInRow.length_le {fs : List Formula} (h : ReadsInRow ts fs rest) :
    fs.length + rest.length ≤ ts.length := by
  induction h with
  | done ts => simp
  | next h _ ih =>
    have hlt := (readFormula_rest h).1
    rw [List.length_cons]
    omega

theorem exists_readsInRow (ts : List Token) :
    ∃ fs rest e, ReadsInRow ts fs rest ∧ readFormula rest = .error e := by
  cases h : readFormula ts with
  | error e => exact ⟨[], ts, e, .done ts, h⟩
  | ok p =>
    obtain ⟨f, behind⟩ := p
    have hlt := (readFormula_rest h).1
    obtain ⟨fs, rest, e, hrow, he⟩ := exists_readsInRow behind
    exact ⟨f :: fs, rest, e, .next h hrow, he⟩
termination_by ts.length

/-- A formula that is read from some position on ends further on, at most at the end of the tokens,
and is read up to there from all tokens that are the same in front of that position and go on there
with a token of the same kind, or end there as well. So only as many formulas can be read in a row
as there are tokens, and then there is a fault. -/
theorem formulas_need_one_token_of_lookahead (ts : List Token) (start : Nat) :
    (∀ f rest, readFormula (ts.drop start) = .ok (f, rest) →
      ∃ stop, start < stop ∧ stop ≤ ts.length ∧ rest = ts.drop stop ∧
        ∀ us : List Token, us.take stop = ts.take stop →
          us[stop]?.map (·.kind) = ts[stop]?.map (·.kind) →
          readFormula (us.drop start) = .ok (f, us.drop stop)) ∧
      (∀ fs rest, ReadsInRow (ts.drop start) fs rest →
        fs.length + rest.length ≤ (ts.drop start).length) ∧
      ∃ fs rest e, ReadsInRow (ts.drop start) fs rest ∧ readFormula rest = .error e := by
  refine ⟨fun f rest h => ?_, fun fs rest hrow => hrow.length_le, exists_readsInRow _⟩
  have hlt := (readFormula_rest h).1
  obtain ⟨vs, hvs, hreads⟩ := exists_readFormula_append h
  have hlength := congrArg List.length hvs
  simp only [List.length_drop, List.length_append] at hlt hlength
  have hrest : rest = ts.drop (start + vs.length) := by
    rw [← List.drop_drop, hvs, List.drop_left]
  refine ⟨start + vs.length, by omega, by omega, hrest, fun us hus hkind => ?_⟩
  have htake : (us.drop start).take vs.length = vs := by
    rw [List.take_drop, hus, ← List.take_drop, hvs, List.take_left]
  have hsplit := List.take_append_drop vs.length (us.drop start)
  rw [htake, List.drop_drop] at hsplit
  rw [← hsplit]
  refine hreads _ ?_
  rw [SameNext, hrest, List.head?_drop, List.head?_drop, hkind]

/-- The arguments of `P` are looked for in front of the variables, and belong to the formula. Where
it ends, another closing parenthesis may stand, with anything behind it. -/
theorem formulas_need_one_token_of_lookahead_of_arguments :
    let formula : List Token := [⟨.quant .all, "∀", 0⟩, ⟨.ident, "x", 1⟩, ⟨.ident, "P", 3⟩,
      ⟨.opening, "(", 4⟩, ⟨.ident, "a", 5⟩, ⟨.closing, ")", 6⟩]
    let ts := ⟨.opening, "(", 0⟩ :: formula ++ [⟨.closing, ")", 7⟩]
    let us := ⟨.opening, "(", 0⟩ :: formula ++ [⟨.closing, ")", 9⟩, ⟨.ident, "b", 10⟩]
    let f : Formula := .all "x" (.atom ⟨"P", [.var "a"]⟩)
    readFormula (ts.drop 1) = .ok (f, ts.drop 7) ∧
      readFormula (us.drop 1) = .ok (f, us.drop 7) := by
  intro formula ts us f
  have h : readFormula (ts.drop 1) = .ok (f, ts.drop 7) := by cbv
  obtain ⟨stop, hlt, hle, hrest, hread⟩ := (formulas_need_one_token_of_lookahead ts 1).1 f _ h
  obtain rfl : stop = 7 := by
    have hlength := congrArg List.length hrest
    simp only [List.length_drop, ts, formula, List.length_cons, List.length_append,
      List.length_nil] at hlength hle
    omega
  exact ⟨h, hread us rfl rfl⟩

end Clausification.Reader

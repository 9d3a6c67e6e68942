import Clausification.Proofs.Reader.Sentences

/-!
# What is read before a fault

The tokens in front of a fault are the beginning of a sentence. What has been read may be taken in
another way once other tokens follow it, so the invariant does not speak of the stacks. It says that
any sentence in the place of the next operand, with the open groups closed behind it, makes a
sentence of all tokens.
-/

namespace Clausification.Reader

/-- Behind an operand the tokens go on to the end of a sentence, and close as many groups. -/
inductive Completes : Nat → List Token → Prop
  | nil : Completes 0 []
  | closing (x : String) (o : Nat) {d : Nat} {ts : List Token} (h : Completes d ts) :
    Completes (d + 1) (⟨.closing, x, o⟩ :: ts)
  | binary (c : Connective) (x : String) (o : Nat) {d : Nat} {us ts : List Token}
    (hus : Sentence us) (hts : Completes d ts) : Completes d (⟨.binary c, x, o⟩ :: (us ++ ts))

/-- Whatever sentence is the next operand, and whatever completes it, all tokens make a sentence. -/
def AwaitsOperand (d : Nat) (read : List Token) : Prop :=
  ∀ us ts, Sentence us → Completes d ts → Sentence (read ++ (us ++ ts))

/-- Whatever completes the operand that has been read, all tokens make a sentence. -/
def AwaitsOperator (d : Nat) (read : List Token) : Prop :=
  ∀ ts, Completes d ts → Sentence (read ++ ts)

variable {d : Nat} {ts us read rest : List Token}

theorem exists_completes (d : Nat) : ∃ ts, Completes d ts := by
  induction d with
  | zero => exact ⟨[], .nil⟩
  | succ d ih =>
    obtain ⟨ts, hts⟩ := ih
    exact ⟨_, .closing ")" 0 hts⟩

theorem Completes.sentence (h : Completes 0 ts) (hus : Sentence us) : Sentence (us ++ ts) := by
  generalize hd : 0 = d at h
  induction h generalizing us with
  | nil => rwa [List.append_nil]
  | closing => cases hd
  | @binary c x o d vs ts hvs _ ih =>
    have := ih (.binary c x o hus hvs) hd
    rwa [List.append_assoc] at this

/-- The innermost group ends with the first parenthesis that belongs to it. -/
theorem Completes.exists_group (h : Completes (d + 1) ts) (hus : Sentence us) :
    ∃ vs x o rest, us ++ ts = vs ++ ⟨.closing, x, o⟩ :: rest ∧ Sentence vs ∧ Completes d rest := by
  generalize hd : d + 1 = n at h
  induction h generalizing us with
  | nil => cases hd
  | @closing x o n ts h =>
    obtain rfl := Nat.succ.inj hd
    exact ⟨us, x, o, ts, rfl, hus, h⟩
  | @binary c x o n vs ts hvs _ ih =>
    obtain ⟨ws, y, m, rest, heq, hws, hrest⟩ := ih (.binary c x o hus hvs) hd
    refine ⟨ws, y, m, rest, ?_, hws, hrest⟩
    rw [← heq, List.append_assoc, List.cons_append]

namespace AwaitsOperand

theorem start : AwaitsOperand 0 [] := fun _ _ hus hts => hts.sentence hus

theorem not (h : AwaitsOperand d read) (x : String) (o : Nat) :
    AwaitsOperand d (read ++ [⟨.not, x, o⟩]) := by
  intro us ts hus hts
  rw [List.append_assoc]
  exact h _ ts (.not x o hus) hts

theorem binder (h : AwaitsOperand d read) {q : Quantifier} {w : String} {m : Nat}
    {names : List String} (hnames : binderNames w ts = .ok (names, rest)) :
    ∃ us, ts = us ++ rest ∧ AwaitsOperand d (read ++ ⟨.quant q, w, m⟩ :: us) := by
  obtain ⟨vs, rfl, hvs⟩ := exists_of_binderNames hnames
  refine ⟨vs, rfl, fun us ts hus hts => ?_⟩
  have := h _ ts (hus.under hvs q w m) hts
  simpa using this

theorem opening (h : AwaitsOperand d read) (x : String) (o : Nat) :
    AwaitsOperand (d + 1) (read ++ [⟨.opening, x, o⟩]) := by
  intro us ts hus hts
  obtain ⟨vs, y, n, rest, heq, hvs, hrest⟩ := hts.exists_group hus
  have := h _ rest (.group x o y n hvs) hrest
  rw [heq]
  simpa using this

theorem operand (h : AwaitsOperand d read) (hus : Sentence us) : AwaitsOperator d (read ++ us) := by
  intro ts hts
  rw [List.append_assoc]
  exact h us ts hus hts

theorem exists_sentence (h : AwaitsOperand d read) (hus : Sentence us) :
    ∃ ts, Sentence (read ++ (us ++ ts)) := by
  obtain ⟨ts, hts⟩ := exists_completes d
  exact ⟨ts, h us ts hus hts⟩

end AwaitsOperand

namespace AwaitsOperator

theorem binary (h : AwaitsOperator d read) (c : Connective) (x : String) (o : Nat) :
    AwaitsOperand d (read ++ [⟨.binary c, x, o⟩]) := by
  intro us ts hus hts
  rw [List.append_assoc]
  exact h (⟨.binary c, x, o⟩ :: (us ++ ts)) (.binary c x o hus hts)

theorem closing (h : AwaitsOperator (d + 1) read) (x : String) (o : Nat) :
    AwaitsOperator d (read ++ [⟨.closing, x, o⟩]) := by
  intro ts hts
  rw [List.append_assoc]
  exact h _ (.closing x o hts)

end AwaitsOperator

/-- What comes of reading on at `ts` behind the tokens that have been read: all tokens up to where a
formula ends make a sentence, and all tokens up to a fault begin one. -/
def Viable (read ts : List Token) : Except Fault (Formula × List Token) → Prop
  | .ok (_, rest) => ∃ us, ts = us ++ rest ∧ Sentence (read ++ us)
  | .error e => e.expected ≠ .operand → ∃ us vs, ts = us ++ e.rest ∧ Sentence (read ++ (us ++ vs))

theorem Viable.behind {x : Except Fault (Formula × List Token)} (h : Viable (read ++ us) ts x) :
    Viable read (us ++ ts) x := by
  cases x with
  | ok p =>
    obtain ⟨vs, rfl, hvs⟩ := h
    exact ⟨us ++ vs, (List.append_assoc _ _ _).symm, by rwa [List.append_assoc] at hvs⟩
  | error e =>
    intro he
    obtain ⟨vs, ws, rfl, hvs⟩ := h he
    exact ⟨us ++ vs, ws, (List.append_assoc _ _ _).symm, by simpa using hvs⟩

structure ReadsViably (ts : List Token) : Prop where
  operand : ∀ {d s read}, AwaitsOperand d read → Viable read ts (readOperand d s ts)
  operator : ∀ {d s read}, AwaitsOperator d read → Viable read ts (readOperator d s ts)

section
variable {s : Stacks} (ih : ∀ us, us.length < ts.length → ReadsViably us)
include ih

theorem viable_readOperand (h : AwaitsOperand d read) : Viable read ts (readOperand d s ts) := by
  unfold readOperand
  split
  · rename_i x o rest
    exact ((ih rest (by simp)).operand (h.not x o)).behind
  · rename_i q w m rest
    split
    · rename_i names rest' hnames
      have hlt := Nat.lt_succ_of_lt (binderNames_length hnames)
      obtain ⟨us, rfl, hus⟩ := h.binder (q := q) (m := m) hnames
      exact ((ih rest' hlt).operand hus).behind
    · rename_i e hnames
      obtain rfl := Grammar.binderNames_error hnames
      intro _
      -- any variable and any body complete the quantifier
      obtain ⟨vs, hvs⟩ := h.exists_sentence
        (.quant q w m "x" 0 identifiers_nil (.atom "p" 0 .bare))
      exact ⟨[⟨.quant q, w, m⟩], _, rfl, hvs⟩
  · rename_i x o rest
    exact ((ih rest (by simp)).operand (h.opening x o)).behind
  · rename_i predicate o rest
    split
    · rename_i a rest' hatom
      have hlt := Nat.lt_succ_of_le (atomAfter_length hatom)
      obtain ⟨xs, us, rfl, -, hus⟩ := exists_of_atomAfter hatom
      exact ((ih rest' hlt).operator (h.operand (.atom predicate o hus))).behind
    · rename_i e hatom
      intro _
      obtain ⟨xs, us, vs, rfl, hus⟩ := exists_of_atomAfter_error hatom
      obtain ⟨ws, hws⟩ := h.exists_sentence (.atom predicate o hus)
      exact ⟨⟨.ident, predicate, o⟩ :: us, vs ++ ws, rfl, by simpa using hws⟩
  · intro _
    obtain ⟨vs, hvs⟩ := h.exists_sentence (.atom "p" 0 .bare)
    exact ⟨[], _, rfl, hvs⟩

theorem viable_readOperator (h : AwaitsOperator d read) :
    Viable read ts (readOperator d s ts) := by
  unfold readOperator
  split
  · exact fun he => absurd rfl he
  split
  · rename_i c x o rest
    split
    · exact ((ih rest (by simp)).operand (h.binary c x o)).behind
    · exact fun he => absurd rfl he
  · rename_i x o rest
    split
    · exact ((ih rest (by simp)).operator (h.closing x o)).behind
    · exact fun he => absurd rfl he
  · intro _
    obtain ⟨vs, hvs⟩ := exists_completes _
    exact ⟨[], vs, rfl, h vs hvs⟩
  · split
    · exact ⟨[], rfl, h [] .nil⟩
    · exact fun he => absurd rfl he

end

theorem readsViably (ts : List Token) : ReadsViably ts := by
  have ih : ∀ us, us.length < ts.length → ReadsViably us := fun us _ => readsViably us
  exact ⟨viable_readOperand ih, viable_readOperator ih⟩
termination_by ts.length

theorem viable_readFormula (ts : List Token) : Viable [] ts (readFormula ts) :=
  (readsViably ts).operand .start

theorem sentence_of_readAll {f : Formula} (h : readAll ts = .ok f) : Sentence ts := by
  have hviable := viable_readFormula ts
  unfold readAll at h
  split at h
  · rename_i hread
    rw [hread] at hviable
    obtain ⟨us, rfl, hus⟩ := hviable
    rwa [List.append_nil]
  · cases h
  · cases h

theorem exists_readAll_iff : (∃ f, readAll ts = .ok f) ↔ Sentence ts :=
  ⟨fun ⟨_, h⟩ => sentence_of_readAll h, Sentence.exists_readAll⟩

/-- The tokens in front of the one that is blamed, or all tokens if the end of the input is to blame,
can be completed to tokens that are read. -/
theorem faults_leave_viable_prefixes (ts : List Token) (e : Fault) (h : readAll ts = .error e) :
    ∃ blamed, blamed ≤ ts.length ∧ e.rest = ts.drop blamed ∧
      ∃ us f, readAll (ts.take blamed ++ us) = .ok f := by
  suffices hprefix : ∃ us vs, ts = us ++ e.rest ∧ Sentence (us ++ vs) by
    obtain ⟨us, vs, rfl, hus⟩ := hprefix
    exact ⟨us.length, by simp, by simp, vs, by simpa using hus.exists_readAll⟩
  have hviable := viable_readFormula ts
  unfold readAll at h
  split at h
  · cases h
  · rename_i f rest _ hread
    rw [hread] at hviable
    obtain rfl := Except.error.inj h
    obtain ⟨us, rfl, hus⟩ := hviable
    exact ⟨us, [], rfl, by simpa using hus⟩
  · rename_i e' hread
    rw [hread] at hviable
    obtain rfl := Except.error.inj h
    exact hviable (readFormula_fault hread).1

/-- In front of the comma `P` has been read as a variable. With a parenthesis in the place of the comma
it would be a predicate. -/
theorem faults_leave_viable_prefixes_of_retaken_name :
    let ts : List Token := [⟨.quant .all, "∀", 0⟩, ⟨.ident, "x", 1⟩, ⟨.ident, "P", 3⟩,
      ⟨.opening, "(", 5⟩, ⟨.ident, "a", 6⟩, ⟨.comma, ",", 7⟩, ⟨.not, "¬", 9⟩]
    readAll ts = .error ⟨.closing, ts.drop 5⟩ ∧ ∃ us f, readAll (ts.take 5 ++ us) = .ok f := by
  intro ts
  have h : readAll ts = .error ⟨.closing, ts.drop 5⟩ := by cbv
  obtain ⟨blamed, hle, hrest, hprefix⟩ := faults_leave_viable_prefixes ts _ h
  obtain rfl : blamed = 5 := by
    have hlength := congrArg List.length hrest
    simp only [List.length_drop, ts, List.length_cons, List.length_nil] at hlength hle
    omega
  exact ⟨h, hprefix⟩

end Clausification.Reader

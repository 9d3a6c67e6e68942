import Clausification.Proofs.Reader.Grammar

/-!
# The stacks follow the grammar

Reading a layer of the grammar leaves one more operand on the stacks, whatever lies below it, as long
as what is pending on top waits for that layer. Then only looser connectives can follow, so a
connective whose right operand has just been read is applied in any case.
-/

namespace Clausification.Reader

/-- What is pending on top waits for all connectives of some strength. Nothing tells a negation or a
quantifier to wait for a connective. -/
def Admits (k : Nat) : List Pending → Prop
  | [] | .opening :: _ => True
  | .binary c :: _ => ∀ c', k ≤ strength c' → waitsFor c c'
  | .not :: _ | .binder .. :: _ => 4 < k

/-- No connective of some strength comes next. -/
def Follows (k : Nat) (ts : List Token) : Prop :=
  ∀ c x o rest, ts = ⟨.binary c, x, o⟩ :: rest → strength c < k

theorem strength_pos (c : Connective) : 0 < strength c := by
  cases c <;> decide

theorem strength_le (c : Connective) : strength c ≤ 4 := by
  cases c <;> decide

theorem strength_injective {c c' : Connective} (h : strength c = strength c') : c = c' := by
  cases c <;> cases c' <;> first | rfl | exact absurd h (by decide)

theorem Follows.of_ne {c : Connective} {ts : List Token} (h : Follows (strength c + 1) ts)
    (hts : ∀ x o rest, ts ≠ ⟨.binary c, x, o⟩ :: rest) : Follows (strength c) ts := by
  intro c' x o rest he
  have hne : strength c' ≠ strength c := fun heq =>
    hts x o rest (by rw [he, strength_injective heq])
  have := h c' x o rest he
  omega

theorem Admits.mono {k k' : Nat} {ps : List Pending} (h : Admits k ps) (hk : k ≤ k') :
    Admits k' ps := by
  match ps, h with
  | [], _ | .opening :: _, _ => trivial
  | .binary c :: _, h => exact fun c' hc' => h c' (Nat.le_trans hk hc')
  | .not :: _, h | .binder .. :: _, h => exact Nat.lt_of_lt_of_le h hk

theorem admits_unary (ps : List Pending) : Admits 5 ps := by
  match ps with
  | [] | .opening :: _ => trivial
  | .binary c :: _ => exact fun c' hc' => absurd (strength_le c') (by omega)
  | .not :: _ | .binder .. :: _ => exact Nat.lt_succ_self 4

theorem admits_binary_of_right {c : Connective} (hc : groupsRight c = true) (ps : List Pending) :
    Admits (strength c) (.binary c :: ps) := by
  intro c' hc'
  rcases Nat.lt_or_eq_of_le hc' with h | h
  · simp [waitsFor, h]
  · rw [← strength_injective h]
    simp [waitsFor, hc]

theorem admits_binary (c : Connective) (ps : List Pending) :
    Admits (strength c + 1) (.binary c :: ps) := by
  intro c' hc'
  simp [waitsFor, Nat.lt_of_succ_le hc']

theorem closePrefixes_of_admits {k : Nat} {ps : List Pending} (h : Admits k ps) (hk : k ≤ 4)
    (fs : List Formula) : Stacks.closePrefixes ps fs = some ⟨ps, fs⟩ := by
  match ps, h with
  | [], _ | .opening :: _, _ | .binary _ :: _, _ => rfl
  | .not :: _, h | .binder .. :: _, h => exact absurd h (Nat.not_lt_of_le hk)

section
variable {d : Nat} {s s' t t' : Stacks} {ts rest : List Token} {x : String} {o : Nat} {e : Fault}

theorem readOperand_quant {q : Quantifier} {names : List String}
    (h : binderNames x ts = .ok (names, rest)) :
    readOperand d s (⟨.quant q, x, o⟩ :: ts) = readOperand d (s.push (.binder q names)) rest := by
  rw [readOperand]
  split
  · rename_i h'
    cases h.symm.trans h'
    rfl
  · rename_i h'
    cases h.symm.trans h'

theorem readOperand_quant_error {q : Quantifier} (h : binderNames x ts = .error e) :
    readOperand d s (⟨.quant q, x, o⟩ :: ts) = .error e := by
  rw [readOperand]
  split
  · rename_i h'
    cases h.symm.trans h'
  · rename_i h'
    cases h.symm.trans h'
    rfl

theorem readOperand_ident {a : Atom} (h : atomAfter x ts = .ok (a, rest)) :
    readOperand d s (⟨.ident, x, o⟩ :: ts) = readOperator d (s.pushOperand (.atom a)) rest := by
  rw [readOperand]
  split
  · rename_i h'
    cases h.symm.trans h'
    rfl
  · rename_i h'
    cases h.symm.trans h'

theorem readOperand_ident_error (h : atomAfter x ts = .error e) :
    readOperand d s (⟨.ident, x, o⟩ :: ts) = .error e := by
  rw [readOperand]
  split
  · rename_i h'
    cases h.symm.trans h'
  · rename_i h'
    cases h.symm.trans h'
    rfl

theorem readOperator_binary {c : Connective} {x : String} {o : Nat}
    (ht : Stacks.closePrefixes s.pending s.operands = some t) (ht' : t.reduceFor c = some t') :
    readOperator d s (⟨.binary c, x, o⟩ :: ts) = readOperand d t' ts := by
  rw [readOperator]
  simp only [ht]
  cases d <;> simp only [ht']

/-- The next step depends only on what is left when the prefixes are closed and the connectives
applied that do not wait. -/
theorem readOperator_congr (ht : Stacks.closePrefixes s.pending s.operands = some t)
    (ht' : Stacks.closePrefixes s'.pending s'.operands = some t')
    (hfor : ∀ c x o rest, ts = ⟨.binary c, x, o⟩ :: rest → t.reduceFor c = t'.reduceFor c)
    (hgroup : t.reduceGroup = t'.reduceGroup) : readOperator d s ts = readOperator d s' ts := by
  rw [readOperator, readOperator]
  simp only [ht, ht', Stacks.closeGroup, hgroup]
  rcases ts with _ | ⟨⟨k, x, o⟩, ts⟩
  · cases d <;> rfl
  · cases k with
    | binary c => cases d <;> simp only [hfor c x o ts rfl]
    | _ => cases d <;> rfl

theorem reduceFor_of_admits {k : Nat} (h : Admits k s.pending) {c : Connective}
    (hc : k ≤ strength c) : s.reduceFor c = some (s.push (.binary c)) := by
  obtain ⟨ps, fs⟩ := s
  match ps, h with
  | [], _ | .opening :: _, _ | .not :: _, _ | .binder .. :: _, _ => rfl
  | .binary c' :: ps, h =>
    simp [Stacks.reduceFor, Stacks.reduce, h c hc]

/-- A connective is applied to its right operand if nothing follows that it waits for. -/
theorem readOperator_apply {k : Nat} {c : Connective} {l r : Formula} {ps : List Pending}
    {fs : List Formula} (hps : Admits k ps) (hk : k ≤ 4)
    (hts : ∀ c' x o rest, ts = ⟨.binary c', x, o⟩ :: rest → waitsFor c c' = false) :
    readOperator d ⟨.binary c :: ps, r :: l :: fs⟩ ts =
      readOperator d ⟨ps, .binary c l r :: fs⟩ ts := by
  refine readOperator_congr rfl (closePrefixes_of_admits hps hk _) (fun c' x o rest h => ?_) rfl
  rw [Stacks.reduceFor, Stacks.reduce, hts c' x o rest h]
  rfl

theorem readOperator_of_closePrefixes
    (h : Stacks.closePrefixes s.pending s.operands = Stacks.closePrefixes s'.pending s'.operands) :
    readOperator d s ts = readOperator d s' ts := by
  rw [readOperator, readOperator, h]

end

open Grammar (Parsed)

/-- A run on the stacks, started in front of some tokens, does what a rule of the grammar does: it
goes on with the formula as one more operand, or ends with the same fault. -/
structure Agrees (k : Nat) (run : Nat → Stacks → Except Fault (Formula × List Token))
    (ts : List Token) {n : Nat} (x : Except Fault (Parsed n)) : Prop where
  run_eq : ∀ d s, Admits k s.pending →
    run d s = x >>= fun r => readOperator d (s.pushOperand r.formula) r.rest
  follows : ∀ r, x = .ok r → Follows k r.rest ∧ r.rest <:+ ts
  fault : ∀ e, x = .error e → e.expected ≠ .operand ∧ e.rest <:+ ts

/-- Reading a layer from its beginning. -/
abbrev AgreesAt (k : Nat) (ts : List Token) (x : Except Fault (Parsed ts.length)) : Prop :=
  Agrees k (fun d s => readOperand d s ts) ts x

/-- Reading on behind the first operands of a layer. -/
abbrev AgreesBehind (k : Nat) {m n : Nat} (l : Parsed m) (x : Except Fault (Parsed n)) : Prop :=
  Agrees k (fun d s => readOperator d (s.pushOperand l.formula) l.rest) l.rest x

namespace Agrees
variable {k k' m n : Nat} {run : Nat → Stacks → Except Fault (Formula × List Token)}
  {ts : List Token}

theorem error {e : Fault} (hrun : ∀ d s, Admits k s.pending → run d s = .error e)
    (hexpected : e.expected ≠ .operand) (hrest : e.rest <:+ ts) :
    Agrees k run ts (.error e : Except Fault (Parsed n)) where
  run_eq := hrun
  follows := by
    rintro _ ⟨⟩
  fault := by
    rintro _ ⟨⟩
    exact ⟨hexpected, hrest⟩

theorem done {l : Parsed n} (h : Follows k l.rest) : AgreesBehind k l (.ok l) where
  run_eq _ _ _ := rfl
  follows := by
    rintro _ ⟨⟩
    exact ⟨h, List.suffix_refl _⟩
  fault := by
    rintro _ ⟨⟩

/-- A run that gets as far as a formula, and goes on behind it. -/
theorem goOn {l : Parsed m} {x : Except Fault (Parsed n)} (hx : AgreesBehind k l x)
    (hrun : ∀ d s, Admits k s.pending → run d s = readOperator d (s.pushOperand l.formula) l.rest)
    (hrest : l.rest <:+ ts) : Agrees k run ts x where
  run_eq d s hs := (hrun d s hs).trans (hx.run_eq d s hs)
  follows r hr := ⟨(hx.follows r hr).1, (hx.follows r hr).2.trans hrest⟩
  fault e he := ⟨(hx.fault e he).1, (hx.fault e he).2.trans hrest⟩

/-- A rule that goes on with another one behind its result. -/
theorem bind {x : Except Fault (Parsed m)} {g : Parsed m → Except Fault (Parsed n)}
    (hx : Agrees k' run ts x) (hk : k ≤ k') (hg : ∀ l, x = .ok l → AgreesBehind k l (g l)) :
    Agrees k run ts (x >>= g) := by
  cases x with
  | error e =>
    obtain ⟨hexpected, hrest⟩ := hx.fault e rfl
    exact error (fun d s hs => hx.run_eq d s (hs.mono hk)) hexpected hrest
  | ok l =>
    exact (hg l rfl).goOn (fun d s hs => hx.run_eq d s (hs.mono hk)) (hx.follows l rfl).2

/-- A connective behind an operand: its right operand is read, and it is applied. -/
theorem operator {c : Connective} {l : Parsed n} {x : String} {o : Nat} {rest : List Token}
    (hl : l.rest = ⟨.binary c, x, o⟩ :: rest) (hright : ∀ ps, Admits k' (.binary c :: ps))
    (happly : ∀ c', strength c' < k' → waitsFor c c' = false)
    {y : Except Fault (Parsed rest.length)} (hy : AgreesAt k' rest y)
    {g : Parsed rest.length → Except Fault (Parsed n)}
    (hg : ∀ r, y = .ok r →
      AgreesBehind (strength c) (r.under (.binary c l.formula) (l.tail_lt hl)) (g r)) :
    AgreesBehind (strength c) l (y >>= g) := by
  have hread : ∀ d (s : Stacks), Admits (strength c) s.pending →
      readOperator d (s.pushOperand l.formula) l.rest = y >>= fun r =>
        readOperator d ⟨.binary c :: s.pending, r.formula :: l.formula :: s.operands⟩ r.rest := by
    intro d s hs
    have hclosed : Stacks.closePrefixes s.pending (l.formula :: s.operands) =
        some (s.pushOperand l.formula) := closePrefixes_of_admits hs (strength_le c) _
    have hwaits := reduceFor_of_admits (s := s.pushOperand l.formula) hs (Nat.le_refl _)
    rw [hl, readOperator_binary hclosed hwaits]
    exact hy.run_eq d _ (hright _)
  have hrest : rest <:+ l.rest := hl ▸ List.suffix_cons _ _
  cases y with
  | error e =>
    obtain ⟨hexpected, hsuffix⟩ := hy.fault e rfl
    exact error hread hexpected (hsuffix.trans hrest)
  | ok r =>
    obtain ⟨hfollows, hsuffix⟩ := hy.follows r rfl
    refine (hg r rfl).goOn (fun d s hs => (hread d s hs).trans ?_) (hsuffix.trans hrest)
    exact readOperator_apply hs (strength_le c) fun c' z o' rest' h =>
      happly c' (hfollows c' z o' rest' h)

end Agrees

/-- A layer of operands between connectives that group to the left. -/
theorem agreesBehind_left {c : Connective} (hc : groupsRight c = false)
    {next : (ts : List Token) → Except Fault (Parsed ts.length)}
    {behind : {n : Nat} → Parsed n → Except Fault (Parsed n)}
    (hmore : ∀ {n : Nat} (l : Parsed n) {x o rest} (h : l.rest = ⟨.binary c, x, o⟩ :: rest),
      behind l = next rest >>= fun r => behind (r.under (.binary c l.formula) (l.tail_lt h)))
    (hend : ∀ {n : Nat} (l : Parsed n), (∀ x o rest, l.rest ≠ ⟨.binary c, x, o⟩ :: rest) →
      behind l = .ok l)
    {N : Nat} (hnext : ∀ ts, ts.length < N → AgreesAt (strength c + 1) ts (next ts)) {n : Nat}
    (l : Parsed n) (hN : l.rest.length ≤ N) (hl : Follows (strength c + 1) l.rest) :
    AgreesBehind (strength c) l (behind l) := by
  by_cases h : ∃ x o rest, l.rest = ⟨.binary c, x, o⟩ :: rest
  · obtain ⟨x, o, rest, h⟩ := h
    have hlt : rest.length < l.rest.length := by simp [h]
    rw [hmore l h]
    refine Agrees.operator h (admits_binary c) (fun c' hc' => ?_) (hnext rest (by omega)) ?_
    · rcases Nat.lt_or_eq_of_le (Nat.le_of_lt_succ hc') with hlt | heq
      · simp [waitsFor, Nat.not_lt_of_lt hlt, Nat.ne_of_gt hlt]
      · simp [strength_injective heq, waitsFor, hc]
    · intro r hr
      have := r.lt
      exact agreesBehind_left hc hmore hend hnext (r.under _ _) (show r.rest.length ≤ N by omega)
        ((hnext rest (by omega)).follows r hr).1
  · rw [hend l fun x o rest he => h ⟨x, o, rest, he⟩]
    exact Agrees.done (hl.of_ne fun x o rest he => h ⟨x, o, rest, he⟩)
termination_by l.rest.length
decreasing_by
  have := r.lt
  change r.rest.length < l.rest.length
  omega

/-- A layer of operands between connectives that group to the right. -/
theorem agreesBehind_right {c : Connective} (hc : groupsRight c = true)
    {rule : (ts : List Token) → Except Fault (Parsed ts.length)}
    {behind : {n : Nat} → Parsed n → Except Fault (Parsed n)}
    (hmore : ∀ {n : Nat} (l : Parsed n) {x o rest} (h : l.rest = ⟨.binary c, x, o⟩ :: rest),
      behind l = rule rest >>= fun r => .ok (r.under (.binary c l.formula) (l.tail_lt h)))
    (hend : ∀ {n : Nat} (l : Parsed n), (∀ x o rest, l.rest ≠ ⟨.binary c, x, o⟩ :: rest) →
      behind l = .ok l)
    {N : Nat} (hrule : ∀ ts, ts.length < N → AgreesAt (strength c) ts (rule ts)) {n : Nat}
    (l : Parsed n) (hN : l.rest.length ≤ N) (hl : Follows (strength c + 1) l.rest) :
    AgreesBehind (strength c) l (behind l) := by
  by_cases h : ∃ x o rest, l.rest = ⟨.binary c, x, o⟩ :: rest
  · obtain ⟨x, o, rest, h⟩ := h
    have hlt : rest.length < l.rest.length := by simp [h]
    have hrest := hrule rest (by omega)
    rw [hmore l h]
    refine Agrees.operator h (admits_binary_of_right hc) (fun c' hc' => ?_) hrest fun r hr => ?_
    · simp [waitsFor, Nat.not_lt_of_lt hc', Nat.ne_of_gt hc']
    · exact Agrees.done (hrest.follows r hr).1
  · rw [hend l fun x o rest he => h ⟨x, o, rest, he⟩]
    exact Agrees.done (hl.of_ne fun x o rest he => h ⟨x, o, rest, he⟩)

theorem follows_unary (ts : List Token) : Follows 5 ts :=
  fun c _ _ _ _ => Nat.lt_succ_of_le (strength_le c)

/-- A negation or a quantifier in front of a unary formula. -/
theorem agrees_of_prefix {p : Pending} {apply : Formula → Formula} {m n : Nat}
    {run : Nat → Stacks → Except Fault (Formula × List Token)} {ts rest : List Token}
    (hp : ∀ ps f fs, Stacks.closePrefixes (p :: ps) (f :: fs) =
      Stacks.closePrefixes ps (apply f :: fs))
    (hrun : ∀ d s, run d s = readOperand d (s.push p) rest) (hrest : rest <:+ ts) (h : m < n)
    {x : Except Fault (Parsed m)} (hx : Agrees 5 (fun d s => readOperand d s rest) rest x) :
    Agrees 5 run ts (x >>= fun f => .ok (f.under apply h)) := by
  have hread : ∀ d s, run d s = x >>= fun f =>
      readOperator d ((s.push p).pushOperand f.formula) f.rest :=
    fun d s => (hrun d s).trans (hx.run_eq d _ (admits_unary _))
  cases x with
  | error e =>
    obtain ⟨hexpected, hsuffix⟩ := hx.fault e rfl
    exact Agrees.error (fun d s _ => hread d s) hexpected (hsuffix.trans hrest)
  | ok f =>
    refine (Agrees.done (follows_unary _)).goOn (fun d s _ => (hread d s).trans ?_)
      ((hx.follows f rfl).2.trans hrest)
    exact readOperator_of_closePrefixes (hp _ _ _)

theorem not_follows_zero {c : Connective} {x : String} {o : Nat} {ts : List Token}
    (h : Follows 1 (⟨.binary c, x, o⟩ :: ts)) : False := by
  have hlt := h c x o ts rfl
  have hpos := strength_pos c
  omega

theorem readOperator_closing {d : Nat} {s : Stacks} {f : Formula} {x : String} {o : Nat}
    {ts : List Token} :
    readOperator (d + 1) ((s.push .opening).pushOperand f) (⟨.closing, x, o⟩ :: ts) =
      readOperator d (s.pushOperand f) ts := by
  rw [readOperator]
  rfl

theorem readOperator_unclosed {d : Nat} {s : Stacks} {f : Formula} {ts : List Token}
    (hts : Follows 1 ts) (hclosing : ∀ x o rest, ts ≠ ⟨.closing, x, o⟩ :: rest) :
    readOperator (d + 1) ((s.push .opening).pushOperand f) ts = .error ⟨.closing, ts⟩ := by
  rw [readOperator]
  rcases ts with _ | ⟨⟨k, x, o⟩, ts⟩
  · rfl
  · cases k with
    | binary c => exact (not_follows_zero hts).elim
    | closing => exact absurd rfl (hclosing x o ts)
    | _ => rfl

theorem readOperator_end {f : Formula} {ts : List Token} (hts : Follows 1 ts) :
    readOperator 0 ⟨[], [f]⟩ ts = .ok (f, ts) := by
  rw [readOperator]
  rcases ts with _ | ⟨⟨k, x, o⟩, ts⟩
  · rfl
  · cases k with
    | binary c => exact (not_follows_zero hts).elim
    | _ => rfl

theorem agreesAt_group {x : String} {o : Nat} {ts : List Token}
    (h : AgreesAt 1 ts (Grammar.equivalence ts)) :
    AgreesAt 5 (⟨.opening, x, o⟩ :: ts) (Grammar.unary (⟨.opening, x, o⟩ :: ts)) := by
  have hread : ∀ d s, readOperand d s (⟨.opening, x, o⟩ :: ts) = Grammar.equivalence ts >>= fun f =>
      readOperator (d + 1) ((s.push .opening).pushOperand f.formula) f.rest := by
    intro d s
    rw [readOperand]
    exact h.run_eq _ _ trivial
  rw [Grammar.unary]
  cases hf : Grammar.equivalence ts with
  | error e =>
    rw [hf] at h hread
    obtain ⟨hexpected, hsuffix⟩ := h.fault e rfl
    exact Agrees.error (fun d s _ => hread d s) hexpected (hsuffix.trans (List.suffix_cons _ _))
  | ok f =>
    rw [hf] at h hread
    obtain ⟨hfollows, hsuffix⟩ := h.follows f rfl
    simp only [bind, Except.bind] at hread ⊢
    split
    · rename_i y o' rest hrest
      refine (Agrees.done (follows_unary _)).goOn (fun d s _ => ?_) ?_
      · exact (hread d s).trans ((congrArg _ hrest).trans readOperator_closing)
      · exact ((hrest ▸ List.suffix_cons _ _ : rest <:+ f.rest).trans hsuffix).trans
          (List.suffix_cons _ _)
    · rename_i hclosing
      refine Agrees.error (fun d s _ => ?_) (by simp) (hsuffix.trans (List.suffix_cons _ _))
      rw [hread]
      exact readOperator_unclosed hfollows hclosing

theorem agreesAt_binder {q : Quantifier} {x : String} {o : Nat} {ts : List Token}
    (hunary : ∀ ts', ts'.length < ts.length → AgreesAt 5 ts' (Grammar.unary ts')) :
    AgreesAt 5 (⟨.quant q, x, o⟩ :: ts) (Grammar.unary (⟨.quant q, x, o⟩ :: ts)) := by
  rw [Grammar.unary]
  split
  · rename_i names rest hnames
    exact agrees_of_prefix (p := .binder q names) (fun _ _ _ => rfl)
      (fun d s => readOperand_quant hnames)
      ((Grammar.binderNames_suffix hnames).trans (List.suffix_cons _ _)) _
      (hunary rest (binderNames_length hnames))
  · rename_i e hnames
    obtain rfl := Grammar.binderNames_error hnames
    exact Agrees.error (fun d s _ => readOperand_quant_error hnames) (by simp)
      (List.suffix_cons _ _)

theorem agreesAt_atom {x : String} {o : Nat} {ts : List Token} :
    AgreesAt 5 (⟨.ident, x, o⟩ :: ts) (Grammar.unary (⟨.ident, x, o⟩ :: ts)) := by
  rw [Grammar.unary]
  split
  · rename_i a rest ha
    refine (Agrees.done (follows_unary _)).goOn (fun d s _ => ?_)
      ((Grammar.atom_suffix ha).trans (List.suffix_cons _ _))
    rw [← Grammar.atomAfter_eq] at ha
    exact readOperand_ident ha
  · rename_i e ha
    obtain ⟨hexpected, hsuffix⟩ := Grammar.atom_error ha
    refine Agrees.error (fun d s _ => ?_) hexpected (hsuffix.trans (List.suffix_cons _ _))
    rw [← Grammar.atomAfter_eq] at ha
    exact readOperand_ident_error ha

theorem agreesAt_unary {ts : List Token}
    (hunary : ∀ ts', ts'.length < ts.length → AgreesAt 5 ts' (Grammar.unary ts'))
    (hgroup : ∀ ts', ts'.length < ts.length → AgreesAt 1 ts' (Grammar.equivalence ts')) :
    AgreesAt 5 ts (Grammar.unary ts) := by
  have hbad : ∀ ts, Grammar.unary ts = .error ⟨.formula, ts⟩ →
      (∀ d s, readOperand d s ts = .error ⟨.formula, ts⟩) → AgreesAt 5 ts (Grammar.unary ts) := by
    intro ts hts hread
    rw [hts]
    exact Agrees.error (fun d s _ => hread d s) (by simp) (List.suffix_refl _)
  rcases ts with _ | ⟨⟨k, x, o⟩, ts⟩
  · exact hbad _ (by simp [Grammar.unary]) (by simp [readOperand])
  · have hlt : ts.length < (⟨k, x, o⟩ :: ts : List Token).length := Nat.lt_succ_self _
    cases k with
    | not =>
      rw [Grammar.unary]
      exact agrees_of_prefix (p := .not) (fun _ _ _ => rfl) (fun d s => by rw [readOperand])
        (List.suffix_cons _ _) _ (hunary ts hlt)
    | quant q => exact agreesAt_binder fun ts' h => hunary ts' (Nat.lt_trans h hlt)
    | opening => exact agreesAt_group (hgroup ts hlt)
    | ident => exact agreesAt_atom
    | _ => exact hbad _ (by simp [Grammar.unary]) (by simp [readOperand])

/-- The rules of the grammar and the stacks agree in front of some tokens. -/
structure AgreesAll (ts : List Token) : Prop where
  unary : AgreesAt 5 ts (Grammar.unary ts)
  conjunction : AgreesAt 4 ts (Grammar.conjunction ts)
  disjunction : AgreesAt 3 ts (Grammar.disjunction ts)
  implication : AgreesAt 2 ts (Grammar.implication ts)
  equivalence : AgreesAt 1 ts (Grammar.equivalence ts)

theorem agreesAll (ts : List Token) : AgreesAll ts := by
  have ih : ∀ ts', ts'.length < ts.length → AgreesAll ts' := fun ts' h => agreesAll ts'
  have hunary : AgreesAt 5 ts (Grammar.unary ts) :=
    agreesAt_unary (fun ts' h => (ih ts' h).unary) fun ts' h => (ih ts' h).equivalence
  have hconjunction : AgreesAt 4 ts (Grammar.conjunction ts) := by
    rw [Grammar.conjunction]
    refine hunary.bind (by decide) fun l hl => ?_
    exact agreesBehind_left (c := .and) rfl Grammar.conjunctionBehind_and
      Grammar.conjunctionBehind_end (fun ts' h => (ih ts' h).unary) l (Nat.le_of_lt l.lt)
      (hunary.follows l hl).1
  have hdisjunction : AgreesAt 3 ts (Grammar.disjunction ts) := by
    rw [Grammar.disjunction]
    refine hconjunction.bind (by decide) fun l hl => ?_
    exact agreesBehind_left (c := .or) rfl Grammar.disjunctionBehind_or
      Grammar.disjunctionBehind_end (fun ts' h => (ih ts' h).conjunction) l (Nat.le_of_lt l.lt)
      (hconjunction.follows l hl).1
  have himplication : AgreesAt 2 ts (Grammar.implication ts) := by
    rw [Grammar.implication]
    refine hdisjunction.bind (by decide) fun l hl => ?_
    exact agreesBehind_right (c := .implies) rfl Grammar.implicationBehind_implies
      Grammar.implicationBehind_end (fun ts' h => (ih ts' h).implication) l (Nat.le_of_lt l.lt)
      (hdisjunction.follows l hl).1
  refine ⟨hunary, hconjunction, hdisjunction, himplication, ?_⟩
  rw [Grammar.equivalence]
  refine himplication.bind (by decide) fun l hl => ?_
  exact agreesBehind_right (c := .iff) rfl Grammar.equivalenceBehind_iff
    Grammar.equivalenceBehind_end (fun ts' h => (ih ts' h).equivalence) l (Nat.le_of_lt l.lt)
    (himplication.follows l hl).1
termination_by ts.length

theorem readFormula_eq_formula (ts : List Token) : readFormula ts = Grammar.formula ts := by
  have h := (agreesAll ts).equivalence
  rw [readFormula, Grammar.formula, h.run_eq 0 {} trivial]
  cases hx : Grammar.equivalence ts with
  | error e => rfl
  | ok r => exact readOperator_end (h.follows r hx).1

theorem readFormula_rest {ts rest : List Token} {f : Formula}
    (h : readFormula ts = .ok (f, rest)) : rest.length < ts.length ∧ rest <:+ ts := by
  rw [readFormula_eq_formula, Grammar.formula] at h
  obtain ⟨r, hx, heq⟩ := map_eq_ok.mp h
  obtain ⟨-, rfl⟩ := Prod.mk.inj heq
  exact ⟨r.lt, ((agreesAll ts).equivalence.follows r hx).2⟩

theorem readFormula_fault {ts : List Token} {e : Fault} (h : readFormula ts = .error e) :
    e.expected ≠ .operand ∧ e.rest <:+ ts := by
  rw [readFormula_eq_formula, Grammar.formula] at h
  exact (agreesAll ts).equivalence.fault e (map_eq_error.mp h)

end Clausification.Reader

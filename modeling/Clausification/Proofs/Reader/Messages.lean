import Clausification.Proofs.Reader.Agreement
import Clausification.Proofs.Text
import Clausification.Proofs.Token.Rules

/-!
# Messages of the reader

A fault blames a token of the text or its end, and what its message quotes are the texts of tokens. A
character that no token begins with is quoted. So no message has a line break.
-/

namespace Clausification

/-- The blamed token is among the tokens, and so is the quantifier that has no variable. -/
structure Fault.FoundIn (e : Fault) (ts : List Token) : Prop where
  rest : e.rest <:+ ts
  quantifier : ∀ q, e.expected = .variableAfter q → ∃ t ∈ ts, t.text = q

namespace Fault.FoundIn
variable {e : Fault} {ts rest : List Token}

theorem of_suffix (h : e.FoundIn rest) (hrest : rest <:+ ts) : e.FoundIn ts where
  rest := h.rest.trans hrest
  quantifier q hq :=
    let ⟨t, ht, htext⟩ := h.quantifier q hq
    ⟨t, hrest.subset ht, htext⟩

theorem tail {t : Token} (h : e.FoundIn ts) : e.FoundIn (t :: ts) :=
  h.of_suffix (List.suffix_cons t ts)

theorem here {expected : Expectation} (h : ∀ q, expected ≠ .variableAfter q) (ts : List Token) :
    FoundIn ⟨expected, ts⟩ ts :=
  ⟨List.suffix_refl ts, fun q hq => absurd hq (h q)⟩

end Fault.FoundIn

namespace Reader
variable {ts : List Token} {e : Fault}

theorem foundIn_of_arguments {expected : Expectation} (hexpected : ∀ q, expected ≠ .variableAfter q)
    (h : arguments expected ts = .error e) : e.FoundIn ts := by
  fun_induction arguments expected ts with
  | case1 => cases h
  | case2 _ _ _ _ _ _ ih => exact (ih (by simp) (map_eq_error.mp h)).tail.tail
  | case3 =>
    obtain rfl := Except.error.inj h
    exact (Fault.FoundIn.here (by simp) _).tail
  | case4 =>
    obtain rfl := Except.error.inj h
    exact .here hexpected _

theorem foundIn_of_atomAfter {predicate : String} (h : atomAfter predicate ts = .error e) :
    e.FoundIn ts := by
  unfold atomAfter at h
  split at h
  · cases h
  · exact (foundIn_of_arguments (by simp) (map_eq_error.mp h)).tail
  · cases h

/-- Wherever reading goes on at the tokens, the faults it ends with are found in them. -/
structure FaultsFoundIn (ts : List Token) : Prop where
  operand : ∀ {d s e}, readOperand d s ts = .error e → e.FoundIn ts
  operator : ∀ {d s e}, readOperator d s ts = .error e → e.FoundIn ts

section
variable {d : Nat} {s : Stacks}

theorem foundIn_of_readOperand (ih : ∀ us, us.length < ts.length → FaultsFoundIn us)
    (h : readOperand d s ts = .error e) : e.FoundIn ts := by
  unfold readOperand at h
  split at h
  · exact ((ih _ (by simp)).operand h).tail
  · rename_i q text o us
    split at h
    · rename_i hnames
      have hlt := Nat.lt_succ_of_lt (binderNames_length hnames)
      exact (((ih _ hlt).operand h).of_suffix (Grammar.binderNames_suffix hnames)).tail
    · rename_i hnames
      obtain rfl := Grammar.binderNames_error (Except.error.inj h ▸ hnames)
      constructor
      · exact List.suffix_cons _ us
      · intro q' hq'
        exact ⟨_, List.mem_cons_self, Expectation.variableAfter.inj hq'⟩
  · exact ((ih _ (by simp)).operand h).tail
  · split at h
    · rename_i hatom
      have hlt := Nat.lt_succ_of_le (atomAfter_length hatom)
      have hsuffix := Grammar.atom_suffix (Grammar.atomAfter_eq _ _ ▸ hatom)
      exact (((ih _ hlt).operator h).of_suffix hsuffix).tail
    · rename_i hatom
      exact (foundIn_of_atomAfter (Except.error.inj h ▸ hatom)).tail
  · exact Except.error.inj h ▸ .here (by simp) _

theorem foundIn_of_readOperator (ih : ∀ us, us.length < ts.length → FaultsFoundIn us)
    (h : readOperator d s ts = .error e) : e.FoundIn ts := by
  have hhere {expected : Expectation} (hexpected : ∀ q, expected ≠ .variableAfter q)
      (herror : Fault.mk expected ts = e) : e.FoundIn ts := herror ▸ .here hexpected ts
  unfold readOperator at h
  split at h
  · exact hhere (by simp) (Except.error.inj h)
  split at h
  · split at h
    · exact ((ih _ (by simp)).operand h).tail
    · exact hhere (by simp) (Except.error.inj h)
  · split at h
    · exact ((ih _ (by simp)).operator h).tail
    · exact hhere (by simp) (Except.error.inj h)
  · exact hhere (by simp) (Except.error.inj h)
  · split at h
    · cases h
    · exact hhere (by simp) (Except.error.inj h)

end

theorem faultsFoundIn (ts : List Token) : FaultsFoundIn ts := by
  have ih : ∀ us, us.length < ts.length → FaultsFoundIn us := fun us _ => faultsFoundIn us
  exact ⟨foundIn_of_readOperand ih, foundIn_of_readOperator ih⟩
termination_by ts.length

theorem foundIn_of_readAll (h : readAll ts = .error e) : e.FoundIn ts := by
  unfold readAll at h
  split at h
  · cases h
  · rename_i hread
    obtain rfl := Except.error.inj h
    constructor
    · exact (readFormula_rest hread).2
    · intro q hq
      cases hq
  · rename_i hread
    exact (faultsFoundIn ts).operand (Except.error.inj h ▸ hread)

end Reader

theorem Text.lineFeed_not_mem_quoted (s : String) : '\n' ∉ (quoted s).toList := by
  have hhexDigit : ∀ n < 16, hexDigit n ≠ '\n' := by decide
  have hhexPadded (width n : Nat) : '\n' ∉ hexPadded width n := by
    induction width generalizing n with
    | zero => exact List.not_mem_nil
    | succ width ih =>
      rw [hexPadded, List.mem_append, List.mem_singleton]
      rintro (hmem | hmem)
      · exact ih _ hmem
      · exact hhexDigit _ (Nat.mod_lt n (by decide)) hmem.symm
  have hquote : quoteFor s.toList ≠ '\n' := by
    rw [quoteFor]
    split <;> decide
  have hchar (c : Char) : '\n' ∉ quotedChar (quoteFor s.toList) c := by
    rw [quotedChar]
    split
    · rename_i hc
      rcases hc with rfl | rfl
      · simpa using hquote.symm
      · decide
    · split
      · decide
      · rename_i hc
        simp only [escapeCode]
        split_ifs <;> simp [hhexPadded, Ne.symm hc]
  simp only [quoted, String.toList_ofList, List.mem_append, List.mem_cons, List.mem_flatMap,
    List.not_mem_nil, or_false, not_or, not_exists, not_and]
  exact ⟨⟨hquote.symm, fun c _ => hchar c⟩, hquote.symm⟩

theorem Unrecognized.lineFeed_not_mem_message (u : Unrecognized) : '\n' ∉ u.message.toList := by
  have hquoted := Text.lineFeed_not_mem_quoted u.char.toString
  have hbegin : '\n' ∉ "unrecognized character ".toList := by decide
  have hmiddle : '\n' ∉ " at offset ".toList := by decide
  exact Text.not_mem_append (Text.not_mem_append (Text.not_mem_append hbegin hquoted) hmiddle)
    (Text.not_mem_toString (by decide) u.offset)

namespace Fault
variable {e : Fault} {ts : List Token}

theorem lineFeed_not_mem_detail (h : e.FoundIn ts) (hts : ∀ t ∈ ts, '\n' ∉ t.text.toList) :
    ∀ d ∈ e.detail, '\n' ∉ d.toList := by
  intro d hd
  rw [detail] at hd
  split at hd
  · rename_i q hq
    obtain ⟨t, ht, rfl⟩ := h.quantifier q hq
    obtain rfl := Option.some.inj hd
    exact Text.not_mem_append (by decide) (hts t ht)
  · obtain rfl := Option.some.inj hd
    apply Text.not_mem_append (by decide)
    apply Text.not_mem_join (by decide)
    intro s hs
    obtain ⟨t, ht, rfl⟩ := List.mem_map.mp hs
    exact hts t (h.rest.subset ht)
  · cases hd

theorem lineFeed_not_mem_message (h : e.FoundIn ts) (hts : ∀ t ∈ ts, '\n' ∉ t.text.toList) :
    '\n' ∉ e.message.toList := by
  have hexpected (x : Expectation) : '\n' ∉ x.name.toList := by
    cases x with
    | variableAfter q => exact (by decide : '\n' ∉ "IDENT".toList)
    | _ => decide
  have hkind (k : TokenKind) : '\n' ∉ k.name.toList := by
    cases k with
    | quant q => cases q <;> decide
    | binary c => cases c <;> decide
    | _ => decide
  have hfound : '\n' ∉ e.found.toList := by
    rw [found]
    split
    · exact hkind _
    · decide
  have hbegin := Text.not_mem_append (by decide : '\n' ∉ "expected ".toList) (hexpected e.expected)
  have hmiddle := Text.not_mem_append hbegin (by decide : '\n' ∉ ", found ".toList)
  refine Text.not_mem_append (Text.not_mem_append (Text.not_mem_append hmiddle hfound) ?_) ?_
  · split
    · exact Text.not_mem_append (by decide) (Text.not_mem_toString (by decide) _)
    · decide
  · split
    · rename_i hd
      have hdetail := lineFeed_not_mem_detail h hts _ hd
      exact Text.not_mem_append (Text.not_mem_append (by decide) hdetail) (by decide)
    · decide

end Fault

theorem isBlank_of_mem_token {strict : Bool} {s : String} {scanned : Scan}
    (h : scan strict s = .ok scanned) {t : Token} (ht : t ∈ scanned.tokens) {c : Char}
    (hc : c ∈ t.text.toList) : Text.isBlank c = false := by
  obtain ⟨lenient, hlenient, hscans⟩ := exists_scan s
  obtain rfl : lenient = scanned := by
    cases strict with
    | false => exact Except.ok.inj (hlenient.symm.trans h)
    | true =>
      have hstrict : lenient.strictly = .ok scanned := hscans.scanFrom_strict_eq.symm.trans h
      unfold Scan.strictly at hstrict
      split at hstrict
      · exact Except.ok.inj hstrict
      · cases hstrict
  obtain ⟨after, -, hword⟩ := hscans.exists_of_mem_tokens ht
  exact hword.isBlank_of_mem hc

/-- The message of a text that spells no formula is a single line. -/
theorem Formula.lineFeed_not_mem_message {strict : Bool} {s : String} {e : Failure}
    (h : Formula.parse strict s = .error e) : '\n' ∉ e.message.toList := by
  unfold parse parseWithSkips at h
  split at h
  · rename_i scanned hscan
    obtain ⟨fault, hread, rfl⟩ : ∃ fault, Reader.readAll scanned.tokens = .error fault ∧
        Failure.unexpected fault = e := by
      cases hread : Reader.readAll scanned.tokens with
      | ok f => simp [hread, Except.mapError] at h
      | error fault => exact ⟨fault, rfl, by simpa [hread, Except.mapError] using h⟩
    apply Fault.lineFeed_not_mem_message (Reader.foundIn_of_readAll hread)
    intro t ht hmem
    exact absurd (isBlank_of_mem_token hscan ht hmem) (by decide)
  · rename_i u _
    obtain rfl : Failure.unrecognized u = e := Except.error.inj h
    exact u.lineFeed_not_mem_message

end Clausification

import Clausification.Proofs.Reader.Grammar

/-!
# Variables and the body behind them

Without a dot the variables of a quantifier and the predicate of its body may all be names in a row.
The run of variables ends in front of a name that has arguments, and gives its last name back if
otherwise no body followed. So in front of a body, whatever that begins with, exactly the names before
it are variables, unless the body itself can be taken for the arguments of the last of them.
-/

namespace Clausification.Reader

/-- Nothing but names, each a token of its own. -/
def Identifiers (ts : List Token) : Prop := ∀ t ∈ ts, t.kind = .ident

theorem identifiers_nil : Identifiers [] := fun _ ht => nomatch ht

/-- The variables behind a quantifier, with a dot behind them or without. -/
inductive Variables : List String → List Token → Prop
  | undotted (x : String) (o : Nat) {xs : List Token} (hxs : Identifiers xs) :
    Variables (x :: xs.map (·.text)) (⟨.ident, x, o⟩ :: xs)
  | dotted (x : String) (o : Nat) (y : String) (n : Nat) {xs : List Token} (hxs : Identifiers xs) :
    Variables (x :: xs.map (·.text)) (⟨.ident, x, o⟩ :: (xs ++ [⟨.dot, y, n⟩]))

/-- A body begins that is not taken for another variable: behind a name come arguments, or the body
is that name alone. -/
inductive StartsBody : List Token → Prop
  | not (x : String) (o : Nat) (ts : List Token) : StartsBody (⟨.not, x, o⟩ :: ts)
  | quant (q : Quantifier) (x : String) (o : Nat) (ts : List Token) :
    StartsBody (⟨.quant q, x, o⟩ :: ts)
  | opening (x : String) (o : Nat) (ts : List Token) : StartsBody (⟨.opening, x, o⟩ :: ts)
  | applied (x : String) (o : Nat) {ts : List Token} (h : startsArguments ts = true) :
    StartsBody (⟨.ident, x, o⟩ :: ts)
  | bare (x : String) (o : Nat) {ts : List Token} (h : endsOperand ts = true) :
    StartsBody (⟨.ident, x, o⟩ :: ts)

theorem Variables.exists_mem {names : List String} {vs : List Token} (h : Variables names vs)
    {x : String} (hx : x ∈ names) : ∃ t ∈ vs, t.kind = .ident ∧ t.text = x := by
  cases h with
  | undotted y o hxs | dotted y o _ _ hxs =>
    rcases List.mem_cons.mp hx with rfl | hx
    · exact ⟨⟨.ident, _, o⟩, List.mem_cons_self, rfl, rfl⟩
    · obtain ⟨t, ht, rfl⟩ := List.mem_map.mp hx
      exact ⟨t, by simp [ht], hxs t ht, rfl⟩

section
variable {t : Token} {ts xs body rest : List Token}

theorem startsArguments_cons (h : t.kind ≠ .opening) : startsArguments (t :: ts) = false := by
  obtain ⟨k, x, o⟩ := t
  cases k with
  | opening => exact absurd rfl h
  | _ => rfl

theorem startsArguments_of_endsOperand (h : endsOperand ts = true) : startsArguments ts = false := by
  rcases ts with _ | ⟨⟨k, x, o⟩, ts⟩
  · rfl
  · cases k with
    | opening => cases h
    | _ => rfl

theorem variableRun_of_kind_ne (h : t.kind ≠ .ident) : variableRun (t :: ts) = ([], t :: ts) := by
  rw [variableRun, if_neg fun hc => h hc.1]

theorem variableRun_of_endsOperand (h : endsOperand ts = true) : variableRun ts = ([], ts) := by
  rcases ts with _ | ⟨⟨k, x, o⟩, ts⟩
  · rfl
  · cases k with
    | ident => cases h
    | _ => exact variableRun_of_kind_ne (by simp)

/-- A run goes on through all names, and behind them, unless arguments of the last one follow. -/
theorem variableRun_names_append (hxs : Identifiers xs)
    (hbody : xs = [] ∨ startsArguments body = false) :
    variableRun (xs ++ body) = (xs ++ (variableRun body).1, (variableRun body).2) := by
  induction xs with
  | nil => rfl
  | cons t xs ih =>
    obtain ⟨ht, hxs⟩ := List.forall_mem_cons.mp hxs
    have hend : startsArguments body = false := hbody.resolve_left (List.cons_ne_nil t xs)
    have hnext : startsArguments (xs ++ body) = false := by
      cases xs with
      | nil => exact hend
      | cons u xs =>
        have hu : u.kind = .ident := hxs u List.mem_cons_self
        exact startsArguments_cons (by simp [hu])
    rw [List.cons_append, variableRun, if_pos ⟨ht, hnext⟩, ih hxs (Or.inr hend)]
    rfl

theorem handBack_of_not_endsOperand (h : endsOperand rest = false) :
    handBack xs rest = (xs, rest) := by
  unfold handBack
  split
  · rw [if_neg (by simp [h])]
  · rfl

theorem handBack_append_singleton (h : endsOperand rest = true) :
    handBack (xs ++ [t]) rest = (xs, t :: rest) := by
  simp [handBack, h]

theorem skipDot_of_kind_ne (h : t.kind ≠ .dot) : skipDot (t :: ts) = t :: ts := by
  obtain ⟨k, x, o⟩ := t
  cases k with
  | dot => exact absurd rfl h
  | _ => rfl

theorem eq_skipDot_or (ts : List Token) :
    skipDot ts = ts ∨ ∃ y n, ts = ⟨.dot, y, n⟩ :: skipDot ts := by
  rcases ts with _ | ⟨⟨k, x, o⟩, ts⟩
  · exact Or.inl rfl
  · cases k with
    | dot => exact Or.inr ⟨x, o, rfl⟩
    | _ => exact Or.inl rfl

/-- In front of a body the run ends, or it takes in one name that is handed back. -/
theorem handBack_variableRun_body (hxs : Identifiers xs) (hbody : StartsBody body)
    (hargs : xs = [] ∨ startsArguments body = false) :
    handBack (variableRun (xs ++ body)).1 (variableRun (xs ++ body)).2 = (xs, body) := by
  rw [variableRun_names_append hxs hargs]
  cases hbody with
  | not | quant | opening =>
    rw [variableRun_of_kind_ne (by simp), List.append_nil]
    exact handBack_of_not_endsOperand rfl
  | applied x o h =>
    have hrun : ∀ ts, startsArguments ts = true →
        variableRun (⟨.ident, x, o⟩ :: ts) = ([], ⟨.ident, x, o⟩ :: ts) := by
      intro ts hts
      rw [variableRun, if_neg (by simp [hts])]
    rw [hrun _ h, List.append_nil]
    exact handBack_of_not_endsOperand rfl
  | bare x o h =>
    rw [variableRun, if_pos ⟨rfl, startsArguments_of_endsOperand h⟩, variableRun_of_endsOperand h]
    exact handBack_append_singleton h

variable {w x : String} {o : Nat}

theorem binderNames_eq (hback : handBack (variableRun ts).1 (variableRun ts).2 = (xs, rest)) :
    binderNames w (⟨.ident, x, o⟩ :: ts) = .ok (x :: xs.map (·.text), skipDot rest) := by
  rw [binderNames]
  simp only [hback]

theorem binderNames_body (hxs : Identifiers xs) (hbody : StartsBody body)
    (hargs : xs = [] ∨ startsArguments body = false) :
    binderNames w (⟨.ident, x, o⟩ :: (xs ++ body)) = .ok (x :: xs.map (·.text), body) := by
  have hdot : skipDot body = body := by
    cases hbody <;> exact skipDot_of_kind_ne (by simp)
  rw [binderNames_eq (handBack_variableRun_body hxs hbody hargs), hdot]

theorem binderNames_dot (hxs : Identifiers xs) {y : String} {n : Nat} :
    binderNames w (⟨.ident, x, o⟩ :: (xs ++ ⟨.dot, y, n⟩ :: body)) =
      .ok (x :: xs.map (·.text), body) := by
  refine @binderNames_eq _ _ (⟨.dot, y, n⟩ :: body) _ _ _ ?_
  rw [variableRun_names_append hxs (Or.inr rfl), variableRun_of_kind_ne (by simp), List.append_nil]
  exact handBack_of_not_endsOperand rfl

end

theorem kind_of_mem_variableRun {t : Token} {ts : List Token} (h : t ∈ (variableRun ts).1) :
    t.kind = .ident := by
  induction ts with
  | nil => cases h
  | cons u ts ih =>
    rw [variableRun] at h
    split at h
    · rename_i hu
      rcases List.mem_cons.mp h with rfl | h
      · exact hu.1
      · exact ih h
    · cases h

theorem mem_of_mem_handBack {t : Token} {run rest : List Token} (h : t ∈ (handBack run rest).1) :
    t ∈ run := by
  unfold handBack at h
  split at h
  · split at h
    · exact List.dropLast_subset _ h
    · exact h
  · exact h

/-- The names end where the run of variables ends, the last of which may have been handed back. -/
theorem exists_handBack_of_binderNames {w : String} {ts rest : List Token} {names : List String}
    (h : binderNames w ts = .ok (names, rest)) : ∃ x o us xs rest', ts = ⟨.ident, x, o⟩ :: us ∧
      handBack (variableRun us).1 (variableRun us).2 = (xs, rest') ∧ us = xs ++ rest' ∧
      Identifiers xs ∧ names = x :: xs.map (·.text) ∧ rest = skipDot rest' := by
  rcases ts with _ | ⟨⟨k, x, o⟩, us⟩
  · cases h
  · cases k with
    | ident =>
      obtain ⟨xs, rest', hback⟩ :
          ∃ xs us', handBack (variableRun us).1 (variableRun us).2 = (xs, us') := ⟨_, _, rfl⟩
      have happend := Grammar.handBack_append (variableRun us).1 (variableRun us).2
      rw [Grammar.variableRun_append, hback] at happend
      rw [binderNames_eq hback] at h
      obtain ⟨rfl, rfl⟩ := Prod.mk.inj (Except.ok.inj h)
      refine ⟨x, o, us, xs, rest', rfl, hback, happend.symm, fun t ht => ?_, rfl, rfl⟩
      have hrun : t ∈ (handBack (variableRun us).1 (variableRun us).2).1 := by
        rw [hback]
        exact ht
      exact kind_of_mem_variableRun (mem_of_mem_handBack hrun)
    | _ => cases h

theorem exists_of_binderNames {w : String} {ts rest : List Token} {names : List String}
    (h : binderNames w ts = .ok (names, rest)) : ∃ vs, ts = vs ++ rest ∧ Variables names vs := by
  obtain ⟨x, o, us, xs, rest', rfl, -, rfl, hxs, rfl, rfl⟩ := exists_handBack_of_binderNames h
  rcases eq_skipDot_or rest' with hdot | ⟨y, n, hdot⟩
  · exact ⟨_, by rw [hdot]; rfl, .undotted x o hxs⟩
  · exact ⟨_, by rw [hdot]; simp [skipDot], .dotted x o y n hxs⟩

/-- Behind a run that is not empty no arguments begin. -/
theorem startsArguments_behind_variableRun (ts : List Token) :
    (variableRun ts).1 = [] ∨ startsArguments (variableRun ts).2 = false := by
  induction ts with
  | nil => exact Or.inl rfl
  | cons t ts ih =>
    rw [variableRun]
    split
    · rename_i ht
      right
      rcases ih with hrun | hstarts
      · have happend := Grammar.variableRun_append ts
        rw [hrun, List.nil_append] at happend
        simpa only [happend] using ht.2
      · exact hstarts
    · exact Or.inl rfl

/-- A run ends in front of a name only if arguments follow that name. -/
theorem startsArguments_of_variableRun {ts us : List Token} {x : String} {o : Nat}
    (h : (variableRun ts).2 = ⟨.ident, x, o⟩ :: us) : startsArguments us = true := by
  induction ts with
  | nil => cases h
  | cons t ts ih =>
    rw [variableRun] at h
    split at h
    · exact ih h
    · rename_i ht
      cases h
      simpa using ht

/-- Where the variables end without a dot, a body begins, or nothing that can be one. -/
theorem startsBody_of_handBack {ts xs rest : List Token}
    (hback : handBack (variableRun ts).1 (variableRun ts).2 = (xs, rest))
    (hdot : skipDot rest = rest) (hrest : endsOperand rest = false) :
    StartsBody rest ∧ (xs = [] ∨ startsArguments rest = false) := by
  by_cases hends : endsOperand (variableRun ts).2 = true
  · rcases List.eq_nil_or_concat (variableRun ts).1 with hnil | ⟨ys, ⟨k, x, o⟩, hrun⟩
    · rw [hnil] at hback
      obtain ⟨rfl, rfl⟩ := Prod.mk.inj hback
      simp [hends] at hrest
    · rw [List.concat_eq_append] at hrun
      have hlast : ⟨k, x, o⟩ ∈ (variableRun ts).1 := by simp [hrun]
      obtain rfl : k = .ident := kind_of_mem_variableRun hlast
      rw [hrun, handBack_append_singleton hends] at hback
      obtain ⟨rfl, rfl⟩ := Prod.mk.inj hback
      exact ⟨.bare x o hends, Or.inr rfl⟩
  · rw [handBack_of_not_endsOperand (Bool.of_not_eq_true hends)] at hback
    obtain ⟨rfl, rfl⟩ := Prod.mk.inj hback
    refine ⟨?_, startsArguments_behind_variableRun ts⟩
    rcases hbehind : (variableRun ts).2 with _ | ⟨⟨k, x, o⟩, us⟩
    · simp [hbehind, endsOperand] at hrest
    · rw [hbehind] at hdot hrest
      cases k with
      | ident => exact .applied x o (startsArguments_of_variableRun hbehind)
      | quant q => exact .quant q x o us
      | not => exact .not x o us
      | opening => exact .opening x o us
      | dot => exact absurd hdot (List.cons_ne_self _ _).symm
      | binary | closing | comma => cases hrest

/-- Of what follows the variables it only matters whether it begins a body and whether it could be
arguments. -/
theorem exists_binderNames_append {w : String} {ts rest : List Token} {names : List String}
    (h : binderNames w ts = .ok (names, rest)) (hrest : endsOperand rest = false) :
    ∃ vs, ts = vs ++ rest ∧ Variables names vs ∧ ∀ rest', (StartsBody rest → StartsBody rest') →
      startsArguments rest' = startsArguments rest →
      binderNames w (vs ++ rest') = .ok (names, rest') := by
  obtain ⟨x, o, us, xs, behind, rfl, hback, rfl, hxs, rfl, rfl⟩ := exists_handBack_of_binderNames h
  rcases eq_skipDot_or behind with hdot | ⟨y, n, hdot⟩
  · rw [hdot] at hrest
    obtain ⟨hbody, hargs⟩ := startsBody_of_handBack hback hdot hrest
    refine ⟨_, by rw [hdot]; rfl, .undotted x o hxs, fun rest' hbody' hargs' => ?_⟩
    rw [hdot] at hbody' hargs'
    exact binderNames_body hxs (hbody' hbody) (hargs.imp_right hargs'.trans)
  · refine ⟨_, by rw [hdot]; simp [skipDot], .dotted x o y n hxs, fun rest' _ _ => ?_⟩
    rw [List.cons_append, List.append_assoc]
    exact binderNames_dot hxs

end Clausification.Reader

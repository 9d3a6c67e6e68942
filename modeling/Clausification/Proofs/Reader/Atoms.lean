import Clausification.Formula.Reader
import Clausification.Proofs.Result

/-!
# What follows a predicate

An atom ends with its predicate, or with arguments in parentheses, which are names. What is read as an
atom has this shape, what has this shape is read as an atom, and what leads to a fault begins an atom.
-/

namespace Clausification.Reader

/-- Names with commas between them, and the closing parenthesis. -/
inductive ArgumentsEnd : List String → List Token → Prop
  | last (x : String) (o : Nat) (y : String) (n : Nat) :
    ArgumentsEnd [x] [⟨.ident, x, o⟩, ⟨.closing, y, n⟩]
  | more (x : String) (o : Nat) (y : String) (n : Nat) {xs : List String} {ts : List Token}
    (h : ArgumentsEnd xs ts) : ArgumentsEnd (x :: xs) (⟨.ident, x, o⟩ :: ⟨.comma, y, n⟩ :: ts)

/-- What follows a predicate with some names as arguments. -/
inductive AtomEnd : List String → List Token → Prop
  | bare : AtomEnd [] []
  | empty (x : String) (o : Nat) (y : String) (n : Nat) :
    AtomEnd [] [⟨.opening, x, o⟩, ⟨.closing, y, n⟩]
  | applied (x : String) (o : Nat) {xs : List String} {ts : List Token} (h : ArgumentsEnd xs ts) :
    AtomEnd xs (⟨.opening, x, o⟩ :: ts)

variable {xs : List String} {ts rest : List Token} {expected : Expectation} {predicate : String}
  {e : Fault}

theorem ArgumentsEnd.arguments_eq (h : ArgumentsEnd xs ts) (expected : Expectation)
    (rest : List Token) : arguments expected (ts ++ rest) = .ok (xs.map .var, rest) := by
  induction h generalizing expected with
  | last x o y n => rfl
  | more x o y n _ ih =>
    rw [List.cons_append, List.cons_append, arguments, ih]
    rfl

theorem ArgumentsEnd.closesAfterNames_eq (h : ArgumentsEnd xs ts) (rest : List Token) :
    closesAfterNames (ts ++ rest) = true := by
  induction h with
  | last x o y n => rfl
  | more x o y n _ ih => exact ih

theorem ArgumentsEnd.startsArguments_eq (h : ArgumentsEnd xs ts) {x : String} {o : Nat}
    (rest : List Token) : startsArguments (⟨.opening, x, o⟩ :: (ts ++ rest)) = true := by
  rw [startsArguments, h.closesAfterNames_eq]
  cases h <;> simp

theorem exists_of_arguments {args : List Term} (h : arguments expected ts = .ok (args, rest)) :
    ∃ xs us, ts = us ++ rest ∧ args = xs.map .var ∧ ArgumentsEnd xs us := by
  fun_induction arguments expected ts generalizing args with
  | case1 expected x o y n us =>
    obtain ⟨rfl, rfl⟩ := Prod.mk.inj (Except.ok.inj h)
    exact ⟨_, _, rfl, rfl, .last x o y n⟩
  | case2 expected x o y n us ih =>
    obtain ⟨p, hmore, heq⟩ := map_eq_ok.mp h
    obtain ⟨rfl, rfl⟩ := Prod.mk.inj heq
    obtain ⟨xs, vs, rfl, hargs, hvs⟩ := ih hmore
    exact ⟨x :: xs, _ :: _ :: vs, rfl, congrArg (.var x :: ·) hargs, .more x o y n hvs⟩
  | case3 => cases h
  | case4 => cases h

theorem exists_of_arguments_error (h : arguments expected ts = .error e) :
    ∃ xs us vs, ts = us ++ e.rest ∧ ArgumentsEnd xs (us ++ vs) := by
  fun_induction arguments expected ts with
  | case1 => cases h
  | case2 expected x o y n us ih =>
    obtain ⟨xs, vs, ws, rfl, hvs⟩ := ih (map_eq_error.mp h)
    exact ⟨_, _ :: _ :: vs, ws, rfl, .more x o y n hvs⟩
  | case3 expected x o us =>
    obtain rfl := Except.error.inj h
    exact ⟨_, [⟨.ident, x, o⟩], [⟨.closing, ")", 0⟩], rfl, .last x o ")" 0⟩
  | case4 =>
    obtain rfl := Except.error.inj h
    exact ⟨_, [], [⟨.ident, "x", 0⟩, ⟨.closing, ")", 0⟩], rfl, .last "x" 0 ")" 0⟩

/-- No arguments come next. -/
def NotOpening (ts : List Token) : Prop := ∀ x o us, ts ≠ ⟨.opening, x, o⟩ :: us

theorem notOpening_of_endsOperand (h : endsOperand ts = true) : NotOpening ts := by
  rintro x o us rfl
  cases h

theorem atomAfter_of_notOpening (h : NotOpening ts) :
    atomAfter predicate ts = .ok (⟨predicate, []⟩, ts) := by
  rcases ts with _ | ⟨⟨k, x, o⟩, ts⟩
  · rfl
  · cases k with
    | opening => exact absurd rfl (h x o ts)
    | _ => rfl

/-- Only a predicate without parentheses depends on what follows it. -/
theorem AtomEnd.atomAfter_append (h : AtomEnd xs ts) (hrest : ts = [] → NotOpening rest) :
    atomAfter predicate (ts ++ rest) = .ok (⟨predicate, xs.map .var⟩, rest) := by
  cases h with
  | bare => exact atomAfter_of_notOpening (hrest rfl)
  | empty => rfl
  | applied x o h =>
    rw [List.cons_append, atomAfter, h.arguments_eq]
    · rfl
    · cases h <;> simp

theorem AtomEnd.atomAfter_eq (h : AtomEnd xs ts) (hrest : NotOpening rest) :
    atomAfter predicate (ts ++ rest) = .ok (⟨predicate, xs.map .var⟩, rest) :=
  h.atomAfter_append fun _ => hrest

theorem exists_of_atomAfter {a : Atom} (h : atomAfter predicate ts = .ok (a, rest)) :
    ∃ xs us, ts = us ++ rest ∧ a = ⟨predicate, xs.map .var⟩ ∧ AtomEnd xs us := by
  unfold atomAfter at h
  split at h
  · rename_i x o y n us
    obtain ⟨rfl, rfl⟩ := Prod.mk.inj (Except.ok.inj h)
    exact ⟨[], _, rfl, rfl, .empty x o y n⟩
  · rename_i x o us _
    obtain ⟨p, hargs, heq⟩ := map_eq_ok.mp h
    obtain ⟨rfl, rfl⟩ := Prod.mk.inj heq
    obtain ⟨xs, vs, rfl, hnames, hvs⟩ := exists_of_arguments hargs
    exact ⟨xs, _ :: vs, rfl, congrArg (Atom.mk predicate) hnames, .applied x o hvs⟩
  · obtain ⟨rfl, rfl⟩ := Prod.mk.inj (Except.ok.inj h)
    exact ⟨[], [], rfl, rfl, .bare⟩

/-- An opening parenthesis behind a predicate is never left over. -/
theorem notOpening_of_atomAfter {a : Atom} (h : atomAfter predicate ts = .ok (a, ts)) :
    NotOpening ts := by
  intro x o us hts
  unfold atomAfter at h
  split at h
  · have hlength := congrArg List.length (Prod.mk.inj (Except.ok.inj h)).2
    simp only [List.length_cons] at hlength
    omega
  · obtain ⟨p, hargs, hp⟩ := map_eq_ok.mp h
    have hlt := arguments_length hargs
    rw [(Prod.mk.inj hp).2, List.length_cons] at hlt
    omega
  · rename_i hopening
    exact hopening x o us hts

theorem exists_of_atomAfter_error (h : atomAfter predicate ts = .error e) :
    ∃ xs us vs, ts = us ++ e.rest ∧ AtomEnd xs (us ++ vs) := by
  unfold atomAfter at h
  split at h
  · cases h
  · rename_i x o us _
    obtain ⟨xs, vs, ws, rfl, hvs⟩ := exists_of_arguments_error (map_eq_error.mp h)
    exact ⟨xs, _ :: vs, ws, rfl, .applied x o hvs⟩
  · cases h

end Clausification.Reader

import Clausification.Proofs.Clause.Spelling
import Clausification.Proofs.Clause.Words
import Clausification.Proofs.Form.Plain

/-!
# Lines are read back

A reader of one line knows words, brackets, commas and bars, and tells a variable from a function by
the case of its first letter. No name can spoil a line: the reader finds the clause again, with the
words of its names in their places.
-/

namespace Clausification

namespace Tptp

def readWord (first : Char → Bool) : List Char → Option (String × List Char)
  | [] => none
  | c :: cs =>
    if first c then some (String.ofList (c :: cs.takeWhile isWordPart), cs.dropWhile isWordPart)
    else none

/-- One thing or more, up to `n` of them, with a separator between neighbours. -/
def readSeparated {α : Type} (sep : List Char) (read : List Char → Option (α × List Char)) :
    Nat → List Char → Option (List α × List Char)
  | 0, _ => none
  | n + 1, cs => do
    let (x, cs) ← read cs
    match cs.dropPrefix? sep with
    | none => some ([x], cs)
    | some cs =>
      let (xs, cs) ← readSeparated sep read n cs
      some (x :: xs, cs)

/-- A term of at most `n` characters. -/
def readTerm : Nat → List Char → Option (Term × List Char)
  | 0, _ => none
  | n + 1, cs =>
    match readWord Char.isUpper cs with
    | some (x, cs) => some (.var x, cs)
    | none => do
      let (f, cs) ← readWord Char.isLower cs
      match cs with
      | '(' :: cs =>
        let (ts, cs) ← readSeparated ",".toList (readTerm n) n cs
        let cs ← cs.dropPrefix? ")".toList
        some (.app f ts, cs)
      | cs => some (.app f [], cs)

def readAtom (n : Nat) (cs : List Char) : Option (Atom × List Char) :=
  match readTerm n cs with
  | some (.app p ts, cs) => some (⟨p, ts⟩, cs)
  | _ => none

def readLiteral (n : Nat) : List Char → Option (Literal × List Char)
  | '~' :: cs => (readAtom n cs).map fun (a, cs) => (⟨false, a⟩, cs)
  | cs => (readAtom n cs).map fun (a, cs) => (⟨true, a⟩, cs)

def readClause (n : Nat) (cs : List Char) : Option (Clause × List Char) :=
  match cs.dropPrefix? "$false".toList with
  | some cs => some ([], cs)
  | none => readSeparated " | ".toList (readLiteral n) n cs

/-- The name and the clause of a line `cnf(NAME, axiom, (CLAUSE)).` -/
def readLine (line : String) : Option (String × Clause) := do
  let cs ← line.toList.dropPrefix? "cnf(".toList
  let (name, cs) ← readWord Char.isLower cs
  let cs ← cs.dropPrefix? ", axiom, (".toList
  let (c, cs) ← readClause line.length cs
  if cs = ")).".toList then some (name, c) else none

/-- A word of the format with a first character of some sort. -/
def IsWord (first : Char → Bool) (s : String) : Prop :=
  ∃ c cs, s.toList = c :: cs ∧ first c ∧ ∀ d ∈ cs, isWordPart d

theorem Casing.isWord_word (k : Casing) {first : Char → Bool} (hletter : first k.letter)
    (hfold : ∀ c, c.isAlpha → first (k.fold c)) (s : String) : IsWord first (k.word s) := by
  have hall : ∀ c ∈ sanitize s, isWordPart c := fun c hc => isWordChar_of_mem_sanitize hc
  cases hs : sanitize s with
  | nil => exact absurd hs (sanitize_ne_nil s)
  | cons c cs =>
    rw [hs] at hall
    rw [IsWord, word, String.toList_ofList, hs, cased]
    split
    · rename_i hc
      exact ⟨_, _, rfl, hfold c hc, fun d hd => hall d (List.mem_cons_of_mem c hd)⟩
    · exact ⟨_, _, rfl, hletter, hall⟩

theorem isWord_lowerWord (s : String) : IsWord Char.isLower (lowerWord s) := by
  rw [← Casing.lower_word]
  exact Casing.lower.isWord_word (by decide) (Casing.forall_isAlpha (by decide)) s

theorem isWord_upperWord (s : String) : IsWord Char.isUpper (upperWord s) := by
  rw [← Casing.upper_word]
  exact Casing.upper.isWord_word (by decide) (Casing.forall_isAlpha (by decide)) s

/-- The number of a clause behind a letter is a word already. -/
theorem sanitize_numbered (n : Nat) : sanitize ("c" ++ toString n) = ("c" ++ toString n).toList := by
  apply sanitize_of_isIdentifier
  apply Names.isIdentifier_append (by decide)
  intro c hc
  rw [Nat.toString_eq_repr, Nat.toList_repr] at hc
  exact Names.isWordChar_of_isDigit (Nat.isDigit_of_mem_toDigits (by decide) (by decide) hc)

section
variable {rest : List Char}

/-- What can stand behind a term. -/
def Ends (cs : List Char) : Prop := ∀ c ∈ cs.head?, c = ',' ∨ c = ')' ∨ c = ' '

theorem Ends.cons {c : Char} (hc : c = ',' ∨ c = ')' ∨ c = ' ') (cs : List Char) :
    Ends (c :: cs) := by
  intro d hd
  rw [List.head?_cons, Option.mem_some_iff] at hd
  exact hd ▸ hc

theorem Ends.boundary (hrest : Ends rest) : Boundary rest := by
  intro c hc
  rcases hrest c hc with rfl | rfl | rfl <;> decide

theorem dropPrefix?_append (s : String) (cs : List Char) :
    (s.toList ++ cs).dropPrefix? s.toList = some cs :=
  List.dropPrefix?_append_of_beq cs (beq_self_eq_true _)

theorem dropPrefix?_cons_of_ne {c d : Char} (h : c ≠ d) (cs ds : List Char) :
    (c :: cs).dropPrefix? (d :: ds) = none := by
  rw [List.dropPrefix?, if_neg (by simpa using h)]

theorem readWord_append {first : Char → Bool} {s : String} (hs : IsWord first s)
    (hrest : Boundary rest) : readWord first (s.toList ++ rest) = some (s, rest) := by
  obtain ⟨c, cs, hcs, hc, hall⟩ := hs
  have htake : (cs ++ rest).takeWhile isWordPart = cs := takeWhile_word_append hall hrest
  have hdrop : (cs ++ rest).dropWhile isWordPart = rest := by
    have happend := List.takeWhile_append_dropWhile (p := isWordPart) (l := cs ++ rest)
    rw [htake] at happend
    exact List.append_cancel_left happend
  rw [hcs, List.cons_append, readWord, if_pos hc, htake, hdrop, ← hcs, String.ofList_toList]

theorem readWord_of_isWord_of_disjoint {first first' : Char → Bool} {s : String}
    (hs : IsWord first s) (h : ∀ c, first c → first' c = false) (rest : List Char) :
    readWord first' (s.toList ++ rest) = none := by
  obtain ⟨c, cs, hcs, hc, -⟩ := hs
  rw [hcs, List.cons_append, readWord, h c hc]
  rfl

section
variable {α β : Type} {sep : String} {read : List Char → Option (α × List Char)}
  {text : β → String} {value : β → α} {rest : List Char}

theorem readSeparated_join (hsep : ∀ rest, Ends (sep.toList ++ rest)) (hrest : Ends rest)
    (hstop : rest.dropPrefix? sep.toList = none) {xs : List β} (hne : xs ≠ [])
    (hread : ∀ x ∈ xs, ∀ rest, Ends rest → read ((text x).toList ++ rest) = some (value x, rest))
    {n : Nat} (hn : xs.length ≤ n) :
    readSeparated sep.toList read n ((Text.join sep (xs.map text)).toList ++ rest) =
      some (xs.map value, rest) := by
  induction xs generalizing n with
  | nil => exact absurd rfl hne
  | cons x xs ih =>
    obtain ⟨hx, hxs⟩ := List.forall_mem_cons.mp hread
    cases n with
    | zero => exact absurd hn (by simp)
    | succ n =>
      cases xs with
      | nil => simp [readSeparated, hx rest hrest, hstop]
      | cons y ys =>
        have htail := ih (by simp) hxs (Nat.le_of_succ_le_succ hn)
        rw [List.map_cons, List.map_cons, Text.toList_join_cons_cons, List.append_assoc,
          List.append_assoc, readSeparated, hx _ (hsep _)]
        rw [List.map_cons] at htail
        simp only [Option.bind_eq_bind, Option.bind_some, dropPrefix?_append, htail, List.map_cons]

/-- The length of a text bounds the number of the things in it and the length of each of them. -/
theorem readSeparated_join_of_length (hpos : 0 < sep.toList.length)
    (hsep : ∀ rest, Ends (sep.toList ++ rest)) (hrest : Ends rest)
    (hstop : rest.dropPrefix? sep.toList = none) {xs : List β} (hne : xs ≠ []) {n : Nat}
    (hn : (Text.join sep (xs.map text)).toList.length < n)
    (hread : ∀ x ∈ xs, ∀ rest, (text x).toList.length < n → Ends rest →
      read ((text x).toList ++ rest) = some (value x, rest)) :
    readSeparated sep.toList read n ((Text.join sep (xs.map text)).toList ++ rest) =
      some (xs.map value, rest) := by
  have hlen : xs.length ≤ n := by
    have := Text.length_list_le_join sep hpos (xs.map text)
    rw [List.length_map] at this
    omega
  apply readSeparated_join hsep hrest hstop hne _ hlen
  intro x hx rest hrest
  have := Text.length_le_join sep (List.mem_map_of_mem (f := text) hx)
  exact hread x hx rest (by omega) hrest

end

end

theorem not_isUpper_of_isLower {c : Char} (hc : c.isLower) : c.isUpper = false := by
  have hletters : ∀ c : Char, c.isAlpha → c.isLower → c.isUpper = false :=
    Casing.forall_isAlpha (by decide)
  exact hletters c (Bool.or_eq_true_iff.mpr (Or.inr hc)) hc

theorem toList_applied {args : List String} (h : args ≠ []) (word : String) :
    (applied word args).toList = word.toList ++ '(' :: ((Text.join "," args).toList ++ [')']) := by
  rw [applied, if_neg (by simpa using h)]
  simp

theorem readTerm_applied {w : String} (hw : IsWord Char.isLower w) {ts : List Term} {n : Nat}
    (hn : (applied w (terms ts)).toList.length < n)
    (hargs : ∀ t ∈ ts, ∀ n rest, (term t).toList.length < n → Ends rest →
      readTerm n ((term t).toList ++ rest) = some (words.term t, rest))
    {rest : List Char} (hrest : Ends rest) :
    readTerm n ((applied w (terms ts)).toList ++ rest) = some (.app w (words.terms ts), rest) := by
  obtain ⟨n, rfl⟩ : ∃ m, n = m + 1 := ⟨n - 1, by omega⟩
  have hvar (cs : List Char) : readWord Char.isUpper (w.toList ++ cs) = none :=
    readWord_of_isWord_of_disjoint hw (fun _ => not_isUpper_of_isLower) cs
  by_cases hts : ts = []
  · subst hts
    rw [show applied w (terms []) = w from rfl, readTerm, hvar, readWord_append hw hrest.boundary]
    cases rest with
    | nil => rfl
    | cons c cs => rcases hrest c rfl with rfl | rfl | rfl <;> rfl
  · have hne : ts.map term ≠ [] := by simpa using hts
    rw [terms_eq_map, toList_applied hne] at hn ⊢
    simp only [List.length_append, List.length_cons, List.length_nil] at hn
    have hread : readSeparated ",".toList (readTerm n) n
        ((Text.join "," (ts.map term)).toList ++ ')' :: rest) =
          some (ts.map words.term, ')' :: rest) := by
      have hcomma (cs : List Char) : Ends (",".toList ++ cs) := Ends.cons (Or.inl rfl) cs
      have hclosing : Ends (')' :: rest) := Ends.cons (Or.inr (Or.inl rfl)) rest
      have hstop := dropPrefix?_cons_of_ne (show ')' ≠ ',' by decide) rest []
      apply readSeparated_join_of_length (by decide) hcomma hclosing hstop hts (by omega)
      intro t ht
      exact hargs t ht n
    have happend : w.toList ++ '(' :: ((Text.join "," (ts.map term)).toList ++ [')']) ++ rest =
        w.toList ++ ('(' :: ((Text.join "," (ts.map term)).toList ++ ')' :: rest)) := by simp
    rw [happend, readTerm, hvar, readWord_append hw (boundary_cons rfl _)]
    have hclose : (')' :: rest).dropPrefix? ")".toList = some rest := dropPrefix?_append ")" rest
    simp only [Option.bind_eq_bind, Option.bind_some, hread, hclose]
    rw [Relabeling.terms_eq_map]

theorem readTerm_term {t : Term} (ht : t.wellFormed) {n : Nat} (hn : (term t).toList.length < n)
    {rest : List Char} (hrest : Ends rest) :
    readTerm n ((term t).toList ++ rest) = some (words.term t, rest) := by
  induction t generalizing n rest with
  | var x =>
    obtain ⟨n, rfl⟩ : ∃ m, n = m + 1 := ⟨n - 1, by omega⟩
    rw [term, readTerm, readWord_append (isWord_upperWord x) hrest.boundary]
    rfl
  | app f ts ih =>
    rw [Term.wellFormed, Term.allWellFormed_eq_all, List.all_eq_true] at ht
    exact readTerm_applied (isWord_lowerWord f) hn
      (fun t hmem _ _ hn hrest => ih t hmem (ht t hmem) hn hrest) hrest
  | stray p ts => exact absurd ht (by simp [Term.wellFormed])

section
variable {a : Atom} {l : Literal} {c : Clause} {n : Nat} {rest : List Char}

theorem readAtom_atom (ha : a.wellFormed) (hn : (atom a).toList.length < n) (hrest : Ends rest) :
    readAtom n ((atom a).toList ++ rest) = some (words.atom a, rest) := by
  have hterm : Term.wellFormed (.app a.predicate a.args) := ha
  have hread := readTerm_term hterm hn hrest
  rw [readAtom, atom, ← term, hread]
  rfl

theorem exists_cons_atom (a : Atom) : ∃ c cs, (atom a).toList = c :: cs ∧ c.isLower := by
  obtain ⟨c, cs, hcs, hc, -⟩ := isWord_lowerWord a.predicate
  by_cases hargs : terms a.args = []
  · exact ⟨c, cs, by rw [atom, hargs]; exact hcs, hc⟩
  · exact ⟨c, _, by rw [atom, toList_applied hargs, hcs]; rfl, hc⟩

theorem readLiteral_literal (hl : l.atom.wellFormed) (hn : (literal l).toList.length < n)
    (hrest : Ends rest) :
    readLiteral n ((literal l).toList ++ rest) = some (words.literal l, rest) := by
  obtain ⟨positive, a⟩ := l
  cases positive with
  | false =>
    have htext : (literal ⟨false, a⟩).toList = '~' :: (atom a).toList := String.toList_append
    rw [htext] at hn ⊢
    rw [List.cons_append, readLiteral, readAtom_atom hl (Nat.lt_of_succ_lt hn) hrest]
    rfl
  | true =>
    obtain ⟨c, cs, hcs, hc⟩ := exists_cons_atom a
    have hsign : ∀ ds, (atom a).toList ++ rest = '~' :: ds → False := by
      intro ds h
      rw [hcs, List.cons_append, List.cons.injEq] at h
      rw [h.1] at hc
      exact absurd hc (by decide)
    rw [show literal ⟨true, a⟩ = atom a from rfl] at hn ⊢
    rw [readLiteral.eq_2 _ _ hsign, readAtom_atom hl hn hrest]
    rfl

/-- No literal begins like the empty clause. -/
theorem dropPrefix?_literal (l : Literal) (cs : List Char) :
    ((literal l).toList ++ cs).dropPrefix? "$false".toList = none := by
  obtain ⟨positive, a⟩ := l
  cases positive with
  | false =>
    rw [show (literal ⟨false, a⟩).toList = '~' :: (atom a).toList from String.toList_append]
    exact dropPrefix?_cons_of_ne (by decide) _ _
  | true =>
    obtain ⟨c, ds, hds, hc⟩ := exists_cons_atom a
    rw [show literal ⟨true, a⟩ = atom a from rfl, hds]
    refine dropPrefix?_cons_of_ne ?_ _ _
    rintro rfl
    exact absurd hc (by decide)

theorem readClause_clause (hc : c.WellFormed) (hn : (clause c).toList.length < n) (rest : List Char) :
    readClause n ((clause c).toList ++ ')' :: rest) = some (words.clause c, ')' :: rest) := by
  by_cases hne : c = []
  · subst hne
    rw [readClause, show clause [] = "$false" from rfl, dropPrefix?_append]
    rfl
  · have htext : clause c = Text.join " | " (c.map literal) := if_neg (by simpa using hne)
    have hfalse : ((clause c).toList ++ ')' :: rest).dropPrefix? "$false".toList = none := by
      obtain ⟨l, ls, rfl⟩ := List.exists_cons_of_ne_nil hne
      rw [htext, List.map_cons, Text.toList_join_cons, List.append_assoc]
      exact dropPrefix?_literal l _
    rw [readClause, hfalse]
    rw [htext] at hn ⊢
    have hbar (cs : List Char) : Ends (" | ".toList ++ cs) := Ends.cons (Or.inr (Or.inr rfl)) _
    have hclosing : Ends (')' :: rest) := Ends.cons (Or.inr (Or.inl rfl)) rest
    have hstop := dropPrefix?_cons_of_ne (show ')' ≠ ' ' by decide) rest "| ".toList
    apply readSeparated_join_of_length (by decide) hbar hclosing hstop hne hn
    intro l hl rest hlen hrest
    exact readLiteral_literal (hc l hl) hlen hrest

theorem readLine_line (hc : c.WellFormed) (i : Nat) :
    readLine (line ("c" ++ toString i) "axiom" c) = some ("c" ++ toString i, words.clause c) := by
  have hname : IsWord Char.isLower ("c" ++ toString i) := by
    refine ⟨'c', (toString i).toList, String.toList_append, by decide, fun d hd => ?_⟩
    have hmem : d ∈ sanitize ("c" ++ toString i) := by
      rw [sanitize_numbered, String.toList_append]
      exact List.mem_append_right _ hd
    exact isWordChar_of_mem_sanitize hmem
  have htext : (line ("c" ++ toString i) "axiom" c).toList =
      "cnf(".toList ++ (("c" ++ toString i).toList ++
        (", axiom, (".toList ++ ((clause c).toList ++ ")).".toList))) := by
    rw [line, sanitize_numbered]
    simp
  have hn : (clause c).toList.length < (line ("c" ++ toString i) "axiom" c).length := by
    rw [← String.length_toList, htext]
    simp only [List.length_append]
    have : 0 < ")).".toList.length := by decide
    omega
  have hreadName (cs : List Char) :
      readWord Char.isLower (("c" ++ toString i).toList ++ (", axiom, (".toList ++ cs)) =
        some ("c" ++ toString i, ", axiom, (".toList ++ cs) :=
    readWord_append hname (boundary_cons rfl _)
  have hreadClause : readClause (line ("c" ++ toString i) "axiom" c).length
      ((clause c).toList ++ ")).".toList) = some (words.clause c, ")).".toList) :=
    readClause_clause hc hn ").".toList
  rw [readLine, htext]
  simp only [Option.bind_eq_bind, dropPrefix?_append, Option.bind_some, hreadName, hreadClause,
    if_true]

end

/-- Every line holds the name and the number of its clause, and the clause itself but for its names.
A name is replaced by a word that is made from this name alone. -/
theorem readLine_lines {cs : List Clause} (hcs : ∀ c ∈ cs, c.WellFormed) :
    (∀ s, IsWord Char.isLower (lowerWord s)) ∧ (∀ s, IsWord Char.isUpper (upperWord s)) ∧
      (lines "c" cs).map readLine =
        cs.mapIdx fun i c => some ("c" ++ toString (i + 1), words.clause c) := by
  refine ⟨isWord_lowerWord, isWord_upperWord, ?_⟩
  refine List.ext_getElem? fun i => ?_
  rw [lines, List.getElem?_map, List.getElem?_mapIdx, List.getElem?_mapIdx]
  cases hc : cs[i]? with
  | none => rfl
  | some c =>
    have hread := readLine_line (hcs c (List.mem_of_getElem? hc)) (i + 1)
    exact congrArg some hread

theorem readLine_lines_of_odd_names :
    (lines "c" [[⟨false, ⟨"", [.app " f(x), " [.var "\n", .app "é" []]]⟩⟩, ⟨true, ⟨"_'q'", []⟩⟩], []]).map
      readLine =
        [some ("c1", [⟨false, ⟨"x", [.app "f_x__" [.var "X", .app "s_" []]]⟩⟩, ⟨true, ⟨"s__q_", []⟩⟩]),
          some ("c2", [])] := by
  have hread := (@readLine_lines
    [[⟨false, ⟨"", [.app " f(x), " [.var "\n", .app "é" []]]⟩⟩, ⟨true, ⟨"_'q'", []⟩⟩], []]
    (by decide)).2.2
  rw [hread]
  decide

end Tptp

end Clausification

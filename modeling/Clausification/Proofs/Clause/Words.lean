import Clausification.Clause.Tptp
import Clausification.Proofs.Clause.Relabeling
import Clausification.Proofs.Token.Scan

/-!
# Words of names

Predicates, functions and variables become words by the case of their first letter, or, where they
begin with an underscore, by a letter in front of it. An identifier has no other character to lose. So
two identifiers become one word only if they differ in nothing but this case, or in this letter.
-/

namespace Clausification

namespace Tptp

/-- A first letter in one of its two cases, and the letter that goes in front of an underscore. -/
structure Casing where
  fold : Char → Char
  letter : Char
  isAlpha_letter : letter.isAlpha
  fold_letter : fold letter = letter
  isAlpha_fold : ∀ c, c.isAlpha → (fold c).isAlpha
  toLower_fold : ∀ c, c.isAlpha → (fold c).toLower = c.toLower
  fold_toLower : ∀ c, c.isAlpha → fold c.toLower = fold c

namespace Casing

-- All letters of identifiers are among the first 128 characters, so a law of theirs can be computed.
theorem forall_isAlpha {P : Char → Prop} (h : ∀ n < 128, (Char.ofNat n).isAlpha → P (Char.ofNat n))
    (c : Char) (hc : c.isAlpha) : P c := by
  have hword : isWordChar c := by simp [isWordChar, Char.isAlphanum, hc]
  have hlt : c.toNat < 128 := by
    have := toNat_of_isWordChar hword
    omega
  have hP := h c.toNat hlt
  rw [Char.ofNat_toNat] at hP
  exact hP hc

def lower : Casing where
  fold := Char.toLower
  letter := 's'
  isAlpha_letter := by decide
  fold_letter := by decide
  isAlpha_fold := forall_isAlpha (by decide)
  toLower_fold := forall_isAlpha (by decide)
  fold_toLower := forall_isAlpha (by decide)

def upper : Casing where
  fold := Char.toUpper
  letter := 'V'
  isAlpha_letter := by decide
  fold_letter := by decide
  isAlpha_fold := forall_isAlpha (by decide)
  toLower_fold := forall_isAlpha (by decide)
  fold_toLower := forall_isAlpha (by decide)

variable (k : Casing)

/-- An identifier in this case. -/
def cased : List Char → List Char
  | [] => []
  | c :: cs => if c.isAlpha then k.fold c :: cs else k.letter :: c :: cs

def word (s : String) : String := String.ofList (k.cased (sanitize s))

theorem lower_word : lower.word = lowerWord := by
  funext s
  rw [word, lowerWord]
  cases sanitize s <;> rfl

theorem upper_word : upper.word = upperWord := by
  funext s
  rw [word, upperWord]
  cases sanitize s <;> rfl

theorem fold_eq_fold_iff {c d : Char} (hc : c.isAlpha) (hd : d.isAlpha) :
    k.fold c = k.fold d ↔ c.toLower = d.toLower := by
  constructor
  · intro h
    rw [← k.toLower_fold c hc, h, k.toLower_fold d hd]
  · intro h
    rw [← k.fold_toLower c hc, h, k.fold_toLower d hd]

theorem fold_fold {c : Char} (hc : c.isAlpha) : k.fold (k.fold c) = k.fold c :=
  (k.fold_eq_fold_iff (k.isAlpha_fold c hc) hc).mpr (k.toLower_fold c hc)

end Casing

theorem sanitize_of_isIdentifier {s : String} (hs : isIdentifier s.toList) :
    sanitize s = s.toList := by
  have hstrip : Text.stripList s.toList = s.toList := (Inked.identifier hs).stripList_eq
  have hmap : (s.toList.map fun c => if isWordPart c then c else '_') = s.toList := by
    refine (List.map_congr_left fun c hc => if_pos ?_).trans (List.map_id _)
    exact forall_isWordChar_of_isIdentifier hs c hc
  rw [sanitize, hstrip, hmap]
  split
  · rename_i hnil
    simp [hnil, isIdentifier] at hs
  · rfl

theorem isWordChar_of_mem_sanitize {s : String} {c : Char} (hc : c ∈ sanitize s) :
    isWordChar c := by
  rw [sanitize] at hc
  split at hc
  · rw [List.mem_singleton.mp hc]
    decide
  · obtain ⟨d, -, rfl⟩ := List.mem_map.mp hc
    split
    · assumption
    · decide

namespace Casing
variable (k : Casing)

theorem isIdentifier_cased {cs : List Char} (hne : cs ≠ []) (hcs : ∀ c ∈ cs, isWordChar c) :
    isIdentifier (k.cased cs) := by
  cases cs with
  | nil => exact absurd rfl hne
  | cons c cs =>
    have htail : cs.all isWordChar :=
      List.all_eq_true.mpr fun d hd => hcs d (List.mem_cons_of_mem c hd)
    rw [cased]
    split
    · rename_i hc
      rw [isIdentifier, isWordStart, k.isAlpha_fold c hc, htail]
      rfl
    · rw [isIdentifier, isWordStart, k.isAlpha_letter, List.all_cons, hcs c List.mem_cons_self,
        htail]
      rfl

theorem cased_cased (cs : List Char) : k.cased (k.cased cs) = k.cased cs := by
  cases cs with
  | nil => rfl
  | cons c cs =>
    rw [cased]
    split
    · rename_i hc
      rw [cased, if_pos (k.isAlpha_fold c hc), k.fold_fold hc]
    · rw [cased, if_pos k.isAlpha_letter, k.fold_letter]

theorem word_word (s : String) : k.word (k.word s) = k.word s := by
  have hidentifier : isIdentifier (k.word s).toList := by
    rw [word, String.toList_ofList]
    exact k.isIdentifier_cased (sanitize_ne_nil s) fun _ hc => isWordChar_of_mem_sanitize hc
  rw [word, sanitize_of_isIdentifier hidentifier, word, String.toList_ofList, cased_cased]

end Casing

theorem Casing.word_eq_self (k : Casing) {s : String} {c : Char} {cs : List Char}
    (hs : isIdentifier s.toList) (hcs : s.toList = c :: cs) (hc : c.isAlpha)
    (hfold : k.fold c = c) : k.word s = s := by
  rw [word, sanitize_of_isIdentifier hs, hcs, cased, if_pos hc, hfold, ← hcs, String.ofList_toList]

/-- The words of predicates, functions and variables. -/
def words : Relabeling := ⟨lowerWord, lowerWord, upperWord⟩

theorem lowerWord_lowerWord (s : String) : lowerWord (lowerWord s) = lowerWord s := by
  rw [← Casing.lower_word, Casing.word_word]

theorem upperWord_upperWord (s : String) : upperWord (upperWord s) = upperWord s := by
  rw [← Casing.upper_word, Casing.word_word]

theorem words_comp_words : words.comp words = words := by
  simp only [words, Relabeling.comp, Function.comp_def, lowerWord_lowerWord, upperWord_upperWord]

theorem term_words (t : Term) : term (words.term t) = term t := by
  induction t with
  | var x => exact upperWord_upperWord x
  | app f ts ih =>
    have hargs : (words.terms ts).map term = ts.map term := by
      rw [Relabeling.terms_eq_map, List.map_map]
      exact List.map_congr_left ih
    rw [Relabeling.term, term, term, terms_eq_map, terms_eq_map, hargs]
    exact congrArg (applied · (ts.map term)) (lowerWord_lowerWord f)
  | stray p ts => exact lowerWord_lowerWord p

theorem atom_words (a : Atom) : atom (words.atom a) = atom a := by
  have hargs : (words.terms a.args).map term = a.args.map term := by
    rw [Relabeling.terms_eq_map, List.map_map]
    exact List.map_congr_left fun t _ => term_words t
  rw [atom, atom, Relabeling.atom, terms_eq_map, terms_eq_map, hargs]
  exact congrArg (applied · (a.args.map term)) (lowerWord_lowerWord a.predicate)

theorem clause_words (c : Clause) : clause (words.clause c) = clause c := by
  have hliterals : (words.clause c).map literal = c.map literal := by
    rw [Relabeling.clause, List.map_map]
    refine List.map_congr_left fun l _ => ?_
    rw [Function.comp, literal, literal, Relabeling.literal, atom_words]
  rw [clause, clause, hliterals, Relabeling.clause, List.isEmpty_map]

/-- Written with the words for names, clauses are the same lines. -/
theorem lines_words (letter : String) (cs : List Clause) :
    lines letter (cs.map words.clause) = lines letter cs := by
  refine List.ext_getElem? fun i => ?_
  rw [lines, lines, List.getElem?_mapIdx, List.getElem?_mapIdx, List.getElem?_map, Option.map_map]
  simp only [Function.comp_def, line, clause_words]

/-- Two names that agree but for the case of the first letter. -/
def SameButCase (s t : String) : Prop :=
  ∃ c d cs, s.toList = c :: cs ∧ t.toList = d :: cs ∧ c.toLower = d.toLower

/-- The first name begins with an underscore, and the second is the first behind a letter, in either
case. -/
def Behind (letter : Char) (s t : String) : Prop :=
  ∃ c cs, s.toList = '_' :: cs ∧ t.toList = c :: '_' :: cs ∧ c.toLower = letter.toLower

theorem sameButCase_iff {s t : String} {c d : Char} {cs ds : List Char} (hs : s.toList = c :: cs)
    (ht : t.toList = d :: ds) : SameButCase s t ↔ c.toLower = d.toLower ∧ cs = ds := by
  constructor
  · rintro ⟨c', d', cs', hc, hd, hcase⟩
    rw [hs, List.cons.injEq] at hc
    rw [ht, List.cons.injEq] at hd
    rw [hc.1, hd.1, hc.2, hd.2]
    exact ⟨hcase, rfl⟩
  · rintro ⟨hcase, rfl⟩
    exact ⟨c, d, cs, hs, ht, hcase⟩

theorem behind_iff {letter : Char} {s t : String} {c d : Char} {cs ds : List Char}
    (hs : s.toList = c :: cs) (ht : t.toList = d :: ds) :
    Behind letter s t ↔ c = '_' ∧ d.toLower = letter.toLower ∧ ds = '_' :: cs := by
  constructor
  · rintro ⟨d', cs', hc, hd, hcase⟩
    rw [hs, List.cons.injEq] at hc
    rw [ht, List.cons.injEq] at hd
    rw [hd.1, hd.2, hc.2]
    exact ⟨hc.1, hcase, rfl⟩
  · rintro ⟨rfl, hcase, rfl⟩
    exact ⟨d, cs, hs, ht, hcase⟩

namespace Casing
variable (k : Casing) {s t : String}

theorem word_eq_word_iff (hs : isIdentifier s.toList) (ht : isIdentifier t.toList) :
    k.word s = k.word t ↔ SameButCase s t ∨ Behind k.letter s t ∨ Behind k.letter t s := by
  have hunderscore : ∀ c : Char, c.isAlpha → c ≠ '_' ∧ c.toLower ≠ '_' := forall_isAlpha (by decide)
  have hletter (c : Char) (hc : c.isAlpha) :
      k.fold c = k.letter ↔ c.toLower = k.letter.toLower := by
    rw [← k.fold_eq_fold_iff hc k.isAlpha_letter, k.fold_letter]
  obtain ⟨c, cs, hcs, hc, -⟩ := exists_cons_of_isIdentifier hs
  obtain ⟨d, ds, hds, hd, -⟩ := exists_cons_of_isIdentifier ht
  rw [word, word, sanitize_of_isIdentifier hs, sanitize_of_isIdentifier ht, String.ofList_inj,
    sameButCase_iff hcs hds, behind_iff hcs hds, behind_iff hds hcs, hcs, hds]
  -- each of the three ways belongs to one way for the names to begin
  rcases hc with hc | rfl <;> rcases hd with hd | rfl
  · simp [cased, hc, hd, k.fold_eq_fold_iff hc hd, hunderscore c hc, hunderscore d hd]
  · simp [cased, hc, hletter c hc, hunderscore c hc]
  · simp [cased, hd, eq_comm (a := k.letter), eq_comm (a := '_'), eq_comm (a := ds), hletter d hd,
      hunderscore d hd]
  · have hne := (hunderscore k.letter k.isAlpha_letter).2
    simp [cased, eq_comm (a := '_'), hne]

end Casing

end Tptp

end Clausification

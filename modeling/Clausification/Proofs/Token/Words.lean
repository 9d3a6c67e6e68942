import Clausification.Proofs.Token.Scan

/-!
# Words

What is read as a token is a word of its kind: a fixed spelling, or a name. No spelling is the
beginning of another one and none begins with a blank, so the order of the recognizers matters
between keywords and names only. Whether a word is read depends on the characters of the word and on
the one behind it, which may always be exchanged for a character of no word.
-/

namespace Clausification

/-- The fixed spellings of a token. -/
def Recognizer.spellings : Recognizer → List Spelling
  | spelled _ ss => ss
  | blanks | identifier => []

/-- A token of some kind is read from a word if other characters follow. -/
inductive IsWord : TokenKind → List Char → List Char → Prop
  | spelled {k : TokenKind} {r : Recognizer} {s : Spelling} {rest : List Char}
    (hr : r ∈ recognizers) (hkind : r.kind = some k) (hs : s ∈ r.spellings)
    (hrest : s.endsBefore rest) : IsWord k s.chars rest
  | name {x : String} {rest : List Char} (hx : isName x) (hrest : Boundary rest) :
    IsWord .ident x.toList rest

namespace Spelling
variable {s : Spelling} {cs rest : List Char} {n : Nat}

theorem matchLength_append (h : s.endsBefore rest) :
    s.matchLength (s.chars ++ rest) = some s.chars.length := by
  rw [matchLength, List.drop_left, h, Bool.and_true,
    if_pos (List.isPrefixOf_iff_prefix.mpr (List.prefix_append _ _))]

theorem exists_of_matchLength (h : s.matchLength cs = some n) :
    ∃ rest, cs = s.chars ++ rest ∧ s.endsBefore rest ∧ n = s.chars.length := by
  rw [matchLength] at h
  split at h
  · rename_i hmatch
    rw [Bool.and_eq_true, List.isPrefixOf_iff_prefix] at hmatch
    obtain ⟨⟨rest, rfl⟩, hrest⟩ := hmatch
    rw [List.drop_left] at hrest
    exact ⟨rest, rfl, hrest, (Option.some.inj h).symm⟩
  · cases h

theorem endsBefore_of_boundary (s : Spelling) (h : Boundary rest) : s.endsBefore rest := by
  cases rest with
  | nil => cases s <;> rfl
  | cons c cs =>
    have hc : isWordChar c = false := h c rfl
    cases s with
    | command w =>
      simp only [isWordChar, Char.isAlphanum, Bool.or_eq_false_iff] at hc
      simp [endsBefore, hc]
    | keyword w => simp [endsBefore, hc]
    | sign t => rfl

theorem endsBefore_congr (s : Spelling) (h : rest.head? = cs.head?) :
    s.endsBefore rest = s.endsBefore cs := by
  cases rest <;> cases cs <;> cases h <;> cases s <;> rfl

/-- A spelling is not empty and has no blanks in it. If it looks like a keyword or a control word,
it ends like one. -/
def isProper (s : Spelling) : Bool :=
  !s.chars.isEmpty && s.chars.all (!Text.isBlank ·) &&
    (!keywords.contains (String.ofList s.chars) || s = keyword (String.ofList s.chars)) &&
    (s.chars.head? != some '\\' || s = command (String.ofList s.chars.tail))

theorem isProper_iff : s.isProper ↔ s.chars ≠ [] ∧ (∀ c ∈ s.chars, Text.isBlank c = false) ∧
    (String.ofList s.chars ∈ keywords → s = keyword (String.ofList s.chars)) ∧
    (s.chars.head? = some '\\' → s = command (String.ofList s.chars.tail)) := by
  simp [isProper, imp_iff_not_or, and_assoc]

end Spelling

/-- All spellings, each with its recognizer. -/
def spellings : List (Recognizer × Spelling) := recognizers.flatMap fun r => r.spellings.map (r, ·)

theorem mem_spellings {r : Recognizer} {s : Spelling} :
    (r, s) ∈ spellings ↔ r ∈ recognizers ∧ s ∈ r.spellings := by
  simp [spellings]

section
variable {r r' : Recognizer} {s s' : Spelling}

/-- No spelling is the beginning of another one. -/
theorem eq_of_prefix_chars (hs : (r, s) ∈ spellings) (hs' : (r', s') ∈ spellings)
    (h : s.chars <+: s'.chars) : (r, s) = (r', s') := by
  have hall : spellings.all (fun p => spellings.all fun q =>
      !p.2.chars.isPrefixOf q.2.chars || p = q) = true := by decide
  have hpq := List.all_eq_true.mp (List.all_eq_true.mp hall _ hs) _ hs'
  simpa [List.isPrefixOf_iff_prefix.mpr h] using hpq

/-- A text begins with one spelling at most. -/
theorem eq_of_prefixes (hs : (r, s) ∈ spellings) (hs' : (r', s') ∈ spellings) {cs : List Char}
    (h : s.chars <+: cs) (h' : s'.chars <+: cs) : (r, s) = (r', s') :=
  (List.prefix_or_prefix_of_prefix h h').elim (eq_of_prefix_chars hs hs')
    fun hle => (eq_of_prefix_chars hs' hs hle).symm

theorem isProper_of_mem (hs : (r, s) ∈ spellings) : s.isProper := by
  have hall : spellings.all (·.2.isProper) = true := by decide
  exact List.all_eq_true.mp hall _ hs

theorem chars_ne_nil (hs : (r, s) ∈ spellings) : s.chars ≠ [] :=
  (Spelling.isProper_iff.mp (isProper_of_mem hs)).1

theorem isBlank_of_mem_chars (hs : (r, s) ∈ spellings) : ∀ c ∈ s.chars, Text.isBlank c = false :=
  (Spelling.isProper_iff.mp (isProper_of_mem hs)).2.1

theorem eq_keyword (hs : (r, s) ∈ spellings) (h : String.ofList s.chars ∈ keywords) :
    s = .keyword (String.ofList s.chars) :=
  (Spelling.isProper_iff.mp (isProper_of_mem hs)).2.2.1 h

theorem eq_command (hs : (r, s) ∈ spellings) (h : s.chars.head? = some '\\') :
    s = .command (String.ofList s.chars.tail) :=
  (Spelling.isProper_iff.mp (isProper_of_mem hs)).2.2.2 h

end

namespace Recognizer
variable {r : Recognizer} {cs : List Char} {n : Nat}

/-- Apart from names, what is matched is a run of blanks or one of the spellings. -/
theorem exists_of_matchLength (h : r.matchLength cs = some n) (hr : r ≠ .identifier) :
    (r = .blanks ∧ ∃ c ∈ cs.head?, Text.isBlank c) ∨
      ∃ s ∈ r.spellings, s.matchLength cs = some n := by
  cases r with
  | blanks =>
    cases cs with
    | nil => cases h
    | cons c cs =>
      refine Or.inl ⟨rfl, c, rfl, ?_⟩
      by_contra hc
      simp [matchLength, hc] at h
  | spelled k ss => exact Or.inr (List.exists_of_findSome?_eq_some h)
  | identifier => exact absurd rfl hr

theorem exists_matchLength {s : Spelling} (hs : s ∈ r.spellings) (h : s.matchLength cs = some n) :
    ∃ m, r.matchLength cs = some m := by
  cases r with
  | blanks | identifier => cases hs
  | spelled k ss =>
    refine Option.ne_none_iff_exists'.mp fun hnone => ?_
    rw [matchLength, List.findSome?_eq_none_iff] at hnone
    simp [hnone s hs] at h

end Recognizer

theorem mem_dropLast_recognizers {r : Recognizer} :
    r ∈ recognizers.dropLast ↔ r ∈ recognizers ∧ r ≠ .identifier := by
  have hsplit : recognizers = recognizers.dropLast ++ [.identifier] := rfl
  constructor
  · intro hr
    refine ⟨(List.dropLast_sublist _).subset hr, ?_⟩
    rintro rfl
    exact absurd hr (by decide)
  · rintro ⟨hr, hne⟩
    rw [hsplit, List.mem_append, List.mem_singleton] at hr
    exact hr.resolve_right hne

/-- No other recognizer in front of the last one matches where a spelling ends. -/
theorem firstMatch_spelled {r : Recognizer} {s : Spelling} {rest : List Char} (hr : r ∈ recognizers)
    (hs : s ∈ r.spellings) (hrest : s.endsBefore rest) :
    firstMatch (s.chars ++ rest) = some (r, s.chars.length) := by
  have hmem := mem_spellings.mpr ⟨hr, hs⟩
  have hdrop : r ∈ recognizers.dropLast :=
    mem_dropLast_recognizers.mpr ⟨hr, by rintro rfl; cases hs⟩
  obtain ⟨m, hm⟩ := Recognizer.exists_matchLength hs (Spelling.matchLength_append hrest)
  obtain ⟨p, hp⟩ : ∃ p, (recognizers.dropLast.findSome? fun r =>
      (r.matchLength (s.chars ++ rest)).map (r, ·)) = some p := by
    refine Option.ne_none_iff_exists'.mp fun hnone => ?_
    simpa [hm] using List.findSome?_eq_none_iff.mp hnone r hdrop
  rw [firstMatch_eq, hp, Option.some_or]
  obtain ⟨r', hr', hmatch⟩ := List.exists_of_findSome?_eq_some hp
  obtain ⟨n, hn, rfl⟩ := Option.map_eq_some_iff.mp hmatch
  obtain ⟨hr', hne⟩ := mem_dropLast_recognizers.mp hr'
  rcases Recognizer.exists_of_matchLength hn hne with ⟨-, c, hc, hblank⟩ | ⟨s', hs', hmatch'⟩
  · obtain ⟨d, ds, hchars⟩ := List.exists_cons_of_ne_nil (chars_ne_nil hmem)
    have hink : Text.isBlank d = false := isBlank_of_mem_chars hmem d (by rw [hchars]; simp)
    rw [show s.chars = d :: ds from hchars] at hc
    cases hc
    simp [hink] at hblank
  · obtain ⟨rest', heq, -, rfl⟩ := Spelling.exists_of_matchLength hmatch'
    have hsame := eq_of_prefixes (mem_spellings.mpr ⟨hr', hs'⟩) hmem ⟨rest', heq.symm⟩
      (List.prefix_append _ _)
    cases hsame
    rfl

namespace IsWord
variable {k : TokenKind} {w rest rest' : List Char}

theorem exists_firstMatch (h : IsWord k w rest) :
    ∃ r, r.kind = some k ∧ firstMatch (w ++ rest) = some (r, w.length) := by
  cases h with
  | spelled hr hkind hs hrest => exact ⟨_, hkind, firstMatch_spelled hr hs hrest⟩
  | name hx hrest => exact ⟨.identifier, rfl, firstMatch_of_isName hx hrest⟩

theorem ne_nil (h : IsWord k w rest) : w ≠ [] := by
  cases h with
  | spelled hr _ hs _ => exact chars_ne_nil (mem_spellings.mpr ⟨hr, hs⟩)
  | @name x _ hx _ =>
    intro hnil
    simp [isName, hnil, isIdentifier] at hx

theorem isBlank_of_mem (h : IsWord k w rest) {c : Char} (hc : c ∈ w) : Text.isBlank c = false := by
  cases h with
  | spelled hr _ hs _ => exact isBlank_of_mem_chars (mem_spellings.mpr ⟨hr, hs⟩) c hc
  | name hx _ =>
    exact isBlank_of_isWordChar (forall_isWordChar_of_isIdentifier (isIdentifier_of_isName hx) c hc)

theorem of_boundary (h : IsWord k w rest) (hrest : Boundary rest') : IsWord k w rest' := by
  cases h with
  | spelled hr hkind hs _ => exact .spelled hr hkind hs (Spelling.endsBefore_of_boundary _ hrest)
  | name hx _ => exact .name hx hrest

theorem congr (h : IsWord k w rest) (hrest : rest.head? = rest'.head?) : IsWord k w rest' := by
  cases h with
  | @spelled _ _ s _ hr hkind hs hends =>
    exact .spelled hr hkind hs (s.endsBefore_congr hrest ▸ hends)
  | name hx hbehind =>
    refine .name hx ?_
    rw [Boundary, ← hrest]
    exact hbehind

theorem isName_of_ident (h : IsWord .ident w rest) : isName (String.ofList w) ∧ Boundary rest := by
  generalize hk : TokenKind.ident = k at h
  cases h with
  | spelled hr hkind hs _ =>
    subst hk
    rw [kind_eq_ident hr hkind] at hs
    cases hs
  | name hx hrest => exact ⟨by rwa [String.ofList_toList], hrest⟩

theorem boundary_of_keyword (h : IsWord k w rest) (hw : String.ofList w ∈ keywords) :
    Boundary rest := by
  cases h with
  | spelled hr _ hs hends =>
    rw [eq_keyword (mem_spellings.mpr ⟨hr, hs⟩) hw] at hends
    exact Spelling.endsBefore_keyword_iff.mp hends
  | name _ hrest => exact hrest

theorem isAlpha_behind_command (h : IsWord k ('\\' :: w) rest) :
    ∀ c ∈ rest.head?, c.isAlpha = false := by
  generalize hv : '\\' :: w = v at h
  cases h with
  | spelled hr _ hs hends =>
    rw [eq_command (mem_spellings.mpr ⟨hr, hs⟩) (by rw [← hv]; rfl)] at hends
    exact Spelling.endsBefore_command_iff.mp hends
  | name hx _ =>
    have hword := forall_isWordChar_of_isIdentifier (isIdentifier_of_isName hx) '\\'
    rw [← hv] at hword
    exact absurd (hword List.mem_cons_self) (by decide)

end IsWord

theorem length_of_matchLength_identifier {cs : List Char} {n : Nat}
    (h : Recognizer.identifier.matchLength cs = some n) : n = (cs.takeWhile isWordChar).length := by
  cases cs with
  | nil => cases h
  | cons c cs =>
    have hc : isWordStart c := by
      by_contra hc
      simp [Recognizer.matchLength, hc] at h
    exact Option.some.inj (h.symm.trans (matchLength_identifier hc))

/-- What the first recognizer that matches yields is a word. -/
theorem exists_isWord {cs : List Char} {r : Recognizer} {n : Nat} {k : TokenKind}
    (h : firstMatch cs = some (r, n)) (hkind : r.kind = some k) :
    ∃ w rest, cs = w ++ rest ∧ n = w.length ∧ IsWord k w rest := by
  obtain ⟨r', hr, hmatch⟩ := List.exists_of_findSome?_eq_some h
  obtain ⟨m, hm, heq⟩ := Option.map_eq_some_iff.mp hmatch
  cases heq
  by_cases hr' : r = .identifier
  · subst hr'
    cases hkind
    have hname := isName_of_firstMatch h
    obtain rfl := length_of_matchLength_identifier hm
    rw [← List.prefix_iff_eq_take.mp (List.takeWhile_prefix _)] at hname
    have hword := IsWord.name hname (boundary_dropWhile cs)
    rw [String.toList_ofList] at hword
    exact ⟨_, _, List.takeWhile_append_dropWhile.symm, rfl, hword⟩
  · rcases Recognizer.exists_of_matchLength hm hr' with ⟨rfl, -⟩ | ⟨s, hs, hmatch'⟩
    · cases hkind
    · obtain ⟨rest, rfl, hrest, rfl⟩ := Spelling.exists_of_matchLength hmatch'
      exact ⟨s.chars, rest, rfl, rfl, .spelled hr hkind hs hrest⟩

theorem isBlank_of_firstMatch {c : Char} {cs : List Char} {r : Recognizer} {n : Nat}
    (h : firstMatch (c :: cs) = some (r, n)) (hkind : r.kind = none) : Text.isBlank c := by
  obtain ⟨r', -, hmatch⟩ := List.exists_of_findSome?_eq_some h
  obtain ⟨m, hm, heq⟩ := Option.map_eq_some_iff.mp hmatch
  cases heq
  cases r with
  | spelled | identifier => cases hkind
  | blanks =>
    rcases Recognizer.exists_of_matchLength hm (by simp) with ⟨-, d, hd, hblank⟩ | ⟨s, hs, -⟩
    · cases hd
      exact hblank
    · cases hs

/-- What a text begins with: a blank, a word, or a character that no token begins with. -/
theorem blank_or_word_or_none (c : Char) (cs : List Char) :
    Text.isBlank c ∨ (∃ k w rest, c :: cs = w ++ rest ∧ IsWord k w rest) ∨
      firstMatch (c :: cs) = none := by
  cases hmatch : firstMatch (c :: cs) with
  | none => exact Or.inr (Or.inr rfl)
  | some p =>
    cases hkind : p.1.kind with
    | none => exact Or.inl (isBlank_of_firstMatch hmatch hkind)
    | some k =>
      obtain ⟨w, rest, heq, -, hw⟩ := exists_isWord hmatch hkind
      exact Or.inr (Or.inl ⟨k, w, rest, heq, hw⟩)

end Clausification

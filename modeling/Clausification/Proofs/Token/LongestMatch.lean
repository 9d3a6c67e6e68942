import Clausification.Proofs.Token.Rules

/-!
# The longest match

Scanning takes the first recognizer that matches, and this is one that matches the most characters.
Two recognizers match at the same place only where a keyword stands, which could be a name as well,
and then they match the same characters. So in any order of the recognizers the same characters are
taken for a token, and of which kind it is depends on nothing but whether keywords are looked for
before names are.
-/

namespace Clausification

/-- Keywords are among the spellings. -/
def Recognizer.hasKeyword (r : Recognizer) : Bool := keywords.any (r.spells ·)

/-- The recognizer accepts as many characters at the beginning of a text as any other. If another one
accepts as many, this is because a keyword could be a name as well. -/
structure LongestMatch (cs : List Char) (r : Recognizer) (n : Nat) : Prop where
  mem : r ∈ recognizers
  matchLength_eq : r.matchLength cs = some n
  longest : ∀ r' ∈ recognizers, ∀ m ∈ r'.matchLength cs, m ≤ n
  keyword_first : ∀ r' ∈ recognizers, r' ≠ r → n ∈ r'.matchLength cs →
    r.hasKeyword ∧ r' = .identifier

/-- The first recognizer of a list that accepts at the beginning of a text, and the length it
accepts. -/
def firstMatchIn (rs : List Recognizer) (cs : List Char) : Option (Recognizer × Nat) :=
  rs.findSome? fun r => (r.matchLength cs).map (r, ·)

/-- No recognizer of keywords stands behind the one of names. -/
def KeywordsFirst (rs : List Recognizer) : Prop :=
  rs.Pairwise fun r r' => r = .identifier → ¬ r'.hasKeyword

/-- What comes of scanning by longest matches a text the first character of which stands at some
offset. -/
inductive ScansLongest (strict : Bool) : Nat → List Char → Except Unrecognized Scan → Prop
  | done (o : Nat) : ScansLongest strict o [] (.ok {})
  | blanks {o n : Nat} {r : Recognizer} {cs : List Char} {result : Except Unrecognized Scan}
    (hmatch : LongestMatch cs r n) (hkind : r.kind = none)
    (hrest : ScansLongest strict (o + n) (cs.drop n) result) : ScansLongest strict o cs result
  | token {o n : Nat} {r : Recognizer} {k : TokenKind} {cs : List Char}
    {result : Except Unrecognized Scan} (hmatch : LongestMatch cs r n) (hkind : r.kind = some k)
    (hrest : ScansLongest strict (o + n) (cs.drop n) result) :
    ScansLongest strict o cs (result.map (·.addToken ⟨k, String.ofList (cs.take n), o⟩))
  | skip {o : Nat} {c : Char} {cs : List Char} {result : Except Unrecognized Scan}
    (hnone : ∀ r ∈ recognizers, r.matchLength (c :: cs) = none) (hstrict : strict = false)
    (hrest : ScansLongest strict (o + 1) cs result) :
    ScansLongest strict o (c :: cs) (result.map (·.addSkip ⟨c, o⟩))
  | stop {o : Nat} {c : Char} {cs : List Char}
    (hnone : ∀ r ∈ recognizers, r.matchLength (c :: cs) = none) (hstrict : strict = true) :
    ScansLongest strict o (c :: cs) (.error ⟨c, o⟩)

section
variable {r r' : Recognizer} {s : Spelling} {cs : List Char} {n n' : Nat}

/-- A spelling that matches is the only one that the text begins with, and it is no blank. -/
theorem exists_of_matchLength_spelling (hs : (r, s) ∈ spellings)
    (h : s.matchLength cs = some n) :
    n = s.chars.length ∧ s.chars <+: cs ∧ ∃ c ∈ cs.head?, Text.isBlank c = false := by
  obtain ⟨rest, rfl, -, rfl⟩ := Spelling.exists_of_matchLength h
  refine ⟨rfl, List.prefix_append _ _, ?_⟩
  obtain ⟨c, ds, hchars⟩ := List.exists_cons_of_ne_nil (chars_ne_nil hs)
  refine ⟨c, ?_, isBlank_of_mem_chars hs c ?_⟩
  · rw [hchars]
    rfl
  · rw [hchars]
    exact List.mem_cons_self

theorem Recognizer.eq_of_matchLength (hr : r ∈ recognizers) (hr' : r' ∈ recognizers)
    (hne : r ≠ .identifier) (hne' : r' ≠ .identifier) (h : r.matchLength cs = some n)
    (h' : r'.matchLength cs = some n') : r = r' := by
  rcases exists_of_matchLength h hne with ⟨rfl, c, hc, hblank⟩ | ⟨s, hs, hmatch⟩ <;>
    rcases exists_of_matchLength h' hne' with ⟨rfl, c', hc', hblank'⟩ | ⟨s', hs', hmatch'⟩
  · rfl
  · obtain ⟨-, -, d, hd, hink⟩ :=
      exists_of_matchLength_spelling (mem_spellings.mpr ⟨hr', hs'⟩) hmatch'
    obtain rfl := Option.mem_unique hc hd
    simp [hink] at hblank
  · obtain ⟨-, -, d, hd, hink⟩ :=
      exists_of_matchLength_spelling (mem_spellings.mpr ⟨hr, hs⟩) hmatch
    obtain rfl := Option.mem_unique hc' hd
    simp [hink] at hblank'
  · have hmem := mem_spellings.mpr ⟨hr, hs⟩
    have hmem' := mem_spellings.mpr ⟨hr', hs'⟩
    obtain ⟨-, hprefix, -⟩ := exists_of_matchLength_spelling hmem hmatch
    obtain ⟨-, hprefix', -⟩ := exists_of_matchLength_spelling hmem' hmatch'
    exact congrArg Prod.fst (eq_of_prefixes hmem hmem' hprefix hprefix')

theorem Recognizer.keyword_mem_spellings {w : String} (h : r.spells w) :
    .keyword w ∈ r.spellings := by
  cases r with
  | spelled k ss => simpa [spells, spellings] using h
  | blanks => cases h
  | identifier => cases h

theorem exists_keyword_of_matchLength (hr : r ∈ recognizers) (hne : r ≠ .identifier)
    (h : r.matchLength cs = some n) (hname : Recognizer.identifier.matchLength cs = some n') :
    ∃ w ∈ keywords, cs.takeWhile isWordChar = w.toList := by
  cases cs with
  | nil => cases hname
  | cons c cs =>
    have hc : isWordStart c := by
      by_contra hc
      simp [Recognizer.matchLength, hc] at hname
    by_contra hkeyword
    have hnone := Recognizer.matchLength_eq_none (mem_dropLast_recognizers.mpr ⟨hr, hne⟩)
      (isWordChar_of_isWordStart hc) fun w hw hrun => hkeyword ⟨w, hw, hrun⟩
    rw [hnone] at h
    cases h

/-- Where a name is matched and something else too, a keyword stands, and both are as long as it. -/
theorem Recognizer.keyword_of_matchLength (hr : r ∈ recognizers) (hne : r ≠ .identifier)
    (h : r.matchLength cs = some n) (hname : identifier.matchLength cs = some n') :
    n = n' ∧ ∃ w ∈ keywords, r.spells w ∧ cs.take n = w.toList := by
  obtain ⟨w, hw, hrun⟩ := exists_keyword_of_matchLength hr hne h hname
  obtain ⟨r', hr', hspells⟩ := exists_spells hw
  obtain ⟨m, hm⟩ := Option.ne_none_iff_exists'.mp (matchLength_ne_none hspells hw hrun)
  obtain ⟨hr', hne'⟩ := mem_dropLast_recognizers.mp hr'
  obtain rfl := eq_of_matchLength hr hr' hne hne' h hm
  obtain rfl := length_of_matchLength_identifier hname
  have htake : cs.take (cs.takeWhile isWordChar).length = w.toList := by
    rw [← List.prefix_iff_eq_take.mp (List.takeWhile_prefix _), hrun]
  -- of the spellings of the recognizer, only the keyword can be the one that matches
  have hn : n = (cs.takeWhile isWordChar).length := by
    rcases exists_of_matchLength h hne with ⟨rfl, -⟩ | ⟨s, hs, hmatch⟩
    · cases hspells
    · have hmem := mem_spellings.mpr ⟨hr, hs⟩
      have hmem' := mem_spellings.mpr ⟨hr, keyword_mem_spellings hspells⟩
      obtain ⟨rfl, hprefix, -⟩ := exists_of_matchLength_spelling hmem hmatch
      have hprefix' : w.toList <+: cs := hrun ▸ List.takeWhile_prefix _
      cases eq_of_prefixes hmem hmem' hprefix hprefix'
      exact congrArg List.length hrun.symm
  rw [hn]
  exact ⟨rfl, w, hw, hspells, htake⟩

/-- Of two recognizers that match at the same place, one looks for a keyword and finds it, and the
other one takes it for a name. -/
theorem Recognizer.keyword_of_ne (hr : r ∈ recognizers) (hr' : r' ∈ recognizers) (hne : r ≠ r')
    (h : r.matchLength cs = some n) (h' : r'.matchLength cs = some n') :
    n = n' ∧ ∃ w ∈ keywords, cs.take n = w.toList ∧
      (r.spells w ∧ r' = .identifier ∨ r = .identifier ∧ r'.spells w) := by
  by_cases hid : r = .identifier
  · subst hid
    obtain ⟨rfl, w, hw, hspells, htake⟩ := keyword_of_matchLength hr' hne.symm h' h
    exact ⟨rfl, w, hw, htake, Or.inr ⟨rfl, hspells⟩⟩
  · have hid' : r' = .identifier := by
      by_contra hid'
      exact hne (eq_of_matchLength hr hr' hid hid' h h')
    subst hid'
    obtain ⟨rfl, w, hw, hspells, htake⟩ := keyword_of_matchLength hr hid h h'
    exact ⟨rfl, w, hw, htake, Or.inl ⟨hspells, rfl⟩⟩

theorem Recognizer.hasKeyword_iff : r.hasKeyword ↔ ∃ w ∈ keywords, r.spells w := List.any_eq_true

namespace LongestMatch

theorem eq (h : LongestMatch cs r n) (h' : LongestMatch cs r' n') : r = r' ∧ n = n' := by
  have hn : n = n' := Nat.le_antisymm (h'.longest r h.mem n h.matchLength_eq)
    (h.longest r' h'.mem n' h'.matchLength_eq)
  subst hn
  refine ⟨?_, rfl⟩
  by_contra hne
  obtain ⟨-, hid'⟩ := h.keyword_first r' h'.mem (Ne.symm hne) h'.matchLength_eq
  obtain ⟨-, hid⟩ := h'.keyword_first r h.mem hne h.matchLength_eq
  exact hne (hid.trans hid'.symm)

end LongestMatch

theorem firstMatchIn_eq_some_iff {rs : List Recognizer} : firstMatchIn rs cs = some (r, n) ↔
    ∃ before behind, rs = before ++ r :: behind ∧ r.matchLength cs = some n ∧
      ∀ r' ∈ before, r'.matchLength cs = none := by
  rw [firstMatchIn, List.findSome?_eq_some_iff]
  simp only [Option.map_eq_some_iff, Option.map_eq_none_iff, Prod.mk.injEq]
  constructor
  · rintro ⟨before, r', behind, hrs, ⟨m, hm, rfl, rfl⟩, hbefore⟩
    exact ⟨before, behind, hrs, hm, hbefore⟩
  · rintro ⟨before, behind, hrs, hm, hbefore⟩
    exact ⟨before, r, behind, hrs, ⟨n, hm, rfl, rfl⟩, hbefore⟩

theorem longestMatch_of_firstMatchIn {rs : List Recognizer} (hrs : rs.Perm recognizers)
    (hfirst : KeywordsFirst rs) (h : firstMatchIn rs cs = some (r, n)) : LongestMatch cs r n := by
  obtain ⟨before, behind, rfl, hmatch, hbefore⟩ := firstMatchIn_eq_some_iff.mp h
  have hr : r ∈ recognizers := hrs.subset (by simp)
  refine ⟨hr, hmatch, fun r' hr' m hm => ?_, fun r' hr' hne hm => ?_⟩
  · by_cases hne : r = r'
    · subst hne
      exact Nat.le_of_eq (Option.some.inj (hm.symm.trans hmatch))
    · exact Nat.le_of_eq (Recognizer.keyword_of_ne hr hr' hne hmatch hm).1.symm
  · obtain ⟨-, w, hw, -, ⟨hspells, hid⟩ | ⟨rfl, hspells⟩⟩ :=
      Recognizer.keyword_of_ne hr hr' (Ne.symm hne) hmatch hm
    · exact ⟨Recognizer.hasKeyword_iff.mpr ⟨w, hw, hspells⟩, hid⟩
    · -- the one of names would have been found behind that of keywords
      exfalso
      have hr' : r' ∈ before ++ .identifier :: behind := hrs.symm.subset hr'
      rw [List.mem_append, List.mem_cons] at hr'
      rcases hr' with hr' | rfl | hr'
      · rw [hbefore r' hr'] at hm
        cases hm
      · exact hne rfl
      · have hbehind := (List.pairwise_cons.mp (List.pairwise_append.mp hfirst).2.1).1 r' hr' rfl
        exact hbehind (Recognizer.hasKeyword_iff.mpr ⟨w, hw, hspells⟩)

theorem exists_firstMatchIn {rs : List Recognizer} (hr : r ∈ rs) (h : r.matchLength cs = some n) :
    ∃ r' ∈ rs, ∃ n', firstMatchIn rs cs = some (r', n') := by
  obtain ⟨⟨r', n'⟩, hmatch⟩ : ∃ p, firstMatchIn rs cs = some p := by
    refine Option.ne_none_iff_exists'.mp fun hnone => ?_
    simpa [h] using List.findSome?_eq_none_iff.mp hnone r hr
  obtain ⟨before, behind, rfl, -, -⟩ := firstMatchIn_eq_some_iff.mp hmatch
  exact ⟨r', by simp, n', hmatch⟩

theorem firstMatchIn_eq_some_iff_longestMatch {rs : List Recognizer} (hrs : rs.Perm recognizers)
    (hfirst : KeywordsFirst rs) : firstMatchIn rs cs = some (r, n) ↔ LongestMatch cs r n := by
  refine ⟨longestMatch_of_firstMatchIn hrs hfirst, fun h => ?_⟩
  obtain ⟨r', -, n', hmatch⟩ := exists_firstMatchIn (hrs.symm.subset h.mem) h.matchLength_eq
  obtain ⟨rfl, rfl⟩ := h.eq (longestMatch_of_firstMatchIn hrs hfirst hmatch)
  exact hmatch

theorem keywordsFirst_recognizers : KeywordsFirst recognizers := by
  unfold KeywordsFirst
  decide

theorem firstMatch_eq_some_iff : firstMatch cs = some (r, n) ↔ LongestMatch cs r n :=
  firstMatchIn_eq_some_iff_longestMatch (List.Perm.refl _) keywordsFirst_recognizers

theorem firstMatch_eq_none_iff :
    firstMatch cs = none ↔ ∀ r ∈ recognizers, r.matchLength cs = none := by
  simp [firstMatch]

end

namespace LongestMatch
variable {r : Recognizer} {cs : List Char} {n : Nat}

theorem ne_nil (h : LongestMatch cs r n) : cs ≠ [] := by
  rintro rfl
  have hnone : firstMatch [] = none := by decide
  exact nomatch hnone.symm.trans (firstMatch_eq_some_iff.mpr h)

theorem length_pos (h : LongestMatch cs r n) : 0 < n := by
  have hmatch := h.matchLength_eq
  cases r with
  | blanks =>
    rw [Recognizer.matchLength] at hmatch
    split at hmatch
    · cases hmatch
    · rename_i hne
      cases hmatch
      exact List.length_pos_iff.mpr hne
  | spelled k ss =>
    obtain ⟨s, hs, hspelling⟩ := List.exists_of_findSome?_eq_some hmatch
    have hmem : (.spelled k ss, s) ∈ spellings := mem_spellings.mpr ⟨h.mem, hs⟩
    rw [(exists_of_matchLength_spelling hmem hspelling).1]
    exact List.length_pos_iff.mpr (chars_ne_nil hmem)
  | identifier =>
    obtain ⟨c, cs, rfl⟩ := List.exists_cons_of_ne_nil h.ne_nil
    rw [Recognizer.matchLength] at hmatch
    split at hmatch
    · cases hmatch
      exact Nat.succ_pos _
    · cases hmatch

/-- A scan takes the longest match away and goes on behind it. -/
theorem scanFrom_eq (h : LongestMatch cs r n) (strict : Bool) (o : Nat) :
    scanFrom strict o cs =
      match r.kind with
      | some k => (scanFrom strict (o + n) (cs.drop n)).map
          (·.addToken ⟨k, String.ofList (cs.take n), o⟩)
      | none => scanFrom strict (o + n) (cs.drop n) := by
  obtain ⟨c, cs, rfl⟩ := List.exists_cons_of_ne_nil h.ne_nil
  obtain ⟨m, rfl⟩ := Nat.exists_eq_add_one_of_ne_zero (Nat.ne_of_gt h.length_pos)
  rw [scanFrom, firstMatch_eq_some_iff.mpr h]
  rfl

end LongestMatch

section
variable {strict : Bool} {o : Nat} {cs : List Char} {result : Except Unrecognized Scan}

theorem ScansLongest.scanFrom_eq (h : ScansLongest strict o cs result) :
    scanFrom strict o cs = result := by
  induction h with
  | done o => exact scanFrom_nil strict o
  | blanks hmatch hkind _ ih =>
    rw [hmatch.scanFrom_eq, hkind]
    exact ih
  | token hmatch hkind _ ih =>
    rw [hmatch.scanFrom_eq, hkind, ← ih]
  | skip hnone hstrict _ ih =>
    rw [scanFrom, firstMatch_eq_none_iff.mpr hnone, ← ih, hstrict]
    rfl
  | stop hnone hstrict =>
    rw [scanFrom, firstMatch_eq_none_iff.mpr hnone, hstrict]
    rfl

end

end Clausification

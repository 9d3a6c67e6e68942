import Mathlib.Data.List.TakeWhile
import Clausification.Proofs.Result
import Clausification.Token.Scan

/-!
# What the scanner finds

A run of word characters is one token: a keyword if it is spelled like one, otherwise a name. So the
names among the tokens of a text are identifiers and no keywords, and writing such names and signs
one after the other gives these tokens back, as long as no name runs into the next one.
-/

namespace Clausification

/-- The words that are not read as names. -/
def keywords : List String := ["forall", "exists", "not", "and", "or"]

/-- A letter or an underscore, and then letters, digits and underscores. -/
def isIdentifier : List Char → Bool
  | [] => false
  | c :: cs => isWordStart c && cs.all isWordChar

/-- An identifier that is no keyword. -/
def isName (s : String) : Bool := isIdentifier s.toList && !keywords.contains s

/-- The text does not go on with a character of a word. -/
def Boundary (cs : List Char) : Prop := ∀ c ∈ cs.head?, isWordChar c = false

theorem boundary_nil : Boundary [] := fun _ hc => nomatch hc

theorem isWordChar_of_isWordStart {c : Char} (h : isWordStart c) : isWordChar c := by
  simp only [isWordStart, isWordChar, Char.isAlphanum, Bool.or_eq_true] at h ⊢
  exact h.imp_left Or.inl

theorem forall_isWordChar_of_isIdentifier {cs : List Char} (hcs : isIdentifier cs) :
    ∀ c ∈ cs, isWordChar c := by
  cases cs with
  | nil => exact fun _ h => nomatch h
  | cons c cs =>
    rw [isIdentifier, Bool.and_eq_true, List.all_eq_true] at hcs
    exact List.forall_mem_cons.mpr ⟨isWordChar_of_isWordStart hcs.1, hcs.2⟩

theorem exists_cons_of_isIdentifier {cs : List Char} (hcs : isIdentifier cs) :
    ∃ d ds, cs = d :: ds ∧ (d.isAlpha ∨ d = '_') ∧ ∀ c ∈ ds, isWordChar c := by
  cases cs with
  | nil => simp [isIdentifier] at hcs
  | cons d ds =>
    have hall := forall_isWordChar_of_isIdentifier hcs
    rw [isIdentifier, Bool.and_eq_true, isWordStart, Bool.or_eq_true, beq_iff_eq] at hcs
    exact ⟨d, ds, rfl, hcs.1, fun c hc => hall c (List.mem_cons_of_mem d hc)⟩

theorem isIdentifier_of_isName {s : String} (hs : isName s) : isIdentifier s.toList := by
  rw [isName, Bool.and_eq_true] at hs
  exact hs.1

theorem toNat_of_isWordChar {c : Char} (h : isWordChar c) :
    48 ≤ c.toNat ∧ c.toNat ≤ 57 ∨ 65 ≤ c.toNat ∧ c.toNat ≤ 90 ∨ c.toNat = 95 ∨
      97 ≤ c.toNat ∧ c.toNat ≤ 122 := by
  unfold isWordChar at h
  delta Char.isAlphanum Char.isAlpha Char.isUpper Char.isLower Char.isDigit at h
  simp only [Bool.or_eq_true, Bool.and_eq_true, decide_eq_true_eq, beq_iff_eq,
    UInt32.le_iff_toNat_le, ge_iff_le] at h
  rcases h with ((h | h) | h) | rfl
  · exact Or.inr (Or.inl h)
  · exact Or.inr (Or.inr (Or.inr h))
  · exact Or.inl h
  · exact Or.inr (Or.inr (Or.inl rfl))

theorem isBlank_of_isWordChar {c : Char} (h : isWordChar c) : Text.isBlank c = false := by
  rw [Bool.eq_false_iff]
  intro hblank
  obtain ⟨i, hi, hc⟩ := (Text.inIntervals_iff _ c).mp hblank
  have hword := toNat_of_isWordChar h
  simp only [Text.blanks, List.mem_cons, List.not_mem_nil, or_false] at hi
  rcases hi with rfl | rfl | rfl | rfl | rfl | rfl | rfl | rfl | rfl | rfl <;> simp only at hc <;>
    omega

theorem takeWhile_word_append {w rest : List Char} (hw : ∀ c ∈ w, isWordChar c)
    (hrest : Boundary rest) : (w ++ rest).takeWhile isWordChar = w := by
  rw [List.takeWhile_append_of_pos hw]
  cases rest with
  | nil => simp
  | cons c cs => simp [hrest c rfl]

theorem boundary_dropWhile (cs : List Char) : Boundary (cs.dropWhile isWordChar) := by
  intro c hc
  have hhead := List.head?_dropWhile_not isWordChar cs
  rw [Option.mem_def.mp hc] at hhead
  simpa using hhead

namespace Spelling

/-- A spelling that begins with a character of no word, or else is a keyword. -/
def isApart : Spelling → Bool
  | keyword w => keywords.contains w
  | s => match s.chars with
    | [] => false
    | c :: _ => !isWordChar c

theorem endsBefore_keyword_iff {w : String} {cs : List Char} :
    (keyword w).endsBefore cs ↔ Boundary cs := by
  cases cs <;> simp [endsBefore, Boundary]

theorem endsBefore_command_iff {w : String} {cs : List Char} :
    (command w).endsBefore cs ↔ ∀ c ∈ cs.head?, c.isAlpha = false := by
  cases cs <;> simp [endsBefore]

/-- A keyword is found where a run of word characters spells it. -/
theorem matchLength_keyword {w : String} (hw : ∀ c ∈ w.toList, isWordChar c) (cs : List Char) :
    ((keyword w).matchLength cs).isSome ↔ cs.takeWhile isWordChar = w.toList := by
  have hmatch : ((keyword w).matchLength cs).isSome ↔
      w.toList <+: cs ∧ Boundary (cs.drop w.toList.length) := by
    rw [← endsBefore_keyword_iff (w := w), ← List.isPrefixOf_iff_prefix, ← Bool.and_eq_true,
      matchLength]
    split <;> simp_all [chars]
  rw [hmatch]
  constructor
  · rintro ⟨⟨t, rfl⟩, ht⟩
    rw [List.drop_left] at ht
    exact takeWhile_word_append hw ht
  · intro h
    have hcs := List.takeWhile_append_dropWhile (p := isWordChar) (l := cs)
    rw [h] at hcs
    rw [← hcs, List.drop_left]
    exact ⟨List.prefix_append _ _, boundary_dropWhile cs⟩

theorem isWordChar_of_mem_keywords {w : String} (hw : w ∈ keywords) :
    ∀ c ∈ w.toList, isWordChar c := by
  have hall : keywords.all (fun w => w.toList.all isWordChar) = true := by decide
  exact List.all_eq_true.mp (List.all_eq_true.mp hall w hw)

theorem matchLength_eq_none {s : Spelling} (hs : s.isApart) {c : Char} {cs : List Char}
    (hc : isWordChar c)
    (hkeyword : ∀ w ∈ keywords, (c :: cs).takeWhile isWordChar ≠ w.toList) :
    s.matchLength (c :: cs) = none := by
  have hprefix : ∀ d ds, s.chars = d :: ds → isWordChar d = false → s.matchLength (c :: cs) = none := by
    intro d ds hd hword
    have hne : d ≠ c := by
      rintro rfl
      exact absurd hc (by simp [hword])
    rw [matchLength, hd]
    simp [hne]
  cases s with
  | command w => exact hprefix '\\' w.toList rfl rfl
  | keyword w =>
    have hw : w ∈ keywords := by simpa [isApart] using hs
    rw [← Option.not_isSome_iff_eq_none, matchLength_keyword (isWordChar_of_mem_keywords hw)]
    exact hkeyword w hw
  | sign t =>
    cases ht : t.toList with
    | nil => simp [isApart, chars, ht] at hs
    | cons d ds => exact hprefix d ds ht (by simpa [isApart, chars, ht] using hs)

end Spelling

namespace Recognizer

/-- Names are read by one recognizer only, and no spelling of another token begins like a name,
keywords apart. -/
def isRegular : Recognizer → Bool
  | blanks | identifier => true
  | spelled k ss => k ≠ .ident && ss.all (·.isApart)

theorem isRegular_of_mem {r : Recognizer} (h : r ∈ recognizers) : r.isRegular := by
  have hall : recognizers.all isRegular = true := by decide
  exact List.all_eq_true.mp hall r h

/-- Whether a recognizer looks for a keyword. -/
def spells (w : String) : Recognizer → Bool
  | spelled _ ss => ss.contains (.keyword w)
  | _ => false

theorem exists_spells {w : String} (hw : w ∈ keywords) :
    ∃ r ∈ recognizers.dropLast, r.spells w := by
  have hall : keywords.all (fun w => recognizers.dropLast.any (·.spells w)) = true := by decide
  exact List.any_eq_true.mp (List.all_eq_true.mp hall w hw)

theorem matchLength_eq_none {r : Recognizer} (hr : r ∈ recognizers.dropLast) {c : Char}
    {cs : List Char} (hc : isWordChar c)
    (hkeyword : ∀ w ∈ keywords, (c :: cs).takeWhile isWordChar ≠ w.toList) :
    r.matchLength (c :: cs) = none := by
  have hregular := isRegular_of_mem ((List.dropLast_sublist _).subset hr)
  cases r with
  | blanks => simp [matchLength, isBlank_of_isWordChar hc]
  | spelled k ss =>
    simp only [isRegular, Bool.and_eq_true, List.all_eq_true] at hregular
    rw [matchLength, List.findSome?_eq_none_iff]
    exact fun s hs => Spelling.matchLength_eq_none (hregular.2 s hs) hc hkeyword
  | identifier => exact absurd hr (by decide)

theorem matchLength_ne_none {r : Recognizer} {w : String} (hr : r.spells w) (hw : w ∈ keywords)
    {cs : List Char} (hcs : cs.takeWhile isWordChar = w.toList) : r.matchLength cs ≠ none := by
  cases r with
  | spelled k ss =>
    rw [matchLength, Ne, List.findSome?_eq_none_iff]
    intro h
    have hsome := (Spelling.matchLength_keyword (Spelling.isWordChar_of_mem_keywords hw) cs).mpr hcs
    rw [h (.keyword w) (by simpa [spells] using hr)] at hsome
    cases hsome
  | blanks => cases hr
  | identifier => cases hr

end Recognizer

theorem firstMatch_eq (cs : List Char) :
    firstMatch cs = (recognizers.dropLast.findSome? fun r => (r.matchLength cs).map (r, ·)).or
      ((Recognizer.identifier.matchLength cs).map (.identifier, ·)) := by
  have hsplit : recognizers = recognizers.dropLast ++ [.identifier] := rfl
  rw [firstMatch, hsplit, List.findSome?_append, List.dropLast_concat, List.findSome?_singleton]

theorem matchLength_identifier {c : Char} {cs : List Char} (hc : isWordStart c) :
    Recognizer.identifier.matchLength (c :: cs) = some ((c :: cs).takeWhile isWordChar).length := by
  rw [Recognizer.matchLength, if_pos hc, List.takeWhile_cons_of_pos (isWordChar_of_isWordStart hc)]
  rfl

/-- A run of word characters that is no keyword is a name. -/
theorem firstMatch_name {c : Char} {cs : List Char} (hc : isWordStart c)
    (hkeyword : ∀ w ∈ keywords, (c :: cs).takeWhile isWordChar ≠ w.toList) :
    firstMatch (c :: cs) = some (.identifier, ((c :: cs).takeWhile isWordChar).length) := by
  have hnone : (recognizers.dropLast.findSome? fun r =>
      (r.matchLength (c :: cs)).map (r, ·)) = none := by
    rw [List.findSome?_eq_none_iff]
    intro r hr
    rw [Recognizer.matchLength_eq_none hr (isWordChar_of_isWordStart hc) hkeyword]
    rfl
  rw [firstMatch_eq, hnone, matchLength_identifier hc]
  rfl

theorem firstMatch_of_isName {x : String} {rest : List Char} (hx : isName x)
    (hrest : Boundary rest) : firstMatch (x.toList ++ rest) = some (.identifier, x.toList.length) := by
  rw [isName, Bool.and_eq_true, Bool.not_eq_true', List.contains_eq_mem,
    decide_eq_false_iff_not] at hx
  obtain ⟨hidentifier, hkeyword⟩ := hx
  have hrun := takeWhile_word_append (forall_isWordChar_of_isIdentifier hidentifier) hrest
  cases hcs : x.toList with
  | nil => simp [hcs, isIdentifier] at hidentifier
  | cons c cs =>
    rw [hcs, List.cons_append] at hrun
    rw [hcs, isIdentifier, Bool.and_eq_true] at hidentifier
    rw [List.cons_append, firstMatch_name hidentifier.1 fun w hw h => ?_, hrun]
    exact hkeyword (String.toList_inj.mp (hcs.trans (hrun.symm.trans h)) ▸ hw)

/-- What is read as a name is a name. -/
theorem isName_of_firstMatch {cs : List Char} {n : Nat}
    (h : firstMatch cs = some (.identifier, n)) : isName (String.ofList (cs.take n)) := by
  rw [firstMatch_eq, Option.or_eq_some_iff] at h
  rcases h with h | ⟨hnone, h⟩
  · obtain ⟨r, hr, hmatch⟩ := List.exists_of_findSome?_eq_some h
    obtain ⟨m, -, hm⟩ := Option.map_eq_some_iff.mp hmatch
    cases hm
    exact absurd hr (by decide)
  · obtain ⟨m, hm, hn⟩ := Option.map_eq_some_iff.mp h
    cases hn
    cases cs with
    | nil => cases hm
    | cons c cs =>
      have hc : isWordStart c := by
        by_contra hc
        simp [Recognizer.matchLength, hc] at hm
      obtain rfl := Option.some.inj ((matchLength_identifier hc).symm.trans hm)
      rw [← List.prefix_iff_eq_take.mp (List.takeWhile_prefix _), isName, Bool.and_eq_true,
        String.toList_ofList]
      refine ⟨?_, ?_⟩
      · rw [List.takeWhile_cons_of_pos (isWordChar_of_isWordStart hc), isIdentifier, hc]
        simp
      · -- a keyword would have been found by the recognizer that spells it
        simp only [Bool.not_eq_true', List.contains_eq_mem, decide_eq_false_iff_not]
        intro hkeyword
        obtain ⟨r, hr, hspells⟩ := Recognizer.exists_spells hkeyword
        have hne := Recognizer.matchLength_ne_none hspells hkeyword (String.toList_ofList).symm
        exact hne (by simpa using List.findSome?_eq_none_iff.mp hnone r hr)

theorem kind_eq_ident {r : Recognizer} (hr : r ∈ recognizers) (h : r.kind = some .ident) :
    r = .identifier := by
  have hregular := Recognizer.isRegular_of_mem hr
  cases r with
  | blanks => cases h
  | spelled k ss =>
    cases h
    simp [Recognizer.isRegular] at hregular
  | identifier => rfl

theorem isName_of_mem_scanFrom {strict : Bool} {offset : Nat} {cs : List Char} {scanned : Scan}
    (h : scanFrom strict offset cs = .ok scanned) :
    ∀ t ∈ scanned.tokens, t.kind = .ident → isName t.text := by
  fun_induction scanFrom strict offset cs generalizing scanned with
  | case1 =>
    cases h
    exact fun t ht => nomatch ht
  | case2 offset c cs r n hmatch rest kind hkind =>
    rename_i ih
    obtain ⟨s, hrest, rfl⟩ := map_eq_ok.mp h
    intro t ht hident
    rcases List.mem_cons.mp ht with rfl | ht
    · obtain ⟨r', hr', hmatch'⟩ := List.exists_of_findSome?_eq_some hmatch
      obtain ⟨m, hm, heq⟩ := Option.map_eq_some_iff.mp hmatch'
      cases heq
      obtain rfl := kind_eq_ident hr' (hkind.trans (congrArg some hident))
      exact isName_of_firstMatch hmatch
    · exact ih hrest t ht hident
  | case3 offset c cs r n hmatch rest hkind =>
    rename_i ih
    exact ih h
  | case4 => cases h
  | case5 offset c cs hmatch hstrict ih =>
    obtain ⟨s, hrest, rfl⟩ := map_eq_ok.mp h
    have hs := ih hrest
    exact hs

theorem prepareList_of_no_delimiter {cs : List Char} (h : '$' ∉ cs) :
    prepareList cs = Text.stripList cs := by
  have hmap : (cs.map fun c => if c = '$' then ' ' else c) = cs := by
    refine (List.map_congr_left fun c hc => if_neg ?_).trans (List.map_id _)
    rintro rfl
    exact h hc
  rw [prepareList, hmap]

theorem Text.stripList_subset (cs : List Char) : stripList cs ⊆ cs := by
  intro c hc
  have hdropped := (List.dropWhile_sublist _).subset (List.mem_reverse.mp hc)
  exact (List.dropWhile_sublist _).subset (List.mem_reverse.mp hdropped)

theorem no_delimiter_prepareList (cs : List Char) : '$' ∉ prepareList cs := by
  intro hmem
  obtain ⟨c, -, hc⟩ := List.mem_map.mp (Text.stripList_subset _ hmem)
  split at hc
  · exact absurd hc (by decide)
  · contradiction

/-- A text that is scanned as it is: without delimiters, and without blanks at its ends. -/
structure Inked (cs : List Char) : Prop where
  no_delimiter : '$' ∉ cs
  head : ∃ c ∈ cs.head?, Text.isBlank c = false
  last : ∃ c ∈ cs.getLast?, Text.isBlank c = false

namespace Inked
variable {cs ds es : List Char}

theorem singleton {c : Char} (hc : c ≠ '$') (hblank : Text.isBlank c = false) : Inked [c] :=
  ⟨by simpa using hc.symm, ⟨c, rfl, hblank⟩, c, rfl, hblank⟩

theorem append (hc : Inked cs) (hd : '$' ∉ ds) (he : Inked es) : Inked (cs ++ (ds ++ es)) := by
  obtain ⟨c, hc', hcblank⟩ := hc.head
  obtain ⟨e, he', heblank⟩ := he.last
  refine ⟨by simp [hc.no_delimiter, hd, he.no_delimiter], ⟨c, ?_, hcblank⟩, e, ?_, heblank⟩
  · rw [Option.mem_def, List.head?_append, Option.mem_def.mp hc']
    rfl
  · rw [Option.mem_def, List.getLast?_append, List.getLast?_append, Option.mem_def.mp he']
    rfl

theorem dropWhile_eq {cs : List Char} {c : Char} (hc : c ∈ cs.head?)
    (hblank : Text.isBlank c = false) : cs.dropWhile Text.isBlank = cs := by
  cases cs with
  | nil => rfl
  | cons d cs =>
    cases hc
    exact List.dropWhile_cons_of_neg (by simp [hblank])

theorem stripList_eq (h : Inked cs) : Text.stripList cs = cs := by
  obtain ⟨c, hc, hcblank⟩ := h.head
  obtain ⟨d, hd, hdblank⟩ := h.last
  rw [Text.stripList, dropWhile_eq hc hcblank, Text.stripEnd,
    dropWhile_eq (c := d) (by rwa [List.head?_reverse]) hdblank, List.reverse_reverse]

theorem prepareList_eq (h : Inked cs) : prepareList cs = cs := by
  rw [prepareList_of_no_delimiter h.no_delimiter, h.stripList_eq]

theorem identifier (hcs : isIdentifier cs) : Inked cs := by
  cases cs with
  | nil => simp [isIdentifier] at hcs
  | cons c cs =>
    have hall := forall_isWordChar_of_isIdentifier hcs
    have hlast := List.getLast?_eq_some_getLast (List.cons_ne_nil c cs)
    exact ⟨fun h => absurd (hall _ h) (by decide), ⟨c, rfl, isBlank_of_isWordChar (hall c (by simp))⟩,
      _, hlast, isBlank_of_isWordChar (hall _ (List.getLast_mem _))⟩

theorem name {x : String} (hx : isName x) : Inked x.toList :=
  identifier (isIdentifier_of_isName hx)

end Inked

theorem firstMatch_blank {c : Char} (hc : Text.isBlank c) (cs : List Char) :
    firstMatch (c :: cs) = some (.blanks, (cs.takeWhile Text.isBlank).length + 1) := by
  simp [firstMatch, recognizers, Recognizer.matchLength, hc]

theorem scanFrom_blank {c : Char} (hc : Text.isBlank c) (strict : Bool) (offset : Nat)
    (cs : List Char) :
    scanFrom strict offset (c :: cs) = scanFrom strict (offset + 1) cs := by
  rw [scanFrom, firstMatch_blank hc]
  simp only [Recognizer.kind, Nat.add_sub_cancel]
  cases cs with
  | nil => simp
  | cons d cs =>
    by_cases hd : Text.isBlank d
    · rw [scanFrom, firstMatch_blank hd]
      simp only [Recognizer.kind, List.takeWhile_cons_of_pos hd, List.length_cons,
        List.drop_succ_cons, Nat.add_sub_cancel]
      rw [show offset + ((cs.takeWhile Text.isBlank).length + 1 + 1) =
        offset + 1 + ((cs.takeWhile Text.isBlank).length + 1) by omega]
    · simp [List.takeWhile_cons_of_neg hd]

/-- Kinds and texts of tokens. -/
abbrev Words := List (TokenKind × String)

/-- Tokens without their positions. -/
def wordsOf (ts : List Token) : Words := ts.map fun t => (t.kind, t.text)

/-- In front of some other characters, `cs` is scanned as tokens with the given kinds and texts. -/
def Yields (cs : List Char) (words : Words) (rest : List Char) : Prop :=
  ∀ strict offset, ∃ ts, wordsOf ts = words ∧
    scanFrom strict offset (cs ++ rest) =
      (scanFrom strict (offset + cs.length) rest).map fun s => { s with tokens := ts ++ s.tokens }

namespace Yields
variable {cs ds rest : List Char} {words words' : Words}

theorem append (hc : Yields cs words (ds ++ rest)) (hd : Yields ds words' rest) :
    Yields (cs ++ ds) (words ++ words') rest := by
  intro strict offset
  obtain ⟨ts, hts, hscan⟩ := hc strict offset
  obtain ⟨us, hus, hscan'⟩ := hd strict (offset + cs.length)
  refine ⟨ts ++ us, by rw [wordsOf, List.map_append]; exact congrArg₂ _ hts hus, ?_⟩
  rw [List.append_assoc, hscan, hscan', List.length_append, ← Nat.add_assoc]
  cases scanFrom strict (offset + cs.length + ds.length) rest with
  | error u => rfl
  | ok s => simp [Except.map]

theorem nil (rest : List Char) : Yields [] [] rest := by
  intro strict offset
  refine ⟨[], rfl, ?_⟩
  rw [List.nil_append, List.length_nil, Nat.add_zero]
  cases scanFrom strict offset rest <;> rfl

theorem blank (rest : List Char) : Yields [' '] [] rest := by
  intro strict offset
  refine ⟨[], rfl, ?_⟩
  rw [List.singleton_append, scanFrom_blank (by decide)]
  cases scanFrom strict (offset + 1) rest <;> rfl

/-- A token that is read whatever follows what is spelled. -/
theorem token {r : Recognizer} {k : TokenKind} {c : Char} (hkind : r.kind = some k)
    (hmatch : firstMatch (c :: (cs ++ rest)) = some (r, cs.length + 1)) :
    Yields (c :: cs) [(k, String.ofList (c :: cs))] rest := by
  intro strict offset
  refine ⟨[⟨k, String.ofList (c :: cs), offset⟩], rfl, ?_⟩
  rw [List.cons_append, scanFrom, hmatch]
  simp only [hkind, Nat.add_sub_cancel, List.drop_left, List.take_succ_cons, List.take_left,
    List.length_cons]
  rfl

theorem name {x : String} (hx : isName x) (hrest : Boundary rest) :
    Yields x.toList [(.ident, x)] rest := by
  have hmatch := firstMatch_of_isName hx hrest
  cases hcs : x.toList with
  | nil => simp [isName, hcs, isIdentifier] at hx
  | cons c cs =>
    rw [hcs] at hmatch
    rw [show x = String.ofList (c :: cs) by rw [← hcs, String.ofList_toList]]
    exact token rfl hmatch

/-- A text without delimiters and blanks at its ends is scanned as it is. -/
theorem exists_scan {s : String} (h : Yields s.toList words []) (hs : Inked s.toList)
    (strict : Bool) : ∃ ts, wordsOf ts = words ∧ scan strict s = .ok { tokens := ts } := by
  obtain ⟨ts, hts, hscan⟩ := h strict 0
  refine ⟨ts, hts, ?_⟩
  rw [scan, hs.prepareList_eq, ← List.append_nil s.toList, hscan, scanFrom_nil]
  simp [Except.map]

end Yields

end Clausification

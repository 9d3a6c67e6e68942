import Mathlib.Data.List.Induction
import Clausification.Proofs.Text
import Clausification.Proofs.Token.Rules

/-!
# Blanks around tokens

A blank behind a word never changes how the word is read. So blanks at the ends of a text may be
dropped, a character that is passed over may be replaced by a space, and the texts of the tokens
with spaces between them are scanned as the same tokens.
-/

namespace Clausification

variable {o : Nat} {c : Char} {cs ds rest : List Char} {s s' : Scan}

theorem boundary_of_isBlank (hc : Text.isBlank c) (cs : List Char) : Boundary (c :: cs) := by
  intro d hd
  cases hd
  rw [Bool.eq_false_iff]
  intro hword
  simp [isBlank_of_isWordChar hword] at hc

/-- A word may also stand at the end. -/
theorem IsWord.of_append_singleton {k : TokenKind} {w : List Char}
    (h : IsWord k w (rest ++ [c])) : IsWord k w rest := by
  cases rest with
  | nil => exact h.of_boundary boundary_nil
  | cons d ds => exact h.congr rfl

theorem IsWord.append_blank {k : TokenKind} {w : List Char} (hc : Text.isBlank c)
    (h : IsWord k w rest) : IsWord k w (rest ++ [c]) := by
  cases rest with
  | nil => exact h.of_boundary (boundary_of_isBlank hc [])
  | cons d ds => exact h.congr rfl

theorem firstMatch_of_append_blank (hc : Text.isBlank c) {d : Char}
    (h : firstMatch (d :: (ds ++ [c])) = none) : firstMatch (d :: ds) = none := by
  rcases blank_or_word_or_none d ds with hd | ⟨k, w, rest, heq, hw⟩ | hnone
  · rw [firstMatch_blank hd] at h
    cases h
  · obtain ⟨r, -, hmatch⟩ := (hw.append_blank hc).exists_firstMatch
    rw [← List.append_assoc, ← heq, List.cons_append, h] at hmatch
    cases hmatch
  · exact hnone

namespace Scans

theorem unique (h : Scans o cs s) (h' : Scans o cs s') : s = s' :=
  Except.ok.inj (h.scanFrom_eq.symm.trans h'.scanFrom_eq)

theorem of_blank (hc : Text.isBlank c) (h : Scans o (c :: cs) s) : Scans (o + 1) cs s := by
  obtain ⟨s', hs'⟩ := exists_scans (o + 1) cs
  rwa [h.unique (.blank hc hs')]

theorem of_append_blank (hc : Text.isBlank c) (h : Scans o (cs ++ [c]) s) : Scans o cs s := by
  generalize hds : cs ++ [c] = ds at h
  induction h generalizing cs with
  | done => simp at hds
  | @blank o d ds s hd h ih =>
    cases cs with
    | nil =>
      obtain ⟨-, rfl⟩ := List.cons.inj hds
      rw [h.unique (.done _)]
      exact .done o
    | cons e cs =>
      obtain ⟨rfl, htail⟩ := List.cons.inj hds
      exact .blank hd (ih htail)
  | @token o k w rest s hw h ih =>
    rcases List.eq_nil_or_concat rest with rfl | ⟨rest, d, rfl⟩
    · rw [List.append_nil] at hds
      have hink := hw.isBlank_of_mem (c := c) (by simp [← hds])
      simp [hink] at hc
    · rw [List.concat_eq_append, ← List.append_assoc] at hds
      obtain ⟨rfl, hd⟩ := List.append_inj' hds rfl
      obtain rfl := List.cons.inj hd |>.1
      rw [List.concat_eq_append] at hw
      exact .token hw.of_append_singleton (ih List.concat_eq_append.symm)
  | @skip o d ds s hd h ih =>
    cases cs with
    | nil =>
      obtain ⟨rfl, -⟩ := List.cons.inj hds
      rw [firstMatch_blank hc] at hd
      cases hd
    | cons e cs =>
      obtain ⟨rfl, rfl⟩ := List.cons.inj hds
      exact .skip (firstMatch_of_append_blank hc hd) (ih rfl)

theorem of_stripEnd (h : Scans o cs s) : Scans o (Text.stripEnd cs) s := by
  induction cs using List.reverseRecOn with
  | nil => exact h
  | append_singleton cs c ih =>
    rw [Text.stripEnd, List.reverse_concat, List.dropWhile_cons]
    split
    · rename_i hc
      exact ih (h.of_append_blank hc)
    · rw [← List.reverse_concat, List.reverse_reverse]
      exact h

theorem of_stripList (h : Scans o cs s) : ∃ o', Scans o' (Text.stripList cs) s := by
  rw [Text.stripList]
  induction cs generalizing o with
  | nil => exact ⟨o, h.of_stripEnd⟩
  | cons c cs ih =>
    rw [List.dropWhile_cons]
    split
    · rename_i hc
      exact ih (h.of_blank hc)
    · exact ⟨o, h.of_stripEnd⟩

/-- Where a text begins is only seen in the offsets. -/
theorem exists_shifted (h : Scans o cs s) (o' : Nat) : ∃ s', Scans o' cs s' ∧
    wordsOf s'.tokens = wordsOf s.tokens ∧ s'.skips.map (·.char) = s.skips.map (·.char) := by
  induction h generalizing o' with
  | done => exact ⟨_, .done o', rfl, rfl⟩
  | blank hc _ ih =>
    obtain ⟨s', hs', hwords, hchars⟩ := ih (o' + 1)
    exact ⟨s', .blank hc hs', hwords, hchars⟩
  | @token _ k w _ _ hw _ ih =>
    obtain ⟨s', hs', hwords, hchars⟩ := ih (o' + w.length)
    exact ⟨_, .token hw hs', congrArg ((k, String.ofList w) :: ·) hwords, hchars⟩
  | @skip _ c _ _ hc _ ih =>
    obtain ⟨s', hs', hwords, hchars⟩ := ih (o' + 1)
    exact ⟨_, .skip hc hs', hwords, congrArg (c :: ·) hchars⟩

/-- A text in which nothing is passed over is scanned strictly, too, after its blank ends are
dropped. -/
theorem exists_scan_strict (h : Scans o cs s) (hs : s.skips = []) (hcs : '$' ∉ cs) :
    ∃ scanned, scan true (String.ofList cs) = .ok scanned ∧
      wordsOf scanned.tokens = wordsOf s.tokens := by
  obtain ⟨o', hstrip⟩ := h.of_stripList
  obtain ⟨s', hs', hwords, hchars⟩ := hstrip.exists_shifted 0
  rw [hs, List.map_nil, List.map_eq_nil_iff] at hchars
  refine ⟨s', ?_, hwords⟩
  rw [scan, String.toList_ofList, prepareList_of_no_delimiter hcs, hs'.scanFrom_strict_eq,
    Scan.strictly, hchars]

end Scans

namespace Scan

/-- A text, the first character of which stands at some offset, with a space in the place of each
character that was passed over. -/
def clear (s : Scan) (o : Nat) (cs : List Char) : List Char :=
  (cs.zipIdx o).map fun p => if p.2 ∈ s.skips.map (·.offset) then ' ' else p.1

/-- A text with a space in the place of each character that was passed over. -/
def cleared (s : Scan) (text : String) : String := String.ofList (s.clear 0 text.toList)

theorem clear_cons (s : Scan) (o : Nat) (c : Char) (cs : List Char) : s.clear o (c :: cs) =
    (if o ∈ s.skips.map (·.offset) then ' ' else c) :: s.clear (o + 1) cs := rfl

theorem clear_cons_of_lt (h : ∀ u ∈ s.skips, o < u.offset) :
    s.clear o (c :: cs) = c :: s.clear (o + 1) cs := by
  rw [clear_cons, if_neg]
  intro hmem
  obtain ⟨u, hu, heq⟩ := List.mem_map.mp hmem
  exact Nat.lt_irrefl o (heq ▸ h u hu)

theorem clear_append (h : ∀ u ∈ s.skips, o + cs.length ≤ u.offset) :
    s.clear o (cs ++ ds) = cs ++ s.clear (o + cs.length) ds := by
  induction cs generalizing o with
  | nil => rfl
  | cons c cs ih =>
    have hlength : o + (c :: cs).length = o + 1 + cs.length := by
      rw [List.length_cons]
      omega
    rw [hlength] at h ⊢
    have hlt : ∀ u ∈ s.skips, o < u.offset := fun u hu => by
      have := h u hu
      omega
    rw [List.cons_append, clear_cons_of_lt hlt, ih h]
    rfl

theorem clear_addSkip {u : Unrecognized} (h : u.offset < o) :
    (s.addSkip u).clear o cs = s.clear o cs := by
  refine List.map_congr_left fun p hp => ?_
  have hne : p.2 ≠ u.offset := by
    have := List.le_snd_of_mem_zipIdx hp
    omega
  simp [hne]

theorem clear_cons_addSkip (s : Scan) (o : Nat) (c : Char) (cs : List Char) :
    (s.addSkip ⟨c, o⟩).clear o (c :: cs) = ' ' :: s.clear (o + 1) cs := by
  rw [clear_cons, if_pos (by simp), clear_addSkip (Nat.lt_succ_self o)]

/-- A cleared text begins as it did, or with a space. -/
theorem head?_clear (s : Scan) (o : Nat) (cs : List Char) :
    Boundary (s.clear o cs) ∨ cs.head? = (s.clear o cs).head? := by
  cases cs with
  | nil => exact Or.inr rfl
  | cons c cs =>
    rw [clear_cons]
    split
    · exact Or.inl (boundary_of_isBlank (by decide) _)
    · exact Or.inr rfl

end Scan

/-- With spaces in the places of what is passed over, the same tokens stand at the same offsets. -/
theorem Scans.clear (h : Scans o cs s) : Scans o (s.clear o cs) { s with skips := [] } := by
  induction h with
  | done o => exact .done o
  | blank hc h ih =>
    rw [Scan.clear_cons_of_lt fun u hu => h.le_offset_of_mem_skips hu]
    exact .blank hc ih
  | @token o k w rest s hw h ih =>
    have hclear : (s.addToken ⟨k, String.ofList w, o⟩).clear o (w ++ rest) =
        w ++ s.clear (o + w.length) rest :=
      Scan.clear_append fun u hu => h.le_offset_of_mem_skips hu
    have hword : IsWord k w (s.clear (o + w.length) rest) :=
      (s.head?_clear (o + w.length) rest).elim hw.of_boundary hw.congr
    rw [hclear]
    exact .token hword ih
  | skip hc h ih =>
    rw [Scan.clear_cons_addSkip]
    exact .blank (by decide) ih

theorem Scans.no_delimiter_of_mem_tokens (h : Scans o cs s) (hcs : '$' ∉ cs) {t : Token}
    (ht : t ∈ s.tokens) : '$' ∉ t.text.toList := by
  obtain ⟨after, ⟨before, rfl, -⟩, -⟩ := h.exists_of_mem_tokens ht
  exact fun hmem => hcs (List.mem_append_right _ (List.mem_append_left _ hmem))

theorem no_delimiter_clear (s : Scan) (o : Nat) (hcs : '$' ∉ cs) : '$' ∉ s.clear o cs := by
  intro hmem
  obtain ⟨p, hp, hc⟩ := List.mem_map.mp hmem
  split at hc
  · exact absurd hc (by decide)
  · exact hcs (hc ▸ List.fst_mem_of_mem_zipIdx hp)

/-- A strict scan stops at the first character that a lenient one passes over, and agrees with it if
there is none. With spaces in the places of all of them, a strict scan finds the kinds and texts of
the tokens that the lenient one finds. -/
theorem strict_scan_stops_at_first_skip (s : String) :
    ∃ scanned, scan false s = .ok scanned ∧
      (∀ u, scan true s = .error u ↔ scanned.skips.head? = some u) ∧
      (scanned.skips = [] → scan true s = .ok scanned) ∧
      ∃ again, scan true (scanned.cleared (prepare s)) = .ok again ∧
        wordsOf again.tokens = wordsOf scanned.tokens := by
  obtain ⟨scanned, hscan, h⟩ := exists_scan s
  have hstrict : scan true s = scanned.strictly := h.scanFrom_strict_eq
  refine ⟨scanned, hscan, fun u => ?_, fun hnone => ?_, ?_⟩
  · rw [hstrict, scanned.strictly_eq_error_iff]
  · rw [hstrict, scanned.strictly_eq_ok hnone]
  · rw [Scan.cleared, prepare, String.toList_ofList]
    exact h.clear.exists_scan_strict rfl (no_delimiter_clear scanned 0 (no_delimiter_prepareList _))

theorem exists_scans_join {ws : Words} (hws : ∀ p ∈ ws, ∃ rest, IsWord p.1 p.2.toList rest)
    (o : Nat) : ∃ s, Scans o (Text.join " " (ws.map (·.2))).toList s ∧ s.skips = [] ∧
      wordsOf s.tokens = ws := by
  induction ws generalizing o with
  | nil => exact ⟨_, .done o, rfl, rfl⟩
  | cons p ws ih =>
    obtain ⟨⟨_, hword⟩, hws⟩ := List.forall_mem_cons.mp hws
    cases ws with
    | nil =>
      have hend := Scans.token (hword.of_boundary boundary_nil) (.done (o + p.2.toList.length))
      rw [List.append_nil] at hend
      exact ⟨_, hend, rfl, by simp [wordsOf]⟩
    | cons q ws =>
      obtain ⟨s, hs, hskips, hwords⟩ := ih hws (o + p.2.toList.length + 1)
      have hspace : Boundary (' ' :: (Text.join " " ((q :: ws).map (·.2))).toList) :=
        boundary_of_isBlank (by decide) _
      rw [List.map_cons, List.map_cons, Text.toList_join_cons_cons]
      refine ⟨_, .token (hword.of_boundary hspace) (.blank (by decide) hs), hskips, ?_⟩
      rw [Scan.tokens_addToken, wordsOf, List.map_cons, String.ofList_toList]
      exact congrArg (p :: ·) hwords

/-- The texts of the tokens are read as the same words if they are joined by spaces. -/
theorem Scans.exists_scan_joined (h : Scans o cs s) (hcs : '$' ∉ cs) :
    ∃ again, scan true (Text.join " " (s.tokens.map (·.text))) = .ok again ∧
      wordsOf again.tokens = wordsOf s.tokens := by
  have hwords : ∀ p ∈ wordsOf s.tokens, ∃ rest, IsWord p.1 p.2.toList rest := by
    intro p hp
    obtain ⟨t, ht, rfl⟩ := List.mem_map.mp hp
    exact (h.exists_of_mem_tokens ht).imp fun _ hafter => hafter.2
  obtain ⟨joined, hjoined, hskips, htokens⟩ := exists_scans_join hwords 0
  have hdelimiter : '$' ∉ (Text.join " " ((wordsOf s.tokens).map (·.2))).toList := by
    refine Text.not_mem_join (by decide) fun x hx => ?_
    obtain ⟨p, hp, rfl⟩ := List.mem_map.mp hx
    obtain ⟨t, ht, rfl⟩ := List.mem_map.mp hp
    exact h.no_delimiter_of_mem_tokens hcs ht
  obtain ⟨again, hagain, heq⟩ := hjoined.exists_scan_strict hskips hdelimiter
  rw [String.ofList_toList, wordsOf, List.map_map] at hagain
  exact ⟨again, hagain, heq.trans htokens⟩

/-- A token is a word in front of the character behind it. -/
theorem Scans.exists_behind (h : Scans 0 cs s) {t : Token} (ht : t ∈ s.tokens) :
    ∃ after, IsWord t.kind t.text.toList after ∧
      cs[t.offset + t.text.length]? = after.head? := by
  obtain ⟨after, hafter, hword⟩ := h.exists_of_mem_tokens ht
  refine ⟨after, hword, ?_⟩
  rw [← List.head?_drop, ← List.drop_drop, hafter.drop_eq, ← String.length_toList, List.drop_left]

/-- The texts of the tokens with single spaces between them are scanned strictly as tokens of the
same kinds and texts. No name is a keyword, no name or keyword is followed by another character of a
word, and no control word by a letter. -/
theorem token_texts_delimit_themselves (s : String) :
    ∃ scanned, scan false s = .ok scanned ∧
      (∃ again, scan true (Text.join " " (scanned.tokens.map (·.text))) = .ok again ∧
        wordsOf again.tokens = wordsOf scanned.tokens) ∧
      (∀ t ∈ scanned.tokens, t.kind = .ident → t.text ∉ keywords) ∧
      (∀ t ∈ scanned.tokens, t.kind = .ident ∨ t.text ∈ keywords →
        ∀ c, (prepare s).toList[t.offset + t.text.length]? = some c → isWordChar c = false) ∧
      ∀ t ∈ scanned.tokens, t.text.toList.head? = some '\\' →
        ∀ c, (prepare s).toList[t.offset + t.text.length]? = some c → c.isAlpha = false := by
  obtain ⟨scanned, hscan, h⟩ := exists_scan s
  rw [prepare, String.toList_ofList]
  refine ⟨scanned, hscan, h.exists_scan_joined (no_delimiter_prepareList _),
    fun t ht hident => ?_, fun t ht hname c hc => ?_, fun t ht hcommand c hc => ?_⟩
  all_goals obtain ⟨after, hword, hbehind⟩ := h.exists_behind ht
  · rw [hident] at hword
    have hname := hword.isName_of_ident.1
    rw [String.ofList_toList, isName, Bool.and_eq_true] at hname
    simpa using hname.2
  · rw [hbehind] at hc
    rcases hname with hident | hkeyword
    · rw [hident] at hword
      exact hword.isName_of_ident.2 c hc
    · rw [← String.ofList_toList (s := t.text)] at hkeyword
      exact hword.boundary_of_keyword hkeyword c hc
  · rw [hbehind] at hc
    obtain ⟨w, hw⟩ := List.head?_eq_some_iff.mp hcommand
    rw [hw] at hword
    exact hword.isAlpha_behind_command c hc

end Clausification

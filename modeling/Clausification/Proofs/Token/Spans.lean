import Clausification.Proofs.Token.Rules

/-!
# Every character is accounted for

The tokens of a text and the characters that are passed over, merged by their offsets, lie behind
one another, and nothing but blanks lies between them. So together with these blanks they are the
text.
-/

namespace Clausification

/-- A part of a text: where it begins, and its characters. -/
structure Span where
  offset : Nat
  chars : List Char

def Span.stop (a : Span) : Nat := a.offset + a.chars.length

def Token.span (t : Token) : Span := ⟨t.offset, t.text.toList⟩

def Unrecognized.span (u : Unrecognized) : Span := ⟨u.offset, [u.char]⟩

/-- Two lists of spans in the order of their offsets. -/
def mergeSpans (as bs : List Span) : List Span := as.merge bs fun a b => a.offset ≤ b.offset

/-- Where the tokens are and what is passed over, merged by offset. -/
def Scan.spans (s : Scan) : List Span :=
  mergeSpans (s.tokens.map Token.span) (s.skips.map Unrecognized.span)

variable {o : Nat} {cs : List Char} {s : Scan} {spans : List Span}

theorem mergeSpans_cons_left {a : Span} {as bs : List Span} (h : ∀ b ∈ bs, a.offset ≤ b.offset) :
    mergeSpans (a :: as) bs = a :: mergeSpans as bs := by
  cases bs with
  | nil => simp [mergeSpans]
  | cons b bs =>
    simp [mergeSpans, h b List.mem_cons_self]

theorem mergeSpans_cons_right {b : Span} {as bs : List Span} (h : ∀ a ∈ as, b.offset < a.offset) :
    mergeSpans as (b :: bs) = b :: mergeSpans as bs := by
  cases as with
  | nil => simp [mergeSpans]
  | cons a as =>
    simp [mergeSpans, Nat.not_le_of_lt (h a List.mem_cons_self)]

theorem spans_nil : ({} : Scan).spans = [] := by
  simp [Scan.spans, mergeSpans]

theorem spans_addToken {t : Token} (h : ∀ u ∈ s.skips, t.offset ≤ u.offset) :
    (s.addToken t).spans = t.span :: s.spans := by
  refine mergeSpans_cons_left fun b hb => ?_
  obtain ⟨u, hu, rfl⟩ := List.mem_map.mp hb
  exact h u hu

theorem spans_addSkip {u : Unrecognized} (h : ∀ t ∈ s.tokens, u.offset < t.offset) :
    (s.addSkip u).spans = u.span :: s.spans := by
  refine mergeSpans_cons_right fun a ha => ?_
  obtain ⟨t, ht, rfl⟩ := List.mem_map.mp ha
  exact h t ht

/-- A text the first character of which stands at some offset consists of spans, one behind the
other, none of them empty, with nothing but blanks around them. -/
inductive Covers : Nat → List Span → List Char → Prop
  | last (o : Nat) {gap : List Char} (hgap : ∀ c ∈ gap, Text.isBlank c) : Covers o [] gap
  | next {o : Nat} {gap : List Char} {a : Span} {spans : List Span} {rest : List Char}
    (hgap : ∀ c ∈ gap, Text.isBlank c) (ha : a.offset = o + gap.length) (hne : a.chars ≠ [])
    (h : Covers a.stop spans rest) : Covers o (a :: spans) (gap ++ (a.chars ++ rest))

namespace Covers

theorem blank {c : Char} (hc : Text.isBlank c) (h : Covers (o + 1) spans cs) :
    Covers o spans (c :: cs) := by
  cases h with
  | last _ hgap => exact .last o (List.forall_mem_cons.mpr ⟨hc, hgap⟩)
  | @next _ gap a _ rest hgap ha hne h =>
    have ha' : a.offset = o + (c :: gap).length := by
      rw [ha, List.length_cons]
      omega
    exact .next (List.forall_mem_cons.mpr ⟨hc, hgap⟩) ha' hne h

theorem span {a : Span} (hne : a.chars ≠ []) (h : Covers a.stop spans cs) :
    Covers a.offset (a :: spans) (a.chars ++ cs) := by
  have hgap : ∀ c ∈ ([] : List Char), Text.isBlank c := fun _ hc => nomatch hc
  exact .next hgap rfl hne h

theorem le_offset (h : Covers o spans cs) : ∀ a ∈ spans, o ≤ a.offset := by
  induction h with
  | last => exact fun _ ha => nomatch ha
  | next _ ha _ _ ih =>
    refine List.forall_mem_cons.mpr ⟨by omega, fun b hb => ?_⟩
    have := ih b hb
    rw [Span.stop] at this
    omega

theorem pairwise (h : Covers o spans cs) :
    spans.Pairwise fun a b => a.offset < b.offset ∧ a.stop ≤ b.offset := by
  induction h with
  | last => exact .nil
  | next _ _ hne h ih =>
    refine .cons (fun b hb => ?_) ih
    have hlt := List.length_pos_iff.mpr hne
    have hle := h.le_offset b hb
    rw [Span.stop] at hle ⊢
    exact ⟨by omega, hle⟩

theorem isBlank_of_outside (h : Covers o spans cs) {i : Nat} {c : Char} (hc : cs[i]? = some c)
    (hi : ∀ a ∈ spans, o + i < a.offset ∨ a.stop ≤ o + i) : Text.isBlank c := by
  induction h generalizing i with
  | last o hgap => exact hgap c (List.mem_of_getElem? hc)
  | @next o gap a spans rest hgap ha _ h ih =>
    obtain ⟨hia, hi⟩ := List.forall_mem_cons.mp hi
    by_cases hlt : i < gap.length
    · rw [List.getElem?_append_left hlt] at hc
      exact hgap c (List.mem_of_getElem? hc)
    · have hstop : a.stop = o + gap.length + a.chars.length := by rw [Span.stop, ha]
      rw [List.getElem?_append_right (by omega), List.getElem?_append_right (by omega)] at hc
      refine ih hc fun b hb => ?_
      have := hi b hb
      omega

theorem exists_gaps (h : Covers o spans cs) : ∃ (gaps : List (List Char)) (last : List Char),
    gaps.length = spans.length ∧ (∀ gap ∈ last :: gaps, ∀ c ∈ gap, Text.isBlank c) ∧
    cs = (List.zipWith (fun gap a => gap ++ a.chars) gaps spans).flatten ++ last := by
  induction h with
  | @last o gap hgap => exact ⟨[], gap, rfl, by simpa using hgap, rfl⟩
  | @next o gap a spans rest hgap _ _ _ ih =>
    obtain ⟨gaps, last, hlength, hblank, rfl⟩ := ih
    refine ⟨gap :: gaps, last, by simp [hlength], ?_, by simp⟩
    obtain ⟨hlast, hgaps⟩ := List.forall_mem_cons.mp hblank
    exact List.forall_mem_cons.mpr ⟨hlast, List.forall_mem_cons.mpr ⟨hgap, hgaps⟩⟩

end Covers

theorem Scans.covers (h : Scans o cs s) : Covers o s.spans cs := by
  induction h with
  | done o =>
    rw [spans_nil]
    exact .last o fun _ hc => nomatch hc
  | blank hc _ ih => exact ih.blank hc
  | @token o k w rest s hw h ih =>
    have hafter : ∀ u ∈ s.skips, o ≤ u.offset := fun u hu =>
      Nat.le_of_add_right_le (h.le_offset_of_mem_skips hu)
    have hspan : Token.span ⟨k, String.ofList w, o⟩ = ⟨o, w⟩ := by
      rw [Token.span, String.toList_ofList]
    rw [spans_addToken hafter, hspan]
    exact ih.span (a := ⟨o, w⟩) hw.ne_nil
  | @skip o c cs s _ h ih =>
    have hafter : ∀ t ∈ s.tokens, o < t.offset := fun t ht => h.le_offset_of_mem_tokens ht
    rw [spans_addSkip hafter]
    exact ih.span (a := ⟨o, [c]⟩) (List.cons_ne_nil _ _)

/-- Every text is scanned to its end, and the tokens and the characters passed over lie one behind
the other. Each token has the characters that stand at its offset, at least one, and at the offset
of a character that is passed over no recognizer matches. All other characters are blanks, and with
them in the gaps what was found is the text. -/
theorem scanning_accounts_for_every_character (s : String) :
    ∃ scanned, scan false s = .ok scanned ∧
      (scanned.spans.Pairwise fun a b => a.offset < b.offset ∧ a.stop ≤ b.offset) ∧
      (∀ t ∈ scanned.tokens, t.text ≠ "" ∧
        t.text.toList = ((prepare s).toList.drop t.offset).take t.text.length) ∧
      (∀ u ∈ scanned.skips, (prepare s).toList[u.offset]? = some u.char ∧
        ∀ r ∈ recognizers, r.matchLength ((prepare s).toList.drop u.offset) = none) ∧
      (∀ i c, (prepare s).toList[i]? = some c →
        (∀ a ∈ scanned.spans, i < a.offset ∨ a.stop ≤ i) → Text.isBlank c) ∧
      ∃ (gaps : List (List Char)) (last : List Char), gaps.length = scanned.spans.length ∧
        (∀ gap ∈ last :: gaps, ∀ c ∈ gap, Text.isBlank c) ∧
        (prepare s).toList =
          (List.zipWith (fun gap a => gap ++ a.chars) gaps scanned.spans).flatten ++ last := by
  obtain ⟨scanned, hscan, h⟩ := exists_scan s
  rw [prepare, String.toList_ofList]
  refine ⟨scanned, hscan, h.covers.pairwise, fun t ht => ?_, fun u hu => ?_, fun i c hc hi => ?_,
    h.covers.exists_gaps⟩
  · obtain ⟨after, hafter, hword⟩ := h.exists_of_mem_tokens ht
    refine ⟨fun hnil => hword.ne_nil (by rw [hnil]; rfl), ?_⟩
    rw [hafter.drop_eq, ← String.length_toList, List.take_left]
  · obtain ⟨after, hafter, hnone⟩ := h.exists_of_mem_skips hu
    refine ⟨?_, fun r hr => ?_⟩
    · rw [← List.head?_drop, hafter.drop_eq]
      rfl
    · rw [hafter.drop_eq]
      simpa using List.findSome?_eq_none_iff.mp hnone r hr
  · refine h.covers.isBlank_of_outside hc fun a ha => ?_
    rw [Nat.zero_add]
    exact hi a ha

end Clausification

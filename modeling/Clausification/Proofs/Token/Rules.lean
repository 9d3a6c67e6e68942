import Clausification.Proofs.Token.Words

/-!
# The rules of scanning

At each position a text goes on with a blank, with a word, or with a character that no token begins
with. These three rules say all that a scan does. A strict scan follows them too, up to the first
character that would be passed over.
-/

namespace Clausification

/-- What comes of scanning a text the first character of which stands at some offset. -/
inductive Scans : Nat → List Char → Scan → Prop
  | done (o : Nat) : Scans o [] {}
  | blank {o : Nat} {c : Char} {cs : List Char} {s : Scan} (hc : Text.isBlank c)
    (h : Scans (o + 1) cs s) : Scans o (c :: cs) s
  | token {o : Nat} {k : TokenKind} {w rest : List Char} {s : Scan} (hw : IsWord k w rest)
    (h : Scans (o + w.length) rest s) :
    Scans o (w ++ rest) (s.addToken ⟨k, String.ofList w, o⟩)
  | skip {o : Nat} {c : Char} {cs : List Char} {s : Scan} (hc : firstMatch (c :: cs) = none)
    (h : Scans (o + 1) cs s) : Scans o (c :: cs) (s.addSkip ⟨c, o⟩)

/-- A strict scan stops at the first character that is passed over. -/
def Scan.strictly (s : Scan) : Except Unrecognized Scan :=
  match s.skips with
  | [] => .ok s
  | u :: _ => .error u

variable {o : Nat} {cs : List Char} {s : Scan}

namespace Scan

theorem strictly_eq_ok (s : Scan) (hs : s.skips = []) : s.strictly = .ok s := by
  rw [strictly, hs]

theorem strictly_eq_error_iff (s : Scan) {u : Unrecognized} :
    s.strictly = .error u ↔ s.skips.head? = some u := by
  obtain ⟨ts, us⟩ := s
  cases us <;> simp [strictly]

theorem strictly_addToken (s : Scan) (t : Token) :
    (s.addToken t).strictly = s.strictly.map (·.addToken t) := by
  obtain ⟨ts, us⟩ := s
  cases us <;> rfl

end Scan

theorem scanFrom_word {k : TokenKind} {w rest : List Char} (hw : IsWord k w rest) (strict : Bool)
    (o : Nat) : scanFrom strict o (w ++ rest) =
      (scanFrom strict (o + w.length) rest).map (·.addToken ⟨k, String.ofList w, o⟩) := by
  obtain ⟨r, hkind, hmatch⟩ := hw.exists_firstMatch
  obtain ⟨c, cs, rfl⟩ := List.exists_cons_of_ne_nil hw.ne_nil
  rw [List.cons_append] at hmatch ⊢
  rw [scanFrom, hmatch]
  simp only [hkind, List.length_cons, Nat.add_sub_cancel, List.drop_left, List.take_succ_cons,
    List.take_left]

namespace Scans

theorem scanFrom_eq (h : Scans o cs s) : scanFrom false o cs = .ok s := by
  induction h with
  | done o => exact scanFrom_nil false o
  | blank hc _ ih => rw [scanFrom_blank hc, ih]
  | token hw _ ih =>
    rw [scanFrom_word hw, ih]
    rfl
  | skip hc _ ih =>
    rw [scanFrom, hc]
    simp only [Bool.false_eq_true, if_false, ih]
    rfl

theorem scanFrom_strict_eq (h : Scans o cs s) : scanFrom true o cs = s.strictly := by
  induction h with
  | done o => exact scanFrom_nil true o
  | blank hc _ ih => rw [scanFrom_blank hc, ih]
  | token hw _ ih => rw [scanFrom_word hw, ih, Scan.strictly_addToken]
  | skip hc _ _ =>
    rw [scanFrom, hc]
    rfl

end Scans

/-- The rules apply to every text. -/
theorem exists_scans (o : Nat) (cs : List Char) : ∃ s, Scans o cs s := by
  have ih : ∀ o' ds, ds.length < cs.length → ∃ s, Scans o' ds s := fun o' ds _ => exists_scans o' ds
  cases cs with
  | nil => exact ⟨_, .done o⟩
  | cons c cs =>
    have hlt := Nat.lt_succ_self cs.length
    rcases blank_or_word_or_none c cs with hc | ⟨k, w, rest, heq, hw⟩ | hc
    · obtain ⟨s, hs⟩ := ih (o + 1) cs hlt
      exact ⟨s, .blank hc hs⟩
    · have hpos := List.length_pos_iff.mpr hw.ne_nil
      rw [heq] at ih ⊢
      obtain ⟨s, hs⟩ := ih (o + w.length) rest (by rw [List.length_append]; omega)
      exact ⟨_, .token hw hs⟩
    · obtain ⟨s, hs⟩ := ih (o + 1) cs hlt
      exact ⟨_, .skip hc hs⟩
termination_by cs.length

/-- From the offset `i` on a text goes on as `behind`, if its first character stands at `o`. -/
def GoesOn (o : Nat) (cs : List Char) (i : Nat) (behind : List Char) : Prop :=
  ∃ before, cs = before ++ behind ∧ i = o + before.length

namespace GoesOn
variable {i : Nat} {behind : List Char}

theorem start (o : Nat) (cs : List Char) : GoesOn o cs o cs := ⟨[], rfl, rfl⟩

theorem append_left (ds : List Char) (h : GoesOn (o + ds.length) cs i behind) :
    GoesOn o (ds ++ cs) i behind := by
  obtain ⟨before, rfl, rfl⟩ := h
  exact ⟨ds ++ before, (List.append_assoc _ _ _).symm, by rw [List.length_append, Nat.add_assoc]⟩

theorem cons {c : Char} (h : GoesOn (o + 1) cs i behind) : GoesOn o (c :: cs) i behind :=
  append_left [c] h

theorem le_offset (h : GoesOn o cs i behind) : o ≤ i := by
  obtain ⟨before, -, rfl⟩ := h
  exact Nat.le_add_right _ _

theorem drop_eq (h : GoesOn 0 cs i behind) : cs.drop i = behind := by
  obtain ⟨before, rfl, rfl⟩ := h
  rw [Nat.zero_add, List.drop_left]

end GoesOn

namespace Scans

/-- Each token is a word that stands at its offset. -/
theorem exists_of_mem_tokens (h : Scans o cs s) {t : Token} (ht : t ∈ s.tokens) :
    ∃ after, GoesOn o cs t.offset (t.text.toList ++ after) ∧ IsWord t.kind t.text.toList after := by
  induction h with
  | done => cases ht
  | blank _ _ ih | skip _ _ ih =>
    obtain ⟨after, hafter, hword⟩ := ih ht
    exact ⟨after, hafter.cons, hword⟩
  | @token o k w rest _ hw _ ih =>
    rcases List.mem_cons.mp ht with rfl | ht
    · rw [String.toList_ofList]
      exact ⟨rest, .start o _, hw⟩
    · obtain ⟨after, hafter, hword⟩ := ih ht
      exact ⟨after, hafter.append_left w, hword⟩

/-- Each character that is passed over stands at its offset, and no token begins there. -/
theorem exists_of_mem_skips (h : Scans o cs s) {u : Unrecognized} (hu : u ∈ s.skips) :
    ∃ after, GoesOn o cs u.offset (u.char :: after) ∧ firstMatch (u.char :: after) = none := by
  induction h with
  | done => cases hu
  | blank _ _ ih =>
    obtain ⟨after, hafter, hnone⟩ := ih hu
    exact ⟨after, hafter.cons, hnone⟩
  | @token o k w _ _ _ _ ih =>
    obtain ⟨after, hafter, hnone⟩ := ih hu
    exact ⟨after, hafter.append_left w, hnone⟩
  | @skip o c cs _ hc _ ih =>
    rcases List.mem_cons.mp hu with rfl | hu
    · exact ⟨cs, .start o _, hc⟩
    · obtain ⟨after, hafter, hnone⟩ := ih hu
      exact ⟨after, hafter.cons, hnone⟩

theorem le_offset_of_mem_tokens (h : Scans o cs s) {t : Token} (ht : t ∈ s.tokens) : o ≤ t.offset :=
  let ⟨_, hafter, _⟩ := h.exists_of_mem_tokens ht
  hafter.le_offset

theorem le_offset_of_mem_skips (h : Scans o cs s) {u : Unrecognized} (hu : u ∈ s.skips) :
    o ≤ u.offset :=
  let ⟨_, hafter, _⟩ := h.exists_of_mem_skips hu
  hafter.le_offset

end Scans

/-- A lenient scan has a result, which follows the rules. -/
theorem exists_scan (s : String) :
    ∃ scanned, scan false s = .ok scanned ∧ Scans 0 (prepareList s.toList) scanned := by
  obtain ⟨scanned, h⟩ := exists_scans 0 (prepareList s.toList)
  exact ⟨scanned, h.scanFrom_eq, h⟩

end Clausification

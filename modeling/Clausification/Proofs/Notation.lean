import Mathlib.Data.List.Nodup
import Mathlib.Data.List.Infix
import Clausification.Notation

/-!
# Escaped prose

Escaping goes through a text once for each special character, and still it is as if every character
were escaped at one stroke: no escape contains a character that comes later. All escapes begin with a
backslash, which is the only one in them, and none is the beginning of another. So prose can be read
back.
-/

namespace Clausification

namespace Text

/-- What stands for a character in the end. -/
def replacement (table : List (Char × String)) (c : Char) : List Char :=
  ((table.lookup c).map String.toList).getD [c]

theorem replacement_of_not_mem {table : List (Char × String)} {c : Char}
    (hc : c ∉ table.map Prod.fst) : replacement table c = [c] := by
  have hnone : table.lookup c = none := by
    refine List.lookup_eq_none_iff.mpr fun p hp => bne_iff_ne.mpr ?_
    rintro rfl
    exact hc (List.mem_map_of_mem hp)
  rw [replacement, hnone]
  rfl

theorem flatMap_replacement_of_not_mem {table : List (Char × String)} {cs : List Char}
    (h : ∀ c ∈ cs, c ∉ table.map Prod.fst) : cs.flatMap (replacement table) = cs := by
  induction cs with
  | nil => rfl
  | cons c cs ih =>
    obtain ⟨hc, hcs⟩ := List.forall_mem_cons.mp h
    rw [List.flatMap_cons, replacement_of_not_mem hc, ih hcs]
    rfl

/-- Characters that are replaced in turn are replaced all at once, if no text put in contains one whose
turn is still to come. -/
theorem toList_foldl_replaceChar {table : List (Char × String)}
    (h : table.Pairwise fun p q => q.1 ∉ p.2.toList) (s : String) :
    (table.foldl (fun s (c, t) => replaceChar c t s) s).toList =
      s.toList.flatMap (replacement table) := by
  induction table generalizing s with
  | nil => exact (flatMap_replacement_of_not_mem (by simp)).symm
  | cons p table ih =>
    obtain ⟨old, new⟩ := p
    obtain ⟨hnew, htable⟩ := List.pairwise_cons.mp h
    rw [List.foldl_cons, ih htable]
    simp only [replaceChar, String.toList_ofList, List.flatMap_assoc]
    refine List.flatMap_congr fun c _ => ?_
    by_cases hc : c = old
    · have hlater (d : Char) (hd : d ∈ new.toList) : d ∉ table.map Prod.fst := by
        intro hmem
        obtain ⟨q, hq, rfl⟩ := List.mem_map.mp hmem
        exact hnew q hq hd
      rw [if_pos hc, flatMap_replacement_of_not_mem hlater, hc, replacement, List.lookup_cons_self]
      rfl
    · rw [if_neg hc, List.flatMap_singleton, replacement, replacement, List.lookup_cons,
        beq_eq_false_iff_ne.mpr hc]

/-- The pieces around one element of a flattened list. -/
theorem exists_of_flatMap_eq_append_cons {α β : Type} {f : α → List β} {l : List α} {as bs : List β}
    {b : β} (h : l.flatMap f = as ++ b :: bs) :
    ∃ l₁ a l₂ u v, l = l₁ ++ a :: l₂ ∧ f a = u ++ b :: v ∧ as = l₁.flatMap f ++ u ∧
      bs = v ++ l₂.flatMap f := by
  induction l generalizing as with
  | nil => simp at h
  | cons a l ih =>
    rw [List.flatMap_cons, List.append_eq_append_iff] at h
    obtain ⟨as', rfl, h⟩ | ⟨bs', ha, h⟩ := h
    · obtain ⟨l₁, a', l₂, u, v, rfl, hu, rfl, rfl⟩ := ih h
      exact ⟨a :: l₁, a', l₂, u, v, rfl, hu, by simp, rfl⟩
    · cases bs' with
      | nil =>
        have hl : l.flatMap f = [] ++ b :: bs := h.symm
        obtain ⟨l₁, a', l₂, u, v, rfl, hu, hnil, rfl⟩ := ih hl
        rw [List.append_nil] at ha
        exact ⟨a :: l₁, a', l₂, u, v, rfl, hu, by simp [ha, ← hnil], rfl⟩
      | cons b' v =>
        rw [List.cons_append, List.cons.injEq] at h
        obtain ⟨rfl, rfl⟩ := h
        exact ⟨[], a, l, as, v, rfl, ha, rfl, rfl⟩

/-- Every backslash stands before a character that is none. -/
def singleBackslashes : List Char → Bool
  | [] => true
  | [c] => c ≠ '\\'
  | c :: d :: cs => (c ≠ '\\' ∨ d ≠ '\\') && singleBackslashes (d :: cs)

theorem singleBackslashes_append {as bs : List Char} (has : singleBackslashes as)
    (hbs : singleBackslashes bs) : singleBackslashes (as ++ bs) := by
  fun_induction singleBackslashes as with
  | case1 => exact hbs
  | case2 c =>
    cases bs with
    | nil => exact has
    | cons d bs => simp_all [singleBackslashes]
  | case3 c d as ih => simp_all [singleBackslashes]

theorem singleBackslashes_flatMap {α : Type} {f : α → List Char} {l : List α}
    (h : ∀ a ∈ l, singleBackslashes (f a)) : singleBackslashes (l.flatMap f) := by
  induction l with
  | nil => rfl
  | cons a l ih =>
    obtain ⟨ha, hl⟩ := List.forall_mem_cons.mp h
    exact singleBackslashes_append ha (ih hl)

theorem not_infix_of_singleBackslashes {cs : List Char} (h : singleBackslashes cs) :
    ¬ ['\\', '\\'] <:+: cs := by
  rintro ⟨as, bs, rfl⟩
  induction as with
  | nil => simp [singleBackslashes] at h
  | cons a as ih =>
    refine ih ?_
    cases as <;> simp_all [singleBackslashes]

end Text

namespace Notation

/-- Characters that are escaped by a backslash in front of them. -/
def marks : List Char := ['\x7b', '\x7d', '_', '#', '%', '&', '$']

/-- Commands for the characters that a backslash in front would not save. -/
def commands : List String := ["\\textbackslash ", "\\textasciitilde ", "\\textasciicircum "]

def escapeTexts : List (List Char) :=
  commands.map String.toList ++ marks.map fun c => ['\\', c]

/-- A character as it stands in escaped texts. -/
def escapeChar (c : Char) : List Char := Text.replacement escapes c

theorem toList_escape (s : String) : (escape s).toList = s.toList.flatMap escapeChar :=
  Text.toList_foldl_replaceChar (by decide) s

theorem mem_escapeTexts {e : List Char} : e ∈ escapeTexts ↔ ∃ p ∈ escapes, p.2.toList = e := by
  have hperm : escapeTexts.Perm (escapes.map (·.2.toList)) := by decide
  rw [hperm.mem_iff, List.mem_map]

theorem exists_of_mem_escapeTexts {e : List Char} (he : e ∈ escapeTexts) :
    ∃ d ds, e = '\\' :: d :: ds ∧ '\\' ∉ d :: ds := by
  have h : ∀ e ∈ escapeTexts, e.take 1 = ['\\'] ∧ 2 ≤ e.length ∧ '\\' ∉ e.tail := by decide
  obtain ⟨hhead, hlength, htail⟩ := h e he
  match e with
  | [] | [_] => simp at hlength
  | c :: d :: ds =>
    obtain rfl : c = '\\' := by simpa using hhead
    exact ⟨d, ds, rfl, htail⟩

/-- No escape is the beginning of another one. -/
theorem eq_of_isPrefix {d e : List Char} (hd : d ∈ escapeTexts) (he : e ∈ escapeTexts)
    {cs : List Char} (hdcs : d <+: cs) (hecs : e <+: cs) : d = e := by
  have h : ∀ d ∈ escapeTexts, ∀ e ∈ escapeTexts, d <+: e → d = e := by decide
  rcases List.prefix_or_prefix_of_prefix hdcs hecs with hbegins | hbegins
  · exact h d hd e he hbegins
  · exact (h e he d hd hbegins).symm

theorem escapeChar_of_mem {p : Char × String} (hp : p ∈ escapes) : escapeChar p.1 = p.2.toList := by
  have h : ∀ p ∈ escapes, escapeChar p.1 = p.2.toList := by decide
  exact h p hp

theorem escapeChar_of_not_mem {c : Char} (hc : c ∉ escapes.map Prod.fst) : escapeChar c = [c] :=
  Text.replacement_of_not_mem hc

theorem mem_escapeTexts_or (c : Char) :
    escapeChar c ∈ escapeTexts ∨ c ∉ escapes.map Prod.fst ∧ escapeChar c = [c] := by
  by_cases hc : c ∈ escapes.map Prod.fst
  · obtain ⟨p, hp, rfl⟩ := List.mem_map.mp hc
    exact Or.inl (mem_escapeTexts.mpr ⟨p, hp, (escapeChar_of_mem hp).symm⟩)
  · exact Or.inr ⟨hc, escapeChar_of_not_mem hc⟩

theorem singleBackslashes_escape (cs : List Char) :
    Text.singleBackslashes (cs.flatMap escapeChar) := by
  have h : ∀ e ∈ escapeTexts, Text.singleBackslashes e := by decide
  refine Text.singleBackslashes_flatMap fun c _ => ?_
  rcases mem_escapeTexts_or c with he | ⟨hc, he⟩
  · exact h _ he
  · have hne : c ≠ '\\' := by
      rintro rfl
      exact hc (by decide)
    simpa [he, Text.singleBackslashes] using hne

section
variable {cs as bs : List Char} {c : Char}

/-- A character that is escaped stands in escapes only. -/
theorem exists_escape_of_eq_append_cons (hc : c ∈ escapes.map Prod.fst)
    (h : cs.flatMap escapeChar = as ++ c :: bs) :
    ∃ u v, u ++ c :: v ∈ escapeTexts ∧ u <:+ as ∧ v <+: bs := by
  obtain ⟨l₁, d, l₂, u, v, -, hd, rfl, rfl⟩ := Text.exists_of_flatMap_eq_append_cons h
  rcases mem_escapeTexts_or d with he | ⟨hplain, hself⟩
  · exact ⟨u, v, hd ▸ he, List.suffix_append _ _, List.prefix_append _ _⟩
  · have hmem : c ∈ [d] := by
      rw [← hself, hd]
      simp
    exact absurd (List.mem_singleton.mp hmem ▸ hc) hplain

theorem existsUnique_escape (h : cs.flatMap escapeChar = as ++ '\\' :: bs) :
    ∃! e, e ∈ escapeTexts ∧ e <+: '\\' :: bs := by
  obtain ⟨u, v, he, -, hv⟩ := exists_escape_of_eq_append_cons (by decide) h
  obtain ⟨d, ds, heq, htail⟩ := exists_of_mem_escapeTexts he
  obtain rfl : u = [] := by
    cases u with
    | nil => rfl
    | cons a u =>
      rw [List.cons_append, List.cons.injEq] at heq
      exact absurd (by simp [← heq.2]) htail
  have hbegins : '\\' :: v <+: '\\' :: bs := (List.prefix_cons_inj _).mpr hv
  exact ⟨'\\' :: v, ⟨he, hbegins⟩, fun e h => eq_of_isPrefix h.1 he h.2 hbegins⟩

theorem backslash_before_mark (hc : c ∈ marks) (h : cs.flatMap escapeChar = as ++ c :: bs) :
    ['\\'] <:+ as := by
  have hmarks : (marks.all fun c => c ≠ '\\' ∧ c ∈ escapes.map Prod.fst) = true := by decide
  have hdrop : ∀ e ∈ escapeTexts, (marks.all fun c => c ∉ e.drop 2) = true := by decide
  obtain ⟨hne, hspecial⟩ := of_decide_eq_true (List.all_eq_true.mp hmarks c hc)
  obtain ⟨u, v, he, hu, -⟩ := exists_escape_of_eq_append_cons hspecial h
  obtain ⟨d, ds, heq, -⟩ := exists_of_mem_escapeTexts he
  have hds := of_decide_eq_true (List.all_eq_true.mp (hdrop _ he) c hc)
  rw [heq] at hds
  match u with
  | [] => exact absurd (List.cons.inj heq).1 hne
  | [a] =>
    obtain rfl : a = '\\' := (List.cons.inj heq).1
    exact hu
  | a :: b :: u =>
    obtain ⟨-, -, rfl⟩ : a = '\\' ∧ b = d ∧ u ++ c :: v = ds := by simpa using heq
    simp at hds

theorem not_mem_escape (hc : c = '~' ∨ c = '^') : c ∉ cs.flatMap escapeChar := by
  have h : ∀ e ∈ escapeTexts, '~' ∉ e ∧ '^' ∉ e := by decide
  intro hmem
  obtain ⟨as, bs, heq⟩ := List.append_of_mem hmem
  have hspecial : c ∈ escapes.map Prod.fst := by rcases hc with rfl | rfl <;> decide
  obtain ⟨u, v, he, -⟩ := exists_escape_of_eq_append_cons hspecial heq
  rcases hc with rfl | rfl
  · exact (h _ he).1 (by simp)
  · exact (h _ he).2 (by simp)

end

/-- Read an escaped text. `skip` counts the characters of an escape that are still to be passed. A
character that should have been escaped is no such text. -/
def unescapeFrom : (skip : Nat) → List Char → Option (List Char)
  | _, [] => some []
  | skip + 1, _ :: cs => unescapeFrom skip cs
  | 0, c :: cs =>
    match escapes.find? fun p => p.2.toList.isPrefixOf (c :: cs) with
    | some p => (unescapeFrom (p.2.toList.length - 1) cs).map (p.1 :: ·)
    | none => if c ∈ escapes.map Prod.fst then none else (unescapeFrom 0 cs).map (c :: ·)

def unescape (cs : List Char) : Option (List Char) := unescapeFrom 0 cs

theorem unescapeFrom_append (as bs : List Char) :
    unescapeFrom as.length (as ++ bs) = unescapeFrom 0 bs := by
  induction as with
  | nil => rfl
  | cons a as ih => exact ih

theorem find?_escapes {p : Char × String} (hp : p ∈ escapes) (cs : List Char) :
    (escapes.find? fun q => q.2.toList.isPrefixOf (p.2.toList ++ cs)) = some p := by
  have hnodup : (escapes.map (·.2.toList)).Nodup := by decide
  cases hfind : escapes.find? fun q => q.2.toList.isPrefixOf (p.2.toList ++ cs) with
  | none =>
    have hnot := List.find?_eq_none.mp hfind p hp
    simp at hnot
  | some q =>
    have hmatch := List.find?_some hfind
    have hbegins : q.2.toList <+: p.2.toList ++ cs := List.isPrefixOf_iff_prefix.mp hmatch
    have hq := List.mem_of_find?_eq_some hfind
    have htext := eq_of_isPrefix (mem_escapeTexts.mpr ⟨q, hq, rfl⟩)
      (mem_escapeTexts.mpr ⟨p, hp, rfl⟩) hbegins (List.prefix_append _ _)
    rw [List.inj_on_of_nodup_map hnodup hq hp htext]

theorem unescape_escapeChar_append (c : Char) (cs : List Char) :
    unescape (escapeChar c ++ cs) = (unescape cs).map (c :: ·) := by
  by_cases hc : c ∈ escapes.map Prod.fst
  · obtain ⟨p, hp, rfl⟩ := List.mem_map.mp hc
    obtain ⟨d, ds, heq, -⟩ := exists_of_mem_escapeTexts (mem_escapeTexts.mpr ⟨p, hp, rfl⟩)
    have hfind := find?_escapes hp cs
    have hskip := unescapeFrom_append (d :: ds) cs
    rw [heq, List.cons_append] at hfind
    rw [escapeChar_of_mem hp, heq, List.cons_append, unescape, unescapeFrom, hfind]
    simp only [heq, List.length_cons, Nat.add_sub_cancel] at hskip ⊢
    rw [hskip]
    rfl
  · have hfind : (escapes.find? fun q => q.2.toList.isPrefixOf (c :: cs)) = none := by
      refine List.find?_eq_none.mpr fun q hq hbegins => ?_
      obtain ⟨d, ds, heq, -⟩ := exists_of_mem_escapeTexts (mem_escapeTexts.mpr ⟨q, hq, rfl⟩)
      rw [List.isPrefixOf_iff_prefix, heq, List.cons_prefix_cons] at hbegins
      exact hc (hbegins.1 ▸ by decide)
    rw [escapeChar_of_not_mem hc, List.singleton_append, unescape, unescapeFrom, hfind]
    exact if_neg hc

theorem unescape_escape (cs : List Char) : unescape (cs.flatMap escapeChar) = some cs := by
  induction cs with
  | nil => rfl
  | cons c cs ih => rw [List.flatMap_cons, unescape_escapeChar_append, ih, Option.map_some]

/-- Prose is a text in braces in which every backslash begins one of the escapes. The characters that
have a meaning in mark-up are in no other place, and no two backslashes meet. Reading the escapes back
gives the message, so no two messages look the same. -/
theorem prose_can_be_read_back :
    (∀ t : String, ∃ body : List Char,
      prose .latex t = "\\text\x7b" ++ String.ofList body ++ "\x7d" ∧
      (∀ as bs, body = as ++ '\\' :: bs → ∃! e, e ∈ escapeTexts ∧ e <+: '\\' :: bs) ∧
      (∀ c ∈ marks, ∀ as bs, body = as ++ c :: bs → ['\\'] <:+ as) ∧
      '~' ∉ body ∧ '^' ∉ body ∧ ¬ ['\\', '\\'] <:+: body ∧ unescape body = some t.toList) ∧
    Function.Injective (prose .latex) := by
  constructor
  · intro t
    refine ⟨t.toList.flatMap escapeChar, ?_, fun _ _ => existsUnique_escape,
      fun _ hc _ _ => backslash_before_mark hc, not_mem_escape (Or.inl rfl),
      not_mem_escape (Or.inr rfl),
      Text.not_infix_of_singleBackslashes (singleBackslashes_escape t.toList),
      unescape_escape t.toList⟩
    rw [← toList_escape, String.ofList_toList]
    rfl
  · intro s t h
    have hescape : escape s = escape t := by
      simpa [prose, String.append_left_inj, String.append_right_inj] using h
    have hchars := congrArg (fun s => unescape s.toList) hescape
    simp only [toList_escape, unescape_escape, Option.some.injEq] at hchars
    exact String.toList_inj.mp hchars

/-- A backslash before a brace, which is not taken for the escape of the brace. -/
theorem prose_can_be_read_back_of_backslash_before_brace :
    let body := "\\textbackslash \\\x7b\\_".toList
    prose .latex "\\\x7b_" = "\\text\x7b" ++ String.ofList body ++ "\x7d" ∧
      (∃! e, e ∈ escapeTexts ∧ e <+: '\\' :: body.tail) ∧
      ['\\'] <:+ body.take (body.length - 1) ∧
      unescape body = some "\\\x7b_".toList ∧
      prose .latex "\\\x7b_" ≠ prose .latex "\x7b_" := by
  intro body
  obtain ⟨hbody, hinjective⟩ := prose_can_be_read_back
  obtain ⟨body', heq, hbackslash, hmark, -, -, -, hread⟩ := hbody "\\\x7b_"
  have hprose : prose .latex "\\\x7b_" = "\\text\x7b" ++ String.ofList body ++ "\x7d" := by
    decide +kernel
  obtain rfl : body' = body := by
    simpa [String.append_left_inj, String.append_right_inj, String.ofList_inj]
      using heq.symm.trans hprose
  exact ⟨hprose, hbackslash [] _ rfl, hmark '_' (by decide) _ [] rfl, hread,
    hinjective.ne (by decide)⟩

end Notation

end Clausification

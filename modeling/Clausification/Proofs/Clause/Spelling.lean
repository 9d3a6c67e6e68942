import Clausification.Proofs.Clause.Writing
import Clausification.Proofs.Formula.Spelling

/-!
# Lists of clauses as texts

A list of clauses in writing is a text again: a conjunction of disjunctions, each in parentheses. In
either notation it is scanned as the words of its literals, with connectives between them.
-/

namespace Clausification

/-- Words with one more word between neighbours. -/
def chainWords (w : TokenKind × String) : List Words → Words
  | [] => []
  | ws :: wss => ws ++ wss.flatMap (w :: ·)

/-- A literal in the words of a notation. -/
def Literal.words (n : Notation) (l : Literal) : Words :=
  if l.positive then l.atom.words else (.not, Text.strip n.signs.neg) :: l.atom.words

namespace Clause

def words (n : Notation) (c : Clause) : Words :=
  chainWords (.binary .or, Text.strip n.signs.or) (c.map (Literal.words n))

def groupWords (n : Notation) (c : Clause) : Words := (.opening, "(") :: c.words n ++ [(.closing, ")")]

def wordsOfAll (n : Notation) (cs : List Clause) : Words :=
  chainWords (.binary .and, Text.strip n.signs.and) (cs.map (groupWords n))

end Clause

namespace Yields
variable {rest : List Char}

theorem or (n : Notation) (rest : List Char) :
    Yields n.signs.or.toList [(.binary .or, Text.strip n.signs.or)] rest := by
  cases n <;> exact connective _ .or rest

theorem and (n : Notation) (rest : List Char) :
    Yields n.signs.and.toList [(.binary .and, Text.strip n.signs.and)] rest := by
  cases n <;> exact connective _ .and rest

end Yields

section
variable {α : Type} {text : α → String} {words : α → Words} {sep : String} {w : TokenKind × String}
  {xs : List α} {rest : List Char}

theorem yields_behind (hsep : ∀ rest, Yields sep.toList [w] rest)
    (hboundary : ∀ rest, Boundary (sep.toList ++ rest))
    (h : ∀ x ∈ xs, ∀ rest, Boundary rest → Yields (text x).toList (words x) rest)
    (hrest : Boundary rest) :
    Yields ((xs.map text).flatMap fun s => sep.toList ++ s.toList)
      ((xs.map words).flatMap (w :: ·)) rest ∧
      Boundary (((xs.map text).flatMap fun s => sep.toList ++ s.toList) ++ rest) := by
  induction xs with
  | nil => exact ⟨Yields.nil rest, hrest⟩
  | cons x xs ih =>
    obtain ⟨hx, hxs⟩ := List.forall_mem_cons.mp h
    obtain ⟨hyields, hbehind⟩ := ih hxs
    refine ⟨((hsep _).append (hx _ hbehind)).append hyields, ?_⟩
    rw [List.map_cons, List.flatMap_cons, List.append_assoc, List.append_assoc]
    exact hboundary _

theorem yields_join (hsep : ∀ rest, Yields sep.toList [w] rest)
    (hboundary : ∀ rest, Boundary (sep.toList ++ rest))
    (h : ∀ x ∈ xs, ∀ rest, Boundary rest → Yields (text x).toList (words x) rest)
    (hrest : Boundary rest) :
    Yields (Text.join sep (xs.map text)).toList (chainWords w (xs.map words)) rest := by
  cases xs with
  | nil => exact Yields.nil rest
  | cons x xs =>
    obtain ⟨hx, hxs⟩ := List.forall_mem_cons.mp h
    obtain ⟨hyields, hbehind⟩ := yields_behind hsep hboundary hxs hrest
    rw [List.map_cons, Text.toList_join_cons]
    exact (hx _ hbehind).append hyields

theorem inked_join (hsep : '$' ∉ sep.toList) (hne : xs ≠ []) (h : ∀ x ∈ xs, Inked (text x).toList) :
    Inked (Text.join sep (xs.map text)).toList := by
  induction xs with
  | nil => exact absurd rfl hne
  | cons x xs ih =>
    obtain ⟨hx, hxs⟩ := List.forall_mem_cons.mp h
    cases xs with
    | nil => exact hx
    | cons y ys =>
      rw [List.map_cons, List.map_cons, Text.toList_join_cons_cons]
      exact hx.append hsep (ih (by simp) hxs)

end

/-- All atoms are a name applied to names. -/
def Clause.IsPlain (c : Clause) : Prop := ∀ l ∈ c, l.atom.IsPlain

instance (c : Clause) : Decidable c.IsPlain :=
  inferInstanceAs (Decidable (∀ l ∈ c, l.atom.IsPlain))

section
variable (n : Notation) {rest : List Char}

theorem Literal.yields_writing {l : Literal} (hl : l.atom.IsPlain) (hrest : Boundary rest) :
    Yields (l.writing n).toList (l.words n) rest := by
  rw [writing, words]
  split
  · exact Atom.yields_text hl hrest
  · rw [String.toList_append]
    exact (Yields.neg n _).append (Atom.yields_text hl hrest)

theorem Literal.inked_writing {l : Literal} (hl : l.atom.IsPlain) : Inked (l.writing n).toList := by
  have hatom : Inked (l.atom.text n).toList := Atom.inked_text hl
  rw [writing]
  split
  · exact hatom
  · rw [String.toList_append]
    exact hatom.neg n

namespace Clause

theorem yields_group {c : Clause} (hne : c ≠ []) (hc : c.IsPlain) (rest : List Char) :
    Yields ("(" ++ c.writing n ++ ")").toList (c.groupWords n) rest := by
  have hboundary (rest : List Char) : Boundary (n.signs.or.toList ++ rest) := by
    cases n <;> exact boundary_cons rfl _
  have hwriting : Yields (c.writing n).toList (c.words n) (')' :: rest) := by
    rw [writing, if_neg (by simpa using hne)]
    exact yields_join (Yields.or n) hboundary (fun l hl _ => Literal.yields_writing n (hc l hl))
      (boundary_cons rfl _)
  rw [String.toList_append, String.toList_append, List.append_assoc]
  exact (Yields.opening _).append (hwriting.append (Yields.closing rest))

theorem inked_group {c : Clause} (hne : c ≠ []) (hc : c.IsPlain) :
    Inked ("(" ++ c.writing n ++ ")").toList := by
  have hsep : '$' ∉ n.signs.or.toList := by cases n <;> decide
  have hwriting : Inked (c.writing n).toList := by
    rw [writing, if_neg (by simpa using hne)]
    exact inked_join hsep hne fun l hl => Literal.inked_writing n (hc l hl)
  rw [String.toList_append, String.toList_append, List.append_assoc]
  exact Inked.append (Inked.singleton (by decide) (by decide)) hwriting.no_delimiter
    (Inked.singleton (by decide) (by decide))

theorem scan_writingAll {cs : List Clause} (hcs : cs ≠ []) (hne : ∀ c ∈ cs, c ≠ [])
    (hplain : ∀ c ∈ cs, IsPlain c) (strict : Bool) :
    ∃ ts, Clausification.wordsOf ts = wordsOfAll n cs ∧
      scan strict (writingAll n cs) = .ok { tokens := ts } := by
  have hboundary (rest : List Char) : Boundary (n.signs.and.toList ++ rest) := by
    cases n <;> exact boundary_cons rfl _
  have hsep : '$' ∉ n.signs.and.toList := by cases n <;> decide
  have hinked : Inked (writingAll n cs).toList := by
    rw [writingAll, if_neg (by simpa using hcs)]
    exact inked_join hsep hcs fun c hc => inked_group n (hne c hc) (hplain c hc)
  have hyields : Yields (writingAll n cs).toList (wordsOfAll n cs) [] := by
    rw [writingAll, if_neg (by simpa using hcs)]
    exact yields_join (Yields.and n) hboundary
      (fun c hc rest _ => yields_group n (hne c hc) (hplain c hc) rest) boundary_nil
  exact hyields.exists_scan hinked strict

end Clause

end

end Clausification

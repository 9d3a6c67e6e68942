import Clausification.Proofs.Formula.Plain
import Clausification.Proofs.Formula.Shape
import Clausification.Proofs.Formula.Writing
import Clausification.Proofs.Text

/-!
# Formulas and their tokens

A plain formula in plain text is scanned as the words it is made of, and so is one without quantifiers
in mark-up. Every name is followed by a sign, a blank or the end, so no two of them run together. Atoms
are scanned as the same words in either notation.
-/

namespace Clausification

/-- The signs of connectives and quantifiers in plain text. -/
def Connective.sign : Connective → Char
  | .and => '∧'
  | .or => '∨'
  | .implies => '→'
  | .iff => '↔'

def Quantifier.sign : Quantifier → Char
  | .all => '∀'
  | .ex => '∃'

/-- A connective as it is scanned. -/
def Connective.word (n : Notation) (c : Connective) : String :=
  match n with
  | .latex => Text.strip (Notation.latex.signs.connective c)
  | .text => String.singleton c.sign

namespace Atom

/-- Names with commas between them. -/
def argumentWords : List String → Words
  | [] => []
  | [x] => [(.ident, x)]
  | x :: y :: xs => (.ident, x) :: (.comma, ",") :: argumentWords (y :: xs)

/-- The words of an atom whose arguments are variables. -/
def words (a : Atom) : Words :=
  if a.args.isEmpty then [(.ident, a.predicate)]
  else (.ident, a.predicate) :: (.opening, "(") :: argumentWords (a.args.map Term.name)
    ++ [(.closing, ")")]

end Atom

namespace Formula

/-- Words in parentheses if the main connective of the formula is binary. -/
def groupedWords (f : Formula) (words : Words) : Words :=
  if f.isBinary then (.opening, "(") :: words ++ [(.closing, ")")] else words

/-- The quantifiers of the formula, if there are any, are in plain text: mark-up puts something behind
the variable that is no word. -/
def LegibleIn (n : Notation) : Formula → Prop
  | .atom _ | .term _ => True
  | .not f => f.LegibleIn n
  | .binary _ l r => l.LegibleIn n ∧ r.LegibleIn n
  | .quant _ _ f => n = .text ∧ f.LegibleIn n

theorem legibleIn_text (f : Formula) : f.LegibleIn .text := by
  induction f with
  | atom a => exact trivial
  | not f ih => exact ih
  | binary c l r ihl ihr => exact ⟨ihl, ihr⟩
  | quant q x f ih => exact ⟨rfl, ih⟩
  | term t => exact trivial

theorem QuantifierFree.legibleIn {f : Formula} (hf : f.QuantifierFree) (n : Notation) :
    f.LegibleIn n := by
  induction hf with
  | atom a => exact trivial
  | not _ ih => exact ih
  | binary c _ _ ihl ihr => exact ⟨ihl, ihr⟩

/-- The words of a plain formula, with the quantifiers in plain text. -/
def words (n : Notation) : Formula → Words
  | .atom a => a.words
  | .not f => (.not, Text.strip n.signs.neg) :: f.groupedWords (f.words n)
  | .binary c l r =>
    l.groupedWords (l.words n) ++ (.binary c, c.word n) :: r.groupedWords (r.words n)
  | .quant q x f => (.quant q, String.singleton q.sign) :: (.ident, x) :: (.dot, ".") ::
      f.groupedWords (f.words n)
  | .term _ => []

end Formula

namespace Yields
variable {cs rest : List Char} {words : Words}

theorem sign {c : Char} {r : Recognizer} {k : TokenKind} (hkind : r.kind = some k)
    (hmatch : firstMatch (c :: rest) = some (r, 1)) : Yields [c] [(k, String.singleton c)] rest :=
  @token [] rest r k c hkind hmatch

theorem not (rest : List Char) : Yields ['¬'] [(.not, "¬")] rest := sign rfl rfl

theorem opening (rest : List Char) : Yields ['('] [(.opening, "(")] rest := sign rfl rfl

theorem closing (rest : List Char) : Yields [')'] [(.closing, ")")] rest := sign rfl rfl

theorem comma (rest : List Char) : Yields [','] [(.comma, ",")] rest := sign rfl rfl

theorem dot (rest : List Char) : Yields ['.'] [(.dot, ".")] rest := sign rfl rfl

theorem betweenArguments (n : Notation) (rest : List Char) :
    Yields n.signs.betweenArguments.toList [(.comma, ",")] rest := by
  cases n with
  | latex => exact comma rest
  | text => exact (comma _).append (blank rest)

/-- A control word between blanks. -/
theorem command (word : List Char) {r : Recognizer} {k : TokenKind} (hkind : r.kind = some k)
    (hmatch : firstMatch ('\\' :: (word ++ ' ' :: rest)) = some (r, word.length + 1)) :
    Yields ([' '] ++ ('\\' :: word ++ [' '])) [(k, String.ofList ('\\' :: word))] rest :=
  (blank _).append ((token hkind hmatch).append (blank rest))

theorem neg (n : Notation) (rest : List Char) :
    Yields n.signs.neg.toList [(.not, Text.strip n.signs.neg)] rest := by
  cases n with
  | latex =>
    have hcommand : Yields ('\\' :: "lnot".toList) [(.not, "\\lnot")] (' ' :: rest) := token rfl rfl
    exact hcommand.append (blank rest)
  | text => exact not rest

theorem connective (n : Notation) (c : Connective) (rest : List Char) :
    Yields (n.signs.connective c).toList [(.binary c, c.word n)] rest := by
  cases n with
  | latex =>
    cases c with
    | and => exact command "land".toList rfl rfl
    | or => exact command "lor".toList rfl rfl
    | implies => exact command "rightarrow".toList rfl rfl
    | iff => exact command "leftrightarrow".toList rfl rfl
  | text =>
    have hsign : Yields [c.sign] [(.binary c, String.singleton c.sign)] (' ' :: rest) := by
      cases c <;> exact sign rfl rfl
    have hsigns : (Notation.text.signs.connective c).toList = [' '] ++ ([c.sign] ++ [' ']) := by
      cases c <;> rfl
    rw [hsigns]
    exact (blank _).append (hsign.append (blank rest))

theorem quantifier (q : Quantifier) (rest : List Char) :
    Yields [q.sign] [(.quant q, String.singleton q.sign)] rest := by
  cases q <;> exact sign rfl rfl

end Yields

theorem Inked.neg {cs : List Char} (h : Inked cs) (n : Notation) :
    Inked (n.signs.neg.toList ++ cs) := by
  cases n with
  | latex =>
    change Inked (['\\'] ++ ("lnot ".toList ++ cs))
    exact (Inked.singleton (by decide) (by decide)).append (by decide) h
  | text =>
    change Inked (['¬'] ++ ([] ++ cs))
    exact (Inked.singleton (by decide) (by decide)).append (by decide) h

namespace Atom

theorem words_of_nil {a : Atom} (ha : a.args = []) : a.words = [(.ident, a.predicate)] := by
  simp [words, ha]

theorem words_of_cons {a : Atom} {x : String} {xs : List String}
    (ha : a.args = (x :: xs).map .var) : a.words = [(.ident, a.predicate)] ++
      ([(.opening, "(")] ++ (argumentWords (x :: xs) ++ [(.closing, ")")])) := by
  have hargs : ((x :: xs).map Term.var).map Term.name = x :: xs :=
    List.map_map.trans (List.map_id _)
  rw [words, ha, hargs]
  simp

variable {n : Notation}

theorem toList_text_of_nil {a : Atom} (ha : a.args = []) :
    (a.text n).toList = a.predicate.toList := by
  simp [text, ha]

theorem toList_text_of_cons {a : Atom} {x : String} {xs : List String}
    (ha : a.args = (x :: xs).map .var) : (a.text n).toList = a.predicate.toList ++ (['('] ++
      ((Text.join n.signs.betweenArguments (x :: xs)).toList ++ [')'])) := by
  have hrender : Term.renderAll n a.args = x :: xs := by
    rw [ha, Term.renderAll_eq_map, List.map_map]
    exact List.map_id _
  rw [text, hrender, ha]
  simp

end Atom

namespace Formula

theorem toList_grouped (f : Formula) (s : String) : (f.grouped s).toList =
    if f.isBinary then ['('] ++ (s.toList ++ [')']) else s.toList := by
  unfold grouped
  split <;> simp

theorem toList_binary (n : Notation) (c : Connective) (s t : String) :
    (s ++ n.signs.connective c ++ t).toList =
      s.toList ++ ((n.signs.connective c).toList ++ t.toList) := by
  simp

theorem toList_quantifier (q : Quantifier) (s : String) :
    (Notation.text.signs.quantifier q ++ s).toList = [q.sign] ++ s.toList := by
  cases q <;> simp [Notation.signs, Signs.quantifier, Quantifier.sign]

theorem writing_quant (q : Quantifier) (x : String) (f : Formula) :
    (quant q x f).writing .text = Notation.text.signs.quantifier q ++
      (x ++ Notation.text.signs.afterVariable ++ f.grouped (f.writing .text)) := by
  simp only [writing, String.append_assoc]

end Formula

theorem boundary_cons {c : Char} (hc : isWordChar c = false) (cs : List Char) :
    Boundary (c :: cs) := by
  intro d hd
  cases hd
  exact hc

namespace Atom
variable {n : Notation}

theorem boundary_betweenArguments (n : Notation) (rest : List Char) :
    Boundary (n.signs.betweenArguments.toList ++ rest) := by
  cases n <;> exact boundary_cons rfl _

theorem yields_arguments {xs : List String} (hxs : ∀ x ∈ xs, isName x) {rest : List Char}
    (hrest : Boundary rest) :
    Yields (Text.join n.signs.betweenArguments xs).toList (argumentWords xs) rest := by
  induction xs with
  | nil => exact Yields.nil rest
  | cons x xs ih =>
    obtain ⟨hx, hxs⟩ := List.forall_mem_cons.mp hxs
    cases xs with
    | nil => exact Yields.name hx hrest
    | cons y ys =>
      have hboundary := boundary_betweenArguments n
        ((Text.join n.signs.betweenArguments (y :: ys)).toList ++ rest)
      rw [← List.append_assoc] at hboundary
      rw [Text.toList_join_cons_cons]
      exact (Yields.name hx hboundary).append ((Yields.betweenArguments n _).append (ih hxs))

theorem yields_text {a : Atom} (ha : a.IsPlain) {rest : List Char} (hrest : Boundary rest) :
    Yields (a.text n).toList a.words rest := by
  obtain ⟨xs, hxs, hnames⟩ := ha.exists_args
  have hp : isName a.predicate := ha.1
  cases xs with
  | nil =>
    rw [toList_text_of_nil hxs, words_of_nil hxs]
    exact Yields.name hp hrest
  | cons x xs =>
    rw [toList_text_of_cons hxs, words_of_cons hxs]
    exact (Yields.name hp (boundary_cons rfl _)).append ((Yields.opening _).append
      ((yields_arguments hnames (boundary_cons rfl _)).append (Yields.closing _)))

theorem no_delimiter_join {sep : String} (hsep : '$' ∉ sep.toList) {xs : List String}
    (hxs : ∀ x ∈ xs, isName x) : '$' ∉ (Text.join sep xs).toList :=
  Text.not_mem_join hsep fun x hx => (Inked.name (hxs x hx)).no_delimiter

theorem inked_text {a : Atom} (ha : a.IsPlain) : Inked (a.text n).toList := by
  obtain ⟨xs, hxs, hnames⟩ := ha.exists_args
  cases xs with
  | nil =>
    rw [toList_text_of_nil hxs]
    exact Inked.name ha.1
  | cons x xs =>
    rw [toList_text_of_cons hxs, ← List.append_assoc ['(']]
    have hsep : '$' ∉ n.signs.betweenArguments.toList := by cases n <;> decide
    refine (Inked.name ha.1).append ?_ (Inked.singleton (by decide) (by decide))
    simp [no_delimiter_join hsep hnames]

end Atom

namespace Formula

theorem yields_grouped (f : Formula) {s : String} {words : Words}
    (h : ∀ rest, Boundary rest → Yields s.toList words rest) {rest : List Char}
    (hrest : Boundary rest) : Yields (f.grouped s).toList (f.groupedWords words) rest := by
  rw [toList_grouped, groupedWords]
  split
  · exact (Yields.opening _).append ((h _ (boundary_cons rfl _)).append (Yields.closing _))
  · exact h rest hrest

theorem yields_not (n : Notation) (f : Formula) {s : String} {words : Words}
    (h : ∀ rest, Boundary rest → Yields s.toList words rest) {rest : List Char}
    (hrest : Boundary rest) :
    Yields (n.signs.neg ++ f.grouped s).toList
      ((.not, Text.strip n.signs.neg) :: f.groupedWords words) rest := by
  rw [String.toList_append]
  exact (Yields.neg n _).append (f.yields_grouped h hrest)

theorem boundary_connective (n : Notation) (c : Connective) (rest : List Char) :
    Boundary ((n.signs.connective c).toList ++ rest) := by
  cases n <;> cases c <;> exact boundary_cons rfl _

theorem yields_binary (n : Notation) (c : Connective) (l r : Formula) {s t : String}
    {words words' : Words} (hl : ∀ rest, Boundary rest → Yields s.toList words rest)
    (hr : ∀ rest, Boundary rest → Yields t.toList words' rest) {rest : List Char}
    (hrest : Boundary rest) :
    Yields (l.grouped s ++ n.signs.connective c ++ r.grouped t).toList
      (l.groupedWords words ++ (.binary c, c.word n) :: r.groupedWords words') rest := by
  have hboundary := boundary_connective n c ((r.grouped t).toList ++ rest)
  rw [← List.append_assoc] at hboundary
  rw [toList_binary]
  exact (l.yields_grouped hl hboundary).append
    ((Yields.connective n c _).append (r.yields_grouped hr hrest))

theorem yields_quantifier (q : Quantifier) (f : Formula) {s t : String} {words words' : Words}
    (hs : ∀ rest, Yields s.toList words rest)
    (ht : ∀ rest, Boundary rest → Yields t.toList words' rest) {rest : List Char}
    (hrest : Boundary rest) :
    Yields (Notation.text.signs.quantifier q ++ (s ++ f.grouped t)).toList
      ((.quant q, String.singleton q.sign) :: (words ++ f.groupedWords words')) rest := by
  rw [toList_quantifier, String.toList_append]
  exact (Yields.quantifier q _).append ((hs _).append (f.yields_grouped ht hrest))

theorem yields_writing {n : Notation} {f : Formula} (hf : f.IsPlain) (hn : f.LegibleIn n)
    {rest : List Char} (hrest : Boundary rest) :
    Yields (f.writing n).toList (f.words n) rest := by
  induction f generalizing rest with
  | atom a => exact Atom.yields_text hf hrest
  | not f ih => exact f.yields_not n (fun _ => ih hf hn) hrest
  | binary c l r ihl ihr =>
    exact yields_binary n c l r (fun _ => ihl hf.1 hn.1) (fun _ => ihr hf.2 hn.2) hrest
  | quant q x f ih =>
    obtain ⟨rfl, hn⟩ := hn
    have hbinder : ∀ rest, Yields (x ++ Notation.text.signs.afterVariable).toList
        [(.ident, x), (.dot, ".")] rest := by
      intro rest
      rw [String.toList_append]
      exact (Yields.name hf.1 (boundary_cons rfl _)).append ((Yields.dot _).append (Yields.blank _))
    rw [writing_quant]
    exact yields_quantifier q f hbinder (fun _ => ih hf.2 hn) hrest
  | term t => exact hf.elim

theorem inked_grouped (f : Formula) {s : String} (h : Inked s.toList) :
    Inked (f.grouped s).toList := by
  rw [toList_grouped]
  split
  · exact (Inked.singleton (by decide) (by decide)).append h.no_delimiter
      (Inked.singleton (by decide) (by decide))
  · exact h

theorem inked_not (n : Notation) (f : Formula) {s : String} (h : Inked s.toList) :
    Inked (n.signs.neg ++ f.grouped s).toList := by
  rw [String.toList_append]
  exact (f.inked_grouped h).neg n

theorem inked_binary (n : Notation) (c : Connective) (l r : Formula) {s t : String}
    (hl : Inked s.toList) (hr : Inked t.toList) :
    Inked (l.grouped s ++ n.signs.connective c ++ r.grouped t).toList := by
  have hsign : '$' ∉ (n.signs.connective c).toList := by cases n <;> cases c <;> decide
  rw [toList_binary]
  exact (l.inked_grouped hl).append hsign (r.inked_grouped hr)

theorem inked_quantifier (q : Quantifier) (f : Formula) {s t : String} (hs : '$' ∉ s.toList)
    (ht : Inked t.toList) :
    Inked (Notation.text.signs.quantifier q ++ (s ++ f.grouped t)).toList := by
  rw [toList_quantifier, String.toList_append]
  refine (Inked.singleton ?_ ?_).append hs (f.inked_grouped ht)
  · cases q <;> decide
  · cases q <;> decide

theorem inked_writing {n : Notation} {f : Formula} (hf : f.IsPlain) (hn : f.LegibleIn n) :
    Inked (f.writing n).toList := by
  induction f with
  | atom a => exact Atom.inked_text hf
  | not f ih => exact f.inked_not n (ih hf hn)
  | binary c l r ihl ihr => exact inked_binary n c l r (ihl hf.1 hn.1) (ihr hf.2 hn.2)
  | quant q x f ih =>
    obtain ⟨rfl, hn⟩ := hn
    have hdot : '$' ∉ Notation.text.signs.afterVariable.toList := by decide
    rw [writing_quant]
    refine inked_quantifier q f ?_ (ih hf.2 hn)
    simp [(Inked.name hf.1).no_delimiter, hdot]
  | term t => exact hf.elim

/-- The writing of a plain formula is scanned as its words. -/
theorem scan_writing {n : Notation} {f : Formula} (hf : f.IsPlain) (hn : f.LegibleIn n)
    (strict : Bool) :
    ∃ ts, wordsOf ts = f.words n ∧ scan strict (f.writing n) = .ok { tokens := ts } :=
  (yields_writing hf hn boundary_nil).exists_scan (inked_writing hf hn) strict

end Formula

end Clausification

import Clausification.Proofs.Reader.RoundTrip

/-!
# Writings are unambiguous

In either notation the writing of an operand is a prefix code: it shows where it ends and, constants
apart, what it is the writing of. The first sign tells the kind of the operand, a name goes on as long as
there are characters of words, and the arguments of a name end at a parenthesis of their own. Names may
be spelled like keywords here, and terms may be nested, so nothing is said about reading; without
quantifiers and functions the mark-up is read back as well.
-/

namespace Clausification

mutual

/-- A term with a variable in place of every constant. In writing there is no difference. -/
def Term.withoutConstants : Term → Term
  | .var x => .var x
  | .app f ts => if ts.isEmpty then .var f else .app f (Term.withoutConstantsAll ts)
  | .stray p ts => .stray p ts

def Term.withoutConstantsAll : List Term → List Term
  | [] => []
  | t :: ts => t.withoutConstants :: Term.withoutConstantsAll ts

end

theorem Term.withoutConstantsAll_eq_map (ts : List Term) :
    Term.withoutConstantsAll ts = ts.map Term.withoutConstants := by
  induction ts with
  | nil => rfl
  | cons t ts ih => simp [Term.withoutConstantsAll, ih]

def Atom.withoutConstants (a : Atom) : Atom :=
  { a with args := a.args.map Term.withoutConstants }

/-- A formula with a variable in place of every function term without arguments. -/
def Formula.withoutConstants : Formula → Formula
  | .atom a => .atom a.withoutConstants
  | .not f => .not f.withoutConstants
  | .binary c l r => .binary c l.withoutConstants r.withoutConstants
  | .quant q x f => .quant q x f.withoutConstants
  | .term t => .term t

/-- The text goes on neither with a character of a word nor with arguments. -/
def EndsName (cs : List Char) : Prop := ∀ c ∈ cs.head?, isWordChar c = false ∧ c ≠ '('

theorem endsName_nil : EndsName [] := fun _ hc => nomatch hc

theorem endsName_cons {c : Char} (hc : isWordChar c = false) (hne : c ≠ '(') (cs : List Char) :
    EndsName (c :: cs) := by
  intro d hd
  cases hd
  exact ⟨hc, hne⟩

theorem endsName_closing (cs : List Char) : EndsName ([')'] ++ cs) :=
  endsName_cons (by decide) (by decide) cs

theorem EndsName.ne_opening {cs : List Char} (h : EndsName cs) (ds : List Char) :
    cs ≠ ['('] ++ ds := by
  rintro rfl
  exact (h '(' rfl).2 rfl

theorem EndsName.boundary {cs : List Char} (h : EndsName cs) : Boundary cs := fun c hc => (h c hc).1

theorem identifier_append_inj {v w rest rest' : List Char} (hv : isIdentifier v)
    (hw : isIdentifier w) (hrest : Boundary rest) (hrest' : Boundary rest')
    (h : v ++ rest = w ++ rest') : v = w ∧ rest = rest' := by
  have hword : v = w := by
    rw [← takeWhile_word_append (forall_isWordChar_of_isIdentifier hv) hrest, h,
      takeWhile_word_append (forall_isWordChar_of_isIdentifier hw) hrest']
  exact ⟨hword, List.append_cancel_left (hword ▸ h)⟩

namespace Term

/-- No atom stands in the term, and all names in it are identifiers. -/
def Named (t : Term) : Prop := t.wellFormed ∧ ∀ x ∈ t.symbols, isIdentifier x.toList

/-- What stands in parentheses behind the name of a term. -/
def args : Term → List Term
  | var _ | stray .. => []
  | app _ ts => ts

/-- Arguments in parentheses, and nothing if there are none. -/
def argumentText (n : Notation) (ts : List Term) : List Char :=
  if ts.isEmpty then []
  else ['('] ++ ((Text.join n.signs.betweenArguments (renderAll n ts)).toList ++ [')'])

/-- Arguments that stand behind another one. -/
def moreText (n : Notation) (ts : List Term) : List Char :=
  ts.flatMap fun t => n.signs.betweenArguments.toList ++ (t.render n).toList

variable {n : Notation} {s t : Term} {ts ss : List Term} {rest rest' : List Char}

theorem Named.name (ht : t.Named) : isIdentifier t.name.toList := by
  cases t with
  | var x | app f ts | stray f ts => exact ht.2 _ (by simp [Term.name, symbols])

theorem Named.of_mem_args (ht : t.Named) : ∀ u ∈ t.args, u.Named := by
  obtain ⟨hwf, hnames⟩ := ht
  cases t with
  | var x => exact fun _ hu => nomatch hu
  | app f ts =>
    rw [wellFormed, allWellFormed_eq_all, List.all_eq_true] at hwf
    simp only [symbols, symbolsOfAll_eq_flatMap, List.mem_cons, List.mem_flatMap] at hnames
    exact fun u hu => ⟨hwf u hu, fun x hx => hnames x (Or.inr ⟨u, hu, hx⟩)⟩
  | stray p ts => simp [wellFormed] at hwf

theorem Named.withoutConstants_eq (ht : t.Named) : t.withoutConstants =
    if (t.args.map withoutConstants).isEmpty then .var t.name
    else .app t.name (t.args.map withoutConstants) := by
  cases t with
  | var x => rfl
  | app f ts => simp [withoutConstants, withoutConstantsAll_eq_map, args, Term.name]
  | stray p ts => simp [Named, wellFormed] at ht

theorem argumentText_cons (n : Notation) (t : Term) (ts : List Term) :
    argumentText n (t :: ts) = ['('] ++ ((t.render n).toList ++ (moreText n ts ++ [')'])) := by
  rw [argumentText, renderAll, Text.toList_join_cons, renderAll_eq_map, List.flatMap_map]
  simp [moreText]

theorem toList_render (n : Notation) (t : Term) :
    (t.render n).toList = t.name.toList ++ argumentText n t.args := by
  cases t with
  | var x | stray p ts => simp [render, Term.name, args, argumentText]
  | app f ts => cases ts <;> simp [render, Term.name, args, argumentText]

theorem boundary_argumentText (n : Notation) (ts : List Term) (hrest : EndsName rest) :
    Boundary (argumentText n ts ++ rest) := by
  cases ts with
  | nil => exact hrest.boundary
  | cons t ts =>
    rw [argumentText_cons]
    exact boundary_cons (by decide) _

theorem endsName_moreText (n : Notation) (ts : List Term) (rest : List Char) :
    EndsName (moreText n ts ++ ([')'] ++ rest)) := by
  cases ts with
  | nil => exact endsName_closing rest
  | cons t ts =>
    rw [moreText, List.flatMap_cons, List.append_assoc, List.append_assoc]
    cases n <;> exact endsName_cons (by decide) (by decide) _

/-- The writing of the term is the beginning of a text in one way only. -/
def TellsApart (n : Notation) (t : Term) : Prop :=
  ∀ (s : Term) (rest rest' : List Char), s.Named → EndsName rest → EndsName rest' →
    (t.render n).toList ++ rest = (s.render n).toList ++ rest' →
    t.withoutConstants = s.withoutConstants ∧ rest = rest'

theorem eq_of_moreText (hts : ∀ t ∈ ts, t.TellsApart n) (hss : ∀ s ∈ ss, s.Named)
    (h : moreText n ts ++ ([')'] ++ rest) = moreText n ss ++ ([')'] ++ rest')) :
    ts.map withoutConstants = ss.map withoutConstants ∧ rest = rest' := by
  induction ts generalizing ss with
  | nil =>
    cases ss with
    | nil => exact ⟨rfl, List.append_cancel_left h⟩
    | cons s ss => cases n <;> simp [moreText, Notation.signs] at h
  | cons t ts ih =>
    obtain ⟨ht, hts⟩ := List.forall_mem_cons.mp hts
    cases ss with
    | nil => cases n <;> simp [moreText, Notation.signs] at h
    | cons s ss =>
      obtain ⟨hs, hss⟩ := List.forall_mem_cons.mp hss
      simp only [moreText, List.flatMap_cons, List.append_assoc] at h
      obtain ⟨hhead, htail⟩ := ht s _ _ hs (endsName_moreText n ts rest)
        (endsName_moreText n ss rest') (List.append_cancel_left h)
      obtain ⟨hmap, hrest⟩ := ih hts hss htail
      exact ⟨congrArg₂ List.cons hhead hmap, hrest⟩

theorem eq_of_argumentText (hts : ∀ t ∈ ts, t.TellsApart n) (hss : ∀ s ∈ ss, s.Named)
    (hrest : EndsName rest) (hrest' : EndsName rest')
    (h : argumentText n ts ++ rest = argumentText n ss ++ rest') :
    ts.map withoutConstants = ss.map withoutConstants ∧ rest = rest' := by
  cases ts with
  | nil =>
    cases ss with
    | nil => exact ⟨rfl, h⟩
    | cons s ss =>
      rw [argumentText_cons, List.append_assoc] at h
      exact absurd h (hrest.ne_opening _)
  | cons t ts =>
    cases ss with
    | nil =>
      rw [argumentText_cons, List.append_assoc] at h
      exact absurd h.symm (hrest'.ne_opening _)
    | cons s ss =>
      simp only [argumentText_cons, List.append_assoc] at h
      -- With a separator in front, the first argument is one more.
      refine eq_of_moreText hts hss ?_
      simp only [moreText, List.flatMap_cons, List.append_assoc]
      exact congrArg (n.signs.betweenArguments.toList ++ ·) (List.append_cancel_left h)

/-- A name with arguments is the beginning of a text in one way only. -/
theorem eq_of_applied {p q : String} (hp : isIdentifier p.toList) (hq : isIdentifier q.toList)
    (hts : ∀ t ∈ ts, t.TellsApart n) (hss : ∀ s ∈ ss, s.Named) (hrest : EndsName rest)
    (hrest' : EndsName rest') (h : (p.toList ++ argumentText n ts) ++ rest =
      (q.toList ++ argumentText n ss) ++ rest') :
    p = q ∧ ts.map withoutConstants = ss.map withoutConstants ∧ rest = rest' := by
  rw [List.append_assoc, List.append_assoc] at h
  obtain ⟨hname, harguments⟩ := identifier_append_inj hp hq (boundary_argumentText n ts hrest)
    (boundary_argumentText n ss hrest') h
  exact ⟨String.toList_inj.mp hname, eq_of_argumentText hts hss hrest hrest' harguments⟩

theorem tellsApart_of_args (ht : t.Named) (hargs : ∀ u ∈ t.args, u.TellsApart n) :
    t.TellsApart n := by
  intro s rest rest' hs hrest hrest' h
  rw [toList_render, toList_render] at h
  obtain ⟨hname, hmap, hrest⟩ :=
    eq_of_applied ht.name hs.name hargs hs.of_mem_args hrest hrest' h
  rw [ht.withoutConstants_eq, hs.withoutConstants_eq, hmap, hname]
  exact ⟨rfl, hrest⟩

theorem tellsApart (n : Notation) (ht : t.Named) : t.TellsApart n := by
  induction t with
  | var x => exact tellsApart_of_args ht fun _ hu => nomatch hu
  | app f ts ih => exact tellsApart_of_args ht fun u hu => ih u hu (ht.of_mem_args u hu)
  | stray p ts => simp [Named, wellFormed] at ht

end Term

namespace Atom

def Named (a : Atom) : Prop := isIdentifier a.predicate.toList ∧ ∀ t ∈ a.args, t.Named

theorem toList_text (n : Notation) (a : Atom) :
    (a.text n).toList = a.predicate.toList ++ Term.argumentText n a.args := by
  unfold text Term.argumentText
  split <;> simp

end Atom

namespace Formula
variable {n : Notation} {f g : Formula} {rest rest' : List Char}

/-- No misplaced atom or term stands in the formula, and all names in it are identifiers. -/
def Named : Formula → Prop
  | .atom a => a.Named
  | .not f => f.Named
  | .binary _ l r => l.Named ∧ r.Named
  | .quant _ x f => isIdentifier x.toList ∧ f.Named
  | .term _ => False

theorem named_of_symbols (hf : f.wellFormed) (hnames : ∀ x ∈ f.symbols, isIdentifier x.toList) :
    f.Named := by
  induction f with
  | atom a =>
    rw [wellFormed, Atom.wellFormed, Term.allWellFormed_eq_all, List.all_eq_true] at hf
    simp only [symbols, Atom.symbols, Term.symbolsOfAll_eq_flatMap, List.mem_cons,
      List.mem_flatMap] at hnames
    exact ⟨hnames _ (Or.inl rfl), fun t ht => ⟨hf t ht, fun x hx => hnames x (Or.inr ⟨t, ht, hx⟩)⟩⟩
  | not f ih => exact ih hf hnames
  | binary c l r ihl ihr =>
    rw [wellFormed, Bool.and_eq_true] at hf
    obtain ⟨hl, hr⟩ := List.forall_mem_append.mp hnames
    exact ⟨ihl hf.1 hl, ihr hf.2 hr⟩
  | quant q x f ih =>
    obtain ⟨hx, hbody⟩ := List.forall_mem_cons.mp hnames
    exact ⟨hx, ih hf hbody⟩
  | term t => simp [wellFormed] at hf

/-- An operand in writing. -/
def operandText (n : Notation) (f : Formula) : List Char := (f.grouped (f.writing n)).toList

theorem operandText_atom (n : Notation) (a : Atom) :
    (atom a).operandText n = a.predicate.toList ++ Term.argumentText n a.args :=
  a.toList_text n

theorem operandText_not (n : Notation) (f : Formula) :
    (not f).operandText n = n.signs.neg.toList ++ f.operandText n := by
  simp [operandText, grouped, isBinary, writing]

theorem toList_writing_binary (n : Notation) (c : Connective) (l r : Formula) :
    ((binary c l r).writing n).toList =
      l.operandText n ++ ((n.signs.connective c).toList ++ r.operandText n) := by
  simp [operandText, writing]

theorem operandText_binary (n : Notation) (c : Connective) (l r : Formula) :
    (binary c l r).operandText n =
      ['('] ++ (l.operandText n ++ ((n.signs.connective c).toList ++ (r.operandText n ++ [')']))) := by
  simp [operandText, toList_grouped, toList_writing_binary, isBinary]

theorem operandText_quant (n : Notation) (q : Quantifier) (x : String) (f : Formula) :
    (quant q x f).operandText n = (n.signs.quantifier q).toList ++
      (x.toList ++ (n.signs.afterVariable.toList ++ f.operandText n)) := by
  simp [operandText, grouped, isBinary, writing]

end Formula

/-- What the beginning of an operand shows. -/
inductive Lead where
  | name
  | negation
  | group
  | binder (q : Quantifier)

/-- The sign with which a text begins, in one of the notations. -/
def Lead.ofText : List Char → Lead
  | '(' :: _ => group
  | '¬' :: _ | '\\' :: 'l' :: _ => negation
  | '∀' :: _ | '\\' :: 'f' :: _ => binder .all
  | '∃' :: _ | '\\' :: 'e' :: _ => binder .ex
  | _ => name

theorem Lead.ofText_of_isWordChar {c : Char} (hc : isWordChar c) (cs : List Char) :
    ofText (c :: cs) = name := by
  have hwords : ['(', '¬', '\\', '∀', '∃'].all (!isWordChar ·) = true := by decide
  have hsigns : ∀ d ∈ ['(', '¬', '\\', '∀', '∃'], c ≠ d := by
    rintro d hd rfl
    simpa [hc] using List.all_eq_true.mp hwords c hd
  simp only [List.forall_mem_cons] at hsigns
  unfold ofText
  split <;> simp_all

namespace Formula
variable {n : Notation} {f g : Formula} {rest rest' : List Char}

def lead : Formula → Lead
  | .atom _ | .term _ => .name
  | .not _ => .negation
  | .binary .. => .group
  | .quant q _ _ => .binder q

theorem ofText_operandText (n : Notation) (hf : f.Named) (rest : List Char) :
    Lead.ofText (f.operandText n ++ rest) = f.lead := by
  cases f with
  | atom a =>
    obtain ⟨c, cs, hname, -, -⟩ := exists_cons_of_isIdentifier hf.1
    have hc : isWordChar c := forall_isWordChar_of_isIdentifier hf.1 c (by rw [hname]; simp)
    rw [operandText_atom, hname]
    exact Lead.ofText_of_isWordChar hc _
  | not f =>
    rw [operandText_not]
    cases n <;> rfl
  | binary c l r =>
    rw [operandText_binary]
    rfl
  | quant q x f =>
    rw [operandText_quant]
    cases n <;> cases q <;> rfl
  | term t => exact hf.elim

theorem lead_eq (hf : f.Named) (hg : g.Named)
    (h : f.operandText n ++ rest = g.operandText n ++ rest') : g.lead = f.lead := by
  rw [← ofText_operandText n hg rest', ← h, ofText_operandText n hf rest]

theorem exists_eq_atom (hf : f.Named) (h : f.lead = .name) : ∃ a, f = atom a := by
  cases f with
  | atom a => exact ⟨a, rfl⟩
  | term t => exact hf.elim
  | not f | binary c l r | quant q x f => simp [lead] at h

theorem exists_eq_not (h : f.lead = .negation) : ∃ g, f = not g := by
  cases f <;> simp_all [lead]

theorem exists_eq_binary (h : f.lead = .group) : ∃ c l r, f = binary c l r := by
  cases f <;> simp_all [lead]

theorem exists_eq_quant {q : Quantifier} (h : f.lead = .binder q) : ∃ x g, f = quant q x g := by
  cases f <;> simp_all [lead]

theorem connective_append_inj {c c' : Connective}
    (h : (n.signs.connective c).toList ++ rest = (n.signs.connective c').toList ++ rest') :
    c = c' ∧ rest = rest' := by
  cases n <;> cases c <;> cases c' <;> simp_all [Notation.signs, Signs.connective]

theorem endsName_connective (n : Notation) (c : Connective) (rest : List Char) :
    EndsName ((n.signs.connective c).toList ++ rest) := by
  cases n <;> cases c <;> exact endsName_cons (by decide) (by decide) _

theorem boundary_afterVariable (n : Notation) (rest : List Char) :
    Boundary (n.signs.afterVariable.toList ++ rest) := by
  cases n <;> exact boundary_cons (by decide) _

/-- The writing of an operand is the beginning of a text in one way only. -/
theorem eq_of_operandText (hf : f.Named) (hg : g.Named) (hrest : EndsName rest)
    (hrest' : EndsName rest') (h : f.operandText n ++ rest = g.operandText n ++ rest') :
    f.withoutConstants = g.withoutConstants ∧ rest = rest' := by
  induction f generalizing g rest rest' with
  | atom a =>
    obtain ⟨b, rfl⟩ := exists_eq_atom hg (lead_eq hf hg h)
    rw [operandText_atom, operandText_atom] at h
    obtain ⟨hname, hmap, hrest⟩ := Term.eq_of_applied hf.1 hg.1
      (fun t ht => Term.tellsApart n (hf.2 t ht)) hg.2 hrest hrest' h
    simp only [withoutConstants, Atom.withoutConstants, hmap, hname]
    exact ⟨trivial, hrest⟩
  | not f ih =>
    obtain ⟨g, rfl⟩ := exists_eq_not (lead_eq hf hg h)
    rw [operandText_not, operandText_not, List.append_assoc, List.append_assoc] at h
    have hg' : g.Named := hg
    obtain ⟨hbody, hrest⟩ := ih hf hg' hrest hrest' (List.append_cancel_left h)
    exact ⟨congrArg not hbody, hrest⟩
  | binary c l r ihl ihr =>
    obtain ⟨c', l', r', rfl⟩ := exists_eq_binary (lead_eq hf hg h)
    simp only [operandText_binary, List.append_assoc] at h
    obtain ⟨hleft, hbehind⟩ := ihl hf.1 hg.1 (endsName_connective n c _)
      (endsName_connective n c' _) (List.append_cancel_left h)
    obtain ⟨rfl, hoperand⟩ := connective_append_inj hbehind
    obtain ⟨hright, hrest⟩ := ihr hf.2 hg.2 (endsName_closing rest) (endsName_closing rest') hoperand
    exact ⟨congrArg₂ (binary c) hleft hright, List.append_cancel_left hrest⟩
  | quant q x f ih =>
    obtain ⟨y, g, rfl⟩ := exists_eq_quant (lead_eq hf hg h)
    simp only [operandText_quant, List.append_assoc] at h
    obtain ⟨hname, hbehind⟩ := identifier_append_inj hf.1 hg.1 (boundary_afterVariable n _)
      (boundary_afterVariable n _) (List.append_cancel_left h)
    obtain ⟨hbody, hrest⟩ := ih hf.2 hg.2 hrest hrest' (List.append_cancel_left hbehind)
    rw [withoutConstants, withoutConstants, hbody, String.toList_inj.mp hname]
    exact ⟨rfl, hrest⟩
  | term t => exact hf.elim

theorem operandText_of_not_binary (hf : f.isBinary = false) :
    f.operandText n = (f.writing n).toList := by
  simp [operandText, grouped, hf]

theorem writing_ne_of_isBinary (hf : f.Named) (hg : g.Named) (hbinary : f.isBinary)
    (hother : g.isBinary = false) : f.writing n ≠ g.writing n := by
  obtain ⟨c, l, r, rfl⟩ := isBinary_iff.mp hbinary
  intro h
  have htext : l.operandText n ++ ((n.signs.connective c).toList ++ r.operandText n) =
      g.operandText n ++ [] := by
    rw [← toList_writing_binary, h, operandText_of_not_binary hother, List.append_nil]
  have hnil := (eq_of_operandText hf.1 hg (endsName_connective n c _) endsName_nil htext).2
  cases n <;> cases c <;> simp [Notation.signs, Signs.connective] at hnil

theorem withoutConstants_eq_of_writing (hf : f.Named) (hg : g.Named)
    (h : f.writing n = g.writing n) : f.withoutConstants = g.withoutConstants := by
  have hbinary : f.isBinary = g.isBinary := by
    cases hleft : f.isBinary <;> cases hright : g.isBinary
    · rfl
    · exact absurd h.symm (writing_ne_of_isBinary hg hf hright hleft)
    · exact absurd h (writing_ne_of_isBinary hf hg hleft hright)
    · rfl
  have htext : f.operandText n ++ [] = g.operandText n ++ [] := by
    rw [operandText, operandText, grouped, grouped, hbinary, h]
  exact (eq_of_operandText hf hg endsName_nil endsName_nil htext).1

end Formula

theorem Term.render_withoutConstants (n : Notation) (t : Term) :
    t.withoutConstants.render n = t.render n := by
  induction t with
  | var x | stray p ts => rfl
  | app f ts ih =>
    cases ts with
    | nil => rfl
    | cons t ts =>
      have hrender : renderAll n (withoutConstantsAll (t :: ts)) = renderAll n (t :: ts) := by
        rw [renderAll_eq_map, renderAll_eq_map, withoutConstantsAll_eq_map, List.map_map]
        exact List.map_congr_left ih
      rw [withoutConstants, if_neg (by simp), render, ← hrender, withoutConstantsAll, render]

theorem Atom.text_withoutConstants (n : Notation) (a : Atom) :
    a.withoutConstants.text n = a.text n := by
  have hrender : Term.renderAll n (a.args.map Term.withoutConstants) = Term.renderAll n a.args := by
    rw [Term.renderAll_eq_map, Term.renderAll_eq_map, List.map_map]
    exact List.map_congr_left fun t _ => t.render_withoutConstants n
  rw [text, text, withoutConstants, hrender, List.isEmpty_map]

namespace Formula
variable {f g : Formula}

theorem writing_withoutConstants (n : Notation) (f : Formula) :
    f.withoutConstants.writing n = f.writing n := by
  have hgrouped (f : Formula) (s : String) : f.withoutConstants.grouped s = f.grouped s := by
    cases f <;> rfl
  induction f with
  | atom a => exact a.text_withoutConstants n
  | not f ih => rw [withoutConstants, writing, writing, ih, hgrouped]
  | binary c l r ihl ihr =>
    rw [withoutConstants, writing, writing, ihl, ihr, hgrouped, hgrouped]
  | quant q x f ih => rw [withoutConstants, writing, writing, ih, hgrouped]
  | term t => rfl

theorem writing_inj (n : Notation) (hf : f.Named) (hg : g.Named) :
    f.writing n = g.writing n ↔ f.withoutConstants = g.withoutConstants := by
  constructor
  · exact withoutConstants_eq_of_writing hf hg
  · intro h
    rw [← writing_withoutConstants n f, h, writing_withoutConstants]

/-- In either notation, two formulas over identifiers are written alike if and only if they are the
same up to constants in place of variables; and a plain formula without quantifiers is read back from
its mark-up. -/
theorem writings_are_unambiguous :
    (∀ (n : Notation) (f g : Formula), f.wellFormed → g.wellFormed →
      (∀ x ∈ f.symbols ++ g.symbols, isIdentifier x.toList) →
      ∃ s t, f.render n = .ok s ∧ g.render n = .ok t ∧
        (s = t ↔ f.withoutConstants = g.withoutConstants)) ∧
    ∀ f : Formula, f.IsPlain → f.QuantifierFree →
      ∃ s, f.render .latex = .ok s ∧ parse true s = .ok f := by
  constructor
  · intro n f g hf hg hnames
    obtain ⟨hnamesf, hnamesg⟩ := List.forall_mem_append.mp hnames
    exact ⟨f.writing n, g.writing n, render_eq n hf, render_eq n hg,
      writing_inj n (named_of_symbols hf hnamesf) (named_of_symbols hg hnamesg)⟩
  · intro f hf hfree
    exact ⟨f.writing .latex, render_eq .latex hf.wellFormed,
      parse_writing_of_legible hf (hfree.legibleIn .latex) true⟩

/-- Among names that are spelled like keywords, a constant is written as the variable of its name is,
and not as a function is. -/
theorem writings_are_unambiguous_of_keyword_names :
    let formula (ts : List Term) : Formula :=
      .ex "x" (.or (.atom ⟨"and", [.app "not" ts]⟩) (.not (.atom ⟨"all", []⟩)))
    let f := formula [.app "c" [], .var "x"]
    let g := formula [.var "c", .var "x"]
    let h := formula [.app "c" [.var "x"]]
    let k : Formula :=
      .implies (.atom ⟨"P", [.var "x", .var "y"]⟩) (.not (.iff (.atom ⟨"Q", []⟩) (.atom ⟨"and_", []⟩)))
    (∀ n, ∃ s, f.render n = .ok s ∧ g.render n = .ok s) ∧
      (∀ n, ∃ s t, f.render n = .ok s ∧ h.render n = .ok t ∧ s ≠ t) ∧
      ∃ s, k.render .latex = .ok s ∧ parse true s = .ok k := by
  intro formula f g h k
  obtain ⟨happart, hread⟩ := writings_are_unambiguous
  refine ⟨fun n => ?_, fun n => ?_, hread k (by decide) ?_⟩
  · obtain ⟨s, t, hs, ht, heq⟩ := happart n f g rfl rfl (by decide)
    exact ⟨s, hs, heq.mpr rfl ▸ ht⟩
  · obtain ⟨s, t, hs, ht, heq⟩ := happart n f h rfl rfl (by decide)
    exact ⟨s, t, hs, ht, fun h => nomatch heq.mp h⟩
  · exact .binary _ (.atom _) (.not (.binary _ (.atom _) (.atom _)))

end Formula

end Clausification

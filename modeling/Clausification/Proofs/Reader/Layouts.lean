import Clausification.Proofs.Reader.Names
import Clausification.Proofs.Reader.Prefixes

/-!
# Quantifiers written in runs

Quantifiers of one kind that follow one another may share a sign, and the dot behind the variables may
be left out. Whatever is chosen, what is written is read as the same formula. Without a dot the last
variable is followed by the body at once, so that must neither begin with a name that could be another
variable nor with what could be arguments.
-/

namespace Clausification

/-- A formula with the choices of how to write its quantifiers: in each run some variables share a
sign, and a dot follows them or not. -/
inductive Layout where
  | atom (a : Atom)
  | not (l : Layout)
  | binary (c : Connective) (l r : Layout)
  | run (q : Quantifier) (x : String) (xs : List String) (dot : Bool) (body : Layout)

namespace Layout

/-- The formula without the choices. -/
def formula : Layout → Formula
  | atom a => .atom a
  | not l => .not l.formula
  | binary c l r => .binary c l.formula r.formula
  | run q x xs _ l => Reader.bindAll q (x :: xs) l.formula

def behindRun (dot : Bool) : String := if dot then Notation.text.signs.afterVariable else " "

/-- The plain text of a formula with its quantifiers as they are chosen. -/
def text : Layout → String
  | atom a => a.text .text
  | not l => Notation.text.signs.neg ++ l.formula.grouped l.text
  | binary c l r =>
    l.formula.grouped l.text ++ Notation.text.signs.connective c ++ r.formula.grouped r.text
  | run q x xs dot l => Notation.text.signs.quantifier q ++
      (Text.join " " (x :: xs) ++ behindRun dot ++ l.formula.grouped l.text)

def words : Layout → Words
  | atom a => a.words
  | not l => (.not, "¬") :: l.formula.groupedWords l.words
  | binary c l r => l.formula.groupedWords l.words ++
      (.binary c, String.singleton c.sign) :: r.formula.groupedWords r.words
  | run q x xs dot l => (.quant q, String.singleton q.sign) ::
      ((x :: xs).map (.ident, ·) ++ (if dot then [(.dot, ".")] else []) ++
        l.formula.groupedWords l.words)

/-- One quantifier a run, and always a dot: this is how formulas are written. -/
theorem exists_text_eq_writing {f : Formula} (hf : f.IsPlain) :
    ∃ l : Layout, l.formula = f ∧ l.text = f.writing .text := by
  induction f with
  | atom a => exact ⟨.atom a, rfl, rfl⟩
  | not f ih =>
    obtain ⟨l, rfl, hl⟩ := ih hf
    exact ⟨.not l, rfl, by rw [text, hl]; rfl⟩
  | binary c f g ihl ihr =>
    obtain ⟨l, rfl, hl⟩ := ihl hf.1
    obtain ⟨r, rfl, hr⟩ := ihr hf.2
    exact ⟨.binary c l r, rfl, by rw [text, hl, hr]; rfl⟩
  | quant q x f ih =>
    obtain ⟨l, rfl, hl⟩ := ih hf.2
    exact ⟨.run q x [] true l, rfl, by rw [text, hl, Formula.writing_quant]; rfl⟩
  | term t => exact hf.elim

theorem yields_names {xs : List String} (hxs : ∀ x ∈ xs, isName x) {rest : List Char}
    (hrest : Boundary rest) :
    Yields (Text.join " " xs).toList (xs.map (.ident, ·)) rest := by
  induction xs with
  | nil => exact Yields.nil rest
  | cons x xs ih =>
    obtain ⟨hx, hxs⟩ := List.forall_mem_cons.mp hxs
    cases xs with
    | nil => exact Yields.name hx hrest
    | cons y ys =>
      rw [Text.toList_join_cons_cons]
      exact (Yields.name hx (boundary_cons rfl _)).append ((Yields.blank _).append (ih hxs))

theorem yields_behindRun (dot : Bool) (rest : List Char) :
    Yields (behindRun dot).toList (if dot then [(.dot, ".")] else []) rest := by
  cases dot with
  | false => exact Yields.blank rest
  | true => exact (Yields.dot _).append (Yields.blank rest)

theorem boundary_behindRun (dot : Bool) (rest : List Char) :
    Boundary ((behindRun dot).toList ++ rest) := by
  cases dot <;> exact boundary_cons rfl _

theorem yields_text {l : Layout} (hl : l.formula.IsPlain) {rest : List Char}
    (hrest : Boundary rest) : Yields l.text.toList l.words rest := by
  induction l generalizing rest with
  | atom a => exact Atom.yields_text hl hrest
  | not l ih => exact l.formula.yields_not .text (fun _ => ih hl) hrest
  | binary c l r ihl ihr =>
    exact Formula.yields_binary .text c l.formula r.formula (fun _ => ihl hl.1) (fun _ => ihr hl.2)
      hrest
  | run q x xs dot l ih =>
    obtain ⟨hnames, hbody⟩ := Reader.isPlain_bindAll.mp hl
    refine Formula.yields_quantifier q l.formula (fun rest => ?_) (fun _ => ih hbody) hrest
    rw [String.toList_append]
    exact (yields_names hnames (boundary_behindRun dot rest)).append (yields_behindRun dot rest)

theorem inked_text {l : Layout} (hl : l.formula.IsPlain) : Inked l.text.toList := by
  induction l with
  | atom a => exact Atom.inked_text hl
  | not l ih => exact l.formula.inked_not .text (ih hl)
  | binary c l r ihl ihr =>
    exact Formula.inked_binary .text c l.formula r.formula (ihl hl.1) (ihr hl.2)
  | run q x xs dot l ih =>
    obtain ⟨hnames, hbody⟩ := Reader.isPlain_bindAll.mp hl
    have hjoin : '$' ∉ (Text.join " " (x :: xs)).toList := Atom.no_delimiter_join (by decide) hnames
    have hbehind : '$' ∉ (behindRun dot).toList := by cases dot <;> decide
    refine Formula.inked_quantifier q l.formula ?_ (ih hbody)
    simp [hjoin, hbehind]

end Layout

namespace Reader

/-- The tokens are read as one operand that may follow variables without a dot. -/
structure ReadsAsBody (ts : List Token) (f : Formula) : Prop where
  reads : ReadsBefore (endsOperand · = true) ts f
  notArguments : ∀ rest, startsArguments (ts ++ rest) = false

theorem ReadsBefore.sentence {allowed : List Token → Prop} {ts : List Token} {f : Formula}
    (h : ReadsBefore allowed ts f) (hnil : allowed []) : Sentence ts :=
  sentence_of_readAll (f := f) (by rw [readAll, h.readFormula_eq hnil])

theorem identifiers_of_words {ts : List Token} {xs : List String}
    (hts : wordsOf ts = xs.map (.ident, ·)) : Identifiers ts ∧ ts.map (·.text) = xs := by
  induction xs generalizing ts with
  | nil =>
    rw [List.map_eq_nil_iff.mp hts]
    exact ⟨identifiers_nil, rfl⟩
  | cons x xs ih =>
    obtain ⟨o, us, rfl, hus⟩ := wordsOf_eq_cons hts
    obtain ⟨hidents, htexts⟩ := ih hus
    exact ⟨List.forall_mem_cons.mpr ⟨rfl, hidents⟩, congrArg (x :: ·) htexts⟩

namespace ReadsAsBody
variable {ts us vs xs : List Token} {f l r : Formula} {c : Connective} {q : Quantifier}
  {w x y z : String} {m n o : Nat}

theorem atom {a : Atom} (ha : ∀ rest, NotOpening rest → atomAfter x (ts ++ rest) = .ok (a, rest)) :
    ReadsAsBody (⟨.ident, x, o⟩ :: ts) (.atom a) :=
  ⟨fun d s rest hrest => ReadsAs.atom ha d s rest (notOpening_of_endsOperand hrest), fun _ => rfl⟩

theorem not (hf : ReadsAsBody ts f) : ReadsAsBody (⟨.not, x, o⟩ :: ts) (.not f) :=
  ⟨hf.reads.not, fun _ => rfl⟩

theorem group (hl : ReadsAsBody us l) (hr : ReadsAsBody vs r) :
    ReadsAsBody (⟨.opening, w, m⟩ :: (us ++ ⟨.binary c, x, n⟩ :: vs ++ [⟨.closing, z, o⟩]))
      (.binary c l r) := by
  refine ⟨.group hl.reads hr.reads (fun _ => rfl) fun _ => rfl, fun rest => ?_⟩
  have hsentence : Sentence (us ++ ⟨.binary c, x, n⟩ :: vs) :=
    .binary c x n (hl.reads.sentence rfl) (hr.reads.sentence rfl)
  have hbody : StartsBody (us ++ ⟨.binary c, x, n⟩ :: vs ++ ⟨.closing, z, o⟩ :: rest) :=
    hsentence.startsBody rfl
  rw [List.cons_append, List.append_assoc, List.singleton_append, startsArguments_opening hbody,
    ← Bool.not_eq_true]
  intro hcloses
  -- only a single name could be arguments, and here is a connective
  obtain ⟨y, k, heq⟩ := hsentence.eq_singleton hcloses
  have hmem : (⟨.binary c, x, n⟩ : Token) ∈ us ++ ⟨.binary c, x, n⟩ :: vs := by simp
  simp [heq] at hmem

theorem run (hxs : Identifiers xs) (hf : ReadsAsBody ts f) :
    ReadsAsBody (⟨.quant q, w, m⟩ :: ⟨.ident, x, n⟩ :: (xs ++ ts))
      (bindAll q (x :: xs.map (·.text)) f) := by
  refine ⟨fun d s rest hrest => ?_, fun _ => rfl⟩
  have hbody := (hf.reads.sentence rfl).startsBody hrest
  simp only [List.cons_append, List.append_assoc]
  rw [readOperand_quant (binderNames_body hxs hbody (Or.inr (hf.notArguments rest))),
    hf.reads d _ rest hrest]
  exact readOperator_of_closePrefixes rfl

theorem dotted (hxs : Identifiers xs) (hf : ReadsAsBody ts f) :
    ReadsAsBody (⟨.quant q, w, m⟩ :: ⟨.ident, x, n⟩ :: (xs ++ ⟨.dot, y, o⟩ :: ts))
      (bindAll q (x :: xs.map (·.text)) f) := by
  refine ⟨fun d s rest hrest => ?_, fun _ => rfl⟩
  simp only [List.cons_append, List.append_assoc]
  rw [readOperand_quant (binderNames_dot hxs), hf.reads d _ rest hrest]
  exact readOperator_of_closePrefixes rfl

end ReadsAsBody

theorem readsAsBody_grouped {l : Layout} (hl : l.formula.IsPlain) {ts : List Token}
    (hts : wordsOf ts = l.formula.groupedWords l.words) : ReadsAsBody ts l.formula := by
  induction l generalizing ts with
  | atom a =>
    obtain ⟨o, us, rfl, hatom⟩ := atomAfter_words hl hts
    exact .atom hatom
  | not l ih =>
    obtain ⟨o, us, rfl, hus⟩ := wordsOf_eq_cons hts
    exact .not (ih hl hus)
  | binary c l r ihl ihr =>
    obtain ⟨m, us, rfl, hus⟩ := wordsOf_eq_cons hts
    obtain ⟨us, us', rfl, hbinary, hclosing⟩ := wordsOf_eq_append hus
    obtain ⟨o, us', rfl, hus'⟩ := wordsOf_eq_cons hclosing
    obtain ⟨vs, x, n, ws, rfl, hvs, hws⟩ := wordsOf_eq_binary hbinary
    rw [List.map_eq_nil_iff.mp hus']
    exact .group (ihl hl.1 hvs) (ihr hl.2 hws)
  | run q x xs dot l ih =>
    obtain ⟨-, hbody⟩ := isPlain_bindAll.mp hl
    obtain ⟨m, us, rfl, hrun⟩ := wordsOf_eq_cons hts
    obtain ⟨us, vs, rfl, hbinder, hvs⟩ := wordsOf_eq_append hrun
    obtain ⟨us, ds, rfl, hnames, hds⟩ := wordsOf_eq_append hbinder
    obtain ⟨n, us, rfl, hus⟩ := wordsOf_eq_cons hnames
    obtain ⟨hidents, rfl⟩ := identifiers_of_words hus
    simp only [List.cons_append, List.append_assoc]
    cases dot with
    | false =>
      obtain rfl : ds = [] := List.map_eq_nil_iff.mp hds
      exact .run hidents (ih hbody hvs)
    | true =>
      obtain ⟨o, es, rfl, hes⟩ := wordsOf_eq_cons hds
      obtain rfl : es = [] := List.map_eq_nil_iff.mp hes
      exact .dotted hidents (ih hbody hvs)

theorem readFormula_layout {l : Layout} (hl : l.formula.IsPlain) {ts : List Token}
    (hts : wordsOf ts = l.words) : readFormula ts = .ok (l.formula, []) := by
  by_cases hbinary : l.formula.isBinary
  · cases l with
    | binary c l r =>
      obtain ⟨us, x, o, vs, rfl, hus, hvs⟩ := wordsOf_eq_binary hts
      exact ReadsBefore.readFormula_binary (readsAsBody_grouped hl.1 hus).reads
        (readsAsBody_grouped hl.2 hvs).reads (fun _ => rfl) rfl
    | atom | not | run => simp [Layout.formula, bindAll, Formula.isBinary] at hbinary
  · have hgrouped : l.formula.groupedWords l.words = l.words := if_neg hbinary
    exact (readsAsBody_grouped hl (hts.trans hgrouped.symm)).reads.readFormula_eq rfl

end Reader

namespace Formula

/-- However the quantifiers of a plain formula are gathered in runs, and whether or not a dot follows
each run, the text is read as the formula. One choice gives the text that is written. -/
theorem layouts_are_read_alike (f : Formula) (hf : f.IsPlain) :
    (∃ l : Layout, l.formula = f ∧ f.render .text = .ok l.text) ∧
      ∀ l : Layout, l.formula = f → ∀ strict, Formula.parse strict l.text = .ok f := by
  constructor
  · obtain ⟨l, hl, htext⟩ := Layout.exists_text_eq_writing hf
    exact ⟨l, hl, htext ▸ render_eq _ hf.wellFormed⟩
  · rintro l rfl strict
    have hend : Boundary [] := by simp [Boundary]
    obtain ⟨ts, hts, hscan⟩ := (Layout.yields_text hf hend).exists_scan (Layout.inked_text hf) strict
    exact parse_of_scan hscan (Reader.readFormula_layout hf hts)

/-- The bodies that follow variables without a dot are a name alone, a name with arguments and a
group. -/
theorem layouts_are_read_alike_of_undotted_runs :
    let f : Formula := .implies (.all "x" (.all "y" (.all "z" (.atom ⟨"P", []⟩))))
      (.ex "y" (.and (.ex "z" (.atom ⟨"Q", [.var "y", .var "z"]⟩)) (.all "x" (.atom ⟨"P", []⟩))))
    Formula.parse true "∀x ∀y z P → ∃y (∃z Q(y, z) ∧ ∀x. P)" = .ok f := by
  intro f
  let l : Layout := .binary .implies
    (.run .all "x" [] false (.run .all "y" ["z"] false (.atom ⟨"P", []⟩)))
    (.run .ex "y" [] false (.binary .and
      (.run .ex "z" [] false (.atom ⟨"Q", [.var "y", .var "z"]⟩))
      (.run .all "x" [] true (.atom ⟨"P", []⟩))))
  have htext : l.text = "∀x ∀y z P → ∃y (∃z Q(y, z) ∧ ∀x. P)" := by decide
  exact htext ▸ (layouts_are_read_alike f (by decide)).2 l rfl true

end Formula

end Clausification

import Clausification.Derivation.Run
import Clausification.Proofs.Result

/-!
# Clauses in writing

Clauses whose arguments are terms can be written, alone, as a list and in a table, and what stands
there is given by functions that cannot fail.
-/

namespace Clausification

/-- A literal in writing, if its arguments are terms. -/
def Literal.writing (n : Notation) (l : Literal) : String :=
  if l.positive then l.atom.text n else n.signs.neg ++ l.atom.text n

theorem Literal.render_eq (n : Notation) {l : Literal} (hl : l.atom.wellFormed) :
    l.render n = .ok (l.writing n) := by
  rw [render, Atom.render, if_pos hl]
  rfl

namespace Clause

/-- All arguments in the clause are terms. -/
def WellFormed (c : Clause) : Prop := ∀ l ∈ c, l.atom.wellFormed

instance (c : Clause) : Decidable c.WellFormed :=
  inferInstanceAs (Decidable (∀ l ∈ c, l.atom.wellFormed))

/-- A clause in writing. -/
def writing (n : Notation) (c : Clause) : String :=
  if c.isEmpty then n.signs.emptyClause else Text.join n.signs.or (c.map (Literal.writing n))

/-- A list of clauses in writing. -/
def writingAll (n : Notation) (cs : List Clause) : String :=
  if cs.isEmpty then n.signs.emptySet
  else Text.join n.signs.and (cs.map fun c => "(" ++ c.writing n ++ ")")

/-- A clause as an entry of the record. -/
def entryAt (n : Notation) (index : Nat) (c : Clause) : ClauseEntry where
  index := index
  literals := c.map fun l => ⟨l.positive, l.atom.text n⟩
  kind := c.kind
  horn := c.isHorn
  text := c.writing n

def entriesFrom (n : Notation) : (index : Nat) → List Clause → List ClauseEntry
  | _, [] => []
  | index, c :: cs => c.entryAt n index :: entriesFrom n (index + 1) cs

/-- The lines of the table of clauses. -/
def rowsFrom (n : Notation) : (index : Nat) → List Clause → List String → List String
  | i, c :: cs, kind :: kinds =>
    (tableLabel n i ++ ": (" ++ c.writing n ++ ")" ++ n.signs.implies ++ n.prose kind)
      :: rowsFrom n (i + 1) cs kinds
  | _, _, _ => []

variable (n : Notation) {c : Clause} {cs : List Clause}

theorem render_eq (hc : c.WellFormed) : c.render n = .ok (c.writing n) := by
  rw [render, writing]
  split
  · rfl
  · rw [mapM_ok fun l hl => Literal.render_eq n (hc l hl)]
    rfl

theorem renderAll_eq (hcs : ∀ c ∈ cs, WellFormed c) : renderAll n cs = .ok (writingAll n cs) := by
  have hgrouped : (cs.mapM fun c => (return "(" ++ (← c.render n) ++ ")" : Except Obstacle String)) =
      .ok (cs.map fun c => "(" ++ c.writing n ++ ")") := by
    refine mapM_ok fun c hc => ?_
    rw [render_eq n (hcs c hc)]
    rfl
  rw [renderAll, writingAll]
  split
  · rfl
  · rw [hgrouped]
    rfl

theorem entry_eq (index : Nat) (hc : c.WellFormed) : c.entry n index = .ok (c.entryAt n index) := by
  have hliterals : (c.mapM fun l =>
      (return { positive := l.positive, atom := ← l.atom.render n } : Except Obstacle LiteralEntry)) =
      .ok (c.map fun l => ⟨l.positive, l.atom.text n⟩) := by
    refine mapM_ok fun l hl => ?_
    rw [Atom.render, if_pos (hc l hl)]
    rfl
  rw [entry, hliterals, render_eq n hc]
  rfl

theorem entries_eq (index : Nat) (hcs : ∀ c ∈ cs, WellFormed c) :
    entries n index cs = .ok (entriesFrom n index cs) := by
  induction cs generalizing index with
  | nil => rfl
  | cons c cs ih =>
    obtain ⟨hc, hcs⟩ := List.forall_mem_cons.mp hcs
    rw [entries, entry_eq n index hc, ih (index + 1) hcs]
    rfl

theorem tableRows_eq (i : Nat) (kinds : List String) (hcs : ∀ c ∈ cs, WellFormed c) :
    tableRows n i cs kinds = .ok (rowsFrom n i cs kinds) := by
  induction cs generalizing i kinds with
  | nil => rfl
  | cons c cs ih =>
    obtain ⟨hc, hcs⟩ := List.forall_mem_cons.mp hcs
    cases kinds with
    | nil => rfl
    | cons kind kinds =>
      rw [tableRows, tableRow, render_eq n hc, ih (i + 1) kinds hcs]
      rfl

theorem table_eq (kinds : List String) (hcs : ∀ c ∈ cs, WellFormed c) :
    table n cs kinds = .ok (Text.join n.signs.betweenLines (rowsFrom n 1 cs kinds)) := by
  rw [table, tableRows_eq n 1 kinds hcs]
  rfl

theorem entriesFrom_ne_nil (index : Nat) (hcs : cs ≠ []) : entriesFrom n index cs ≠ [] := by
  cases cs with
  | nil => exact absurd rfl hcs
  | cons c cs => exact List.cons_ne_nil _ _

theorem literals_ne_nil_of_mem_entriesFrom {index : Nat} {e : ClauseEntry}
    (hcs : ∀ c ∈ cs, c ≠ []) (he : e ∈ entriesFrom n index cs) : e.literals ≠ [] := by
  induction cs generalizing index with
  | nil => cases he
  | cons c cs ih =>
    obtain ⟨hc, hcs⟩ := List.forall_mem_cons.mp hcs
    rcases List.mem_cons.mp he with rfl | he
    · simpa [entryAt] using hc
    · exact ih hcs he

end Clause

end Clausification

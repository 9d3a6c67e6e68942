import Clausification.Clause.Basic
import Clausification.Proofs.Form.Distributed
import Clausification.Proofs.Formula.Meaning

/-!
# Groups of literals

What distribution and extraction produce can be read off a formula without quantifiers: one
connective puts the groups of its operands side by side, and its dual pairs them, those of the left
operand first. For the conjunctive normal form these groups are the clauses.
-/

namespace Clausification

namespace Formula

/-- The groups of literals that `outer` joins once it is distributed over its dual. -/
def groups (outer : Connective) : Formula → List (List Literal)
  | .atom a => [[⟨true, a⟩]]
  | .not (.atom a) => [[⟨false, a⟩]]
  | .binary c l r =>
    if c = outer then l.groups outer ++ r.groups outer
    else (l.groups outer).flatMap fun x => (r.groups outer).map (x ++ ·)
  | _ => []

/-- The literals of a formula, left to right. -/
def literals : Formula → List Literal
  | .atom a => [⟨true, a⟩]
  | .not (.atom a) => [⟨false, a⟩]
  | .binary _ l r => l.literals ++ r.literals
  | _ => []

variable {outer : Connective} {f l r : Formula}

theorem groups_binary_self : (binary outer l r).groups outer = l.groups outer ++ r.groups outer := by
  simp [groups]

theorem groups_binary_dual (houter : outer.IsJunction) :
    (binary outer.dual l r).groups outer =
      (l.groups outer).flatMap fun x => (r.groups outer).map (x ++ ·) := by
  simp [groups, houter.dual_ne]

theorem groups_ne_nil (hf : f.Matrix) : f.groups outer ≠ [] := by
  induction hf with
  | atom a => simp [groups]
  | negated a => simp [groups]
  | binary hc _ _ ihl ihr =>
    rw [groups]
    split
    · simp [ihl]
    · obtain ⟨x, hx⟩ := List.exists_mem_of_ne_nil _ ihl
      obtain ⟨y, hy⟩ := List.exists_mem_of_ne_nil _ ihr
      exact List.ne_nil_of_mem (List.mem_flatMap.mpr ⟨x, hx, List.mem_map_of_mem hy⟩)

theorem ne_nil_of_mem_groups {c : List Literal} (hc : c ∈ f.groups outer) : c ≠ [] := by
  fun_induction groups outer f generalizing c with
  | case1 a => simp_all
  | case2 a => simp_all
  | case3 l r ihl ihr => exact (List.mem_append.mp hc).elim ihl ihr
  | case4 c' l r hne ihr ihl =>
    obtain ⟨x, hx, hc⟩ := List.mem_flatMap.mp hc
    obtain ⟨y, _, rfl⟩ := List.mem_map.mp hc
    simp [ihl hx]
  | case5 => exact nomatch hc

theorem mem_literals_of_mem_groups {c : List Literal} (hc : c ∈ f.groups outer) :
    c ⊆ f.literals := by
  fun_induction groups outer f generalizing c with
  | case1 a => simp_all [literals]
  | case2 a => simp_all [literals]
  | case3 l r ihl ihr =>
    rcases List.mem_append.mp hc with hc | hc
    · exact List.Subset.trans (ihl hc) (List.subset_append_left _ _)
    · exact List.Subset.trans (ihr hc) (List.subset_append_right _ _)
  | case4 c' l r hne ihr ihl =>
    obtain ⟨x, hx, hc⟩ := List.mem_flatMap.mp hc
    obtain ⟨y, hy, rfl⟩ := List.mem_map.mp hc
    exact List.append_subset.mpr ⟨List.Subset.trans (ihl hx) (List.subset_append_left _ _),
      List.Subset.trans (ihr hy) (List.subset_append_right _ _)⟩
  | case5 => exact nomatch hc

/-- Every literal is in some group: pairing loses none, since neither side is without groups. -/
theorem exists_mem_groups_of_mem_literals (hf : f.Matrix) {l : Literal} (hl : l ∈ f.literals) :
    ∃ c ∈ f.groups outer, l ∈ c := by
  induction hf with
  | atom a => exact ⟨_, List.mem_singleton_self _, hl⟩
  | negated a => exact ⟨_, List.mem_singleton_self _, hl⟩
  | @binary c' f g _ hf hg ihf ihg =>
    rw [groups]
    split
    · rcases List.mem_append.mp hl with hl | hl
      · obtain ⟨c, hc, h⟩ := ihf hl
        exact ⟨c, List.mem_append_left _ hc, h⟩
      · obtain ⟨c, hc, h⟩ := ihg hl
        exact ⟨c, List.mem_append_right _ hc, h⟩
    · have hleft : f.groups outer ≠ [] := groups_ne_nil hf
      have hright : g.groups outer ≠ [] := groups_ne_nil hg
      obtain ⟨x, hx⟩ := List.exists_mem_of_ne_nil _ hleft
      obtain ⟨y, hy⟩ := List.exists_mem_of_ne_nil _ hright
      rcases List.mem_append.mp hl with hl | hl
      · obtain ⟨c, hc, h⟩ := ihf hl
        exact ⟨c ++ y, List.mem_flatMap.mpr ⟨c, hc, List.mem_map_of_mem hy⟩,
          List.mem_append_left _ h⟩
      · obtain ⟨c, hc, h⟩ := ihg hl
        exact ⟨x ++ c, List.mem_flatMap.mpr ⟨x, hx, List.mem_map_of_mem hc⟩,
          List.mem_append_right _ h⟩

theorem mem_flatten_groups (hf : f.Matrix) {l : Literal} :
    l ∈ (f.groups outer).flatten ↔ l ∈ f.literals := by
  rw [List.mem_flatten]
  constructor
  · rintro ⟨c, hc, hl⟩
    exact mem_literals_of_mem_groups hc hl
  · exact exists_mem_groups_of_mem_literals hf

theorem map_atom_literals (hf : f.Matrix) : f.literals.map (·.atom) = f.atoms := by
  induction hf with
  | atom a => rfl
  | negated a => rfl
  | binary _ _ _ ihl ihr => rw [literals, atoms, List.map_append, ihl, ihr]

theorem atom_mem_of_mem_groups (hf : f.Matrix) {c : List Literal} (hc : c ∈ f.groups outer)
    {l : Literal} (hl : l ∈ c) : l.atom ∈ f.atoms := by
  rw [← map_atom_literals hf]
  exact List.mem_map_of_mem (mem_literals_of_mem_groups hc hl)

theorem Group.groups_eq (houter : outer.IsJunction) (hf : Group outer.dual f) :
    f.groups outer = [f.literals] := by
  induction hf with
  | @leaf f hf =>
    match f, hf with
    | .atom a, _ => rfl
    | .not (.atom a), _ => rfl
  | join _ _ ihl ihr =>
    rw [groups_binary_dual houter, ihl, ihr]
    rfl

theorem NormalForm.mem_groups_of_mem_atoms (houter : outer.IsJunction) (hf : NormalForm outer f)
    {a : Atom} (ha : a ∈ f.atoms) : ∃ c ∈ f.groups outer, ∃ l ∈ c, l.atom = a := by
  induction hf with
  | @leaf f hf =>
    rw [← map_atom_literals (Group.matrix houter.dual hf)] at ha
    rw [Group.groups_eq houter hf]
    exact ⟨f.literals, List.mem_singleton_self _, List.mem_map.mp ha⟩
  | join _ _ ihl ihr =>
    rw [groups_binary_self]
    rcases List.mem_append.mp ha with ha | ha
    · obtain ⟨c, hc, h⟩ := ihl ha
      exact ⟨c, List.mem_append_left _ hc, h⟩
    · obtain ⟨c, hc, h⟩ := ihr ha
      exact ⟨c, List.mem_append_right _ hc, h⟩

/-- The groups of a grafted normal form are those of what is put in the place of each group. -/
theorem NormalForm.groups_graft (houter : outer.IsJunction) {leaf : Formula → Formula}
    {h : List Literal → List (List Literal)} (hf : NormalForm outer f)
    (hleaf : ∀ g, Group outer.dual g → (leaf g).groups outer = h g.literals) :
    (f.graft outer leaf).groups outer = (f.groups outer).flatMap h := by
  induction hf with
  | leaf hf =>
    rw [graft_of_kind_ne (Group.kind_ne houter.dual_ne hf), hleaf _ hf, hf.groups_eq houter]
    simp
  | join _ _ ihl ihr =>
    rw [graft_binary, groups_binary_self, groups_binary_self, ihl, ihr, List.flatMap_append]

theorem NormalForm.groups_pairUp (houter : outer.IsJunction) (hl : NormalForm outer l)
    (hr : NormalForm outer r) : (Formula.pairUp outer outer.dual l r).groups outer =
      (l.groups outer).flatMap fun x => (r.groups outer).map (x ++ ·) := by
  refine hl.groups_graft houter fun x hx => ?_
  have hpair : (graft outer (fun y => binary outer.dual x y) r).groups outer =
      (r.groups outer).flatMap fun y => [x.literals ++ y] := by
    refine hr.groups_graft houter fun y hy => ?_
    rw [groups_binary_dual houter, hx.groups_eq houter, hy.groups_eq houter]
    rfl
  exact hpair.trans (List.map_eq_flatMap ..).symm

/-- Distribution keeps the groups, their order and the order in them. -/
theorem groups_distributed (houter : outer.IsJunction) (hf : f.Matrix) :
    (f.distributed outer).groups outer = f.groups outer := by
  induction hf with
  | atom a => rfl
  | negated a => rfl
  | binary hc hl hr ihl ihr =>
    rw [distributed, groups]
    split
    · rw [groups_binary_self, ihl, ihr]
    · rw [(normalForm_distributed houter hl).groups_pairUp houter (normalForm_distributed houter hr),
        ihl, ihr]

theorem atoms_distributed_subset (houter : outer.IsJunction) (hf : f.Matrix) :
    (f.distributed outer).atoms ⊆ f.atoms := by
  intro a ha
  obtain ⟨c, hc, l, hl, rfl⟩ := (normalForm_distributed houter hf).mem_groups_of_mem_atoms houter ha
  rw [groups_distributed houter hf] at hc
  exact atom_mem_of_mem_groups hf hc hl

end Formula

end Clausification

import Clausification.Formula.Walk
import Clausification.Proofs.Result

/-!
# Walks as recursions

A walk over pending steps computes what a recursion on the formula computes: enter the node, run
through the formulas below it from left to right, and leave it. Everything that the library folds
over a formula is therefore given by one equation for each kind of node.
-/

namespace Clausification.Formula

variable {m : Type → Type} [Monad m] {β γ : Type}

/-- A walk said by recursion. -/
def descend (d : Descent) (visit : Formula → List β → γ → m β) (enter : Formula → γ → m γ)
    (context : γ) (f : Formula) : m β :=
  if (d.kids f).isEmpty then visit f [] context
  else do
    let inner ← enter f context
    let results ← (d.kids f).attach.mapM fun k => descend d visit enter inner k.1
    visit f results inner
termination_by f.size
decreasing_by exact d.size_lt f k.1 k.2

section
variable [LawfulMonad m]

/-- Only lists as long as the list that was run through have to be considered behind it. -/
theorem mapM_bind_congr {α δ : Type} (g : α → m β) (ks : List α) {k₁ k₂ : List β → m δ}
    (h : ∀ rs, rs.length = ks.length → k₁ rs = k₂ rs) : ks.mapM g >>= k₁ = ks.mapM g >>= k₂ := by
  induction ks generalizing k₁ k₂ with
  | nil => simpa using h [] rfl
  | cons a ks ih =>
    simp only [List.mapM_cons, bind_assoc, pure_bind]
    congr 1
    funext b
    exact ih fun rs hrs => h (b :: rs) (by simp [hrs])

variable (d : Descent) (visit : Formula → List β → γ → m β) (enter : Formula → γ → m γ)

theorem descend_eq (context : γ) (f : Formula) :
    descend d visit enter context f =
      if (d.kids f).isEmpty then visit f [] context
      else (do
        let inner ← enter f context
        let results ← (d.kids f).mapM (descend d visit enter inner)
        visit f results inner) := by
  rw [descend]
  simp

/-- Pending entries are worked off one after the other. -/
theorem walkTasks_enterAll (inner : γ) (ks : List Formula) (tasks : List (Task γ))
    (results : List β)
    (h : ∀ k ∈ ks, ∀ tasks results, walkTasks d visit enter (.enter k inner :: tasks) results =
      descend d visit enter inner k >>= fun r => walkTasks d visit enter tasks (r :: results)) :
    walkTasks d visit enter (Task.enterAll inner ks ++ tasks) results =
      ks.mapM (descend d visit enter inner) >>= fun rs =>
        walkTasks d visit enter tasks (rs.reverse ++ results) := by
  induction ks generalizing results with
  | nil => simp [Task.enterAll]
  | cons k ks ih =>
    have hk := h k List.mem_cons_self
    have ht := ih (h := fun k' hk' => h k' (List.mem_cons_of_mem k hk'))
    simp only [Task.enterAll, List.map_cons, List.cons_append] at ht ⊢
    simp only [hk, ht, List.mapM_cons, bind_assoc, pure_bind, List.reverse_cons, List.append_assoc,
      List.cons_append, List.nil_append]

/-- Entering a formula puts its result on top of the earlier ones, whatever else is pending. -/
theorem walkTasks_enter (f : Formula) (context : γ) (tasks : List (Task γ)) (results : List β) :
    walkTasks d visit enter (.enter f context :: tasks) results =
      descend d visit enter context f >>= fun r => walkTasks d visit enter tasks (r :: results) := by
  rw [walkTasks, descend_eq]
  split
  · rfl
  · simp only [bind_assoc]
    congr 1
    funext inner
    have hkids : ∀ k ∈ d.kids f, ∀ tasks results,
        walkTasks d visit enter (.enter k inner :: tasks) results =
          descend d visit enter inner k >>= fun r => walkTasks d visit enter tasks (r :: results) :=
      fun k hk tasks results =>
        have := d.size_lt f k hk
        walkTasks_enter k inner tasks results
    rw [walkTasks_enterAll d visit enter inner _ _ _ hkids]
    -- the node finds as many results on top as it has formulas below it
    apply mapM_bind_congr
    intro rs hrs
    have hlen : rs.reverse.length = (d.kids f).length := by simpa using hrs
    rw [walkTasks, ← hlen, List.take_left, List.drop_left, List.reverse_reverse]
termination_by f.size

theorem walk_eq_descend [Inhabited β] (context : γ) (f : Formula) :
    walk d visit enter context f = descend d visit enter context f := by
  simp [walk, walkTasks_enter, walkTasks]

end

section Everywhere
variable [LawfulMonad m] (visit : Formula → List β → γ → m β) (enter : Formula → γ → m γ) (c : γ)

theorem descend_atom (a : Atom) :
    descend .everywhere visit enter c (.atom a) = visit (.atom a) [] c := by
  simp [descend_eq, Descent.everywhere, children]

theorem descend_term (t : Term) :
    descend .everywhere visit enter c (.term t) = visit (.term t) [] c := by
  simp [descend_eq, Descent.everywhere, children]

theorem descend_not (f : Formula) :
    descend .everywhere visit enter c (.not f) = (do
      let inner ← enter (.not f) c
      let r ← descend .everywhere visit enter inner f
      visit (.not f) [r] inner) := by
  rw [descend_eq]
  simp [Descent.everywhere, children]

theorem descend_binary (b : Connective) (l r : Formula) :
    descend .everywhere visit enter c (.binary b l r) = (do
      let inner ← enter (.binary b l r) c
      let x ← descend .everywhere visit enter inner l
      let y ← descend .everywhere visit enter inner r
      visit (.binary b l r) [x, y] inner) := by
  rw [descend_eq]
  simp [Descent.everywhere, children]

theorem descend_quant (q : Quantifier) (x : String) (f : Formula) :
    descend .everywhere visit enter c (.quant q x f) = (do
      let inner ← enter (.quant q x f) c
      let r ← descend .everywhere visit enter inner f
      visit (.quant q x f) [r] inner) := by
  rw [descend_eq]
  simp [Descent.everywhere, children]

end Everywhere

section Fold
variable [LawfulMonad m] [Inhabited β] (visit : Formula → List β → m β)

theorem fold_atom (a : Atom) : fold visit (.atom a) = visit (.atom a) [] := by
  simp only [fold, walk_eq_descend, descend_atom]

theorem fold_term (t : Term) : fold visit (.term t) = visit (.term t) [] := by
  simp only [fold, walk_eq_descend, descend_term]

theorem fold_not (f : Formula) :
    fold visit (.not f) = fold visit f >>= fun r => visit (.not f) [r] := by
  simp only [fold, walk_eq_descend, descend_not, pure_bind]

theorem fold_binary (b : Connective) (l r : Formula) :
    fold visit (.binary b l r) =
      fold visit l >>= fun x => fold visit r >>= fun y => visit (.binary b l r) [x, y] := by
  simp only [fold, walk_eq_descend, descend_binary, pure_bind]

theorem fold_quant (q : Quantifier) (x : String) (f : Formula) :
    fold visit (.quant q x f) = fold visit f >>= fun r => visit (.quant q x f) [r] := by
  simp only [fold, walk_eq_descend, descend_quant, pure_bind]

end Fold

/-- A fold that runs through has found no obstacle at any node. -/
theorem visited_of_fold_eq_ok {ε : Type} [Inhabited β] {visit : Formula → List β → Except ε β}
    {f : Formula} {r : β} (h : fold visit f = .ok r) :
    ∀ g ∈ f.subformulas, ∃ results r, visit g results = .ok r := by
  induction f generalizing r with
  | atom a =>
    rw [fold_atom] at h
    exact List.forall_mem_singleton.mpr ⟨_, _, h⟩
  | term t =>
    rw [fold_term] at h
    exact List.forall_mem_singleton.mpr ⟨_, _, h⟩
  | not f ih =>
    rw [fold_not] at h
    obtain ⟨x, hf, hvisit⟩ := bind_eq_ok.mp h
    exact List.forall_mem_cons.mpr ⟨⟨_, _, hvisit⟩, ih hf⟩
  | quant q x f ih =>
    rw [fold_quant] at h
    obtain ⟨y, hf, hvisit⟩ := bind_eq_ok.mp h
    exact List.forall_mem_cons.mpr ⟨⟨_, _, hvisit⟩, ih hf⟩
  | binary c l r ihl ihr =>
    rw [fold_binary] at h
    obtain ⟨x, hl, h⟩ := bind_eq_ok.mp h
    obtain ⟨y, hr, hvisit⟩ := bind_eq_ok.mp h
    exact List.forall_mem_cons.mpr ⟨⟨_, _, hvisit⟩, List.forall_mem_append.mpr ⟨ihl hl, ihr hr⟩⟩

end Clausification.Formula

import Mathlib.Data.List.Basic
import Clausification.Json.Basic

/-!
# What can be written

A value that holds no torn string is written as a whole, at any depth.
-/

namespace Clausification.Json

/-- A text between quotation marks. -/
def quote (s : String) : String := quotedWith plainChar s.toList

def IsWhole (v : Json) : Prop := ∀ depth, (writtenAt depth v).whole

/-- Members with texts for names and with values that have a property. -/
inductive AllMembers (P : Json → Prop) : List (LooseText × Json) → Prop
  | nil : AllMembers P []
  | cons {name : String} {v : Json} {ms : List (LooseText × Json)} (hv : P v)
      (hms : AllMembers P ms) : AllMembers P ((.text name, v) :: ms)

theorem AllMembers.imp {P Q : Json → Prop} (h : ∀ v, P v → Q v) {ms : List (LooseText × Json)}
    (hms : AllMembers P ms) : AllMembers Q ms := by
  induction hms with
  | nil => exact .nil
  | cons hv _ ih => exact .cons (h _ hv) ih

theorem isWhole_bool (b : Bool) : (bool b).IsWhole := by
  intro depth
  cases b <;> rw [writtenAt]

theorem isWhole_int (n : Int) : (int n).IsWhole := by
  intro depth
  rw [writtenAt]

theorem isWhole_string (s : String) : (string s).IsWhole := by
  intro depth
  rw [writtenAt, literal]

theorem isWhole_ofOption {α : Type} {f : α → Json} (h : ∀ a, (f a).IsWhole) (o : Option α) :
    (ofOption f o).IsWhole := by
  intro depth
  cases o with
  | none => rw [ofOption, writtenAt]
  | some a => exact h a depth

theorem not_isWhole_torn (before : String) (half : Half) (behind : List Point) :
    ¬(loose (.torn before half behind)).IsWhole := by
  intro h
  have hwhole := h 0
  rw [writtenAt, literal] at hwhole
  exact Bool.false_ne_true hwhole

theorem whole_writtenItems (depth : Nat) (lead : String) {items : List Json}
    (hitems : ∀ v ∈ items, v.IsWhole) : (writtenItems depth lead items).whole := by
  induction items generalizing lead with
  | nil => rw [writtenItems]
  | cons v items ih =>
    obtain ⟨hv, hrest⟩ := List.forall_mem_cons.mp hitems
    have hnext := ih ("," ++ indentation depth) hrest
    rw [writtenItems]
    · simp [hv depth, hnext]
    · rintro before half behind rfl
      exact not_isWhole_torn before half behind hv

theorem isWhole_array {items : List Json} (hitems : ∀ v ∈ items, v.IsWhole) :
    (array items).IsWhole := by
  intro depth
  cases items with
  | nil => rw [writtenAt]
  | cons v items =>
    rw [writtenAt, Written.whole_append, whole_writtenItems _ _ hitems]
    rfl

theorem isWhole_arrayMap {α : Type} {f : α → Json} (h : ∀ a, (f a).IsWhole) (as : List α) :
    (array (as.map f)).IsWhole := by
  apply isWhole_array
  intro v hv
  obtain ⟨a, -, rfl⟩ := List.mem_map.mp hv
  exact h a

theorem whole_writtenMembers (depth : Nat) (lead : String) {ms : List (LooseText × Json)}
    (hms : AllMembers IsWhole ms) : (writtenMembers depth lead ms).whole := by
  induction hms generalizing lead with
  | nil => rw [writtenMembers]
  | cons hv _ ih => simp [writtenMembers, literal, hv depth, ih]

theorem isWhole_object {ms : List (LooseText × Json)} (hms : AllMembers IsWhole ms) :
    (object ms).IsWhole := by
  intro depth
  cases ms with
  | nil => rw [writtenAt]
  | cons m ms =>
    rw [writtenAt, Written.whole_append, whole_writtenMembers _ _ hms]
    rfl

end Clausification.Json

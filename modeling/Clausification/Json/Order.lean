import Clausification.Json.Basic

/-!
# The order of JSON values

Which of two values comes first, where that makes sense: among numbers, truth values counting as one
and zero, among strings, and among arrays by their first items that differ.
-/

namespace Clausification

/-- The place of a number among all numbers: `n · 2^exponent`, an infinity, or none at all. -/
inductive Quantity where
  | scaled (n : Int) (exponent : Int)
  | infinite (negative : Bool)
  | none
deriving DecidableEq

namespace Quantity

def align (a e b f : Int) : Int × Int :=
  (a * Binary64.power 2 (e - min e f), b * Binary64.power 2 (f - min e f))

def less : Quantity → Quantity → Bool
  | scaled a e, scaled b f => (align a e b f).1 < (align a e b f).2
  | infinite negative, scaled _ _ => negative
  | scaled _ _, infinite negative => !negative
  | infinite negative, infinite negative' => negative && !negative'
  | none, _ | _, none => false

def same : Quantity → Quantity → Bool
  | scaled a e, scaled b f => (align a e b f).1 == (align a e b f).2
  | infinite negative, infinite negative' => negative == negative'
  | none, none => true
  | _, _ => false

end Quantity

namespace Json

def quantity? : Json → Option Quantity
  | bool b => some (.scaled (if b then 1 else 0) 0)
  | int n => some (.scaled n 0)
  | real (.finite negative m e) => some (.scaled (if negative then -m else m) e)
  | real (.infinite negative) => some (.infinite negative)
  | real .nan => some .none
  | _ => none

def sameScalar (v w : Json) : Bool :=
  match v.quantity?, w.quantity? with
  | some a, some b => a.same b
  | _, _ =>
    match v, w with
    | null, null => true
    | loose s, loose t => s == t
    | _, _ => false

mutual

/-- Values that are equal: numbers by their place, objects whatever the order of their members. -/
def same : Json → Json → Bool
  | array vs, array ws => sameItems vs ws
  | object ms, object ns => ms.length == ns.length && sameMembers ms ns
  | v, w => sameScalar v w

def sameItems : List Json → List Json → Bool
  | [], [] => true
  | v :: vs, w :: ws => same v w && sameItems vs ws
  | _, _ => false

def sameMembers : List (LooseText × Json) → List (LooseText × Json) → Bool
  | [], _ => true
  | (name, v) :: ms, ns =>
    (match ns.lookup name with
      | some w => same v w
      | none => false) && sameMembers ms ns

end

def scalarBefore? (v w : Json) : Option Bool :=
  match v.quantity?, w.quantity? with
  | some a, some b => some (a.less b)
  | _, _ =>
    match v, w with
    | loose s, loose t => some (s.less t)
    | _, _ => none

mutual

def before? : Json → Json → Option Bool
  | array vs, array ws => itemsBefore? vs ws
  | v, w => scalarBefore? v w

def itemsBefore? : List Json → List Json → Option Bool
  | [], ws => some !ws.isEmpty
  | _ :: _, [] => some false
  | v :: vs, w :: ws => if same v w then itemsBefore? vs ws else before? v w

end

end Json

end Clausification

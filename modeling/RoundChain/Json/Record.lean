import RoundChain.Json.Basic

/-!
# Reading records from JSON

A record is written as an object, its fields by name in any order, or as an array,
its fields in the order of declaration. A field may be missing if the record has a
default for it, and may not be given twice. Members that name no field are
skipped; elements past the last field are refused.

Every reader answers with nothing when the value is not one of its kind. Which
fault it was is never told.
-/

namespace RoundChain

namespace Json

/-! ### Plain values -/

/-- An integer below `bound`. -/
def natBelow? (bound : Nat) : Json → Option Nat
  | number (.integer n) => if 0 ≤ n ∧ n.toNat < bound then some n.toNat else none
  | _ => none

/-- A 64-bit word. -/
def word64? (j : Json) : Option UInt64 := (j.natBelow? UInt64.size).map UInt64.ofNat

/-- A 32-bit word. -/
def word32? (j : Json) : Option UInt32 := (j.natBelow? UInt32.size).map UInt32.ofNat

/-- A count. -/
def count? (j : Json) : Option Nat := j.natBelow? UInt64.size

/-- A truth value. -/
def bool? : Json → Option Bool
  | bool b => some b
  | _ => none

/-- A text. -/
def text? : Json → Option String
  | text (.whole t) => some t
  | _ => none

/-- A value that may be null. -/
def orNull? {α : Type} (read : Json → Option α) : Json → Option (Option α)
  | null => some none
  | j => (read j).map some

/-! ### Records -/

/-- The value of the member with a name: none at all if it is given twice, `some none` if it is not
given. -/
def member? (ms : List (JsonText × Json)) (name : String) : Option (Option Json) :=
  match ms.filter (·.1 == .whole name) with
  | [] => some none
  | [(_, v)] => some (some v)
  | _ => none

/-- The values of a record's fields, in the order of the names; a field not given has none. -/
def fields? (names : List String) : Json → Option (List (Option Json))
  | object ms => if ms.any (·.1 == .broken) then none else names.mapM (member? ms)
  | array es =>
    if es.length ≤ names.length then
      some (es.map some ++ List.replicate (names.length - es.length) none)
    else none
  | _ => none

/-- A field's value, or its default. -/
def fieldOr? {α : Type} (read : Json → Option α) (default : α) : Option Json → Option α
  | none => some default
  | some j => read j

/-- The value of a field that has no default. -/
def field? {α : Type} (read : Json → Option α) : Option Json → Option α
  | none => none
  | some j => read j

end Json

end RoundChain
